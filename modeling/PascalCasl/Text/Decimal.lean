/-!
Decimal numerals. Writing uses the fewest digits; reading accepts any number of
leading zeros, and a limit is checked on the value and not on the length.
-/

namespace PascalCasl.Text

def isDigits (text : List Char) : Bool :=
  !text.isEmpty && text.all Char.isDigit

/-- The value of a nonempty run of ASCII digits. -/
def digitsValue? (text : List Char) : Option Nat :=
  if isDigits text then some (Nat.ofDigitChars 10 text 0) else none

/-- The number of values of a 64-bit word, two to the 64th. -/
def wordCount : Nat := 18446744073709551616

/-- Reads an unsigned 64-bit number: digits, with at most one plus sign before
them. -/
def unsigned? (text : List Char) : Option Nat :=
  let digits := match text with
    | '+' :: rest => rest
    | text => text
  (digitsValue? digits).filter (· < wordCount)

/-- The greatest signed 64-bit number, where the value of a literal stops
growing. -/
def literalLimit : Nat := 9223372036854775807

/-- The value of a number literal: literals above the limit have the value of
the limit. -/
def literalValue? (text : List Char) : Option Nat :=
  (digitsValue? text).map (min literalLimit)

end PascalCasl.Text
