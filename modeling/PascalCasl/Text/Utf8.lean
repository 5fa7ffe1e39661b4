/-!
Bytes read as UTF-8. Every byte sequence has a reading: a broken character is
replaced by U+FFFD, once for each longest run of bytes that begins some
character without completing it.
-/

namespace PascalCasl.Text

def replacement : Char := '\uFFFD'

def isContinuation (byte : UInt8) : Bool :=
  0x80 ≤ byte && byte ≤ 0xBF

/-- Whether `second` can follow the lead byte of a character of three or four
bytes. -/
def canFollow (lead second : UInt8) : Bool :=
  if lead = 0xE0 then 0xA0 ≤ second && second ≤ 0xBF
  else if lead = 0xED then 0x80 ≤ second && second ≤ 0x9F
  else if lead = 0xF0 then 0x90 ≤ second && second ≤ 0xBF
  else if lead = 0xF4 then 0x80 ≤ second && second ≤ 0x8F
  else 0xE1 ≤ lead && lead ≤ 0xF3 && isContinuation second

/-- How many bytes after `lead` belong to the same broken character. -/
def brokenTail (lead : UInt8) : List UInt8 → Nat
  | [] => 0
  | [second] => if canFollow lead second then 1 else 0
  | second :: third :: _ =>
      if canFollow lead second then
        if 0xF0 ≤ lead && isContinuation third then 2 else 1
      else 0

/-- The character that stands at the head of the bytes, if they begin with a
whole one. -/
def decodeFirst? (bytes : List UInt8) : Option Char :=
  (bytes.take 4).toByteArray.utf8DecodeChar? 0

def decodeChars : List UInt8 → List Char
  | [] => []
  | lead :: rest =>
      match decodeFirst? (lead :: rest) with
      | some c => c :: decodeChars (rest.drop (c.utf8Size - 1))
      | none => replacement :: decodeChars (rest.drop (brokenTail lead rest))
  termination_by bytes => bytes.length
  decreasing_by all_goals (rw [List.length_drop, List.length_cons]; omega)

/-- The text of a byte sequence, broken characters replaced. -/
def decode (bytes : List UInt8) : String :=
  String.ofList (decodeChars bytes)

/-- The text of a byte sequence that is whole UTF-8. -/
def decodeWhole? (bytes : List UInt8) : Option String :=
  String.fromUTF8? bytes.toByteArray

def encode (text : String) : List UInt8 :=
  text.toUTF8.data.toList

end PascalCasl.Text
