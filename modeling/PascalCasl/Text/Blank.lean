/-!
Blank characters: the code points of the Unicode property White_Space. The
table has 25 code points in ten ranges. Trimming and word splitting use this
class and no other.
-/

namespace PascalCasl.Text

/-- The ranges of White_Space code points, both ends included. -/
def blankRanges : List (Nat × Nat) :=
  [(0x09, 0x0D), (0x20, 0x20), (0x85, 0x85), (0xA0, 0xA0), (0x1680, 0x1680),
    (0x2000, 0x200A), (0x2028, 0x2029), (0x202F, 0x202F), (0x205F, 0x205F), (0x3000, 0x3000)]

def isBlank (c : Char) : Bool :=
  blankRanges.any fun range => range.1 ≤ c.toNat && c.toNat ≤ range.2

def trim (text : List Char) : List Char :=
  ((text.dropWhile isBlank).reverse.dropWhile isBlank).reverse

/-- The first word of a text and what follows it, leading blanks skipped. The
word is empty exactly when the text is blank. -/
def splitWord (text : List Char) : List Char × List Char :=
  (text.dropWhile isBlank).span fun c => !isBlank c

end PascalCasl.Text
