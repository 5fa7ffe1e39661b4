/-!
Dividing a text into lines and a line into columns. A line ends at a line feed,
and one carriage return right before the line feed belongs to the ending. The
last line needs no ending; a carriage return at the very end is part of it.
-/

namespace PascalCasl.Text

/-- Puts a character in front of the first piece. -/
def extendFirst (c : Char) : List (List Char) → List (List Char)
  | [] => [[c]]
  | piece :: pieces => (c :: piece) :: pieces

def lines : List Char → List (List Char)
  | [] => []
  | '\n' :: rest => [] :: lines rest
  | '\r' :: '\n' :: rest => [] :: lines rest
  | c :: rest => extendFirst c (lines rest)

/-- The pieces of a text between separators. A text without a separator is one
piece. -/
def pieces (separator : Char) : List Char → List (List Char)
  | [] => [[]]
  | c :: rest =>
      if c = separator then [] :: pieces separator rest
      else extendFirst c (pieces separator rest)

/-- The columns of a line stand between tabs. -/
def columns (line : List Char) : List (List Char) := pieces '\t' line

end PascalCasl.Text
