import PascalCasl.Fault
import PascalCasl.Text.Blank
import PascalCasl.Text.Decimal
import PascalCasl.Text.Lines
import PascalCasl.Token.Basic

/-!
Token streams: tokens as text, one record a line. A record has four columns
between tabs: the token's text, the name and the number of its kind, its line.
Reading uses the first, the second and the last column, so the number is not
checked and further columns before the last are passed over.
-/

namespace PascalCasl.Stream

/-- The record of a token. The end of the input has none. -/
def record? (token : Token) : Option String :=
  token.kind.number?.map fun number =>
    token.text ++ "\t" ++ token.kind.name ++ "\t" ++ number.repr ++ "\t" ++ token.line.repr ++ "\n"

def write (tokens : List Token) : String :=
  String.join (tokens.filterMap record?)

def isBlankLine (line : List Char) : Bool := line.all Text.isBlank

def ofColumns? : List (List Char) → Option Token
  | text :: name :: third :: more => do
      let kind ← Kind.ofName? (String.ofList name)
      let line ← Text.unsigned? (Text.trim ((third :: more).getLast (by simp)))
      pure ⟨String.ofList text, kind, line⟩
  | _ => none

/-- Reads the lines from record `number` on, where `line` is the line of the
last token so far. Blank lines count as records and hold no token. -/
def readFrom (number line : Nat) : List (List Char) → Except Fault (List Token)
  | [] => .ok [Token.endOfInput line]
  | text :: rest =>
      if isBlankLine text then readFrom (number + 1) line rest
      else
        match ofColumns? (Text.columns text) with
        | none => .error (.badRecord number)
        | some token => (readFrom (number + 1) token.line rest).map (token :: ·)

/-- The tokens of a stream, ended by a mark on the line of the last token. -/
def read (stream : String) : Except Fault (List Token) :=
  readFrom 1 1 (Text.lines stream.toList)

end PascalCasl.Stream
