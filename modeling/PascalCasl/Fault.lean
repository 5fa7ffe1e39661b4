/-!
Why a program is not compiled. A fault keeps its cause and its place; the
wording is in `Fault.message` alone.
-/

namespace PascalCasl

inductive LexicalCause where
  | openComment
  | openString
  | tabInString
  /-- A byte that begins no token. -/
  | strayByte (byte : UInt8)
  deriving DecidableEq

inductive Fault where
  | lexical (cause : LexicalCause) (line : Nat)
  | syntactic (line : Nat)
  | semantic (line : Nat)
  /-- A line of a token stream that is no record; records count from one. -/
  | badRecord (number : Nat)
  deriving DecidableEq

/-- A stray byte is shown as the character of the same code point. -/
def LexicalCause.message : LexicalCause → String
  | .openComment => "\x7b is not closed"
  | .openString => "' is not closed"
  | .tabInString => "tab in a string"
  | .strayByte byte =>
      "undefined token that begins with \"" ++ String.singleton (Char.ofNat byte.toNat) ++
        "\" is included"

def Fault.message : Fault → String
  | .lexical cause line => cause.message ++ ": line " ++ line.repr
  | .syntactic line => "Syntax error: line " ++ line.repr
  | .semantic line => "Semantic error: line " ++ line.repr
  | .badRecord number => "Invalid token stream: record " ++ number.repr

def Fault.line? : Fault → Option Nat
  | .lexical _ line => some line
  | .syntactic line => some line
  | .semantic line => some line
  | .badRecord _ => none

end PascalCasl
