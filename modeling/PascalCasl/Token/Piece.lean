import PascalCasl.Fault
import PascalCasl.Text.Utf8
import PascalCasl.Token.Basic

/-!
A source text divided into pieces. The bytes of a text are gaps, which separate
tokens, and lexemes, which are tokens; the division stops at the first fault.
Each piece keeps the bytes it takes, so the pieces of a text without a fault
are the text.
-/

namespace PascalCasl

inductive Piece where
  /-- A blank, a line feed or a comment. -/
  | gap (bytes : List UInt8)
  | lexeme (kind : Kind) (bytes : List UInt8)
  /-- The bytes read before the fault was met. -/
  | fault (cause : LexicalCause) (bytes : List UInt8)

namespace Piece

def bytes : Piece → List UInt8
  | .gap bytes => bytes
  | .lexeme _ bytes => bytes
  | .fault _ bytes => bytes

def isFault : Piece → Bool
  | .fault _ _ => true
  | _ => false

def lineFeed : UInt8 := 10
def tab : UInt8 := 9
def quote : UInt8 := 39
def openBrace : UInt8 := 123
def closeBrace : UInt8 := 125

/-- Space, tab, carriage return and line feed. -/
def isSpace (byte : UInt8) : Bool :=
  byte = 32 || byte = tab || byte = 13 || byte = lineFeed

def isDigit (byte : UInt8) : Bool := 48 ≤ byte && byte ≤ 57

def isLetter (byte : UInt8) : Bool :=
  (65 ≤ byte && byte ≤ 90) || (97 ≤ byte && byte ≤ 122)

def isWordByte (byte : UInt8) : Bool := isLetter byte || isDigit byte

/-- The rest of a comment up to its brace, if it has one. Comments do not nest. -/
def comment : List UInt8 → Bool × List UInt8
  | [] => (false, [])
  | byte :: rest =>
      if byte = closeBrace then (true, [byte])
      else
        let (closed, taken) := comment rest
        (closed, byte :: taken)

/-- The rest of a string up to its closing quote, or up to the place where it
cannot go on. Two quotes in a row stand for one and do not close it. -/
def string : List UInt8 → Option LexicalCause × List UInt8
  | [] => (some .openString, [])
  | byte :: rest =>
      if byte = quote then
        match rest with
        | [] => (none, [byte])
        | next :: rest =>
            if next = quote then
              let (cause, taken) := string rest
              (cause, byte :: next :: taken)
            else (none, [byte])
      else if byte = lineFeed then (some .openString, [])
      else if byte = tab then (some .tabInString, [])
      else
        let (cause, taken) := string rest
        (cause, byte :: taken)

def doubleMarks : List ((Char × Char) × Kind) :=
  [(('<', '>'), .notEqual), (('<', '='), .lessEqual), (('>', '='), .greaterEqual),
    ((':', '='), .assign), (('.', '.'), .range)]

/-- Marks of one character. The slash is another spelling of `div`. -/
def marks : List (Char × Kind) :=
  [('=', .equal), ('<', .less), ('>', .greater), ('+', .plus), ('-', .minus), ('*', .star),
    ('/', .divWord), ('(', .leftParen), (')', .rightParen), ('[', .leftBracket),
    (']', .rightBracket), (';', .semicolon), (':', .colon), (',', .comma), ('.', .dot)]

def charOf (byte : UInt8) : Char := Char.ofNat byte.toNat

def doubleMark? (byte next : UInt8) : Option Kind :=
  doubleMarks.lookup (charOf byte, charOf next)

def mark? (byte : UInt8) : Option Kind := marks.lookup (charOf byte)

def single (byte : UInt8) : Piece :=
  match mark? byte with
  | some kind => .lexeme kind [byte]
  | none => .fault (.strayByte byte) []

/-- A mark takes two bytes where two bytes make one. -/
def mark (byte : UInt8) : List UInt8 → Piece
  | [] => single byte
  | next :: _ =>
      match doubleMark? byte next with
      | some kind => .lexeme kind [byte, next]
      | none => single byte

def first (byte : UInt8) (rest : List UInt8) : Piece :=
  if byte = quote then
    match string rest with
    | (none, taken) => .lexeme .string (byte :: taken)
    | (some cause, taken) => .fault cause (byte :: taken)
  else if isDigit byte then
    .lexeme .constant (byte :: rest.takeWhile isDigit)
  else if isLetter byte then
    let word := byte :: rest.takeWhile isWordByte
    .lexeme (Kind.ofSpelling (Text.decode word)) word
  else if isSpace byte then
    .gap [byte]
  else if byte = openBrace then
    match comment rest with
    | (true, taken) => .gap (byte :: taken)
    | (false, taken) => .fault .openComment (byte :: taken)
  else mark byte rest

def all : List UInt8 → List Piece
  | [] => []
  | byte :: rest =>
      let piece := first byte rest
      if piece.isFault then [piece]
      else piece :: all (rest.drop (piece.bytes.length - 1))
  termination_by input => input.length
  decreasing_by rw [List.length_drop, List.length_cons]; omega

def lineFeeds (piece : Piece) : Nat := piece.bytes.count lineFeed

end Piece
end PascalCasl
