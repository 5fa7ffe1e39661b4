/-!
Tokens of the Pascal subset. The kinds of written tokens stand in one table,
and the position in the table is the kind's number in a token stream. The end
of the input is a kind of its own without a number.
-/

namespace PascalCasl

inductive Kind where
  | andWord | arrayWord | beginWord | booleanWord | charWord | divWord | doWord | elseWord
  | endWord | falseWord | ifWord | integerWord | modWord | notWord | ofWord | orWord
  | procedureWord | programWord | readlnWord | thenWord | trueWord | varWord | whileWord
  | writelnWord
  | equal | notEqual | less | lessEqual | greaterEqual | greater | plus | minus | star
  | leftParen | rightParen | leftBracket | rightBracket | semicolon | colon | range | assign
  | comma | dot
  | identifier | constant | string
  | endOfInput
  deriving DecidableEq

namespace Kind

/-- The kinds of written tokens with their stream names, in the order of their
numbers. -/
def table : List (Kind × String) :=
  [(andWord, "SAND"), (arrayWord, "SARRAY"), (beginWord, "SBEGIN"), (booleanWord, "SBOOLEAN"),
    (charWord, "SCHAR"), (divWord, "SDIVD"), (doWord, "SDO"), (elseWord, "SELSE"),
    (endWord, "SEND"), (falseWord, "SFALSE"), (ifWord, "SIF"), (integerWord, "SINTEGER"),
    (modWord, "SMOD"), (notWord, "SNOT"), (ofWord, "SOF"), (orWord, "SOR"),
    (procedureWord, "SPROCEDURE"), (programWord, "SPROGRAM"), (readlnWord, "SREADLN"),
    (thenWord, "STHEN"), (trueWord, "STRUE"), (varWord, "SVAR"), (whileWord, "SWHILE"),
    (writelnWord, "SWRITELN"), (equal, "SEQUAL"), (notEqual, "SNOTEQUAL"), (less, "SLESS"),
    (lessEqual, "SLESSEQUAL"), (greaterEqual, "SGREATEQUAL"), (greater, "SGREAT"),
    (plus, "SPLUS"), (minus, "SMINUS"), (star, "SSTAR"), (leftParen, "SLPAREN"),
    (rightParen, "SRPAREN"), (leftBracket, "SLBRACKET"), (rightBracket, "SRBRACKET"),
    (semicolon, "SSEMICOLON"), (colon, "SCOLON"), (range, "SRANGE"), (assign, "SASSIGN"),
    (comma, "SCOMMA"), (dot, "SDOT"), (identifier, "SIDENTIFIER"), (constant, "SCONSTANT"),
    (string, "SSTRING")]

def name (kind : Kind) : String :=
  match table.find? fun entry => entry.1 = kind with
  | some entry => entry.2
  | none => "SEOF"

def number? (kind : Kind) : Option Nat :=
  table.findIdx? fun entry => entry.1 = kind

/-- The kind of a stream name. The end of the input is never written, so its
name is unknown here. -/
def ofName? (name : String) : Option Kind :=
  (table.find? fun entry => entry.2 = name).map Prod.fst

/-- Reserved words are lower case; any other spelling is an identifier. -/
def reservedWords : List (String × Kind) :=
  [("and", andWord), ("array", arrayWord), ("begin", beginWord), ("boolean", booleanWord),
    ("char", charWord), ("div", divWord), ("do", doWord), ("else", elseWord), ("end", endWord),
    ("false", falseWord), ("if", ifWord), ("integer", integerWord), ("mod", modWord),
    ("not", notWord), ("of", ofWord), ("or", orWord), ("procedure", procedureWord),
    ("program", programWord), ("readln", readlnWord), ("then", thenWord), ("true", trueWord),
    ("var", varWord), ("while", whileWord), ("writeln", writelnWord)]

def ofSpelling (word : String) : Kind :=
  (reservedWords.lookup word).getD identifier

end Kind

structure Token where
  text : String
  kind : Kind
  line : Nat
  deriving DecidableEq

namespace Token

/-- The mark after the last written token. -/
def endOfInput (line : Nat) : Token := ⟨"", .endOfInput, line⟩

def isEnd (token : Token) : Bool := token.kind = .endOfInput

end Token
end PascalCasl
