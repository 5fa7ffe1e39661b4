/-!
The support routines that compiled programs call.
-/

namespace PascalCasl

inductive Routine where
  | readInteger | readChar | readText | readLine
  | writeInteger | writeChar | writeText | writeLine
  | multiply | divide
  deriving DecidableEq

namespace Routine

def name : Routine → String
  | readInteger => "RDINT"
  | readChar => "RDCH"
  | readText => "RDSTR"
  | readLine => "RDLN"
  | writeInteger => "WRTINT"
  | writeChar => "WRTCH"
  | writeText => "WRTSTR"
  | writeLine => "WRTLN"
  | multiply => "MULT"
  | divide => "DIV"

def all : List Routine :=
  [readInteger, readChar, readText, readLine, writeInteger, writeChar, writeText, writeLine,
    multiply, divide]

end Routine
end PascalCasl
