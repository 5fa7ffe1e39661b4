/-!
The commands of the compiler, as they are given on a command line.
-/

namespace PascalCasl

structure Options where
  /-- A support library to use instead of the bundled one. -/
  library? : Option String
  dumpTree : Bool
  deriving DecidableEq

inductive Command where
  | lexer (input output : String)
  | compiler (input output : String) (options : Options)
  | all (input directory : String) (options : Options)
  deriving DecidableEq

end PascalCasl
