import PascalCasl.Text.Lines

/-!
Paths as written on a command line: steps between slashes. Empty steps say
nothing, a path that begins with a slash starts at the root, and one that ends
with a slash names a directory.
-/

namespace PascalCasl.Path

def steps (path : String) : List String :=
  ((Text.pieces '/' path.toList).filter fun step => !step.isEmpty).map String.ofList

def isAbsolute (path : String) : Bool := path.toList.head? = some '/'

def namesDirectory (path : String) : Bool := path.toList.getLast? = some '/'

/-- The steps to what a path names. A slash at the end asks for a directory, like
a step that stays in place. -/
def walked (path : String) : List String :=
  steps path ++ if namesDirectory path then ["."] else []

/-- The name at the end of a path. Steps that stay in place are passed over;
the root and a step up have no name. -/
def fileName? (path : String) : Option String :=
  match ((steps path).filter fun step => step ≠ ".").getLast? with
  | none => none
  | some name => if name = ".." then none else some name

/-- A name up to its last dot, unless the dot is its first character. -/
def dropExtension (name : String) : String :=
  match name.toList.reverse.dropWhile (· ≠ '.') with
  | [] => name
  | [_] => name
  | _ :: before => String.ofList before.reverse

def stem? (path : String) : Option String := (fileName? path).map dropExtension

def join (directory name : String) : String :=
  if namesDirectory directory then directory ++ name else directory ++ "/" ++ name

end PascalCasl.Path
