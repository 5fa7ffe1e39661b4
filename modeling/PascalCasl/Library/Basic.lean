import PascalCasl.Library.Routine
import PascalCasl.Library.Source
import PascalCasl.Text.Blank
import PascalCasl.Text.Lines

/-!
Support libraries: adding one to a compiled program, and finding the routines
that it does not define. A routine is defined by a line that begins with its
name and has the word START after it.
-/

namespace PascalCasl.Library

/-- A text whose last line is ended. The empty text has no line. -/
def ended (text : String) : String :=
  match text.toList.getLast? with
  | none => text
  | some last => if last = '\n' then text else text ++ "\n"

def append (assembly library : String) : String := ended assembly ++ ended library

def definesAt (name : String) (line : List Char) : Bool :=
  match line with
  | [] => false
  | first :: _ =>
      let (word, rest) := Text.splitWord line
      let (second, _) := Text.splitWord rest
      !Text.isBlank first && word = name.toList && second = "START".toList

def defines (library : String) (routine : Routine) : Bool :=
  (Text.lines library.toList).any (definesAt routine.name)

def missing (library : String) : List Routine :=
  Routine.all.filter fun routine => !defines library routine

end PascalCasl.Library
