import PascalCasl.Fault
import PascalCasl.Tree.Basic

/-!
Types of values and the names in scope. A table holds its newest entry first,
and a name means its newest entry.
-/

namespace PascalCasl

/-- The type of a value. The bounds of an array are checked where it is
declared and do not belong to its type. -/
inductive Ty where
  | standard (type : StandardType)
  | array (element : StandardType)
  deriving DecidableEq

namespace Ty

def integer : Ty := .standard .integer
def char : Ty := .standard .char
def boolean : Ty := .standard .boolean
def text : Ty := .array .char

def isArray : Ty → Bool
  | .standard _ => false
  | .array _ => true

def isPrintable (type : Ty) : Bool :=
  type = integer || type = char || type = text

def ofSpec : TypeSpec → Ty
  | .standard type => .standard type
  | .array _ _ element => .array element

end Ty

/-- Names with what they stand for. -/
abbrev Table (α : Type) := List (String × α)

namespace Table

variable {α : Type}

def find? (table : Table α) (name : String) : Option α := List.lookup name table

def holds (table : Table α) (name : String) : Bool := (table.find? name).isSome

end Table

/-- The names a statement may use. Locals hide globals; procedures have a table
of their own with the types of their parameters. -/
structure Scope where
  globals : Table Ty
  locals : Table Ty
  procedures : Table (List StandardType)

namespace Scope

def find? (scope : Scope) (name : String) : Option Ty :=
  match scope.locals.find? name with
  | some type => some type
  | none => scope.globals.find? name

end Scope
end PascalCasl
