import PascalCasl.Text.Decimal
import PascalCasl.Typing.Basic

/-!
Storage of a program. All variables live in one region of cells, numbered from
zero: first the globals, then for each procedure its parameters and its
variables. The storage of a procedure is fixed, so one activation of it has
cells at a time.

Cell numbers have no bound here. The check lets no variable have more than 65536
cells, so they pass 64 bits in no checked program of fewer than 2^48 variables.
The length of a range that runs backwards is counted modulo 2^64, but the check
refuses such a range, and nothing is said of what is allocated behind it.
-/

namespace PascalCasl

/-- The cells of a variable. Array cells are numbered from the lowest index. -/
inductive Cells where
  | scalar (base : Nat) (type : StandardType)
  | array (base : Nat) (element : StandardType) (low : Int) (count : Nat)
  deriving DecidableEq

namespace Cells

def base : Cells → Nat
  | .scalar base _ => base
  | .array base _ _ _ => base

def count : Cells → Nat
  | .scalar _ _ => 1
  | .array _ _ _ count => count

end Cells

/-- The number of cells between two bounds, as an unsigned 64-bit number. -/
def cellsBetween (low high : Bound) : Nat :=
  ((high.value - low.value + 1) % Text.wordCount).toNat

def Cells.ofSpec (base : Nat) : TypeSpec → Cells
  | .standard type => .scalar base type
  | .array low high element => .array base element low.value (cellsBetween low high)

/-- What is added to an index to get the cell of an element, as a signed 64-bit
number. -/
def elementOffset (base : Nat) (low : Int) : Int :=
  Int.bmod (base - low) Text.wordCount

namespace Layout

/-- Variables allocated from cell `next` on, and the cell after them. A name
allocated again means its newest cells, and the older cells stay. -/
def allocateVars (table : Table Cells) (next : Nat) : List VarDecl → Table Cells × Nat
  | [] => (table, next)
  | first :: rest =>
      let cells := Cells.ofSpec next first.type
      allocateVars ((first.name, cells) :: table) (next + cells.count) rest

def allocateParams (table : Table Cells) (next : Nat) : List Param → Table Cells × Nat
  | [] => (table, next)
  | first :: rest =>
      allocateParams ((first.name, .scalar next first.type) :: table) (next + 1) rest

end Layout

/-- The storage of one procedure. The ordinal names its code. -/
structure Frame where
  name : String
  ordinal : Nat
  base : Nat
  size : Nat
  locals : Table Cells

namespace Frame

def ofProcedure (ordinal base : Nat) (procedure : Procedure) : Frame :=
  let (locals, next) := Layout.allocateParams [] base procedure.params
  let (locals, next) := Layout.allocateVars locals next procedure.vars
  ⟨procedure.name, ordinal, base, next - base, locals⟩

/-- The cells of a frame in ascending order. -/
def cells (frame : Frame) : List Nat := List.range' frame.base frame.size

def next (frame : Frame) : Nat := frame.base + frame.size

end Frame

namespace Layout

/-- The frames of procedures from cell `next` on, and the cell after them. Their
ordinals go on from the number of procedures before them. -/
def allocateFrames (ordinal next : Nat) : List Procedure → List Frame × Nat
  | [] => ([], next)
  | first :: rest =>
      let frame := Frame.ofProcedure ordinal next first
      let (others, next) := allocateFrames (ordinal + 1) frame.next rest
      (frame :: others, next)

end Layout

structure Layout where
  globals : Table Cells
  frames : List Frame
  cells : Nat

def Layout.ofProgram (program : Program) : Layout :=
  let (globals, next) := Layout.allocateVars [] 0 program.vars
  let (frames, next) := Layout.allocateFrames 0 next program.procedures
  ⟨globals, frames, next⟩

end PascalCasl
