import PascalCasl.Library.Routine

/-!
CASL II assembly as data: labels, operands and operations of the lines that a
compiled program consists of.
-/

namespace PascalCasl.Casl

inductive Register where
  | gr0 | gr1 | gr2 | gr3 | gr4 | gr5 | gr6 | gr7 | gr8
  deriving DecidableEq

/-- Labels of a compiled program. Numbered labels are counted apart in each
family. -/
inductive Label where
  | program
  | entry
  | variables
  | buffer
  | text (number : Nat)
  | procedure (number : Nat)
  | otherwise (number : Nat)
  | endIf (number : Nat)
  | loop (number : Nat)
  | endLoop (number : Nat)
  | onTrue (number : Nat)
  | onFalse (number : Nat)
  | both (number : Nat)
  deriving DecidableEq

inductive Base where
  | number (value : Int)
  | label (named : Label)
  deriving DecidableEq

/-- An address, to which the content of a register may be added. -/
structure Address where
  base : Base
  index : Option Register
  deriving DecidableEq

/-- A constant that the assembler places in memory. Truth values are words of
all ones and all zeros. -/
inductive Literal where
  | number (value : Int)
  | truth (value : Bool)
  | character (value : Char)
  deriving DecidableEq

inductive Source where
  | register (source : Register)
  | memory (address : Address)
  | literal (value : Literal)
  deriving DecidableEq

inductive Arithmetic where
  | add | subtract | and | or | xor
  deriving DecidableEq

inductive Condition where
  | always | zero | nonzero | minus | plus
  deriving DecidableEq

inductive Callee where
  | routine (called : Routine)
  | procedure (number : Nat)
  deriving DecidableEq

inductive Op where
  | load (register : Register) (source : Source)
  | store (register : Register) (address : Address)
  | loadAddress (register : Register) (address : Address)
  | compute (operation : Arithmetic) (register : Register) (source : Source)
  | compareSigned (register : Register) (source : Source)
  | compareUnsigned (register : Register) (source : Source)
  | jump (condition : Condition) (target : Label)
  | push (address : Address)
  | pop (register : Register)
  | call (callee : Callee)
  | ret
  | nop
  | start (first : Label)
  | reserve (cells : Nat)
  | text (characters : String)
  | finish
  deriving DecidableEq

structure Line where
  label? : Option Label
  op : Op
  deriving DecidableEq

abbrev Code := List Line

def line (op : Op) : Line := ⟨none, op⟩

def labelled (label : Label) (op : Op) : Line := ⟨some label, op⟩

def direct (value : Int) : Address := ⟨.number value, none⟩

def symbol (label : Label) : Address := ⟨.label label, none⟩

def content (register : Register) : Address := ⟨.number 0, some register⟩

/-- The cell of the variable region whose number is in a register. -/
def cell (register : Register) : Address := ⟨.label .variables, some register⟩

end PascalCasl.Casl
