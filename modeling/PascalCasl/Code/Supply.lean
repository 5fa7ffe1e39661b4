import PascalCasl.Fault

/-!
What code generation hands out as it goes: label numbers and the table of
texts. Each family of labels counts from zero over the whole program. Labels of
branches and loops are open from the place that first mentions them to the
place that defines them, and they close innermost first.
-/

namespace PascalCasl

structure OpenLabels where
  next : Nat
  opened : List Nat
  /-- Whether every label was the innermost open one when it was closed. -/
  orderly : Bool
  deriving DecidableEq

namespace OpenLabels

def empty : OpenLabels := ⟨0, [], true⟩

def push (stack : OpenLabels) : OpenLabels :=
  { stack with next := stack.next + 1, opened := stack.next :: stack.opened }

def close (stack : OpenLabels) (number : Nat) : OpenLabels :=
  { stack with
    opened := stack.opened.tail
    orderly := stack.orderly && stack.opened.head? = some number }

end OpenLabels

/-- The labels that are opened and closed: those before an else part, behind a
conditional and around a loop. -/
inductive LabelFamily where
  | otherwise | endIf | loop
  deriving DecidableEq

structure Supply where
  otherwises : OpenLabels
  endIfs : OpenLabels
  loops : OpenLabels
  comparisons : Nat
  texts : List String
  deriving DecidableEq

namespace Supply

def empty : Supply := ⟨.empty, .empty, .empty, 0, []⟩

def stack (supply : Supply) : LabelFamily → OpenLabels
  | .otherwise => supply.otherwises
  | .endIf => supply.endIfs
  | .loop => supply.loops

def withStack (supply : Supply) (family : LabelFamily) (stack : OpenLabels) : Supply :=
  match family with
  | .otherwise => { supply with otherwises := stack }
  | .endIf => { supply with endIfs := stack }
  | .loop => { supply with loops := stack }

end Supply

/-- A step of code generation: it takes from the supply, and it gives a result
or a fault. -/
def Emit (α : Type) := Supply → Except Fault α × Supply

namespace Emit

variable {α β : Type}

def pure (value : α) : Emit α := fun supply => (.ok value, supply)

def bind (step : Emit α) (next : α → Emit β) : Emit β := fun supply =>
  match step supply with
  | (.ok value, supply) => next value supply
  | (.error fault, supply) => (.error fault, supply)

instance : Monad Emit where
  pure := Emit.pure
  bind := Emit.bind

def unknown (line : Nat) : Emit α := fun supply => (.error (.semantic line), supply)

def openLabel (family : LabelFamily) : Emit Nat := fun supply =>
  (.ok (supply.stack family).next, supply.withStack family (supply.stack family).push)

def closeLabel (family : LabelFamily) (number : Nat) : Emit Unit := fun supply =>
  (.ok (), supply.withStack family ((supply.stack family).close number))

def openOtherwise : Emit Nat := openLabel .otherwise

def closeOtherwise : Nat → Emit Unit := closeLabel .otherwise

def openEndIf : Emit Nat := openLabel .endIf

def closeEndIf : Nat → Emit Unit := closeLabel .endIf

def openLoop : Emit Nat := openLabel .loop

def closeLoop : Nat → Emit Unit := closeLabel .loop

def newComparison : Emit Nat := fun supply =>
  (.ok supply.comparisons, { supply with comparisons := supply.comparisons + 1 })

/-- Puts a text into the table; its number is its place. -/
def newText (text : String) : Emit Nat := fun supply =>
  (.ok supply.texts.length, { supply with texts := supply.texts ++ [text] })

end Emit
end PascalCasl
