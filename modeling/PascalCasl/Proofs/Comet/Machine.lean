import Mathlib.Logic.Relation
import PascalCasl.Proofs.Comet.Core
import PascalCasl.Proofs.Comet.Segment

/-!
The machine that assembled code runs on. Instructions are numbered and lie apart
from memory. GR8 points to the word that was pushed last, and a return with zero
in it ends the run. What would stop the machine with an error has no next state.
-/

namespace PascalCasl.Comet

open Casl (Register)

/-- The lines that are still to be read, and those that were written. -/
structure Terminal where
  input : List String
  output : List String

structure State where
  pc : Nat
  core : Core Terminal

@[simp] def Test.passes (core : Core Terminal) : Test → Bool
  | .on condition => core.holds condition
  | .onOverflow => core.overflow

def Place.address (place : Place Word) (core : Core Terminal) : Word :=
  match place.index with
  | none => place.base
  | some register => place.base + core.register register

def Operand.value (core : Core Terminal) : Operand Word → Word
  | .register source => core.register source
  | .memory place => core.memory (place.address core)

@[simp] def Operation.apply (left right : Word) : Operation → Word × Bool
  | .ordinary operation => (operation.compute left right, operation.overflows left right)
  | .addUnsigned => (left + right, left.uaddOverflow right)
  | .subtractUnsigned => (left - right, left.usubOverflow right)

def Action.perform (core : Core Terminal) : Action Word → Core Terminal
  | .nop => core
  | .load register source =>
      let word := source.value core
      (core.set register word).flag word false
  | .store register place => core.store (place.address core) (core.register register)
  | .loadAddress register place => core.set register (place.address core)
  | .compute operation register source =>
      let (word, overflow) := operation.apply (core.register register) (source.value core)
      (core.set register word).flag word overflow
  | .compareSigned register source =>
      core.compared (compare (core.register register).toInt (source.value core).toInt)
  | .compareUnsigned register source =>
      core.compared (compare (core.register register).toNat (source.value core).toNat)
  | .shiftLeft register count =>
      -- the last bit that is shifted out goes into the overflow flag
      let word := core.register register
      let count := (count.address core).toNat
      let out := decide (0 < count ∧ count ≤ 16) && word.getLsbD (16 - count)
      (core.set register (word <<< count)).flag (word <<< count) out
  | .shiftRight register count =>
      let word := core.register register
      let count := (count.address core).toNat
      let out := decide (0 < count ∧ count ≤ 16) && word.getLsbD (count - 1)
      (core.set register (word >>> count)).flag (word >>> count) out
  | .push place => core.push (place.address core)
  | .pop register => core.pop register

/-- Reads a line into a buffer and its length into a word, or -1 if there is none.
A buffer does not go beyond the last word of memory. -/
def Core.receive (core : Core Terminal) (buffer length : Word) : Option (Core Terminal) :=
  match core.channel.input with
  | [] => some (core.store length (-1))
  | line :: rest =>
      if buffer.toNat + line.length ≤ 65536 then
        let written := line.toList.zipIdx.foldl (fun core (character, place) =>
          core.store (buffer + BitVec.ofNat 16 place) (BitVec.ofNat 16 character.toNat)) core
        let received := written.store length (BitVec.ofNat 16 line.length)
        some { received with channel := { core.channel with input := rest } }
      else none

/-- Writes the line in a buffer, of which the low bytes are the characters. -/
def Core.send (core : Core Terminal) (buffer length : Word) : Option (Core Terminal) :=
  let count := (core.memory length).toNat
  if buffer.toNat + count ≤ 65536 then
    let line := (List.range count).map fun place =>
      Char.ofNat ((core.memory (buffer + BitVec.ofNat 16 place)).toNat % 256)
    some { core with
      channel := { core.channel with output := core.channel.output ++ [String.ofList line] } }
  else none

def execute (state : State) : Instr Word → Option State
  | .act action => some ⟨state.pc + 1, action.perform state.core⟩
  | .jump test target =>
      if test.passes state.core then some ⟨(target.address state.core).toNat, state.core⟩
      else some ⟨state.pc + 1, state.core⟩
  | .call target =>
      some ⟨(target.address state.core).toNat, state.core.push (BitVec.ofNat 16 (state.pc + 1))⟩
  | .ret =>
      let core := state.core
      if core.register .gr8 = 0 then none
      else some ⟨(core.memory (core.register .gr8)).toNat,
        core.set .gr8 (core.register .gr8 + 1)⟩
  | .input buffer length =>
      (state.core.receive (buffer.address state.core) (length.address state.core)).map
        fun core => ⟨state.pc + 1, core⟩
  | .output buffer length =>
      (state.core.send (buffer.address state.core) (length.address state.core)).map
        fun core => ⟨state.pc + 1, core⟩

def step (code : List (Instr Word)) (state : State) : Option State :=
  code[state.pc]?.bind (execute state)

def Reaches (code : List (Instr Word)) : State → State → Prop :=
  Relation.ReflTransGen fun before after => step code before = some after

namespace Reaches

variable {code : List (Instr Word)} {first second third : State}

theorem refl (state : State) : Reaches code state state := Relation.ReflTransGen.refl

theorem trans (one : Reaches code first second) (two : Reaches code second third) :
    Reaches code first third := Relation.ReflTransGen.trans one two

theorem once {instr : Instr Word} (fetched : code[first.pc]? = some instr)
    (executed : execute first instr = some second) : Reaches code first second := by
  refine Relation.ReflTransGen.single ?_
  rw [step, fetched]
  exact executed

end Reaches

section

variable {α β : Type} (f : α → β)

def Place.map (place : Place α) : Place β := ⟨f place.base, place.index⟩

def Operand.map : Operand α → Operand β
  | .register source => .register source
  | .memory place => .memory (place.map f)

def Action.map : Action α → Action β
  | .nop => .nop
  | .load register source => .load register (source.map f)
  | .store register place => .store register (place.map f)
  | .loadAddress register place => .loadAddress register (place.map f)
  | .compute operation register source => .compute operation register (source.map f)
  | .compareSigned register source => .compareSigned register (source.map f)
  | .compareUnsigned register source => .compareUnsigned register (source.map f)
  | .shiftLeft register count => .shiftLeft register (count.map f)
  | .shiftRight register count => .shiftRight register (count.map f)
  | .push place => .push (place.map f)
  | .pop register => .pop register

def Instr.map : Instr α → Instr β
  | .act action => .act (action.map f)
  | .jump test target => .jump test (target.map f)
  | .call target => .call (target.map f)
  | .ret => .ret
  | .input buffer length => .input (buffer.map f) (length.map f)
  | .output buffer length => .output (buffer.map f) (length.map f)

end

/-- Where units and literals lie: the number of the first instruction of a unit,
the address of its first word of data, what its name stands for, and the cell of
each literal. -/
structure Placement where
  code : String → Nat
  data : String → Word
  unit : String → Word
  literal : Word → Word

/-- What an address of the unit `name` stands for. -/
def Placement.address (placement : Placement) (name : String) : Ref → Word
  | .code number => BitVec.ofNat 16 (placement.code name + number)
  | .data number => placement.data name + BitVec.ofNat 16 number
  | .unit other => placement.unit other
  | .constant word => word
  | .literal word => placement.literal word

end PascalCasl.Comet
