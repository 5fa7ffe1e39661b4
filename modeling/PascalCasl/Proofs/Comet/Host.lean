import Mathlib.Data.List.Nodup
import PascalCasl.Proofs.Comet.Library

/-!
Machines that hold units. The units may lie anywhere among other code and data.
Code is followed by its numbers in the unit, and a routine that saves registers
is judged by what lies between the saving and the restoring.
-/

namespace PascalCasl.Comet

open Casl (Arithmetic Register)

def Action.places {α : Type} : Action α → List (Place α)
  | .load _ (.memory place) | .compute _ _ (.memory place) => [place]
  | .compareSigned _ (.memory place) | .compareUnsigned _ (.memory place) => [place]
  | .store _ place | .loadAddress _ place | .push place => [place]
  | .shiftLeft _ count | .shiftRight _ count => [count]
  | _ => []

def Instr.places {α : Type} : Instr α → List (Place α)
  | .act action => action.places
  | .jump _ target | .call target => [target]
  | .ret => []
  | .input buffer length | .output buffer length => [buffer, length]

def Ref.literal? : Ref → Option Word
  | .literal word => some word
  | _ => none

def Segment.literals (segment : Segment) : List Word :=
  (segment.code.flatMap Instr.places).filterMap fun place => place.base.literal?

def literals (segments : List Segment) : List Word :=
  (segments.flatMap Segment.literals).eraseDups

/-- A word of the data of a unit, or the word of a literal. -/
inductive Cell where
  | datum (unit : String) (number : Nat)
  | literal (word : Word)
  deriving DecidableEq

def cellsOf (segments : List Segment) : List Cell :=
  segments.flatMap (fun segment => (List.range segment.data.length).map (.datum segment.name)) ++
    (literals segments).map .literal

def Placement.cell (placement : Placement) : Cell → Word
  | .datum unit number => placement.address unit (.data number)
  | .literal word => placement.literal word

def Placement.cells (placement : Placement) (segments : List Segment) : List Word :=
  (cellsOf segments).map placement.cell

/-- Code in which units have been placed. No two of their cells are the same, and
the number of an instruction is a word. -/
structure Host (segments : List Segment) where
  code : List (Instr Word)
  placement : Placement
  small : code.length < 65536
  hosted : ∀ segment ∈ segments,
    segment.code.map (Instr.map (placement.address segment.name)) <+:
      code.drop (placement.code segment.name)
  named : ∀ segment ∈ segments,
    placement.unit segment.name = placement.address segment.name segment.first
  apart : (placement.cells segments).Nodup

/-- The instructions stand in the unit from `number` on. -/
def Segment.Lists (segment : Segment) (number : Nat) (instrs : List (Instr Ref)) : Prop :=
  instrs <+: segment.code.drop number

theorem datum_listed {segments : List Segment} {segment : Segment} {number : Nat}
    (member : segment ∈ segments) (inside : number < segment.data.length) :
    .datum segment.name number ∈ cellsOf segments :=
  List.mem_append_left _ (List.mem_flatMap.mpr
    ⟨segment, member, List.mem_map_of_mem (List.mem_range.mpr inside)⟩)

theorem literal_listed {segments : List Segment} {word : Word} (member : word ∈ literals segments) :
    .literal word ∈ cellsOf segments :=
  List.mem_append_right _ (List.mem_map_of_mem member)

theorem Segment.Lists.tail {segment : Segment} {number : Nat} {first : Instr Ref}
    {rest : List (Instr Ref)} (listed : segment.Lists number (first :: rest)) :
    segment.Lists (number + 1) rest := by
  obtain ⟨behind, split⟩ := listed
  refine ⟨behind, ?_⟩
  rw [← List.tail_drop, ← split]
  rfl

theorem Segment.Lists.behind {segment : Segment} {number : Nat} {first rest : List (Instr Ref)}
    (listed : segment.Lists number (first ++ rest)) :
    segment.Lists (number + first.length) rest := by
  induction first generalizing number with
  | nil => exact listed
  | cons instr others ih =>
      rw [List.length_cons, Nat.add_comm others.length, ← Nat.add_assoc]
      exact ih listed.tail

namespace Host

variable {segments : List Segment} (host : Host segments) {segment : Segment}

def cells : List Word := host.placement.cells segments

def before (segment : Segment) (number : Nat) (core : Core Terminal) : State :=
  ⟨host.placement.code segment.name + number, core⟩

/-- The code of a unit leads from one of its instructions to another. -/
def Runs (segment : Segment) (number : Nat) (core : Core Terminal) (next : Nat)
    (after : Core Terminal) : Prop :=
  Reaches host.code (host.before segment number core) (host.before segment next after)

/-- What an instruction of a unit became where the unit is placed. -/
def place (segment : Segment) (instr : Instr Ref) : Instr Word :=
  instr.map (host.placement.address segment.name)

def act (segment : Segment) (core : Core Terminal) (action : Action Ref) : Core Terminal :=
  (action.map (host.placement.address segment.name)).perform core

def perform (segment : Segment) (actions : List (Action Ref)) (core : Core Terminal) :
    Core Terminal :=
  actions.foldl (host.act segment) core

theorem cell_placed {cell : Cell} (member : cell ∈ cellsOf segments) :
    host.placement.cell cell ∈ host.cells :=
  List.mem_map_of_mem member

theorem cells_apart {first second : Cell} (member : first ∈ cellsOf segments)
    (memberToo : second ∈ cellsOf segments) (different : first ≠ second) :
    host.placement.cell first ≠ host.placement.cell second := fun same =>
  different (List.inj_on_of_nodup_map host.apart member memberToo same)

section

variable {host} {core : Core Terminal} {register source : Register} {word : Word}

@[simp] theorem perform_nil : host.perform segment [] core = core := rfl

@[simp] theorem perform_cons (action : Action Ref) (rest : List (Action Ref)) :
    host.perform segment (action :: rest) core =
      host.perform segment rest (host.act segment core action) := rfl

@[simp] theorem act_save :
    host.act segment core (save register) = core.push (core.register register) := by
  change core.push (0#16 + core.register register) = _
  rw [BitVec.zero_add]

@[simp] theorem act_restore : host.act segment core (restore register) = core.pop register := rfl

@[simp] theorem act_move :
    host.act segment core (move register source) =
      (core.set register (core.register source)).flag (core.register source) false := rfl

@[simp] theorem act_put : host.act segment core (put register word) = core.set register word := rfl

@[simp] theorem act_increase :
    host.act segment core (increase register) =
      core.set register (1 + core.register register) := rfl

@[simp] theorem act_combine (operation : Operation) :
    host.act segment core (combine operation register source) =
      let result := operation.apply (core.register register) (core.register source)
      (core.set register result.1).flag result.1 result.2 := rfl

@[simp] theorem act_adjust (operation : Arithmetic) :
    host.act segment core (adjust operation register word) =
      let operand := core.memory (host.placement.literal word)
      let result := operation.compute (core.register register) operand
      (core.set register result).flag result
        (operation.overflows (core.register register) operand) := rfl

end

section

variable {host} {number middle next : Nat} {core between after : Core Terminal}

theorem Runs.refl (number : Nat) (core : Core Terminal) : host.Runs segment number core number core :=
  Reaches.refl _

theorem Runs.trans (one : host.Runs segment number core middle between)
    (two : host.Runs segment middle between next after) :
    host.Runs segment number core next after :=
  Reaches.trans one two

end

theorem fetched {number : Nat} {instr : Instr Ref} {rest : List (Instr Ref)}
    (member : segment ∈ segments) (listed : segment.Lists number (instr :: rest)) :
    host.code[host.placement.code segment.name + number]? = some (host.place segment instr) := by
  obtain ⟨behind, split⟩ := listed
  obtain ⟨after, whole⟩ := host.hosted segment member
  have inside : segment.code[number]? = some instr := by
    rw [← Nat.add_zero number, ← List.getElem?_drop, ← split]
    rfl
  rw [← List.getElem?_drop, ← whole, List.getElem?_append_left, List.getElem?_map, inside]
  · rfl
  · rw [List.length_map]
    exact (List.getElem?_eq_some_iff.mp inside).1

theorem number_small {number : Nat} (member : segment ∈ segments)
    (inside : number < segment.code.length) :
    host.placement.code segment.name + number < 65535 := by
  obtain ⟨behind, whole⟩ := host.hosted segment member
  have split := congrArg List.length whole
  rw [List.length_append, List.length_map, List.length_drop] at split
  have := host.small
  omega

theorem code_address {number : Nat} (member : segment ∈ segments)
    (inside : number < segment.code.length) :
    (host.placement.address segment.name (.code number)).toNat =
      host.placement.code segment.name + number := by
  have small := host.number_small member inside
  rw [Placement.address, BitVec.toNat_ofNat]
  omega

theorem actions_run (member : segment ∈ segments) (number : Nat) (actions : List (Action Ref))
    (listed : segment.Lists number (acts actions)) (core : Core Terminal) :
    host.Runs segment number core (number + actions.length) (host.perform segment actions core) := by
  induction actions generalizing number core with
  | nil => exact .refl _ _
  | cons action rest ih =>
      have first : host.Runs segment number core (number + 1) (host.act segment core action) :=
        Reaches.once (host.fetched member listed) rfl
      rw [List.length_cons, Nat.add_comm rest.length, ← Nat.add_assoc]
      exact first.trans (ih _ listed.tail _)

section

variable (member : segment ∈ segments) (number : Nat) (test : Test) (target : Nat)
  (listed : segment.Lists number [go test target]) (core : Core Terminal)

include member listed

theorem jump_run (inside : target < segment.code.length) (holds : test.passes core = true) :
    host.Runs segment number core target core := by
  refine Reaches.once (host.fetched member listed) ?_
  change (if test.passes core then
      some (State.mk (host.placement.address segment.name (.code target)).toNat core)
    else _) = _
  rw [if_pos holds, host.code_address member inside]
  rfl

theorem pass_run (fails : test.passes core = false) :
    host.Runs segment number core (number + 1) core := by
  refine Reaches.once (host.fetched member listed) ?_
  change (if test.passes core then _ else _) = _
  rw [fails]
  rfl

end

end Host

theorem library_literals :
    literals library = [1, 0xFFFF, 0x2D, 4, 0x30, 5, 0x20, 0x39] := by
  decide +kernel

namespace Host

/-- Cells of the library that are never written, with what they hold. -/
def constants : List (Cell × Word) :=
  (literals library).map (fun word => (.literal word, word)) ++
    writeIntegerSegment.data.zipIdx.map fun (word, number) =>
      (.datum writeIntegerSegment.name number, word)

variable (host : Host library)

def Ready (core : Core Terminal) : Prop :=
  ∀ constant ∈ constants, core.memory (host.placement.cell constant.1) = constant.2

variable {host} {core after : Core Terminal}

theorem constant_listed {constant : Cell × Word} (member : constant ∈ constants) :
    constant.1 ∈ cellsOf library := by
  rcases List.mem_append.mp member with literal | datum
  · obtain ⟨word, inside, rfl⟩ := List.mem_map.mp literal
    exact literal_listed inside
  · obtain ⟨⟨word, number⟩, inside, rfl⟩ := List.mem_map.mp datum
    have less := List.snd_lt_of_mem_zipIdx inside
    exact datum_listed (by simp [library]) (by simpa using less)

theorem Ready.congr (ready : host.Ready core)
    (same : ∀ constant ∈ constants, after.memory (host.placement.cell constant.1) =
      core.memory (host.placement.cell constant.1)) : host.Ready after :=
  fun constant member => (same constant member).trans (ready constant member)

theorem Ready.literal (ready : host.Ready core) {word : Word} (member : word ∈ literals library) :
    core.memory (host.placement.literal word) = word :=
  ready (.literal word, word) (List.mem_append_left _ (List.mem_map_of_mem member))

theorem Ready.datum (ready : host.Ready core) {number : Nat} {word : Word}
    (held : writeIntegerSegment.data[number]? = some word) :
    core.memory (host.placement.cell (.datum writeIntegerSegment.name number)) = word :=
  ready (.datum _ number, word) (List.mem_append_right _
    (List.mem_map.mpr ⟨(word, number), List.mem_zipIdx_iff_getElem?.mpr held, rfl⟩))

end Host

end PascalCasl.Comet
