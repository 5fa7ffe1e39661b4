import PascalCasl.Proofs.Simulation.Memory

/-!
A machine that can be run. The routines of the plain library do what they are
asked for and nothing else, so they meet their contract with every console. A
listing that was just loaded starts with its texts in memory, and how deep the
stack gets is found by running the machine.
-/

namespace PascalCasl

open Casl

def Library.plain (console : Console) : Library where
  Ready _ := True
  run
    | .multiply, core => core.set .gr2 (core.register .gr1 * core.register .gr2)
    | .divide, core =>
        (core.set .gr1 (Source.Value.remainder (core.register .gr1) (core.register .gr2))).set .gr2
          (Source.Value.quotient (core.register .gr1) (core.register .gr2))
    | .readInteger, core => core.store (core.register .gr2) (console.integer core.channel)
    | .readChar, core => core.store (core.register .gr2) (console.character core.channel).word
    | .readText, core =>
        { core with memory := fun address =>
            let place := (address - core.register .gr2).toNat
            if place < (core.register .gr1).toNat then
              (console.text core.channel (core.register .gr1).toNat place).word
            else core.memory address }
    | _, core => core

/-- The words of the texts in the lines; all other words are zero. -/
def textWord : Code → Nat → Word
  | [], _ => 0
  | first :: rest, place =>
      if place < first.op.size then
        match first.op with
        | .text characters =>
            match characters.toList[place]? with
            | some character => BitVec.ofNat 16 character.toNat
            | none => 0
        | _ => 0
      else textWord rest (place - first.op.size)

theorem text_word_append (before rest : Code) (place : Nat) :
    textWord (before ++ rest) (codeSize before + place) = textWord rest place := by
  induction before with
  | nil => simp
  | cons first others ih =>
      have beyond : ¬ first.op.size + codeSize others + place < first.op.size := by omega
      have left : first.op.size + codeSize others + place - first.op.size =
          codeSize others + place := by omega
      rw [List.cons_append, textWord, code_size_cons, if_neg beyond, left, ih]

namespace Machine

variable {machine : Machine} {console : Console} {initial : State}

theorem plain_keeps (core : Core) (routine : Routine) {address : Word}
    (outside : address ∉ target core routine) :
    ((Library.plain console).run routine core).memory address = core.memory address := by
  cases routine with
  | readInteger =>
      have differs : address ≠ core.register .gr2 := List.ne_of_not_mem_cons outside
      exact if_neg differs
  | readChar =>
      have differs : address ≠ core.register .gr2 := List.ne_of_not_mem_cons outside
      exact if_neg differs
  | readText =>
      apply if_neg
      intro inside
      apply outside
      rw [target, List.mem_map]
      -- The address is the first one plus its distance from it.
      refine ⟨_, List.mem_range.mpr inside, ?_⟩
      rw [BitVec.ofNat_toNat, BitVec.setWidth_eq, BitVec.add_comm, BitVec.sub_add_cancel]
  | readLine => rfl
  | writeInteger => rfl
  | writeChar => rfl
  | writeText => rfl
  | writeLine => rfl
  | multiply => rfl
  | divide => rfl

theorem plain_pointer (core : Core) (routine : Routine) :
    ((Library.plain console).run routine core).register .gr8 = core.register .gr8 := by
  cases routine <;> rfl

theorem plain_serves (fits : machine.Fits) (distinct : (labels machine.lines).Nodup)
    {core : Core} {routine : Routine} (shallow : machine.depth core ≤ machine.top - machine.limit)
    (cells : ∀ address ∈ target core routine, machine.isCell address = true) :
    machine.Serves console routine core ((Library.plain console).run routine core) where
  pointer := plain_pointer core routine
  stack number first last := by
    apply plain_keeps
    intro targeted
    have onStack := slot_is_stack fits first (Nat.le_trans last shallow)
    have apart := stack_not_cell fits distinct onStack
    rw [cells _ targeted] at apart
    cases apart
  image address _ outside := plain_keeps core routine outside
  result := by
    cases routine with
    | multiply => rfl
    | divide => exact ⟨rfl, rfl⟩
    | readInteger => exact if_pos rfl
    | readChar => exact if_pos rfl
    | readText =>
        intro place inside
        have small : place < 65536 := Nat.lt_trans inside (core.register .gr1).isLt
        -- a text is shorter than the address space, so the place is found again
        have offset : (core.register .gr2 + BitVec.ofNat 16 place - core.register .gr2).toNat =
            place := by
          rw [BitVec.add_comm, BitVec.add_sub_cancel, BitVec.toNat_ofNat, Nat.mod_eq_of_lt small]
        simp only [Library.plain, offset, if_pos inside]
    | readLine | writeInteger | writeChar | writeText | writeLine => trivial

/-- What a routine wrote to the trace is no part of its contract. -/
theorem serves_traced {routine : Routine} {before after : Core} (trace : List Event)
    (serves : machine.Serves console routine before after) :
    machine.Serves console routine before { after with channel := trace } := by
  refine ⟨⟨serves.pointer, serves.stack, serves.image⟩, ?_⟩
  cases routine <;> exact serves.result

theorem plain_meets (fits : machine.Fits) (distinct : (labels machine.lines).Nodup)
    (plain : machine.library = .plain console) : Library.Meets machine console initial := by
  have ready (core : Core) : machine.library.Ready core := by
    rw [plain]
    trivial
  refine ⟨fun core _ _ _ _ => ready core, fun _ after _ _ => ready after, fun _ _ _ => ready _,
    fun core routine callable => ?_⟩
  rw [serve, plain]
  exact serves_traced _ (plain_serves fits distinct callable.stack callable.target)

/-- The machine before its first step, with nothing in memory but the texts. -/
def loaded (machine : Machine) (entry : Word) : State where
  pc := entry
  core :=
    { register := fun register => if register = .gr8 then BitVec.ofNat 16 machine.top else 0
      zero := false
      negative := false
      overflow := false
      memory := fun address => textWord machine.lines (address.toNat - machine.origin)
      channel := [] }

theorem loaded_starts (fits : machine.Fits) {entry : Word}
    (begins : machine.address? .entry = some entry) : machine.Starts (machine.loaded entry) := by
  refine ⟨begins, rfl, ?_, rfl⟩
  intro place line characters found isText number character known
  rcases line_at_split found with ⟨before, after, split, rfl⟩
  have short : number < line.op.size := by
    rw [isText]
    exact (List.getElem?_eq_some_iff.mp known).1
  have below := line_below_limit fits ⟨after, split⟩
  have space := limit_in_space fits
  have offset : (BitVec.ofNat 16 (machine.origin + codeSize before + number)).toNat -
      machine.origin = codeSize before + number := by
    rw [BitVec.toNat_ofNat, Nat.mod_eq_of_lt (by omega)]
    omega
  simp only [loaded, offset]
  rw [split, List.append_assoc, text_word_append, List.singleton_append, textWord, if_pos short,
    isText]
  simp only [known]

/-- The machine stops after fewer than `fuel` steps, within its stack. -/
def stopsWithin (machine : Machine) : Nat → State → Bool
  | 0, _ => false
  | fuel + 1, state =>
      machine.depth state.core ≤ machine.top - machine.limit &&
        match machine.step state with
        | none => true
        | some next => machine.stopsWithin fuel next

theorem stack_fits_of_stops {fuel : Nat} {state : State}
    (stops : machine.stopsWithin fuel state = true) : machine.StackFits state := by
  induction fuel generalizing state with
  | zero => cases stops
  | succ fuel ih =>
      rw [stopsWithin, Bool.and_eq_true, decide_eq_true_eq] at stops
      intro reached path
      -- There is one next state at most, so the path is empty or goes through it.
      cases Relation.ReflTransGen.cases_head path with
      | inl same =>
          rw [← same]
          exact stops.1
      | inr further =>
          rcases further with ⟨next, stepped, rest⟩
          have later := stops.2
          rw [stepped] at later
          exact ih later reached rest

end Machine
end PascalCasl
