import PascalCasl.Proofs.Simulation.Memory

/-!
Running listed lines. One theorem for each way a line can go on: to the next
line, by a jump, into a procedure, out of it, or through a routine. A run of
lines without jumps is followed by their effects alone.
-/

namespace PascalCasl

open Casl

/-- The operation leaves the registers of the library alone. -/
def Casl.Op.spares : Op → Bool
  | .load register _ | .loadAddress register _ | .compute _ register _ | .pop register =>
      register ≠ .gr6 && register ≠ .gr7
  | _ => true

namespace Machine

/-- A listing that fits, with its labels defined once, and routines that meet
their contract. -/
structure Setup (machine : Machine) (console : Console) (initial : State) : Prop where
  fits : machine.Fits
  distinct : (labels machine.lines).Nodup
  meets : Library.Meets machine console initial

variable (machine : Machine)

def effects (core : Core) (code : Code) : Option Core :=
  code.foldlM (fun core line => machine.effect core line.op) core

@[simp] theorem effects_nil (core : Core) : machine.effects core [] = some core := rfl

@[simp] theorem effects_cons (core : Core) (first : Line) (rest : Code) :
    machine.effects core (first :: rest) =
      (machine.effect core first.op).bind fun next => machine.effects next rest := rfl

def Runs (before : Code) (core : Core) (after : Code) (result : Core) : Prop :=
  machine.Reaches ⟨machine.place before, core⟩ ⟨machine.place after, result⟩

/-- What holds whenever the machine is in the midst of the run from `initial`. -/
structure Steady (initial : State) (before : Code) (core : Core) : Prop where
  reached : machine.Reaches initial ⟨machine.place before, core⟩
  ready : machine.library.Ready core
  texts : machine.Loaded core.memory
  safe : machine.StackFits ⟨machine.place before, core⟩

variable {machine} {before after : Code} {core result : Core} {console : Console}
  {initial : State}

theorem runs_refl (before : Code) (core : Core) : machine.Runs before core before core :=
  Relation.ReflTransGen.refl

theorem runs_trans {middle : Code} {between : Core}
    (first : machine.Runs before core middle between)
    (second : machine.Runs middle between after result) :
    machine.Runs before core after result :=
  Relation.ReflTransGen.trans first second

theorem runs_step (stepped : machine.step ⟨machine.place before, core⟩ =
    some ⟨machine.place after, result⟩) : machine.Runs before core after result :=
  Relation.ReflTransGen.single stepped

theorem Steady.depth_le (steady : machine.Steady initial before core) :
    machine.depth core ≤ machine.room :=
  steady.safe _ Relation.ReflTransGen.refl

theorem safe_after (safe : machine.StackFits ⟨machine.place before, core⟩)
    (ran : machine.Runs before core after result) :
    machine.StackFits ⟨machine.place after, result⟩ :=
  fun _ reached => safe _ (Relation.ReflTransGen.trans ran reached)

/-- What the library and the texts do not see does not disturb. -/
theorem steady_of_same (setup : machine.Setup console initial)
    (steady : machine.Steady initial before core)
    (ran : machine.Runs before core after result) (same : machine.SameForLibrary core result) :
    machine.Steady initial after result where
  reached := Relation.ReflTransGen.trans steady.reached ran
  ready := setup.meets.persists core result steady.ready same
  texts := loaded_of_same setup.fits setup.distinct steady.texts fun address outside _ =>
    same.memory address outside
  safe := safe_after steady.safe ran

theorem pushed_is_storage (fits : machine.Fits) {word : Word}
    (low : machine.depth core ≤ machine.room)
    (high : machine.depth (core.push word) ≤ machine.room) :
    machine.isStorage (core.register .gr8 - 1#16) = true := by
  have pointer : (core.push word).register .gr8 = core.register .gr8 - 1#16 := rfl
  have placed := slot_of_depth fits high
  have nonempty : 1 ≤ machine.depth (core.push word) := by
    -- Otherwise the pointer was beyond the top before, which counts as 65535 words.
    by_contra empty
    have zero : machine.depth (core.push word) = 0 := by omega
    have bound := room_le fits
    rw [zero, pointer, slot, Nat.sub_zero] at placed
    have beyond : core.register .gr8 = BitVec.ofNat 16 machine.top + 1#16 := by
      rw [← placed, BitVec.sub_add_cancel]
    rw [depth, beyond] at low
    have wrapped :
        (BitVec.ofNat 16 machine.top - (BitVec.ofNat 16 machine.top + 1#16)).toNat = 65535 := by
      generalize BitVec.ofNat 16 machine.top = top
      bv_omega
    omega
  rw [isStorage, ← pointer, placed, slot_is_stack fits nonempty high, Bool.or_true]

theorem push_same (fits : machine.Fits) {word : Word} (low : machine.depth core ≤ machine.room)
    (high : machine.depth (core.push word) ≤ machine.room) :
    machine.SameForLibrary core (core.push word) where
  cursor := rfl
  buffer := rfl
  trace := rfl
  memory address outside := by
    have inside := pushed_is_storage fits low high
    have differs : address ≠ core.register .gr8 - 1#16 := by
      rintro rfl
      rw [inside] at outside
      cases outside
    rw [Comet.Core.push_memory, if_neg differs]

theorem set_same {register : Register} (kept : (register ≠ .gr6 && register ≠ .gr7) = true)
    (registers : ∀ other, other ≠ register → other ≠ .gr8 →
      result.register other = core.register other)
    (sameTrace : result.channel = core.channel) (sameMemory : result.memory = core.memory) :
    machine.SameForLibrary core result := by
  simp only [ne_eq, Bool.and_eq_true, decide_eq_true_eq] at kept
  exact ⟨registers .gr6 (Ne.symm kept.1) (by simp), registers .gr7 (Ne.symm kept.2) (by simp),
    sameTrace, fun address _ => congrFun sameMemory address⟩

/-- An operation that goes on to the next line changes nothing of the
library's. -/
theorem effect_same (fits : machine.Fits) {op : Op} (spares : op.spares = true)
    (changed : machine.effect core op = some result) (low : machine.depth core ≤ machine.room)
    (high : machine.depth result ≤ machine.room) : machine.SameForLibrary core result := by
  cases op with
  | load register source =>
      rcases Option.map_eq_some_iff.mp changed with ⟨word, _, rfl⟩
      exact set_same spares (by simp +contextual) rfl rfl
  | store register address =>
      rcases Option.bind_eq_some_iff.mp changed with ⟨place, _, stored⟩
      split at stored
      next inside =>
        cases stored
        refine ⟨rfl, rfl, rfl, fun address outside => ?_⟩
        have differs : address ≠ place := by
          rintro rfl
          rw [inside] at outside
          cases outside
        rw [Comet.Core.store_memory, if_neg differs]
      next => cases stored
  | loadAddress register address =>
      rcases Option.map_eq_some_iff.mp changed with ⟨word, _, rfl⟩
      exact set_same spares (by simp +contextual) rfl rfl
  | compute operation register source =>
      rcases Option.map_eq_some_iff.mp changed with ⟨word, _, rfl⟩
      exact set_same spares (by simp +contextual) rfl rfl
  | compareSigned register source =>
      rcases Option.map_eq_some_iff.mp changed with ⟨word, _, rfl⟩
      exact ⟨rfl, rfl, rfl, fun _ _ => rfl⟩
  | compareUnsigned register source =>
      rcases Option.map_eq_some_iff.mp changed with ⟨word, _, rfl⟩
      exact ⟨rfl, rfl, rfl, fun _ _ => rfl⟩
  | push address =>
      rcases Option.map_eq_some_iff.mp changed with ⟨word, _, rfl⟩
      exact push_same fits low high
  | pop register =>
      cases changed
      exact set_same spares (by simp +contextual) rfl rfl
  | nop =>
      cases changed
      exact ⟨rfl, rfl, rfl, fun _ _ => rfl⟩
  -- the rest moves control or lays out storage, and `effect` gives no state for it
  | jump => cases changed
  | call => cases changed
  | ret => cases changed
  | start => cases changed
  | reserve => cases changed
  | text => cases changed
  | finish => cases changed

theorem effect_occupies {op : Op} (changed : machine.effect core op = some result) :
    0 < op.size := by
  have occupies (source : Source) : 0 < source.words := by cases source <;> simp [Source.words]
  cases op <;> first | cases changed; done | simp [Op.size, occupies]

theorem step_effect (fits : machine.Fits) {line : Line} (lists : machine.Lists before [line])
    (changed : machine.effect core line.op = some result) :
    machine.step ⟨machine.place before, core⟩ =
      some ⟨machine.place (before ++ [line]), result⟩ := by
  rw [step, fetch_at fits lists (effect_occupies changed), ← place_line]
  generalize line.op = op at changed
  -- Operations that do not go on to the next line have no effect of this kind.
  cases op <;> first | cases changed; done | exact congrArg (Option.map _) changed

theorem line_runs (setup : machine.Setup console initial) {line : Line}
    (lists : machine.Lists before [line]) (spares : line.op.spares = true)
    (steady : machine.Steady initial before core)
    (changed : machine.effect core line.op = some result) :
    machine.Runs before core (before ++ [line]) result ∧
      machine.Steady initial (before ++ [line]) result ∧ result.channel = core.channel := by
  have ran := runs_step (step_effect setup.fits lists changed)
  have high := safe_after steady.safe ran _ Relation.ReflTransGen.refl
  have same := effect_same setup.fits spares changed steady.depth_le high
  exact ⟨ran, steady_of_same setup steady ran same, same.trace⟩

theorem lines_run (setup : machine.Setup console initial) {code : Code}
    (lists : machine.Lists before code) (spares : code.all (fun line => line.op.spares) = true)
    (steady : machine.Steady initial before core)
    (changed : machine.effects core code = some result) :
    machine.Runs before core (before ++ code) result ∧
      machine.Steady initial (before ++ code) result ∧ result.channel = core.channel := by
  induction code generalizing before core with
  | nil =>
      cases changed
      rw [List.append_nil]
      exact ⟨runs_refl _ _, steady, rfl⟩
  | cons first rest ih =>
      rcases Option.bind_eq_some_iff.mp changed with ⟨between, firstChanged, restChanged⟩
      rw [List.all_cons, Bool.and_eq_true] at spares
      have listed : machine.Lists before ([first] ++ rest) := lists
      rcases line_runs setup (lists_left listed) spares.1 steady firstChanged with
        ⟨firstRan, firstSteady, firstTrace⟩
      rcases ih (lists_right listed) spares.2 firstSteady restChanged with
        ⟨restRan, restSteady, restTrace⟩
      rw [List.append_assoc, List.singleton_append] at restRan restSteady
      exact ⟨runs_trans firstRan restRan, restSteady, restTrace.trans firstTrace⟩

theorem jump_runs (setup : machine.Setup console initial) {condition : Condition} {label : Label}
    {named : Line} {target : Code}
    (lists : machine.Lists before [line (.jump condition label)])
    (defined : machine.Lists target [named]) (labelledSo : named.label? = some label)
    (steady : machine.Steady initial before core) :
    let next := if core.holds condition then target else before ++ [line (.jump condition label)]
    machine.Runs before core next core ∧ machine.Steady initial next core := by
  intro next
  have address := address_at setup.distinct defined labelledSo
  have fetched := fetch_at setup.fits lists Nat.zero_lt_two
  have stepped : machine.step ⟨machine.place before, core⟩ = some ⟨machine.place next, core⟩ := by
    rw [step, fetched, Option.bind_some]
    by_cases taken : core.holds condition = true
    · simp [line, address, next, taken]
    · have on : machine.place before + BitVec.ofNat 16 (line (.jump condition label)).op.size =
          machine.place (before ++ [line (.jump condition label)]) := place_line _
      simp only [line, address, next, taken, Option.map_some, Bool.false_eq_true, if_false]
      exact congrArg (fun pc => some (State.mk pc core)) on
  have ran := runs_step stepped
  exact ⟨ran, steady_of_same setup steady ran ⟨rfl, rfl, rfl, fun _ _ => rfl⟩⟩

theorem goto_runs (setup : machine.Setup console initial) {label : Label} {named : Line}
    {target : Code} (lists : machine.Lists before [line (.jump .always label)])
    (defined : machine.Lists target [named]) (labelledSo : named.label? = some label)
    (steady : machine.Steady initial before core) :
    machine.Runs before core target core ∧ machine.Steady initial target core :=
  jump_runs setup lists defined labelledSo steady

theorem routine_runs (setup : machine.Setup console initial) {routine : Routine}
    (lists : machine.Lists before [line (.call (.routine routine))])
    (steady : machine.Steady initial before core)
    (cells : ∀ address ∈ target core routine, machine.isCell address = true)
    (divisor : routine = .divide → core.register .gr2 ≠ 0) :
    machine.Callable initial core routine ∧
      machine.Runs before core (before ++ [line (.call (.routine routine))])
        (machine.serve core routine) ∧
      machine.Steady initial (before ++ [line (.call (.routine routine))])
        (machine.serve core routine) := by
  have fetched := fetch_at setup.fits lists Nat.zero_lt_two
  have callable : machine.Callable initial core routine :=
    ⟨⟨_, steady.reached, fetched⟩, steady.ready, steady.depth_le, cells, divisor⟩
  have ran : machine.Runs before core (before ++ [line (.call (.routine routine))])
      (machine.serve core routine) := by
    apply runs_step
    rw [step, fetched, ← place_line]
    rfl
  refine ⟨callable, ran, Relation.ReflTransGen.trans steady.reached ran,
    setup.meets.ready core routine callable, ?_, safe_after steady.safe ran⟩
  -- A routine may change its target alone, and the target lies in the variables.
  refine loaded_of_same setup.fits setup.distinct steady.texts fun address outside image => ?_
  refine (setup.meets.serves core routine callable).image address image fun targeted => ?_
  rw [isStorage, cells address targeted, Bool.true_or] at outside
  cases outside

theorem call_runs (setup : machine.Setup console initial) {number : Nat} {target : Code}
    {named : Line} (lists : machine.Lists before [line (.call (.procedure number))])
    (defined : machine.Lists target [named]) (labelledSo : named.label? = some (.procedure number))
    (steady : machine.Steady initial before core) :
    let result := core.push (machine.place (before ++ [line (.call (.procedure number))]))
    machine.Runs before core target result ∧ machine.Steady initial target result := by
  intro result
  have address := address_at setup.distinct defined labelledSo
  have ran : machine.Runs before core target result := by
    apply runs_step
    rw [step, fetch_at setup.fits lists Nat.zero_lt_two, Option.bind_some]
    simp only [line, address, Option.map_some, result]
    rw [← place_line]
  have high := safe_after steady.safe ran _ Relation.ReflTransGen.refl
  exact ⟨ran, steady_of_same setup steady ran (push_same setup.fits steady.depth_le high)⟩

theorem return_runs (setup : machine.Setup console initial)
    (lists : machine.Lists before [line .ret]) (steady : machine.Steady initial before core)
    (nonempty : core.register .gr8 ≠ BitVec.ofNat 16 machine.top)
    (saved : core.memory (core.register .gr8) = machine.place after) :
    let result := core.set .gr8 (core.register .gr8 + 1#16)
    machine.Runs before core after result ∧ machine.Steady initial after result := by
  intro result
  have ran : machine.Runs before core after result := by
    apply runs_step
    rw [step, fetch_at setup.fits lists Nat.zero_lt_one, Option.bind_some]
    simp only [line, if_neg nonempty, saved, result]
  exact ⟨ran, steady_of_same setup steady ran ⟨rfl, rfl, rfl, fun _ _ => rfl⟩⟩

end Machine
end PascalCasl
