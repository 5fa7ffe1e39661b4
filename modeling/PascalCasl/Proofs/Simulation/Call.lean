import Mathlib.Data.List.Induction
import PascalCasl.Proofs.Simulation.Activation
import PascalCasl.Proofs.Simulation.Stmt

/-!
Calls. A caller pushes the arguments, the last one first, and the callee copies
them into its cells. A procedure that calls itself has its cells saved on the
stack meanwhile, since both activations use the same ones.
-/

namespace PascalCasl

open Casl Source

namespace Machine

variable {machine : Machine} {program : Program} {console : Console} {initial : State}
  {scope : Scope} {env : Env} {context : Context} {globalEnd base bound fuel : Nat}
  {state later : Source.State} {before code : Code} {core : Core} {depth : Nat}
  {supply after : Supply}

section Straight

variable (setup : machine.Setup console initial)

include setup

theorem store_apart {result : Core} {number : Nat} {word : Word}
    (known : number < machine.listing.cells)
    (stored : result.memory = (core.store (machine.cell number) word).memory) :
    result.memory (machine.cell number) = word ∧
      (∀ other < machine.listing.cells, other ≠ number →
        result.memory (machine.cell other) = core.memory (machine.cell other)) ∧
      ∀ deep, 1 ≤ deep → deep ≤ machine.room →
        result.memory (machine.slot deep) = core.memory (machine.slot deep) := by
  rw [stored]
  refine ⟨by simp, fun other otherKnown different => ?_, fun deep first last => ?_⟩
  · have apart : machine.cell other ≠ machine.cell number := fun same =>
      different (cell_injective setup.fits otherKnown known same)
    rw [Comet.Core.store_memory, if_neg apart]
  · rw [Comet.Core.store_memory, if_neg (Ne.symm (cell_ne_slot setup known first last))]

theorem store_number_effects {number : Nat} (core : Core)
    (known : number < machine.listing.cells) :
    machine.effects core [loadNumber .gr2 number, storeCell] =
      some (((core.set .gr2 (BitVec.ofNat 16 number)).flag (BitVec.ofNat 16 number) false).store
        (machine.cell number) (core.register .gr1)) := by
  let loaded := (core.set .gr2 (BitVec.ofNat 16 number)).flag (BitVec.ofNat 16 number) false
  have cell := @resolve_cell machine setup.distinct loaded .gr2 number rfl
  have storage : machine.isStorage (machine.cell number) = true := by
    rw [isStorage, cell_is_cell setup.fits setup.distinct known, Bool.true_or]
  have first : machine.effect core (loadNumber .gr2 number).op = some loaded := by
    rw [loadNumber, line, effect_load_literal, Literal.word, BitVec.ofInt_natCast]
  have second : machine.effect loaded storeCell.op =
      some (loaded.store (machine.cell number) (core.register .gr1)) := by
    rw [storeCell, line, effect, cell, Option.bind_some, if_pos storage]
    rfl
  simp only [effects_cons, effects_nil, first, second, Option.bind_some, loaded]

theorem receive_step {number deep : Nat} (steady : machine.Steady initial before core)
    (pointer : core.register .gr8 = machine.slot deep) (last : deep ≤ machine.room)
    (above : number + 1 ≤ deep) (known : base + number < machine.listing.cells)
    (lists : machine.Lists before (receiveParam base number)) :
    ∃ result, machine.Runs before core (before ++ receiveParam base number) result ∧
      machine.Steady initial (before ++ receiveParam base number) result ∧
      result.register .gr8 = machine.slot deep ∧ result.channel = core.channel ∧
      result.memory = (core.store (machine.cell (base + number))
        (core.memory (machine.slot (deep - (number + 1))))).memory := by
  -- the argument stands above the return address
  have argument : machine.resolve core ⟨.number (number + 1 : Nat), some .gr8⟩ =
      some (machine.slot (deep - (number + 1))) := by
    rw [resolve_offset, pointer, BitVec.add_comm, slot_add last above]
  let word := core.memory (machine.slot (deep - (number + 1)))
  have loads : machine.effect core
      (.load .gr1 (.memory ⟨.number (number + 1 : Nat), some .gr8⟩)) =
      some ((core.set .gr1 word).flag word false) := by
    rw [effect, operand, argument]
    rfl
  have changed : machine.effects core (receiveParam base number) =
      machine.effects ((core.set .gr1 word).flag word false)
        [loadNumber .gr2 (base + number : Nat), storeCell] := by
    rw [receiveParam, effects_cons, line, loads, Option.bind_some]
  rw [store_number_effects setup _ known] at changed
  rcases lines_run setup lists rfl steady changed with ⟨ran, steadily, trace⟩
  exact ⟨_, ran, steadily, pointer, trace, rfl⟩

theorem restore_step {number deep : Nat} (steady : machine.Steady initial before core)
    (pointer : core.register .gr8 = machine.slot (deep + 1)) (last : deep < machine.room)
    (known : number < machine.listing.cells)
    (lists : machine.Lists before (restoreCell number)) :
    ∃ result, machine.Runs before core (before ++ restoreCell number) result ∧
      machine.Steady initial (before ++ restoreCell number) result ∧
      result.register .gr8 = machine.slot deep ∧ result.channel = core.channel ∧
      result.memory = (core.store (machine.cell number)
        (core.memory (machine.slot (deep + 1)))).memory := by
  have changed : machine.effects core (restoreCell number) = some _ :=
    store_number_effects setup (core.pop .gr1) known
  rcases lines_run setup lists rfl steady changed with ⟨ran, steadily, trace⟩
  refine ⟨_, ran, steadily, ?_, trace, ?_⟩
  · simp [pointer, slot_pred last]
  · rw [← pointer]
    rfl

theorem receive_runs {count deep : Nat} (steady : machine.Steady initial before core)
    (pointer : core.register .gr8 = machine.slot deep) (last : deep ≤ machine.room)
    (above : count < deep) (known : base + count ≤ machine.listing.cells)
    (lists : machine.Lists before ((List.range count).flatMap (receiveParam base))) :
    ∃ result, machine.Runs before core
        (before ++ (List.range count).flatMap (receiveParam base)) result ∧
      machine.Steady initial (before ++ (List.range count).flatMap (receiveParam base)) result ∧
      result.register .gr8 = machine.slot deep ∧ result.channel = core.channel ∧
      (∀ number < count, result.memory (machine.cell (base + number)) =
        core.memory (machine.slot (deep - (number + 1)))) ∧
      (∀ other < machine.listing.cells, (other < base ∨ base + count ≤ other) →
        result.memory (machine.cell other) = core.memory (machine.cell other)) ∧
      ∀ number, 1 ≤ number → number ≤ machine.room →
        result.memory (machine.slot number) = core.memory (machine.slot number) := by
  -- The pointer does not move, so every parameter is found at its own distance from it.
  induction count with
  | zero =>
      refine ⟨core, ?_, ?_, pointer, rfl, nofun, fun _ _ _ => rfl, fun _ _ _ => rfl⟩
      · simpa using runs_refl before core
      · simpa using steady
  | succ count ih =>
      have split : (List.range (count + 1)).flatMap (receiveParam base) =
          (List.range count).flatMap (receiveParam base) ++ receiveParam base count := by
        simp [List.range_succ]
      rw [split] at lists ⊢
      rcases ih (by omega) (by omega) (lists_left lists) with
        ⟨between, ran, steadily, pointed, trace, received, others, stack⟩
      rcases receive_step setup steadily pointed last (by omega) (by omega) (lists_right lists) with
        ⟨result, more, lastly, pointedLast, traceLast, stored⟩
      rcases store_apart setup (by omega) stored with ⟨own, apart, stackLast⟩
      rw [List.append_assoc] at more lastly
      refine ⟨result, runs_trans ran more, lastly, pointedLast, traceLast.trans trace,
        fun number below => ?_, fun other inside outside => ?_, fun number first limit => ?_⟩
      · rcases Nat.lt_succ_iff_lt_or_eq.mp below with earlier | rfl
        · rw [apart (base + number) (by omega) (by omega), received number earlier]
        · rw [own, stack _ (by omega) (by omega)]
      · rw [apart other inside (by omega), others other inside (by omega)]
      · rw [stackLast number first limit, stack number first limit]

theorem restore_runs {cells : List Nat} (steady : machine.Steady initial before core)
    (pointer : core.register .gr8 = machine.slot (depth + cells.length))
    (last : depth + cells.length ≤ machine.room)
    (known : ∀ number ∈ cells, number < machine.listing.cells) (distinct : cells.Nodup)
    (lists : machine.Lists before (cells.reverse.flatMap restoreCell)) :
    ∃ result, machine.Runs before core (before ++ cells.reverse.flatMap restoreCell) result ∧
      machine.Steady initial (before ++ cells.reverse.flatMap restoreCell) result ∧
      result.register .gr8 = machine.slot depth ∧ result.channel = core.channel ∧
      (∀ place number, cells[place]? = some number →
        result.memory (machine.cell number) = core.memory (machine.slot (depth + 1 + place))) ∧
      (∀ other < machine.listing.cells, other ∉ cells →
        result.memory (machine.cell other) = core.memory (machine.cell other)) ∧
      ∀ number, 1 ≤ number → number ≤ machine.room →
        result.memory (machine.slot number) = core.memory (machine.slot number) := by
  -- Words are popped from the last cell to the first.
  induction cells using List.reverseRecOn generalizing before core with
  | nil =>
      refine ⟨core, ?_, ?_, pointer, rfl, nofun, fun _ _ _ => rfl, fun _ _ _ => rfl⟩
      · simpa using runs_refl before core
      · simpa using steady
  | append_singleton init number ih =>
      have split : (init ++ [number]).reverse.flatMap restoreCell =
          restoreCell number ++ init.reverse.flatMap restoreCell := by simp
      rw [split] at lists ⊢
      rw [List.length_append, List.length_singleton, ← Nat.add_assoc] at pointer last
      have inside := known number (by simp)
      rcases restore_step setup steady pointer (by omega) inside (lists_left lists) with
        ⟨between, ran, steadily, pointed, trace, stored⟩
      rcases store_apart setup inside stored with ⟨own, apart, stack⟩
      have fresh : number ∉ init := by
        rw [List.nodup_append] at distinct
        exact fun member => distinct.2.2 number member number (by simp) rfl
      rcases ih steadily pointed (by omega) (fun other member => known other (by simp [member]))
        (List.nodup_append.mp distinct).1 (lists_right lists) with
        ⟨result, more, lastly, pointedLast, traceLast, restored, others, stackLast⟩
      rw [List.append_assoc] at more lastly
      refine ⟨result, runs_trans ran more, lastly, pointedLast, traceLast.trans trace,
        fun place other found => ?_, fun other otherKnown outside => ?_,
        fun deep first limit => ?_⟩
      · rcases Nat.lt_or_ge place init.length with below | beyond
        · rw [List.getElem?_append_left below] at found
          rw [restored place other found, stack _ (by omega) (by omega)]
        · have position : place = init.length := by
            have := (List.getElem?_eq_some_iff.mp found).1
            simp at this
            omega
          subst position
          rw [List.getElem?_append_right (Nat.le_refl _), Nat.sub_self] at found
          cases found
          rw [others number inside fresh, own]
          congr 2
          omega
      · simp only [List.mem_append, List.mem_singleton, not_or] at outside
        rw [others other otherKnown outside.1, apart other otherKnown outside.2]
      · rw [stackLast deep first limit, stack deep first limit]

theorem drop_runs {count : Nat} (steady : machine.Steady initial before core)
    (pointer : core.register .gr8 = machine.slot (depth + 1 + count))
    (last : depth + 1 + count ≤ machine.room)
    (lists : machine.Lists before (dropParams count)) :
    ∃ result, machine.Runs before core (before ++ dropParams count) result ∧
      machine.Steady initial (before ++ dropParams count) result ∧
      result.register .gr8 = machine.slot (depth + 1) ∧ result.channel = core.channel ∧
      result.memory (machine.slot (depth + 1)) =
        core.memory (machine.slot (depth + 1 + count)) ∧
      machine.Kept 0 depth core result := by
  by_cases none : count = 0
  · subst none
    refine ⟨core, ?_, ?_, pointer, rfl, rfl, kept_refl _ _ _⟩
    · simpa [dropParams] using runs_refl before core
    · simpa [dropParams] using steady
  · -- the return address is moved over the arguments, which leaves the stack below it as it was
    have opened : dropParams count = [line (.load .gr1 (.memory (content .gr8))),
        line (.compute .add .gr8 (.literal (.number count))),
        line (.store .gr1 (content .gr8))] := if_neg none
    let word := core.memory (machine.slot (depth + 1 + count))
    let loaded := (core.set .gr1 word).flag word false
    let raised := (loaded.set .gr8 (machine.slot (depth + 1))).flag (machine.slot (depth + 1))
      ((machine.slot (depth + 1 + count)).saddOverflow (BitVec.ofNat 16 count))
    have first : machine.effect core (.load .gr1 (.memory (content .gr8))) = some loaded := by
      rw [effect, operand, resolve_content, pointer]
      rfl
    have sum : machine.slot (depth + 1 + count) + BitVec.ofNat 16 count =
        machine.slot (depth + 1) := by
      rw [slot_add last (by omega)]
      congr 1
      omega
    have second : machine.effect loaded (.compute .add .gr8 (.literal (.number count))) =
        some raised := by
      have held : loaded.register .gr8 = machine.slot (depth + 1 + count) := pointer
      simp only [effect, operand, Literal.word, BitVec.ofInt_natCast, Option.map_some,
        Arithmetic.compute, Arithmetic.overflows, held, sum, raised]
    have storage : machine.isStorage (machine.slot (depth + 1)) = true := by
      rw [isStorage, slot_is_stack setup.fits (by omega) (by omega), Bool.or_true]
    have third : machine.effect raised (.store .gr1 (content .gr8)) =
        some (raised.store (machine.slot (depth + 1)) word) := by
      have held : raised.register .gr8 = machine.slot (depth + 1) := rfl
      rw [effect, resolve_content, held, Option.bind_some, if_pos storage]
      rfl
    have changed : machine.effects core (dropParams count) =
        some (raised.store (machine.slot (depth + 1)) word) := by
      simp only [opened, line, effects_cons, effects_nil, first, second, third, Option.bind_some]
    have spares : (dropParams count).all (fun line => line.op.spares) = true := by
      rw [opened]
      rfl
    rcases lines_run setup lists spares steady changed with ⟨ran, steadily, trace⟩
    refine ⟨_, ran, steadily, rfl, trace, if_pos rfl, fun number _ known => ?_,
      fun number low high => ?_⟩
    · have apart := cell_ne_slot setup known (Nat.succ_pos depth) (by omega)
      rw [Comet.Core.store_memory, if_neg apart]
      rfl
    · have apart : machine.slot number ≠ machine.slot (depth + 1) := by
        intro same
        have := slot_injective setup.fits low (by omega) (by omega) (by omega) same
        omega
      rw [Comet.Core.store_memory, if_neg apart]
      rfl

end Straight

/-- The code of a procedure is listed, with its variables in the cells of its
frame. -/
structure Installed (machine : Machine) (globalEnd : Nat) (procedure : Procedure)
    (frame : Frame) (scope : Scope) (env : Env) (context : Context) (entry : Code) : Prop where
  hosts : machine.Hosts scope env context globalEnd frame.base frame.next
  framed : frame = Frame.ofProcedure frame.ordinal frame.base procedure
  locals : env.locals = frame.locals
  valid : ∀ declared ∈ procedure.vars, declared.type.WellFormed
  distinct : (procedure.locals.map Prod.fst).Nodup
  typed : ∀ statement ∈ procedure.body, context.WellTyped statement
  coded : ∃ body supply after, env.stmts procedure.body supply = (.ok body, after) ∧
    after.texts <+: machine.listing.texts ∧
    machine.Lists entry ([PascalCasl.place (.procedure frame.ordinal)] ++
      prologue frame.base procedure.params.length ++ body ++ [line .ret])

/-- A call has come to its end at the lines `back`: the globals are those of the
callee's last state. Nothing is said of the caller's own variables. -/
def Returns (machine : Machine) (initial : State) (globals : Table Cells) (inner : Source.State)
    (before : Code) (core : Core) (back : Code) (depth bound : Nat) : Prop :=
  ∃ result, machine.Runs before core back result ∧ machine.Steady initial back result ∧
    result.register .gr8 = machine.slot depth ∧ result.channel = inner.trace ∧
    machine.Holds result.memory globals inner.globals ∧ machine.Kept bound depth core result

section Procedures

variable {procedure : Procedure} {frame : Frame} {entry : Code}
  {values : List Value} {inner : Source.State}

/-- The prologue puts the arguments into the cells of the parameters and leaves
the return address on the stack. -/
theorem prologue_runs (setup : machine.Setup console initial)
    (steady : machine.Steady initial before core)
    (pointer : core.register .gr8 = machine.slot (depth + 1 + values.length))
    (last : depth + 1 + values.length ≤ machine.room)
    (known : base + values.length ≤ machine.listing.cells)
    (arguments : ∀ (place : Nat) (value : Value), values[place]? = some value →
      core.memory (machine.slot (depth + values.length - place)) = value.word)
    (lists : machine.Lists before (prologue base values.length)) :
    ∃ result, machine.Runs before core (before ++ prologue base values.length) result ∧
      machine.Steady initial (before ++ prologue base values.length) result ∧
      result.register .gr8 = machine.slot (depth + 1) ∧ result.channel = core.channel ∧
      result.memory (machine.slot (depth + 1)) =
        core.memory (machine.slot (depth + 1 + values.length)) ∧
      (∀ (place : Nat) (value : Value), values[place]? = some value →
        result.memory (machine.cell (base + place)) = value.word) ∧
      (∀ other < machine.listing.cells, (other < base ∨ base + values.length ≤ other) →
        result.memory (machine.cell other) = core.memory (machine.cell other)) ∧
      ∀ number, 1 ≤ number → number ≤ depth →
        result.memory (machine.slot number) = core.memory (machine.slot number) := by
  have parts : machine.Lists before
    ((List.range values.length).flatMap (receiveParam base) ++ dropParams values.length) := lists
  rcases receive_runs setup steady pointer last (by omega) known (lists_left parts) with
    ⟨between, ran, steadily, pointed, trace, received, others, stack⟩
  rcases drop_runs setup steadily pointed last (lists_right parts) with
    ⟨result, more, lastly, pointedLast, traceLast, saved, kept⟩
  rw [List.append_assoc] at more lastly
  refine ⟨result, runs_trans ran more, lastly, pointedLast, traceLast.trans trace, ?_,
    fun place value found => ?_, fun other inside outside => ?_, fun number low high => ?_⟩
  · rw [saved, stack _ (by omega) last]
  · have below : place < values.length := (List.getElem?_eq_some_iff.mp found).1
    rw [kept.cells _ (Nat.zero_le _) (by omega), received place below,
      ← arguments place value found]
    congr 2
    omega
  · rw [kept.cells other (Nat.zero_le _) inside, others other inside outside]
  · rw [kept.stack number low high, stack number low (by omega)]

theorem procedure_runs {back : Code} (setup : machine.Setup console initial)
    (installed : machine.Installed globalEnd procedure frame scope env context entry)
    (simulates : ∀ statement,
      machine.Simulates initial program console env context frame.next fuel statement)
    (typed : List.Forall₂ (fun param value => Value.type value = Param.type param)
      procedure.params values)
    (done : procedure.body.foldlM (exec program console fuel)
      { state with locals := activation procedure values } = some inner)
    (steady : machine.Steady initial entry core)
    (pointer : core.register .gr8 = machine.slot (depth + 1 + values.length))
    (last : depth + 1 + values.length ≤ machine.room)
    (arguments : ∀ (place : Nat) (value : Value), values[place]? = some value →
      core.memory (machine.slot (depth + values.length - place)) = value.word)
    (saved : core.memory (machine.slot (depth + 1 + values.length)) = machine.place back)
    (held : machine.Holds core.memory env.globals state.globals)
    (trace : core.channel = state.trace) :
    machine.Returns initial env.globals inner entry core back depth frame.next := by
  rcases installed.coded with ⟨body, supply, ending, coded, entered, lists⟩
  have placed := installed.hosts.placed
  have inside := installed.hosts.inside
  have inFrame := Layout.params_in_frame frame.ordinal frame.base procedure
  rw [← installed.framed, typed.length_eq] at inFrame
  rw [typed.length_eq] at lists
  have bodyLists := lists_left lists
  have startLists := lists_left bodyLists
  rcases lines_run setup (lists_left startLists) rfl steady rfl with ⟨started, startSteady, _⟩
  rcases prologue_runs setup startSteady pointer last (by omega) arguments (lists_right startLists)
    with ⟨begun, prepared, begunSteady, begunPointer, begunTrace, begunSaved, stored, others, stack⟩
  rw [List.append_assoc] at prepared begunSteady
  have globals : machine.Holds begun.memory env.globals state.globals :=
    holds_of_same placed.globals held fun other _ high => by
      have := placed.below
      exact others other (by omega) (by omega)
  have locals : machine.Holds begun.memory env.locals (activation procedure values) := by
    rw [installed.locals, installed.framed]
    exact activation_holds installed.valid installed.distinct typed stored
  have begunAt : machine.At initial env { state with locals := activation procedure values } _ begun
      (depth + 1) :=
    ⟨begunSteady, begunPointer, by omega, ⟨globals, locals⟩, begunTrace.trans trace⟩
  rcases stmts_perform simulates installed.typed coded entered done begunAt (lists_right bodyLists)
    with ⟨ended, ran, endedAt, kept⟩
  rw [List.append_assoc entry] at ran endedAt
  -- The return address is on the stack, so this return does not end the program.
  have nonempty : ended.register .gr8 ≠ BitVec.ofNat 16 machine.top := by
    intro empty
    have full := depth_of_slot setup.fits endedAt.deep endedAt.pointer
    rw [Machine.depth, empty, BitVec.sub_self] at full
    cases full
  have returns : ended.memory (ended.register .gr8) = machine.place back := by
    rw [endedAt.pointer, kept.stack _ (Nat.succ_pos _) (Nat.le_refl _), begunSaved, saved]
  rcases return_runs setup (lists_right lists) endedAt.steady nonempty returns with
    ⟨returned, backSteady⟩
  refine ⟨_, runs_trans started (runs_trans prepared (runs_trans ran returned)), backSteady, ?_,
    endedAt.trace, endedAt.holds.globals, fun other low high => ?_, fun other low high => ?_⟩
  · rw [Comet.Core.set_register, if_pos rfl, endedAt.pointer, slot_pred (by omega)]
  · rw [Comet.Core.set_memory, kept.cells other low high, others other high (by omega)]
  · rw [Comet.Core.set_memory, kept.stack other low (by omega), stack other low high]

end Procedures

section Callers

variable (setup : machine.Setup console initial)
  (hosts : machine.Hosts scope env context globalEnd base bound)

include setup hosts

theorem exprs_push {values : List Expr} {results : List Value}
    (generated : env.exprs values supply = (.ok code, after))
    (evaluated : List.Forall₂ (fun value result => state.eval value = some result) values results)
    (here : machine.At initial env state before core depth) (lists : machine.Lists before code) :
    machine.PushesAll initial env state before core code depth (results.map Value.word) ∧
      List.Forall₂ (fun value result => ∀ type, context.HasType value (.standard type) →
        Value.type result = type) values results := by
  induction evaluated generalizing supply code before core depth with
  | nil =>
      rcases exprs_nil_inv generated with ⟨rfl, _⟩
      exact ⟨pushes_all_nil here, .nil⟩
  | cons firstEvaluated restEvaluated ih =>
      rcases exprs_cons_inv generated with ⟨inner, firstCode, others, middle, coded, more, rfl⟩
      rcases expr_pushes setup hosts.placed hosts.inside coded firstEvaluated here
        (lists_left lists) with ⟨rfl, between, ran, arrived, top, kept⟩
      rcases ih more arrived (lists_right lists) with ⟨pushed, typed⟩
      refine ⟨pushes_all_cons ran top kept pushed, .cons (fun type typed => ?_) typed⟩
      exact Pushed.scalar.inj (typed_pushed hosts.stores hosts.means typed coded)

theorem save_runs {cells : List Nat} (here : machine.At initial env state before core depth)
    (known : ∀ number ∈ cells, number < machine.listing.cells)
    (lists : machine.Lists before (cells.flatMap saveCell)) :
    machine.PushesAll initial env state before core (cells.flatMap saveCell) depth
      (cells.map fun number => core.memory (machine.cell number)) := by
  induction cells generalizing before core depth with
  | nil => exact pushes_all_nil here
  | cons first rest ih =>
      rcases List.forall_mem_cons.mp known with ⟨_, restKnown⟩
      rw [List.flatMap_cons] at lists ⊢
      rcases numbered_cell_pushes setup hosts.placed hosts.inside here (lists_left lists) with
        ⟨between, ran, arrived, top, kept⟩
      have unchanged : (rest.map fun number => between.memory (machine.cell number)) =
          rest.map fun number => core.memory (machine.cell number) := by
        apply List.map_congr_left
        intro number member
        exact kept.cells number (Nat.zero_le _) (restKnown number member)
      have others := ih arrived restKnown (lists_right lists)
      rw [unchanged] at others
      exact pushes_all_cons ran top kept others

variable {procedure : Procedure} {frame : Frame} {entry : Code}
  {calleeScope : Scope} {callee : Env} {calleeContext : Context} {inner : Source.State}

/-- Each argument is on the stack where its parameter is expected: that of
parameter `place` was pushed `place` before the last. -/
theorem arguments_push {arguments : List Expr} {values : List Value}
    (evaluated : arguments.mapM state.eval = some values)
    (generated : env.exprs arguments.reverse supply = (.ok code, after))
    (here : machine.At initial env state before core depth) (lists : machine.Lists before code) :
    (∃ result, machine.Runs before core (before ++ code) result ∧
      machine.At initial env state (before ++ code) result (depth + values.length) ∧
      machine.Kept 0 depth core result ∧
      ∀ (place : Nat) (value : Value), values[place]? = some value →
        result.memory (machine.slot (depth + values.length - place)) = value.word) ∧
      List.Forall₂ (fun argument value => ∀ type, context.HasType argument (.standard type) →
        Value.type value = type) arguments values := by
  have reversed := List.forall₂_reverse_iff.mpr (map_option_forall evaluated)
  rcases exprs_push setup hosts generated reversed here lists with
    ⟨⟨result, ran, arrived, words, kept⟩, typed⟩
  rw [List.length_map, List.length_reverse] at arrived
  refine ⟨⟨result, ran, arrived, kept, fun place value found => ?_⟩,
    List.forall₂_reverse_iff.mp typed⟩
  have below := (List.getElem?_eq_some_iff.mp found).1
  -- arguments are pushed from the last to the first
  have mirrored : (values.reverse.map Value.word)[values.length - 1 - place]? =
      some value.word := by
    rw [List.getElem?_map, List.getElem?_reverse (by omega)]
    have same : values.length - 1 - (values.length - 1 - place) = place := by omega
    rw [same, found]
    rfl
  rw [← words _ _ mirrored]
  congr 2
  omega

omit setup hosts in
theorem arguments_typed {arguments : List Expr} {values : List Value} {params : List Param}
    (given : List.Forall₂ context.HasType arguments ((params.map Param.type).map Ty.standard))
    (typed : List.Forall₂ (fun argument value => ∀ type,
      context.HasType argument (.standard type) → Value.type value = type) arguments values) :
    List.Forall₂ (fun param value => Value.type value = Param.type param) params values := by
  rw [List.map_map, List.forall₂_map_right_iff] at given
  induction given generalizing values with
  | nil =>
      cases typed
      exact .nil
  | cons head _ ih =>
      cases typed with
      | cons known others => exact .cons (known _ head) (ih others)

theorem plain_call_runs {arguments : List Expr} {values : List Value}
    (installed : machine.Installed globalEnd procedure frame calleeScope callee
      calleeContext entry)
    (sameGlobals : callee.globals = env.globals)
    (simulates : ∀ statement,
      machine.Simulates initial program console callee calleeContext frame.next fuel statement)
    (given : List.Forall₂ context.HasType arguments
      ((procedure.params.map Param.type).map Ty.standard))
    (evaluated : arguments.mapM state.eval = some values)
    (generated : env.exprs arguments.reverse supply = (.ok code, after))
    (done : procedure.body.foldlM (exec program console fuel)
      { state with locals := activation procedure values } = some inner)
    (here : machine.At initial env state before core depth)
    (lists : machine.Lists before (code ++ [line (.call (.procedure frame.ordinal))])) :
    machine.Returns initial env.globals inner before core
      (before ++ (code ++ [line (.call (.procedure frame.ordinal))])) depth frame.next := by
  rcases arguments_push setup hosts evaluated generated here (lists_left lists) with
    ⟨⟨pushed, ran, pushedAt, kept, argument⟩, types⟩
  have typed := arguments_typed given types
  rcases installed.coded with ⟨body, bodySupply, bodyAfter, _, _, calleeLists⟩
  have entryLists := lists_left (lists_left (lists_left calleeLists))
  rcases call_runs setup (lists_right lists) entryLists rfl pushedAt.steady with
    ⟨called, calledSteady⟩
  let back := before ++ code ++ [line (.call (.procedure frame.ordinal))]
  have lowered : (pushed.push (machine.place back)).register .gr8 =
      machine.slot (depth + values.length) - 1#16 := by
    rw [Comet.Core.push_register, if_pos rfl, pushedAt.pointer]
  have room := room_for_push setup.fits pushedAt.deep lowered calledSteady.depth_le
  rw [slot_succ room] at lowered
  rcases @push_kept machine pushed (pushed.push (machine.place back)) console initial _ setup _
    pushedAt.pointer room rfl with ⟨saved, keptCall⟩
  have reordered : depth + values.length + 1 = depth + 1 + values.length := by omega
  rw [reordered] at lowered saved
  -- the callee has the same global cells, and neither the arguments nor the call touch them
  have globals : machine.Holds (pushed.push (machine.place back)).memory callee.globals
      state.globals := by
    rw [sameGlobals]
    apply holds_of_same hosts.placed.globals pushedAt.holds.globals
    intro other _ high
    have below := hosts.placed.below
    have ordered := hosts.placed.ordered
    have inside := hosts.inside
    exact keptCall.cells other (Nat.zero_le _) (by omega)
  have words (place : Nat) (value : Value) (found : values[place]? = some value) :
      (pushed.push (machine.place back)).memory (machine.slot (depth + values.length - place)) =
        value.word := by
    have below := (List.getElem?_eq_some_iff.mp found).1
    rw [keptCall.stack _ (by omega) (by omega), argument place value found]
  rcases procedure_runs setup installed simulates typed done calledSteady lowered (by omega) words
    saved globals pushedAt.trace with
    ⟨result, performed, steady, pointer, trace, held, keptBody⟩
  have joined : back = before ++ (code ++ [line (.call (.procedure frame.ordinal))]) :=
    List.append_assoc _ _ _
  rw [joined] at performed steady
  rw [sameGlobals] at held
  exact ⟨result, runs_trans ran (runs_trans called performed), steady, pointer, trace, held,
    kept.to_bound.trans ((keptCall.mono (Nat.zero_le _) (Nat.le_add_right _ _)).trans keptBody)⟩

end Callers

/-- What a name means that code of the environment can call. The procedure is
its own, and then its frame is that of the caller, or it is an earlier one, and
then its frame lies before that of the caller. -/
structure Callee (machine : Machine) (initial : State) (program : Program) (console : Console)
    (env : Env) (context : Context) (globalEnd base bound fuel : Nat) (name : String)
    (frame : Frame) (procedure : Procedure) (calleeScope : Scope) (callee : Env)
    (calleeContext : Context) (entry : Code) : Prop where
  found : program.procedures.find? (fun procedure => procedure.name = name) = some procedure
  declared : ∀ formals, (name, formals) ∈ context.procedures →
    formals = procedure.params.map Param.type
  installed : machine.Installed globalEnd procedure frame calleeScope callee calleeContext
    entry
  globals : callee.globals = env.globals
  simulates : ∀ statement,
    machine.Simulates initial program console callee calleeContext frame.next fuel statement
  own : env.current = some frame.ordinal → frame.base = base ∧ frame.next = bound
  earlier : env.current ≠ some frame.ordinal → frame.next ≤ base

section Calls

variable (setup : machine.Setup console initial)
  (hosts : machine.Hosts scope env context globalEnd base bound) {name : String}
  {frame : Frame} {procedure : Procedure} {calleeScope : Scope} {callee : Env}
  {calleeContext : Context} {entry : Code}
  (means : machine.Callee initial program console env context globalEnd base bound fuel name frame
    procedure calleeScope callee calleeContext entry)
  {arguments : List Expr} {values : List Value} {inner : Source.State}
  (given : List.Forall₂ context.HasType arguments
    ((procedure.params.map Param.type).map Ty.standard))
  (evaluated : arguments.mapM state.eval = some values)
  (generated : env.exprs arguments.reverse supply = (.ok code, after))
  (done : procedure.body.foldlM (exec program console fuel)
    { state with locals := activation procedure values } = some inner)
  (here : machine.At initial env state before core depth)

include setup hosts means given evaluated generated done here

/-- An earlier procedure has cells of its own. -/
theorem earlier_call_performs (another : env.current ≠ some frame.ordinal)
    (lists : machine.Lists before (code ++ [line (.call (.procedure frame.ordinal))])) :
    machine.Performs initial env { inner with locals := state.locals } before core
      (code ++ [line (.call (.procedure frame.ordinal))]) depth bound := by
  have earlier := means.earlier another
  have ordered := hosts.placed.ordered
  have inside := hosts.inside
  rcases plain_call_runs setup hosts means.installed means.globals means.simulates given evaluated
    generated done here lists with ⟨result, ran, steady, pointer, trace, held, kept⟩
  -- The callee and all it may call have their frames below the caller's.
  have locals : machine.Holds result.memory env.locals state.locals :=
    holds_of_same hosts.placed.locals here.holds.locals fun other low high =>
      kept.cells other (by omega) (by omega)
  exact ⟨result, ran, ⟨steady, pointer, here.deep, ⟨held, locals⟩, trace⟩,
    kept.mono (by omega) (Nat.le_refl _)⟩

/-- A procedure that calls itself finds its cells as it left them. -/
theorem own_call_performs (own : env.current = some frame.ordinal)
    (lists : machine.Lists before
      (frame.save ++ (code ++ [line (.call (.procedure frame.ordinal))]) ++ frame.restore)) :
    machine.Performs initial env { inner with locals := state.locals } before core
      (frame.save ++ (code ++ [line (.call (.procedure frame.ordinal))]) ++ frame.restore) depth
      bound := by
  -- Both activations have the same frame: it is saved, used and restored.
  rcases means.own own with ⟨rfl, rfl⟩
  have placed := hosts.placed
  have inside := hosts.inside
  have callLists := lists_left lists
  have members (other : Nat) : other ∈ frame.cells ↔ frame.base ≤ other ∧ other < frame.next := by
    rw [Frame.cells, List.mem_range'_1, Frame.next]
  have known : ∀ other ∈ frame.cells, other < machine.listing.cells := by
    intro other member
    have := (members other).mp member
    omega
  rcases save_runs setup hosts here known (lists_left callLists) with
    ⟨savedCore, savedRan, savedAt, saved, savedKept⟩
  rw [List.length_map] at savedAt
  rcases plain_call_runs setup hosts means.installed means.globals means.simulates given evaluated
    generated done savedAt (lists_right callLists) with
    ⟨calledCore, calledRan, calledSteady, pointer, calledTrace, globals, calledKept⟩
  rw [List.append_assoc] at calledRan calledSteady
  rcases restore_runs setup calledSteady pointer savedAt.deep known (List.nodup_range' ..)
    (lists_right lists) with
    ⟨result, ran, steady, restoredPointer, trace, restored, others, stack⟩
  rw [List.append_assoc] at ran steady
  -- A cell comes back from the word saved for it, which the callee did not reach.
  have back : ∀ other, frame.base ≤ other → other < frame.next →
      result.memory (machine.cell other) = core.memory (machine.cell other) := by
    intro other low high
    rcases List.mem_iff_getElem?.mp ((members other).mpr ⟨low, high⟩) with ⟨place, found⟩
    have below := (List.getElem?_eq_some_iff.mp found).1
    rw [restored place other found, calledKept.stack _ (by omega) (by omega),
      saved place _ (by rw [List.getElem?_map, found]; rfl)]
  have locals : machine.Holds result.memory env.locals state.locals :=
    holds_of_same placed.locals here.holds.locals back
  have globalsBack : machine.Holds result.memory env.globals inner.globals := by
    apply holds_of_same placed.globals globals
    intro other _ high
    have below := placed.below
    have ordered := placed.ordered
    exact others other (by omega) fun member => by
      have := (members other).mp member
      omega
  refine ⟨result, runs_trans savedRan (runs_trans calledRan ran), ⟨steady, restoredPointer,
    here.deep, ⟨globalsBack, locals⟩, trace.trans calledTrace⟩, fun other low high => ?_,
    fun other low high => ?_⟩
  · have outside : other ∉ frame.cells := fun member => by
      have := (members other).mp member
      omega
    rw [others other high outside, calledKept.cells other low high,
      savedKept.cells other (Nat.zero_le _) high]
  · have deep := here.deep
    rw [stack other low (by omega), calledKept.stack other low (by omega),
      savedKept.stack other low high]

end Calls

theorem call_simulates (setup : machine.Setup console initial)
    (hosts : machine.Hosts scope env context globalEnd base bound)
    (callees : ∀ name frame, env.procedure? name = some frame →
      ∃ procedure calleeScope callee calleeContext entry,
        machine.Callee initial program console env context globalEnd base bound fuel name frame
          procedure calleeScope callee calleeContext entry)
    (nodeLine : Nat) (name : String) (arguments : List Expr) :
    machine.Simulates initial program console env context bound (fuel + 1)
      (.call nodeLine name arguments) := by
  intro state later supply after code before core depth typed generated entered done here lists
  rcases call_inv generated with ⟨frame, argumentCode, known, coded, rfl⟩
  rcases callees name frame known with
    ⟨procedure, calleeScope, callee, calleeContext, entry, means⟩
  rcases Option.bind_eq_some_iff.mp done with ⟨values, evaluated, rest⟩
  rcases Option.bind_eq_some_iff.mp rest with ⟨found, same, rest⟩
  rcases Option.bind_eq_some_iff.mp rest with ⟨inner, bodyDone, finished⟩
  rw [means.found] at same
  cases same
  cases finished
  cases typed with
  | call declared given =>
      cases means.declared _ declared
      -- only a call of the block itself is surrounded by saving and restoring
      by_cases own : env.current = some frame.ordinal
      · rw [if_pos own] at lists ⊢
        exact own_call_performs setup hosts means given evaluated coded bodyDone here own lists
      · rw [if_neg own] at lists ⊢
        exact earlier_call_performs setup hosts means given evaluated coded bodyDone here own lists

end Machine
end PascalCasl
