import PascalCasl.Proofs.Code.Labels
import PascalCasl.Proofs.Simulation.Expr

/-!
Assigning, reading and writing. The code of a target pushes the number of the
cell that is to change, and no other cell of the variables changes. Texts and
whole arrays of characters are passed to the routines by their address.
-/

namespace PascalCasl

open Casl Source

theorem put_keeps_trace (state : Source.State) (name : String) (content : Content) :
    (state.put name content).trace = state.trace := by
  unfold Source.State.put
  split <;> rfl

theorem assign_keeps_trace {state later : Source.State} {target : Target} {value : Value}
    (assigned : state.assign target value = some later) : later.trace = state.trace := by
  cases target with
  | simple nodeLine name =>
      rw [Source.State.assign] at assigned
      split at assigned
      · cases assigned
        exact put_keeps_trace _ _ _
      · cases assigned
  | indexed nodeLine name index =>
      rcases Option.bind_eq_some_iff.mp assigned with ⟨position, _, chosen⟩
      split at chosen
      · split at chosen
        · cases chosen
          exact put_keeps_trace _ _ _
        · cases chosen
      · cases chosen

theorem read_into_inv {console : Console} {state later : Source.State} {target : Target}
    (done : Source.State.readInto console state target = some later) :
    (∃ nodeLine name low high values, target = .simple nodeLine name ∧
      state.find? name = some (.array .char low high values) ∧
      later = (state.put name (.array .char low high fun position => some (.char
          (console.text state.trace (high - low + 1).toNat (position - low).toNat)))).log
        (.readText ((List.range (high - low + 1).toNat).map fun place =>
          (console.text state.trace (high - low + 1).toNat place).word))) ∨
    (∃ content value event middle, state.find? target.name = some content ∧
      state.nextInput console content.elementType = some (value, event) ∧
      state.assign target value = some middle ∧ later = middle.log event) := by
  unfold Source.State.readInto at done
  split at done
  next nodeLine name low high values known =>
    cases done
    exact .inl ⟨nodeLine, name, low, high, values, rfl, known, rfl⟩
  next content _ known =>
    rcases Option.bind_eq_some_iff.mp done with ⟨⟨value, event⟩, given, rest⟩
    rcases Option.bind_eq_some_iff.mp rest with ⟨middle, assigned, finished⟩
    cases finished
    exact .inr ⟨content, value, event, middle, known, given, assigned, rfl⟩
  next => cases done

theorem write_out_inv {state later : Source.State} {value : Expr}
    (done : state.writeOut value = some later) :
    (∃ result event, state.eval value = some result ∧ result.written = some event ∧
      later = state.log event) ∨
    (∃ codes, state.text? value = some codes ∧
      later = state.log (.writeText (codes.map CharCode.word))) := by
  unfold Source.State.writeOut at done
  split at done
  next result evaluated =>
    rcases Option.map_eq_some_iff.mp done with ⟨event, written, rfl⟩
    exact .inl ⟨result, event, evaluated, written, rfl⟩
  next =>
    rcases Option.map_eq_some_iff.mp done with ⟨codes, read, rfl⟩
    exact .inr ⟨codes, read, rfl⟩

theorem map_option_forall {α β : Type} {f : α → Option β} {items : List α} {results : List β}
    (mapped : items.mapM f = some results) :
    List.Forall₂ (fun item result => f item = some result) items results := by
  induction items generalizing results with
  | nil =>
      cases mapped
      exact .nil
  | cons first rest ih =>
      rw [List.mapM_cons] at mapped
      rcases Option.bind_eq_some_iff.mp mapped with ⟨head, given, more⟩
      rcases Option.bind_eq_some_iff.mp more with ⟨others, tail, finished⟩
      cases finished
      exact .cons given (ih tail)

theorem map_option_spec {α β : Type} {f : α → Option β} {items : List α} {results : List β}
    (mapped : items.mapM f = some results) :
    results.length = items.length ∧
      ∀ (place : Nat) (result : β), results[place]? = some result →
        ∃ item, items[place]? = some item ∧ f item = some result := by
  rcases List.forall₂_iff_get.mp (map_option_forall mapped) with ⟨length, pairs⟩
  refine ⟨length.symm, fun place result found => ?_⟩
  rcases List.getElem?_eq_some_iff.mp found with ⟨below, rfl⟩
  have known : place < items.length := by omega
  exact ⟨items[place], List.getElem?_eq_getElem known, pairs place known below⟩

/-- Turns the cell number on the stack into an address in GR2. -/
def cellOperand : Code :=
  [popInto .gr2, line (.loadAddress .gr1 (symbol .variables)),
    line (.compute .add .gr2 (.register .gr1))]

/-- Passes the address on the stack and the length of a text. -/
def textOperands (length : Nat) : Code :=
  [popInto .gr2, line (.loadAddress .gr1 (direct length))]

namespace Machine

variable {machine : Machine} {console : Console} {initial : State} {env : Env}
  {globalEnd base bound : Nat} {state later : Source.State} {before code : Code} {core : Core}
  {depth : Nat} {supply after : Supply} {pushed : Pushed}

/-- The cell that an assignment to the target changes: storing a value of its
type there, and nothing else among the variables, is the assignment. -/
structure Assigns (machine : Machine) (env : Env) (later : Source.State) (memory : Word → Word)
    (bound : Nat) (type : StandardType) (value : Value) (number : Nat) : Prop where
  inside : number < bound
  holds : ∀ changed : Word → Word, value.type = type →
    changed (machine.cell number) = value.word →
    (∀ other < bound, other ≠ number →
      changed (machine.cell other) = memory (machine.cell other)) →
    machine.Matches env later changed

/-- The codes of a text lie in memory from the address on. -/
def Spells (memory : Word → Word) (address : Word) (codes : List CharCode) : Prop :=
  ∀ (place : Nat) (code : CharCode), codes[place]? = some code →
    memory (address + BitVec.ofNat 16 place) = code.word

section Targets

variable (setup : machine.Setup console initial) (placed : env.Placed globalEnd base bound)
  (inside : bound ≤ machine.listing.cells)

include placed

theorem scalar_assigns {name : String} {start : Nat} {type : StandardType} {value : Value}
    {memory : Word → Word} (held : machine.Matches env state memory)
    (found : env.cells? name = some (.scalar start type)) :
    machine.Assigns env (state.put name (.scalar type (some value))) memory bound type value start
    where
  inside := cells_inside placed found
  holds := by
    intro changed typed stored others
    apply matches_put placed held found (.scalar ?_)
    · intro number below apart
      apply others number below
      rintro rfl
      rcases apart with low | high
      · exact Nat.lt_irrefl _ low
      · exact Nat.not_succ_le_self _ high
    · rintro _ ⟨⟩
      exact ⟨typed, stored⟩

theorem element_assigns {name : String} {start count : Nat} {element : StandardType}
    {low high position : Int} {values : Int → Option Value} {value : Value}
    {memory : Word → Word} (held : machine.Matches env state memory)
    (found : env.cells? name = some (.array start element low count))
    (counted : count = (high - low + 1).toNat)
    (elements : ∀ place < count,
      machine.Stores memory (start + place) element (values (low + (place : Int))))
    (within : low ≤ position ∧ position ≤ high) :
    machine.Assigns env (state.put name (.array element low high fun other =>
        if other = position then some value else values other)) memory bound element value
      (start + (position - low).toNat) where
  inside := by
    have cells : start + count ≤ bound := cells_inside placed found
    omega
  holds := by
    intro changed typed stored others
    have cells : start + count ≤ bound := cells_inside placed found
    apply matches_put placed held found (.array counted ?_)
    · intro number below apart
      have outside : number < start ∨ start + count ≤ number := apart
      exact others number below (by omega)
    · intro place below assigned selected
      split at selected
      -- the element itself is the cell that was written
      next same =>
        cases selected
        have equal : start + place = start + (position - low).toNat := by omega
        rw [equal]
        exact ⟨typed, stored⟩
      -- every other element is in a cell of its own
      next different =>
        rcases elements place below assigned selected with ⟨elementTyped, elementStored⟩
        refine ⟨elementTyped, ?_⟩
        rw [others (start + place) (by omega) (by omega), elementStored]

include setup inside

theorem number_pushes {number : Nat} (here : machine.At initial env state before core depth)
    (lists : machine.Lists before [line (.push (direct number))]) :
    machine.Pushes initial env state before core [line (.push (direct number))] depth
      (BitVec.ofNat 16 number) := by
  apply lines_push setup placed inside here lists rfl
  · simp only [line, effects_cons, effects_nil, effect, resolve_direct]
    rfl
  · rfl
  · rfl

theorem target_pushes {target : Target} {value : Value}
    (generated : env.target target supply = (.ok (pushed, code), after))
    (assigned : state.assign target value = some later)
    (here : machine.At initial env state before core depth) (lists : machine.Lists before code) :
    ∃ number content, state.find? target.name = some content ∧
      pushed = .scalar content.elementType ∧
      machine.Pushes initial env state before core code depth (BitVec.ofNat 16 number) ∧
      machine.Assigns env later core.memory bound content.elementType value number := by
  cases target with
  | simple nodeLine name =>
      rcases target_simple_inv generated with
        ⟨_, ⟨start, type, found, rfl, rfl⟩ | ⟨start, element, low, count, found, rfl, rfl⟩⟩
      · -- an array as a whole cannot be assigned
        rcases content_found here.holds found with ⟨content, known, represented⟩
        rw [Source.State.assign, known] at assigned
        cases represented with
        | scalar held =>
            cases assigned
            exact ⟨start, _, known, rfl, number_pushes setup placed inside here lists,
              scalar_assigns placed here.holds found⟩
      · rcases content_found here.holds found with ⟨content, known, represented⟩
        rw [Source.State.assign, known] at assigned
        cases represented
        cases assigned
  | indexed nodeLine name index =>
      rcases target_indexed_inv generated with
        ⟨start, element, low, count, inner, indexCode, found, indexed, rfl, rfl⟩
      rcases content_found here.holds found with ⟨content, known, represented⟩
      rcases Option.bind_eq_some_iff.mp assigned with ⟨indexValue, indexEvaluated, chosen⟩
      rw [known] at chosen
      cases represented with
      | array counted held =>
          rcases indexValue with position | _ | _ <;> simp only [reduceCtorEq] at chosen
          split at chosen
          next within =>
            cases chosen
            rcases expr_pushes setup placed inside indexed indexEvaluated here
              (lists_left (lists_left lists)) with ⟨_, between, ran, arrived, top, kept⟩
            have position_top : between.memory (machine.slot (depth + 1)) = position := top
            rcases locate_at setup placed arrived position_top within.1
              (lists_right (lists_left lists)) with ⟨result, more, located, number, same⟩
            rw [List.append_assoc] at more located
            have pushes := register_pushes setup placed inside rfl number located
              (lists_right lists)
            exact ⟨_, _, known, rfl, pushes_after (runs_trans ran more)
              (kept.trans (kept_of_memory same)) pushes,
              element_assigns placed here.holds found counted held within⟩
          next => cases chosen

omit placed in
theorem store_performs {number : Nat} {type : StandardType} {value : Value} {first : Core}
    (here : machine.At initial env state before core depth)
    (held : core.register .gr2 = BitVec.ofNat 16 number)
    (given : core.register .gr1 = value.word) (typed : value.type = type)
    (assigns : machine.Assigns env later first.memory bound type value number)
    (same : ∀ other < bound, core.memory (machine.cell other) = first.memory (machine.cell other))
    (trace : later.trace = state.trace) (lists : machine.Lists before [storeCell]) :
    machine.Performs initial env later before core [storeCell] depth bound := by
  have known : number < machine.listing.cells := Nat.lt_of_lt_of_le assigns.inside inside
  have cells := cell_is_cell setup.fits setup.distinct known
  have changed : machine.effects core [storeCell] =
      some (core.store (machine.cell number) value.word) := by
    simp [storeCell, line, effect, resolve_cell setup.distinct held, isStorage, cells, given]
  rcases lines_run setup lists rfl here.steady changed with ⟨ran, steady, kept⟩
  refine ⟨_, ran, ⟨steady, here.pointer, here.deep, ?_, ?_⟩, ?_, ?_⟩
  · apply assigns.holds _ typed
    · simp
    · intro other below different
      have apart : machine.cell other ≠ machine.cell number := fun equal =>
        different (cell_injective setup.fits (Nat.lt_of_lt_of_le below inside) known equal)
      rw [Comet.Core.store_memory, if_neg apart, same other below]
  · rw [kept, here.trace, trace]
  · intro other low high
    have apart : machine.cell other ≠ machine.cell number := fun equal => by
      have := cell_injective setup.fits high known equal
      have := assigns.inside
      omega
    rw [Comet.Core.store_memory, if_neg apart]
  · intro other low high
    -- cells and stack are apart
    have apart := cell_ne_slot setup known low (Nat.le_trans high here.deep)
    rw [Comet.Core.store_memory, if_neg (Ne.symm apart)]

/-- The code of an assignment, where the generator gives value and target one
type. -/
theorem assign_performs {nodeLine : Nat} {target : Target} {value : Expr} {result : Value}
    (generated : env.stmt (.assign nodeLine target value) supply = (.ok code, after))
    (evaluated : state.eval value = some result)
    (assigned : state.assign target result = some later)
    (agree : ∀ targetPushed targetCode valuePushed valueCode first second third,
      env.target target first = (.ok (targetPushed, targetCode), second) →
      env.expr value second = (.ok (valuePushed, valueCode), third) → targetPushed = valuePushed)
    (here : machine.At initial env state before core depth) (lists : machine.Lists before code) :
    machine.Performs initial env later before core code depth bound := by
  rcases assign_inv generated with
    ⟨targetPushed, targetCode, valuePushed, valueCode, middle, located, coded, rfl⟩
  have alike := agree _ _ _ _ _ _ _ located coded
  have parts := lists_left lists
  rcases target_pushes setup placed inside located assigned here (lists_left parts) with
    ⟨number, content, known, rfl, ⟨targetCore, targetRan, targetAt, targetTop, targetKept⟩, assigns⟩
  rcases expr_pushes setup placed inside coded evaluated targetAt (lists_right parts) with
    ⟨rfl, valueCore, valueRan, valueAt, valueTop, valueKept⟩
  -- The generator checked that both are of one type, so the value fits its cell.
  have typed : result.type = content.elementType := (Pushed.scalar.inj alike).symm
  rw [← valueKept.stack (depth + 1) (Nat.succ_pos _) (Nat.le_refl _)] at targetTop
  rw [List.append_assoc] at valueRan valueAt
  have ends : machine.Lists (before ++ (targetCode ++ valueCode))
    ([popInto .gr1, popInto .gr2] ++ [storeCell]) := lists_right lists
  rcases pop_two_at setup placed valueAt (lists_left ends) (by decide) (by decide) (by decide) with
    ⟨popped, popRan, popAt, first, second, same⟩
  rw [valueTop] at first
  rw [targetTop] at second
  have kept := targetKept.trans (valueKept.mono (Nat.le_refl 0) (Nat.le_succ depth))
  have unchanged : ∀ other < bound,
      popped.memory (machine.cell other) = core.memory (machine.cell other) := by
    intro other below
    rw [same]
    exact kept.cells other (Nat.zero_le _) (Nat.lt_of_lt_of_le below inside)
  have stores := store_performs setup inside popAt second first typed assigns
    unchanged (assign_keeps_trace assigned) (lists_right ends)
  have lastly := performs_after popRan (kept_of_memory same) stores
  exact performs_after (runs_trans targetRan valueRan) kept.to_bound lastly

omit inside in
theorem cell_operand_at {number : Nat} (here : machine.At initial env state before core (depth + 1))
    (top : core.memory (machine.slot (depth + 1)) = BitVec.ofNat 16 number)
    (lists : machine.Lists before cellOperand) :
    ∃ result, machine.Runs before core (before ++ cellOperand) result ∧
      machine.At initial env state (before ++ cellOperand) result depth ∧
      result.register .gr2 = machine.cell number ∧ result.memory = core.memory := by
  have room : depth < machine.room := here.deep
  have address := address_at setup.distinct (@lists_variables machine) rfl
  let start := machine.place machine.instructions
  have changed : machine.effects core cellOperand =
      some ((((core.pop .gr2).set .gr1 start).set .gr2 (machine.cell number)).flag
        (machine.cell number) (Arithmetic.overflows .add (BitVec.ofNat 16 number) start)) := by
    simp [cellOperand, popInto, line, effect, operand, resolve, symbol, address, here.pointer, top,
      Machine.cell, BitVec.add_comm, start]
  rcases lines_at setup placed here lists rfl changed (by simp [here.pointer, slot_pred room])
    (Nat.le_of_lt room) rfl with ⟨ran, arrived⟩
  exact ⟨_, ran, arrived, by simp, rfl⟩

omit inside in
theorem text_operands_at {length : Nat} (here : machine.At initial env state before core (depth + 1))
    (lists : machine.Lists before (textOperands length)) :
    ∃ result, machine.Runs before core (before ++ textOperands length) result ∧
      machine.At initial env state (before ++ textOperands length) result depth ∧
      result.register .gr2 = core.memory (machine.slot (depth + 1)) ∧
      result.register .gr1 = BitVec.ofNat 16 length ∧ result.memory = core.memory := by
  have room : depth < machine.room := here.deep
  have changed : machine.effects core (textOperands length) =
      some ((core.pop .gr2).set .gr1 (BitVec.ofNat 16 length)) := by
    simp [textOperands, popInto, line, effect, resolve_direct]
  rcases lines_at setup placed here lists rfl changed (by simp [here.pointer, slot_pred room])
    (Nat.le_of_lt room) rfl with ⟨ran, arrived⟩
  exact ⟨_, ran, arrived, by simp [here.pointer], by simp, rfl⟩

theorem address_pushes {start : Nat} (here : machine.At initial env state before core depth)
    (lists : machine.Lists before (pushAddress start)) :
    machine.Pushes initial env state before core (pushAddress start) depth (machine.cell start) := by
  have address := address_at setup.distinct (@lists_variables machine) rfl
  apply lines_push setup placed inside here lists rfl
  · simp only [pushAddress, line, pushRegister, effects_cons, effects_nil, effect, operand, resolve,
      symbol, address, content, Literal.word, Arithmetic.compute, BitVec.ofInt_natCast,
      Option.map_some,
      Option.bind_some, Comet.Core.set_register, if_true, Comet.Core.flag_register]
    rfl
  · rfl
  · funext place
    simp [Machine.cell]

theorem scalar_read_performs (routine : Routine) (event : Word → Event) {target : Target}
    {value : Value} {middle : Source.State}
    (generated : env.target target supply = (.ok (pushed, code), after))
    (assigned : state.assign target value = some middle)
    (typed : ∀ content, state.find? target.name = some content →
      value.type = content.elementType)
    (targets : ∀ core, Machine.target core routine = [core.register .gr2])
    (plain : routine ≠ .divide)
    (records : ∀ before after, events before after routine =
      [event (after.memory (before.register .gr2))])
    (gives : ∀ core, machine.Callable initial core routine → core.channel = state.trace →
      (machine.serve core routine).memory (core.register .gr2) = value.word)
    (here : machine.At initial env state before core depth)
    (lists : machine.Lists before (code ++ (cellOperand ++ [callRoutine routine]))) :
    machine.Performs initial env (middle.log (event value.word)) before core
      (code ++ (cellOperand ++ [callRoutine routine])) depth bound := by
  rcases target_pushes setup placed inside generated assigned here (lists_left lists) with
    ⟨number, content, known, _, ⟨located, ran, locatedAt, top, kept⟩, assigns⟩
  rcases cell_operand_at setup placed locatedAt top (lists_left (lists_right lists)) with
    ⟨ready, more, readyAt, held, same⟩
  have inCells : number < machine.listing.cells := Nat.lt_of_lt_of_le assigns.inside inside
  have targeted : Machine.target ready routine = [machine.cell number] := by rw [targets, held]
  -- The routine is handed one address, so no other cell is a target of it.
  have apart : ∀ other, other < machine.listing.cells → other ≠ number →
      machine.cell other ∉ Machine.target ready routine := by
    intro other known different member
    rw [targeted, List.mem_singleton] at member
    exact different (cell_injective setup.fits known inCells member)
  have cells : ∀ address ∈ Machine.target ready routine, machine.isCell address = true := by
    rw [targeted]
    simpa using cell_is_cell setup.fits setup.distinct inCells
  have untargeted : ∀ other, bound ≤ other → other < machine.listing.cells →
      machine.cell other ∉ Machine.target ready routine := by
    intro other low high
    apply apart other high
    have := assigns.inside
    omega
  have holds (callable : machine.Callable initial ready routine) :
      machine.Matches env (middle.log (event value.word)) (machine.serve ready routine).memory := by
    have stored := gives ready callable readyAt.trace
    rw [held] at stored
    have changed := assigns.holds (machine.serve ready routine).memory (typed content known) stored
      fun other below different => by
        have known := Nat.lt_of_lt_of_le below inside
        rw [(setup.meets.serves ready routine callable).image _
          (cell_is_image setup.fits setup.distinct known) (apart other known different), same,
          kept.cells other (Nat.zero_le _) known]
    exact ⟨changed.globals, changed.locals⟩
  have logged (callable : machine.Callable initial ready routine) :
      (machine.serve ready routine).channel = (middle.log (event value.word)).trace := by
    have stored := gives ready callable readyAt.trace
    have recorded : (machine.serve ready routine).channel = ready.channel ++
        [event ((machine.serve ready routine).memory (ready.register .gr2))] :=
      congrArg (ready.channel ++ ·) (records _ _)
    rw [recorded, stored, readyAt.trace, Source.State.log, assign_keeps_trace assigned]
  rcases routine_at setup readyAt (lists_right (lists_right lists)) cells
    (fun divides => absurd divides plain) untargeted holds logged with
    ⟨_, served, servedAt, servedKept⟩
  exact performs_after ran kept.to_bound
    (performs_after more (kept_of_memory same) ⟨_, served, servedAt, servedKept⟩)

omit setup placed inside in
theorem cell_add (start place : Nat) :
    machine.cell start + BitVec.ofNat 16 place = machine.cell (start + place) := by
  rw [Machine.cell, Machine.cell, BitVec.ofNat_add, BitVec.add_assoc]

omit placed inside in
theorem length_to_nat {length : Nat} (known : length ≤ machine.listing.cells) :
    (BitVec.ofNat 16 length).toNat = length := by
  have size := size_in_space setup.fits
  have space := limit_in_space setup.fits
  rw [BitVec.toNat_ofNat, Nat.mod_eq_of_lt]
  omega

omit setup inside in
theorem array_filled {name : String} {start count : Nat} {low high : Int}
    {memory changed : Word → Word} (held : machine.Matches env state memory)
    (found : env.cells? name = some (.array start .char low count))
    (counted : count = (high - low + 1).toNat) (code : Nat → CharCode)
    (stored : ∀ place < count, changed (machine.cell (start + place)) = (code place).word)
    (others : ∀ number < bound, (number < start ∨ start + count ≤ number) →
      changed (machine.cell number) = memory (machine.cell number)) :
    machine.Matches env (state.put name (.array .char low high fun position =>
      some (.char (code (position - low).toNat)))) changed := by
  apply matches_put placed held found (.array counted ?_) others
  rintro place below _ ⟨⟩
  have offset : (low + (place : Int) - low).toNat = place := by omega
  rw [stored place below, offset]
  exact ⟨rfl, rfl⟩

omit placed inside in
theorem text_targets {start count : Nat} (address : core.register .gr2 = machine.cell start)
    (size : (core.register .gr1).toNat = count) (ends : start + count ≤ machine.listing.cells) :
    (∀ word ∈ target core .readText, machine.isCell word = true) ∧
      ∀ number < machine.listing.cells, machine.cell number ∈ target core .readText →
        start ≤ number ∧ number < start + count := by
  have targets : target core .readText =
      (List.range count).map fun place => machine.cell (start + place) := by
    simp only [target, size, address, cell_add]
  constructor
  · intro word member
    rw [targets, List.mem_map] at member
    rcases member with ⟨place, below, rfl⟩
    rw [List.mem_range] at below
    exact cell_is_cell setup.fits setup.distinct (by omega)
  · intro number known member
    rw [targets, List.mem_map] at member
    rcases member with ⟨place, below, equal⟩
    rw [List.mem_range] at below
    have := cell_injective setup.fits (by omega) known equal
    omega

omit placed in
theorem fill_performs {start count : Nat} (here : machine.At initial env state before core depth)
    (address : core.register .gr2 = machine.cell start)
    (length : core.register .gr1 = BitVec.ofNat 16 count) (ends : start + count ≤ bound)
    (holds : ∀ changed : Word → Word,
      (∀ place < count, changed (machine.cell (start + place)) =
        (console.text state.trace count place).word) →
      (∀ number < bound, (number < start ∨ start + count ≤ number) →
        changed (machine.cell number) = core.memory (machine.cell number)) →
      machine.Matches env later changed)
    (logged : later.trace = state.trace ++ [.readText ((List.range count).map fun place =>
      (console.text state.trace count place).word)])
    (lists : machine.Lists before [callRoutine .readText]) :
    machine.Performs initial env later before core [callRoutine .readText] depth bound := by
  have size : (core.register .gr1).toNat = count := by rw [length, length_to_nat setup (by omega)]
  rcases text_targets setup address size (by omega) with ⟨cells, targeted⟩
  have untargeted : ∀ other, bound ≤ other → other < machine.listing.cells →
      machine.cell other ∉ target core .readText := by
    intro other above known member
    have := targeted other known member
    omega
  -- what the routine stores is told by its contract, word by word from the address in GR2
  have filled (callable : machine.Callable initial core .readText) : ∀ place < count,
      (machine.serve core .readText).memory (machine.cell (start + place)) =
        (console.text state.trace count place).word := by
    intro place below
    have stored := (setup.meets.serves core .readText callable).result place (by omega)
    rw [address, cell_add, size, here.trace] at stored
    exact stored
  have held (callable : machine.Callable initial core .readText) :
      machine.Matches env later (machine.serve core .readText).memory := by
    apply holds _ (filled callable)
    intro number below apart
    have known := Nat.lt_of_lt_of_le below inside
    apply (setup.meets.serves core .readText callable).image _
      (cell_is_image setup.fits setup.distinct known)
    intro member
    have := targeted number known member
    omega
  have records (callable : machine.Callable initial core .readText) :
      (machine.serve core .readText).channel = later.trace := by
    have words : (machine.serve core .readText).words (core.register .gr2)
        (core.register .gr1).toNat = (List.range count).map fun place =>
          (console.text state.trace count place).word := by
      rw [Comet.Core.words, size, address]
      apply List.map_congr_left
      intro place below
      rw [cell_add]
      exact filled callable place (List.mem_range.mp below)
    rw [logged, ← words, ← here.trace]
    rfl
  rcases routine_at setup here lists cells nofun untargeted held records with
    ⟨_, served, servedAt, servedKept⟩
  exact ⟨_, served, servedAt, servedKept⟩

theorem text_read_performs {nodeLine : Nat} {name : String} {low high : Int}
    {values : Int → Option Value}
    (generated : env.target (.simple nodeLine name) supply = (.ok (pushed, code), after))
    (known : state.find? name = some (.array .char low high values))
    (changes : later = (state.put name (.array .char low high fun position => some (.char
        (console.text state.trace (high - low + 1).toNat (position - low).toNat)))).log
      (.readText ((List.range (high - low + 1).toNat).map fun place =>
        (console.text state.trace (high - low + 1).toNat place).word)))
    (here : machine.At initial env state before core depth)
    (lists : machine.Lists before (code ++ readCode pushed)) :
    machine.Performs initial env later before core (code ++ readCode pushed) depth bound := by
  rcases target_simple_inv generated with
    ⟨_, ⟨start, type, found, rfl, rfl⟩ | ⟨start, element, first, count, found, rfl, rfl⟩⟩
  · -- a cell of one word does not hold the array that is read
    rcases content_found here.holds found with ⟨content, same, represented⟩
    rw [known] at same
    cases same
    cases represented
  · rcases content_found here.holds found with ⟨content, same, represented⟩
    rw [known] at same
    cases same
    cases represented with
    | array counted held =>
        rw [← counted] at changes
        have ends : start + count ≤ bound := cells_inside placed found
        have listed : machine.Lists before
          (pushAddress start ++ (textOperands count ++ [callRoutine .readText])) := lists
        rcases address_pushes setup placed inside here (lists_left listed) with
          ⟨located, ran, locatedAt, top, kept⟩
        rcases text_operands_at setup placed locatedAt (lists_left (lists_right listed)) with
          ⟨ready, more, readyAt, address, length, same⟩
        rw [top] at address
        have fills : machine.Performs initial env later
            (before ++ pushAddress start ++ textOperands count) ready [callRoutine .readText] depth bound := by
          apply fill_performs setup inside readyAt address length ends
          · intro changed stored others
            have filled := array_filled placed readyAt.holds found counted _ stored others
            rw [changes]
            exact ⟨filled.globals, filled.locals⟩
          · rw [changes, Source.State.log, put_keeps_trace]
          · exact lists_right (lists_right listed)
        exact performs_after ran kept.to_bound
          (performs_after more (kept_of_memory same) fills)

theorem read_into_performs {target : Target}
    (generated : env.target target supply = (.ok (pushed, code), after))
    (done : Source.State.readInto console state target = some later)
    (here : machine.At initial env state before core depth)
    (lists : machine.Lists before (code ++ readCode pushed)) :
    machine.Performs initial env later before core (code ++ readCode pushed) depth bound := by
  rcases read_into_inv done with
    ⟨nodeLine, name, low, high, values, rfl, known, changes⟩ |
    ⟨content, value, event, middle, known, given, assigned, rfl⟩
  · exact text_read_performs setup placed inside generated known changes here lists
  · rcases target_pushes setup placed inside generated assigned here (lists_left lists) with
      ⟨_, other, same, rfl, _⟩
    rw [known] at same
    cases same
    have typed_as {type : StandardType} (elements : content.elementType = type) :
        ∀ other, state.find? target.name = some other → type = other.elementType := by
      intro other found
      rw [known] at found
      cases found
      exact elements.symm
    cases elements : content.elementType with
    | integer =>
        rw [elements] at given generated lists
        cases given
        refine scalar_read_performs setup placed inside .readInteger .readInteger generated assigned
          (typed_as elements) (fun _ => rfl) nofun (fun _ _ => rfl) ?_ here lists
        intro ready callable trace
        rw [← trace]
        exact (setup.meets.serves ready .readInteger callable).result
    | char =>
        rw [elements] at given generated lists
        cases given
        refine scalar_read_performs setup placed inside .readChar .readChar generated assigned
          (typed_as elements) (fun _ => rfl) nofun (fun _ _ => rfl) ?_ here lists
        intro ready callable trace
        rw [← trace]
        exact (setup.meets.serves ready .readChar callable).result
    -- there is no routine for truth values
    | boolean =>
        rw [elements] at given
        cases given

omit placed inside in
theorem text_located {number : Nat} {text : String}
    (entered : machine.listing.texts[number]? = some text) :
    ∃ address, machine.address? (.text number) = some address ∧ text.length < 65536 ∧
      ∀ memory, machine.Loaded memory → ∀ place character, text.toList[place]? = some character →
        memory (address + BitVec.ofNat 16 place) = BitVec.ofNat 16 character.toNat := by
  have member : labelled (.text number) (.text text) ∈ Listing.textLines machine.listing.texts := by
    rw [Listing.textLines, List.mem_map]
    exact ⟨(text, number), by simpa [List.mem_zipIdx_iff_getElem?] using entered, rfl⟩
  rcases List.append_of_mem member with ⟨first, last, split⟩
  have lists : machine.Lists (machine.instructions ++
      [labelled .variables (.reserve machine.listing.cells)] ++ first)
      [labelled (.text number) (.text text)] := by
    rw [Lists, lines_eq, beforeBuffer, split]
    exact ⟨last ++ [labelled .buffer (.reserve Listing.bufferCells), line .finish], by simp⟩
  have address := address_at setup.distinct lists rfl
  have size := size_in_space setup.fits
  have space := limit_in_space setup.fits
  have part : text.length ≤ codeSize (Listing.textLines machine.listing.texts) := by
    have own : (labelled (.text number) (.text text)).op.size = text.length := rfl
    rw [split, code_size_append, code_size_cons, own]
    omega
  refine ⟨_, address, by omega, fun memory loaded place character found => ?_⟩
  -- A line of no words is not found at its place; but here the text has a character.
  have occupied : 0 < (labelled (.text number) (.text text)).op.size := by
    have below := (List.getElem?_eq_some_iff.mp found).1
    rw [String.length_toList] at below
    exact Nat.lt_of_le_of_lt (Nat.zero_le _) below
  have fetched := line_at_place lists occupied
  have read := loaded _ _ text fetched rfl place character found
  rw [BitVec.ofNat_add] at read
  exact read

omit setup placed inside in
theorem array_spells {name : String} {start count : Nat} {element : StandardType} {low high : Int}
    {values : Int → Option Value} {codes : List CharCode}
    (found : env.cells? name = some (.array start element low count))
    (known : state.find? name = some (.array element low high values))
    (read : (List.range (high - low + 1).toNat).mapM (fun (place : Nat) =>
      (values (low + place)).bind Value.char?) = some codes)
    (held : machine.Matches env state core.memory) :
    codes.length = count ∧ Spells core.memory (machine.cell start) codes := by
  rcases content_found held found with ⟨content, same, represented⟩
  rw [known] at same
  cases same
  cases represented with
  | array counted elements =>
      rcases map_option_spec read with ⟨length, spec⟩
      rw [List.length_range, ← counted] at length
      refine ⟨length, fun place code coded => ?_⟩
      have below : place < count := length ▸ (List.getElem?_eq_some_iff.mp coded).1
      rcases spec place code coded with ⟨item, listed, given⟩
      rw [List.getElem?_range (counted ▸ below)] at listed
      cases listed
      rcases Option.bind_eq_some_iff.mp given with ⟨value, assigned, character⟩
      rcases elements place below value assigned with ⟨_, stored⟩
      rw [cell_add, stored]
      cases value <;> cases character
      rfl

theorem text_pushes {value : Expr} {codes : List CharCode}
    (generated : env.expr value supply = (.ok (pushed, code), after))
    (entered : after.texts <+: machine.listing.texts)
    (read : state.text? value = some codes) (here : machine.At initial env state before core depth)
    (lists : machine.Lists before code) :
    ∃ address, pushed = .address codes.length ∧ codes.length < 65536 ∧
      machine.Pushes initial env state before core code depth address ∧
      ∀ later deeper core, machine.At initial env state later core deeper →
        Spells core.memory address codes := by
  cases value with
  | string nodeLine text =>
      rw [Source.State.text?] at read
      split at read
      next => cases read
      next several =>
        rcases map_option_spec read with ⟨length, spec⟩
        rw [String.length_toList] at length
        rcases text_code_inv generated with ⟨character, single, _⟩ | ⟨number, _, new, rfl, rfl⟩
        · exact absurd (by simp [← String.length_toList, single]) several
        · have known := (new_text_numbered new).2
          -- The table of texts only grows, so the number still means this text.
          have final : machine.listing.texts[number]? = some text := by
            rcases entered with ⟨rest, whole⟩
            rw [← whole, List.getElem?_append_left (List.getElem?_eq_some_iff.mp known).1, known]
          rcases text_located setup final with ⟨address, found, small, characters⟩
          refine ⟨address, by rw [length], by omega, ?_, ?_⟩
          · apply lines_push setup placed inside here lists rfl
            · simp only [line, pushRegister, effects_cons, effects_nil, effect, resolve, symbol,
                found, content]
              rfl
            · rfl
            · funext place
              simp
          · intro later deeper core there place code coded
            rcases spec place code coded with ⟨character, listed, given⟩
            rw [characters core.memory there.steady.texts place character listed]
            exact (char_literal_word given).symm
  | simple nodeLine name =>
      rcases expr_simple_inv generated with
        ⟨_, ⟨start, type, found, rfl, rfl⟩ | ⟨start, element, low, count, found, rfl, rfl⟩⟩
      · rcases content_found here.holds found with ⟨content, known, represented⟩
        rw [Source.State.text?, known] at read
        cases represented
        cases read
      · rcases content_found here.holds found with ⟨content, known, represented⟩
        rw [Source.State.text?, known] at read
        cases represented with
        | array counted _ =>
            have length := (array_spells found known read here.holds).1
            have cells : start + count ≤ bound := cells_inside placed found
            have size := size_in_space setup.fits
            have space := limit_in_space setup.fits
            refine ⟨_, by rw [length], by omega, address_pushes setup placed inside here lists, ?_⟩
            intro later deeper core there
            exact (array_spells found known read there.holds).2
  | number => cases read
  | truth => cases read
  | indexed => cases read
  | unary => cases read
  | binary => cases read

theorem output_performs {routine : Routine} {event : Event}
    (untargeted : target core routine = []) (plain : routine ≠ .divide)
    (records : (machine.serve core routine).channel = core.channel ++ [event])
    (here : machine.At initial env state before core depth)
    (lists : machine.Lists before [callRoutine routine]) :
    machine.Performs initial env (state.log event) before core [callRoutine routine] depth bound := by
  have globals : (state.log event).globals = state.globals := rfl
  rw [here.trace] at records
  rcases plain_routine_at setup placed inside here lists untargeted
    (fun divides => absurd divides plain) globals rfl records with
    ⟨_, served, servedAt, servedKept⟩
  exact ⟨_, served, servedAt, servedKept.to_bound⟩

theorem value_write_performs {value : Value} {event : Event} (written : value.written = some event)
    (here : machine.At initial env state before core (depth + 1))
    (top : core.memory (machine.slot (depth + 1)) = value.word)
    (lists : machine.Lists before (writeCode (.scalar value.type))) :
    machine.Performs initial env (state.log event) before core (writeCode (.scalar value.type)) depth
      bound := by
  have performs_by (routine : Routine)
      (untargeted : ∀ core : Core, target core routine = []) (plain : routine ≠ .divide)
      (records : ∀ core : Core, core.register .gr2 = value.word →
        (machine.serve core routine).channel = core.channel ++ [event])
      (lists : machine.Lists before ([popInto .gr2] ++ [callRoutine routine])) :
      machine.Performs initial env (state.log event) before core
        ([popInto .gr2] ++ [callRoutine routine]) depth bound := by
    rcases pop_at setup placed here (lists_left lists) (by decide) with ⟨ran, arrived, held, kept⟩
    rw [top] at held
    exact performs_after ran kept.to_bound
      (output_performs setup placed inside (untargeted _) plain (records _ held) arrived
        (lists_right lists))
  cases value with
  | integer word =>
      cases written
      refine performs_by .writeInteger (fun _ => rfl) nofun (fun core held => ?_) lists
      exact congrArg (fun word => core.channel ++ [Event.writeInteger word]) held
  | char code =>
      cases written
      refine performs_by .writeChar (fun _ => rfl) nofun (fun core held => ?_) lists
      exact congrArg (fun word => core.channel ++ [Event.writeChar word]) held
  | boolean truth => cases written

theorem text_write_performs {codes : List CharCode} {address : Word}
    (small : codes.length < 65536) (here : machine.At initial env state before core (depth + 1))
    (top : core.memory (machine.slot (depth + 1)) = address)
    (characters : ∀ later deeper core, machine.At initial env state later core deeper →
      Spells core.memory address codes)
    (lists : machine.Lists before (writeCode (.address codes.length))) :
    machine.Performs initial env (state.log (.writeText (codes.map CharCode.word))) before core
      (writeCode (.address codes.length)) depth bound := by
  have listed : machine.Lists before
    (textOperands codes.length ++ [callRoutine .writeText]) := lists
  rcases text_operands_at setup placed here (lists_left listed) with
    ⟨ready, ran, readyAt, held, length, same⟩
  rw [top] at held
  have words : ready.words (ready.register .gr2) (ready.register .gr1).toNat =
      codes.map CharCode.word := by
    have size : (BitVec.ofNat 16 codes.length).toNat = codes.length := by
      rw [BitVec.toNat_ofNat, Nat.mod_eq_of_lt small]
    rw [held, length, size, Comet.Core.words]
    apply List.ext_getElem
    · simp
    · intro place below bounded
      have known : place < codes.length := by simpa using bounded
      simpa using characters _ _ ready readyAt place codes[place] (List.getElem?_eq_getElem known)
  have records : (machine.serve ready .writeText).channel =
      ready.channel ++ [.writeText (codes.map CharCode.word)] := by
    rw [← words]
    rfl
  exact performs_after ran (kept_of_memory same)
    (output_performs setup placed inside rfl nofun records readyAt (lists_right listed))

theorem write_out_performs {value : Expr}
    (generated : env.expr value supply = (.ok (pushed, code), after))
    (entered : after.texts <+: machine.listing.texts)
    (done : state.writeOut value = some later) (here : machine.At initial env state before core depth)
    (lists : machine.Lists before (code ++ writeCode pushed)) :
    machine.Performs initial env later before core (code ++ writeCode pushed) depth bound := by
  rcases write_out_inv done with ⟨result, event, evaluated, written, rfl⟩ | ⟨codes, read, rfl⟩
  · rcases expr_pushes setup placed inside generated evaluated here (lists_left lists) with
      ⟨rfl, between, ran, arrived, top, kept⟩
    exact performs_after ran kept.to_bound
      (value_write_performs setup placed inside written arrived top (lists_right lists))
  · rcases text_pushes setup placed inside generated entered read here (lists_left lists) with
      ⟨address, rfl, small, ⟨between, ran, arrived, top, kept⟩, characters⟩
    exact performs_after ran kept.to_bound
      (text_write_performs setup placed inside small arrived top characters (lists_right lists))

theorem reads_perform {targets : List Target}
    (generated : env.reads targets supply = (.ok code, after))
    (done : targets.foldlM (Source.State.readInto console) state = some later)
    (here : machine.At initial env state before core depth) (lists : machine.Lists before code) :
    machine.Performs initial env later before core code depth bound := by
  induction targets generalizing supply code state before core with
  | nil =>
      rcases reads_nil_inv generated with ⟨rfl, _⟩
      cases done
      exact performs_nil here
  | cons first rest ih =>
      rcases reads_cons_inv generated with ⟨inner, firstCode, others, middle, coded, more, rfl⟩
      rw [List.foldlM_cons] at done
      rcases Option.bind_eq_some_iff.mp done with ⟨between, firstDone, restDone⟩
      rcases read_into_performs setup placed inside coded firstDone here (lists_left lists) with
        ⟨result, ran, arrived, kept⟩
      exact performs_after ran kept (ih more restDone arrived (lists_right lists))

theorem writes_perform {values : List Expr}
    (generated : env.writes values supply = (.ok code, after))
    (entered : after.texts <+: machine.listing.texts)
    (done : values.foldlM Source.State.writeOut state = some later)
    (here : machine.At initial env state before core depth) (lists : machine.Lists before code) :
    machine.Performs initial env later before core code depth bound := by
  induction values generalizing supply code state before core with
  | nil =>
      rcases writes_nil_inv generated with ⟨rfl, _⟩
      cases done
      exact performs_nil here
  | cons first rest ih =>
      rcases writes_cons_inv generated with ⟨inner, firstCode, others, middle, coded, more, rfl⟩
      rw [List.foldlM_cons] at done
      rcases Option.bind_eq_some_iff.mp done with ⟨between, firstDone, restDone⟩
      have known := List.IsPrefix.trans (writes_numbered more).grows.texts entered
      rcases write_out_performs setup placed inside coded known firstDone here (lists_left lists)
        with ⟨result, ran, arrived, kept⟩
      exact performs_after ran kept (ih more restDone arrived (lists_right lists))

end Targets

end Machine
end PascalCasl
