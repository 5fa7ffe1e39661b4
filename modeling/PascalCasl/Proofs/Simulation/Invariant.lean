import PascalCasl.Proofs.Simulation.Run
import PascalCasl.Proofs.Simulation.Storage

/-!
The simulation relation. At a place of the program the machine has a number of
words on its stack, the variables of the source are in their cells, and both
sides have read and written the same. Pieces of code are followed by what they
keep: the cells from a bound on and the words below them on the stack.
-/

namespace PascalCasl

open Casl

namespace Machine

variable (machine : Machine)

/-- The machine is at the place after `before` with `depth` words on its stack,
and its memory holds the variables of the source. -/
structure At (initial : State) (env : Env) (state : Source.State) (before : Code)
    (core : Core) (depth : Nat) :
    Prop where
  steady : machine.Steady initial before core
  pointer : core.register .gr8 = machine.slot depth
  deep : depth ≤ machine.room
  holds : machine.Matches env state core.memory
  trace : core.channel = state.trace

/-- The cells from `bound` on and the first `depth` words of the stack are as
before. -/
structure Kept (bound depth : Nat) (core result : Core) : Prop where
  cells : ∀ number, bound ≤ number → number < machine.listing.cells →
    result.memory (machine.cell number) = core.memory (machine.cell number)
  stack : ∀ number, 1 ≤ number → number ≤ depth →
    result.memory (machine.slot number) = core.memory (machine.slot number)

variable {machine} {env : Env} {state : Source.State} {before code : Code} {core result : Core}
  {console : Console} {initial : State} {globalEnd base bound depth : Nat}

theorem kept_refl (bound depth : Nat) (core : Core) : machine.Kept bound depth core core :=
  ⟨fun _ _ _ => rfl, fun _ _ _ => rfl⟩

theorem Kept.trans {between : Core} (first : machine.Kept bound depth core between)
    (second : machine.Kept bound depth between result) : machine.Kept bound depth core result where
  cells number low high := (second.cells number low high).trans (first.cells number low high)
  stack number low high := (second.stack number low high).trans (first.stack number low high)

theorem Kept.mono {higher lower : Nat} (kept : machine.Kept bound depth core result)
    (fewerCells : bound ≤ higher) (fewerWords : lower ≤ depth) :
    machine.Kept higher lower core result where
  cells number low high := kept.cells number (Nat.le_trans fewerCells low) high
  stack number low high := kept.stack number low (Nat.le_trans high fewerWords)

theorem Kept.to_bound (kept : machine.Kept 0 depth core result) :
    machine.Kept bound depth core result :=
  kept.mono (Nat.zero_le bound) (Nat.le_refl depth)

theorem room_for_push (fits : machine.Fits) (deep : depth ≤ machine.room)
    (pointer : result.register .gr8 = machine.slot depth - 1#16)
    (bounded : machine.depth result ≤ machine.room) : depth < machine.room := by
  -- On a full stack the push goes below the limit, and one more word is counted.
  by_contra full
  have last : depth = machine.room := by omega
  have bound := room_le fits
  have stack := fits.stack
  have space := fits.space
  rw [Machine.depth, pointer, last, slot] at bounded
  rw [room] at bounded bound
  have limit : machine.top - (machine.top - machine.limit) = machine.limit := by omega
  rw [limit] at bounded
  have exceeded : (BitVec.ofNat 16 machine.top - (BitVec.ofNat 16 machine.limit - 1#16)).toNat =
      machine.top - machine.limit + 1 := by
    have small : machine.limit < 65536 ∨ machine.limit = 65536 := by omega
    simp only [BitVec.toNat_sub, BitVec.toNat_ofNat]
    omega
  omega

theorem kept_of_memory (same : result.memory = core.memory) :
    machine.Kept bound depth core result :=
  ⟨fun _ _ _ => congrFun same _, fun _ _ _ => congrFun same _⟩

theorem cell_ne_slot (setup : machine.Setup console initial) {number deep : Nat}
    (known : number < machine.listing.cells) (first : 1 ≤ deep) (last : deep ≤ machine.room) :
    machine.cell number ≠ machine.slot deep := by
  intro same
  have outside := cell_not_stack setup.fits setup.distinct known
  rw [same, slot_is_stack setup.fits first last] at outside
  cases outside

theorem push_kept (setup : machine.Setup console initial) {word : Word}
    (pointer : core.register .gr8 = machine.slot depth) (room : depth < machine.room)
    (stored : result.memory = (core.push word).memory) :
    result.memory (machine.slot (depth + 1)) = word ∧ machine.Kept 0 depth core result := by
  have top : core.register .gr8 - 1#16 = machine.slot (depth + 1) := by
    rw [pointer, slot_succ room]
  refine ⟨?_, fun number _ known => ?_, fun number first last => ?_⟩
  · rw [stored, Comet.Core.push_memory, top, if_pos rfl]
  · have differs := cell_ne_slot setup known (Nat.succ_pos depth) room
    rw [stored, Comet.Core.push_memory, top, if_neg differs]
  · have differs : machine.slot number ≠ machine.slot (depth + 1) := by
      intro same
      have equal := slot_injective setup.fits first (by omega) (Nat.succ_pos depth) room same
      omega
    rw [stored, Comet.Core.push_memory, top, if_neg differs]

theorem At.moved {target : Code} (here : machine.At initial env state before core depth)
    (steady : machine.Steady initial target core) : machine.At initial env state target core depth :=
  ⟨steady, here.pointer, here.deep, here.holds, here.trace⟩

/-- The code pushes the word and leaves all else that matters as it was. -/
def Pushes (machine : Machine) (initial : State) (env : Env) (state : Source.State)
    (before : Code) (core : Core) (code : Code) (depth : Nat) (word : Word) : Prop :=
  ∃ result, machine.Runs before core (before ++ code) result ∧
    machine.At initial env state (before ++ code) result (depth + 1) ∧
    result.memory (machine.slot (depth + 1)) = word ∧ machine.Kept 0 depth core result

theorem pushes_from {start rest : Code} {between : Core} {word : Word}
    (ran : machine.Runs before core start between) (kept : machine.Kept 0 depth core between)
    (pushes : machine.Pushes initial env state start between rest depth word)
    (ends : start ++ rest = before ++ code) :
    machine.Pushes initial env state before core code depth word := by
  rcases pushes with ⟨result, more, arrived, top, keptLater⟩
  rw [ends] at more arrived
  exact ⟨result, runs_trans ran more, arrived, top, kept.trans keptLater⟩

theorem pushes_after {first second : Code} {between : Core} {word : Word}
    (ran : machine.Runs before core (before ++ first) between)
    (kept : machine.Kept 0 depth core between)
    (pushes : machine.Pushes initial env state (before ++ first) between second depth word) :
    machine.Pushes initial env state before core (first ++ second) depth word :=
  pushes_from ran kept pushes (List.append_assoc before first second)

def PushesAll (machine : Machine) (initial : State) (env : Env) (state : Source.State)
    (before : Code) (core : Core) (code : Code) (depth : Nat) (words : List Word) : Prop :=
  ∃ result, machine.Runs before core (before ++ code) result ∧
    machine.At initial env state (before ++ code) result (depth + words.length) ∧
    (∀ (place : Nat) (word : Word), words[place]? = some word →
      result.memory (machine.slot (depth + 1 + place)) = word) ∧
    machine.Kept 0 depth core result

theorem pushes_all_nil (here : machine.At initial env state before core depth) :
    machine.PushesAll initial env state before core [] depth [] := by
  refine ⟨core, ?_, ?_, nofun, kept_refl _ _ _⟩
  · simpa using runs_refl before core
  · simpa using here

theorem pushes_all_cons {first rest : Code} {between : Core} {word : Word} {words : List Word}
    (ran : machine.Runs before core (before ++ first) between)
    (top : between.memory (machine.slot (depth + 1)) = word)
    (kept : machine.Kept 0 depth core between)
    (others : machine.PushesAll initial env state (before ++ first) between rest (depth + 1) words) :
    machine.PushesAll initial env state before core (first ++ rest) depth (word :: words) := by
  rcases others with ⟨result, more, arrived, pushed, keptLater⟩
  rw [List.append_assoc] at more arrived
  have total : depth + 1 + words.length = depth + (word :: words).length := by
    rw [List.length_cons]
    omega
  rw [total] at arrived
  refine ⟨result, runs_trans ran more, arrived, ?_,
    kept.trans (keptLater.mono (Nat.le_refl 0) (Nat.le_succ depth))⟩
  intro place other found
  cases place with
  | zero =>
      cases found
      rw [Nat.add_zero, keptLater.stack _ (Nat.succ_pos _) (Nat.le_refl _), top]
  | succ place =>
      have position : depth + 1 + (place + 1) = depth + 1 + 1 + place := by omega
      rw [position]
      exact pushed place other found

/-- The code brings the machine to the later state, changing no cell from
`bound` on. -/
def Performs (machine : Machine) (initial : State) (env : Env) (later : Source.State)
    (before : Code) (core : Core) (code : Code) (depth bound : Nat) : Prop :=
  ∃ result, machine.Runs before core (before ++ code) result ∧
    machine.At initial env later (before ++ code) result depth ∧ machine.Kept bound depth core result

theorem performs_nil (here : machine.At initial env state before core depth) :
    machine.Performs initial env state before core [] depth bound := by
  refine ⟨core, ?_, ?_, kept_refl _ _ _⟩
  · rw [List.append_nil]
    exact runs_refl _ _
  · rw [List.append_nil]
    exact here

theorem performs_after {first second : Code} {between : Core} {later : Source.State}
    (ran : machine.Runs before core (before ++ first) between)
    (kept : machine.Kept bound depth core between)
    (rest : machine.Performs initial env later (before ++ first) between second depth bound) :
    machine.Performs initial env later before core (first ++ second) depth bound := by
  rcases rest with ⟨result, more, arrived, keptLater⟩
  rw [List.append_assoc] at more arrived
  exact ⟨result, runs_trans ran more, arrived, kept.trans keptLater⟩

section Straight

variable (setup : machine.Setup console initial) (placed : env.Placed globalEnd base bound)
  (inside : bound ≤ machine.listing.cells)

include setup placed

theorem lines_at {result : Core} {deeper : Nat} (here : machine.At initial env state before core depth)
    (lists : machine.Lists before code)
    (spares : code.all (fun line => line.op.spares) = true)
    (changed : machine.effects core code = some result)
    (pointer : result.register .gr8 = machine.slot deeper) (deep : deeper ≤ machine.room)
    (same : result.memory = core.memory) :
    machine.Runs before core (before ++ code) result ∧
      machine.At initial env state (before ++ code) result deeper := by
  rcases lines_run setup lists spares here.steady changed with ⟨ran, steady, trace⟩
  exact ⟨ran, steady, pointer, deep,
    matches_of_same placed here.holds fun _ _ => congrFun same _, trace.trans here.trace⟩

theorem pop_at {register : Register} (here : machine.At initial env state before core (depth + 1))
    (lists : machine.Lists before [popInto register])
    (free : register ≠ .gr6 ∧ register ≠ .gr7 ∧ register ≠ .gr8) :
    machine.Runs before core (before ++ [popInto register]) (core.pop register) ∧
      machine.At initial env state (before ++ [popInto register]) (core.pop register) depth ∧
      (core.pop register).register register = core.memory (machine.slot (depth + 1)) ∧
      machine.Kept 0 depth core (core.pop register) := by
  have room : depth < machine.room := here.deep
  have pointer : (core.pop register).register .gr8 = machine.slot depth := by
    rw [Comet.Core.pop_register, if_neg (Ne.symm free.2.2), if_pos rfl, here.pointer, slot_pred room]
  have spares : [popInto register].all (fun line => line.op.spares) = true := by
    simp [popInto, line, Op.spares, free]
  rcases lines_at setup placed here lists spares rfl pointer (Nat.le_of_lt room) rfl with
    ⟨ran, arrived⟩
  refine ⟨ran, arrived, ?_, kept_of_memory rfl⟩
  rw [Comet.Core.pop_register, if_pos rfl, here.pointer]

theorem pop_two_at {first second : Register}
    (here : machine.At initial env state before core (depth + 1 + 1))
    (lists : machine.Lists before [popInto first, popInto second])
    (firstFree : first ≠ .gr6 ∧ first ≠ .gr7 ∧ first ≠ .gr8)
    (secondFree : second ≠ .gr6 ∧ second ≠ .gr7 ∧ second ≠ .gr8) (different : first ≠ second) :
    ∃ result, machine.Runs before core (before ++ [popInto first, popInto second]) result ∧
      machine.At initial env state (before ++ [popInto first, popInto second]) result depth ∧
      result.register first = core.memory (machine.slot (depth + 1 + 1)) ∧
      result.register second = core.memory (machine.slot (depth + 1)) ∧
      result.memory = core.memory := by
  have listed : machine.Lists before ([popInto first] ++ [popInto second]) := lists
  rcases pop_at setup placed here (lists_left listed) firstFree with ⟨ran, arrived, held, _⟩
  rcases pop_at setup placed arrived (lists_right listed) secondFree with
    ⟨more, finished, secondHeld, _⟩
  rw [List.append_assoc before [popInto first] [popInto second]] at finished
  have joined : before ++ [popInto first] ++ [popInto second] =
      before ++ [popInto first, popInto second] := by simp
  refine ⟨_, runs_trans ran (joined ▸ more), finished, ?_, secondHeld, rfl⟩
  rw [Comet.Core.pop_register, if_neg different, if_neg firstFree.2.2, held]

include inside

theorem lines_push {result : Core} {word : Word} (here : machine.At initial env state before core depth)
    (lists : machine.Lists before code)
    (spares : code.all (fun line => line.op.spares) = true)
    (changed : machine.effects core code = some result)
    (pointer : result.register .gr8 = core.register .gr8 - 1#16)
    (stored : result.memory = (core.push word).memory) :
    machine.Pushes initial env state before core code depth word := by
  rcases lines_run setup lists spares here.steady changed with ⟨ran, steady, trace⟩
  rw [here.pointer] at pointer
  have room := room_for_push setup.fits here.deep pointer steady.depth_le
  rw [slot_succ room] at pointer
  rcases push_kept setup here.pointer room stored with ⟨top, kept⟩
  refine ⟨result, ran, ⟨steady, pointer, room, ?_, trace.trans here.trace⟩, top, kept⟩
  exact matches_of_same placed here.holds fun number below =>
    kept.cells number (Nat.zero_le _) (Nat.lt_of_lt_of_le below inside)

omit placed inside in
/-- A routine keeps the stack and all cells that it does not read into. -/
theorem routine_at {routine : Routine} {later : Source.State} {kept : Nat}
    (here : machine.At initial env state before core depth)
    (lists : machine.Lists before [line (.call (.routine routine))])
    (cells : ∀ address ∈ target core routine, machine.isCell address = true)
    (divisor : routine = .divide → core.register .gr2 ≠ 0)
    (untargeted : ∀ number, kept ≤ number → number < machine.listing.cells →
      machine.cell number ∉ target core routine)
    (held : machine.Callable initial core routine →
      machine.Matches env later (machine.serve core routine).memory)
    (logged : machine.Callable initial core routine →
      (machine.serve core routine).channel = later.trace) :
    machine.Callable initial core routine ∧
      machine.Runs before core (before ++ [line (.call (.routine routine))])
        (machine.serve core routine) ∧
      machine.At initial env later (before ++ [line (.call (.routine routine))])
        (machine.serve core routine) depth ∧
      machine.Kept kept depth core (machine.serve core routine) := by
  rcases routine_runs setup lists here.steady cells divisor with ⟨callable, ran, steady⟩
  have deep := depth_of_slot setup.fits here.deep here.pointer
  refine ⟨callable, ran, ⟨steady, ?_, here.deep, held callable, logged callable⟩, ?_, ?_⟩
  · rw [(setup.meets.serves core routine callable).pointer, here.pointer]
  · intro number low known
    exact (setup.meets.serves core routine callable).image _
      (cell_is_image setup.fits setup.distinct known) (untargeted number low known)
  · intro number first last
    exact (setup.meets.serves core routine callable).stack number first (by omega)

theorem plain_routine_at {routine : Routine} {later : Source.State}
    (here : machine.At initial env state before core depth)
    (lists : machine.Lists before [line (.call (.routine routine))])
    (untargeted : target core routine = [])
    (divisor : routine = .divide → core.register .gr2 ≠ 0)
    (globals : later.globals = state.globals) (locals : later.locals = state.locals)
    (logged : (machine.serve core routine).channel = later.trace) :
    machine.Callable initial core routine ∧
      machine.Runs before core (before ++ [line (.call (.routine routine))])
        (machine.serve core routine) ∧
      machine.At initial env later (before ++ [line (.call (.routine routine))])
        (machine.serve core routine) depth ∧
      machine.Kept 0 depth core (machine.serve core routine) := by
  apply routine_at setup here lists (by simp [untargeted]) divisor (by simp [untargeted])
  · intro callable
    have held := matches_of_same placed here.holds fun number below =>
      (setup.meets.serves core routine callable).image _
        (cell_is_image setup.fits setup.distinct (Nat.lt_of_lt_of_le below inside))
        (by simp [untargeted])
    exact ⟨globals ▸ held.globals, locals ▸ held.locals⟩
  · exact fun _ => logged

end Straight

end Machine
end PascalCasl
