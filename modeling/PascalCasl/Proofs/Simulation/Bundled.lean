import PascalCasl.Proofs.Comet.Arithmetic
import PascalCasl.Proofs.Comet.ReadInteger
import PascalCasl.Proofs.Comet.WriteInteger
import PascalCasl.Proofs.Simulation.Program

/-!
The bundled library as the support routines of a listing. Where its cells lie
beside the listing and it may push a few words below a full stack, its routines for
arithmetic and integers keep the register contract, call by call. A listing that
multiplies and divides with them has a library that keeps it in every run.
-/

namespace PascalCasl

open Casl

namespace Machine

variable (machine : Machine) (host : Comet.Host Comet.library) (console : Console)
  (terminal : Comet.Terminal)

/-- The words from the first line up to the last literal. -/
def InListing (address : Word) : Prop :=
  machine.origin ≤ address.toNat ∧ address.toNat < machine.origin + machine.imageSize

/-- No cell of the library is in the listing or on the stack. Its routines may push
eight words when the stack is full. -/
structure Carries : Prop where
  reserve : machine.origin + machine.imageSize + 8 ≤ machine.limit
  listing : ∀ cell ∈ host.cells, ¬machine.InListing cell
  stack : ∀ cell ∈ host.cells, cell.toNat + 8 < machine.limit ∨ machine.top ≤ cell.toNat

/-- What a routine asks for apart from a ready library and room on the stack. The
routines that are not listed here are left to other libraries. -/
def Asks (core : Core) : Routine → Prop
  | .multiply => True
  | .divide => core.register .gr2 ≠ 0
  | .readInteger =>
      machine.isCell (core.register .gr2) = true ∧
        ∃ line position, host.Held (core.withChannel terminal) line position ∧
          console.integer core.channel = BitVec.ofInt 16 (Comet.takeNumber (line.drop position)).1
  | .writeInteger =>
      ∀ address, Comet.Within (core.withChannel terminal).cursor
        (Comet.decimal (core.register .gr2)).length address → machine.isBuffer address = true
  | _ => False

/-- The code of the library comes back from a call at `pc`, with the contract kept. -/
structure Answers (pc : Nat) (routine : Routine) (before after : Core) : Prop where
  reached : Comet.Reaches host.code ⟨pc, before.withChannel terminal⟩
    ⟨pc + 1, after.withChannel terminal⟩
  ready : host.Ready (after.withChannel terminal)
  serves : machine.Serves console routine before after

variable {machine host console terminal}

theorem within_in_listing {before : Code} {label : Label} {count : Nat} {address : Word}
    (fits : machine.Fits) (distinct : (labels machine.lines).Nodup)
    (lists : machine.Lists before [labelled label (.reserve count)])
    (inside : machine.within label count address = true) : machine.InListing address := by
  have range := (within_iff fits distinct lists address).mp inside
  have listed : codeSize before + count ≤ codeSize machine.lines := line_in_listing lists
  have whole : codeSize machine.lines ≤ machine.imageSize := Nat.le_add_right _ _
  exact ⟨by omega, by omega⟩

theorem image_in_listing {address : Word} (image : machine.isImage address = true) :
    machine.InListing address := by
  simp only [isImage, Bool.and_eq_true, decide_eq_true_eq] at image
  exact image.1

theorem carried_not_stack {cell : Word} (carries : machine.Carries host)
    (member : cell ∈ host.cells) : machine.isStack cell = false := by
  have apart := carries.stack cell member
  have outside : ¬(machine.limit ≤ cell.toNat ∧ cell.toNat < machine.top) := by omega
  simpa [isStack] using outside

section

variable {core : Core} {address : Word} {count number : Nat} (fits : machine.Fits)
  (carries : machine.Carries host)
  (shallow : machine.depth core ≤ machine.top - machine.limit)
  (distinct : (labels machine.lines).Nodup)

include fits

theorem listing_not_stack (inside : machine.InListing address) :
    machine.isStack address = false := by
  have image := fits.image
  have below : ¬machine.limit ≤ address.toNat := by
    have := inside.2
    omega
  simp [isStack, below]

include carries shallow

theorem pushed_place (few : number < 8) :
    (Comet.slot (core.register .gr8) number).toNat =
      machine.top - machine.depth core - 1 - number := by
  have reserve := carries.reserve
  have stack := fits.stack
  have space := fits.space
  rw [slot_of_depth fits shallow, slot, Comet.slot]
  bv_omega

/-- What a routine pushes is below what is on the stack and above the listing. -/
theorem pushed_range (few : count ≤ 8)
    (pushed : Comet.Stacked (core.register .gr8) count address) :
    machine.limit ≤ address.toNat + 8 ∧ address.toNat + machine.depth core < machine.top := by
  obtain ⟨number, less, rfl⟩ := pushed
  have place := pushed_place fits carries shallow (Nat.lt_of_lt_of_le less few)
  have reserve := carries.reserve
  have stack := fits.stack
  omega

theorem carries_room : host.Room (core.register .gr8) 8 := by
  refine ⟨?_, fun cell member pushed => ?_⟩
  · have first := pushed_place fits carries shallow (Nat.succ_pos 7)
    have reserve := carries.reserve
    have stack := fits.stack
    rw [Comet.slot, BitVec.sub_zero] at first
    omega
  · have range := pushed_range fits carries shallow (Nat.le_refl 8) pushed
    have apart := carries.stack cell member
    omega

/-- A routine spares its caller if, apart from what it pushes, it changes nothing on
the stack, and in the listing only what it was asked to read into. -/
theorem keeps_spares {after : Comet.Core Comet.Terminal} {routine : Routine}
    {registers : List Register} {changed : Word → Prop} (few : count ≤ 8)
    (keeps : (core.withChannel terminal).Keeps registers
      (fun address => Comet.Stacked (core.register .gr8) count address ∨ changed address) after)
    (free : .gr8 ∉ registers)
    (elsewhere : ∀ address, changed address → machine.isStack address = false ∧
      (machine.isImage address = true → address ∈ target core routine)) :
    machine.Spares routine core (after.withChannel core.channel) where
  pointer := keeps.register .gr8 free
  stack number first last := by
    refine keeps.memory _ fun change => ?_
    have place := slot_to_nat fits first
    rcases change with pushed | changed
    · -- what the routine pushes is below the slots in use
      have range := pushed_range fits carries shallow few pushed
      omega
    · have onStack := slot_is_stack fits first (Nat.le_trans last shallow)
      rw [(elsewhere _ changed).1] at onStack
      cases onStack
  image address inside outside := by
    refine keeps.memory _ fun change => ?_
    rcases change with pushed | changed
    · -- and it is above the listing
      have range := pushed_range fits carries shallow few pushed
      have reserve := carries.reserve
      have below := (image_in_listing inside).2
      omega
    · exact outside ((elsewhere _ changed).2 inside)

theorem listing_not_pushed (inside : machine.InListing address) :
    ¬Comet.Stacked (core.register .gr8) 8 address := by
  intro pushed
  have range := pushed_range fits carries shallow (Nat.le_refl 8) pushed
  have reserve := carries.reserve
  have := inside.2
  omega

variable {pc : Nat} (ready : host.Ready (core.withChannel terminal))

include ready

/-- What is left to show of a call when it is known which words it changes. -/
theorem keeps_answers {after : Comet.Core Comet.Terminal} {routine : Routine}
    {registers : List Register} {changed : Word → Prop} (few : count ≤ 8)
    (reached : Comet.Reaches host.code ⟨pc, core.withChannel terminal⟩ ⟨pc + 1, after⟩)
    (keeps : (core.withChannel terminal).Keeps registers
      (fun address => Comet.Stacked (core.register .gr8) count address ∨ changed address) after)
    (free : .gr8 ∉ registers)
    (constant : ∀ constant ∈ Comet.Host.constants, ¬changed (host.placement.cell constant.1))
    (elsewhere : ∀ address, changed address → machine.isStack address = false ∧
      (machine.isImage address = true → address ∈ target core routine))
    (result : Result console core (after.withChannel core.channel) routine) :
    ∃ after, machine.Answers host console terminal pc routine core after := by
  have back : (after.withChannel core.channel).withChannel terminal = after := by
    rw [← show after.channel = terminal from keeps.channel]
    rfl
  refine ⟨after.withChannel core.channel, ?_, ?_,
    ⟨keeps_spares fits carries shallow few keeps free elsewhere, result⟩⟩
  · rwa [back]
  · rw [back]
    refine ready.congr fun cell member => keeps.memory _ (not_or.mpr ⟨?_, constant cell member⟩)
    exact ((carries_room fits carries shallow).fewer few).apart _
      (host.cell_placed (Comet.Host.constant_listed member))

theorem multiply_answers (called : host.Calls pc "MULT") :
    ∃ after, machine.Answers host console terminal pc .multiply core after := by
  obtain ⟨after, reached, keeps, product⟩ := Comet.Host.multiply_returns ready called
    ((carries_room fits carries shallow).fewer (by decide))
  exact keeps_answers fits carries shallow ready (by decide) reached
    (keeps.mono (fun _ => id) fun _ => Or.inl) (by decide) (fun _ _ => id) (fun _ => False.elim)
    product

theorem divide_answers (called : host.Calls pc "DIV") (divisor : core.register .gr2 ≠ 0) :
    ∃ after, machine.Answers host console terminal pc .divide core after := by
  obtain ⟨after, reached, keeps, results⟩ := Comet.Host.divide_returns ready called
    ((carries_room fits carries shallow).fewer (by decide))
  obtain ⟨remainder, quotient⟩ := results divisor
  refine keeps_answers fits carries shallow ready (by decide) reached
    (keeps.mono (fun _ => id) fun _ => Or.inl) (by decide) (fun _ _ => id) (fun _ => False.elim)
    ⟨quotient.trans (Comet.signed_divided _ _).truncated, ?_⟩
  rw [Source.Value.remainder, ← BitVec.toInt_srem, BitVec.ofInt_toInt]
  exact remainder

include distinct

theorem read_integer_answers (called : host.Calls pc "RDINT")
    (asks : machine.Asks host console terminal core .readInteger) :
    ∃ after, machine.Answers host console terminal pc .readInteger core after := by
  obtain ⟨cell, line, position, held, given⟩ := asks
  have inside := within_in_listing fits distinct lists_variables cell
  have outside : core.register .gr2 ∉ host.cells := fun member =>
    carries.listing _ member inside
  have apart : ¬Comet.Stacked (core.register .gr8) 7 (core.register .gr2) := fun pushed =>
    listing_not_pushed fits carries shallow inside (pushed.mono (by decide))
  obtain ⟨after, reached, keeps, stored, -⟩ := Comet.Host.read_returns ready called
    ((carries_room fits carries shallow).fewer (by decide)) held outside apart
  have placed := host.cell_placed Comet.Host.position_listed
  refine keeps_answers fits carries shallow ready (by decide) reached keeps (by simp) ?_ ?_
    (stored.trans given.symm)
  · rintro constant member (same | same)
    · exact host.cells_apart (Comet.Host.constant_listed member) Comet.Host.position_listed
        (Comet.Host.constant_ne_position constant member) same
    · exact outside (same ▸ host.cell_placed (Comet.Host.constant_listed member))
  · rintro address (rfl | rfl)
    · exact ⟨carried_not_stack carries placed, fun image =>
        absurd (image_in_listing image) (carries.listing _ placed)⟩
    · exact ⟨listing_not_stack fits inside, fun _ => List.mem_singleton_self _⟩

theorem write_integer_answers (called : host.Calls pc "WRTINT")
    (asks : machine.Asks host console terminal core .writeInteger) :
    ∃ after, machine.Answers host console terminal pc .writeInteger core after := by
  have inside {address : Word} (written : Comet.Within (core.withChannel terminal).cursor
      (Comet.decimal (core.register .gr2)).length address) : machine.InListing address :=
    within_in_listing fits distinct lists_buffer (asks address written)
  obtain ⟨after, reached, keeps, -⟩ := Comet.Host.write_returns ready called
    (carries_room fits carries shallow) fun address written =>
      ⟨fun member => carries.listing _ member (inside written),
        listing_not_pushed fits carries shallow (inside written)⟩
  refine keeps_answers fits carries shallow ready (Nat.le_refl 8) reached keeps (by decide) ?_ ?_
    trivial
  · exact fun constant member written => carries.listing _
      (host.cell_placed (Comet.Host.constant_listed member)) (inside written)
  · refine fun address written => ⟨listing_not_stack fits (inside written), fun image => ?_⟩
    rw [isImage, asks address written, Bool.not_true, Bool.and_false] at image
    cases image

end

/-- Each of the four routines that the bundled library is asked for comes back from
its call and keeps the contract. -/
theorem bundled_answers {core : Core} {pc : Nat} {routine : Routine} (fits : machine.Fits)
    (distinct : (labels machine.lines).Nodup) (carries : machine.Carries host)
    (ready : host.Ready (core.withChannel terminal))
    (shallow : machine.depth core ≤ machine.top - machine.limit)
    (called : host.Calls pc routine.name) (asks : machine.Asks host console terminal core routine) :
    ∃ after, machine.Answers host console terminal pc routine core after := by
  cases routine with
  | multiply => exact multiply_answers fits carries shallow ready called
  | divide => exact divide_answers fits carries shallow ready called asks
  | readInteger => exact read_integer_answers fits carries shallow distinct ready called asks
  | writeInteger => exact write_integer_answers fits carries shallow distinct ready called asks
  | readChar | readText | readLine | writeChar | writeText | writeLine => exact asks.elim

end Machine

def Routine.computes : Routine → Bool
  | .multiply | .divide => true
  | _ => false

open Classical in
/-- Multiplication and division are calls of the bundled code at their entries. The
other routines are plain. -/
noncomputable def Library.assembled (machine : Machine) (host : Comet.Host Comet.library)
    (console : Console) (terminal : Comet.Terminal) (entry : Routine → Nat) : Library where
  Ready core := host.Ready (core.withChannel terminal)
  run routine core :=
    if returns : routine.computes = true ∧
        ∃ after, machine.Answers host console terminal (entry routine) routine core after then
      returns.2.choose
    else (Library.plain console).run routine core

namespace Machine

variable {machine : Machine} {host : Comet.Host Comet.library} {console : Console}
  {terminal : Comet.Terminal} {entry : Routine → Nat}

theorem Serves.with_library {routine : Routine} {before after : Core}
    (serves : machine.Serves console routine before after) (library : Library) :
    { machine with library }.Serves console routine before after :=
  ⟨⟨serves.pointer, serves.stack, serves.image⟩, serves.result⟩

theorem assembled_answers {core : Core} {routine : Routine} (fits : machine.Fits)
    (distinct : (labels machine.lines).Nodup) (carries : machine.Carries host)
    (ready : host.Ready (core.withChannel terminal))
    (shallow : machine.depth core ≤ machine.top - machine.limit)
    (computes : routine.computes = true) (called : host.Calls (entry routine) routine.name)
    (divisor : routine = .divide → core.register .gr2 ≠ 0) :
    machine.Answers host console terminal (entry routine) routine core
      ((Library.assembled machine host console terminal entry).run routine core) := by
  have asks : machine.Asks host console terminal core routine := by
    cases routine with
    | multiply => trivial
    | divide => exact divisor rfl
    | _ => cases computes
  have returns := bundled_answers fits distinct carries ready shallow called asks
  have chosen : (Library.assembled machine host console terminal entry).run routine core =
      returns.choose := dif_pos ⟨computes, returns⟩
  rw [chosen]
  exact returns.choose_spec

/-- A listing whose products, quotients and remainders come from the bundled code has
a library that meets the contract. -/
theorem assembled_meets {initial : State} (fits : machine.Fits)
    (distinct : (labels machine.lines).Nodup) (carries : machine.Carries host)
    (ready : host.Ready (initial.core.withChannel terminal))
    (called : ∀ routine : Routine, routine.computes = true →
      host.Calls (entry routine) routine.name) :
    Library.Meets { machine with library := .assembled machine host console terminal entry }
      console initial := by
  let library := Library.assembled machine host console terminal entry
  have listed {constant : Comet.Cell × Word} (member : constant ∈ Comet.Host.constants) :=
    host.cell_placed (Comet.Host.constant_listed member)
  have cellOutside {cell : Word} (member : cell ∈ host.cells) : machine.isCell cell = false := by
    rw [← Bool.not_eq_true]
    exact fun inside => carries.listing _ member
      (within_in_listing fits distinct lists_variables inside)
  have storage {cell : Word} (member : cell ∈ host.cells) : machine.isStorage cell = false := by
    rw [isStorage, cellOutside member, carried_not_stack carries member, Bool.false_or]
  have plain {core : Core} {routine : Routine} (computes : routine.computes ≠ true) :
      library.run routine core = (Library.plain console).run routine core :=
    dif_neg fun returns => computes returns.1
  refine ⟨fun core _ _ _ same => ?_, fun before after readyBefore same => ?_,
    fun core routine callable => ?_, fun core routine callable => ?_⟩
  · exact ready.congr fun constant member => same _ (storage (listed member))
  · exact Comet.Host.Ready.congr readyBefore fun constant member =>
      same.memory _ (storage (listed member))
  · by_cases computes : routine.computes = true
    · exact (assembled_answers fits distinct carries callable.ready callable.stack computes
        (called routine computes) callable.divisor).ready
    · refine Comet.Host.Ready.congr callable.ready fun constant member => ?_
      change (library.run routine core).memory _ = _
      rw [plain computes]
      refine plain_keeps core routine fun targeted => ?_
      have cell := callable.target _ targeted
      cases cell.symm.trans (cellOutside (listed member))
  · refine serves_traced _ ?_
    by_cases computes : routine.computes = true
    · exact (assembled_answers fits distinct carries callable.ready callable.stack computes
        (called routine computes) callable.divisor).serves.with_library library
    · change Serves _ _ _ _ (library.run routine core)
      rw [plain computes]
      exact (plain_serves fits distinct callable.stack callable.target).with_library library

end Machine

theorem factorial_carries : factorialMachine.Carries Comet.callerHost where
  reserve := by decide +kernel
  listing cell member inside := by
    have low : 0x1000 ≤ cell.toNat := (Comet.caller_cells_low member).1
    have image : factorialMachine.origin + factorialMachine.imageSize ≤ 0x1000 := by decide +kernel
    exact absurd inside.2 (by omega)
  stack cell member :=
    .inr (Nat.le_trans (by decide) (Comet.caller_cells_low member).1)

/-- The calls of the two routines are the first instructions of the caller. -/
noncomputable def factorialLibrary : Library :=
  .assembled factorialMachine Comet.callerHost threeConsole ⟨[], []⟩ fun routine =>
    if routine = .multiply then 0 else 1

theorem factorial_library_meets :
    Library.Meets { factorialMachine with library := factorialLibrary } threeConsole
      ⟨16#16, (Comet.callerCore 0 0 []).withChannel []⟩ := by
  have fits : factorialMachine.Fits := by constructor <;> decide +kernel
  let core : Machine.Core := (Comet.callerCore 0 0 []).withChannel []
  have ready : Comet.callerHost.Ready (core.withChannel ⟨[], []⟩) :=
    (Comet.caller_ready 0 0 []).congr fun _ _ => by simp only [core, Comet.Core.with_channel_memory]
  refine Machine.assembled_meets fits (by decide +kernel) factorial_carries ready
    fun routine computes => ?_
  cases routine with
  | multiply => rfl
  | divide => rfl
  | _ => cases computes

end PascalCasl
