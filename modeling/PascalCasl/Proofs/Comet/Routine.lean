import Mathlib.Data.BitVec
import Mathlib.Tactic.Ring
import PascalCasl.Proofs.Comet.Host

/-!
Calls of routines. A routine saves registers on the stack, does its work and
restores them, so that a caller sees what the work left in the other registers
and in memory, and nothing else but words below the stack pointer.
-/

namespace PascalCasl.Comet

open Casl (Register)

/-- From `before` to `after` only the given registers and words change. -/
structure Core.Keeps (before : Core Terminal) (registers : List Register) (changed : Word → Prop)
    (after : Core Terminal) : Prop where
  register : ∀ register ∉ registers, after.register register = before.register register
  memory : ∀ address, ¬changed address → after.memory address = before.memory address
  channel : after.channel = before.channel

def nowhere (_ : Word) : Prop := False

namespace Core.Keeps

variable {first second third : Core Terminal} {registers others : List Register}
  {changed wider : Word → Prop}

theorem refl (core : Core Terminal) : core.Keeps registers changed core :=
  ⟨fun _ _ => rfl, fun _ _ => rfl, rfl⟩

theorem trans (one : first.Keeps registers changed second)
    (two : second.Keeps registers changed third) : first.Keeps registers changed third where
  register name free := (two.register name free).trans (one.register name free)
  memory address free := (two.memory address free).trans (one.memory address free)
  channel := two.channel.trans one.channel

theorem mono (keeps : first.Keeps registers changed second) (more : registers ⊆ others)
    (wide : ∀ address, changed address → wider address) : first.Keeps others wider second where
  register name free := keeps.register name fun member => free (more member)
  memory address free := keeps.memory address fun member => free (wide address member)
  channel := keeps.channel

theorem more (keeps : first.Keeps registers changed second) (more : registers ⊆ others) :
    first.Keeps others changed second :=
  keeps.mono more fun _ => id

theorem memory_same (keeps : first.Keeps registers nowhere second) :
    second.memory = first.memory :=
  funext fun address => keeps.memory address id

end Core.Keeps

/-- An action that writes to registers only, and only to the given ones. -/
def Action.quiet {α : Type} (registers : List Register) : Action α → Bool
  | .nop | .compareSigned .. | .compareUnsigned .. => true
  | .load register _ | .loadAddress register _ | .compute _ register _ | .shiftLeft register _
  | .shiftRight register _ => register ∈ registers
  | .store .. | .push .. | .pop .. => false

theorem Action.quiet_keeps {registers : List Register} {action : Action Word} {core : Core Terminal}
    (quiet : action.quiet registers = true) :
    core.Keeps registers nowhere (action.perform core) := by
  have written {register : Register} (member : register ∈ registers) {name : Register}
      (free : name ∉ registers) : name ≠ register := by
    rintro rfl
    exact free member
  cases action with
  | nop | compareSigned | compareUnsigned => exact ⟨fun _ _ => rfl, fun _ _ => rfl, rfl⟩
  | store | push | pop => cases quiet
  | load register | loadAddress register | compute _ register | shiftLeft register
  | shiftRight register =>
      have member : register ∈ registers := of_decide_eq_true quiet
      exact ⟨fun _ free => if_neg (written member free), fun _ _ => rfl, rfl⟩

theorem Action.quiet_map {α β : Type} {f : α → β} {registers : List Register} {action : Action α} :
    (action.map f).quiet registers = action.quiet registers := by
  cases action <;> rfl

theorem Host.quiet_perform {segments : List Segment} (host : Host segments) {segment : Segment}
    (registers : List Register) (actions : List (Action Ref)) (core : Core Terminal)
    (quiet : actions.all (Action.quiet registers) = true) :
    core.Keeps registers nowhere (host.perform segment actions core) := by
  induction actions generalizing core with
  | nil => exact .refl core
  | cons action rest ih =>
      rw [List.all_cons, Bool.and_eq_true] at quiet
      exact (Action.quiet_keeps (Action.quiet_map.trans quiet.1)).trans (ih _ quiet.2)

theorem Host.quiet_run {segments : List Segment} (host : Host segments) {segment : Segment}
    (member : segment ∈ segments) (number : Nat) (actions : List (Action Ref))
    (registers : List Register) (listed : segment.Lists number (acts actions))
    (quiet : actions.all (Action.quiet registers) = true) (core : Core Terminal) :
    ∃ after, host.Runs segment number core (number + actions.length) after ∧
      core.Keeps registers nowhere after ∧ host.perform segment actions core = after :=
  ⟨_, host.actions_run member number actions listed core,
    host.quiet_perform registers actions core quiet, rfl⟩

theorem Host.Ready.keeps {host : Host library} {core after : Core Terminal}
    {registers : List Register} (ready : host.Ready core)
    (keeps : core.Keeps registers nowhere after) : host.Ready after :=
  ready.congr fun _ _ => congrFun keeps.memory_same _

/-- A word that was loaded is told apart by its sign. -/
def Core.Flagged (core : Core Terminal) (word : Word) : Prop :=
  core.zero = decide (word = 0#16) ∧ core.negative = word.msb

section

variable {segments : List Segment} (host : Host segments) {segment : Segment}
  (member : segment ∈ segments) (number target : Nat)
  (listed : segment.Lists number (goUnlessNegative target)) (core : Core Terminal) {word : Word}
  (flagged : core.Flagged word)

include member listed flagged

theorem Host.negative_run (negative : word.msb = true) :
    host.Runs segment number core (number + 2) core := by
  have nonzero : word ≠ 0#16 := by
    rintro rfl
    cases negative
  have first : segment.Lists number [go (.on .plus) target] :=
    (List.prefix_append _ _).trans listed
  refine (host.pass_run member number (.on .plus) target first core ?_).trans
    (host.pass_run member (number + 1) (.on .zero) target listed.tail core ?_)
  · simp [Core.holds, flagged.2, negative]
  · simp [Core.holds, flagged.1, nonzero]

theorem Host.nonnegative_run (inside : target < segment.code.length)
    (nonnegative : word.msb = false) : host.Runs segment number core target core := by
  have first : segment.Lists number [go (.on .plus) target] :=
    (List.prefix_append _ _).trans listed
  by_cases zero : word = 0#16
  · refine (host.pass_run member number (.on .plus) target first core ?_).trans
      (host.jump_run member (number + 1) (.on .zero) target listed.tail core inside ?_)
    · simp [Core.holds, flagged.1, zero]
    · simp [Core.holds, flagged.1, zero]
  · refine host.jump_run member number (.on .plus) target first core inside ?_
    simp [Core.holds, flagged.1, flagged.2, zero, nonnegative]

end

theorem Host.compare_run {segments : List Segment} (host : Host segments) {segment : Segment}
    (member : segment ∈ segments) (number : Nat) (register : Register) (source : Operand Ref)
    (listed : segment.Lists number (acts [.compareSigned register source])) (core : Core Terminal)
    {word : Word}
    (value : (source.map (host.placement.address segment.name)).value core = word) :
    ∃ after, host.Runs segment number core (number + 1) after ∧ core.Keeps [] nowhere after ∧
      after.zero = decide (core.register register = word) ∧
      after.negative = decide ((core.register register).toInt < word.toInt) := by
  subst value
  refine ⟨_, host.actions_run member number _ listed core,
    ⟨fun _ _ => rfl, fun _ _ => rfl, rfl⟩, ?_, ?_⟩
  · change decide (compare (core.register register).toInt _ = .eq) = _
    rw [decide_eq_decide, compare_eq_iff_eq, BitVec.toInt_inj]
  · change decide (compare (core.register register).toInt _ = .lt) = _
    rw [decide_eq_decide, compare_lt_iff_lt]

theorem Host.test_run {segments : List Segment} (host : Host segments) {segment : Segment}
    (member : segment ∈ segments) (number : Nat) (register : Register)
    (listed : segment.Lists number (acts [move register register])) (core : Core Terminal) :
    ∃ after, host.Runs segment number core (number + 1) after ∧ core.Keeps [] nowhere after ∧
      after.Flagged (core.register register) := by
  refine ⟨_, host.actions_run member number _ listed core, ?_, ?_⟩
  · exact ⟨by simp, fun _ _ => rfl, rfl⟩
  · simp [Core.Flagged]

theorem Host.store_run {segments : List Segment} (host : Host segments) {segment : Segment}
    (member : segment ∈ segments) (number : Nat) (register : Register) (place : Place Ref)
    (listed : segment.Lists number (acts [.store register place])) (core : Core Terminal)
    {address : Word}
    (located : (place.map (host.placement.address segment.name)).address core = address) :
    ∃ after, host.Runs segment number core (number + 1) after ∧
      core.Keeps [] (fun other => other = address) after ∧
      after.memory address = core.register register := by
  subst located
  refine ⟨_, host.actions_run member number _ listed core, ?_, if_pos rfl⟩
  exact ⟨fun _ _ => rfl, fun _ other => if_neg other, rfl⟩

theorem magnitude_small (word : Word) : word.abs.toNat ≤ 32768 := by
  rw [BitVec.abs_eq, BitVec.msb_eq_decide]
  split
  next negative =>
    rw [decide_eq_true_eq] at negative
    bv_omega
  next nonnegative =>
    rw [decide_eq_true_eq] at nonnegative
    bv_omega

section

variable {host : Host library} {segment : Segment} {core : Core Terminal}

theorem Host.negate_performed (ready : host.Ready core) (register : Register) :
    (host.perform segment (negate register) core).register register =
      -core.register register := by
  have ones : core.memory (host.placement.literal 0xFFFF#16) = 0xFFFF#16 :=
    ready.literal (by simp [library_literals])
  have one : core.memory (host.placement.literal 1#16) = 1#16 :=
    ready.literal (by simp [library_literals])
  have inverted : core.register register ^^^ 0xFFFF#16 = ~~~core.register register :=
    BitVec.xor_allOnes
  simp [negate, ones, one, inverted, BitVec.neg_eq_not_add]

theorem Host.negate_run (member : segment ∈ library) (number : Nat) (register : Register)
    (listed : segment.Lists number (acts (negate register))) (ready : host.Ready core) :
    ∃ after, host.Runs segment number core (number + 2) after ∧
      core.Keeps [register] nowhere after ∧ after.register register = -core.register register := by
  obtain ⟨after, run, keeps, performed⟩ := host.quiet_run member number (negate register)
    [register] listed (by simp [negate, adjust, Action.quiet]) core
  exact ⟨after, run, keeps, performed ▸ negate_performed ready register⟩

theorem Host.sign_run (member : segment ∈ library) (number : Nat) (mask register : Register)
    (listed : segment.Lists number
      (acts [move mask mask] ++ [go (.on .zero) (number + 4)] ++ acts (negate register)))
    (inside : number + 4 < segment.code.length) (ready : host.Ready core) :
    ∃ after, host.Runs segment number core (number + 4) after ∧
      core.Keeps [register] nowhere after ∧
      after.register register =
        if core.register mask = 0#16 then core.register register else -core.register register := by
  have branch : segment.Lists (number + 1) [go (.on .zero) (number + 4)] :=
    (List.prefix_append _ _).trans listed.tail
  have negation : segment.Lists (number + 2) (acts (negate register)) := listed.tail.tail
  obtain ⟨tested, test, keeps, flagged⟩ := host.test_run member number mask
    ((List.prefix_append_of_prefix (List.prefix_append _ _)).trans listed) core
  by_cases unset : core.register mask = 0#16
  · have skip := host.jump_run member (number + 1) (.on .zero) _ branch tested inside
      (by simp [Core.holds, flagged.1, unset])
    refine ⟨tested, test.trans skip, keeps.more (by simp), ?_⟩
    rw [if_pos unset, keeps.register register (by simp)]
  · have pass := host.pass_run member (number + 1) (.on .zero) _ branch tested
      (by simp [Core.holds, flagged.1, unset])
    obtain ⟨after, run, keepsToo, negated⟩ := Host.negate_run member (number + 2) register negation
      (ready.keeps keeps)
    refine ⟨after, (test.trans pass).trans run, (keeps.more (by simp)).trans keepsToo, ?_⟩
    rw [if_neg unset, negated, keeps.register register (by simp)]

end

theorem word_succ (number : Nat) :
    BitVec.ofNat 16 (number + 1) = BitVec.ofNat 16 number + (1 : Word) :=
  BitVec.ofNat_add number 1

/-- The word that is pushed after `number` others. -/
def slot (pointer : Word) (number : Nat) : Word := pointer - 1 - BitVec.ofNat 16 number

/-- One of the words that the next `count` pushes go to. -/
def Stacked (pointer : Word) (count : Nat) (address : Word) : Prop :=
  ∃ number < count, address = slot pointer number

theorem slot_below (pointer : Word) (used number : Nat) :
    slot (pointer - BitVec.ofNat 16 used) number = slot pointer (used + number) := by
  rw [slot, slot, BitVec.ofNat_add]
  ring

theorem Stacked.below {pointer address : Word} {used count : Nat}
    (stacked : Stacked (pointer - BitVec.ofNat 16 used) count address) :
    Stacked pointer (used + count) address := by
  obtain ⟨number, less, rfl⟩ := stacked
  exact ⟨used + number, by omega, slot_below pointer used number⟩

theorem Stacked.deeper {pointer address : Word} {count : Nat}
    (stacked : Stacked (pointer - 1) count address) : Stacked pointer (count + 1) address :=
  Nat.add_comm 1 count ▸ Stacked.below stacked

theorem Stacked.apart {pointer address : Word} {used count : Nat} (few : used + count ≤ 65536)
    (stacked : Stacked pointer used address) :
    ¬Stacked (pointer - BitVec.ofNat 16 used) count address := by
  obtain ⟨number, less, rfl⟩ := stacked
  rintro ⟨other, lessToo, same⟩
  rw [slot, slot] at same
  bv_omega

theorem Stacked.mono {pointer address : Word} {count more : Nat} (le : count ≤ more)
    (stacked : Stacked pointer count address) : Stacked pointer more address := by
  obtain ⟨number, less, same⟩ := stacked
  exact ⟨number, by omega, same⟩

theorem stacked_above {pointer : Word} {count number : Nat} (less : number < count) :
    Stacked pointer count (pointer - BitVec.ofNat 16 count + BitVec.ofNat 16 number) := by
  refine ⟨count - 1 - number, by omega, ?_⟩
  rw [slot]
  bv_omega

def WordsAt (memory : Word → Word) : Word → List Word → Prop
  | _, [] => True
  | address, word :: rest => memory address = word ∧ WordsAt memory (address + 1) rest

theorem WordsAt.congr {memory other : Word → Word} {address : Word} {words : List Word}
    (stands : WordsAt memory address words)
    (same : ∀ number < words.length,
      other (address + BitVec.ofNat 16 number) = memory (address + BitVec.ofNat 16 number)) :
    WordsAt other address words := by
  induction words generalizing address with
  | nil => trivial
  | cons word rest ih =>
      refine ⟨?_, ih stands.2 fun number less => ?_⟩
      · have here := same 0 (by simp)
        rw [BitVec.add_zero] at here
        rw [here, stands.1]
      · have next : address + 1 + BitVec.ofNat 16 number =
            address + BitVec.ofNat 16 (number + 1) := by
          rw [word_succ]
          ring
        rw [next]
        exact same (number + 1) (by simpa using less)

theorem words_at_append {memory : Word → Word} {address : Word} {first second : List Word}
    (stands : WordsAt memory address (first ++ second)) :
    WordsAt memory (address + BitVec.ofNat 16 first.length) second := by
  induction first generalizing address with
  | nil => simpa using stands
  | cons word rest ih =>
      have later := ih stands.2
      have next : address + 1 + BitVec.ofNat 16 rest.length =
          address + BitVec.ofNat 16 (rest.length + 1) := by
        rw [word_succ]
        ring
      rwa [next] at later

theorem WordsAt.append {memory : Word → Word} {address : Word} {first second : List Word}
    (one : WordsAt memory address first)
    (two : WordsAt memory (address + BitVec.ofNat 16 first.length) second) :
    WordsAt memory address (first ++ second) := by
  induction first generalizing address with
  | nil => simpa using two
  | cons word rest ih =>
      refine ⟨one.1, ih one.2 ?_⟩
      have next : address + 1 + BitVec.ofNat 16 rest.length =
          address + BitVec.ofNat 16 (rest.length + 1) := by
        rw [word_succ]
        ring
      rwa [next]

def charWord (c : Char) : Word := BitVec.ofNat 16 c.toNat

def Within (start : Word) (count : Nat) (address : Word) : Prop :=
  ∃ number < count, address = start + BitVec.ofNat 16 number

namespace Core

variable {core : Core Terminal} {words : List Word} {registers : List Register}

theorem push_pointer (word : Word) :
    (core.push word).register .gr8 = core.register .gr8 - 1 := rfl

theorem push_keeps (core : Core Terminal) (word : Word) :
    core.Keeps [.gr8] (Stacked (core.register .gr8) 1) (core.push word) where
  register name free := if_neg (by simpa using free)
  memory address free := if_neg fun same => free ⟨0, by omega, by simp [slot, same]⟩
  channel := rfl

theorem push_words (word : Word) (few : words.length < 65536)
    (stands : WordsAt core.memory (core.register .gr8) words) :
    WordsAt (core.push word).memory ((core.push word).register .gr8) (word :: words) := by
  refine ⟨if_pos rfl, ?_⟩
  have back : (core.push word).register .gr8 + 1 = core.register .gr8 := by
    rw [push_pointer]
    ring
  rw [back]
  refine stands.congr fun number less => if_neg ?_
  bv_omega

def pushes (core : Core Terminal) : List Register → Core Terminal
  | [] => core
  | register :: rest => (core.push (core.register register)).pushes rest

def pops (core : Core Terminal) : List Register → Core Terminal
  | [] => core
  | register :: rest => (core.pop register).pops rest

theorem pushes_pointer : (core.pushes registers).register .gr8 =
    core.register .gr8 - BitVec.ofNat 16 registers.length := by
  induction registers generalizing core with
  | nil => simp [pushes]
  | cons register rest ih =>
      rw [pushes, ih, push_pointer, List.length_cons, word_succ]
      ring

theorem pushes_keeps (core : Core Terminal) (registers : List Register) :
    core.Keeps [.gr8] (Stacked (core.register .gr8) registers.length) (core.pushes registers) := by
  induction registers generalizing core with
  | nil => exact .refl core
  | cons register rest ih =>
      have first := push_keeps core (core.register register)
      have later := ih (core.push (core.register register))
      rw [push_pointer] at later
      exact (first.mono (fun _ => id) fun _ => .mono (by simp)).trans
        (later.mono (fun _ => id) fun _ => .deeper)

theorem pushes_words (free : .gr8 ∉ registers) (few : registers.length + words.length ≤ 65536)
    (stands : WordsAt core.memory (core.register .gr8) words) :
    WordsAt (core.pushes registers).memory ((core.pushes registers).register .gr8)
      ((registers.map core.register).reverse ++ words) := by
  induction registers generalizing core words with
  | nil => exact stands
  | cons register rest ih =>
      rw [List.mem_cons, not_or] at free
      rw [List.length_cons] at few
      have first := push_words (core.register register) (by omega) stands
      have same : rest.map (core.push (core.register register)).register =
          rest.map core.register := by
        refine List.map_congr_left fun name member => ?_
        refine (push_keeps core _).register name ?_
        rw [List.mem_singleton]
        rintro rfl
        exact free.2 member
      have later := ih free.2 (by simp only [List.length_cons]; omega) first
      rw [same] at later
      simpa [pushes] using later

@[simp] theorem pops_memory : (core.pops registers).memory = core.memory := by
  induction registers generalizing core with
  | nil => rfl
  | cons register rest ih => exact ih

@[simp] theorem pops_channel : (core.pops registers).channel = core.channel := by
  induction registers generalizing core with
  | nil => rfl
  | cons register rest ih => exact ih

theorem pop_pointer (core : Core Terminal) {register : Register} (free : register ≠ .gr8) :
    (core.pop register).register .gr8 = core.register .gr8 + 1 := by
  simp [pop, free.symm]

theorem pops_pointer (core : Core Terminal) (free : .gr8 ∉ registers) :
    (core.pops registers).register .gr8 =
      core.register .gr8 + BitVec.ofNat 16 registers.length := by
  induction registers generalizing core with
  | nil => simp [pops]
  | cons register rest ih =>
      rw [List.mem_cons, not_or] at free
      rw [pops, ih _ free.2, pop_pointer _ (Ne.symm free.1), List.length_cons, word_succ]
      ring

theorem pops_other {other : Register} (apart : other ∉ registers) (free : other ≠ .gr8) :
    (core.pops registers).register other = core.register other := by
  induction registers generalizing core with
  | nil => rfl
  | cons register rest ih =>
      rw [List.mem_cons, not_or] at apart
      rw [pops, ih apart.2, pop_register, if_neg apart.1, if_neg free]

theorem pops_restored {value : Register → Word} (free : .gr8 ∉ registers)
    (stands : WordsAt core.memory (core.register .gr8) (registers.map value ++ words)) :
    ∀ register ∈ registers, (core.pops registers).register register = value register := by
  induction registers generalizing core with
  | nil => simp
  | cons first rest ih =>
      rw [List.mem_cons, not_or] at free
      have others : WordsAt (core.pop first).memory ((core.pop first).register .gr8)
          (rest.map value ++ words) := by
        rw [pop_pointer core (Ne.symm free.1)]
        exact stands.2
      have later := ih free.2 others
      intro register member
      by_cases inside : register ∈ rest
      · exact later register inside
      · obtain rfl : register = first := by simpa [inside] using member
        rw [pops, pops_other inside (Ne.symm free.1)]
        change (if register = register then _ else _) = _
        rw [if_pos rfl, stands.1]

/-- The core after a call to return to `back`, when the registers are saved. -/
def entered (core : Core Terminal) (back : Nat) (saved : List Register) : Core Terminal :=
  (core.push (BitVec.ofNat 16 back)).pushes saved

theorem entered_keeps (core : Core Terminal) (back : Nat) (saved : List Register) :
    core.Keeps [.gr8] (Stacked (core.register .gr8) (saved.length + 1))
      (core.entered back saved) := by
  have first := push_keeps core (BitVec.ofNat 16 back)
  have later := pushes_keeps (core.push (BitVec.ofNat 16 back)) saved
  rw [push_pointer] at later
  exact (first.mono (fun _ => id) fun _ => .mono (by omega)).trans
    (later.mono (fun _ => id) fun _ => .deeper)

theorem entered_register {back : Nat} {saved : List Register} {register : Register}
    (free : register ≠ .gr8) : (core.entered back saved).register register =
      core.register register :=
  (entered_keeps core back saved).register register (by simpa using free)

theorem entered_pointer {back : Nat} {saved : List Register} :
    (core.entered back saved).register .gr8 =
      core.register .gr8 - BitVec.ofNat 16 (saved.length + 1) := by
  rw [entered, pushes_pointer, push_pointer, word_succ]
  ring

theorem entered_words (core : Core Terminal) {back : Nat} {saved : List Register}
    (free : .gr8 ∉ saved) (few : saved.length < 65536) :
    WordsAt (core.entered back saved).memory ((core.entered back saved).register .gr8)
      (saved.reverse.map core.register ++ [BitVec.ofNat 16 back]) := by
  have first : WordsAt (core.push (BitVec.ofNat 16 back)).memory
      ((core.push (BitVec.ofNat 16 back)).register .gr8) [BitVec.ofNat 16 back] :=
    push_words _ (by simp) trivial
  have all := pushes_words free (by simp only [List.length_singleton]; omega) first
  have same : saved.map (core.push (BitVec.ofNat 16 back)).register = saved.map core.register := by
    refine List.map_congr_left fun name member => (push_keeps core _).register name ?_
    rw [List.mem_singleton]
    rintro rfl
    exact free member
  rwa [same, ← List.map_reverse] at all

end Core

/-- From `entry` on the registers are saved, and from `leave` on they are restored
before the return. -/
structure Segment.Frames (segment : Segment) (entry : Nat) (saved : List Register)
    (leave : Nat) : Prop where
  saves : segment.Lists entry (acts (saved.map save))
  restores : segment.Lists leave (acts (saved.reverse.map restore) ++ [.ret])
  some : saved ≠ []
  free : .gr8 ∉ saved

namespace Host

variable {segments : List Segment} (host : Host segments) {segment : Segment}

/-- There are `count` words for the stack below the pointer, and no cell is one of
them. -/
structure Room (pointer : Word) (count : Nat) : Prop where
  deep : count ≤ (pointer - 1).toNat + 1
  apart : ∀ address ∈ host.cells, ¬Stacked pointer count address

def CallsAt (pc : Nat) (segment : Segment) (entry : Nat) : Prop :=
  host.code[pc]? = some (.call ⟨host.placement.address segment.name (.code entry), none⟩)

/-- The instruction `pc` is a call of the unit. -/
def Calls (pc : Nat) (name : String) : Prop :=
  host.code[pc]? = some (.call ⟨host.placement.unit name, none⟩)

variable {host}

theorem Room.fewer {pointer : Word} {count fewer : Nat} (room : host.Room pointer count)
    (less : fewer ≤ count) : host.Room pointer fewer where
  deep := less.trans room.deep
  apart address member stacked := room.apart address member (stacked.mono less)

theorem Room.below {pointer : Word} {used left : Nat} (room : host.Room pointer (used + left)) :
    host.Room (pointer - BitVec.ofNat 16 used) left := by
  refine ⟨?_, fun address member stacked => room.apart address member stacked.below⟩
  have := room.deep
  bv_omega

theorem perform_saves {core : Core Terminal} {saved : List Register} :
    host.perform segment (saved.map save) core = core.pushes saved := by
  induction saved generalizing core with
  | nil => rfl
  | cons register rest ih =>
      rw [List.map_cons, perform_cons, act_save, ih]
      rfl

theorem perform_restores {core : Core Terminal} {registers : List Register} :
    host.perform segment (registers.map restore) core = core.pops registers := by
  induction registers generalizing core with
  | nil => rfl
  | cons register rest ih =>
      rw [List.map_cons, perform_cons, act_restore, ih]
      rfl

section

variable {pc entry leave : Nat} {saved : List Register} {core finished : Core Terminal}

theorem entry_reached (member : segment ∈ segments) (frames : segment.Frames entry saved leave)
    (called : host.CallsAt pc segment entry) :
    Reaches host.code ⟨pc, core⟩
      (host.before segment (entry + saved.length) (core.entered (pc + 1) saved)) := by
  have saves := host.actions_run member entry _ frames.saves (core.push (BitVec.ofNat 16 (pc + 1)))
  rw [perform_saves, List.length_map] at saves
  refine Reaches.trans (.once called ?_) saves
  have inside : entry < segment.code.length := by
    have listed := frames.saves.length_le
    have some : 0 < saved.length := List.length_pos_of_ne_nil frames.some
    rw [acts, List.length_map, List.length_map, List.length_drop] at listed
    omega
  change some (State.mk (host.placement.address segment.name (.code entry)).toNat _) = _
  rw [host.code_address member inside]
  rfl

theorem return_reached (member : segment ∈ segments) (frames : segment.Frames entry saved leave)
    (small : pc + 1 < 65536) (pointer : finished.register .gr8 + BitVec.ofNat 16 saved.length ≠ 0)
    (stands : WordsAt finished.memory (finished.register .gr8)
      (saved.reverse.map core.register ++ [BitVec.ofNat 16 (pc + 1)])) :
    Reaches host.code (host.before segment leave finished)
      ⟨pc + 1, (finished.pops saved.reverse).set .gr8
        (finished.register .gr8 + BitVec.ofNat 16 (saved.length + 1))⟩ := by
  have free : .gr8 ∉ saved.reverse := by simpa using frames.free
  have listed : segment.Lists leave (acts (saved.reverse.map restore)) :=
    (List.prefix_append _ _).trans frames.restores
  have restores := host.actions_run member leave _ listed finished
  rw [perform_restores] at restores
  have ending := host.fetched member frames.restores.behind
  rw [acts, List.length_map] at ending
  refine Reaches.trans restores (.once ending ?_)
  · have top := (words_at_append stands).1
    have moved := Core.pops_pointer finished free
    rw [List.length_reverse] at moved
    rw [List.length_map, List.length_reverse] at top
    -- the step of RET, with the address taken from behind the restored registers
    change (if (finished.pops saved.reverse).register .gr8 = 0 then none else some (State.mk
      ((finished.pops saved.reverse).memory ((finished.pops saved.reverse).register .gr8)).toNat
      ((finished.pops saved.reverse).set .gr8
        ((finished.pops saved.reverse).register .gr8 + 1)))) = _
    rw [moved, if_neg pointer, Core.pops_memory, top, BitVec.toNat_ofNat, Nat.mod_eq_of_lt small,
      word_succ, BitVec.add_assoc]

/-- A call comes back. The caller finds in memory and in the registers that are not
saved what the work of the routine left there. -/
theorem call_returns {clobbered : List Register} {changed : Word → Prop}
    (member : segment ∈ segments) (frames : segment.Frames entry saved leave)
    (called : host.CallsAt pc segment entry)
    (room : host.Room (core.register .gr8) (saved.length + 1))
    (work : host.Runs segment (entry + saved.length) (core.entered (pc + 1) saved) leave finished)
    (keeps : (core.entered (pc + 1) saved).Keeps clobbered changed finished)
    (pointer : .gr8 ∉ clobbered)
    (away : ∀ address, Stacked (core.register .gr8) (saved.length + 1) address →
      ¬changed address) :
    ∃ after, Reaches host.code ⟨pc, core⟩ ⟨pc + 1, after⟩ ∧
      core.Keeps (clobbered.filter (· ∉ saved))
        (fun address => Stacked (core.register .gr8) (saved.length + 1) address ∨ changed address)
        after ∧
      (∀ register ∉ saved, register ≠ .gr8 →
        after.register register = finished.register register) ∧
      after.memory = finished.memory := by
  have deep := room.deep
  have small : pc + 1 < 65536 := by
    have inside := (List.getElem?_eq_some_iff.mp called).1
    have := host.small
    omega
  have some : 0 < saved.length := List.length_pos_of_ne_nil frames.some
  have entered := core.entered_keeps (pc + 1) saved
  have top : finished.register .gr8 =
      core.register .gr8 - BitVec.ofNat 16 (saved.length + 1) := by
    rw [keeps.register .gr8 pointer, Core.entered_pointer]
  -- the work leaves what was pushed on entry as it is
  have stands : WordsAt finished.memory (finished.register .gr8)
      (saved.reverse.map core.register ++ [BitVec.ofNat 16 (pc + 1)]) := by
    rw [keeps.register .gr8 pointer]
    refine (core.entered_words frames.free (by omega)).congr fun number less =>
      keeps.memory _ (away _ ?_)
    rw [List.length_append, List.length_map, List.length_reverse, List.length_singleton] at less
    rw [Core.entered_pointer]
    exact stacked_above less
  have back : finished.register .gr8 + BitVec.ofNat 16 (saved.length + 1) =
      core.register .gr8 := by
    rw [top]
    ring
  have above : finished.register .gr8 + BitVec.ofNat 16 saved.length ≠ 0 := by
    rw [top]
    bv_omega
  refine ⟨_, (entry_reached member frames called).trans
    (Reaches.trans work (return_reached member frames small above stands)), ?_, ?_,
    Core.pops_memory⟩
  · refine ⟨fun register kept => ?_, fun address kept => ?_, ?_⟩
    · by_cases stack : register = .gr8
      · subst stack
        rw [Core.set_register, if_pos rfl, back]
      · rw [Core.set_register, if_neg stack]
        by_cases restored : register ∈ saved
        · exact Core.pops_restored (by simpa using frames.free) stands register (by simpa)
        · have unclobbered : register ∉ clobbered := by simpa [restored] using kept
          rw [Core.pops_other (by simpa using restored) stack,
            keeps.register register unclobbered, Core.entered_register stack]
    · rw [not_or] at kept
      rw [Core.set_memory, Core.pops_memory, keeps.memory address kept.2,
        entered.memory address kept.1]
    · rw [Core.set_channel, Core.pops_channel, keeps.channel, entered.channel]
  · intro register apart free
    rw [Core.set_register, if_neg free, Core.pops_other (by simpa using apart) free]

theorem quiet_call_returns {clobbered : List Register}
    (member : segment ∈ segments) (frames : segment.Frames entry saved leave)
    (called : host.CallsAt pc segment entry)
    (room : host.Room (core.register .gr8) (saved.length + 1))
    (work : host.Runs segment (entry + saved.length) (core.entered (pc + 1) saved) leave finished)
    (keeps : (core.entered (pc + 1) saved).Keeps clobbered nowhere finished)
    (pointer : .gr8 ∉ clobbered) :
    ∃ after, Reaches host.code ⟨pc, core⟩ ⟨pc + 1, after⟩ ∧
      core.Keeps (clobbered.filter (· ∉ saved))
        (Stacked (core.register .gr8) (saved.length + 1)) after ∧
      ∀ register ∉ saved, register ≠ .gr8 →
        after.register register = finished.register register := by
  obtain ⟨after, run, kept, result, -⟩ :=
    call_returns member frames called room work keeps pointer fun _ _ => id
  refine ⟨after, run, kept.mono (fun _ => id) fun address changed => ?_, result⟩
  exact changed.resolve_right id

theorem Ready.entered {host : Host library} {core : Core Terminal} (ready : host.Ready core)
    (back : Nat) (saved : List Register) (room : host.Room (core.register .gr8) (saved.length + 1)) :
    host.Ready (core.entered back saved) :=
  ready.congr fun _ member =>
    (core.entered_keeps back saved).memory _
      (room.apart _ (host.cell_placed (constant_listed member)))

theorem calls_at {number : Nat} (member : segment ∈ segments)
    (listed : segment.Lists number [.call ⟨.code entry, none⟩]) :
    host.CallsAt (host.placement.code segment.name + number) segment entry :=
  host.fetched member listed

theorem Calls.at_first (called : host.Calls pc segment.name) (member : segment ∈ segments)
    (first : segment.first = .code 0) : host.CallsAt pc segment 0 := by
  rw [Calls, host.named segment member, first] at called
  exact called

end

end Host

end PascalCasl.Comet
