import Mathlib.Tactic.IntervalCases
import Mathlib.Tactic.Positivity
import PascalCasl.Proofs.Comet.Routine
import PascalCasl.Proofs.Text.Decimal

/-!
Writing of integers. Powers of ten are subtracted as often as they go, and zeros
are not written before the first other digit.
-/

namespace PascalCasl.Comet

open Casl (Register)

/-- Whether the digit at the place of `10 ^ left` is written. A zero is left out until
`started`, except for the last place. -/
def isWritten (left : Nat) (started : Bool) (number : Nat) : Bool :=
  started || left == 0 || number / 10 ^ left != 0

def digitAt (left : Nat) (started : Bool) (number : Nat) : List Char :=
  if isWritten left started number then [Nat.digitChar (number / 10 ^ left)] else []

/-- The digits of a number from the place of `10 ^ left` on. -/
def places : Nat → Bool → Nat → List Char
  | 0, started, number => digitAt 0 started number
  | left + 1, started, number => digitAt (left + 1) started number ++
      places left (isWritten (left + 1) started number) (number % 10 ^ (left + 1))

@[simp] theorem units_written (started : Bool) (number : Nat) :
    isWritten 0 started number = true := by
  simp [isWritten]

@[simp] theorem started_written (left number : Nat) : isWritten left true number = true := by
  simp [isWritten]

@[simp] theorem places_units (started : Bool) (number : Nat) :
    places 0 started number = [Nat.digitChar number] := by
  simp [places, digitAt]

theorem places_started (left number : Nat) : places (left + 1) true number =
    Nat.digitChar (number / 10 ^ (left + 1)) :: places left true (number % 10 ^ (left + 1)) := by
  simp [places, digitAt]

theorem places_last (left number : Nat) : places (left + 1) true number =
    places left true (number / 10) ++ [Nat.digitChar (number % 10)] := by
  induction left generalizing number with
  | zero => simp [places_started]
  | succ left ih =>
      have first : number / 10 / 10 ^ (left + 1) = number / 10 ^ (left + 1 + 1) := by
        rw [Nat.div_div_eq_div_mul, Nat.pow_succ' (n := left + 1)]
      have middle : number % 10 ^ (left + 1 + 1) / 10 = number / 10 % 10 ^ (left + 1) := by
        rw [Nat.pow_succ' (n := left + 1), Nat.mod_mul_right_div_self]
      have last : number % 10 ^ (left + 1 + 1) % 10 = number % 10 :=
        Nat.mod_mod_of_dvd _ (Dvd.intro_left _ (Nat.pow_succ ..).symm)
      rw [places_started, ih, middle, last, places_started, first]
      rfl

theorem digits_places {digit rest left : Nat} (nonzero : 0 < digit) (less : digit < 10)
    (small : rest < 10 ^ (left + 1)) :
    Nat.toDigits 10 (digit * 10 ^ (left + 1) + rest) =
      Nat.digitChar digit :: places left true rest := by
  induction left generalizing rest with
  | zero =>
      rw [Nat.pow_one] at small ⊢
      have shorter : (digit * 10 + rest) / 10 = digit := by omega
      have last : (digit * 10 + rest) % 10 = rest := by omega
      rw [Nat.toDigits_eq_if (by omega), if_neg (by omega), shorter, last,
        Nat.toDigits_of_lt_base (by omega), places_units]
      rfl
  | succ left ih =>
      have front : digit * 10 ^ (left + 1 + 1) = 10 * (digit * 10 ^ (left + 1)) := by ring
      have some : 0 < digit * 10 ^ (left + 1) := Nat.mul_pos nonzero (by positivity)
      have shorter : (10 * (digit * 10 ^ (left + 1)) + rest) / 10 =
          digit * 10 ^ (left + 1) + rest / 10 := by omega
      have last : (10 * (digit * 10 ^ (left + 1)) + rest) % 10 = rest % 10 := by omega
      rw [Nat.pow_succ] at small
      rw [front, Nat.toDigits_eq_if (by omega), if_neg (by omega), shorter, last, ih (by omega),
        places_last]
      rfl

theorem places_decimal {number left : Nat} (small : number < 10 ^ (left + 1)) :
    places left false number = Nat.toDigits 10 number := by
  induction left generalizing number with
  | zero => rw [places_units, Nat.toDigits_of_lt_base (by simpa using small)]
  | succ left ih =>
      have positive : 0 < 10 ^ (left + 1) := by positivity
      have rest := Nat.mod_lt number positive
      by_cases zero : number / 10 ^ (left + 1) = 0
      · have unwritten : isWritten (left + 1) false number = false := by simp [isWritten, zero]
        rw [places, digitAt, unwritten, ih rest,
          Nat.mod_eq_of_lt ((Nat.div_eq_zero_iff_lt positive).mp zero)]
        rfl
      · have written : isWritten (left + 1) false number = true := by simp [isWritten, zero]
        have less : number / 10 ^ (left + 1) < 10 := by
          rw [Nat.div_lt_iff_lt_mul positive]
          rwa [Nat.pow_succ'] at small
        rw [places, digitAt, if_pos written, written, List.singleton_append,
          ← digits_places (Nat.pos_of_ne_zero zero) less rest, Nat.div_add_mod']

def decimal (word : Word) : List Char := word.toInt.repr.toList

def signText (word : Word) : List Char := if word.msb then ['-'] else []

theorem negative_repr {magnitude : Nat} (positive : 0 < magnitude) :
    (-(magnitude : Int)).repr.toList = '-' :: magnitude.repr.toList := by
  obtain ⟨less, rfl⟩ := Nat.exists_eq_add_of_lt positive
  rw [Nat.zero_add]
  change (Int.negSucc less).repr.toList = _
  simp [Int.repr]

theorem decimal_places (word : Word) :
    decimal word = signText word ++ places 4 false word.abs.toNat := by
  have small := magnitude_small word
  rw [places_decimal (by omega), ← Text.repr_eq, decimal, signText, BitVec.abs_eq]
  cases sign : word.msb with
  | false =>
      rw [BitVec.toInt_eq_toNat_of_msb sign]
      simp [Int.repr]
  | true =>
      have value : word.toInt = -((-word).toNat : Int) := by
        rw [BitVec.toInt_eq_msb_cond, if_pos sign]
        rw [BitVec.msb_eq_decide, decide_eq_true_eq] at sign
        bv_omega
      have positive : 0 < (-word).toNat := by
        rw [BitVec.msb_eq_decide, decide_eq_true_eq] at sign
        bv_omega
      rw [value, negative_repr positive]
      simp

theorem places_length (left : Nat) (started : Bool) (number : Nat) :
    (places left started number).length ≤ left + 1 := by
  have one (left : Nat) (started : Bool) (number : Nat) :
      (digitAt left started number).length ≤ 1 := by
    rw [digitAt]
    split <;> simp
  induction left generalizing started number with
  | zero => exact one 0 started number
  | succ left ih =>
      rw [places, List.length_append]
      have := one (left + 1) started number
      have := ih (isWritten (left + 1) started number) (number % 10 ^ (left + 1))
      omega

theorem decimal_length (word : Word) : (decimal word).length ≤ 6 := by
  have digits := places_length 4 false word.abs.toNat
  have sign : (signText word).length ≤ 1 := by
    rw [signText]
    split <;> simp
  rw [decimal_places, List.length_append]
  omega

/-- Where the next character of the output goes. -/
def Core.cursor (core : Core Terminal) : Word := core.register .gr7 + core.register .gr6

/-- The words stand behind what was written before. The registers that the routine
saves may have changed, and so may two words of the stack. -/
structure Core.Appended (before : Core Terminal) (words : List Word) (after : Core Terminal) :
    Prop where
  keeps : before.Keeps [.gr1, .gr2, .gr3, .gr4, .gr5, .gr6]
    (fun address => Stacked (before.register .gr8) 2 address ∨
      Within before.cursor words.length address) after
  moved : after.register .gr6 = before.register .gr6 + BitVec.ofNat 16 words.length
  stored : WordsAt after.memory before.cursor words

/-- There is room for `count` more words of output. -/
structure Host.Writable (host : Host library) (core : Core Terminal) (count : Nat) : Prop where
  ready : host.Ready core
  room : host.Room (core.register .gr8) 2
  outside : ∀ address ∈ host.cells, ¬Within core.cursor count address
  apart : ∀ address, Within core.cursor count address → ¬Stacked (core.register .gr8) 2 address
  short : count ≤ 65536

namespace Core.Appended

variable {first second third : Core Terminal} {words others : List Word}

theorem pointer (appended : first.Appended words second) :
    second.register .gr8 = first.register .gr8 :=
  appended.keeps.register .gr8 (by decide)

theorem cursor (appended : first.Appended words second) :
    second.cursor = first.cursor + BitVec.ofNat 16 words.length := by
  rw [Core.cursor, appended.moved, appended.keeps.register .gr7 (by decide), Core.cursor,
    BitVec.add_assoc]

section

variable {registers : List Register} (scratch : registers ⊆ [.gr1, .gr2, .gr3, .gr4, .gr5])

include scratch

theorem quiet (keeps : first.Keeps registers nowhere second) : first.Appended [] second where
  keeps := keeps.mono (List.Subset.trans scratch (by simp)) fun _ => False.elim
  moved := by
    rw [keeps.register .gr6 fun member => by simpa using scratch member]
    simp
  stored := trivial

theorem then_quiet (appended : first.Appended words second)
    (keeps : second.Keeps registers nowhere third) : first.Appended words third where
  keeps := appended.keeps.trans
    (keeps.mono (List.Subset.trans scratch (by simp)) fun _ => False.elim)
  moved := by rw [(quiet scratch keeps).moved, appended.moved]; simp
  stored := by rw [keeps.memory_same]; exact appended.stored

theorem after_quiet (keeps : first.Keeps registers nowhere second)
    (appended : second.Appended words third) : first.Appended words third := by
  have cursor : second.cursor = first.cursor := by simpa using (quiet scratch keeps).cursor
  have later := appended.keeps
  have stored := appended.stored
  rw [(quiet scratch keeps).pointer, cursor] at later
  rw [cursor] at stored
  refine ⟨(keeps.mono (List.Subset.trans scratch (by simp)) fun _ => False.elim).trans later, ?_,
    stored⟩
  rw [appended.moved, (quiet scratch keeps).moved]
  simp

end

theorem writable {host : Host library} {count : Nat} (appended : first.Appended words second)
    (writable : host.Writable first (words.length + count)) : host.Writable second count := by
  have within (address : Word) (inside : Within second.cursor count address) :
      Within first.cursor (words.length + count) address := by
    obtain ⟨number, less, rfl⟩ := inside
    refine ⟨words.length + number, by omega, ?_⟩
    rw [appended.cursor, BitVec.ofNat_add, BitVec.add_assoc]
  have short := writable.short
  refine ⟨?_, ?_, ?_, ?_, by omega⟩
  · refine writable.ready.congr fun constant member => appended.keeps.memory _ ?_
    have cell := host.cell_placed (Host.constant_listed member)
    rintro (stacked | inside)
    · exact writable.room.apart _ cell stacked
    · obtain ⟨number, less, same⟩ := inside
      exact writable.outside _ cell ⟨number, by omega, same⟩
  · rw [appended.pointer]
    exact writable.room
  · exact fun address cell inside => writable.outside address cell (within address inside)
  · intro address inside
    rw [appended.pointer]
    exact writable.apart address (within address inside)

theorem trans {host : Host library} {count : Nat} (one : first.Appended words second)
    (two : second.Appended others third) (writable : host.Writable first count)
    (enough : words.length + others.length ≤ count) :
    first.Appended (words ++ others) third where
  keeps := by
    have later := two.keeps
    rw [one.pointer, one.cursor] at later
    refine (one.keeps.mono (fun _ => id) fun address => ?_).trans
      (later.mono (fun _ => id) fun address => ?_)
    · rintro (stacked | ⟨number, less, rfl⟩)
      · exact .inl stacked
      · exact .inr ⟨number, by rw [List.length_append]; omega, rfl⟩
    · rintro (stacked | ⟨number, less, rfl⟩)
      · exact .inl stacked
      · refine .inr ⟨words.length + number, by rw [List.length_append]; omega, ?_⟩
        rw [BitVec.ofNat_add, BitVec.add_assoc]
  moved := by
    rw [two.moved, one.moved, List.length_append, BitVec.ofNat_add, BitVec.add_assoc]
  stored := by
    refine WordsAt.append (one.stored.congr fun number less => ?_) ?_
    · refine two.keeps.memory _ ?_
      rw [one.pointer, one.cursor]
      -- the second text starts where the first ends, and the two are too short to wrap around
      have short := writable.short
      rintro (stacked | ⟨other, lessToo, same⟩)
      · exact writable.apart _ ⟨number, by omega, rfl⟩ stacked
      · bv_omega
    · rw [← one.cursor]
      exact two.stored

end Core.Appended

theorem Host.Writable.keeps {host : Host library} {core after : Core Terminal} {count : Nat}
    {registers : List Register} (writable : host.Writable core count)
    (keeps : core.Keeps registers nowhere after)
    (scratch : registers ⊆ [.gr1, .gr2, .gr3, .gr4, .gr5]) : host.Writable after count :=
  (Core.Appended.quiet scratch keeps).writable (by simpa using writable)

theorem write_integer_member : writeIntegerSegment ∈ library := by simp [library]

theorem write_integer_frames :
    writeIntegerSegment.Frames 0 [.gr1, .gr2, .gr3, .gr4, .gr5] 33 :=
  ⟨⟨_, rfl⟩, ⟨_, rfl⟩, by simp, by simp⟩

theorem put_frames : writeIntegerSegment.Frames 39 [.gr2] 44 :=
  ⟨⟨_, rfl⟩, ⟨_, rfl⟩, by simp, by simp⟩

namespace Host

variable {host : Host library} {core : Core Terminal}

theorem put_work (host : Host library) (core : Core Terminal) :
    ∃ after, host.Runs writeIntegerSegment 40 core 44 after ∧
      core.Keeps [.gr2, .gr6] (fun address => address = core.cursor) after ∧
      after.register .gr6 = core.register .gr6 + 1#16 ∧
      after.memory core.cursor = core.register .gr1 := by
  obtain ⟨located, locate, keeps, performed⟩ := host.quiet_run write_integer_member 40
    [move .gr2 .gr7, combine (.ordinary .add) .gr2 .gr6] [.gr2] ⟨_, rfl⟩ rfl core
  have address : 0#16 + located.register .gr2 = core.cursor := by
    simp [← performed, Core.cursor]
  obtain ⟨stored, store, keepsStore, word⟩ := host.store_run write_integer_member 42 .gr1
    ⟨.constant 0, some .gr2⟩ ⟨_, rfl⟩ located address
  obtain ⟨after, increase, keepsIncrease, performedToo⟩ := host.quiet_run write_integer_member 43
    [increase .gr6] [.gr6] ⟨_, rfl⟩ rfl stored
  refine ⟨after, (locate.trans store).trans increase, ?_, ?_, ?_⟩
  · exact ((keeps.mono (by simp) fun _ => False.elim).trans (keepsStore.more (by simp))).trans
      (keepsIncrease.mono (by simp) fun _ => False.elim)
  · simp [← performedToo, keepsStore.register _, keeps.register .gr6, BitVec.add_comm]
  · rw [keepsIncrease.memory_same, word, keeps.register .gr1 (by decide)]

theorem put_run (number : Nat) {count : Nat}
    (listed : writeIntegerSegment.Lists number [.call ⟨.code 39, none⟩])
    (writable : host.Writable core (1 + count)) :
    ∃ after, host.Runs writeIntegerSegment number core (number + 1) after ∧
      core.Appended [core.register .gr1] after ∧
      ∀ register ≠ .gr6, after.register register = core.register register := by
  have called : host.CallsAt _ writeIntegerSegment 39 := calls_at write_integer_member listed
  have kept {register : Register} (free : register ≠ .gr8) {back : Nat} :
      (core.entered back [.gr2]).register register = core.register register :=
    Core.entered_register free
  have same {back : Nat} : (core.entered back [.gr2]).cursor = core.cursor := by
    rw [Core.cursor, kept (by decide), kept (by decide), Core.cursor]
  have here : Within core.cursor (1 + count) core.cursor := ⟨0, by omega, by simp⟩
  obtain ⟨finished, work, keeps, moved, stored⟩ := put_work host (core.entered _ [.gr2])
  rw [kept (by decide)] at moved stored
  rw [same] at keeps stored
  obtain ⟨after, run, keepsAfter, registers, memory⟩ := call_returns write_integer_member put_frames
    called writable.room work keeps (by decide) fun address stacked at_cursor =>
      writable.apart _ here (at_cursor ▸ stacked)
  refine ⟨after, run, ⟨keepsAfter.mono ?_ ?_, ?_, ?_⟩, fun register other => ?_⟩
  · simp
  · rintro address (stacked | rfl)
    · exact .inl stacked
    · exact .inr ⟨0, by simp, by simp⟩
  · rw [registers .gr6 (by decide) (by decide), moved]
    rfl
  · exact ⟨by rw [memory, stored], trivial⟩
  · exact keepsAfter.register register (by simpa using other)

theorem write_subtracts (host : Host library) (core : Core Terminal)
    (positive : 0 < (core.register .gr4).toNat) :
    ∃ after, host.Runs writeIntegerSegment 16 core 21 after ∧
      core.Keeps [.gr1, .gr2] nowhere after ∧
      after.register .gr1 = core.register .gr1 +
        BitVec.ofNat 16 ((core.register .gr2).toNat / (core.register .gr4).toNat) ∧
      (after.register .gr2).toNat =
        (core.register .gr2).toNat % (core.register .gr4).toNat := by
  obtain ⟨compared, test, keeps, performed⟩ := host.quiet_run write_integer_member 16
    [.compareUnsigned .gr2 (.register .gr4)] [.gr1, .gr2] ⟨_, rfl⟩ rfl core
  have same : compared.register = core.register := by rw [← performed]; rfl
  have sign : compared.negative =
      decide ((core.register .gr2).toNat < (core.register .gr4).toNat) := by
    rw [← performed]
    change decide (compare (core.register .gr2).toNat (core.register .gr4).toNat = _) = _
    rw [decide_eq_decide, Nat.compare_eq_lt]
  by_cases less : (core.register .gr2).toNat < (core.register .gr4).toNat
  · have leave := host.jump_run write_integer_member 17 (.on .minus) 21 ⟨_, rfl⟩ compared (by decide)
      (by simp [Core.holds, sign, less])
    refine ⟨compared, test.trans leave, keeps, ?_, ?_⟩
    · simp [same, Nat.div_eq_of_lt less]
    · rw [same, Nat.mod_eq_of_lt less]
  · have stay := host.pass_run write_integer_member 17 (.on .minus) 21 ⟨_, rfl⟩ compared
      (by simpa [Core.holds, sign] using less)
    obtain ⟨reduced, reduce, keepsToo, performedToo⟩ := host.quiet_run write_integer_member 18
      [combine .subtractUnsigned .gr2 .gr4, increase .gr1] [.gr1, .gr2] ⟨_, rfl⟩ rfl compared
    have back := host.jump_run write_integer_member 20 (.on .always) 16 ⟨_, rfl⟩ reduced (by decide) rfl
    have power : reduced.register .gr4 = core.register .gr4 := by
      rw [keepsToo.register .gr4 (by decide), same]
    have smaller : (reduced.register .gr2).toNat =
        (core.register .gr2).toNat - (core.register .gr4).toNat := by
      have less : reduced.register .gr2 = core.register .gr2 - core.register .gr4 := by
        simp [← performedToo, same]
      rw [less]
      bv_omega
    have counted : reduced.register .gr1 = core.register .gr1 + 1#16 := by
      simp [← performedToo, same, BitVec.add_comm]
    -- the passes that follow start with a smaller GR2
    obtain ⟨after, run, keepsRest, quotient, remainder⟩ :=
      write_subtracts host reduced (by rw [power]; exact positive)
    refine ⟨after, (((test.trans stay).trans reduce).trans back).trans run,
      (keeps.trans keepsToo).trans keepsRest, ?_, ?_⟩
    · have once := Nat.div_eq_sub_div positive (Nat.le_of_not_lt less)
      rw [quotient, counted, smaller, power, once, BitVec.ofNat_add, BitVec.add_assoc,
        BitVec.add_comm 1#16]
    · rw [remainder, smaller, power, ← Nat.mod_eq_sub_mod (by omega)]
termination_by (core.register .gr2).toNat

theorem write_chooses (ready : host.Ready core) :
    ∃ after, host.Runs writeIntegerSegment 21 core
        (if core.register .gr1 ≠ 0#16 ∨ core.register .gr5 ≠ 0#16 ∨ core.register .gr3 = 4#16
          then 27 else 30) after ∧
      core.Keeps [] nowhere after := by
  obtain ⟨first, test, keeps, zero, -⟩ :=
    host.test_run write_integer_member 21 .gr1 ⟨_, rfl⟩ core
  -- a zero is skipped only before the first digit and not in the last place
  by_cases digit : core.register .gr1 = 0#16
  · have pass := host.pass_run write_integer_member 22 (.on .nonzero) 27 ⟨_, rfl⟩ first
      (by simp [Core.holds, zero, digit])
    obtain ⟨second, testToo, keepsToo, zeroToo, -⟩ :=
      host.test_run write_integer_member 23 .gr5 ⟨_, rfl⟩ first
    rw [keeps.register .gr5 (by simp)] at zeroToo
    by_cases started : core.register .gr5 = 0#16
    · have passToo := host.pass_run write_integer_member 24 (.on .nonzero) 27 ⟨_, rfl⟩ second
        (by simp [Core.holds, zeroToo, started])
      have four : second.memory (host.placement.literal 4#16) = 4#16 :=
        ((ready.keeps keeps).keeps keepsToo).literal (by simp [library_literals])
      obtain ⟨third, compared, keepsRest, last, -⟩ := host.compare_run write_integer_member 25 .gr3
        (.memory ⟨.literal 4, none⟩) ⟨_, rfl⟩ second four
      rw [keepsToo.register .gr3 (by simp), keeps.register .gr3 (by simp)] at last
      refine ⟨third, ?_, (keeps.trans keepsToo).trans keepsRest⟩
      have run := (((test.trans pass).trans testToo).trans passToo).trans compared
      by_cases units : core.register .gr3 = 4#16
      · rw [if_pos (.inr (.inr units))]
        exact run.trans (host.pass_run write_integer_member 26 (.on .nonzero) 30 ⟨_, rfl⟩ third
          (by simp [Core.holds, last, units]))
      · rw [if_neg (by simp [digit, started, units])]
        exact run.trans (host.jump_run write_integer_member 26 (.on .nonzero) 30 ⟨_, rfl⟩ third
          (by decide) (by simp [Core.holds, last, units]))
    · rw [if_pos (.inr (.inl started))]
      exact ⟨second, ((test.trans pass).trans testToo).trans
        (host.jump_run write_integer_member 24 (.on .nonzero) 27 ⟨_, rfl⟩ second (by decide)
          (by simp [Core.holds, zeroToo, started])), keeps.trans keepsToo⟩
  · rw [if_pos (.inl digit)]
    exact ⟨first, test.trans (host.jump_run write_integer_member 22 (.on .nonzero) 27 ⟨_, rfl⟩ first
      (by decide) (by simp [Core.holds, zero, digit])), keeps⟩

theorem digit_word {digit : Nat} (less : digit < 10) :
    BitVec.ofNat 16 digit + 0x30#16 = charWord (Nat.digitChar digit) := by
  interval_cases digit <;> rfl

theorem write_emits {digit count : Nat} (writable : host.Writable core (1 + count))
    (less : digit < 10) (value : core.register .gr1 = BitVec.ofNat 16 digit) :
    ∃ after, host.Runs writeIntegerSegment 27 core 30 after ∧
      core.Appended [charWord (Nat.digitChar digit)] after ∧
      after.register .gr2 = core.register .gr2 ∧ after.register .gr3 = core.register .gr3 ∧
      after.register .gr5 = 1#16 := by
  have code : core.memory (host.placement.literal 0x30#16) = 0x30#16 :=
    writable.ready.literal (by simp [library_literals])
  obtain ⟨coded, encode, keeps, performed⟩ := host.quiet_run write_integer_member 27
    [adjust .add .gr1 0x30] [.gr1] ⟨_, rfl⟩ rfl core
  have word : coded.register .gr1 = charWord (Nat.digitChar digit) := by
    simp [← performed, code, value, digit_word less]
  obtain ⟨printed, print, appended, same⟩ := put_run 28 ⟨_, rfl⟩
    (writable.keeps keeps (by simp))
  rw [word] at appended
  obtain ⟨after, mark, keepsMark, performedMark⟩ := host.quiet_run write_integer_member 29
    [put .gr5 1] [.gr5] ⟨_, rfl⟩ rfl printed
  refine ⟨after, (encode.trans print).trans mark, ?_, ?_, ?_, ?_⟩
  · exact (appended.after_quiet (by simp) keeps).then_quiet (by simp) keepsMark
  · rw [keepsMark.register .gr2 (by decide), same .gr2 (by decide),
      keeps.register .gr2 (by decide)]
  · rw [keepsMark.register .gr3 (by decide), same .gr3 (by decide),
      keeps.register .gr3 (by decide)]
  · simp [← performedMark]

theorem written_iff {left number : Nat} {started : Bool} (few : left ≤ 4)
    (less : number / 10 ^ left < 10) :
    (BitVec.ofNat 16 (number / 10 ^ left) ≠ 0#16 ∨ (if started then 1#16 else 0#16) ≠ 0#16 ∨
      BitVec.ofNat 16 (4 - left) = 4#16) ↔ isWritten left started number = true := by
  have digit : BitVec.ofNat 16 (number / 10 ^ left) = 0#16 ↔ number / 10 ^ left = 0 := by
    generalize number / 10 ^ left = quotient at less
    bv_omega
  have units : BitVec.ofNat 16 (4 - left) = 4#16 ↔ left = 0 := by bv_omega
  rw [Ne, digit, units]
  cases started <;> simp [isWritten, or_comm]

theorem power_loaded (ready : host.Ready core) {left : Nat} (few : left ≤ 4) :
    core.memory (host.placement.cell (.datum writeIntegerSegment.name (4 - left))) =
      BitVec.ofNat 16 (10 ^ left) :=
  ready.datum (by interval_cases left <;> rfl)

section

variable {left number count : Nat} {started : Bool} (few : left ≤ 4)
  (index : core.register .gr3 = BitVec.ofNat 16 (4 - left))
  (value : (core.register .gr2).toNat = number)

include few index value

theorem write_divides (ready : host.Ready core) :
    ∃ after, host.Runs writeIntegerSegment 14 core 21 after ∧
      core.Keeps [.gr1, .gr2, .gr4] nowhere after ∧
      after.register .gr1 = BitVec.ofNat 16 (number / 10 ^ left) ∧
      (after.register .gr2).toNat = number % 10 ^ left := by
  obtain ⟨loaded, load, keepsLoad, performed⟩ := host.quiet_run write_integer_member 14
    [.load .gr4 (.memory ⟨.data 0, some .gr3⟩), put .gr1 0] [.gr1, .gr4] ⟨_, rfl⟩ rfl core
  have power : (loaded.register .gr4).toNat = 10 ^ left := by
    have held : loaded.register .gr4 = core.memory
        (host.placement.cell (.datum writeIntegerSegment.name 0) + core.register .gr3) := by
      rw [← performed]
      rfl
    have cell : host.placement.cell (.datum writeIntegerSegment.name 0) + core.register .gr3 =
        host.placement.cell (.datum writeIntegerSegment.name (4 - left)) := by
      rw [index]
      change _ + 0#16 + _ = _
      rw [BitVec.add_zero]
      rfl
    rw [held, cell, power_loaded ready few]
    interval_cases left <;> rfl
  have cleared : loaded.register .gr1 = 0#16 := by simp [← performed]
  obtain ⟨divided, subtract, keepsDivide, quotient, remainder⟩ :=
    write_subtracts host loaded (by rw [power]; positivity)
  rw [cleared, power, keepsLoad.register .gr2 (by decide), value, BitVec.zero_add] at quotient
  rw [power, keepsLoad.register .gr2 (by decide), value] at remainder
  exact ⟨divided, load.trans subtract,
    (keepsLoad.more (by simp)).trans (keepsDivide.more (by simp)), quotient, remainder⟩

variable (small : number < 10 ^ (left + 1))
  (mark : core.register .gr5 = if started then 1#16 else 0#16)

include small mark

theorem write_place
    (writable : host.Writable core ((digitAt left started number).length + count)) :
    ∃ after, host.Runs writeIntegerSegment 14 core 30 after ∧
      core.Appended ((digitAt left started number).map charWord) after ∧
      after.register .gr3 = core.register .gr3 ∧
      (after.register .gr2).toNat = number % 10 ^ left ∧
      after.register .gr5 = if isWritten left started number then 1#16 else 0#16 := by
  obtain ⟨divided, divide, keeps, digit, rest⟩ := write_divides few index value writable.ready
  obtain ⟨chosen, choose, keepsChoose⟩ := write_chooses (writable.ready.keeps keeps)
  have less : number / 10 ^ left < 10 := by
    rw [Nat.div_lt_iff_lt_mul (by positivity)]
    rwa [Nat.pow_succ'] at small
  -- the three tests of the code are the one of `isWritten`
  have written : (divided.register .gr1 ≠ 0#16 ∨ divided.register .gr5 ≠ 0#16 ∨
      divided.register .gr3 = 4#16) ↔ isWritten left started number = true := by
    rw [digit, keeps.register .gr5 (by decide), mark, keeps.register .gr3 (by decide), index]
    exact written_iff few less
  have keepsAll := keeps.trans (keepsChoose.more (by simp))
  by_cases shown : isWritten left started number = true
  · rw [if_pos (written.mpr shown)] at choose
    rw [digitAt, if_pos shown] at writable ⊢
    obtain ⟨after, emit, appended, value, index, marked⟩ :=
      write_emits (writable.keeps keepsAll (by simp)) less
        ((keepsChoose.register .gr1 (by simp)).trans digit)
    refine ⟨after, (divide.trans choose).trans emit, ?_, ?_, ?_, ?_⟩
    · exact appended.after_quiet (by simp) keepsAll
    · rw [index, keepsAll.register .gr3 (by decide)]
    · rw [value, keepsChoose.register .gr2 (by simp), rest]
    · rw [marked, if_pos shown]
  · rw [if_neg (written.not.mpr shown)] at choose
    refine ⟨chosen, divide.trans choose, ?_, ?_, ?_, ?_⟩
    · rw [digitAt, if_neg shown]
      exact .quiet (by simp) keepsAll
    · exact keepsAll.register .gr3 (by decide)
    · rw [keepsChoose.register .gr2 (by simp), rest]
    · rw [keepsAll.register .gr5 (by decide), mark, if_neg shown, if_neg]
      rintro rfl
      exact shown (started_written left number)

end

theorem write_next (ready : host.Ready core) :
    ∃ after, host.Runs writeIntegerSegment 30 core 32 after ∧
      core.Keeps [.gr3] nowhere after ∧
      after.register .gr3 = core.register .gr3 + 1#16 ∧
      after.zero = decide (core.register .gr3 + 1#16 = 5#16) := by
  obtain ⟨moved, move, keeps, performed⟩ := host.quiet_run write_integer_member 30
    [increase .gr3] [.gr3] ⟨_, rfl⟩ rfl core
  have five : moved.memory (host.placement.literal 5#16) = 5#16 :=
    (ready.keeps keeps).literal (by simp [library_literals])
  have next : moved.register .gr3 = core.register .gr3 + 1#16 := by
    simp [← performed, BitVec.add_comm]
  obtain ⟨after, test, keepsToo, zero, -⟩ := host.compare_run write_integer_member 31 .gr3
    (.memory ⟨.literal 5, none⟩) ⟨_, rfl⟩ moved five
  refine ⟨after, move.trans test, keeps.trans (keepsToo.more (by simp)), ?_, by rw [zero, next]⟩
  rw [keepsToo.register .gr3 (by simp), next]

theorem write_places {left number count : Nat} {started : Bool} (core : Core Terminal)
    (few : left ≤ 4)
    (index : core.register .gr3 = BitVec.ofNat 16 (4 - left))
    (value : (core.register .gr2).toNat = number) (small : number < 10 ^ (left + 1))
    (mark : core.register .gr5 = if started then 1#16 else 0#16)
    (writable : host.Writable core ((places left started number).length + count)) :
    ∃ after, host.Runs writeIntegerSegment 14 core 33 after ∧
      core.Appended ((places left started number).map charWord) after := by
  induction left generalizing core number started with
  | zero =>
      obtain ⟨placed, write, appended, same, -, -⟩ := write_place few index value small mark writable
      have writablePlaced : host.Writable placed count :=
        appended.writable (by rwa [List.length_map])
      obtain ⟨moved, move, keeps, -, zero⟩ := write_next writablePlaced.ready
      have leave := host.pass_run write_integer_member 32 (.on .nonzero) 14 ⟨_, rfl⟩ moved
        (by simp [Core.holds, zero, same, index])
      exact ⟨moved, (write.trans move).trans leave, appended.then_quiet (by simp) keeps⟩
  | succ left ih =>
      rw [places, List.length_append, Nat.add_assoc] at writable
      obtain ⟨placed, write, appended, same, rest, marked⟩ :=
        write_place few index value small mark writable
      have writablePlaced := appended.writable (by rwa [List.length_map])
      obtain ⟨moved, move, keeps, next, zero⟩ := write_next writablePlaced.ready
      -- GR3 counts the places from the left, `left` from the right
      have nextIndex : placed.register .gr3 + 1#16 = BitVec.ofNat 16 (4 - left) := by
        rw [same, index]
        bv_omega
      rw [nextIndex] at next zero
      have again := host.jump_run write_integer_member 32 (.on .nonzero) 14 ⟨_, rfl⟩ moved (by decide)
        (by simp [Core.holds, zero]; bv_omega)
      obtain ⟨after, run, appendedToo⟩ := ih moved (by omega) next
        (by rw [keeps.register .gr2 (by decide), rest]) (Nat.mod_lt _ (by positivity))
        ((keeps.register .gr5 (by decide)).trans marked) (writablePlaced.keeps keeps (by simp))
      refine ⟨after, ((write.trans move).trans again).trans run, ?_⟩
      rw [places, List.map_append]
      refine (appended.then_quiet (by simp) keeps).trans appendedToo writable ?_
      rw [List.length_map, List.length_map]
      omega

theorem write_sign {count : Nat}
    (writable : host.Writable core ((signText (core.register .gr2)).length + count)) :
    ∃ after, host.Runs writeIntegerSegment 5 core 12 after ∧
      core.Appended ((signText (core.register .gr2)).map charWord) after ∧
      after.register .gr2 = (core.register .gr2).abs := by
  obtain ⟨tested, test, keeps, flagged⟩ :=
    host.test_run write_integer_member 5 .gr2 ⟨_, rfl⟩ core
  have same := keeps.register .gr2 (by simp)
  cases sign : (core.register .gr2).msb with
  | false =>
      have skip := host.nonnegative_run write_integer_member 6 12 ⟨_, rfl⟩ tested flagged
        (by decide) sign
      refine ⟨tested, test.trans skip, ?_, ?_⟩
      · rw [signText, sign]
        exact .quiet (by simp) keeps
      · rw [same, BitVec.abs_eq, sign]
        rfl
  | true =>
      rw [signText, if_pos sign] at writable ⊢
      have pass := host.negative_run write_integer_member 6 12 ⟨_, rfl⟩ tested flagged sign
      have minus : tested.memory (host.placement.literal 0x2D#16) = 0x2D#16 :=
        (writable.ready.keeps keeps).literal (by simp [library_literals])
      obtain ⟨loaded, load, keepsLoad, performed⟩ := host.quiet_run write_integer_member 8
        [.load .gr1 (.memory ⟨.literal 0x2D, none⟩)] [.gr1] ⟨_, rfl⟩ rfl tested
      have word : loaded.register .gr1 = charWord '-' := by
        rw [← performed]
        exact minus
      have keepsLoaded := (keeps.more (by simp)).trans keepsLoad
      have writableLoaded := writable.keeps keepsLoaded (by simp)
      obtain ⟨printed, print, appended, kept⟩ := put_run 9 ⟨_, rfl⟩ writableLoaded
      rw [word] at appended
      -- the least word is its own negation, and its magnitude is read as unsigned
      obtain ⟨after, negation, keepsNegate, magnitude⟩ := negate_run write_integer_member 10 .gr2
        ⟨_, rfl⟩ (appended.writable writableLoaded).ready
      refine ⟨after, (((test.trans pass).trans load).trans print).trans negation, ?_, ?_⟩
      · exact (appended.after_quiet (by simp) keepsLoaded).then_quiet (by simp) keepsNegate
      · rw [magnitude, kept .gr2 (by decide), keepsLoaded.register .gr2 (by decide),
          BitVec.abs_eq, sign]
        rfl

theorem write_work (writable : host.Writable core (decimal (core.register .gr2)).length) :
    ∃ after, host.Runs writeIntegerSegment 5 core 33 after ∧
      core.Appended ((decimal (core.register .gr2)).map charWord) after := by
  rw [decimal_places] at writable ⊢
  rw [List.length_append] at writable
  obtain ⟨signed, sign, appended, magnitude⟩ := write_sign writable
  have writableSigned := appended.writable (by rwa [List.length_map])
  obtain ⟨started, start, keeps, performed⟩ := host.quiet_run write_integer_member 12
    [put .gr3 0, put .gr5 0] [.gr3, .gr5] ⟨_, rfl⟩ rfl signed
  have value : (started.register .gr2).toNat = (core.register .gr2).abs.toNat := by
    rw [keeps.register .gr2 (by decide), magnitude]
  have small := magnitude_small (core.register .gr2)
  have mark : started.register .gr5 = if false then 1#16 else 0#16 := by simp [← performed]
  have writableStarted : host.Writable started (_ + 0) := writableSigned.keeps keeps (by simp)
  obtain ⟨after, run, appendedToo⟩ := write_places started le_rfl (by simp [← performed]) value
    (by omega) mark writableStarted
  refine ⟨after, (sign.trans start).trans run, ?_⟩
  rw [List.map_append]
  refine (appended.then_quiet (by simp) keeps).trans appendedToo writable ?_
  rw [List.length_map, List.length_map]

theorem write_returns {pc : Nat} (ready : host.Ready core) (called : host.Calls pc "WRTINT")
    (room : host.Room (core.register .gr8) 8)
    (free : ∀ address, Within core.cursor (decimal (core.register .gr2)).length address →
      address ∉ host.cells ∧ ¬Stacked (core.register .gr8) 8 address) :
    ∃ after, Reaches host.code ⟨pc, core⟩ ⟨pc + 1, after⟩ ∧
      core.Keeps [.gr6] (fun address => Stacked (core.register .gr8) 8 address ∨
        Within core.cursor (decimal (core.register .gr2)).length address) after ∧
      after.register .gr6 =
        core.register .gr6 + BitVec.ofNat 16 (decimal (core.register .gr2)).length ∧
      WordsAt after.memory core.cursor ((decimal (core.register .gr2)).map charWord) := by
  let saved : List Register := [.gr1, .gr2, .gr3, .gr4, .gr5]
  let entered := core.entered (pc + 1) saved
  have kept {register : Register} (other : register ≠ .gr8) :
      entered.register register = core.register register := Core.entered_register other
  have cursor : entered.cursor = core.cursor := by
    rw [Core.cursor, kept (by decide), kept (by decide), Core.cursor]
  have pointer : entered.register .gr8 = core.register .gr8 - BitVec.ofNat 16 6 :=
    Core.entered_pointer
  have writable : host.Writable entered (decimal (entered.register .gr2)).length := by
    refine ⟨ready.entered _ _ (room.fewer (by decide)), ?_, ?_, ?_, ?_⟩
    · rw [pointer]
      exact Room.below room
    · rw [cursor, kept (by decide)]
      exact fun address cell inside => (free address inside).1 cell
    · rw [cursor, pointer, kept (by decide)]
      exact fun address inside stacked => (free address inside).2 (Stacked.below stacked)
    · have := decimal_length (entered.register .gr2)
      omega
  obtain ⟨finished, work, appended⟩ := write_work writable
  rw [kept (by decide)] at appended
  have changes := appended.keeps
  rw [pointer, cursor, List.length_map] at changes
  -- neither the calls of the body nor the text written reach the saved registers
  have away (address : Word) (stacked : Stacked (core.register .gr8) 6 address) :
      ¬(Stacked (core.register .gr8 - BitVec.ofNat 16 6) 2 address ∨
        Within core.cursor (decimal (core.register .gr2)).length address) := by
    rintro (deeper | inside)
    · exact stacked.apart (by decide) deeper
    · exact (free address inside).2 (stacked.mono (by decide))
  obtain ⟨after, run, keeps, registers, memory⟩ := call_returns write_integer_member
    write_integer_frames (called.at_first write_integer_member rfl) (room.fewer (by decide)) work
    changes (by decide) away
  refine ⟨after, run, keeps.mono (by decide) ?_, ?_, ?_⟩
  · rintro address (stacked | stacked | inside)
    · exact .inl (stacked.mono (by decide))
    · exact .inl (Stacked.below stacked)
    · exact .inr inside
  · rw [registers .gr6 (by decide) (by decide), appended.moved, kept (by decide), List.length_map]
  · rw [memory, ← cursor]
    exact appended.stored

end Host

end PascalCasl.Comet
