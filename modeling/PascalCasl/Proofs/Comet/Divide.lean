import PascalCasl.Proofs.Comet.Routine

/-!
Division. The magnitudes are divided bit by bit, and the signs are put back.
-/

namespace PascalCasl.Comet

open Casl (Register)

/-- The remainder so far, what is left of the numerator, and the quotient so far. -/
structure Division where
  remainder : Word
  numerator : Word
  quotient : Word

namespace Division

def shifted (state : Division) : Word :=
  if state.numerator.msb then state.remainder <<< 1 ||| 1#16 else state.remainder <<< 1

def step (divisor : Word) (state : Division) : Division :=
  if state.shifted.toNat < divisor.toNat then
    ⟨state.shifted, state.numerator <<< 1, state.quotient <<< 1⟩
  else ⟨state.shifted - divisor, state.numerator <<< 1, state.quotient <<< 1 ||| 1#16⟩

/-- The first bits of the numerator have been divided. -/
structure Passed (numerator divisor : Word) (passes : Nat) (state : Division) : Prop where
  left : state.numerator = numerator <<< passes
  remainder : state.remainder.toNat = numerator.toNat / 2 ^ (16 - passes) % divisor.toNat
  quotient : state.quotient.toNat = numerator.toNat / 2 ^ (16 - passes) / divisor.toNat

theorem shift_toNat {word : Word} (small : word.toNat < 32768) :
    (word <<< 1).toNat = 2 * word.toNat := by
  bv_omega

theorem shift_or_toNat {word : Word} (small : word.toNat < 32768) :
    (word <<< 1 ||| 1#16).toNat = 2 * word.toNat + 1 := by
  have apart : word <<< 1 &&& 1#16 = 0#16 := by
    ext position
    simp
    omega
  rw [← BitVec.add_eq_or_of_and_eq_zero _ _ apart]
  bv_omega

theorem shifted_msb (number : Word) {passes : Nat} (less : passes < 16) :
    (number <<< passes).msb.toNat = number.toNat / 2 ^ (15 - passes) % 2 := by
  have first : (number <<< passes).msb = number.toNat.testBit (15 - passes) := by
    rw [BitVec.msb_eq_getLsbD_last, BitVec.getLsbD_shiftLeft, BitVec.testBit_toNat]
    simp
    omega
  rw [first, Nat.toNat_testBit]

theorem bits_succ (number : Word) {passes : Nat} (less : passes < 16) :
    number.toNat / 2 ^ (16 - (passes + 1)) =
      2 * (number.toNat / 2 ^ (16 - passes)) + (number <<< passes).msb.toNat := by
  have one : 16 - passes = 15 - passes + 1 := by omega
  rw [shifted_msb number less, one, Nat.pow_succ, ← Nat.div_div_eq_div_mul, Nat.div_add_mod]
  congr 2
  omega

theorem shifted_toNat {state : Division} (small : state.remainder.toNat < 32768) :
    state.shifted.toNat = 2 * state.remainder.toNat + state.numerator.msb.toNat := by
  rw [shifted]
  cases state.numerator.msb with
  | true => exact shift_or_toNat small
  | false => exact shift_toNat small

theorem step_passed {numerator divisor : Word} {passes : Nat} {state : Division}
    (positive : 0 < divisor.toNat) (bounded : divisor.toNat ≤ 32768) (less : passes < 16)
    (passed : Passed numerator divisor passes state) :
    Passed numerator divisor (passes + 1) (state.step divisor) := by
  have next := bits_succ numerator less
  rw [← passed.left] at next
  obtain ⟨left, remainder, quotient⟩ := passed
  -- from here on the bits divided so far are any number
  generalize numerator.toNat / 2 ^ (16 - passes) = bits at next remainder quotient
  have few : bits < 32768 := by
    have := Nat.div_le_self numerator.toNat (2 ^ (16 - (passes + 1)))
    have := numerator.isLt
    omega
  have rest := Nat.mod_lt bits positive
  have part := Nat.div_le_self bits divisor.toNat
  have whole := Nat.mod_add_div bits divisor.toNat
  rw [← remainder] at rest whole
  rw [← quotient] at part whole
  have shifted := shifted_toNat (by omega : state.remainder.toNat < 32768)
  have doubled : 2 * bits + state.numerator.msb.toNat =
      state.shifted.toNat + divisor.toNat * (2 * state.quotient.toNat) := by
    rw [shifted, ← whole]
    ring
  have shift : state.numerator <<< 1 = numerator <<< (passes + 1) := by
    rw [left, ← BitVec.shiftLeft_add]
  rw [step]
  split
  next fits =>
    -- the shifted remainder is below the divisor, so it is the new remainder
    have unique := (Nat.div_mod_unique positive).mpr ⟨doubled.symm, fits⟩
    refine ⟨shift, ?_, ?_⟩
    · rw [next, unique.2]
    · rw [next, unique.1, shift_toNat (by omega)]
  next exceeds =>
    -- the divisor fits once more, and at most once, since the old remainder was below it
    have subtracted : (state.shifted - divisor).toNat = state.shifted.toNat - divisor.toNat := by
      bv_omega
    have lower : state.shifted.toNat - divisor.toNat +
        divisor.toNat * (2 * state.quotient.toNat + 1) =
          2 * bits + state.numerator.msb.toNat := by
      rw [doubled, Nat.mul_add, Nat.mul_one]
      omega
    have bit := state.numerator.msb.toNat_le
    have unique := (Nat.div_mod_unique positive).mpr ⟨lower, by omega⟩
    refine ⟨shift, ?_, ?_⟩
    · rw [next, unique.2, subtracted]
    · rw [next, unique.1, shift_or_toNat (by omega)]

theorem steps_passed {divisor : Word} (positive : 0 < divisor.toNat)
    (bounded : divisor.toNat ≤ 32768) (numerator : Word) :
    ((step divisor)^[16] ⟨0#16, numerator, 0#16⟩).remainder = numerator % divisor ∧
      ((step divisor)^[16] ⟨0#16, numerator, 0#16⟩).quotient = numerator / divisor := by
  have passed (passes : Nat) (some : passes ≤ 16) :
      Passed numerator divisor passes ((step divisor)^[passes] ⟨0#16, numerator, 0#16⟩) := by
    induction passes with
    | zero =>
        have none : numerator.toNat / 2 ^ (16 - 0) = 0 := Nat.div_eq_of_lt numerator.isLt
        exact ⟨by simp, by rw [none, Nat.zero_mod]; rfl, by rw [none, Nat.zero_div]; rfl⟩
    | succ passes ih =>
        rw [Function.iterate_succ_apply']
        exact step_passed positive bounded (by omega) (ih (by omega))
  obtain ⟨-, remainder, quotient⟩ := passed 16 le_rfl
  rw [Nat.sub_self, Nat.pow_zero, Nat.div_one] at remainder quotient
  exact ⟨BitVec.eq_of_toNat_eq (remainder.trans BitVec.toNat_umod.symm),
    BitVec.eq_of_toNat_eq (quotient.trans BitVec.toNat_udiv.symm)⟩

/-- The division of the magnitudes of two words. -/
def ofMagnitudes (left right : Word) : Division :=
  (step right.abs)^[16] ⟨0#16, left.abs, 0#16⟩

end Division

def signMask (negative : Bool) : Word := if negative then 0xFFFF#16 else 0#16

theorem sign_mask_chooses (negative : Bool) (first second : Word) :
    (if signMask negative = 0#16 then first else second) = if negative then second else first := by
  cases negative <;> rfl

theorem sign_mask_flip (negative : Bool) :
    signMask negative ^^^ 0xFFFF#16 = signMask !negative := by
  cases negative <;> decide

theorem divide_member : divideSegment ∈ library := by simp [library]

theorem divide_frames : divideSegment.Frames 0 [.gr3, .gr4, .gr5, .gr6] 44 :=
  ⟨⟨_, rfl⟩, ⟨_, rfl⟩, by simp, by simp⟩

def Core.division (core : Core Terminal) : Division :=
  ⟨core.register .gr0, core.register .gr1, core.register .gr3⟩

namespace Host

variable {host : Host library} {core : Core Terminal}

theorem divide_shifts (ready : host.Ready core) :
    ∃ after, host.Runs divideSegment 22 core 27 after ∧
      core.Keeps [.gr0, .gr1] nowhere after ∧
      after.register .gr0 = core.division.shifted ∧
      after.register .gr1 = core.register .gr1 <<< 1 := by
  obtain ⟨shifted, shift, keeps, performed⟩ := host.quiet_run divide_member 22
    [.shiftLeft .gr0 ⟨.constant 1, none⟩, .shiftLeft .gr1 ⟨.constant 1, none⟩] [.gr0, .gr1]
    ⟨_, rfl⟩ rfl core
  have remainder : shifted.register .gr0 = core.register .gr0 <<< 1 := by rw [← performed]; rfl
  have numerator : shifted.register .gr1 = core.register .gr1 <<< 1 := by rw [← performed]; rfl
  -- the shift leaves the bit that it drops in the overflow flag
  have overflow : shifted.overflow = (core.register .gr1).msb := by
    rw [← performed, BitVec.msb_eq_getLsbD_last]
    rfl
  cases bit : (core.register .gr1).msb with
  | false =>
      have none := host.pass_run divide_member 24 .onOverflow 26 ⟨_, rfl⟩ shifted
        (by simp [overflow, bit])
      have skip := host.jump_run divide_member 25 (.on .always) 27 ⟨_, rfl⟩ shifted (by decide) rfl
      refine ⟨shifted, (shift.trans none).trans skip, keeps, ?_, numerator⟩
      simp [Division.shifted, Core.division, bit, remainder]
  | true =>
      have one : shifted.memory (host.placement.literal 1#16) = 1#16 :=
        (ready.keeps keeps).literal (by simp [library_literals])
      have some := host.jump_run divide_member 24 .onOverflow 26 ⟨_, rfl⟩ shifted (by decide)
        (by simp [overflow, bit])
      obtain ⟨carried, carry, keepsToo, performedToo⟩ := host.quiet_run divide_member 26
        [adjust .or .gr0 1] [.gr0] ⟨_, rfl⟩ rfl shifted
      refine ⟨carried, (shift.trans some).trans carry, keeps.trans (keepsToo.more (by simp)), ?_,
        (keepsToo.register .gr1 (by decide)).trans numerator⟩
      simp [← performedToo, Division.shifted, Core.division, one, bit, remainder]

theorem divide_subtracts (ready : host.Ready core) :
    ∃ after, host.Runs divideSegment 27 core 32 after ∧
      core.Keeps [.gr0, .gr3] nowhere after ∧
      after.register .gr0 =
        (if (core.register .gr0).toNat < (core.register .gr2).toNat then core.register .gr0
          else core.register .gr0 - core.register .gr2) ∧
      after.register .gr3 =
        (if (core.register .gr0).toNat < (core.register .gr2).toNat then core.register .gr3 <<< 1
          else core.register .gr3 <<< 1 ||| 1#16) := by
  obtain ⟨compared, test, keeps, performed⟩ := host.quiet_run divide_member 27
    [.shiftLeft .gr3 ⟨.constant 1, none⟩, .compareUnsigned .gr0 (.register .gr2)] [.gr3]
    ⟨_, rfl⟩ rfl core
  have quotient : compared.register .gr3 = core.register .gr3 <<< 1 := by rw [← performed]; rfl
  have remainder := keeps.register .gr0 (by decide)
  have divisor := keeps.register .gr2 (by decide)
  have sign : compared.negative =
      decide ((core.register .gr0).toNat < (core.register .gr2).toNat) := by
    rw [← performed]
    change decide (compare (core.register .gr0).toNat (core.register .gr2).toNat = _) = _
    rw [decide_eq_decide, Nat.compare_eq_lt]
  by_cases fits : (core.register .gr0).toNat < (core.register .gr2).toNat
  · -- the new bit of the quotient is the zero that was shifted in
    have skip := host.jump_run divide_member 29 (.on .minus) 32 ⟨_, rfl⟩ compared (by decide)
      (by simp [Core.holds, sign, fits])
    refine ⟨compared, test.trans skip, keeps.more (by simp), ?_, ?_⟩
    · rw [if_pos fits, remainder]
    · rw [if_pos fits, quotient]
  · have pass := host.pass_run divide_member 29 (.on .minus) 32 ⟨_, rfl⟩ compared
      (by simpa [Core.holds, sign] using fits)
    have one : compared.memory (host.placement.literal 1#16) = 1#16 :=
      (ready.keeps keeps).literal (by simp [library_literals])
    obtain ⟨subtracted, subtract, keepsToo, performedToo⟩ := host.quiet_run divide_member 30
      [combine .subtractUnsigned .gr0 .gr2, adjust .or .gr3 1] [.gr0, .gr3] ⟨_, rfl⟩ rfl compared
    refine ⟨subtracted, (test.trans pass).trans subtract,
      (keeps.more (by simp)).trans keepsToo, ?_, ?_⟩
    · simp [← performedToo, fits, remainder, divisor]
    · simp [← performedToo, fits, quotient, one]

theorem divide_pass (ready : host.Ready core) :
    ∃ after, host.Runs divideSegment 22 core 32 after ∧
      core.Keeps [.gr0, .gr1, .gr3] nowhere after ∧
      after.division = core.division.step (core.register .gr2) := by
  obtain ⟨shifted, shift, keeps, remainder, numerator⟩ := divide_shifts ready
  obtain ⟨subtracted, subtract, keepsToo, rest, quotient⟩ := divide_subtracts (ready.keeps keeps)
  refine ⟨subtracted, shift.trans subtract,
    (keeps.more (by simp)).trans (keepsToo.more (by simp)), ?_⟩
  rw [remainder, keeps.register .gr2 (by decide)] at rest
  rw [remainder, keeps.register .gr2 (by decide), keeps.register .gr3 (by decide)] at quotient
  have left := (keepsToo.register .gr1 (by decide)).trans numerator
  rw [Core.division, rest, left, quotient, Division.step]
  split <;> rfl

theorem divide_counts {passes : Nat} (ready : host.Ready core)
    (counter : core.register .gr6 = BitVec.ofNat 16 (passes + 1)) :
    ∃ after, host.Runs divideSegment 22 core 33 after ∧
      core.Keeps [.gr0, .gr1, .gr3, .gr6] nowhere after ∧
      after.division = core.division.step (core.register .gr2) ∧
      after.register .gr6 = BitVec.ofNat 16 passes ∧
      after.zero = decide (BitVec.ofNat 16 passes = 0#16) := by
  obtain ⟨passed, pass, keeps, division⟩ := divide_pass ready
  obtain ⟨counted, count, keepsToo, performed⟩ := host.quiet_run divide_member 32
    [adjust .subtract .gr6 1] [.gr6] ⟨_, rfl⟩ rfl passed
  have one : passed.memory (host.placement.literal 1#16) = 1#16 :=
    (ready.keeps keeps).literal (by simp [library_literals])
  have less : passed.register .gr6 - 1#16 = BitVec.ofNat 16 passes := by
    rw [keeps.register .gr6 (by decide), counter, word_succ]
    exact BitVec.add_sub_cancel _ _
  refine ⟨counted, pass.trans count, (keeps.more (by simp)).trans (keepsToo.more (by simp)), ?_,
    ?_, ?_⟩
  · rw [← division, Core.division, keepsToo.register .gr0 (by decide),
      keepsToo.register .gr1 (by decide), keepsToo.register .gr3 (by decide)]
    rfl
  · simp [← performed, one, less]
  · simp [← performed, one, less]

theorem divide_loop (passes : Nat) (few : passes < 16) (core : Core Terminal)
    (ready : host.Ready core)
    (counter : core.register .gr6 = BitVec.ofNat 16 (passes + 1)) :
    ∃ after, host.Runs divideSegment 22 core 34 after ∧
      core.Keeps [.gr0, .gr1, .gr3, .gr6] nowhere after ∧
      after.division = (Division.step (core.register .gr2))^[passes + 1] core.division := by
  induction passes generalizing core with
  | zero =>
      obtain ⟨counted, count, keeps, division, -, zero⟩ := divide_counts ready counter
      have leave := host.pass_run divide_member 33 (.on .nonzero) 22 ⟨_, rfl⟩ counted
        (by simp [Core.holds, zero])
      exact ⟨counted, count.trans leave, keeps, division⟩
  | succ passes ih =>
      obtain ⟨counted, count, keeps, division, left, zero⟩ := divide_counts ready counter
      have nonzero : BitVec.ofNat 16 (passes + 1) ≠ 0#16 := by bv_omega
      have again := host.jump_run divide_member 33 (.on .nonzero) 22 ⟨_, rfl⟩ counted (by decide)
        (by simp [Core.holds, zero, nonzero])
      obtain ⟨after, run, keepsToo, rest⟩ := ih (by omega) counted (ready.keeps keeps) left
      refine ⟨after, (count.trans again).trans run, keeps.trans keepsToo, ?_⟩
      rw [rest, division, keeps.register .gr2 (by decide)]
      rfl

/-- The dividend becomes its magnitude, and its sign is kept twice. -/
theorem divide_dividend (ready : host.Ready core) :
    ∃ after, host.Runs divideSegment 4 core 13 after ∧
      core.Keeps [.gr1, .gr4, .gr5] nowhere after ∧
      after.register .gr1 = (core.register .gr1).abs ∧
      after.register .gr4 = signMask (core.register .gr1).msb ∧
      after.register .gr5 = signMask (core.register .gr1).msb := by
  obtain ⟨cleared, clear, keepsClear, performed⟩ := host.quiet_run divide_member 4
    [put .gr4 0, put .gr5 0] [.gr4, .gr5] ⟨_, rfl⟩ rfl core
  obtain ⟨tested, test, same, flagged⟩ := host.test_run divide_member 6 .gr1 ⟨_, rfl⟩ cleared
  rw [keepsClear.register .gr1 (by decide)] at flagged
  have keeps : core.Keeps [.gr4, .gr5] nowhere tested := keepsClear.trans (same.more (by simp))
  have mask : tested.register .gr4 = 0#16 := by simp [same.register _, ← performed]
  have maskToo : tested.register .gr5 = 0#16 := by simp [same.register _, ← performed]
  cases sign : (core.register .gr1).msb with
  | false =>
      have skip := host.nonnegative_run divide_member 7 13 ⟨_, rfl⟩ tested flagged (by decide) sign
      refine ⟨tested, (clear.trans test).trans skip, keeps.more (by simp), ?_, mask, maskToo⟩
      rw [keeps.register .gr1 (by decide), BitVec.abs_eq, sign]
      rfl
  | true =>
      have pass := host.negative_run divide_member 7 13 ⟨_, rfl⟩ tested flagged sign
      obtain ⟨negated, negation, keepsToo, magnitude⟩ :=
        negate_run divide_member 9 .gr1 ⟨_, rfl⟩ (ready.keeps keeps)
      have ones : negated.memory (host.placement.literal 0xFFFF#16) = 0xFFFF#16 :=
        ((ready.keeps keeps).keeps keepsToo).literal (by simp [library_literals])
      obtain ⟨marked, mark, keepsRest, performedRest⟩ := host.quiet_run divide_member 11
        [adjust .xor .gr4 0xFFFF, put .gr5 0xFFFF] [.gr4, .gr5] ⟨_, rfl⟩ rfl negated
      refine ⟨marked, (((clear.trans test).trans pass).trans negation).trans mark,
        ((keeps.more (by simp)).trans (keepsToo.more (by simp))).trans (keepsRest.more (by simp)),
        ?_, ?_, ?_⟩
      · rw [keepsRest.register .gr1 (by decide), magnitude, keeps.register .gr1 (by decide),
          BitVec.abs_eq, sign]
        rfl
      · simp [← performedRest, ones, keepsToo.register .gr4 (by decide), mask,
          signMask]
      · simp [← performedRest, signMask]

/-- The divisor becomes its magnitude, and the sign of the quotient is known. -/
theorem divide_divisor {negative : Bool} (ready : host.Ready core)
    (mask : core.register .gr4 = signMask negative) :
    ∃ after, host.Runs divideSegment 13 core 19 after ∧
      core.Keeps [.gr2, .gr4] nowhere after ∧
      after.register .gr2 = (core.register .gr2).abs ∧
      after.register .gr4 = signMask (negative ^^ (core.register .gr2).msb) := by
  obtain ⟨tested, test, keeps, flagged⟩ := host.test_run divide_member 13 .gr2 ⟨_, rfl⟩ core
  cases sign : (core.register .gr2).msb with
  | false =>
      have skip := host.nonnegative_run divide_member 14 19 ⟨_, rfl⟩ tested flagged (by decide) sign
      refine ⟨tested, test.trans skip, keeps.more (by simp), ?_, ?_⟩
      · rw [keeps.register .gr2 (by simp), BitVec.abs_eq, sign]
        rfl
      · rw [keeps.register .gr4 (by simp), mask, Bool.xor_false]
  | true =>
      have pass := host.negative_run divide_member 14 19 ⟨_, rfl⟩ tested flagged sign
      obtain ⟨negated, negation, keepsToo, magnitude⟩ :=
        negate_run divide_member 16 .gr2 ⟨_, rfl⟩ (ready.keeps keeps)
      have ones : negated.memory (host.placement.literal 0xFFFF#16) = 0xFFFF#16 :=
        ((ready.keeps keeps).keeps keepsToo).literal (by simp [library_literals])
      have kept : negated.register .gr4 = signMask negative := by
        rw [keepsToo.register .gr4 (by decide), keeps.register .gr4 (by simp), mask]
      -- the sign of the quotient is turned over by each negative operand
      obtain ⟨marked, mark, keepsRest, performedRest⟩ := host.quiet_run divide_member 18
        [adjust .xor .gr4 0xFFFF] [.gr4] ⟨_, rfl⟩ rfl negated
      refine ⟨marked, ((test.trans pass).trans negation).trans mark,
        ((keeps.more (by simp)).trans (keepsToo.more (by simp))).trans (keepsRest.more (by simp)),
        ?_, ?_⟩
      · rw [keepsRest.register .gr2 (by decide), magnitude, keeps.register .gr2 (by simp),
          BitVec.abs_eq, sign]
        rfl
      · simp [← performedRest, ones, kept, sign_mask_flip]

theorem divide_magnitudes (ready : host.Ready core) :
    ∃ after, host.Runs divideSegment 4 core 34 after ∧
      core.Keeps [.gr0, .gr1, .gr2, .gr3, .gr4, .gr5, .gr6] nowhere after ∧
      after.division = .ofMagnitudes (core.register .gr1) (core.register .gr2) ∧
      after.register .gr4 = signMask ((core.register .gr1).msb ^^ (core.register .gr2).msb) ∧
      after.register .gr5 = signMask (core.register .gr1).msb := by
  obtain ⟨first, left, keeps, dividend, mask, maskToo⟩ := divide_dividend ready
  obtain ⟨second, right, keepsToo, divisor, sign⟩ := divide_divisor (ready.keeps keeps) mask
  obtain ⟨started, start, keepsStart, performed⟩ := host.quiet_run divide_member 19
    [put .gr0 0, put .gr3 0, put .gr6 16] [.gr0, .gr3, .gr6] ⟨_, rfl⟩ rfl second
  obtain ⟨divided, loop, keepsLoop, division⟩ := divide_loop 15 (by omega) started
    (((ready.keeps keeps).keeps keepsToo).keeps keepsStart) (by simp [← performed])
  -- the loop starts with no remainder and no quotient
  have begun : started.division = ⟨0#16, (core.register .gr1).abs, 0#16⟩ := by
    rw [Core.division, keepsStart.register .gr1 (by decide), keepsToo.register .gr1 (by decide),
      dividend]
    simp [← performed]
  refine ⟨divided, ((left.trans right).trans start).trans loop,
    (((keeps.more (by simp)).trans (keepsToo.more (by simp))).trans
      (keepsStart.more (by simp))).trans (keepsLoop.more (by simp)), ?_, ?_, ?_⟩
  · rw [division, begun, keepsStart.register .gr2 (by decide), divisor,
      keeps.register .gr2 (by decide)]
    rfl
  · rw [keepsLoop.register .gr4 (by decide), keepsStart.register .gr4 (by decide), sign,
      keeps.register .gr2 (by decide)]
  · rw [keepsLoop.register .gr5 (by decide), keepsStart.register .gr5 (by decide),
      keepsToo.register .gr5 (by decide), maskToo]

theorem divide_signs {negative negativeToo : Bool} (ready : host.Ready core)
    (mask : core.register .gr4 = signMask negative)
    (maskToo : core.register .gr5 = signMask negativeToo) :
    ∃ after, host.Runs divideSegment 34 core 44 after ∧
      core.Keeps [.gr0, .gr1, .gr2, .gr3] nowhere after ∧
      after.register .gr1 =
        (if negativeToo then -core.register .gr0 else core.register .gr0) ∧
      after.register .gr2 = if negative then -core.register .gr3 else core.register .gr3 := by
  obtain ⟨first, quotient, keeps, signed⟩ :=
    sign_run divide_member 34 .gr4 .gr3 ⟨_, rfl⟩ (by decide) ready
  obtain ⟨second, remainder, keepsToo, signedToo⟩ :=
    sign_run divide_member 38 .gr5 .gr0 ⟨_, rfl⟩ (by decide) (ready.keeps keeps)
  obtain ⟨moved, move, keepsMove, performed⟩ := host.quiet_run divide_member 42
    [move .gr2 .gr3, move .gr1 .gr0] [.gr1, .gr2] ⟨_, rfl⟩ rfl second
  rw [mask] at signed
  rw [keeps.register .gr5 (by decide), maskToo, keeps.register .gr0 (by decide)] at signedToo
  refine ⟨moved, (quotient.trans remainder).trans move,
    ((keeps.more (by simp)).trans (keepsToo.more (by simp))).trans (keepsMove.more (by simp)),
    ?_, ?_⟩
  · have result : moved.register .gr1 = second.register .gr0 := by simp [← performed]
    rw [result, signedToo, sign_mask_chooses]
  · have result : moved.register .gr2 = second.register .gr3 := by simp [← performed]
    rw [result, keepsToo.register .gr3 (by decide), signed, sign_mask_chooses]

end Host

theorem magnitude_positive {word : Word} (nonzero : word ≠ 0#16) : 0 < word.abs.toNat := by
  rw [BitVec.abs_eq]
  split <;> bv_omega

section

variable {left right : Word} (nonzero : right ≠ 0#16)

include nonzero

theorem signed_quotient :
    (if left.msb ^^ right.msb then -(Division.ofMagnitudes left right).quotient
      else (Division.ofMagnitudes left right).quotient) = left.sdiv right := by
  have parts := Division.steps_passed (magnitude_positive nonzero) (magnitude_small right) left.abs
  rw [Division.ofMagnitudes, parts.2, BitVec.sdiv_eq,
    BitVec.abs_eq, BitVec.abs_eq]
  cases left.msb <;> cases right.msb <;> rfl

theorem signed_remainder :
    (if left.msb then -(Division.ofMagnitudes left right).remainder
      else (Division.ofMagnitudes left right).remainder) = left.srem right := by
  have parts := Division.steps_passed (magnitude_positive nonzero) (magnitude_small right) left.abs
  rw [Division.ofMagnitudes, parts.1, BitVec.srem_eq,
    BitVec.abs_eq, BitVec.abs_eq]
  cases left.msb <;> cases right.msb <;> rfl

end

/-- A call of the division. It comes back for every divisor. -/
theorem Host.divide_returns {host : Host library} {core : Core Terminal} {pc : Nat}
    (ready : host.Ready core) (called : host.Calls pc "DIV")
    (room : host.Room (core.register .gr8) 5) :
    ∃ after, Reaches host.code ⟨pc, core⟩ ⟨pc + 1, after⟩ ∧
      core.Keeps [.gr0, .gr1, .gr2] (Stacked (core.register .gr8) 5) after ∧
      (core.register .gr2 ≠ 0#16 →
        after.register .gr1 = (core.register .gr1).srem (core.register .gr2) ∧
        after.register .gr2 = (core.register .gr1).sdiv (core.register .gr2)) := by
  have readyEntered := ready.entered (pc + 1) [.gr3, .gr4, .gr5, .gr6] room
  obtain ⟨divided, division, keepsFirst, magnitudes, mask, maskToo⟩ :=
    divide_magnitudes readyEntered
  obtain ⟨signed, signs, keepsSigns, remainder, quotient⟩ :=
    divide_signs (readyEntered.keeps keepsFirst) mask maskToo
  obtain ⟨after, run, keeps, result⟩ := quiet_call_returns divide_member divide_frames
    (called.at_first divide_member rfl) room (division.trans signs)
    (keepsFirst.trans (keepsSigns.more (by simp))) (by decide)
  refine ⟨after, run, keeps, fun nonzero => ?_⟩
  have parts := congrArg Division.remainder magnitudes
  have partsToo := congrArg Division.quotient magnitudes
  change divided.register .gr0 = _ at parts
  change divided.register .gr3 = _ at partsToo
  rw [result .gr1 (by decide) (by decide), result .gr2 (by decide) (by decide), remainder, quotient,
    parts, partsToo, Core.entered_register (by decide), Core.entered_register (by decide)]
  exact ⟨signed_remainder nonzero, signed_quotient nonzero⟩

end PascalCasl.Comet
