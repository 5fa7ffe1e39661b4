import PascalCasl.Proofs.Comet.Routine

/-!
Multiplication by shifting and adding.
-/

namespace PascalCasl.Comet

open Casl (Register)

theorem multiply_member : multiplySegment ∈ library := by simp [library]

theorem multiply_frames : multiplySegment.Frames 0 [.gr1, .gr3, .gr4] 14 :=
  ⟨⟨_, rfl⟩, ⟨_, rfl⟩, by simp, by simp⟩

theorem halves (word : Word) : word = (word >>> 1) + (word >>> 1) + (word &&& 1#16) := by
  have last : (word &&& 1#16).toNat = word.toNat % 2 := by
    rw [BitVec.toNat_and]
    exact Nat.and_one_is_mod _
  have half : (word >>> 1).toNat = word.toNat / 2 := by
    rw [BitVec.toNat_ushiftRight, Nat.shiftRight_eq_div_pow, Nat.pow_one]
  bv_omega

theorem last_bit (word : Word) : word &&& 1#16 = 0#16 ∨ word &&& 1#16 = 1#16 := by
  have last : (word &&& 1#16).toNat = word.toNat % 2 := by
    rw [BitVec.toNat_and]
    exact Nat.and_one_is_mod _
  bv_omega

theorem half_less {word : Word} (nonzero : word ≠ 0#16) : (word >>> 1).toNat < word.toNat := by
  have half : (word >>> 1).toNat = word.toNat / 2 := by
    rw [BitVec.toNat_ushiftRight, Nat.shiftRight_eq_div_pow, Nat.pow_one]
  bv_omega

/-- The product does not change when a factor is doubled and the other is halved, except
for the last bit. -/
theorem product_shifted (sum left right : Word) :
    sum + left * (right &&& 1#16) + (left <<< 1) * (right >>> 1) = sum + left * right := by
  have doubled : left <<< 1 = left + left := by bv_omega
  conv_rhs => rw [halves right]
  rw [doubled]
  ring

namespace Host

variable {host : Host library} {core : Core Terminal}

theorem multiply_adds (ready : host.Ready core) :
    ∃ after, host.Runs multiplySegment 6 core 10 after ∧
      core.Keeps [.gr3, .gr4] nowhere after ∧
      after.register .gr3 =
        core.register .gr3 + core.register .gr1 * (core.register .gr2 &&& 1#16) := by
  have one : core.memory (host.placement.literal 1#16) = 1#16 :=
    ready.literal (by simp [library_literals])
  obtain ⟨tested, test, keeps, performed⟩ := host.quiet_run multiply_member 6
    [move .gr4 .gr2, adjust .and .gr4 1] [.gr4] ⟨_, rfl⟩ rfl core
  have zero : tested.zero = decide (core.register .gr2 &&& 1#16 = 0#16) := by
    simp [← performed, one]
  have sum := keeps.register .gr3 (by decide)
  have factor := keeps.register .gr1 (by decide)
  rcases last_bit (core.register .gr2) with even | odd
  · have skip := host.jump_run multiply_member 8 (.on .zero) 10 ⟨_, rfl⟩ tested (by decide)
      (by simp [Core.holds, zero, even])
    refine ⟨tested, test.trans skip, keeps.more (by simp), ?_⟩
    simp [sum, even]
  · have pass := host.pass_run multiply_member 8 (.on .zero) 10 ⟨_, rfl⟩ tested
      (by simp [Core.holds, zero, odd])
    obtain ⟨added, add, keepsToo, performedToo⟩ := host.quiet_run multiply_member 9
      [combine .addUnsigned .gr3 .gr1] [.gr3] ⟨_, rfl⟩ rfl tested
    refine ⟨added, (test.trans pass).trans add,
      (keeps.more (by simp)).trans (keepsToo.more (by simp)), ?_⟩
    simp [← performedToo, sum, factor, odd]

/-- One pass: the product of what is left and the sum so far stay together. -/
theorem multiply_pass (ready : host.Ready core) :
    ∃ after, host.Runs multiplySegment 6 core 4 after ∧
      core.Keeps [.gr1, .gr2, .gr3, .gr4] nowhere after ∧
      after.register .gr2 = core.register .gr2 >>> 1 ∧
      after.register .gr3 + after.register .gr1 * after.register .gr2 =
        core.register .gr3 + core.register .gr1 * core.register .gr2 := by
  obtain ⟨added, add, keeps, sum⟩ := multiply_adds ready
  obtain ⟨shifted, shift, keepsToo, performed⟩ := host.quiet_run multiply_member 10
    [.shiftLeft .gr1 ⟨.constant 1, none⟩, .shiftRight .gr2 ⟨.constant 1, none⟩] [.gr1, .gr2]
    ⟨_, rfl⟩ rfl added
  have back := host.jump_run multiply_member 12 (.on .always) 4 ⟨_, rfl⟩ shifted (by decide) rfl
  have left : shifted.register .gr1 = core.register .gr1 <<< 1 := by
    rw [← keeps.register .gr1 (by decide), ← performed]
    rfl
  have right : shifted.register .gr2 = core.register .gr2 >>> 1 := by
    rw [← keeps.register .gr2 (by decide), ← performed]
    rfl
  refine ⟨shifted, (add.trans shift).trans back,
    (keeps.more (by simp)).trans (keepsToo.more (by simp)), right, ?_⟩
  rw [keepsToo.register .gr3 (by decide), sum, left, right]
  exact product_shifted _ _ _

theorem multiply_loop (core : Core Terminal) (ready : host.Ready core) :
    ∃ after, host.Runs multiplySegment 4 core 13 after ∧
      core.Keeps [.gr1, .gr2, .gr3, .gr4] nowhere after ∧
      after.register .gr3 =
        core.register .gr3 + core.register .gr1 * core.register .gr2 := by
  obtain ⟨tested, test, same, zero, -⟩ := host.test_run multiply_member 4 .gr2 ⟨_, rfl⟩ core
  have keeps : core.Keeps [.gr1, .gr2, .gr3, .gr4] nowhere tested := same.more (by simp)
  by_cases none_left : core.register .gr2 = 0#16
  · have leave := host.jump_run multiply_member 5 (.on .zero) 13 ⟨_, rfl⟩ tested (by decide)
      (by simp [Core.holds, zero, none_left])
    refine ⟨tested, test.trans leave, keeps, ?_⟩
    simp [same.register _, none_left]
  · have stay := host.pass_run multiply_member 5 (.on .zero) 13 ⟨_, rfl⟩ tested
      (by simp [Core.holds, zero, none_left])
    obtain ⟨passed, pass, keepsToo, half, together⟩ := multiply_pass (ready.keeps keeps)
    -- GR2 loses a bit in each pass, so the loop ends although the product may overflow
    have less : (passed.register .gr2).toNat < (core.register .gr2).toNat := by
      rw [half, same.register .gr2 (by simp)]
      exact half_less none_left
    obtain ⟨after, run, keepsRest, product⟩ := multiply_loop passed
      ((ready.keeps keeps).keeps keepsToo)
    refine ⟨after, ((test.trans stay).trans pass).trans run,
      (keeps.trans keepsToo).trans keepsRest, ?_⟩
    rw [product, together]
    simp [same.register _]
termination_by (core.register .gr2).toNat

theorem multiply_returns {pc : Nat} (ready : host.Ready core) (called : host.Calls pc "MULT")
    (room : host.Room (core.register .gr8) 4) :
    ∃ after, Reaches host.code ⟨pc, core⟩ ⟨pc + 1, after⟩ ∧
      core.Keeps [.gr2] (Stacked (core.register .gr8) 4) after ∧
      after.register .gr2 = core.register .gr1 * core.register .gr2 := by
  have readyEntered := ready.entered (pc + 1) [.gr1, .gr3, .gr4] room
  obtain ⟨started, start, keepsStart, performed⟩ := host.quiet_run multiply_member 3
    [put .gr3 0] [.gr3] ⟨_, rfl⟩ rfl (core.entered (pc + 1) [.gr1, .gr3, .gr4])
  obtain ⟨multiplied, loop, keepsLoop, product⟩ :=
    multiply_loop started (readyEntered.keeps keepsStart)
  obtain ⟨moved, move, keepsMove, performedMove⟩ := host.quiet_run multiply_member 13
    [move .gr2 .gr3] [.gr2] ⟨_, rfl⟩ rfl multiplied
  obtain ⟨after, run, keeps, result⟩ := quiet_call_returns multiply_member multiply_frames
    (called.at_first multiply_member rfl) room ((start.trans loop).trans move)
    (((keepsStart.more (by simp)).trans keepsLoop).trans (keepsMove.more (by simp))) (by decide)
  refine ⟨after, run, keeps, ?_⟩
  rw [result .gr2 (by decide) (by decide), ← performedMove]
  change multiplied.register .gr3 = _
  rw [product, ← performed]
  simp [Core.entered_register]

end Host

end PascalCasl.Comet
