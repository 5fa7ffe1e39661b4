import PascalCasl.Proofs.Comet.Divide
import PascalCasl.Proofs.Comet.Loading
import PascalCasl.Proofs.Comet.Multiply

/-!
The arithmetic of the library: multiplication wraps, and division goes toward zero.
-/

namespace PascalCasl

namespace Comet

/-- Results of a division toward zero. The quotient may wrap, and the remainder has
the sign of the dividend. -/
structure Divided (dividend divisor quotient remainder : Word) : Prop where
  truncated : quotient = BitVec.ofInt 16 (dividend.toInt.tdiv divisor.toInt)
  rest : remainder.toInt =
    dividend.toInt - divisor.toInt * dividend.toInt.tdiv divisor.toInt
  nonnegative : 0 ≤ dividend.toInt → 0 ≤ remainder.toInt
  nonpositive : dividend.toInt ≤ 0 → remainder.toInt ≤ 0

theorem signed_divided (dividend divisor : Word) :
    Divided dividend divisor (dividend.sdiv divisor) (dividend.srem divisor) where
  truncated := by
    apply BitVec.eq_of_toInt_eq
    rw [BitVec.toInt_sdiv, BitVec.toInt_ofInt]
  rest := by rw [BitVec.toInt_srem, Int.tmod_def]
  nonnegative positive := by
    rw [BitVec.toInt_srem]
    exact Int.tmod_nonneg _ positive
  nonpositive negative := by
    rw [BitVec.toInt_srem, ← Int.neg_nonneg, ← Int.neg_tmod]
    exact Int.tmod_nonneg _ (Int.neg_nonneg.mpr negative)

end Comet

open Comet

/-- Wherever the text of the library is placed, its multiplication and its division
come back with the results in registers. They restore the registers that they save
and write to no memory but the stack. -/
theorem library_arithmetic :
    read? Library.bundled.toList = some library ∧
      ∀ (host : Comet.Host library) (pc : Nat) (core : Core Terminal), host.Ready core →
        (host.Calls pc "MULT" → host.Room (core.register .gr8) 4 →
          ∃ after, Reaches host.code ⟨pc, core⟩ ⟨pc + 1, after⟩ ∧
            core.Keeps [.gr2] (Stacked (core.register .gr8) 4) after ∧
            after.register .gr2 = core.register .gr1 * core.register .gr2) ∧
        (host.Calls pc "DIV" → host.Room (core.register .gr8) 5 →
          ∃ after, Reaches host.code ⟨pc, core⟩ ⟨pc + 1, after⟩ ∧
            core.Keeps [.gr0, .gr1, .gr2] (Stacked (core.register .gr8) 5) after ∧
            (core.register .gr2 ≠ 0 → Divided (core.register .gr1) (core.register .gr2)
              (after.register .gr2) (after.register .gr1))) := by
  refine ⟨library_read, fun host pc core ready => ⟨fun called room => ?_, fun called room => ?_⟩⟩
  · exact Host.multiply_returns ready called room
  · obtain ⟨after, run, keeps, results⟩ := Host.divide_returns ready called room
    refine ⟨after, run, keeps, fun nonzero => ?_⟩
    rw [(results nonzero).1, (results nonzero).2]
    exact signed_divided _ _

/-- The least word divided by -1 is itself again. -/
theorem least_word_divided :
    ∃ after, Reaches callerHost.code ⟨1, callerCore 0x8000 0xFFFF []⟩ ⟨2, after⟩ ∧
      after.register .gr2 = 0x8000 ∧ after.register .gr1 = 0 := by
  obtain ⟨after, run, -, results⟩ := (library_arithmetic.2 callerHost 1 (callerCore 0x8000 0xFFFF [])
    (caller_ready _ _ _)).2 rfl (caller_room.fewer (by decide))
  obtain ⟨quotient, remainder, -, -⟩ := results (by decide)
  exact ⟨after, run, quotient.trans (by decide),
    BitVec.eq_of_toInt_eq (remainder.trans (by decide))⟩

end PascalCasl
