import PascalCasl.Proofs.Comet.Loading
import PascalCasl.Proofs.Comet.ReadInteger
import PascalCasl.Proofs.Comet.WriteInteger

/-!
The integers of the library in lines of text. What is written for a word is read as
this word again.
-/

namespace PascalCasl

namespace Comet

theorem take_digits (number : Nat) {rest : List Char}
    (ends : ∀ c ∈ rest.head?, c.isDigit = false) :
    Nat.ofDigitChars 10 ((number.repr.toList ++ rest).takeWhile Char.isDigit) 0 = number ∧
      (number.repr.toList ++ rest).dropWhile Char.isDigit = rest := by
  have digits : ∀ c ∈ number.repr.toList, c.isDigit = true := fun c => Text.digit_of_repr
  have split := Text.run_split digits ends
  rw [split.1, split.2, Text.repr_eq, Nat.ofDigitChars_ten_toDigits]
  exact ⟨rfl, rfl⟩

/-- A number is taken whole from a text where no digit follows it. -/
theorem take_number (value : Int) {rest : List Char}
    (ends : ∀ c ∈ rest.head?, c.isDigit = false) :
    takeNumber (value.repr.toList ++ rest) = (value, rest) := by
  obtain ⟨first, more, spelled, start, -⟩ := Casl.integer_head value
  have solid : first ≠ ' ' := by
    rintro rfl
    exact absurd start (by decide)
  have unskipped : (value.repr.toList ++ rest).dropWhile (· = ' ') =
      value.repr.toList ++ rest := by
    rw [spelled, List.cons_append, List.dropWhile_cons, decide_eq_false solid]
    rfl
  rw [takeNumber, unskipped]
  cases value with
  | ofNat magnitude =>
      -- a digit comes first, so no sign is split off
      have unsigned : (magnitude.repr.toList ++ rest).head? ≠ some '-' := by
        obtain ⟨first, more, spelled⟩ := List.exists_cons_of_ne_nil (Text.repr_ne_nil magnitude)
        have digit : first.isDigit := Text.digit_of_repr (spelled ▸ List.mem_cons_self)
        rw [spelled]
        rintro ⟨⟩
        exact absurd digit (by decide)
      have split : splitSign ((Int.ofNat magnitude).repr.toList ++ rest) =
          (false, magnitude.repr.toList ++ rest) := split_sign_none unsigned
      obtain ⟨value, left⟩ := take_digits magnitude ends
      simp only [split, value, left]
      rfl
  | negSucc magnitude =>
      have split : splitSign ((Int.negSucc magnitude).repr.toList ++ rest) =
          (true, magnitude.succ.repr.toList ++ rest) := by
        simp [Int.repr, splitSign]
      obtain ⟨value, left⟩ := take_digits magnitude.succ ends
      simp only [split, value, left]
      rfl

end Comet

open Comet

/-- Wherever the text of the library is placed, its routines for integers come back.
One stores the number at the read position of the held line and goes past it, and
the other appends the decimal of a word to a buffer. Where this decimal stands in a
line and no digit follows it, the word is stored again. -/
theorem library_integers :
    read? Library.bundled.toList = some library ∧
      ∀ (host : Comet.Host library) (pc : Nat) (core : Core Terminal), host.Ready core →
        (∀ (line : List Char) (position : Nat),
          host.Calls pc "RDINT" → host.Room (core.register .gr8) 7 →
          host.Held core line position →
          core.register .gr2 ∉ host.cells →
          ¬Stacked (core.register .gr8) 7 (core.register .gr2) →
          ∃ after, Reaches host.code ⟨pc, core⟩ ⟨pc + 1, after⟩ ∧
            core.Keeps [] (fun address => Stacked (core.register .gr8) 7 address ∨
              address = host.positionCell ∨ address = core.register .gr2) after ∧
            after.memory (core.register .gr2) =
              BitVec.ofInt 16 (takeNumber (line.drop position)).1 ∧
            host.Held after line (line.length - (takeNumber (line.drop position)).2.length) ∧
            ∀ (word : Word) (rest : List Char), line.drop position = decimal word ++ rest →
              (∀ c ∈ rest.head?, c.isDigit = false) →
              after.memory (core.register .gr2) = word) ∧
        (host.Calls pc "WRTINT" → host.Room (core.register .gr8) 8 →
          (∀ address, Within core.cursor (decimal (core.register .gr2)).length address →
            address ∉ host.cells ∧ ¬Stacked (core.register .gr8) 8 address) →
          ∃ after, Reaches host.code ⟨pc, core⟩ ⟨pc + 1, after⟩ ∧
            core.Keeps [.gr6] (fun address => Stacked (core.register .gr8) 8 address ∨
              Within core.cursor (decimal (core.register .gr2)).length address) after ∧
            after.register .gr6 =
              core.register .gr6 + BitVec.ofNat 16 (decimal (core.register .gr2)).length ∧
            WordsAt after.memory core.cursor
              ((decimal (core.register .gr2)).map charWord)) := by
  refine ⟨library_read, fun host pc core ready => ⟨?_, Host.write_returns ready⟩⟩
  intro line position called room held outside apart
  obtain ⟨after, run, keeps, stored, heldAfter⟩ :=
    Host.read_returns ready called room held outside apart
  refine ⟨after, run, keeps, stored, heldAfter, fun word rest begins ends => ?_⟩
  rw [stored, begins, decimal, take_number word.toInt ends, BitVec.ofInt_toInt]

namespace Comet

def assignment : List Char := "x=-32768;".toList

/-- The line is held from its number on, which is to be stored at 0x9000. -/
def readerCore : Core Terminal :=
  callerCore 0 0x9000 ([(.datum "INLEN" 0, 9), (.datum "INPOS" 0, 2)] ++
    assignment.zipIdx.map fun (c, number) => (.datum "INBUF" number, charWord c))

theorem reader_holds : callerHost.Held readerCore assignment 2 where
  short := by decide
  codes c member := by
    have each : assignment.all (fun c => c.toNat < 32768) = true := by decide
    exact of_decide_eq_true (List.all_eq_true.1 each c member)
  inside := by decide
  length := by decide +kernel
  position := by decide +kernel
  characters number c listed := by
    have each : ∀ number < 9, assignment[number]?.map charWord =
        some (readerCore.memory (callerHost.bufferCell number)) := by
      decide +kernel
    have same := each number (List.getElem?_eq_some_iff.mp listed).1
    rw [listed] at same
    exact (Option.some.inj same).symm

end Comet

/-- The least word is written, and is read where a line holds it. -/
theorem least_word_read :
    (∃ after, Reaches callerHost.code ⟨2, callerCore 0 0x8000 []⟩ ⟨3, after⟩ ∧
      after.register .gr6 = 6 ∧ WordsAt after.memory 0 ("-32768".toList.map charWord)) ∧
    ∃ after, Reaches callerHost.code ⟨3, readerCore⟩ ⟨4, after⟩ ∧
      after.memory 0x9000 = 0x8000 ∧ callerHost.Held after assignment 8 := by
  constructor
  · have free (address : Word) (inside : Within 0 6 address) :
        address ∉ callerHost.cells ∧ ¬Stacked 0 8 address := by
      obtain ⟨number, less, rfl⟩ := inside
      constructor
      · intro member
        have low := caller_cells_low member
        bv_omega
      · intro stacked
        have high := caller_stack_high stacked
        bv_omega
    obtain ⟨after, run, -, moved, stored⟩ := (library_integers.2 callerHost 2
      (callerCore 0 0x8000 []) (caller_ready _ _ _)).2 rfl caller_room free
    exact ⟨after, run, moved, stored⟩
  · have apart : ¬Stacked 0 7 0x9000 := fun stacked =>
      absurd (caller_stack_high (stacked.mono (by decide))) (by decide)
    have outside : 0x9000 ∉ callerHost.cells := fun member =>
      absurd (caller_cells_low member) (by decide)
    obtain ⟨after, run, -, -, held, stored⟩ := (library_integers.2 callerHost 3 readerCore
      (caller_ready _ _ _)).1 assignment 2 rfl (caller_room.fewer (by decide)) reader_holds
        outside apart
    have ends : ∀ c ∈ [';'].head?, c.isDigit = false := by
      rintro c ⟨⟩
      rfl
    exact ⟨after, run, stored 0x8000 [';'] (by decide) ends, held⟩

end PascalCasl
