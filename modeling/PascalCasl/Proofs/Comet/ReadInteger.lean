import PascalCasl.Proofs.Comet.HeldLine
import PascalCasl.Proofs.Text.Decimal

/-!
Reading of integers: blanks, a sign, and digits up to the first other character.
-/

namespace PascalCasl.Comet

open Casl (Register)

def splitSign : List Char → Bool × List Char
  | '-' :: rest => (true, rest)
  | text => (false, text)

/-- The number at the start of a text, and the rest of the text. Blanks before it are
skipped, and there may be no digits. -/
def takeNumber (text : List Char) : Int × List Char :=
  let signed := splitSign (text.dropWhile (· = ' '))
  let magnitude : Int := Nat.ofDigitChars 10 (signed.2.takeWhile Char.isDigit) 0
  (if signed.1 then -magnitude else magnitude, signed.2.dropWhile Char.isDigit)

theorem split_sign_none {text : List Char} (other : text.head? ≠ some '-') :
    splitSign text = (false, text) := by
  rw [splitSign]
  rintro rest rfl
  exact other rfl

theorem char_word_inj {c d : Char} (small : c.toNat < 32768) (smallToo : d.toNat < 32768) :
    charWord c = charWord d ↔ c = d := by
  constructor
  · intro same
    have codes := congrArg BitVec.toNat same
    rw [charWord, charWord, BitVec.toNat_ofNat, BitVec.toNat_ofNat] at codes
    exact Char.toNat_inj.mp (by omega)
  · rintro rfl
    rfl

theorem char_word_value {c : Char} (small : c.toNat < 32768) :
    (charWord c).toInt = (c.toNat : Int) := by
  rw [charWord, BitVec.toInt_ofNat', Int.bmod_eq_of_le (by omega) (by omega)]

theorem current_word_eq {text : List Char} (small : ∀ c ∈ text, c.toNat < 32768) {d : Char}
    (smallToo : d.toNat < 32768) :
    currentWord text = charWord d ↔ text.head? = some d := by
  cases text with
  | nil =>
      have different : (0xFFFF#16 : Word) ≠ charWord d := by
        rw [charWord]
        bv_omega
      simp [currentWord, different]
  | cons c rest => simpa [currentWord] using char_word_inj (small c List.mem_cons_self) smallToo

theorem digit_iff {c : Char} : c.isDigit = true ↔ 48 ≤ c.toNat ∧ c.toNat ≤ 57 := by
  simp only [Char.isDigit, Bool.and_eq_true, decide_eq_true_eq, UInt32.le_iff_toNat_le]
  rfl

theorem current_word_digit {text : List Char} (small : ∀ c ∈ text, c.toNat < 32768) :
    text.head?.any Char.isDigit = true ↔
      ¬(currentWord text).toInt < (0x30#16).toInt ∧ ¬(0x39#16).toInt < (currentWord text).toInt := by
  have low : (0x30#16).toInt = 48 := by decide
  have high : (0x39#16).toInt = 57 := by decide
  rw [low, high]
  cases text with
  | nil =>
      have none : (currentWord []).toInt = -1 := by decide
      simp [none]
  | cons c rest =>
      rw [currentWord, char_word_value (small c List.mem_cons_self), List.head?_cons,
        Option.any_some, digit_iff]
      omega

theorem read_integer_member : readIntegerSegment ∈ library := by simp [library]

theorem read_integer_frames : readIntegerSegment.Frames 0 [.gr1, .gr3, .gr4, .gr5] 33 :=
  ⟨⟨_, rfl⟩, ⟨_, rfl⟩, by simp, by simp⟩

namespace Host

variable (host : Host library)

/-- Words that change when the position moves: two of the stack, and the position. -/
def Moving (pointer : Word) (address : Word) : Prop :=
  Stacked pointer 2 address ∨ address = host.positionCell

structure Reads (pointer : Word) (core : Core Terminal) (line : List Char) (position : Nat) :
    Prop where
  top : core.register .gr8 = pointer
  ready : host.Ready core
  room : host.Room pointer 2
  held : host.Held core line position

variable {host} {pointer : Word} {core after : Core Terminal} {line : List Char} {position : Nat}

theorem Reads.codes (reads : host.Reads pointer core line position) :
    ∀ c ∈ line.drop position, c.toNat < 32768 :=
  fun c among => reads.held.codes c (List.mem_of_mem_drop among)

theorem Reads.congr {registers : List Register} {changed : Word → Prop}
    (reads : host.Reads pointer core line position) (keeps : core.Keeps registers changed after)
    (free : .gr8 ∉ registers)
    (outside : ∀ cell ∈ cellsOf library, ¬changed (host.placement.cell cell)) :
    host.Reads pointer after line position where
  top := (keeps.register .gr8 free).trans reads.top
  ready := reads.ready.congr fun _ member => keeps.memory _ (outside _ (constant_listed member))
  room := reads.room
  held := reads.held.congr fun cell listed => keeps.memory _ (outside cell listed)

theorem Reads.keeps {registers : List Register} (reads : host.Reads pointer core line position)
    (keeps : core.Keeps registers nowhere after) (free : .gr8 ∉ registers) :
    host.Reads pointer after line position :=
  reads.congr keeps free fun _ _ => id

theorem peek_run (number : Nat)
    (listed : readIntegerSegment.Lists number [.call ⟨.unit "RDCUR", none⟩])
    (reads : host.Reads pointer core line position) :
    ∃ after, host.Runs readIntegerSegment number core (number + 1) after ∧
      core.Keeps [.gr1] (host.Moving pointer) after ∧
      host.Reads pointer after line position ∧
      after.register .gr1 = currentWord (line.drop position) := by
  have called : host.Calls _ "RDCUR" := host.fetched read_integer_member listed
  obtain ⟨after, run, keeps, current⟩ := current_returns reads.held called
    (by rw [reads.top]; exact reads.room)
  rw [reads.top] at keeps
  exact ⟨after, run, keeps.mono (fun _ => id) fun _ => .inl,
    reads.congr keeps (by decide) fun cell listed => reads.room.apart _ (host.cell_placed listed),
    current⟩

theorem advance_run (number : Nat)
    (listed : readIntegerSegment.Lists number [.call ⟨.unit "RDADV", none⟩])
    (reads : host.Reads pointer core line position) (more : position < line.length) :
    ∃ after, host.Runs readIntegerSegment number core (number + 1) after ∧
      core.Keeps [] (host.Moving pointer) after ∧
      host.Reads pointer after line (position + 1) := by
  have called : host.Calls _ "RDADV" := host.fetched read_integer_member listed
  obtain ⟨after, run, keeps, held⟩ := advance_returns reads.held more called
    (by rw [reads.top]; exact reads.room)
  rw [reads.top] at keeps
  refine ⟨after, run, keeps, (keeps.register .gr8 (by simp)).trans reads.top, ?_, reads.room, held⟩
  refine reads.ready.congr fun constant member => keeps.memory _ ?_
  rintro (stacked | same)
  · exact reads.room.apart _ (host.cell_placed (constant_listed member)) stacked
  · exact host.cells_apart (constant_listed member) position_listed
      (constant_ne_position constant member) same

theorem drop_next {c : Char} {rest : List Char} (left : line.drop position = c :: rest) :
    position < line.length ∧ line.drop (position + 1) = rest := by
  have inside : position < line.length := by
    by_contra beyond
    rw [List.drop_eq_nil_of_le (by omega)] at left
    cases left
  rw [← List.tail_drop, left]
  exact ⟨inside, rfl⟩

theorem read_blank (reads : host.Reads pointer core line position) :
    ∃ after, host.Runs readIntegerSegment 4 core 6 after ∧
      core.Keeps [.gr1] (host.Moving pointer) after ∧
      host.Reads pointer after line position ∧
      after.register .gr1 = currentWord (line.drop position) ∧
      after.zero = decide ((line.drop position).head? = some ' ') := by
  obtain ⟨peeked, peek, keeps, readsPeeked, current⟩ := peek_run 4 ⟨_, rfl⟩ reads
  have blank : peeked.memory (host.placement.literal 0x20#16) = charWord ' ' :=
    readsPeeked.ready.literal (by simp [library_literals])
  obtain ⟨after, test, keepsTest, zero, -⟩ := host.compare_run read_integer_member 5 .gr1
    (.memory ⟨.literal 0x20, none⟩) ⟨_, rfl⟩ peeked blank
  simp only [current, current_word_eq reads.codes (by decide : ' '.toNat < 32768)] at zero
  exact ⟨after, peek.trans test, keeps.trans (keepsTest.mono (by simp) fun _ => False.elim),
    readsPeeked.keeps keepsTest (by simp), (keepsTest.register .gr1 (by simp)).trans current, zero⟩

theorem read_blanks {rest : List Char} (left : line.drop position = rest)
    (reads : host.Reads pointer core line position) :
    ∃ after next, host.Runs readIntegerSegment 4 core 9 after ∧
      core.Keeps [.gr1] (host.Moving pointer) after ∧ host.Reads pointer after line next ∧
      line.drop next = rest.dropWhile (· = ' ') ∧
      after.register .gr1 = currentWord (line.drop next) := by
  induction rest generalizing core position with
  | nil =>
      obtain ⟨tested, test, keeps, readsTested, current, zero⟩ := read_blank reads
      have leave := host.jump_run read_integer_member 6 (.on .nonzero) 9 ⟨_, rfl⟩ tested (by decide)
        (by simp [Core.holds, zero, left])
      exact ⟨tested, position, test.trans leave, keeps, readsTested, left, current⟩
  | cons c rest ih =>
      obtain ⟨tested, test, keeps, readsTested, current, zero⟩ := read_blank reads
      rw [left, List.head?_cons] at zero
      by_cases blank : c = ' '
      · have stay := host.pass_run read_integer_member 6 (.on .nonzero) 9 ⟨_, rfl⟩ tested
          (by simp [Core.holds, zero, blank])
        obtain ⟨inside, behind⟩ := drop_next left
        obtain ⟨moved, move, keepsMove, readsMoved⟩ := advance_run 7 ⟨_, rfl⟩ readsTested inside
        have back := host.jump_run read_integer_member 8 (.on .always) 4 ⟨_, rfl⟩ moved (by decide) rfl
        obtain ⟨after, next, run, keepsRest, result⟩ := ih behind readsMoved
        refine ⟨after, next, (((test.trans stay).trans move).trans back).trans run,
          (keeps.trans (keepsMove.more (by simp))).trans keepsRest, ?_⟩
        simpa [blank] using result
      · have leave := host.jump_run read_integer_member 6 (.on .nonzero) 9 ⟨_, rfl⟩ tested (by decide)
          (by simp [Core.holds, zero, blank])
        refine ⟨tested, position, test.trans leave, keeps, readsTested, ?_, current⟩
        rw [left, List.dropWhile_cons_of_neg (by simpa using blank)]

theorem read_sign (reads : host.Reads pointer core line position)
    (current : core.register .gr1 = currentWord (line.drop position)) :
    ∃ after next, host.Runs readIntegerSegment 9 core 14 after ∧
      core.Keeps [.gr5] (host.Moving pointer) after ∧ host.Reads pointer after line next ∧
      line.drop next = (splitSign (line.drop position)).2 ∧
      after.register .gr5 = if (splitSign (line.drop position)).1 then 1#16 else 0#16 := by
  obtain ⟨cleared, clear, keepsClear, performed⟩ := host.quiet_run read_integer_member 9
    [put .gr5 0] [.gr5] ⟨_, rfl⟩ rfl core
  have readsCleared := reads.keeps keepsClear (by decide)
  have minus : cleared.memory (host.placement.literal 0x2D#16) = charWord '-' :=
    readsCleared.ready.literal (by simp [library_literals])
  obtain ⟨compared, test, keepsTest, zero, -⟩ := host.compare_run read_integer_member 10 .gr1
    (.memory ⟨.literal 0x2D, none⟩) ⟨_, rfl⟩ cleared minus
  simp only [keepsClear.register .gr1 (by decide), current,
    current_word_eq reads.codes (by decide : '-'.toNat < 32768)] at zero
  have keeps : core.Keeps [.gr5] nowhere compared := keepsClear.trans (keepsTest.more (by simp))
  have readsCompared := reads.keeps keeps (by decide)
  by_cases signed : (line.drop position).head? = some '-'
  · -- the sign is passed over and remembered in GR5
    obtain ⟨rest, left⟩ : ∃ rest, line.drop position = '-' :: rest :=
      ⟨_, (List.cons_head?_tail signed).symm⟩
    obtain ⟨inside, behind⟩ := drop_next left
    have pass := host.pass_run read_integer_member 11 (.on .nonzero) 14 ⟨_, rfl⟩ compared
      (by simp [Core.holds, zero, signed])
    obtain ⟨marked, mark, keepsMark, performedMark⟩ := host.quiet_run read_integer_member 12
      [put .gr5 1] [.gr5] ⟨_, rfl⟩ rfl compared
    obtain ⟨after, move, keepsMove, readsAfter⟩ := advance_run 13 ⟨_, rfl⟩
      (readsCompared.keeps keepsMark (by decide)) inside
    refine ⟨after, position + 1, (((clear.trans test).trans pass).trans mark).trans move,
      ((keeps.trans keepsMark).mono (fun _ => id) fun _ => False.elim).trans
        (keepsMove.more (by simp)), readsAfter, ?_, ?_⟩
    · rw [left]
      exact behind
    · rw [left, keepsMove.register .gr5 (by simp), ← performedMark]
      rfl
  · have skip := host.jump_run read_integer_member 11 (.on .nonzero) 14 ⟨_, rfl⟩ compared (by decide)
      (by simpa [Core.holds, zero] using signed)
    refine ⟨compared, position, (clear.trans test).trans skip,
      keeps.mono (fun _ => id) fun _ => False.elim, readsCompared, ?_, ?_⟩
    · rw [split_sign_none signed]
    · rw [split_sign_none signed, keepsTest.register .gr5 (by simp), ← performed]
      rfl

theorem read_chooses (reads : host.Reads pointer core line position) :
    ∃ after, host.Runs readIntegerSegment 15 core
        (if (line.drop position).head?.any Char.isDigit then 20 else 28) after ∧
      core.Keeps [.gr1] (host.Moving pointer) after ∧ host.Reads pointer after line position ∧
      after.register .gr1 = currentWord (line.drop position) := by
  obtain ⟨peeked, peek, keeps, readsPeeked, current⟩ := peek_run 15 ⟨_, rfl⟩ reads
  have low : peeked.memory (host.placement.literal 0x30#16) = 0x30#16 :=
    readsPeeked.ready.literal (by simp [library_literals])
  obtain ⟨first, test, keepsTest, -, less⟩ := host.compare_run read_integer_member 16 .gr1
    (.memory ⟨.literal 0x30, none⟩) ⟨_, rfl⟩ peeked low
  rw [current] at less
  have digit := current_word_digit reads.codes
  have keepsFirst := keeps.trans (keepsTest.mono (by simp) fun _ => False.elim)
  have readsFirst := readsPeeked.keeps keepsTest (by simp)
  have currentFirst := (keepsTest.register .gr1 (by simp)).trans current
  by_cases below : (currentWord (line.drop position)).toInt < (0x30#16).toInt
  · -- below '0' is also the word for the end of the line, which is negative
    have leave := host.jump_run read_integer_member 17 (.on .minus) 28 ⟨_, rfl⟩ first (by decide)
      (by simpa [Core.holds, less] using below)
    rw [if_neg fun found => (digit.mp found).1 below]
    exact ⟨first, (peek.trans test).trans leave, keepsFirst, readsFirst, currentFirst⟩
  · have pass := host.pass_run read_integer_member 17 (.on .minus) 28 ⟨_, rfl⟩ first
      (by simpa [Core.holds, less] using below)
    have high : first.memory (host.placement.literal 0x39#16) = 0x39#16 :=
      readsFirst.ready.literal (by simp [library_literals])
    obtain ⟨second, testToo, keepsToo, same, lessToo⟩ := host.compare_run read_integer_member 18
      .gr1 (.memory ⟨.literal 0x39, none⟩) ⟨_, rfl⟩ first high
    rw [currentFirst] at same lessToo
    have keepsSecond := keepsFirst.trans (keepsToo.mono (by simp) fun _ => False.elim)
    have readsSecond := readsFirst.keeps keepsToo (by simp)
    have currentSecond := (keepsToo.register .gr1 (by simp)).trans currentFirst
    have run := ((peek.trans test).trans pass).trans testToo
    by_cases above : (0x39#16).toInt < (currentWord (line.drop position)).toInt
    · have different : currentWord (line.drop position) ≠ 0x39#16 := by
        intro equal
        rw [equal] at above
        exact lt_irrefl _ above
      have leave := host.jump_run read_integer_member 19 (.on .plus) 28 ⟨_, rfl⟩ second (by decide)
        (by simpa [Core.holds, same, lessToo, different] using above.le)
      rw [if_neg fun found => (digit.mp found).2 above]
      exact ⟨second, run.trans leave, keepsSecond, readsSecond, currentSecond⟩
    · -- the jump needs both flags clear, and equality with '9' sets the zero flag
      have fails : second.holds .plus = false := by
        rw [Core.holds, same, lessToo]
        rcases (not_lt.mp above).lt_or_eq with smaller | equal
        · rw [decide_eq_true smaller]
          rfl
        · rw [decide_eq_true (BitVec.toInt_inj.mp equal), Bool.not_true, Bool.and_false]
      have stay := host.pass_run read_integer_member 19 (.on .plus) 28 ⟨_, rfl⟩ second fails
      rw [if_pos (digit.mpr ⟨below, above⟩)]
      exact ⟨second, run.trans stay, keepsSecond, readsSecond, currentSecond⟩

theorem read_digit {c : Char} {rest : List Char} {number : Nat}
    (reads : host.Reads pointer core line position) (left : line.drop position = c :: rest)
    (digit : c.isDigit = true) (current : core.register .gr1 = charWord c)
    (value : core.register .gr3 = BitVec.ofNat 16 number) :
    ∃ after, host.Runs readIntegerSegment 20 core 15 after ∧
      core.Keeps [.gr1, .gr3, .gr4] (host.Moving pointer) after ∧
      host.Reads pointer after line (position + 1) ∧
      after.register .gr3 = BitVec.ofNat 16 (10 * number + (c.toNat - 48)) := by
  have zero : core.memory (host.placement.literal 0x30#16) = 0x30#16 :=
    reads.ready.literal (by simp [library_literals])
  obtain ⟨added, add, keepsAdd, performed⟩ := host.quiet_run read_integer_member 20
    [adjust .subtract .gr1 0x30, move .gr4 .gr3, .shiftLeft .gr3 ⟨.constant 3, none⟩,
      .shiftLeft .gr4 ⟨.constant 1, none⟩, combine .addUnsigned .gr3 .gr4,
      combine .addUnsigned .gr3 .gr1] [.gr1, .gr3, .gr4] ⟨_, rfl⟩ rfl core
  obtain ⟨after, move, keepsMove, readsAfter⟩ := advance_run 26 ⟨_, rfl⟩
    (reads.keeps keepsAdd (by decide)) (drop_next left).1
  have back := host.jump_run read_integer_member 27 (.on .always) 15 ⟨_, rfl⟩ after (by decide) rfl
  refine ⟨after, (add.trans move).trans back, (keepsAdd.mono (fun _ => id) fun _ => False.elim).trans
    (keepsMove.more (by simp)), readsAfter, ?_⟩
  have sum : added.register .gr3 = core.register .gr3 <<< 3 + core.register .gr3 <<< 1 +
      (core.register .gr1 - core.memory (host.placement.literal 0x30#16)) := by
    rw [← performed]
    rfl
  have codes := digit_iff.mp digit
  rw [keepsMove.register .gr3 (by simp), sum, zero, current, value, charWord]
  bv_omega

theorem read_digits {rest : List Char} {number : Nat} (left : line.drop position = rest)
    (reads : host.Reads pointer core line position)
    (value : core.register .gr3 = BitVec.ofNat 16 number) :
    ∃ after next, host.Runs readIntegerSegment 15 core 28 after ∧
      core.Keeps [.gr1, .gr3, .gr4] (host.Moving pointer) after ∧
      host.Reads pointer after line next ∧ line.drop next = rest.dropWhile Char.isDigit ∧
      after.register .gr3 =
        BitVec.ofNat 16 (Nat.ofDigitChars 10 (rest.takeWhile Char.isDigit) number) := by
  -- one pass of the loop for each character that is left
  induction rest generalizing core position number with
  | nil =>
      obtain ⟨after, run, keeps, readsAfter, -⟩ := read_chooses reads
      rw [left] at run
      exact ⟨after, position, run, keeps.more (by simp), readsAfter, left,
        (keeps.register .gr3 (by decide)).trans value⟩
  | cons c rest ih =>
      obtain ⟨chosen, choose, keeps, readsChosen, current⟩ := read_chooses reads
      rw [left, List.head?_cons, Option.any_some] at choose
      have kept := (keeps.register .gr3 (by decide)).trans value
      cases digit : c.isDigit with
      | true =>
          rw [if_pos digit] at choose
          rw [left] at current
          obtain ⟨added, add, keepsAdd, readsAdded, sum⟩ :=
            read_digit readsChosen left digit current kept
          obtain ⟨after, next, run, keepsRest, readsAfter, behind, total⟩ :=
            ih (drop_next left).2 readsAdded sum
          refine ⟨after, next, (choose.trans add).trans run,
            ((keeps.more (by simp)).trans keepsAdd).trans keepsRest, readsAfter, ?_, ?_⟩
          · rw [behind, List.dropWhile_cons_of_pos digit]
          · rw [total, List.takeWhile_cons_of_pos digit, Nat.ofDigitChars_cons]
            rfl
      | false =>
          rw [if_neg (by simp [digit])] at choose
          refine ⟨chosen, position, choose, keeps.more (by simp), readsChosen, ?_, ?_⟩
          · rw [left, List.dropWhile_cons_of_neg (by simp [digit])]
          · rw [kept, List.takeWhile_cons_of_neg (by simp [digit])]
            rfl

theorem read_number (reads : host.Reads pointer core line position) :
    ∃ after next, host.Runs readIntegerSegment 4 core 32 after ∧
      core.Keeps [.gr1, .gr3, .gr4, .gr5] (host.Moving pointer) after ∧
      host.Reads pointer after line next ∧
      line.drop next = (takeNumber (line.drop position)).2 ∧
      after.register .gr3 = BitVec.ofInt 16 (takeNumber (line.drop position)).1 := by
  obtain ⟨skipped, first, skip, keepsSkip, readsSkipped, left, current⟩ := read_blanks rfl reads
  obtain ⟨signed, second, sign, keepsSign, readsSigned, leftToo, mark⟩ :=
    read_sign readsSkipped current
  rw [left] at leftToo mark
  obtain ⟨cleared, clear, keepsClear, performed⟩ := host.quiet_run read_integer_member 14
    [put .gr3 0] [.gr3] ⟨_, rfl⟩ rfl signed
  have zero : cleared.register .gr3 = BitVec.ofNat 16 0 := by simp [← performed]
  obtain ⟨counted, next, count, keepsCount, readsCounted, behind, value⟩ :=
    read_digits leftToo (readsSigned.keeps keepsClear (by decide)) zero
  obtain ⟨after, negation, keepsNegate, result⟩ := sign_run read_integer_member 28 .gr5 .gr3
    ⟨_, rfl⟩ (by decide) readsCounted.ready
  rw [keepsCount.register .gr5 (by decide), keepsClear.register .gr5 (by decide), mark,
    value] at result
  refine ⟨after, next, (((skip.trans sign).trans clear).trans count).trans negation, ?_,
    readsCounted.keeps keepsNegate (by decide), behind, ?_⟩
  · exact ((((keepsSkip.more (by simp)).trans (keepsSign.more (by simp))).trans
      (keepsClear.mono (by simp) fun _ => False.elim)).trans (keepsCount.more (by simp))).trans
        (keepsNegate.mono (by simp) fun _ => False.elim)
  · rw [result, takeNumber]
    cases (splitSign ((line.drop position).dropWhile (· = ' '))).1 with
    | true => simp [BitVec.ofInt_neg]
    | false => simp

theorem read_returns {pc : Nat} (ready : host.Ready core) (called : host.Calls pc "RDINT")
    (room : host.Room (core.register .gr8) 7) (held : host.Held core line position)
    (outside : core.register .gr2 ∉ host.cells)
    (apart : ¬Stacked (core.register .gr8) 7 (core.register .gr2)) :
    ∃ after, Reaches host.code ⟨pc, core⟩ ⟨pc + 1, after⟩ ∧
      core.Keeps [] (fun address => Stacked (core.register .gr8) 7 address ∨
        address = host.positionCell ∨ address = core.register .gr2) after ∧
      after.memory (core.register .gr2) = BitVec.ofInt 16 (takeNumber (line.drop position)).1 ∧
      host.Held after line (line.length - (takeNumber (line.drop position)).2.length) := by
  let saved : List Register := [.gr1, .gr3, .gr4, .gr5]
  let entered := core.entered (pc + 1) saved
  have below : host.Room (core.register .gr8) (saved.length + 1) := room.fewer (by decide)
  have pointer : entered.register .gr8 = core.register .gr8 - BitVec.ofNat 16 5 :=
    Core.entered_pointer
  have target : entered.register .gr2 = core.register .gr2 := Core.entered_register (by decide)
  have reads : host.Reads (core.register .gr8 - BitVec.ofNat 16 5) entered line position := by
    refine ⟨pointer, ready.entered _ _ below, Room.below room, held.congr fun cell listed => ?_⟩
    exact (core.entered_keeps _ _).memory _ (below.apart _ (host.cell_placed listed))
  obtain ⟨found, next, find, keepsFind, readsFound, behind, value⟩ := read_number reads
  have address : 0#16 + found.register .gr2 = core.register .gr2 := by
    rw [BitVec.zero_add, keepsFind.register .gr2 (by decide), target]
  obtain ⟨stored, store, keepsStore, word⟩ := host.store_run read_integer_member 32 .gr3
    ⟨.constant 0, some .gr2⟩ ⟨_, rfl⟩ found address
  have changes : entered.Keeps saved (fun address =>
      host.Moving (core.register .gr8 - BitVec.ofNat 16 5) address ∨
        address = core.register .gr2) stored :=
    (keepsFind.mono (fun _ => id) fun _ => .inl).trans
      (keepsStore.mono (by simp) fun _ => .inr)
  -- the saved registers are out of reach of everything the body writes
  have away (address : Word) (stacked : Stacked (core.register .gr8) 5 address) :
      ¬(host.Moving (core.register .gr8 - BitVec.ofNat 16 5) address ∨
        address = core.register .gr2) := by
    rintro ((deeper | rfl) | rfl)
    · exact stacked.apart (by decide) deeper
    · exact below.apart _ (host.cell_placed position_listed) stacked
    · exact apart (stacked.mono (by decide))
  have heldStored : host.Held stored line next :=
    readsFound.held.congr fun cell listed => keepsStore.memory _ fun same =>
      outside (same ▸ host.cell_placed listed)
  obtain ⟨after, run, keeps, -, memory⟩ := call_returns read_integer_member read_integer_frames
    (called.at_first read_integer_member rfl) below (find.trans store) changes (by decide) away
  refine ⟨after, run, keeps.mono (by decide) ?_, ?_, ?_⟩
  · rintro address (stacked | (deeper | same) | same)
    · exact .inl (stacked.mono (by decide))
    · exact .inl (Stacked.below deeper)
    · exact .inr (.inl same)
    · exact .inr (.inr same)
  · rw [memory, word, value]
  · have rest := congrArg List.length behind
    rw [List.length_drop] at rest
    have position : line.length - (takeNumber (line.drop position)).2.length = next := by
      have := heldStored.inside
      omega
    rw [position]
    exact heldStored.congr fun _ _ => congrFun memory _

end Host

end PascalCasl.Comet
