import PascalCasl.Proofs.Invariance.Location
import PascalCasl.Proofs.Token.Stream

/-!
The mark behind the tokens decides nothing but where their end is reported. Its
line is used for one fault alone, the fault of tokens that end within a program.
A stream keeps all of the tokens but the line of the mark, so tokens that were
stored in a stream are compiled like the tokens themselves.
-/

namespace PascalCasl

open Grammar Text

/-- The tokens begin a program and are none, so what does not fit is the mark
behind them. -/
def EndsEarly (named : List Token) : Prop :=
  ¬ Sentence named ∧ ∃ more, Sentence (named ++ more)

theorem ends_early_iff {named : List Token} :
    sentence named = .error (.unexpected []) ↔ EndsEarly named := by
  constructor
  · intro stopped
    obtain ⟨taken, split, begun, _⟩ := sentence_fails_at_misfit stopped
    have whole : named = taken := by simpa [Failure.remaining] using split
    refine ⟨?_, whole ▸ begun⟩
    rintro ⟨tree, phrase⟩
    rw [sentence_iff_phrase.mpr phrase] at stopped
    cases stopped
  · rintro ⟨unfinished, more, continued⟩
    cases read : sentence named with
    | ok tree => exact absurd ⟨tree, sentence_iff_phrase.mp read⟩ unfinished
    | error stopped =>
        obtain ⟨taken, split, _, misfits⟩ := sentence_fails_at_misfit read
        cases stops : stopped.remaining with
        | cons next rest =>
            -- tokens that go on to a program hold no misfit
            rw [split, stops, List.append_assoc] at continued
            exact absurd continued (misfits next rest stops (rest ++ more))
        | nil =>
            rcases stopped with rest | ⟨token, rest⟩
            · rw [show rest = [] from stops]
            · cases stops

section Marked

variable {named : List Token} (open_ended : ∀ token ∈ named, token.isEnd = false)

include open_ended

theorem parse_marked (line : Nat) :
    Program.ofTokens (named ++ [Token.endOfInput line]) = (match sentence named with
      | .ok tree => .ok tree
      | .error stopped => .error (.syntactic (stopped.line line))) := by
  obtain ⟨mark, split, _, endLine⟩ := until_end_input (named ++ [Token.endOfInput line])
  rw [until_end_named open_ended] at split
  obtain ⟨input, same⟩ := List.append_inj' split rfl
  cases same
  rw [Program.ofTokens, Cursor.parse, ← input, ← endLine]
  cases sentence named <;> rfl

theorem compile_early_end (library : String) (early : EndsEarly named) (line : Nat) :
    compileWith library (named ++ [Token.endOfInput line]) = .error (.syntactic line) := by
  rw [compileWith, Program.accept, parse_marked open_ended, ends_early_iff.mpr early]
  rfl

theorem compile_mark_unseen (library : String) (whole : ¬ EndsEarly named) (line other : Nat) :
    compileWith library (named ++ [Token.endOfInput line]) =
      compileWith library (named ++ [Token.endOfInput other]) := by
  have parsed : Program.ofTokens (named ++ [Token.endOfInput line]) =
      Program.ofTokens (named ++ [Token.endOfInput other]) := by
    rw [parse_marked open_ended, parse_marked open_ended]
    cases read : sentence named with
    | ok tree => rfl
    | error stopped =>
        rcases stopped with ⟨_ | ⟨next, rest⟩⟩ | ⟨token, rest⟩
        · exact absurd (ends_early_iff.mp read) whole
        · rfl
        · rfl
  rw [compileWith, Program.accept, parsed]
  rfl

end Marked

/-- Compiles tokens that were written to a stream and read back. -/
def compileStored (library : String) (tokens : List Token) : Except Fault String := do
  let back ← Stream.read (Stream.write tokens)
  compileWith library back

/-- Scanned tokens are compiled alike through a stream and directly: to the same
text, or with the same fault. Only an early end is reported on different lines,
through the stream on the line of the last token and directly on the last line
of the source. The lines of the source are those that 64-bit numbers count. -/
theorem stored_tokens_agree (library source : String) (tokens : List Token)
    (short : 1 + source.toList.count '\n' < wordCount) (scanned : Token.scan source = .ok tokens) :
    ∃ named, tokens = named ++ [Token.endOfInput (1 + source.toList.count '\n')] ∧
      (∀ text, compileStored library tokens = .ok text ↔ compileWith library tokens = .ok text) ∧
      (¬ EndsEarly named → compileStored library tokens = compileWith library tokens) ∧
      (EndsEarly named →
        compileStored library tokens = .error (.syntactic (lastLine 1 named)) ∧
        compileWith library tokens = .error (.syntactic (1 + source.toList.count '\n'))) := by
  obtain ⟨named, rfl, fits⟩ := scan_storable short scanned
  have open_ended : ∀ token ∈ named, token.isEnd = false :=
    fun token among => decide_eq_false (fits token among).2
  have stored : compileStored library (named ++ [Token.endOfInput (1 + source.toList.count '\n')]) =
      compileWith library (named ++ [Token.endOfInput (lastLine 1 named)]) := by
    rw [compileStored, (read_write_named short fits).2, except_ok_bind]
  refine ⟨named, rfl, ?_⟩
  rw [stored]
  by_cases early : EndsEarly named
  · simp [early, compile_early_end open_ended library early]
  · simp [early, compile_mark_unseen open_ended library early (lastLine 1 named)
      (1 + source.toList.count '\n')]

def unfinishedTokens : List Token :=
  [⟨"program", .programWord, 1⟩, ⟨"p", .identifier, 1⟩, ⟨";", .semicolon, 1⟩,
    ⟨"begin", .beginWord, 2⟩, ⟨"x", .identifier, 2⟩, ⟨":=", .assign, 2⟩, ⟨"1", .constant, 2⟩,
    ⟨";", .semicolon, 2⟩]

/-- The missing end is reported behind the last token and, two lines further,
at the end of the source. -/
theorem unfinished_tokens_stored :
    1 + unfinishedSource.toList.count '\n' < wordCount ∧
    Token.scan unfinishedSource = .ok (unfinishedTokens ++ [Token.endOfInput 4]) ∧
    EndsEarly unfinishedTokens ∧
    compileStored "" (unfinishedTokens ++ [Token.endOfInput 4]) = .error (.syntactic 2) ∧
    compileWith "" (unfinishedTokens ++ [Token.endOfInput 4]) = .error (.syntactic 4) := by
  have short : 1 + unfinishedSource.toList.count '\n' < wordCount := by decide
  have scanned : Token.scan unfinishedSource = .ok (unfinishedTokens ++ [Token.endOfInput 4]) := by
    decide +kernel
  have ended : EndsEarly unfinishedTokens := by
    by_contra unseen
    have open_ended : ∀ token ∈ unfinishedTokens, token.isEnd = false := by decide
    have same := compile_mark_unseen open_ended "" unseen 2 4
    exact absurd same (by decide +kernel)
  obtain ⟨named, split, _, _, early⟩ := stored_tokens_agree "" _ _ short scanned
  obtain ⟨rfl, _⟩ := List.append_inj' split rfl
  exact ⟨short, scanned, ended, early ended⟩

end PascalCasl
