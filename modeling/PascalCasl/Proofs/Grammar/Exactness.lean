import PascalCasl.Proofs.Grammar.Completeness

/-!
Parsing is exact. A list of tokens has a tree precisely when the tokens before
its first end mark are a program of the grammar, and the tree is the one they
are derived with. Tokens beyond the first end mark decide nothing, not even the
line of a fault.
-/

namespace PascalCasl

open Grammar

theorem sentence_iff_phrase {input : List Token} {tree : Program} :
    sentence input = .ok tree ↔ ProgramPhrase input tree := by
  rw [sentence_ok]
  constructor
  · intro read
    obtain ⟨taken, same, derived⟩ := program_derived input tree [] read
    rw [List.append_nil] at same
    exact same ▸ derived
  · exact program_read

theorem take_while_end_mark (before after : List Token) {mark : Token} (isEnd : mark.isEnd = true) :
    (before ++ mark :: after).takeWhile (fun token => !token.isEnd) =
      before.takeWhile fun token => !token.isEnd := by
  induction before with
  | nil => simp [isEnd]
  | cons first rest ih =>
      cases ends : first.isEnd with
      | true => simp [ends]
      | false => simpa [ends] using ih

theorem close_tokens_cases (tokens : List Token) :
    closeTokens tokens = tokens ∨
      ∃ line, closeTokens tokens = tokens ++ [Token.endOfInput line] := by
  unfold closeTokens
  split
  · next empty => exact .inr ⟨1, by rw [List.getLast?_eq_none_iff.mp empty]; rfl⟩
  · next last _ =>
      split
      · exact .inl rfl
      · exact .inr ⟨last.line, rfl⟩

theorem input_of_tokens (tokens : List Token) :
    (Cursor.ofTokens tokens).input = tokens.takeWhile fun token => !token.isEnd := by
  simp only [Cursor.input, Cursor.upcoming, Cursor.ofTokens, List.drop_zero]
  obtain same | ⟨line, same⟩ := close_tokens_cases tokens
  · rw [same]
  · rw [same]
    exact take_while_end_mark tokens [] (by rfl)

theorem parse_ok_iff_sentence (tokens : List Token) (tree : Program) :
    Program.ofTokens tokens = .ok tree ↔
      sentence (tokens.takeWhile fun token => !token.isEnd) = .ok tree := by
  rw [Program.ofTokens, Cursor.parse, input_of_tokens]
  cases sentence (tokens.takeWhile fun token => !token.isEnd) with
  | ok tree => simp
  | error failure => simp

theorem parse_up_to_end_mark (before after : List Token) {mark : Token}
    (isEnd : mark.isEnd = true) :
    (Cursor.mk (before ++ mark :: after) 0).parse.1 =
      (Cursor.mk (before ++ [mark]) 0).parse.1 := by
  have input : (Cursor.mk (before ++ mark :: after) 0).input =
      (Cursor.mk (before ++ [mark]) 0).input := by
    simp only [Cursor.input, Cursor.upcoming, List.drop_zero]
    rw [take_while_end_mark before after isEnd, take_while_end_mark before [] isEnd]
  have endLine : (Cursor.mk (before ++ mark :: after) 0).endLine =
      (Cursor.mk (before ++ [mark]) 0).endLine := by
    simp only [Cursor.endLine, Cursor.upcoming, List.drop_zero, List.find?_append, List.find?_cons,
      isEnd]
    cases before.find? Token.isEnd <;> rfl
  simp only [Cursor.parse, input, endLine]
  cases sentence (Cursor.mk (before ++ [mark]) 0).input <;> rfl

theorem parse_ignores_after_end (before after : List Token) {mark : Token}
    (isEnd : mark.isEnd = true) :
    Program.ofTokens (before ++ mark :: after) = Program.ofTokens (before ++ [mark]) := by
  have closed : closeTokens (before ++ [mark]) = before ++ [mark] := by
    simp [closeTokens, isEnd]
  simp only [Program.ofTokens, Cursor.ofTokens, closed]
  obtain same | ⟨line, same⟩ := close_tokens_cases (before ++ mark :: after)
  · rw [same, parse_up_to_end_mark before after isEnd]
  · rw [same, List.append_assoc, List.cons_append, parse_up_to_end_mark before _ isEnd]

/-- Parsing gives a tree exactly to the programs of the grammar, each its own
tree, and reads no token beyond an end mark. -/
theorem parse_exact (tokens : List Token) :
    (∀ tree, Program.ofTokens tokens = .ok tree ↔
      ProgramPhrase (tokens.takeWhile fun token => !token.isEnd) tree) ∧
    ∀ text line after,
      Program.ofTokens (tokens ++ ⟨text, .endOfInput, line⟩ :: after) =
        Program.ofTokens (tokens ++ [⟨text, .endOfInput, line⟩]) := by
  constructor
  · intro tree
    rw [parse_ok_iff_sentence, sentence_iff_phrase]
  · intro text line after
    exact parse_ignores_after_end tokens after rfl

end PascalCasl
