import PascalCasl.Proofs.Token.Lexeme
import PascalCasl.Text.Quoted

/-!
Quoting and unquoting. A text comes back from its quoted form. The other way
round, a text between quotes may have a quote without a partner, which quoting
would double; string lexemes have none, so they come back as well.
-/

namespace PascalCasl.Text

theorem fold_doubled (text : List Char) : foldQuotes (doubleQuotes text) = text := by
  induction text with
  | nil => rfl
  | cons c text ih =>
      by_cases quote : c = quoteMark
      · subst quote
        simp [doubleQuotes, quoteMark, foldQuotes, ih]
      · have apart : c ≠ '\'' := quote
        rw [doubleQuotes, if_neg quote, foldQuotes, ih]
        rintro _ same
        exact absurd same apart

theorem mem_doubled {c : Char} {text : List Char} : c ∈ doubleQuotes text ↔ c ∈ text := by
  induction text with
  | nil => rfl
  | cons first text ih =>
      by_cases quote : first = quoteMark <;> simp [doubleQuotes, quote, ih]

theorem mem_folded {c : Char} {text : List Char} (among : c ∈ foldQuotes text) : c ∈ text := by
  fun_induction foldQuotes text with
  | case1 rest ih =>
      rcases List.mem_cons.mp among with rfl | among
      · exact List.mem_cons_self
      · exact List.mem_cons_of_mem _ (List.mem_cons_of_mem _ (ih among))
  | case2 first rest _ ih =>
      rcases List.mem_cons.mp among with rfl | among
      · exact List.mem_cons_self
      · exact List.mem_cons_of_mem _ (ih among)
  | case3 => exact among

@[simp] theorem quoted_chars (text : String) :
    (quoted text).toList = quoteMark :: (doubleQuotes text.toList ++ [quoteMark]) := by
  simp [quoted]

theorem unquoted_quoted (text : String) : unquoted? (quoted text) = some text := by
  simp [unquoted?, fold_doubled]

end PascalCasl.Text

namespace PascalCasl

open Text

theorem StringBody.double_folded {body : List Char} (inside : StringBody body) :
    doubleQuotes (foldQuotes body) = body := by
  induction inside with
  | empty => rfl
  | plain c body plain _ ih =>
      have apart : c ≠ quoteMark := plain.1
      rw [foldQuotes, doubleQuotes, if_neg apart, ih]
      rintro _ same
      exact absurd same plain.1
  | doubled body _ ih => simp [foldQuotes, doubleQuotes, ih, quoteMark]

theorem Lexeme.string_body {text : List Char} (lexeme : Lexeme .string text) :
    ∃ body, StringBody body ∧ text = '\'' :: (body ++ ['\'']) := by
  have words : ∀ entry ∈ Kind.reservedWords, entry.2 ≠ .string := by decide
  have marks : ∀ entry ∈ operators, entry.2 ≠ .string := by decide
  cases lexeme with
  | reserved word _ listed => exact absurd rfl (words _ listed)
  | string body inside => exact ⟨body, inside, rfl⟩
  | operator mark _ listed => exact absurd rfl (marks _ listed)

/-- The text of a string lexeme, quoted again, is the lexeme. -/
theorem Lexeme.quoted_back {literal : String} (lexeme : Lexeme .string literal.toList) :
    ∃ text, unquoted? literal = some text ∧ quoted text = literal := by
  obtain ⟨body, inside, spelled⟩ := lexeme.string_body
  refine ⟨String.ofList (foldQuotes body), ?_, ?_⟩
  · simp [unquoted?, spelled, quoteMark]
  · apply String.toList_inj.mp
    rw [quoted_chars, String.toList_ofList, inside.double_folded, spelled]
    rfl

end PascalCasl
