import Mathlib.Logic.Equiv.Basic
import PascalCasl.Proofs.Invariance.Lines

/-!
Names decide nothing but which declaration is meant. A renaming that keeps
different names different is a relabelling that leaves all lines, so it leaves
the text of a compilation and the line of a fault.
-/

namespace PascalCasl

/-- Gives the token another name if it is an identifier. -/
def Token.renamed (rename : String → String) (written : Token) : Token :=
  if written.kind = .identifier then { written with text := rename written.text } else written

/-- Exchanges names and leaves lines, and with them faults. -/
def Relabelling.ofNames {rename : String → String} (injective : Function.Injective rename) :
    Relabelling where
  line := id
  name := rename
  injective := injective
  fault := id
  syntactic _ := rfl
  semantic _ := rfl

theorem of_names_token {rename : String → String} (injective : Function.Injective rename) :
    (Relabelling.ofNames injective).token = Token.renamed rename := by
  funext written
  by_cases isName : written.kind = .identifier <;>
    simp [Relabelling.token, Relabelling.ofNames, Token.renamed, isName]

theorem of_names_result {rename : String → String} (injective : Function.Injective rename)
    (outcome : Except Fault String) :
    (Relabelling.ofNames injective).result id outcome = outcome := by
  cases outcome <;> rfl

/-- Names do not reach the code, and a fault does not depend on them: a list of
tokens with other names in the place of its own, different ones for different
ones, is compiled to the same text or refused with the same fault. -/
theorem renaming_unseen (library : String) (tokens : List Token) (rename : String → String)
    (injective : Function.Injective rename) :
    compileWith library (tokens.map (Token.renamed rename)) = compileWith library tokens := by
  cases tokens with
  | nil => rfl
  | cons first rest =>
      have kept := compile_kept (.ofNames injective) library (List.cons_ne_nil first rest)
      rwa [of_names_token, of_names_result] at kept

/-- A procedure that calls itself and whose parameter hides a global variable. -/
def hidingTokens : List Token :=
  [⟨"program", .programWord, 1⟩, ⟨"a", .identifier, 1⟩, ⟨";", .semicolon, 1⟩, ⟨"var", .varWord, 2⟩,
    ⟨"a", .identifier, 2⟩, ⟨":", .colon, 2⟩, ⟨"integer", .integerWord, 2⟩, ⟨";", .semicolon, 2⟩,
    ⟨"procedure", .procedureWord, 3⟩, ⟨"b", .identifier, 3⟩, ⟨"(", .leftParen, 3⟩,
    ⟨"a", .identifier, 3⟩, ⟨":", .colon, 3⟩, ⟨"char", .charWord, 3⟩, ⟨")", .rightParen, 3⟩,
    ⟨";", .semicolon, 3⟩, ⟨"begin", .beginWord, 4⟩, ⟨"b", .identifier, 4⟩, ⟨"(", .leftParen, 4⟩,
    ⟨"a", .identifier, 4⟩, ⟨")", .rightParen, 4⟩, ⟨";", .semicolon, 4⟩, ⟨"end", .endWord, 4⟩,
    ⟨";", .semicolon, 4⟩, ⟨"begin", .beginWord, 5⟩, ⟨"a", .identifier, 5⟩, ⟨":=", .assign, 5⟩,
    ⟨"1", .constant, 5⟩, ⟨";", .semicolon, 5⟩, ⟨"end", .endWord, 5⟩, ⟨".", .dot, 5⟩]

/-- The names of the variable and of the procedure change places. -/
theorem hiding_names_exchanged :
    Function.Injective (Equiv.swap "a" "b") ∧
    hidingTokens.map (Token.renamed (Equiv.swap "a" "b")) ≠ hidingTokens ∧
    ∃ text, compileWith "" hidingTokens = .ok text ∧
      compileWith "" (hidingTokens.map (Token.renamed (Equiv.swap "a" "b"))) = .ok text := by
  have injective : Function.Injective (Equiv.swap "a" "b") := (Equiv.swap "a" "b").injective
  have changed : hidingTokens.map (Token.renamed (Equiv.swap "a" "b")) ≠ hidingTokens := by decide
  have unseen := renaming_unseen "" hidingTokens (Equiv.swap "a" "b") injective
  have compiled : (compileWith "" hidingTokens).isOk = true := by decide +kernel
  cases result : compileWith "" hidingTokens with
  | error fault =>
      rw [result] at compiled
      cases compiled
  | ok text => exact ⟨injective, changed, text, rfl, unseen.trans result⟩

end PascalCasl
