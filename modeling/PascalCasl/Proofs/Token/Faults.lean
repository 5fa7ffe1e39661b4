import PascalCasl.Proofs.Token.Scanning

/-!
Where scanning fails. A scan stops exactly where its source cannot be divided
any further, with the message for what stands there and on its line; so a source
has tokens precisely when it is divided to its end.
-/

namespace PascalCasl

open Text

theorem scan_of_stuck {source : String} {parts : List Spaced} {last rest : List Char}
    {message : String} (divided : Divides 1 source.toList parts last rest)
    (stuck : Stuck message rest) :
    ∃ cause, cause.message = message ∧ Token.scan source =
      .error (.lexical cause (1 + (parts.flatMap Spaced.chars ++ last).count '\n')) := by
  obtain ⟨cause, spelled, failed⟩ := stuck_scanned stuck
    (1 + (parts.flatMap Spaced.chars ++ last).count '\n')
  refine ⟨cause, spelled, ?_⟩
  rw [scan_eq]
  exact (congrArg Scan.outcome (divided_scanned divided)).trans (except_map_error.2 failed)

theorem scan_of_divided {source : String} {parts : List Spaced} {last : List Char}
    (divided : Divides 1 source.toList parts last []) :
    Token.scan source = .ok (parts.map Spaced.token ++
      [Token.endOfInput (1 + (parts.flatMap Spaced.chars ++ last).count '\n')]) := by
  rw [scan_eq]
  refine (congrArg Scan.outcome (divided_scanned divided)).trans (except_map_ok.2 ⟨_, ?_, rfl⟩)
  rw [scan_nothing]

/-- A scan fails exactly on the sources that cannot be divided to their end. It
fails with one message on one line: they are those of the rest that is left when
everything before it is divided into gaps and longest lexemes. -/
theorem scan_fails_where_stuck (source : String) :
    (∀ fault, Token.scan source = .error fault → ∃ cause line, fault = .lexical cause line) ∧
    (∀ message line,
      (∃ cause, cause.message = message ∧ Token.scan source = .error (.lexical cause line)) ↔
        ∃ parts last rest, Divides 1 source.toList parts last rest ∧ Stuck message rest ∧
          line = 1 + (parts.flatMap Spaced.chars ++ last).count '\n') ∧
    (∀ message other rest, Stuck message rest → Stuck other rest → message = other) ∧
    ((∃ fault, Token.scan source = .error fault) ↔
      ¬ ∃ parts last, Divides 1 source.toList parts last []) := by
  refine ⟨?_, fun message line => ⟨?_, ?_⟩, fun _ _ _ => stuck_unique, ?_, ?_⟩
  · intro fault failed
    rw [scan_eq] at failed
    obtain ⟨_, _, _, cause, _, _, located⟩ := divides_of_fault failed
    exact ⟨cause, _, located⟩
  · rintro ⟨cause, rfl, failed⟩
    rw [scan_eq] at failed
    obtain ⟨parts, last, rest, other, divided, stuck, located⟩ := divides_of_fault failed
    cases located
    exact ⟨parts, last, rest, divided, stuck, rfl⟩
  · rintro ⟨parts, last, rest, divided, stuck, rfl⟩
    exact scan_of_stuck divided stuck
  · rintro ⟨fault, failed⟩ ⟨parts, last, divided⟩
    rw [scan_of_divided divided] at failed
    cases failed
  · intro undivided
    obtain ⟨parts, last, rest, divided, ending⟩ := division_exists source.toList [] 1 .empty
    rw [List.nil_append] at divided
    rcases ending with rfl | ⟨message, stuck⟩
    · exact absurd ⟨parts, last, divided⟩ undivided
    · obtain ⟨cause, _, failed⟩ := scan_of_stuck divided stuck
      exact ⟨_, failed⟩

def brokenSource : String := "a:='b''\x7b'\x7b\n\x7d..'''é''\n'"

/-- A brace in a string and a quote at the end of a line do not close anything. -/
theorem broken_source_stuck :
    Token.scan brokenSource = .error (.lexical .openString 2) ∧
    ∃ parts last rest, Divides 1 brokenSource.toList parts last rest ∧
      Stuck "' is not closed" rest ∧
      2 = 1 + (parts.flatMap Spaced.chars ++ last).count '\n' := by
  have failed : Token.scan brokenSource = .error (.lexical .openString 2) := by decide +kernel
  have stopped := (scan_fails_where_stuck brokenSource).2.1 "' is not closed" 2
  exact ⟨failed, stopped.1 ⟨.openString, rfl, failed⟩⟩

end PascalCasl
