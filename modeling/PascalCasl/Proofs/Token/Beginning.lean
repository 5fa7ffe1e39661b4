import PascalCasl.Proofs.Token.Pieces

/-!
What a text begins with. A text that is not empty begins with a gap, with the
longest lexeme at its place or with a fault, and with one of these only, so each
of them tells which piece is read there.
-/

namespace PascalCasl

open Text

theorem StringEnd.ne_body {cause : Option LexicalCause} {last after : List Char}
    (ending : StringEnd cause last after) {c : Char} {body : List Char}
    (inside : StringBody (c :: body)) (rest : List Char) : after ≠ c :: body ++ rest := by
  rintro rfl
  cases inside with
  | plain _ _ plain _ =>
      cases ending with
      | closed => exact plain.1 rfl
      | broken => exact plain.2.2 rfl
      | tab => exact plain.2.1 rfl
  | doubled =>
      cases ending with
      | closed _ single => exact single rfl

theorem string_ends_once {body other after rest : List Char} {cause different : Option LexicalCause}
    {last lastOther : List Char} (inside : StringBody body) (ending : StringEnd cause last after)
    (alsoInside : StringBody other) (alsoEnding : StringEnd different lastOther rest)
    (same : body ++ after = other ++ rest) : cause = different := by
  induction inside generalizing other with
  | empty =>
      cases other with
      | nil =>
          obtain rfl : after = rest := same
          cases ending <;> cases alsoEnding <;> rfl
      | cons c other => exact absurd same (ending.ne_body alsoInside rest)
  | plain c body plain more ih =>
      cases alsoInside with
      | empty => exact absurd same.symm (alsoEnding.ne_body (.plain c body plain more) after)
      | plain d other _ also => exact ih also (List.cons.inj same).2
      | doubled => exact absurd (List.cons.inj same).1 plain.1
  | doubled body more ih =>
      cases alsoInside with
      | empty => exact absurd same.symm (alsoEnding.ne_body (.doubled body more) after)
      | plain d other plain _ => exact absurd (List.cons.inj same).1.symm plain.1
      | doubled other also => exact ih also (List.cons.inj (List.cons.inj same).2).2

theorem stuck_brace {message : String} {after : List Char} (stuck : Stuck message ('{' :: after)) :
    message = "\x7b is not closed" ∧ '}' ∉ after := by
  generalize whole : '{' :: after = chars at stuck
  cases stuck with
  | openComment after endless =>
      cases whole
      exact ⟨rfl, endless⟩
  | openString => cases whole
  | tabInString => cases whole
  | strayByte byte shown chars leads _ _ no_gap =>
      subst whole
      -- a closed comment begins with the same byte
      refine absurd leads (no_gap ['{', '}'] (.comment [] [] List.not_mem_nil .empty))

theorem stuck_quote {message : String} {rest : List Char} (stuck : Stuck message ('\'' :: rest)) :
    ∃ cause body after, rest = body ++ after ∧ StringBody body ∧
      StringEnd (some cause) [] after ∧ message = cause.message := by
  generalize whole : '\'' :: rest = chars at stuck
  cases stuck with
  | openComment => cases whole
  | openString body after inside stops =>
      cases whole
      refine ⟨.openString, body, after, rfl, inside, ?_, rfl⟩
      rcases stops with rfl | feed
      · exact .ended
      · obtain ⟨_, rfl⟩ := List.head?_eq_some_iff.1 feed
        exact .broken _
  | tabInString body after inside =>
      cases whole
      exact ⟨.tabInString, body, _, rfl, inside, .tab after, rfl⟩
  | strayByte byte shown chars leads _ no_lexeme _ =>
      subst whole
      exact absurd leads (no_lexeme .string ['\'', '\''] (.string [] .empty))

theorem head_byte_append {text : List Char} (some_char : text ≠ []) (after : List Char) :
    (charBytes (text ++ after)).head? = (charBytes text).head? := by
  rw [char_bytes_append, List.head?_append, Option.or_of_isSome]
  exact List.isSome_head?.2 (char_bytes_ne_nil some_char)

theorem stuck_elsewhere {message : String} {c : Char} {rest : List Char}
    (stuck : Stuck message (c :: rest)) (not_quote : c ≠ '\'') (not_brace : c ≠ '{') :
    (∀ kind text after, Lexeme kind text → c :: rest ≠ text ++ after) ∧
      ∀ gap after, Gap gap → gap ≠ [] → c :: rest ≠ gap ++ after := by
  generalize whole : c :: rest = chars at stuck
  cases stuck with
  | openComment => exact absurd (List.cons.inj whole).1 not_brace
  | openString => exact absurd (List.cons.inj whole).1 not_quote
  | tabInString => exact absurd (List.cons.inj whole).1 not_quote
  | strayByte byte shown chars leads _ no_lexeme no_gap =>
      constructor
      · rintro kind text after lexeme rfl
        exact no_lexeme kind text lexeme (head_byte_append lexeme.ne_nil after ▸ leads)
      · rintro gap after found some_char rfl
        exact no_gap gap found (head_byte_append some_char after ▸ leads)

theorem stuck_not_gap {message : String} {gap after : List Char}
    (stuck : Stuck message (gap ++ after)) (found : Gap gap) : gap = [] := by
  cases found with
  | empty => rfl
  | blank c rest space more =>
      have apart : ∀ d ∈ [' ', '\t', '\r', '\n'], d ≠ '\'' ∧ d ≠ '{' := by simp
      have stray := stuck_elsewhere stuck (apart c space).1 (apart c space).2
      exact absurd rfl (stray.2 _ after (.blank c rest space more) (List.cons_ne_nil _ _))
  | comment inside rest _ _ => exact absurd (by simp) (stuck_brace stuck).2

theorem Lexeme.head_not_brace {kind : Kind} {rest : List Char} : ¬ Lexeme kind ('{' :: rest) := by
  have listed : ∀ entry ∈ operators, entry.1.head? ≠ some '{' := by decide
  intro lexeme
  exact listed _ (lexeme.of_other (by decide) (by decide) (by decide)) rfl

theorem stuck_not_longest {message : String} {kind : Kind} {text after : List Char}
    (stuck : Stuck message (text ++ after)) : ¬ Longest kind text after := by
  rintro ⟨lexeme, _, closed⟩
  obtain ⟨first, rest, rfl⟩ := List.exists_cons_of_ne_nil lexeme.ne_nil
  by_cases quote : first = '\''
  · subst quote
    obtain ⟨rfl, body, inside, rfl⟩ := lexeme.of_quote
    rw [List.cons_append, List.append_assoc] at stuck
    obtain ⟨cause, other, tail, same, also, ending, _⟩ := stuck_quote stuck
    cases string_ends_once inside (.closed after (closed rfl)) also ending same
  · by_cases brace : first = '{'
    · subst brace
      exact lexeme.head_not_brace
    · exact (stuck_elsewhere stuck quote brace).1 kind _ after lexeme rfl

/-- A text is stuck for one reason. -/
theorem stuck_unique {message other : String} {chars : List Char} (stuck : Stuck message chars)
    (also : Stuck other chars) : message = other := by
  cases stuck with
  | openComment after _ => exact (stuck_brace also).1.symm
  | openString body after inside stops =>
      obtain ⟨cause, _, _, whole, first, ending, spelled⟩ :=
        stuck_quote (.openString body after inside stops)
      obtain ⟨_, _, _, same, second, otherEnding, rfl⟩ := stuck_quote also
      have ends := string_ends_once first ending second otherEnding (whole.symm.trans same)
      rw [spelled, Option.some.inj ends]
  | tabInString body after inside =>
      obtain ⟨_, _, _, same, second, otherEnding, rfl⟩ := stuck_quote also
      have ends := string_ends_once inside (.tab after) second otherEnding same
      rw [← Option.some.inj ends]
      rfl
  -- a byte is stray only where nothing else begins, and a quote begins a string
  | strayByte byte shown chars leads code no_lexeme no_gap =>
      cases also with
      | openComment after endless =>
          exact (stuck_brace (.strayByte byte shown _ leads code no_lexeme no_gap)).1
      | openString => exact absurd leads (no_lexeme .string ['\'', '\''] (.string [] .empty))
      | tabInString => exact absurd leads (no_lexeme .string ['\'', '\''] (.string [] .empty))
      | strayByte otherByte otherShown _ otherLeads otherCode =>
          obtain rfl := Option.some.inj (leads.symm.trans otherLeads)
          rw [Char.toNat_inj.1 (code.trans otherCode.symm)]

theorem begins (c : Char) (chars : List Char) :
    (∃ taken after, c :: chars = taken ++ after ∧ Gap taken ∧ taken ≠ []) ∨
    (∃ kind taken after, c :: chars = taken ++ after ∧ Longest kind taken after) ∨
    ∃ message, Stuck message (c :: chars) := by
  obtain ⟨first, rest, bytes⟩ :=
    List.exists_cons_of_ne_nil (char_bytes_ne_nil (List.cons_ne_nil c chars))
  have piece := first_piece c chars first rest bytes
  generalize Piece.first first rest = found at piece
  generalize c :: chars = source at piece
  cases piece with
  | gap taken after gap some_char => exact .inl ⟨taken, after, rfl, gap, some_char⟩
  | lexeme kind taken after longest => exact .inr (.inl ⟨kind, taken, after, rfl, longest⟩)
  | fault _ cause taken stuck => exact .inr (.inr ⟨cause.message, stuck⟩)

theorem blank_first {c : Char} (space : c ∈ [' ', '\t', '\r', '\n']) (rest : List UInt8) :
    Piece.first (byteOf c) rest = .gap [byteOf c] := by
  simp only [List.mem_cons, List.not_mem_nil, or_false] at space
  rcases space with rfl | rfl | rfl | rfl <;> rfl

theorem comment_first {inside : List Char} (closing : '}' ∉ inside) (after : List Char) :
    Piece.first Piece.openBrace (charBytes (inside ++ '}' :: after)) =
      .gap (charBytes ('{' :: (inside ++ ['}']))) := by
  have passed : Piece.closeBrace ∉ charBytes inside := by
    intro among
    obtain ⟨c, member, inner⟩ := List.mem_flatMap.1 among
    refine byte_not_mem (c := c) (d := '}') (by decide) ?_ inner
    rintro rfl
    exact closing member
  rw [brace_first, char_bytes_append, comment_pass _ _ passed, char_bytes_narrow _ _ (by decide),
    char_bytes_narrow _ _ (by decide), char_bytes_append]
  rfl

theorem longest_unique {kind other : Kind} {text taken after rest : List Char}
    (longest : Longest kind text after) (also : Longest other taken rest)
    (same : text ++ after = taken ++ rest) : text = taken ∧ kind = other := by
  have equal : text = taken := by
    rcases List.append_eq_append_iff.1 same with ⟨more, rfl, tail⟩ | ⟨more, rfl, tail⟩
    · rw [longest.maximal more other ⟨rest, tail.symm⟩ also.lexeme, List.append_nil]
    · rw [also.maximal more kind ⟨after, tail.symm⟩ longest.lexeme, List.append_nil]
  subst equal
  exact ⟨rfl, longest.lexeme.kind_unique also.lexeme⟩

theorem longest_not_gap {kind : Kind} {text after gap rest : List Char}
    (longest : Longest kind text after) (found : Gap gap) (some_char : gap ≠ []) :
    text ++ after ≠ gap ++ rest := by
  have listed : ∀ entry ∈ operators, ∀ head ∈ entry.1.head?,
      head ∉ [' ', '\t', '\r', '\n', '{'] := by simp [operators]
  have apart : ∀ c ∈ [' ', '\t', '\r', '\n', '{'],
      c.isAlpha = false ∧ c.isDigit = false ∧ c ≠ '\'' := by simp
  intro same
  obtain ⟨c, text, rfl⟩ := List.exists_cons_of_ne_nil longest.lexeme.ne_nil
  obtain ⟨d, gap, rfl⟩ := List.exists_cons_of_ne_nil some_char
  obtain rfl : c = d := (List.cons.inj same).1
  obtain ⟨not_letter, not_digit, not_quote⟩ := apart c found.head_blank
  exact listed _ (longest.lexeme.of_other not_letter not_digit not_quote) c rfl found.head_blank

section

variable {first : UInt8} {rest : List UInt8}

theorem lexeme_first {kind : Kind} {text after : List Char} (longest : Longest kind text after)
    (bytes : charBytes (text ++ after) = first :: rest) :
    Piece.first first rest = .lexeme kind (charBytes text) := by
  have piece : FirstPiece (text ++ after) (Piece.first first rest) := by
    obtain ⟨c, more, rfl⟩ := List.exists_cons_of_ne_nil longest.lexeme.ne_nil
    exact first_piece c (more ++ after) first rest bytes
  generalize whole : text ++ after = source at piece
  generalize Piece.first first rest = found at piece
  cases piece with
  | gap taken other gap some_char => exact absurd whole (longest_not_gap longest gap some_char)
  | lexeme otherKind taken other also =>
      obtain ⟨rfl, rfl⟩ := longest_unique longest also whole
      rfl
  | fault _ cause taken stuck => exact absurd longest (stuck_not_longest (whole ▸ stuck))

theorem stuck_first {message : String} {chars : List Char} (stuck : Stuck message chars)
    (bytes : charBytes chars = first :: rest) :
    ∃ cause taken, Piece.first first rest = .fault cause taken ∧ cause.message = message := by
  have piece : FirstPiece chars (Piece.first first rest) := by
    cases chars with
    | nil => cases bytes
    | cons c chars => exact first_piece c chars first rest bytes
  generalize Piece.first first rest = found at piece
  cases piece with
  | gap taken after gap some_char => exact absurd (stuck_not_gap stuck gap) some_char
  | lexeme kind taken after longest => exact absurd longest (stuck_not_longest stuck)
  | fault _ cause taken also => exact ⟨cause, taken, rfl, stuck_unique also stuck⟩

end

end PascalCasl
