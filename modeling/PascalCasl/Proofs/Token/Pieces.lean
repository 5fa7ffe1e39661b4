import Mathlib.Data.List.TakeWhile
import PascalCasl.Proofs.Text.Utf8
import PascalCasl.Proofs.Token.Lexeme
import PascalCasl.Token.Piece

/-!
The piece at the head of a text, seen as characters. Pieces are read off bytes;
each of them takes the bytes of whole characters, a gap those of a blank or a
comment and a lexeme those of the longest lexeme there is.
-/

namespace PascalCasl

open Text

theorem wide_not_digit (c : Char) (wide : 128 ≤ c.toNat) : c.isDigit = false := by
  simp [Char.isDigit, UInt32.le_iff_toNat_le]
  omega

theorem wide_not_letter (c : Char) (wide : 128 ≤ c.toNat) : c.isAlpha = false := by
  simp [letter_eq]
  omega

theorem digit_class : ByteClass Piece.isDigit Char.isDigit where
  narrow c below := by
    simp [Piece.isDigit, Char.isDigit, UInt8.le_iff_toNat_le, UInt32.le_iff_toNat_le,
      byte_of_code below]
  wide_byte byte high := by
    simp [Piece.isDigit, UInt8.le_iff_toNat_le]
    omega
  wide_char := wide_not_digit

theorem letter_class : ByteClass Piece.isLetter Char.isAlpha where
  narrow c below := by
    simp [Piece.isLetter, letter_eq, UInt8.le_iff_toNat_le, byte_of_code below]
  wide_byte byte high := by
    simp [Piece.isLetter, UInt8.le_iff_toNat_le]
    omega
  wide_char := wide_not_letter

theorem word_class : ByteClass Piece.isWordByte Char.isAlphanum :=
  letter_class.or digit_class

theorem char_class (d : Char) (narrow : d.toNat < 128) :
    ByteClass (fun byte => byte = byteOf d) fun c => c = d where
  narrow c below := by simp [byte_of_inj below narrow]
  wide_byte byte high := by
    rw [decide_eq_false_iff_not]
    rintro rfl
    exact absurd narrow (Nat.not_lt.2 (byte_of_code narrow ▸ high))
  wide_char c high := by
    rw [decide_eq_false_iff_not]
    rintro rfl
    exact absurd narrow (Nat.not_lt.2 high)

theorem space_class : ByteClass Piece.isSpace fun c => c ∈ [' ', '\t', '\r', '\n'] := by
  have either : ByteClass Piece.isSpace
      fun c => ((decide (c = ' ') || decide (c = '\t')) || decide (c = '\r')) || decide (c = '\n') :=
    (((char_class ' ' (by decide)).or (char_class '\t' (by decide))).or
      (char_class '\r' (by decide))).or (char_class '\n' (by decide))
  simpa [Bool.or_assoc] using either

/-! Comments and strings. Bytes of other characters than the ones asked for are
passed over, so the reading goes on character by character. -/

theorem comment_pass (bytes rest : List UInt8) (passed : Piece.closeBrace ∉ bytes) :
    Piece.comment (bytes ++ rest) =
      ((Piece.comment rest).1, bytes ++ (Piece.comment rest).2) := by
  induction bytes with
  | nil => rfl
  | cons byte bytes ih =>
      rw [List.mem_cons, not_or] at passed
      rw [List.cons_append, Piece.comment, if_neg (Ne.symm passed.1), ih passed.2]
      rfl

theorem comment_outcome (chars : List Char) :
    (∃ inside after, chars = inside ++ '}' :: after ∧ '}' ∉ inside ∧
      Piece.comment (charBytes chars) = (true, charBytes (inside ++ ['}']))) ∨
    ('}' ∉ chars ∧ Piece.comment (charBytes chars) = (false, charBytes chars)) := by
  induction chars with
  | nil => exact .inr ⟨List.not_mem_nil, rfl⟩
  | cons c chars ih =>
      by_cases closing : c = '}'
      · subst closing
        exact .inl ⟨[], chars, rfl, List.not_mem_nil, by
          rw [char_bytes_narrow _ _ (by decide)]
          rfl⟩
      · -- no byte of another character is that of the brace, so all of them are passed over
        have passed : Piece.closeBrace ∉ String.utf8EncodeChar c :=
          byte_not_mem (d := '}') (by decide) closing
        rw [char_bytes_cons, comment_pass _ _ passed]
        rcases ih with ⟨inside, after, rfl, inner, read⟩ | ⟨inner, read⟩
        · refine .inl ⟨c :: inside, after, rfl, ?_, ?_⟩
          · exact List.not_mem_cons_of_ne_of_not_mem (Ne.symm closing) inner
          · rw [read, List.cons_append, char_bytes_cons]
        · refine .inr ⟨List.not_mem_cons_of_ne_of_not_mem (Ne.symm closing) inner, ?_⟩
          rw [read]

theorem string_pass (bytes rest : List UInt8) (passed : ∀ byte ∈ bytes,
    byte ≠ Piece.quote ∧ byte ≠ Piece.lineFeed ∧ byte ≠ Piece.tab) :
    Piece.string (bytes ++ rest) = ((Piece.string rest).1, bytes ++ (Piece.string rest).2) := by
  induction bytes with
  | nil => rfl
  | cons byte bytes ih =>
      obtain ⟨not_quote, not_feed, not_tab⟩ := passed byte List.mem_cons_self
      have others := ih fun other among => passed other (List.mem_cons_of_mem byte among)
      rw [List.cons_append, Piece.string.eq_def]
      simp only [if_neg not_quote, if_neg not_feed, if_neg not_tab, others, List.cons_append]

theorem string_doubled (rest : List UInt8) :
    Piece.string (Piece.quote :: Piece.quote :: rest) =
      ((Piece.string rest).1, Piece.quote :: Piece.quote :: (Piece.string rest).2) := by
  rw [Piece.string.eq_def]
  simp only [if_true]

theorem string_closed (rest : List UInt8) (single : rest.head? ≠ some Piece.quote) :
    Piece.string (Piece.quote :: rest) = (none, [Piece.quote]) := by
  rw [Piece.string.eq_def]
  cases rest with
  | nil => rfl
  | cons next rest =>
      have other : next ≠ Piece.quote := fun same => single (congrArg some same)
      simp only [if_true, if_neg other]

/-- How the reading of a string ends: at its closing quote, where it breaks off,
or at a tab. -/
inductive StringEnd : Option LexicalCause → List Char → List Char → Prop
  | closed (rest : List Char) (single : rest.head? ≠ some '\'') :
      StringEnd none ['\''] ('\'' :: rest)
  | ended : StringEnd (some .openString) [] []
  | broken (rest : List Char) : StringEnd (some .openString) [] ('\n' :: rest)
  | tab (rest : List Char) : StringEnd (some .tabInString) [] ('\t' :: rest)

theorem head_quote (chars : List Char) :
    (charBytes chars).head? = some Piece.quote ↔ chars.head? = some '\'' := by
  cases chars with
  | nil => simp
  | cons c chars =>
      cases bytes : String.utf8EncodeChar c with
      | nil => exact absurd bytes (encoded_ne_nil c)
      | cons first tail =>
          have same : decide (first = Piece.quote) = decide (c = '\'') :=
            (char_class '\'' (by decide)).lead bytes
          rw [char_bytes_cons, bytes]
          simpa using same

theorem string_outcome (chars : List Char) :
    ∃ cause body last after, chars = body ++ after ∧ StringBody body ∧
      StringEnd cause last after ∧
      Piece.string (charBytes chars) = (cause, charBytes (body ++ last)) := by
  -- recursion on the length, since a doubled quote takes two characters at once
  match chars with
  | [] => exact ⟨_, [], [], [], rfl, .empty, .ended, rfl⟩
  | c :: chars =>
      by_cases quote : c = '\''
      · subst quote
        rw [char_bytes_narrow _ _ (by decide)]
        by_cases doubled : chars.head? = some '\''
        · obtain ⟨rest, rfl⟩ := List.head?_eq_some_iff.1 doubled
          obtain ⟨cause, body, last, after, rfl, inside, ending, read⟩ := string_outcome rest
          refine ⟨cause, '\'' :: '\'' :: body, last, after, rfl, .doubled body inside, ending, ?_⟩
          rw [char_bytes_narrow _ _ (by decide)]
          refine (string_doubled _).trans ?_
          rw [read, List.cons_append, List.cons_append, char_bytes_narrow _ _ (by decide),
            char_bytes_narrow _ _ (by decide)]
          rfl
        · refine ⟨none, [], ['\''], _, rfl, .empty, .closed chars doubled, ?_⟩
          exact string_closed _ (mt (head_quote chars).1 doubled)
      · by_cases feed : c = '\n'
        · subst feed
          exact ⟨_, [], [], _, rfl, .empty, .broken chars, by
            rw [char_bytes_narrow _ _ (by decide), Piece.string.eq_def]
            rfl⟩
        · by_cases tab : c = '\t'
          · subst tab
            exact ⟨_, [], [], _, rfl, .empty, .tab chars, by
              rw [char_bytes_narrow _ _ (by decide), Piece.string.eq_def]
              rfl⟩
          · obtain ⟨cause, body, last, after, rfl, inside, ending, read⟩ := string_outcome chars
            refine ⟨cause, c :: body, last, after, rfl, .plain c body ⟨quote, tab, feed⟩ inside,
              ending, ?_⟩
            rw [char_bytes_cons, string_pass, read, List.cons_append, char_bytes_cons]
            rintro byte among
            refine ⟨?_, ?_, ?_⟩
            · rintro rfl
              exact byte_not_mem (d := '\'') (by decide) quote among
            · rintro rfl
              exact byte_not_mem (d := '\n') (by decide) feed among
            · rintro rfl
              exact byte_not_mem (d := '\t') (by decide) tab among
  termination_by chars.length

/-! Operators. The tables of marks and the table of operators are one. -/

theorem mem_of_lookup {α β : Type} [BEq α] [LawfulBEq α] {table : List (α × β)} {key : α} {value : β}
    (found : table.lookup key = some value) : (key, value) ∈ table := by
  obtain ⟨before, after, rfl, _⟩ := List.lookup_eq_some_iff.1 found
  simp

theorem not_mem_of_lookup {α β : Type} [BEq α] [LawfulBEq α] {table : List (α × β)} {key : α}
    (absent : table.lookup key = none) (value : β) : (key, value) ∉ table := by
  intro listed
  have other := List.lookup_eq_none_iff.1 absent _ listed
  simp at other

theorem marks_are_operators : ∀ entry ∈ Piece.marks, ([entry.1], entry.2) ∈ operators := by
  decide

theorem double_marks_are_operators :
    ∀ entry ∈ Piece.doubleMarks, ([entry.1.1, entry.1.2], entry.2) ∈ operators := by decide

theorem double_marks_complete : ∀ entry ∈ operators, entry.1.length = 1 ∨
    ∃ double ∈ Piece.doubleMarks, entry = ([double.1.1, double.1.2], double.2) := by decide

theorem double_marks_narrow : ∀ entry ∈ Piece.doubleMarks, entry.1.2.toNat < 128 := by decide

theorem char_of_eq {c : Char} (narrow : c.toNat < 128) : Piece.charOf (byteOf c) = c :=
  char_of_byte narrow

theorem char_of_code (byte : UInt8) : (Piece.charOf byte).toNat = byte.toNat := by
  have valid : byte.toNat.isValidChar := .inl (Nat.lt_trans byte.toNat_lt (by decide))
  rw [Piece.charOf, Char.ofNat, dif_pos valid]
  rfl

/-- The scanner asks for a pair of bytes where the table has characters. The
first byte of a wide character reads as another character, but as a wide one. -/
theorem double_mark_eq {c next : Char} {first : UInt8} {tail : List UInt8} (narrow : c.toNat < 128)
    (bytes : String.utf8EncodeChar next = first :: tail) :
    Piece.doubleMark? (byteOf c) first = Piece.doubleMarks.lookup (c, next) := by
  rw [Piece.doubleMark?, char_of_eq narrow]
  by_cases also : next.toNat < 128
  · rw [narrow_bytes next also] at bytes
    cases bytes
    rw [char_of_eq also]
  · -- no mark has a second character beyond the narrow ones, whichever way it is read
    have absent (other : Char) (wide : 128 ≤ other.toNat) :
        Piece.doubleMarks.lookup (c, other) = none := by
      rw [List.lookup_eq_none_iff]
      intro entry listed
      have low := double_marks_narrow entry listed
      by_contra same
      have equal : (c, other) = entry.1 := by simpa using same
      rw [← equal] at low
      exact absurd low (Nat.not_lt.2 wide)
    obtain ⟨_, _, spelled, high⟩ := wide_bytes next (Nat.le_of_not_lt also)
    rw [bytes] at spelled
    cases spelled
    rw [absent next (Nat.le_of_not_lt also), absent]
    exact char_of_code first ▸ high first List.mem_cons_self

/-- The longest lexeme before `after`. -/
structure Longest (kind : Kind) (text after : List Char) : Prop where
  lexeme : Lexeme kind text
  maximal : Maximal text after
  closed : kind = .string → after.head? ≠ some '\''

/-- What a text begins with where nothing can be taken off it, and the message
for it: a comment or a string that is not closed, a tab in a string, or a byte
that begins no gap and no lexeme. -/
inductive Stuck : String → List Char → Prop
  | openComment (after : List Char) (endless : '}' ∉ after) :
      Stuck "\x7b is not closed" ('{' :: after)
  | openString (body after : List Char) (inside : StringBody body)
      (stops : after = [] ∨ after.head? = some '\n') :
      Stuck "' is not closed" ('\'' :: (body ++ after))
  | tabInString (body after : List Char) (inside : StringBody body) :
      Stuck "tab in a string" ('\'' :: (body ++ '\t' :: after))
  | strayByte (byte : UInt8) (shown : Char) (chars : List Char)
      (leads : (charBytes chars).head? = some byte) (code : shown.toNat = byte.toNat)
      (no_lexeme : ∀ kind text, Lexeme kind text → (charBytes text).head? ≠ some byte)
      (no_gap : ∀ gap, Gap gap → (charBytes gap).head? ≠ some byte) :
      Stuck ("undefined token that begins with \"" ++ String.singleton shown ++ "\" is included") chars

inductive FirstPiece : List Char → Piece → Prop
  | gap (taken after : List Char) (gap : Gap taken) (some_char : taken ≠ []) :
      FirstPiece (taken ++ after) (.gap (charBytes taken))
  | lexeme (kind : Kind) (taken after : List Char) (longest : Longest kind taken after) :
      FirstPiece (taken ++ after) (.lexeme kind (charBytes taken))
  | fault (chars : List Char) (cause : LexicalCause) (bytes : List UInt8)
      (stuck : Stuck cause.message chars) :
      FirstPiece chars (.fault cause bytes)

theorem quote_piece (chars : List Char) :
    FirstPiece ('\'' :: chars) (Piece.first Piece.quote (charBytes chars)) := by
  obtain ⟨cause, body, last, after, rfl, inside, ending, read⟩ := string_outcome chars
  rw [Piece.first, if_pos rfl, read]
  cases ending with
  | closed rest single =>
      have taken := FirstPiece.lexeme .string ('\'' :: (body ++ ['\''])) rest
        ⟨.string body inside, string_maximal inside single, fun _ => single⟩
      rw [char_bytes_narrow _ _ (by decide), List.cons_append, List.append_assoc] at taken
      exact taken
  | ended => exact .fault _ _ _ (.openString body [] inside (.inl rfl))
  | broken rest => exact .fault _ _ _ (.openString body _ inside (.inr rfl))
  | tab rest => exact .fault _ _ _ (.tabInString body rest inside)

theorem run_stops (member : Char → Bool) (chars : List Char) (next : Char)
    (head : (chars.dropWhile member).head? = some next) : member next = false := by
  have stop := List.head?_dropWhile_not member chars
  rw [head] at stop
  simpa using stop

theorem digit_piece (c : Char) (chars : List Char) (digit : c.isDigit) :
    FirstPiece (c :: chars)
      (.lexeme .constant (byteOf c :: (charBytes chars).takeWhile Piece.isDigit)) := by
  have narrow := digit_class.narrow_of_member digit
  have split := List.takeWhile_append_dropWhile (p := Char.isDigit) (l := chars)
  have taken := FirstPiece.lexeme .constant (c :: chars.takeWhile Char.isDigit)
    (chars.dropWhile Char.isDigit)
    ⟨.constant c _ ?_, digits_maximal digit (run_stops _ chars), nofun⟩
  · rwa [List.cons_append, split, char_bytes_narrow _ _ narrow, ← digit_class.take_while] at taken
  · intro d among
    rcases List.mem_cons.1 among with rfl | among
    · exact digit
    · exact List.mem_takeWhile_imp among

theorem letter_piece (c : Char) (chars : List Char) (letter : c.isAlpha) :
    FirstPiece (c :: chars)
      (.lexeme (Kind.ofSpelling (decode (byteOf c :: (charBytes chars).takeWhile Piece.isWordByte)))
        (byteOf c :: (charBytes chars).takeWhile Piece.isWordByte)) := by
  have narrow := letter_class.narrow_of_member letter
  have split := List.takeWhile_append_dropWhile (p := Char.isAlphanum) (l := chars)
  rw [word_class.take_while, ← char_bytes_narrow _ _ narrow, decode_eq]
  have taken := FirstPiece.lexeme _ (c :: chars.takeWhile Char.isAlphanum)
    (chars.dropWhile Char.isAlphanum)
    ⟨Lexeme.of_word letter fun d among => List.mem_takeWhile_imp among,
      word_maximal letter (run_stops _ chars), ?_⟩
  · rwa [List.cons_append, split] at taken
  · exact fun string => absurd string (of_spelling_word _).1

theorem brace_first (bytes : List UInt8) :
    Piece.first Piece.openBrace bytes =
      match Piece.comment bytes with
      | (true, taken) => .gap (Piece.openBrace :: taken)
      | (false, taken) => .fault .openComment (Piece.openBrace :: taken) := rfl

theorem comment_piece (chars : List Char) :
    FirstPiece ('{' :: chars) (Piece.first Piece.openBrace (charBytes chars)) := by
  rw [brace_first]
  rcases comment_outcome chars with ⟨inside, after, rfl, inner, read⟩ | ⟨endless, read⟩
  · rw [read]
    have taken := FirstPiece.gap ('{' :: (inside ++ ['}'])) after
      (.comment inside [] inner .empty) (List.cons_ne_nil _ _)
    rw [char_bytes_narrow _ _ (by decide), List.cons_append, List.append_assoc] at taken
    exact taken
  · rw [read]
    exact .fault _ _ _ (.openComment chars endless)

/-! Stray bytes. Lexemes and gaps begin with narrow characters, so with the byte
of one. -/

theorem Lexeme.head_narrow {kind : Kind} {first : Char} {rest : List Char}
    (lexeme : Lexeme kind (first :: rest)) : first.toNat < 128 := by
  have listed : ∀ entry ∈ operators, ∀ head ∈ entry.1.head?, head.toNat < 128 := by
    simp [operators]
  obtain ⟨letter, _⟩ | ⟨digit, _⟩ | ⟨rfl, _⟩ | mark := lexeme.shape
  · exact letter_class.narrow_of_member letter
  · exact digit_class.narrow_of_member digit
  · decide
  · exact listed _ mark first rfl

theorem Gap.head_blank {first : Char} {rest : List Char} (gap : Gap (first :: rest)) :
    first ∈ [' ', '\t', '\r', '\n', '{'] := by
  cases gap with
  | blank _ _ space _ => exact List.mem_append_left ['{'] space
  | comment inside rest _ _ => decide

theorem Gap.head_narrow {first : Char} {rest : List Char} (gap : Gap (first :: rest)) :
    first.toNat < 128 := by
  have narrow : ∀ c ∈ [' ', '\t', '\r', '\n', '{'], c.toNat < 128 := by simp
  exact narrow first gap.head_blank

theorem stray_stuck {byte : UInt8} {chars : List Char}
    (leads : (charBytes chars).head? = some byte)
    (no_lexeme : ∀ kind first rest, Lexeme kind (first :: rest) → byteOf first ≠ byte)
    (no_gap : ∀ first rest, Gap (first :: rest) → byteOf first ≠ byte) :
    Stuck (LexicalCause.strayByte byte).message chars := by
  refine .strayByte byte (Piece.charOf byte) chars leads (char_of_code byte) ?_ ?_
  · intro kind text lexeme head
    obtain ⟨first, rest, rfl⟩ := List.exists_cons_of_ne_nil lexeme.ne_nil
    rw [char_bytes_narrow _ _ lexeme.head_narrow] at head
    exact no_lexeme kind first rest lexeme (Option.some.inj head)
  · intro gap found head
    cases gap with
    | nil => cases head
    | cons first rest =>
        rw [char_bytes_narrow _ _ found.head_narrow] at head
        exact no_gap first rest found (Option.some.inj head)

theorem operators_marked : ∀ entry ∈ operators, ∀ head ∈ entry.1.head?,
    (Piece.marks.lookup head).isSome := by
  simp [operators, Piece.marks]

/-- The characters that the scanner has no other question for. -/
structure Plain (c : Char) : Prop where
  narrow : c.toNat < 128
  not_quote : c ≠ '\''
  not_brace : c ≠ '{'
  not_digit : c.isDigit = false
  not_letter : c.isAlpha = false
  not_space : c ∉ [' ', '\t', '\r', '\n']

theorem plain_stray {c : Char} (plain : Plain c) (unmarked : Piece.marks.lookup c = none)
    (chars : List Char) : Stuck (LexicalCause.strayByte (byteOf c)).message (c :: chars) := by
  apply stray_stuck
  · rw [char_bytes_narrow c chars plain.narrow, List.head?_cons]
  · intro kind first rest lexeme same
    obtain rfl := (byte_of_inj lexeme.head_narrow plain.narrow).1 same
    have listed := lexeme.of_other plain.not_letter plain.not_digit plain.not_quote
    have marked := operators_marked _ listed first rfl
    rw [unmarked] at marked
    exact Bool.false_ne_true marked
  · intro first rest gap same
    obtain rfl := (byte_of_inj gap.head_narrow plain.narrow).1 same
    have blank := gap.head_blank
    rw [show [' ', '\t', '\r', '\n', '{'] = [' ', '\t', '\r', '\n'] ++ ['{'] from rfl,
      List.mem_append, List.mem_singleton] at blank
    exact blank.elim plain.not_space plain.not_brace

theorem wide_stuck {c : Char} {rest : List Char} {first : UInt8} {tail : List UInt8}
    (bytes : charBytes (c :: rest) = first :: tail) (high : 128 ≤ first.toNat) :
    Stuck (LexicalCause.strayByte first).message (c :: rest) := by
  have apart {d : Char} (narrow : d.toNat < 128) : byteOf d ≠ first := by
    rintro rfl
    rw [byte_of_code narrow] at high
    exact absurd narrow (Nat.not_lt.2 high)
  apply stray_stuck
  · rw [bytes, List.head?_cons]
  · exact fun kind d more lexeme => apart lexeme.head_narrow
  · exact fun d more gap => apart gap.head_narrow

theorem single_piece (c : Char) (chars : List Char) (plain : Plain c)
    (stop : ∀ next kind, chars.head? = some next → ([c, next], kind) ∉ operators) :
    FirstPiece (c :: chars) (Piece.single (byteOf c)) := by
  have narrow := plain.narrow
  rw [Piece.single, Piece.mark?, char_of_eq narrow]
  cases found : Piece.marks.lookup c with
  | none => exact .fault _ _ _ (plain_stray plain found chars)
  | some kind =>
      have listed := marks_are_operators _ (mem_of_lookup found)
      have taken := FirstPiece.lexeme kind [c] chars
        ⟨.operator _ _ listed, operator_maximal listed stop, ?_⟩
      · rwa [char_bytes_narrow _ _ narrow] at taken
      · rintro rfl
        exact absurd listed (by simp [operators])

theorem mark_piece (c : Char) (chars : List Char) (plain : Plain c) :
    FirstPiece (c :: chars) (Piece.mark (byteOf c) (charBytes chars)) := by
  have narrow := plain.narrow
  cases chars with
  | nil => exact single_piece c [] plain nofun
  | cons next chars =>
      cases bytes : String.utf8EncodeChar next with
      | nil => exact absurd bytes (encoded_ne_nil next)
      | cons first tail =>
          rw [char_bytes_cons, bytes, List.cons_append, Piece.mark, double_mark_eq narrow bytes]
          cases found : Piece.doubleMarks.lookup (c, next) with
          | none =>
              -- no double mark begins here, so no operator goes on with the next character
              refine single_piece c _ plain ?_
              rintro other kind ⟨⟩ listed
              obtain short | ⟨double, member, same⟩ := double_marks_complete _ listed
              · exact absurd short (by simp)
              · cases same
                exact not_mem_of_lookup found _ member
          | some kind =>
              have member := mem_of_lookup found
              have listed := double_marks_are_operators _ member
              have also := double_marks_narrow _ member
              rw [narrow_bytes next also] at bytes
              cases bytes
              have taken := FirstPiece.lexeme kind [c, next] chars
                ⟨.operator _ _ listed, operator_maximal listed ?_, ?_⟩
              · rwa [char_bytes_narrow _ _ narrow, char_bytes_narrow _ _ also] at taken
              · exact fun other kind _ longer => absurd (operators_short _ longer) (by simp)
              · rintro rfl
                exact absurd listed (by simp [operators])

theorem wide_stray (first : UInt8) (rest : List UInt8) (high : 128 ≤ first.toNat) :
    Piece.first first rest = .fault (.strayByte first) [] := by
  have other (c : Char) (narrow : c.toNat < 128) : Piece.charOf first ≠ c := by
    rintro rfl
    rw [char_of_code] at narrow
    exact absurd narrow (Nat.not_lt.2 high)
  have no_double (next : UInt8) : Piece.doubleMark? first next = none := by
    have narrow : ∀ entry ∈ Piece.doubleMarks, entry.1.1.toNat < 128 := by decide
    rw [Piece.doubleMark?, List.lookup_eq_none_iff]
    intro entry listed
    simp only [bne_iff_ne, ne_eq, Prod.ext_iff, not_and]
    exact fun same => absurd same (other _ (narrow entry listed))
  have no_mark : Piece.mark? first = none := by
    have narrow : ∀ entry ∈ Piece.marks, entry.1.toNat < 128 := by decide
    rw [Piece.mark?, List.lookup_eq_none_iff]
    intro entry listed
    rw [bne_iff_ne]
    exact other _ (narrow entry listed)
  have not_quote : first ≠ Piece.quote := by rintro rfl; exact absurd high (by decide)
  have not_brace : first ≠ Piece.openBrace := by rintro rfl; exact absurd high (by decide)
  rw [Piece.first, if_neg not_quote, digit_class.wide_byte first high,
    letter_class.wide_byte first high, space_class.wide_byte first high, if_neg not_brace]
  cases rest with
  | nil => simp [Piece.mark, Piece.single, no_mark]
  | cons next rest => simp [Piece.mark, Piece.single, no_mark, no_double]

theorem first_piece (c : Char) (chars : List Char) (first : UInt8) (rest : List UInt8)
    (bytes : charBytes (c :: chars) = first :: rest) :
    FirstPiece (c :: chars) (Piece.first first rest) := by
  by_cases narrow : c.toNat < 128
  · rw [char_bytes_narrow c chars narrow] at bytes
    cases bytes
    by_cases quote : c = '\''
    · subst quote
      exact quote_piece chars
    · by_cases brace : c = '{'
      · subst brace
        exact comment_piece chars
      · have not_quote : byteOf c ≠ Piece.quote :=
          mt (byte_of_inj (d := '\'') narrow (by decide)).1 quote
        have not_brace : byteOf c ≠ Piece.openBrace :=
          mt (byte_of_inj (d := '{') narrow (by decide)).1 brace
        rw [Piece.first, if_neg not_quote, digit_class.narrow c narrow,
          letter_class.narrow c narrow, space_class.narrow c narrow, if_neg not_brace]
        -- the questions of the scanner, in its order
        split
        · exact digit_piece c chars ‹_›
        · split
          · exact letter_piece c chars ‹_›
          · split
            · have space : c ∈ [' ', '\t', '\r', '\n'] := of_decide_eq_true ‹_›
              have taken := FirstPiece.gap [c] chars (.blank c [] space .empty)
                (List.cons_ne_nil _ _)
              rwa [char_bytes_narrow _ _ narrow] at taken
            · rename_i not_digit not_letter not_space
              exact mark_piece c chars ⟨narrow, quote, brace, Bool.eq_false_iff.2 not_digit,
                Bool.eq_false_iff.2 not_letter, fun space => not_space (decide_eq_true space)⟩
  · obtain ⟨lead, _, spelled, high⟩ := wide_bytes c (Nat.le_of_not_lt narrow)
    have same : first = lead := by
      rw [char_bytes_cons, spelled] at bytes
      exact (List.cons.inj bytes).1.symm
    have wide : 128 ≤ first.toNat := same ▸ high lead List.mem_cons_self
    rw [wide_stray _ _ wide]
    exact .fault _ _ _ (wide_stuck bytes wide)

end PascalCasl
