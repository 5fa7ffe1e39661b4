import Mathlib.Tactic.Common
import PascalCasl.Proofs.Text.Decimal
import PascalCasl.Token.Basic

/-!
What a lexeme is, said of its characters alone: a reserved word, an identifier,
a run of digits, a quoted string or an operator. The first character of a
lexeme tells which of these it is, so no text is a lexeme in two ways; gaps are
what may stand between lexemes.
-/

namespace PascalCasl

/-- What may stand between the quotes of a string: a quote only next to its
double, no tab and no line feed. -/
inductive StringBody : List Char → Prop
  | empty : StringBody []
  | plain (c : Char) (body : List Char) (plain : c ≠ '\'' ∧ c ≠ '\t' ∧ c ≠ '\n')
      (rest : StringBody body) : StringBody (c :: body)
  | doubled (body : List Char) (rest : StringBody body) : StringBody ('\'' :: '\'' :: body)

theorem StringBody.solid {body : List Char} (inside : StringBody body) :
    '\t' ∉ body ∧ '\n' ∉ body := by
  induction inside with
  | empty => exact ⟨List.not_mem_nil, List.not_mem_nil⟩
  | plain c body plain _ ih =>
      exact ⟨List.not_mem_cons_of_ne_of_not_mem (Ne.symm plain.2.1) ih.1,
        List.not_mem_cons_of_ne_of_not_mem (Ne.symm plain.2.2) ih.2⟩
  | doubled body _ ih => simpa using ih

/-- The operators and separators. The slash is another spelling of `div`. -/
def operators : List (List Char × Kind) :=
  [(['='], .equal), (['<', '>'], .notEqual), (['<'], .less), (['<', '='], .lessEqual),
    (['>', '='], .greaterEqual), (['>'], .greater), (['+'], .plus), (['-'], .minus),
    (['*'], .star), (['/'], .divWord), (['('], .leftParen), ([')'], .rightParen),
    (['['], .leftBracket), ([']'], .rightBracket), ([';'], .semicolon), ([':'], .colon),
    (['.', '.'], .range), ([':', '='], .assign), ([','], .comma), (['.'], .dot)]

inductive Lexeme : Kind → List Char → Prop
  | reserved (word : String) (kind : Kind) (listed : (word, kind) ∈ Kind.reservedWords) :
      Lexeme kind word.toList
  | identifier (first : Char) (rest : List Char) (letter : first.isAlpha)
      (word : ∀ c ∈ rest, c.isAlphanum)
      (free : ∀ kind, (String.ofList (first :: rest), kind) ∉ Kind.reservedWords) :
      Lexeme .identifier (first :: rest)
  | constant (first : Char) (rest : List Char) (digits : ∀ c ∈ first :: rest, c.isDigit) :
      Lexeme .constant (first :: rest)
  | string (body : List Char) (inside : StringBody body) :
      Lexeme .string ('\'' :: (body ++ ['\'']))
  | operator (mark : List Char) (kind : Kind) (listed : (mark, kind) ∈ operators) :
      Lexeme kind mark

/-- Blanks, line endings and closed comments. -/
inductive Gap : List Char → Prop
  | empty : Gap []
  | blank (c : Char) (rest : List Char) (space : c ∈ [' ', '\t', '\r', '\n']) (more : Gap rest) :
      Gap (c :: rest)
  | comment (inside rest : List Char) (closing : '}' ∉ inside) (more : Gap rest) :
      Gap ('{' :: (inside ++ '}' :: rest))

theorem Gap.append {left right : List Char} (before : Gap left) (after : Gap right) :
    Gap (left ++ right) := by
  induction before with
  | empty => exact after
  | blank c rest space _ ih => exact .blank c _ space ih
  | comment inside rest closing _ ih =>
      rw [List.cons_append, List.append_assoc]
      exact .comment inside _ closing ih

theorem reserved_of_letters :
    ∀ entry ∈ Kind.reservedWords, ∃ first rest, entry.1.toList = first :: rest ∧
      first.isAlpha ∧ ∀ c ∈ rest, c.isAlphanum := by
  have spelled : Kind.reservedWords.all (fun entry =>
      !entry.1.toList.isEmpty && entry.1.toList.all Char.isAlpha) = true := by decide
  intro entry listed
  have letters := List.all_eq_true.1 spelled entry listed
  cases word : entry.1.toList with
  | nil => simp [word] at letters
  | cons first rest =>
      rw [word, Bool.and_eq_true, List.all_eq_true] at letters
      refine ⟨first, rest, rfl, letters.2 first List.mem_cons_self, ?_⟩
      intro c among
      simp [Char.isAlphanum, letters.2 c (List.mem_cons_of_mem first among)]

theorem of_spelling_reserved : ∀ entry ∈ Kind.reservedWords, Kind.ofSpelling entry.1 = entry.2 := by
  decide

theorem of_spelling_free {word : String} (free : ∀ kind, (word, kind) ∉ Kind.reservedWords) :
    Kind.ofSpelling word = .identifier := by
  have absent : Kind.reservedWords.lookup word = none := by
    rw [List.lookup_eq_none_iff]
    intro entry listed
    by_contra same
    have named : word = entry.1 := by simpa using same
    exact free entry.2 (named ▸ listed)
  rw [Kind.ofSpelling, absent, Option.getD_none]

theorem of_spelling_word (word : String) :
    Kind.ofSpelling word ≠ .string ∧ Kind.ofSpelling word ≠ .endOfInput := by
  have listed : ∀ entry ∈ Kind.reservedWords, entry.2 ≠ .string ∧ entry.2 ≠ .endOfInput := by decide
  by_cases reserved : ∃ kind, (word, kind) ∈ Kind.reservedWords
  · obtain ⟨kind, found⟩ := reserved
    rw [of_spelling_reserved _ found]
    exact listed _ found
  · rw [of_spelling_free (not_exists.1 reserved)]
    exact ⟨nofun, nofun⟩

theorem operator_heads : ∀ entry ∈ operators, ∀ first ∈ entry.1.head?,
    first.isAlpha = false ∧ first.isDigit = false ∧ first ≠ '\'' := by
  have heads : operators.all (fun entry => entry.1.head?.all fun first =>
      !first.isAlpha && !first.isDigit && first != '\'') = true := by decide
  intro entry listed first head
  have apart := List.all_eq_true.1 heads entry listed
  rw [Option.mem_def.1 head] at apart
  simpa [and_assoc] using apart

theorem operators_written : ∀ entry ∈ operators, entry.1 ≠ [] := by decide

theorem operators_short : ∀ entry ∈ operators, entry.1.length ≤ 2 := by decide

theorem operators_distinct : ∀ entry ∈ operators, ∀ other ∈ operators,
    entry.1 = other.1 → entry.2 = other.2 := by decide

theorem letter_eq (c : Char) :
    c.isAlpha = (65 ≤ c.toNat && c.toNat ≤ 90 || 97 ≤ c.toNat && c.toNat ≤ 122) := by
  delta Char.isAlpha Char.isUpper Char.isLower
  simp [UInt32.le_iff_toNat_le]

theorem not_letter_of_digit {c : Char} (digit : c.isDigit) : c.isAlpha = false := by
  have code := Text.digit_code digit
  simp [letter_eq]
  omega

namespace Lexeme

variable {kind : Kind} {first : Char} {rest : List Char}

/-- The four classes of lexemes. A reserved word is a word like any other, its
kind the one of its spelling. -/
theorem shape (lexeme : Lexeme kind (first :: rest)) :
    (first.isAlpha ∧ (∀ c ∈ rest, c.isAlphanum) ∧
      kind = Kind.ofSpelling (String.ofList (first :: rest))) ∨
    (first.isDigit ∧ (∀ c ∈ rest, c.isDigit) ∧ kind = .constant) ∨
    (first = '\'' ∧ kind = .string ∧ ∃ body, StringBody body ∧ rest = body ++ ['\'']) ∨
    (first :: rest, kind) ∈ operators := by
  generalize spelling : first :: rest = text at lexeme
  cases lexeme with
  | reserved word kind listed =>
      obtain ⟨_, _, spelled, letter, letters⟩ := reserved_of_letters _ listed
      cases spelling.trans spelled
      rw [String.ofList_toList]
      exact .inl ⟨letter, letters, (of_spelling_reserved _ listed).symm⟩
  | identifier _ _ letter word free =>
      cases spelling
      exact .inl ⟨letter, word, (of_spelling_free free).symm⟩
  | constant _ _ digits =>
      cases spelling
      exact .inr (.inl ⟨digits first List.mem_cons_self,
        fun c among => digits c (List.mem_cons_of_mem first among), rfl⟩)
  | string body inside =>
      cases spelling
      exact .inr (.inr (.inl ⟨rfl, rfl, body, inside, rfl⟩))
  | operator mark kind listed => exact .inr (.inr (.inr listed))

theorem of_letter (lexeme : Lexeme kind (first :: rest)) (letter : first.isAlpha) :
    (∀ c ∈ rest, c.isAlphanum) ∧ kind = Kind.ofSpelling (String.ofList (first :: rest)) := by
  obtain ⟨_, word⟩ | ⟨digit, _⟩ | ⟨rfl, _⟩ | listed := lexeme.shape
  · exact word
  · exact absurd letter (by simp [not_letter_of_digit digit])
  · exact absurd letter (by decide)
  · exact absurd letter (by simp [operator_heads _ listed first rfl])

theorem of_digit (lexeme : Lexeme kind (first :: rest)) (digit : first.isDigit) :
    (∀ c ∈ rest, c.isDigit) ∧ kind = .constant := by
  obtain ⟨letter, _⟩ | ⟨_, digits⟩ | ⟨rfl, _⟩ | listed := lexeme.shape
  · exact absurd letter (by simp [not_letter_of_digit digit])
  · exact digits
  · exact absurd digit (by decide)
  · exact absurd digit (by simp [operator_heads _ listed first rfl])

theorem of_quote (lexeme : Lexeme kind ('\'' :: rest)) :
    kind = .string ∧ ∃ body, StringBody body ∧ rest = body ++ ['\''] := by
  obtain ⟨letter, _⟩ | ⟨digit, _⟩ | ⟨_, string⟩ | listed := lexeme.shape
  · exact absurd letter (by decide)
  · exact absurd digit (by decide)
  · exact string
  · exact absurd rfl (operator_heads _ listed '\'' rfl).2.2

theorem of_other (lexeme : Lexeme kind (first :: rest)) (not_letter : first.isAlpha = false)
    (not_digit : first.isDigit = false) (not_quote : first ≠ '\'') :
    (first :: rest, kind) ∈ operators := by
  obtain ⟨letter, _⟩ | ⟨digit, _⟩ | ⟨quote, _⟩ | listed := lexeme.shape
  · exact absurd letter (by simp [not_letter])
  · exact absurd digit (by simp [not_digit])
  · exact absurd quote not_quote
  · exact listed

theorem ne_nil {text : List Char} (lexeme : Lexeme kind text) : text ≠ [] := by
  cases lexeme with
  | reserved word kind listed =>
      obtain ⟨_, _, spelled, _⟩ := reserved_of_letters _ listed
      exact spelled ▸ List.cons_ne_nil _ _
  | identifier => exact List.cons_ne_nil _ _
  | constant => exact List.cons_ne_nil _ _
  | string => exact List.cons_ne_nil _ _
  | operator mark kind listed => exact operators_written _ listed

theorem kind_unique {text : List Char} {other : Kind} (lexeme : Lexeme kind text)
    (also : Lexeme other text) : kind = other := by
  obtain ⟨first, rest, rfl⟩ := List.exists_cons_of_ne_nil lexeme.ne_nil
  obtain ⟨letter, _, spelled⟩ | ⟨digit, _, spelled⟩ | ⟨rfl, spelled, _⟩ | listed := lexeme.shape
  · rw [spelled, (also.of_letter letter).2]
  · rw [spelled, (also.of_digit digit).2]
  · rw [spelled, also.of_quote.1]
  · obtain ⟨not_letter, not_digit, not_quote⟩ := operator_heads _ listed first rfl
    exact operators_distinct _ listed _ (also.of_other not_letter not_digit not_quote) rfl

theorem ne_end {text : List Char} (lexeme : Lexeme kind text) : kind ≠ .endOfInput := by
  have listed : ∀ entry ∈ operators, entry.2 ≠ .endOfInput := by decide
  obtain ⟨first, rest, rfl⟩ := List.exists_cons_of_ne_nil lexeme.ne_nil
  obtain ⟨_, _, rfl⟩ | ⟨_, _, rfl⟩ | ⟨_, rfl, _⟩ | mark := lexeme.shape
  · exact (of_spelling_word _).2
  · exact nofun
  · exact nofun
  · exact listed _ mark

theorem solid {text : List Char} (lexeme : Lexeme kind text) : '\t' ∉ text ∧ '\n' ∉ text := by
  have alphanumeric (word : List Char) (members : ∀ c ∈ word, c.isAlphanum) :
      '\t' ∉ word ∧ '\n' ∉ word :=
    ⟨fun among => absurd (members _ among) (by decide),
      fun among => absurd (members _ among) (by decide)⟩
  have listed : ∀ entry ∈ operators, '\t' ∉ entry.1 ∧ '\n' ∉ entry.1 := by decide
  obtain ⟨first, rest, rfl⟩ := List.exists_cons_of_ne_nil lexeme.ne_nil
  obtain ⟨letter, word, _⟩ | ⟨digit, digits, _⟩ | ⟨rfl, _, body, inside, rfl⟩ | mark := lexeme.shape
  · apply alphanumeric
    intro c among
    rcases List.mem_cons.1 among with rfl | among
    · simp [Char.isAlphanum, letter]
    · exact word c among
  · apply alphanumeric
    intro c among
    rcases List.mem_cons.1 among with rfl | among
    · simp [Char.isAlphanum, digit]
    · simp [Char.isAlphanum, digits c among]
  · have plain := inside.solid
    simp [plain]
  · exact listed _ mark

theorem of_word (letter : first.isAlpha) (word : ∀ c ∈ rest, c.isAlphanum) :
    Lexeme (Kind.ofSpelling (String.ofList (first :: rest))) (first :: rest) := by
  by_cases listed : ∃ kind, (String.ofList (first :: rest), kind) ∈ Kind.reservedWords
  · obtain ⟨kind, listed⟩ := listed
    have spelled := Lexeme.reserved _ kind listed
    rw [String.toList_ofList] at spelled
    rw [of_spelling_reserved _ listed]
    exact spelled
  · have free := not_exists.1 listed
    rw [of_spelling_free free]
    exact .identifier first rest letter word free

end Lexeme

/-! A lexeme stops where its class stops: what follows begins no longer one. -/

/-- No longer beginning of the text is a lexeme. -/
def Maximal (text after : List Char) : Prop :=
  ∀ more kind, more <+: after → Lexeme kind (text ++ more) → more = []

theorem maximal_of_head {text after : List Char} (stops : ∀ next kind rest, after.head? = some next →
    ¬ Lexeme kind (text ++ next :: rest)) : Maximal text after := by
  rintro (_ | ⟨next, rest⟩) kind leading lexeme
  · rfl
  · obtain ⟨tail, rfl⟩ := leading
    exact absurd lexeme (stops next kind rest rfl)

theorem word_maximal {first : Char} {rest after : List Char} (letter : first.isAlpha)
    (stop : ∀ next, after.head? = some next → next.isAlphanum = false) :
    Maximal (first :: rest) after := by
  refine maximal_of_head fun next kind more head lexeme => ?_
  have member := (lexeme.of_letter letter).1 next (by simp)
  rw [stop next head] at member
  exact Bool.false_ne_true member

theorem digits_maximal {first : Char} {rest after : List Char} (digit : first.isDigit)
    (stop : ∀ next, after.head? = some next → next.isDigit = false) :
    Maximal (first :: rest) after := by
  refine maximal_of_head fun next kind more head lexeme => ?_
  have member := (lexeme.of_digit digit).1 next (by simp)
  rw [stop next head] at member
  exact Bool.false_ne_true member

/-- Two strings that begin alike end alike, unless the first one ends where the
other goes on with a doubled quote. -/
theorem string_body_closes {body other more : List Char} (inside : StringBody body)
    (longer : StringBody other) (same : body ++ '\'' :: more = other ++ ['\''])
    (closed : more.head? ≠ some '\'') : more = [] := by
  -- the longer body has to go on like the shorter one up to the quote that closes this one
  induction inside generalizing other with
  | empty =>
      cases longer with
      | empty => simpa using same
      | plain c other plain _ =>
          have quote : '\'' = c := by simpa using congrArg List.head? same
          exact absurd quote.symm plain.1
      | doubled other _ =>
          -- the closing quote would be the first of two, which the text after it excludes
          rw [List.nil_append, List.cons_append, List.cons_append] at same
          obtain ⟨_, rfl⟩ := List.cons.inj same
          exact absurd rfl closed
  | plain c body plain _ ih =>
      cases longer with
      | empty =>
          have quote : c = '\'' := by simpa using congrArg List.head? same
          exact absurd quote plain.1
      | plain d other _ rest => exact ih rest (List.cons.inj same).2
      | doubled other _ =>
          have quote : c = '\'' := by simpa using congrArg List.head? same
          exact absurd quote plain.1
  | doubled body _ ih =>
      cases longer with
      | empty => simp at same
      | plain c other plain _ =>
          have quote : '\'' = c := by simpa using congrArg List.head? same
          exact absurd quote.symm plain.1
      | doubled other rest => exact ih rest (List.cons.inj (List.cons.inj same).2).2

theorem string_maximal {body after : List Char} (inside : StringBody body)
    (closed : after.head? ≠ some '\'') : Maximal ('\'' :: (body ++ ['\''])) after := by
  refine maximal_of_head fun next kind more head lexeme => ?_
  rw [List.cons_append] at lexeme
  obtain ⟨_, other, longer, same⟩ := lexeme.of_quote
  rw [List.append_assoc, List.singleton_append] at same
  refine absurd (string_body_closes inside longer same ?_) (List.cons_ne_nil _ _)
  exact fun quote => closed (head.trans quote)

theorem operator_maximal {text after : List Char} {kind : Kind} (listed : (text, kind) ∈ operators)
    (stop : ∀ next kind, after.head? = some next → (text ++ [next], kind) ∉ operators) :
    Maximal text after := by
  refine maximal_of_head fun next other more head lexeme => ?_
  obtain ⟨first, rest, rfl⟩ := List.exists_cons_of_ne_nil (operators_written _ listed)
  obtain ⟨not_letter, not_digit, not_quote⟩ := operator_heads _ listed first rfl
  rw [List.cons_append] at lexeme
  have longer := Lexeme.of_other lexeme not_letter not_digit not_quote
  -- a lexeme of two characters takes in the next one and no more
  have short := operators_short _ longer
  simp only [List.length_append, List.length_cons] at short
  obtain rfl : rest = [] := List.eq_nil_of_length_eq_zero (by omega)
  obtain rfl : more = [] := List.eq_nil_of_length_eq_zero (by omega)
  exact stop next other head longer

end PascalCasl
