import PascalCasl.Proofs.Grammar.Outcome

/-!
What is read is derived: the tokens that a reader takes are a phrase of the
tree it gives.
-/

namespace PascalCasl.Grammar

variable {α : Type}

/-! The tables of the readers are those of the grammar. -/

theorem relation_mark {kind : Kind} {op : BinaryOp} :
    relation? kind = some op ↔ RelationMark kind op := by
  constructor
  · intro found
    cases kind <;> simp only [relation?, Option.some.injEq, reduceCtorEq] at found <;>
      subst found <;> constructor
  · intro marked
    cases marked <;> rfl

theorem sum_mark {kind : Kind} {op : BinaryOp} : sum? kind = some op ↔ SumMark kind op := by
  constructor
  · intro found
    cases kind <;> simp only [sum?, Option.some.injEq, reduceCtorEq] at found <;>
      subst found <;> constructor
  · intro marked
    cases marked <;> rfl

theorem product_mark {kind : Kind} {op : BinaryOp} :
    product? kind = some op ↔ ProductMark kind op := by
  constructor
  · intro found
    cases kind <;> simp only [product?, Option.some.injEq, reduceCtorEq] at found <;>
      subst found <;> constructor
  · intro marked
    cases marked <;> rfl

theorem sign_mark {kind : Kind} {op : UnaryOp} : sign? kind = some op ↔ SignMark kind op := by
  constructor
  · intro found
    cases kind <;> simp only [sign?, Option.some.injEq, reduceCtorEq] at found <;>
      subst found <;> constructor
  · intro marked
    cases marked <;> rfl

theorem standard_type_word {kind : Kind} {type : StandardType} :
    standardType? kind = some type ↔ StandardTypeWord kind type := by
  constructor
  · intro found
    cases kind <;> simp only [standardType?, Option.some.injEq, reduceCtorEq] at found <;>
      subst found <;> constructor
  · intro named
    cases named <;> rfl

theorem literal_value_numeral {text : String} {value : Nat} :
    Text.literalValue? text.toList = some value ↔ Numeral text value := by
  simp only [Text.literalValue?, Text.digitsValue?, Text.isDigits, Numeral]
  by_cases digits : text.toList ≠ [] ∧ ∀ c ∈ text.toList, c.isDigit = true
  · have accepted : (!text.toList.isEmpty && text.toList.all Char.isDigit) = true := by
      simpa using digits
    simp only [accepted, ↓reduceIte, Option.map_some, Option.some.injEq]
    constructor
    · intro same
      exact ⟨digits.1, digits.2, same.symm⟩
    · intro numeral
      exact numeral.2.2.symm
  · have refused : ¬ (!text.toList.isEmpty && text.toList.all Char.isDigit) = true := by
      simpa using digits
    simp only [refused, Bool.false_eq_true, ↓reduceIte, Option.map_none, reduceCtorEq, false_iff]
    exact fun numeral => digits ⟨numeral.1, numeral.2.1⟩

theorem unquoted_text {text content : String} :
    Text.unquoted? text = some content ↔ QuotedText text content := by
  simp only [Text.unquoted?, QuotedText]
  cases text.toList with
  | nil => simp
  | cons first rest =>
      by_cases opens : first = Text.quoteMark
      · cases last : rest.getLast? with
        | none =>
            have empty : rest = [] := List.getLast?_eq_none_iff.mp last
            simp [empty]
        | some final =>
            obtain ⟨inner, rfl⟩ := List.getLast?_eq_some_iff.mp last
            by_cases closes : final = Text.quoteMark
            · subst opens closes
              simp [eq_comm]
            · simp [closes]
      · simp [opens]

theorem value_of_ok {value? : Option α} {numeral : Token} {rest : List Token} {value : α} :
    valueOf value? numeral rest = .ok value ↔ value? = some value := by
  cases value? with
  | none => simp [valueOf]
  | some found => simp [valueOf]

/-- Whatever was read stands at the head of the input as a phrase of its value. -/
def Derived (phrase : List Token → α → Prop) (input : List Token)
    (outcome : Except Failure (α × List Token)) : Prop :=
  ∀ value rest, outcome = .ok (value, rest) → ∃ taken, input = taken ++ rest ∧ phrase taken value

/-- Readers that derive what they read from inputs below a length. -/
def DerivedBelow (bound : Nat) (phrase : List Token → α → Prop)
    (reader : List Token → Except Failure (α × List Token)) : Prop :=
  ∀ input, input.length < bound → Derived phrase input (reader input)

section Lists

theorem more_items_derived {bound : Nat} {separator : Kind} {phrase : List Token → α → Prop}
    {item : Reader α} (sound : DerivedBelow bound phrase fun input => (item input).outcome)
    (input : List Token) (short : input.length ≤ bound) (values : List α) (rest : List Token)
    (read : (moreItems separator item input).outcome = .ok (values, rest)) :
    ∃ taken, input = taken ++ rest ∧ ∀ before value, phrase before value →
      Separated separator phrase (before ++ taken) (value :: values) := by
  -- The rest shrinks with every separator, so the induction is on the length.
  induction size : input.length using Nat.strongRecOn generalizing input values rest with
  | ind size ih =>
      rw [moreItems_outcome] at read
      cases input with
      | nil =>
          simp only [Except.ok.injEq, Prod.mk.injEq] at read
          obtain ⟨rfl, rfl⟩ := read
          exact ⟨[], rfl, fun before value one => by simpa using Separated.one before value one⟩
      | cons mark more =>
          by_cases marked : mark.kind = separator
          · simp only [marked, ↓reduceIte, except_bind_ok] at read
            obtain ⟨⟨value, middle⟩, first, ⟨others, final⟩, remaining, same⟩ := read
            simp only [Except.ok.injEq, Prod.mk.injEq] at same
            obtain ⟨rfl, rfl⟩ := same
            have shorter := outcome_shorter first
            simp only [List.length_cons] at short size
            obtain ⟨taken, rfl, derived⟩ := sound more (by omega) value middle first
            obtain ⟨tail, rfl, joined⟩ :=
              ih middle.length (by omega) middle (by omega) others final remaining rfl
            refine ⟨mark :: (taken ++ tail), by simp, fun before earlier one => ?_⟩
            exact .more before (taken ++ tail) mark earlier _ one marked (joined taken value derived)
          · simp only [marked, ↓reduceIte, Except.ok.injEq, Prod.mk.injEq] at read
            obtain ⟨rfl, rfl⟩ := read
            exact ⟨[], rfl, fun before value one => by simpa using Separated.one before value one⟩

theorem items_derived {bound : Nat} {separator : Kind} {phrase : List Token → α → Prop}
    {item : Reader α} (sound : DerivedBelow bound phrase fun input => (item input).outcome) :
    DerivedBelow bound (Separated separator phrase)
      fun input => (items separator item input).outcome := by
  intro input short values rest read
  simp only [items_outcome, except_bind_ok] at read
  obtain ⟨⟨value, middle⟩, first, ⟨others, final⟩, remaining, same⟩ := read
  simp only [Except.ok.injEq, Prod.mk.injEq] at same
  obtain ⟨rfl, rfl⟩ := same
  have shorter := outcome_shorter first
  obtain ⟨taken, rfl, derived⟩ := sound input short value middle first
  obtain ⟨tail, rfl, joined⟩ := more_items_derived sound middle (by omega) others final remaining
  exact ⟨taken ++ tail, by simp, joined taken value derived⟩

theorem parenthesised_derived {bound : Nat} {phrase : List Token → List α → Prop}
    {list : Reader (List α)} (sound : DerivedBelow bound phrase fun input => (list input).outcome) :
    DerivedBelow (bound + 1) (Optional phrase) fun input => (parenthesised list input).outcome := by
  intro input short values rest read
  simp only [parenthesised_outcome] at read
  cases input with
  | nil =>
      simp only [Except.ok.injEq, Prod.mk.injEq] at read
      obtain ⟨rfl, rfl⟩ := read
      exact ⟨[], rfl, .absent⟩
  | cons opening more =>
      by_cases opens : opening.kind = .leftParen
      · simp only [opens, ↓reduceIte, except_bind_ok, Prod.exists, token_ok] at read
        obtain ⟨inner, middle, listed, closing, final, ⟨rfl, closes⟩, same⟩ := read
        simp only [Except.ok.injEq, Prod.mk.injEq] at same
        obtain ⟨rfl, rfl⟩ := same
        simp only [List.length_cons] at short
        obtain ⟨taken, rfl, derived⟩ := sound more (by omega) inner _ listed
        exact ⟨opening :: (taken ++ [closing]), by simp,
          .present opening closing taken inner opens derived closes⟩
      · simp only [opens, ↓reduceIte, Except.ok.injEq, Prod.mk.injEq] at read
        obtain ⟨rfl, rfl⟩ := read
        exact ⟨[], rfl, .absent⟩

end Lists

section Expressions

/-- A loop that joins operands to the tree on its left derives a chain. Sums and
products are such loops. -/
theorem chain_derived {bound : Nat} {level lower : Level} {mark? : Kind → Option BinaryOp}
    {loop : Expr → List Token → Except Failure (Expr × List Token)}
    {operand : List Token → Except Failure (Expr × List Token)}
    (unfolded : ∀ left input, loop left input = (match input with
      | [] => .ok (left, [])
      | first :: rest =>
          match mark? first.kind with
          | none => .ok (left, first :: rest)
          | some op => do
              let (right, rest) ← operand rest
              loop (.binary first.line op left right) rest))
    (joined : ∀ left right mark op leftTree rightTree, ExprPhrase level left leftTree →
      mark? mark.kind = some op → ExprPhrase lower right rightTree →
      ExprPhrase level (left ++ mark :: right) (.binary mark.line op leftTree rightTree))
    (operands : DerivedBelow bound (ExprPhrase lower) operand)
    (left : Expr) (input : List Token) (short : input.length ≤ bound) (tree : Expr)
    (rest : List Token) (read : loop left input = .ok (tree, rest)) :
    ∃ taken, input = taken ++ rest ∧
      ∀ before, ExprPhrase level before left → ExprPhrase level (before ++ taken) tree := by
  induction size : input.length using Nat.strongRecOn generalizing left input with
  | ind size ih =>
      rw [unfolded] at read
      cases input with
      | nil =>
          simp only [Except.ok.injEq, Prod.mk.injEq] at read
          obtain ⟨rfl, rfl⟩ := read
          exact ⟨[], rfl, fun before phrase => by simpa using phrase⟩
      | cons mark more =>
          cases marked : mark? mark.kind with
          | none =>
              simp only [marked, Except.ok.injEq, Prod.mk.injEq] at read
              obtain ⟨rfl, rfl⟩ := read
              exact ⟨[], rfl, fun before phrase => by simpa using phrase⟩
          | some op =>
              simp only [marked, except_bind_ok] at read
              obtain ⟨⟨right, middle⟩, first, remaining⟩ := read
              simp only [List.length_cons] at short size
              obtain ⟨taken, rfl, derived⟩ := operands more (by omega) right middle first
              simp only [List.length_append] at short size
              -- the left tree grows each round, so the rest is derived for any phrase of it
              obtain ⟨tail, rfl, extended⟩ :=
                ih middle.length (by omega) _ middle (by omega) remaining rfl
              refine ⟨mark :: (taken ++ tail), by simp, fun before phrase => ?_⟩
              have chain := extended _ (joined before taken mark op left right phrase marked derived)
              simpa using chain

theorem term_derived {bound : Nat}
    (factors : DerivedBelow bound (ExprPhrase .factor) fun input => (factor input).outcome) :
    DerivedBelow bound (ExprPhrase .term) fun input => (term input).outcome := by
  intro input short tree rest read
  simp only [term_outcome, except_bind_ok, Prod.exists] at read
  obtain ⟨first, middle, started, remaining⟩ := read
  have shorter := outcome_shorter started
  obtain ⟨taken, rfl, derived⟩ := factors input short first middle started
  obtain ⟨tail, rfl, extended⟩ := chain_derived products_outcome
    (fun left right mark op leftTree rightTree chain marked last =>
      .product left right mark op leftTree rightTree chain (product_mark.mp marked) last)
    factors first middle (by omega) tree rest remaining
  exact ⟨taken ++ tail, by simp, extended taken (.ofFactor taken first derived)⟩

theorem simple_derived {bound : Nat}
    (terms : DerivedBelow bound (ExprPhrase .term) fun input => (term input).outcome) :
    DerivedBelow bound (ExprPhrase .simple) fun input => (simple input).outcome := by
  -- What follows the first term, whether or not it is signed.
  have chained : ∀ first middle tree rest, middle.length ≤ bound →
      (sums first middle).outcome = .ok (tree, rest) → ∃ tail, middle = tail ++ rest ∧
        ∀ before, ExprPhrase .simple before first → ExprPhrase .simple (before ++ tail) tree :=
    fun first middle tree rest short remaining => chain_derived sums_outcome
      (fun left right mark op leftTree rightTree chain marked last =>
        .sum left right mark op leftTree rightTree chain (sum_mark.mp marked) last)
      terms first middle short tree rest remaining
  intro input short tree rest read
  simp only [simple_outcome] at read
  cases input with
  | nil => simp at read
  | cons first more =>
      simp only [List.length_cons] at short
      cases marked : sign? first.kind with
      | some op =>
          simp only [marked, except_bind_ok, Prod.exists] at read
          obtain ⟨operand, middle, started, remaining⟩ := read
          have shorter := outcome_shorter started
          obtain ⟨taken, rfl, derived⟩ := terms more (by omega) operand middle started
          obtain ⟨tail, rfl, extended⟩ := chained _ middle tree rest (by omega) remaining
          exact ⟨first :: taken ++ tail, by simp,
            extended (first :: taken) (.signed first op taken operand (sign_mark.mp marked) derived)⟩
      | none =>
          simp only [marked, except_bind_ok, Prod.exists] at read
          obtain ⟨operand, middle, started, remaining⟩ := read
          have shorter := outcome_shorter started
          simp only [List.length_cons] at shorter
          obtain ⟨taken, same, derived⟩ :=
            terms (first :: more) (by simpa using short) operand middle started
          obtain ⟨tail, rfl, extended⟩ := chained _ middle tree rest (by omega) remaining
          exact ⟨taken ++ tail, by simp [same], extended taken (.ofTerm taken operand derived)⟩

theorem expr_derived_of_simple {bound : Nat}
    (simples : DerivedBelow bound (ExprPhrase .simple) fun input => (simple input).outcome) :
    DerivedBelow bound (ExprPhrase .expr) fun input => (expr input).outcome := by
  intro input short tree rest read
  simp only [expr_outcome, except_bind_ok, Prod.exists] at read
  obtain ⟨left, middle, started, remaining⟩ := read
  have shorter := outcome_shorter started
  obtain ⟨taken, rfl, derived⟩ := simples input short left middle started
  cases middle with
  | nil =>
      simp only [Except.ok.injEq, Prod.mk.injEq] at remaining
      obtain ⟨rfl, rfl⟩ := remaining
      exact ⟨taken, rfl, .ofSimple taken left derived⟩
  | cons mark more =>
      cases marked : relation? mark.kind with
      | none =>
          simp only [marked, Except.ok.injEq, Prod.mk.injEq] at remaining
          obtain ⟨rfl, rfl⟩ := remaining
          exact ⟨taken, rfl, .ofSimple taken left derived⟩
      | some op =>
          simp only [marked, except_bind_ok, Prod.exists, Except.ok.injEq, Prod.mk.injEq] at remaining
          obtain ⟨right, final, second, rfl, rfl⟩ := remaining
          simp only [List.length_cons] at shorter
          obtain ⟨tail, rfl, derivedRight⟩ := simples more (by omega) right final second
          exact ⟨taken ++ mark :: tail, by simp, .relation taken tail mark op left right derived
            (relation_mark.mp marked) derivedRight⟩

theorem expr_derived_below {bound : Nat}
    (factors : DerivedBelow bound (ExprPhrase .factor) fun input => (factor input).outcome) :
    DerivedBelow bound (ExprPhrase .expr) fun input => (expr input).outcome :=
  expr_derived_of_simple (simple_derived (term_derived factors))

theorem index_derived {bound : Nat}
    (exprs : DerivedBelow bound (ExprPhrase .expr) fun input => (expr input).outcome)
    (input : List Token) (short : input.length ≤ bound) (index? : Option Expr) (rest : List Token)
    (read : (index input).outcome = .ok (index?, rest)) :
    (index? = none ∧ input = rest) ∨ ∃ opening inner closing tree,
      index? = some tree ∧ input = opening :: (inner ++ closing :: rest) ∧
      opening.kind = .leftBracket ∧ ExprPhrase .expr inner tree ∧ closing.kind = .rightBracket := by
  rw [index_outcome] at read
  cases input with
  | nil =>
      simp only [Except.ok.injEq, Prod.mk.injEq] at read
      exact .inl ⟨read.1.symm, read.2⟩
  | cons opening more =>
      by_cases opens : opening.kind = .leftBracket
      · simp only [opens, ↓reduceIte, except_bind_ok, Prod.exists, token_ok, Except.ok.injEq,
          Prod.mk.injEq] at read
        obtain ⟨tree, middle, within, closing, final, ⟨rfl, closes⟩, rfl, rfl⟩ := read
        simp only [List.length_cons] at short
        obtain ⟨inner, rfl, derived⟩ := exprs more (by omega) tree _ within
        exact .inr ⟨opening, inner, closing, tree, rfl, rfl, opens, derived, closes⟩
      · simp only [opens, ↓reduceIte, Except.ok.injEq, Prod.mk.injEq] at read
        exact .inl ⟨read.1.symm, read.2⟩

theorem factor_derived_step {bound : Nat}
    (factors : DerivedBelow bound (ExprPhrase .factor) fun input => (factor input).outcome) :
    DerivedBelow (bound + 1) (ExprPhrase .factor) fun input => (factor input).outcome := by
  have exprs := expr_derived_below factors
  intro input short tree rest read
  dsimp only at read
  rw [factor_outcome] at read
  cases input with
  | nil => simp at read
  | cons first more =>
      simp only [List.length_cons, Nat.add_lt_add_iff_right] at short
      dsimp only at read
      split at read
      · next isName =>
          simp only [except_bind_ok, Prod.exists, Except.ok.injEq, Prod.mk.injEq] at read
          obtain ⟨index?, final, indexed, rfl, rfl⟩ := read
          obtain ⟨rfl, rfl⟩ | ⟨opening, inner, closing, tree, rfl, rfl, opens, within, closes⟩ :=
            index_derived exprs more (Nat.le_of_lt short) index? final indexed
          · exact ⟨[first], rfl, .name first isName⟩
          · exact ⟨first :: opening :: (inner ++ [closing]), by simp,
              .element first opening closing inner tree isName opens within closes⟩
      · next opens =>
          simp only [except_bind_ok, Prod.exists, token_ok, Except.ok.injEq, Prod.mk.injEq] at read
          obtain ⟨inner, middle, within, closing, final, ⟨rfl, closes⟩, rfl, rfl⟩ := read
          obtain ⟨taken, rfl, derived⟩ := exprs more short inner _ within
          exact ⟨first :: (taken ++ [closing]), by simp,
            .parenthesised first closing taken inner opens derived closes⟩
      · next isNot =>
          simp only [except_bind_ok, Prod.exists, Except.ok.injEq, Prod.mk.injEq] at read
          obtain ⟨operand, final, applied, rfl, rfl⟩ := read
          obtain ⟨taken, rfl, derived⟩ := factors more short operand final applied
          exact ⟨first :: taken, rfl, .negation first taken operand isNot derived⟩
      · next isConstant =>
          simp only [except_bind_ok, value_of_ok, Except.ok.injEq, Prod.mk.injEq] at read
          obtain ⟨value, valued, rfl, rfl⟩ := read
          exact ⟨[first], rfl, .number first value isConstant (literal_value_numeral.mp valued)⟩
      · next isString =>
          simp only [except_bind_ok, value_of_ok, Except.ok.injEq, Prod.mk.injEq] at read
          obtain ⟨content, valued, rfl, rfl⟩ := read
          exact ⟨[first], rfl, .string first content isString (unquoted_text.mp valued)⟩
      · next isTrue =>
          simp only [Except.ok.injEq, Prod.mk.injEq] at read
          obtain ⟨rfl, rfl⟩ := read
          exact ⟨[first], rfl, .trueValue first isTrue⟩
      · next isFalse =>
          simp only [Except.ok.injEq, Prod.mk.injEq] at read
          obtain ⟨rfl, rfl⟩ := read
          exact ⟨[first], rfl, .falseValue first isFalse⟩
      · simp at read

theorem factor_derived (bound : Nat) :
    DerivedBelow bound (ExprPhrase .factor) fun input => (factor input).outcome := by
  induction bound with
  | zero => exact fun input short => absurd short (Nat.not_lt_zero _)
  | succ bound ih => exact factor_derived_step ih

theorem expr_derived (bound : Nat) :
    DerivedBelow bound (ExprPhrase .expr) fun input => (expr input).outcome :=
  expr_derived_below (factor_derived bound)

theorem target_derived (bound : Nat) :
    DerivedBelow bound TargetPhrase fun input => (target input).outcome := by
  intro input short tree rest read
  simp only [target_outcome, except_bind_ok, Prod.exists, token_ok, Except.ok.injEq,
    Prod.mk.injEq] at read
  obtain ⟨name, middle, ⟨rfl, isName⟩, index?, final, indexed, rfl, rfl⟩ := read
  obtain ⟨rfl, rfl⟩ | ⟨opening, inner, closing, tree, rfl, rfl, opens, within, closes⟩ :=
    index_derived (expr_derived middle.length) middle (Nat.le_refl _) index? final indexed
  · exact ⟨[name], rfl, .name name isName⟩
  · exact ⟨name :: opening :: (inner ++ [closing]), by simp,
      .element name opening closing inner tree isName opens within closes⟩

end Expressions

section Statements

theorem assignment_derived (bound : Nat) :
    DerivedBelow bound StmtPhrase fun input => (assignment input).outcome := by
  intro input short tree rest read
  simp only [assignment_outcome, except_bind_ok, Prod.exists, token_ok, Except.ok.injEq,
    Prod.mk.injEq] at read
  obtain ⟨assigned, middle, targeted, mark, after, ⟨rfl, marked⟩, value, final, valued, rfl, rfl⟩ :=
    read
  obtain ⟨left, rfl, target⟩ := target_derived bound input short assigned _ targeted
  obtain ⟨right, rfl, source⟩ := expr_derived _ after (Nat.lt_succ_self _) value final valued
  exact ⟨left ++ mark :: right, by simp,
    .assign left right mark assigned value target marked source⟩

theorem call_derived (bound : Nat) :
    DerivedBelow bound StmtPhrase fun input => (call input).outcome := by
  intro input short tree rest read
  simp only [call_outcome, except_bind_ok, Prod.exists, token_ok, Except.ok.injEq,
    Prod.mk.injEq] at read
  obtain ⟨name, middle, ⟨rfl, isName⟩, arguments, final, listed, rfl, rfl⟩ := read
  obtain ⟨tokens, rfl, derived⟩ := parenthesised_derived (items_derived (expr_derived _)) middle
    (Nat.lt_succ_self _) arguments final listed
  exact ⟨name :: tokens, rfl, .call name tokens arguments isName derived⟩

/-- Blocks with their line, as readers give them. -/
def BlockOf (tokens : List Token) (value : Nat × List Stmt) : Prop :=
  BlockPhrase tokens value.1 value.2

theorem else_part_derived {bound : Nat}
    (blocks : DerivedBelow bound BlockOf fun input => (block input).outcome)
    (input : List Token) (short : input.length ≤ bound) (otherwise? : Option (Nat × List Stmt))
    (rest : List Token) (read : (elsePart input).outcome = .ok (otherwise?, rest)) :
    (otherwise? = none ∧ input = rest) ∨ ∃ word tokens body, otherwise? = some body ∧
      input = word :: (tokens ++ rest) ∧ word.kind = .elseWord ∧ BlockOf tokens body := by
  rw [elsePart_outcome] at read
  cases input with
  | nil =>
      simp only [Except.ok.injEq, Prod.mk.injEq] at read
      exact .inl ⟨read.1.symm, read.2⟩
  | cons word more =>
      by_cases isElse : word.kind = .elseWord
      · simp only [isElse, ↓reduceIte, except_bind_ok, Prod.exists, Except.ok.injEq,
          Prod.mk.injEq] at read
        obtain ⟨line, body, final, blocked, rfl, rfl⟩ := read
        simp only [List.length_cons] at short
        obtain ⟨tokens, rfl, derived⟩ := blocks more (by omega) (line, body) final blocked
        exact .inr ⟨word, tokens, (line, body), rfl, rfl, isElse, derived⟩
      · simp only [isElse, ↓reduceIte, Except.ok.injEq, Prod.mk.injEq] at read
        exact .inl ⟨read.1.symm, read.2⟩

theorem stmt_derived_below {bound : Nat}
    (blocks : DerivedBelow bound BlockOf fun input => (block input).outcome) :
    DerivedBelow bound StmtPhrase fun input => (stmt input).outcome := by
  intro input short tree rest read
  dsimp only at read
  rw [stmt_outcome] at read
  cases input with
  | nil => simp at read
  | cons first more =>
      have shortMore : more.length < bound := Nat.lt_of_succ_lt short
      dsimp only at read
      split at read
      · next isIf =>
          simp only [except_bind_ok, Prod.exists, token_ok, Except.ok.injEq, Prod.mk.injEq] at read
          obtain ⟨condition, _, tested, thenWord, afterThen, ⟨rfl, isThen⟩, thenLine, thenBody,
            afterBlock, thenBlocked, otherwise?, final, otherwise, rfl, rfl⟩ := read
          have shorter := outcome_shorter thenBlocked
          obtain ⟨test, rfl, testPhrase⟩ := expr_derived bound more shortMore condition _ tested
          simp only [List.length_append, List.length_cons] at shortMore
          obtain ⟨thenTokens, rfl, thenPhrase⟩ :=
            blocks afterThen (by omega) (thenLine, thenBody) afterBlock thenBlocked
          obtain ⟨rfl, rfl⟩ | ⟨elseWord, elseTokens, elseBlock, rfl, rfl, isElse, elsePhrase⟩ :=
            else_part_derived blocks afterBlock (by omega) otherwise? final otherwise
          · exact ⟨first :: (test ++ thenWord :: thenTokens), by simp,
              .ifThen first thenWord test thenTokens condition thenLine thenBody isIf testPhrase
                isThen thenPhrase⟩
          · exact ⟨first :: (test ++ thenWord :: (thenTokens ++ elseWord :: elseTokens)), by simp,
              .ifElse first thenWord elseWord test thenTokens elseTokens condition thenLine thenBody
                elseBlock.1 elseBlock.2 isIf testPhrase isThen thenPhrase isElse elsePhrase⟩
      · next isWhile =>
          simp only [except_bind_ok, Prod.exists, token_ok, Except.ok.injEq, Prod.mk.injEq] at read
          obtain ⟨condition, _, tested, doWord, afterDo, ⟨rfl, isDo⟩, bodyLine, body, final, blocked,
            rfl, rfl⟩ := read
          obtain ⟨test, rfl, testPhrase⟩ := expr_derived bound more shortMore condition _ tested
          simp only [List.length_append, List.length_cons] at shortMore
          obtain ⟨tokens, rfl, phrase⟩ := blocks afterDo (by omega) (bodyLine, body) final blocked
          exact ⟨first :: (test ++ doWord :: tokens), by simp,
            .whileDo first doWord test tokens condition bodyLine body isWhile testPhrase isDo phrase⟩
      · -- an identifier begins an assignment or a call
        split at read
        · exact assignment_derived bound (first :: more) short tree rest read
        · exact call_derived bound (first :: more) short tree rest read
      · next isRead =>
          simp only [except_bind_ok, Prod.exists, Except.ok.injEq, Prod.mk.injEq] at read
          obtain ⟨targets, final, listed, rfl, rfl⟩ := read
          obtain ⟨tokens, rfl, derived⟩ := parenthesised_derived
            (items_derived (target_derived bound)) more (by omega) targets final listed
          exact ⟨first :: tokens, rfl, .read first tokens targets isRead derived⟩
      · next isWrite =>
          simp only [except_bind_ok, Prod.exists, Except.ok.injEq, Prod.mk.injEq] at read
          obtain ⟨values, final, listed, rfl, rfl⟩ := read
          obtain ⟨tokens, rfl, derived⟩ := parenthesised_derived
            (items_derived (expr_derived bound)) more (by omega) values final listed
          exact ⟨first :: tokens, rfl, .write first tokens values isWrite derived⟩
      · simp only [except_bind_ok, Prod.exists, Except.ok.injEq, Prod.mk.injEq] at read
        obtain ⟨line, body, final, blocked, rfl, rfl⟩ := read
        obtain ⟨tokens, same, derived⟩ := blocks (first :: more) short (line, body) final blocked
        exact ⟨tokens, same, .block tokens line body derived⟩
      · simp at read

theorem stmts_derived_below {bound : Nat}
    (statements : DerivedBelow bound StmtPhrase fun input => (stmt input).outcome) :
    DerivedBelow bound StmtsPhrase fun input => (stmts input).outcome := by
  intro input short body rest read
  dsimp only at read
  induction size : input.length using Nat.strongRecOn generalizing input body with
  | ind size ih =>
      rw [stmts_outcome] at read
      cases input with
      | nil =>
          simp only [Except.ok.injEq, Prod.mk.injEq] at read
          obtain ⟨rfl, rfl⟩ := read
          exact ⟨[], rfl, .none⟩
      | cons first more =>
          cases starts : startsStatement first.kind with
          | false =>
              simp only [starts, Bool.false_eq_true, ↓reduceIte, Except.ok.injEq, Prod.mk.injEq]
                at read
              obtain ⟨rfl, rfl⟩ := read
              exact ⟨[], rfl, .none⟩
          | true =>
              simp only [starts, ↓reduceIte, except_bind_ok, Prod.exists, token_ok, Except.ok.injEq,
                Prod.mk.injEq] at read
              obtain ⟨statement, _, first, mark, middle, ⟨rfl, ended⟩, others, final, remaining,
                rfl, rfl⟩ := read
              have shorter := outcome_shorter first
              obtain ⟨tokens, same, derived⟩ := statements _ short statement _ first
              simp only [List.length_cons] at shorter size short
              obtain ⟨tail, rfl, more⟩ :=
                ih middle.length (by omega) middle (by omega) others remaining rfl
              exact ⟨tokens ++ mark :: tail, by simp [same],
                .more tokens tail mark statement others derived ended more⟩

theorem block_derived (bound : Nat) :
    DerivedBelow bound BlockOf fun input => (block input).outcome := by
  induction bound with
  | zero => exact fun input short => absurd short (Nat.not_lt_zero _)
  | succ bound ih =>
      intro input short value rest read
      dsimp only at read
      rw [block_outcome] at read
      cases input with
      | nil => simp at read
      | cons first more =>
          by_cases isBegin : first.kind = .beginWord
          · simp only [isBegin, ↓reduceIte, except_bind_ok, Prod.exists, token_ok, Except.ok.injEq,
              Prod.mk.injEq] at read
            obtain ⟨body, _, within, endWord, final, ⟨rfl, isEnd⟩, rfl, rfl⟩ := read
            obtain ⟨tokens, rfl, derived⟩ := stmts_derived_below (stmt_derived_below ih) more
              (Nat.lt_of_succ_lt_succ short) body _ within
            exact ⟨first :: (tokens ++ [endWord]), by simp,
              .block first endWord tokens body isBegin derived isEnd⟩
          · simp [isBegin] at read

end Statements

section Declarations

theorem standard_type_derived {input rest : List Token} {type : StandardType}
    (read : (standardType input).outcome = .ok (type, rest)) :
    ∃ word, input = word :: rest ∧ StandardTypeWord word.kind type := by
  rw [standardType_outcome] at read
  cases input with
  | nil => simp at read
  | cons word more =>
      cases named : standardType? word.kind with
      | none => simp [named] at read
      | some found =>
          simp only [named, Except.ok.injEq, Prod.mk.injEq] at read
          obtain ⟨rfl, rfl⟩ := read
          exact ⟨word, rfl, standard_type_word.mp named⟩

theorem magnitude_derived {input rest : List Token} {value : Nat}
    (read : (magnitude input).outcome = .ok (value, rest)) :
    ∃ numeral, input = numeral :: rest ∧ numeral.kind = .constant ∧
      Numeral numeral.text value := by
  simp only [magnitude_outcome, except_bind_ok, Prod.exists, token_ok, value_of_ok,
    Except.ok.injEq, Prod.mk.injEq] at read
  obtain ⟨numeral, _, ⟨rfl, isConstant⟩, _, valued, rfl, rfl⟩ := read
  exact ⟨numeral, rfl, isConstant, literal_value_numeral.mp valued⟩

theorem bound_derived (input : List Token) : Derived BoundPhrase input (bound input).outcome := by
  intro value rest read
  rw [bound_outcome] at read
  cases input with
  | nil => simp at read
  | cons first more =>
      cases marked : sign? first.kind with
      | none =>
          simp only [marked, except_bind_ok, Prod.exists, Except.ok.injEq, Prod.mk.injEq] at read
          obtain ⟨magnitude, final, measured, rfl, rfl⟩ := read
          obtain ⟨numeral, same, isConstant, valued⟩ := magnitude_derived measured
          exact ⟨[numeral], by simp [same], .unsigned numeral magnitude isConstant valued⟩
      | some sign =>
          simp only [marked, except_bind_ok, Prod.exists, Except.ok.injEq, Prod.mk.injEq] at read
          obtain ⟨magnitude, final, measured, rfl, rfl⟩ := read
          obtain ⟨numeral, rfl, isConstant, valued⟩ := magnitude_derived measured
          refine ⟨[first, numeral], rfl, ?_⟩
          generalize isSign : first.kind = kind at marked
          cases sign_mark.mp marked with
          | plus => exact .positive first numeral magnitude isSign isConstant valued
          | minus => exact .negative first numeral magnitude isSign isConstant valued

theorem type_derived (input : List Token) :
    Derived (fun tokens value => TypePhrase tokens value.1 value.2) input
      (typeSpec input).outcome := by
  intro value rest read
  rw [typeSpec_outcome] at read
  cases input with
  | nil => simp at read
  | cons first more =>
      by_cases isArray : first.kind = .arrayWord
      · simp only [isArray, ↓reduceIte, except_bind_ok, Prod.exists, token_ok, Except.ok.injEq,
          Prod.mk.injEq] at read
        obtain ⟨opening, _, ⟨rfl, opens⟩, low, _, lowest, range, _, ⟨rfl, ranged⟩, high, _, highest,
          closing, _, ⟨rfl, closes⟩, ofWord, _, ⟨rfl, isOf⟩, element, _, named, rfl, rfl⟩ := read
        obtain ⟨lowTokens, rfl, lowPhrase⟩ := bound_derived _ low _ lowest
        obtain ⟨highTokens, rfl, highPhrase⟩ := bound_derived _ high _ highest
        obtain ⟨word, rfl, elementWord⟩ := standard_type_derived named
        exact ⟨first :: opening :: (lowTokens ++ range :: (highTokens ++ [closing, ofWord, word])),
          by simp, .array first opening range closing ofWord word lowTokens highTokens low high
            element isArray opens lowPhrase ranged highPhrase closes isOf elementWord⟩
      · simp only [isArray, ↓reduceIte, except_bind_ok, Prod.exists, Except.ok.injEq,
          Prod.mk.injEq] at read
        obtain ⟨type, final, named, rfl, rfl⟩ := read
        obtain ⟨word, same, typeWord⟩ := standard_type_derived named
        simp only [List.cons.injEq] at same
        obtain ⟨rfl, rfl⟩ := same
        exact ⟨[first], rfl, .standard first type typeWord⟩

theorem names_derived (input : List Token) :
    Derived (Separated .comma NamePhrase) input (names input).outcome := by
  have single : DerivedBelow (input.length + 1) NamePhrase
      fun input => (token .identifier input).outcome := by
    intro input short name rest read
    obtain ⟨rfl, isName⟩ := token_ok.mp read
    exact ⟨[name], rfl, .name name isName⟩
  exact items_derived single input (Nat.lt_succ_self _)

theorem var_group_derived (input : List Token) :
    Derived VarGroupPhrase input (varGroup input).outcome := by
  intro value rest read
  simp only [varGroup_outcome, except_bind_ok, Prod.exists, token_ok, Except.ok.injEq,
    Prod.mk.injEq] at read
  obtain ⟨names, _, listed, colon, _, ⟨rfl, isColon⟩, type, typeLine, _, typed, semicolon, _,
    ⟨rfl, ended⟩, rfl, rfl⟩ := read
  obtain ⟨nameTokens, rfl, namePhrase⟩ := names_derived _ names _ listed
  obtain ⟨typeTokens, rfl, typePhrase⟩ := type_derived _ (type, typeLine) _ typed
  exact ⟨nameTokens ++ colon :: (typeTokens ++ [semicolon]), by simp,
    .group nameTokens typeTokens colon semicolon names type typeLine namePhrase isColon typePhrase
      ended⟩

theorem more_var_groups_derived (input : List Token) (groups : List VarDecl) (rest : List Token)
    (read : (moreVarGroups input).outcome = .ok (groups, rest)) :
    ∃ taken, input = taken ++ rest ∧ ∀ before group, VarGroupPhrase before group →
      VarGroupsPhrase (before ++ taken) (group ++ groups) := by
  induction size : input.length using Nat.strongRecOn generalizing input groups with
  | ind size ih =>
      rw [moreVarGroups_outcome] at read
      cases input with
      | nil =>
          simp only [Except.ok.injEq, Prod.mk.injEq] at read
          obtain ⟨rfl, rfl⟩ := read
          refine ⟨[], rfl, fun before group phrase => ?_⟩
          simpa using VarGroupsPhrase.one before group phrase
      | cons first more =>
          by_cases isName : first.kind = .identifier
          · simp only [isName, ↓reduceIte, except_bind_ok, Prod.exists, Except.ok.injEq,
              Prod.mk.injEq] at read
            obtain ⟨group, middle, grouped, others, final, remaining, rfl, rfl⟩ := read
            have shorter := outcome_shorter grouped
            obtain ⟨taken, same, derived⟩ := var_group_derived _ group middle grouped
            obtain ⟨tail, rfl, joined⟩ := ih middle.length (by omega) middle others remaining rfl
            exact ⟨taken ++ tail, by simp [same], fun before earlier phrase =>
              .more before (taken ++ tail) earlier _ phrase (joined taken group derived)⟩
          · simp only [isName, ↓reduceIte, Except.ok.injEq, Prod.mk.injEq] at read
            obtain ⟨rfl, rfl⟩ := read
            refine ⟨[], rfl, fun before group phrase => ?_⟩
            simpa using VarGroupsPhrase.one before group phrase

theorem vars_derived (input : List Token) : Derived VarsPhrase input (vars input).outcome := by
  intro value rest read
  rw [vars_outcome] at read
  cases input with
  | nil =>
      simp only [Except.ok.injEq, Prod.mk.injEq] at read
      obtain ⟨rfl, rfl⟩ := read
      exact ⟨[], rfl, .none⟩
  | cons word more =>
      by_cases isVar : word.kind = .varWord
      · simp only [isVar, ↓reduceIte, except_bind_ok, Prod.exists, Except.ok.injEq,
          Prod.mk.injEq] at read
        obtain ⟨group, middle, grouped, others, final, remaining, rfl, rfl⟩ := read
        obtain ⟨taken, rfl, derived⟩ := var_group_derived _ group middle grouped
        obtain ⟨tail, rfl, joined⟩ := more_var_groups_derived middle others final remaining
        exact ⟨word :: (taken ++ tail), by simp,
          .declared word (taken ++ tail) _ isVar (joined taken group derived)⟩
      · simp only [isVar, ↓reduceIte, Except.ok.injEq, Prod.mk.injEq] at read
        obtain ⟨rfl, rfl⟩ := read
        exact ⟨[], rfl, .none⟩

theorem param_group_derived (input : List Token) :
    Derived ParamGroupPhrase input (paramGroup input).outcome := by
  intro value rest read
  simp only [paramGroup_outcome, except_bind_ok, Prod.exists, token_ok, Except.ok.injEq,
    Prod.mk.injEq] at read
  obtain ⟨names, _, listed, colon, _, ⟨rfl, isColon⟩, type, _, named, rfl, rfl⟩ := read
  obtain ⟨nameTokens, rfl, namePhrase⟩ := names_derived _ names _ listed
  obtain ⟨word, rfl, typeWord⟩ := standard_type_derived named
  exact ⟨nameTokens ++ [colon, word], by simp,
    .group nameTokens colon word names type namePhrase isColon typeWord⟩

theorem block_of_derived (input : List Token) : Derived BlockOf input (block input).outcome :=
  block_derived (input.length + 1) input (Nat.lt_succ_self _)

theorem procedure_derived (input : List Token) :
    Derived ProcedurePhrase input (procedure input).outcome := by
  intro value rest read
  simp only [procedure_outcome, except_bind_ok, Prod.exists, token_ok, Except.ok.injEq,
    Prod.mk.injEq] at read
  obtain ⟨word, _, ⟨rfl, isProcedure⟩, name, afterName, ⟨rfl, isName⟩, groups, _, grouped,
    semicolon, _, ⟨rfl, ended⟩, vars, _, declared, bodyLine, body, _, blocked, rfl, rfl⟩ := read
  obtain ⟨paramTokens, rfl, paramPhrase⟩ := parenthesised_derived
    (items_derived fun input _ => param_group_derived input) afterName (Nat.lt_succ_self _)
    groups _ grouped
  obtain ⟨varTokens, rfl, varPhrase⟩ := vars_derived _ vars _ declared
  obtain ⟨blockTokens, rfl, blockPhrase⟩ := block_of_derived _ (bodyLine, body) _ blocked
  exact ⟨word :: name :: (paramTokens ++ semicolon :: (varTokens ++ blockTokens)), by simp,
    .procedure word name semicolon paramTokens varTokens blockTokens groups vars bodyLine body
      isProcedure isName paramPhrase ended varPhrase blockPhrase⟩

theorem procedures_derived (input : List Token) :
    Derived ProceduresPhrase input (procedures input).outcome := by
  intro value rest read
  induction size : input.length using Nat.strongRecOn generalizing input value with
  | ind size ih =>
      rw [procedures_outcome] at read
      cases input with
      | nil =>
          simp only [Except.ok.injEq, Prod.mk.injEq] at read
          obtain ⟨rfl, rfl⟩ := read
          exact ⟨[], rfl, .none⟩
      | cons first more =>
          by_cases isProcedure : first.kind = .procedureWord
          · simp only [isProcedure, ↓reduceIte, except_bind_ok, Prod.exists, token_ok,
              Except.ok.injEq, Prod.mk.injEq] at read
            obtain ⟨declared, _, declaring, semicolon, middle, ⟨rfl, ended⟩, others, final,
              remaining, rfl, rfl⟩ := read
            have shorter := outcome_shorter declaring
            simp only [List.length_cons] at shorter size
            obtain ⟨tokens, same, derived⟩ := procedure_derived _ declared _ declaring
            obtain ⟨tail, rfl, joined⟩ := ih middle.length (by omega) middle others remaining rfl
            exact ⟨tokens ++ semicolon :: tail, by simp [same],
              .more tokens tail semicolon declared others derived ended joined⟩
          · simp only [isProcedure, ↓reduceIte, Except.ok.injEq, Prod.mk.injEq] at read
            obtain ⟨rfl, rfl⟩ := read
            exact ⟨[], rfl, .none⟩

theorem program_derived (input : List Token) :
    Derived ProgramPhrase input (program input).outcome := by
  intro value rest read
  simp only [program_outcome, except_bind_ok, Prod.exists, token_ok, Except.ok.injEq,
    Prod.mk.injEq] at read
  obtain ⟨word, _, ⟨rfl, isProgram⟩, name, _, ⟨rfl, isName⟩, semicolon, _, ⟨rfl, ended⟩, vars, _,
    declaredVars, procedures, _, declared, bodyLine, body, _, blocked, dot, _, ⟨rfl, isDot⟩,
    rfl, rfl⟩ := read
  obtain ⟨varTokens, rfl, varPhrase⟩ := vars_derived _ vars _ declaredVars
  obtain ⟨procedureTokens, rfl, procedurePhrase⟩ := procedures_derived _ procedures _ declared
  obtain ⟨blockTokens, rfl, blockPhrase⟩ := block_of_derived _ (bodyLine, body) _ blocked
  exact ⟨word :: name :: semicolon :: (varTokens ++ (procedureTokens ++ (blockTokens ++ [dot]))),
    by simp, .program word name semicolon dot varTokens procedureTokens blockTokens vars procedures
      bodyLine body isProgram isName ended varPhrase procedurePhrase blockPhrase isDot⟩

end Declarations

end PascalCasl.Grammar
