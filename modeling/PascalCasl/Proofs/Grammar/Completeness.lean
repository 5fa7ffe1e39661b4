import PascalCasl.Proofs.Grammar.Soundness

/-!
What is derived is read: a reader takes a phrase as a whole, provided that the
token after it does not continue the phrase.
-/

namespace PascalCasl.Grammar

variable {α : Type}

/-- Whether a token of this kind continues a phrase that stands before it. -/
def continues : Level → Kind → Bool
  | .factor, kind => kind = .leftBracket
  | .term, kind => kind = .leftBracket || (product? kind).isSome
  | .simple, kind => kind = .leftBracket || (product? kind).isSome || (sum? kind).isSome
  | .expr, kind =>
      kind = .leftBracket || (product? kind).isSome || (sum? kind).isSome ||
        (relation? kind).isSome

/-- A phrase is over at the end of the input and before a token that does not
continue it. -/
def Ended (level : Level) : List Token → Prop
  | [] => True
  | next :: _ => continues level next.kind = false

theorem ended_simple_of_expr {rest : List Token} (ended : Ended .expr rest) :
    Ended .simple rest := by
  cases rest with
  | nil => trivial
  | cons next more => simp_all [Ended, continues]

theorem ended_term_of_simple {rest : List Token} (ended : Ended .simple rest) :
    Ended .term rest := by
  cases rest with
  | nil => trivial
  | cons next more => simp_all [Ended, continues]

theorem ended_factor_of_term {rest : List Token} (ended : Ended .term rest) :
    Ended .factor rest := by
  cases rest with
  | nil => trivial
  | cons next more => simp_all [Ended, continues]

theorem ended_product_mark {mark : Token} {op : BinaryOp} {rest : List Token}
    (marked : ProductMark mark.kind op) : Ended .factor (mark :: rest) := by
  generalize isMark : mark.kind = kind at marked
  cases marked <;> simp [Ended, continues, isMark]

theorem ended_sum_mark {mark : Token} {op : BinaryOp} {rest : List Token}
    (marked : SumMark mark.kind op) : Ended .term (mark :: rest) := by
  generalize isMark : mark.kind = kind at marked
  cases marked <;> simp [Ended, continues, isMark, product?]

theorem ended_relation_mark {mark : Token} {op : BinaryOp} {rest : List Token}
    (marked : RelationMark mark.kind op) : Ended .simple (mark :: rest) := by
  generalize isMark : mark.kind = kind at marked
  cases marked <;> simp [Ended, continues, isMark, product?, sum?]

theorem products_ended {tree : Expr} {rest : List Token} (ended : Ended .term rest) :
    (products tree rest).outcome = .ok (tree, rest) := by
  rw [products_outcome]
  cases rest with
  | nil => rfl
  | cons next more =>
      have unmarked : product? next.kind = none := by simp_all [Ended, continues]
      simp [unmarked]

theorem sums_ended {tree : Expr} {rest : List Token} (ended : Ended .simple rest) :
    (sums tree rest).outcome = .ok (tree, rest) := by
  rw [sums_outcome]
  cases rest with
  | nil => rfl
  | cons next more =>
      have unmarked : sum? next.kind = none := by simp_all [Ended, continues]
      simp [unmarked]

/-- Reading a phrase with more tokens after it. Within a chain the loop goes on
from the tree of the phrase. -/
def Read (level : Level) (tokens : List Token) (tree : Expr) : Prop :=
  match level with
  | .factor => ∀ rest, Ended .factor rest →
      (factor (tokens ++ rest)).outcome = .ok (tree, rest)
  | .term => ∀ rest, Ended .factor rest →
      (term (tokens ++ rest)).outcome = (products tree rest).outcome
  | .simple => ∀ rest, Ended .term rest →
      (simple (tokens ++ rest)).outcome = (sums tree rest).outcome
  | .expr => ∀ rest, Ended .expr rest →
      (expr (tokens ++ rest)).outcome = .ok (tree, rest)

theorem index_absent {rest : List Token} (ended : Ended .factor rest) :
    (index rest).outcome = .ok (none, rest) := by
  rw [index_outcome]
  cases rest with
  | nil => rfl
  | cons next more =>
      have plain : next.kind ≠ .leftBracket := by simp_all [Ended, continues]
      simp [plain]

theorem index_present {opening closing : Token} {inner rest : List Token} {tree : Expr}
    (opens : opening.kind = .leftBracket) (within : Read .expr inner tree)
    (closes : closing.kind = .rightBracket) :
    (index (opening :: (inner ++ closing :: rest))).outcome = .ok (some tree, rest) := by
  rw [index_outcome]
  have read := within (closing :: rest) (by simp [Ended, closes]; rfl)
  simp [opens, read, closes]

theorem begins_unsigned {level : Level} {tokens : List Token} {tree : Expr}
    (phrase : ExprPhrase level tokens tree) (low : level = .factor ∨ level = .term) :
    ∃ first more, tokens = first :: more ∧ sign? first.kind = none := by
  induction phrase with
  | name name isName => exact ⟨name, [], rfl, by simp [isName, sign?]⟩
  | element name opening closing inner index isName =>
      exact ⟨name, _, rfl, by simp [isName, sign?]⟩
  | parenthesised opening closing inner tree opens =>
      exact ⟨opening, _, rfl, by simp [opens, sign?]⟩
  | negation word operand tree isNot => exact ⟨word, _, rfl, by simp [isNot, sign?]⟩
  | number numeral value isConstant => exact ⟨numeral, [], rfl, by simp [isConstant, sign?]⟩
  | string literal content isString => exact ⟨literal, [], rfl, by simp [isString, sign?]⟩
  | trueValue word isTrue => exact ⟨word, [], rfl, by simp [isTrue, sign?]⟩
  | falseValue word isFalse => exact ⟨word, [], rfl, by simp [isFalse, sign?]⟩
  | ofFactor tokens tree factor ih => exact ih (.inl rfl)
  | product left right mark op leftTree rightTree chain marked last ih _ =>
      obtain ⟨first, more, rfl, unsigned⟩ := ih (.inr rfl)
      exact ⟨first, more ++ mark :: right, rfl, unsigned⟩
  | ofTerm | signed | sum | ofSimple | relation => simp at low

theorem expr_read {level : Level} {tokens : List Token} {tree : Expr}
    (phrase : ExprPhrase level tokens tree) : Read level tokens tree := by
  induction phrase with
  | name name isName =>
      intro rest ended
      rw [List.singleton_append, factor_outcome]
      simp [isName, index_absent ended, variableTree]
  | element name opening closing inner index isName opens within closes ih =>
      intro rest ended
      rw [List.cons_append, List.cons_append, List.append_assoc, List.singleton_append,
        factor_outcome]
      simp [isName, index_present opens ih closes, variableTree]
  | parenthesised opening closing inner tree opens within closes ih =>
      intro rest ended
      have read := ih (closing :: rest) (by simp [Ended, closes]; rfl)
      rw [List.cons_append, List.append_assoc, List.singleton_append, factor_outcome]
      simp [opens, read, closes]
  | negation word operand tree isNot applied ih =>
      intro rest ended
      rw [List.cons_append, factor_outcome]
      simp [isNot, ih rest ended]
  | number numeral value isConstant valued =>
      intro rest ended
      rw [List.singleton_append, factor_outcome]
      simp [isConstant, literal_value_numeral.mpr valued, valueOf]
  | string literal content isString valued =>
      intro rest ended
      rw [List.singleton_append, factor_outcome]
      simp [isString, unquoted_text.mpr valued, valueOf]
  | trueValue word isTrue =>
      intro rest ended
      rw [List.singleton_append, factor_outcome]
      simp [isTrue]
  | falseValue word isFalse =>
      intro rest ended
      rw [List.singleton_append, factor_outcome]
      simp [isFalse]
  | ofFactor tokens tree factor ih =>
      intro rest ended
      rw [term_outcome, ih rest ended]
      rfl
  | product left right mark op leftTree rightTree chain marked last ihLeft ihRight =>
      intro rest ended
      -- After the left part the loop goes on, and its next round reads the mark.
      have chained := ihLeft (mark :: (right ++ rest)) (ended_product_mark marked)
      rw [List.append_assoc, List.cons_append, chained, products_outcome]
      simp [product_mark.mpr marked, ihRight rest ended]
  | ofTerm tokens tree term ih =>
      intro rest ended
      -- The hypothesis leaves the loop over products open; what follows ends it.
      obtain ⟨first, more, rfl, unsigned⟩ := begins_unsigned term (.inr rfl)
      have read := ih rest (ended_factor_of_term ended)
      rw [products_ended ended, List.cons_append] at read
      rw [List.cons_append, simple_outcome]
      simp [unsigned, read]
  | signed sign op tokens tree marked term ih =>
      intro rest ended
      have read := ih rest (ended_factor_of_term ended)
      rw [products_ended ended] at read
      rw [List.cons_append, simple_outcome]
      simp [sign_mark.mpr marked, read]
  | sum left right mark op leftTree rightTree chain marked last ihLeft ihRight =>
      intro rest ended
      have chained := ihLeft (mark :: (right ++ rest)) (ended_sum_mark marked)
      have read := ihRight rest (ended_factor_of_term ended)
      rw [products_ended ended] at read
      rw [List.append_assoc, List.cons_append, chained, sums_outcome]
      simp [sum_mark.mpr marked, read]
  | ofSimple tokens tree simple ih =>
      intro rest ended
      have stopped := ended_simple_of_expr ended
      have read := ih rest (ended_term_of_simple stopped)
      rw [sums_ended stopped] at read
      rw [expr_outcome, read, except_ok_bind]
      cases rest with
      | nil => rfl
      | cons next more =>
          have unmarked : relation? next.kind = none := by simp_all [Ended, continues]
          simp [unmarked]
  | relation left right mark op leftTree rightTree first marked second ihLeft ihRight =>
      intro rest ended
      -- A relation ends both sums, so neither loop takes it.
      have stopped := ended_simple_of_expr ended
      have markOver : Ended .simple (mark :: (right ++ rest)) := ended_relation_mark marked
      have readLeft := ihLeft (mark :: (right ++ rest)) (ended_term_of_simple markOver)
      have readRight := ihRight rest (ended_term_of_simple stopped)
      rw [sums_ended markOver] at readLeft
      rw [sums_ended stopped] at readRight
      rw [List.append_assoc, List.cons_append, expr_outcome, readLeft, except_ok_bind]
      simp [relation_mark.mpr marked, readRight]

theorem target_read {tokens : List Token} {tree : Target} (phrase : TargetPhrase tokens tree)
    (rest : List Token) (ended : Ended .factor rest) :
    (target (tokens ++ rest)).outcome = .ok (tree, rest) := by
  rw [target_outcome]
  cases phrase with
  | name name isName => simp [isName, index_absent ended, targetTree]
  | element name opening closing inner index isName opens within closes =>
      have indexed : (PascalCasl.Grammar.index (opening :: (inner ++ closing :: rest))).outcome =
          .ok (some index, rest) := index_present opens (expr_read within) closes
      simp [isName, indexed, targetTree]

section Lists

theorem more_items_marked {separator : Kind} {item : Reader α} {mark : Token} {input : List Token}
    (marked : mark.kind = separator) :
    (moreItems separator item (mark :: input)).outcome = (items separator item input).outcome := by
  rw [moreItems_outcome, items_outcome]
  simp [marked]

theorem more_items_over {separator : Kind} {item : Reader α} {next : Token} {rest : List Token}
    (unmarked : next.kind ≠ separator) :
    (moreItems separator item (next :: rest)).outcome = .ok ([], next :: rest) := by
  rw [moreItems_outcome]
  simp [unmarked]

theorem separated_read {separator : Kind} {phrase : List Token → α → Prop} {item : Reader α}
    (Over : Kind → Prop) (reads : ∀ tokens value next rest, phrase tokens value → Over next.kind →
      (item (tokens ++ next :: rest)).outcome = .ok (value, next :: rest))
    (separates : Over separator) {tokens : List Token} {values : List α}
    (list : Separated separator phrase tokens values) (next : Token) (rest : List Token)
    (stopped : Over next.kind) (unmarked : next.kind ≠ separator) :
    (items separator item (tokens ++ next :: rest)).outcome = .ok (values, next :: rest) := by
  induction list with
  | one tokens value only =>
      rw [items_outcome, reads tokens value next rest only stopped]
      simp [more_items_over unmarked]
  | more tokens others mark value values first marked list ih =>
      have head := reads tokens value mark (others ++ next :: rest) first (marked ▸ separates)
      rw [List.append_assoc, List.cons_append, items_outcome, head]
      simp [more_items_marked marked, ih]

theorem optional_read {phrase : List Token → List α → Prop} {list : Reader (List α)}
    (reads : ∀ tokens values closing rest, phrase tokens values → closing.kind = .rightParen →
      (list (tokens ++ closing :: rest)).outcome = .ok (values, closing :: rest))
    {tokens : List Token} {values : List α} (optional : Optional phrase tokens values)
    (next : Token) (rest : List Token) (plain : next.kind ≠ .leftParen) :
    (parenthesised list (tokens ++ next :: rest)).outcome = .ok (values, next :: rest) := by
  rw [parenthesised_outcome]
  cases optional with
  | absent => simp [plain]
  | present opening closing inner values opens within closes =>
      have read := reads inner values closing (next :: rest) within closes
      simp [opens, read, closes]

theorem expr_list_read {tokens : List Token} {values : List Expr}
    (listed : Optional (Separated .comma (ExprPhrase .expr)) tokens values)
    (next : Token) (rest : List Token) (plain : next.kind ≠ .leftParen) :
    (parenthesised (items .comma expr) (tokens ++ next :: rest)).outcome =
      .ok (values, next :: rest) := by
  refine optional_read (fun tokens values closing rest list closes => ?_) listed next rest plain
  have reads : ∀ tokens value next rest, ExprPhrase .expr tokens value →
      continues .expr next.kind = false →
      (expr (tokens ++ next :: rest)).outcome = .ok (value, next :: rest) := by
    intro tokens value next rest phrase stopped
    exact (expr_read phrase : Read .expr tokens value) (next :: rest) stopped
  exact separated_read (continues .expr · = false) reads rfl list closing rest
    (by rw [closes]; rfl) (by simp [closes])

theorem target_list_read {tokens : List Token} {targets : List Target}
    (listed : Optional (Separated .comma TargetPhrase) tokens targets)
    (next : Token) (rest : List Token) (plain : next.kind ≠ .leftParen) :
    (parenthesised (items .comma target) (tokens ++ next :: rest)).outcome =
      .ok (targets, next :: rest) := by
  refine optional_read (fun tokens values closing rest list closes => ?_) listed next rest plain
  have reads : ∀ tokens value next rest, TargetPhrase tokens value →
      continues .factor next.kind = false →
      (target (tokens ++ next :: rest)).outcome = .ok (value, next :: rest) :=
    fun tokens value next rest phrase stopped => target_read phrase (next :: rest) stopped
  exact separated_read (continues .factor · = false) reads rfl list closing rest
    (by rw [closes]; rfl) (by simp [closes])

end Lists

section Statements

theorem expr_followed {tokens : List Token} {tree : Expr} (phrase : ExprPhrase .expr tokens tree)
    (next : Token) (rest : List Token) (stopped : continues .expr next.kind = false) :
    (expr (tokens ++ next :: rest)).outcome = .ok (tree, next :: rest) :=
  (expr_read phrase : Read .expr tokens tree) (next :: rest) stopped

theorem else_absent {next : Token} {rest : List Token} (plain : next.kind ≠ .elseWord) :
    (elsePart (next :: rest)).outcome = .ok (none, next :: rest) := by
  rw [elsePart_outcome]
  simp [plain]

theorem target_begins {tokens : List Token} {tree : Target} (phrase : TargetPhrase tokens tree)
    {mark : Token} (marked : mark.kind = .assign) (rest : List Token) :
    ∃ name more, tokens ++ mark :: rest = name :: more ∧ name.kind = .identifier ∧
      startsAssignment more = true := by
  cases phrase with
  | name name isName => exact ⟨name, mark :: rest, rfl, isName, by simp [startsAssignment, marked]⟩
  | element name opening closing inner index isName opens within closes =>
      exact ⟨name, opening :: (inner ++ [closing]) ++ mark :: rest, rfl, isName,
        by simp [startsAssignment, opens]⟩

theorem call_is_no_assignment {phrase : List Token → List Expr → Prop} {tokens : List Token}
    {arguments : List Expr} (listed : Optional phrase tokens arguments) {mark : Token}
    (ended : mark.kind = .semicolon) (rest : List Token) :
    startsAssignment (tokens ++ mark :: rest) = false := by
  cases listed with
  | absent => simp [startsAssignment, ended]
  | present opening closing inner values opens within closes => simp [startsAssignment, opens]

theorem begin_starts_block {tokens : List Token} {line : Nat} {body : List Stmt}
    (phrase : BlockPhrase tokens line body) :
    ∃ word more, tokens = word :: more ∧ word.kind = .beginWord := by
  cases phrase with
  | block beginWord endWord tokens body isBegin within isEnd => exact ⟨beginWord, _, rfl, isBegin⟩

theorem starts_statement {tokens : List Token} {tree : Stmt} (phrase : StmtPhrase tokens tree) :
    ∃ first more, tokens = first :: more ∧ startsStatement first.kind = true := by
  cases phrase with
  | assign left right mark assigned value target marked source =>
      obtain ⟨name, more, same, isName, -⟩ := target_begins target marked right
      exact ⟨name, more, same, by rw [isName]; rfl⟩
  | call name tokens arguments isName => exact ⟨name, tokens, rfl, by rw [isName]; rfl⟩
  | ifThen ifWord _ _ _ _ _ _ isIf => exact ⟨ifWord, _, rfl, by rw [isIf]; rfl⟩
  | ifElse ifWord _ _ _ _ _ _ _ _ _ _ isIf => exact ⟨ifWord, _, rfl, by rw [isIf]; rfl⟩
  | whileDo whileWord _ _ _ _ _ _ isWhile => exact ⟨whileWord, _, rfl, by rw [isWhile]; rfl⟩
  | read word tokens targets isRead => exact ⟨word, tokens, rfl, by rw [isRead]; rfl⟩
  | write word tokens values isWrite => exact ⟨word, tokens, rfl, by rw [isWrite]; rfl⟩
  | block tokens line body block =>
      obtain ⟨word, more, rfl, isBegin⟩ := begin_starts_block block
      exact ⟨word, more, rfl, by rw [isBegin]; rfl⟩

-- A block inside a statement has fewer tokens; a statement that is a block has
-- the same ones, so statements come after blocks of their length.
mutual

theorem stmt_read {tokens : List Token} {tree : Stmt} (phrase : StmtPhrase tokens tree)
    (mark : Token) (rest : List Token) (ended : mark.kind = .semicolon) :
    (stmt (tokens ++ mark :: rest)).outcome = .ok (tree, mark :: rest) := by
  have stopped : continues .expr mark.kind = false := by rw [ended]; rfl
  have plain : mark.kind ≠ .leftParen := by simp [ended]
  rw [stmt_outcome]
  cases phrase with
  | assign left right assign assigned value target marked source =>
      obtain ⟨name, more, same, isName, starts⟩ :=
        target_begins target marked (right ++ mark :: rest)
      have targeted := target_read target (assign :: (right ++ mark :: rest))
        (by simp [Ended, continues, marked])
      have valued := expr_followed source mark rest stopped
      rw [List.append_assoc, List.cons_append]
      rw [same] at targeted ⊢
      simp [isName, starts, assignment_outcome, targeted, marked, valued]
  | call name tokens arguments isName listed =>
      -- A name begins calls and assignments alike; what follows it decides.
      have read := expr_list_read listed mark rest plain
      simp [isName, call_is_no_assignment listed ended, call_outcome, read]
  | ifThen ifWord thenWord test thenTokens condition thenLine thenBody isIf tested isThen thenBlock =>
      have test := expr_followed tested thenWord (thenTokens ++ mark :: rest) (by rw [isThen]; rfl)
      have blocked := block_read thenBlock (mark :: rest)
      have unbranched : (elsePart (mark :: rest)).outcome = .ok (none, mark :: rest) :=
        else_absent (by simp [ended])
      simp [isIf, test, isThen, blocked, unbranched, conditionalTree]
  | ifElse ifWord thenWord elseWord test thenTokens elseTokens condition thenLine thenBody elseLine
      elseBody isIf tested isThen thenBlock isElse elseBlock =>
      have test := expr_followed tested thenWord
        (thenTokens ++ elseWord :: (elseTokens ++ mark :: rest)) (by rw [isThen]; rfl)
      have thenBlocked := block_read thenBlock (elseWord :: (elseTokens ++ mark :: rest))
      have elseBlocked := block_read elseBlock (mark :: rest)
      simp [isIf, test, isThen, thenBlocked, elsePart_outcome, isElse, elseBlocked, conditionalTree]
  | whileDo whileWord doWord test tokens condition bodyLine body isWhile tested isDo block =>
      have test := expr_followed tested doWord (tokens ++ mark :: rest) (by rw [isDo]; rfl)
      have blocked := block_read block (mark :: rest)
      simp [isWhile, test, isDo, blocked]
  | read word tokens targets isRead listed =>
      have read := target_list_read listed mark rest plain
      simp [isRead, read]
  | write word tokens values isWrite listed =>
      have read := expr_list_read listed mark rest plain
      simp [isWrite, read]
  | block tokens line body block =>
      have blocked := block_read block (mark :: rest)
      obtain ⟨word, more, rfl, isBegin⟩ := begin_starts_block block
      rw [List.cons_append] at blocked ⊢
      simp [isBegin, blocked]
termination_by 2 * tokens.length + 1

theorem block_read {tokens : List Token} {line : Nat} {body : List Stmt}
    (phrase : BlockPhrase tokens line body) (rest : List Token) :
    (block (tokens ++ rest)).outcome = .ok ((line, body), rest) := by
  cases phrase with
  | block beginWord endWord tokens body isBegin within isEnd =>
      have read := stmts_read within endWord rest isEnd
      rw [block_outcome]
      simp [isBegin, read, isEnd]
termination_by 2 * tokens.length

theorem stmts_read {tokens : List Token} {body : List Stmt} (phrase : StmtsPhrase tokens body)
    (word : Token) (rest : List Token) (isEnd : word.kind = .endWord) :
    (stmts (tokens ++ word :: rest)).outcome = .ok (body, word :: rest) := by
  cases phrase with
  | none =>
      rw [List.nil_append, stmts_outcome]
      simp [isEnd, startsStatement]
  | more tokens others mark first body statement ended statements =>
      have head := stmt_read statement mark (others ++ word :: rest) ended
      have tail := stmts_read statements word rest isEnd
      obtain ⟨start, more, rfl, starts⟩ := starts_statement statement
      rw [List.cons_append] at head
      rw [List.append_assoc, List.cons_append, List.cons_append, stmts_outcome]
      simp [starts, head, ended, tail]
termination_by 2 * tokens.length

end

end Statements

section Declarations

theorem standard_type_read {word : Token} {type : StandardType} (rest : List Token)
    (named : StandardTypeWord word.kind type) :
    (standardType (word :: rest)).outcome = .ok (type, rest) := by
  rw [standardType_outcome]
  simp [standard_type_word.mpr named]

theorem magnitude_read {numeral : Token} {value : Nat} (rest : List Token)
    (isConstant : numeral.kind = .constant) (valued : Numeral numeral.text value) :
    (magnitude (numeral :: rest)).outcome = .ok (value, rest) := by
  rw [magnitude_outcome]
  simp [isConstant, literal_value_numeral.mpr valued, valueOf]

theorem bound_read {tokens : List Token} {value : Bound} (phrase : BoundPhrase tokens value)
    (rest : List Token) : (bound (tokens ++ rest)).outcome = .ok (value, rest) := by
  cases phrase with
  | unsigned numeral value isConstant valued =>
      rw [List.singleton_append, bound_outcome]
      simp [isConstant, sign?, magnitude_read rest isConstant valued]
  | positive sign numeral value isPlus isConstant valued =>
      rw [List.cons_append, List.singleton_append, bound_outcome]
      simp [isPlus, sign?, magnitude_read rest isConstant valued]
  | negative sign numeral value isMinus isConstant valued =>
      rw [List.cons_append, List.singleton_append, bound_outcome]
      simp [isMinus, sign?, magnitude_read rest isConstant valued]

theorem type_read {tokens : List Token} {type : TypeSpec} {line : Nat}
    (phrase : TypePhrase tokens type line) (rest : List Token) :
    (typeSpec (tokens ++ rest)).outcome = .ok ((type, line), rest) := by
  rw [typeSpec_outcome]
  cases phrase with
  | standard word type named =>
      have plain : word.kind ≠ .arrayWord := by
        intro isArray
        rw [isArray] at named
        cases named
      simp [plain, standard_type_read rest named]
  | array arrayWord opening range closing ofWord word lowTokens highTokens low high element isArray
      opens lowest ranged highest closes isOf named =>
      have lowRead := bound_read lowest (range :: (highTokens ++ closing :: ofWord :: word :: rest))
      have highRead := bound_read highest (closing :: ofWord :: word :: rest)
      simp [isArray, opens, lowRead, ranged, highRead, closes, isOf, standard_type_read rest named]

theorem names_read {tokens names : List Token} (listed : Separated .comma NamePhrase tokens names)
    (colon : Token) (rest : List Token) (isColon : colon.kind = .colon) :
    (PascalCasl.Grammar.names (tokens ++ colon :: rest)).outcome = .ok (names, colon :: rest) := by
  have reads : ∀ tokens name next rest, NamePhrase tokens name → True →
      (token .identifier (tokens ++ next :: rest)).outcome = .ok (name, next :: rest) := by
    intro tokens name next rest phrase _
    cases phrase with
    | name name isName => exact token_read isName
  exact separated_read (fun _ => True) reads trivial listed colon rest trivial (by simp [isColon])

theorem var_group_read {tokens : List Token} {group : List VarDecl}
    (phrase : VarGroupPhrase tokens group) (rest : List Token) :
    (varGroup (tokens ++ rest)).outcome = .ok (group, rest) := by
  cases phrase with
  | group nameTokens typeTokens colon semicolon names type typeLine listed isColon typed ended =>
      have nameRead := names_read listed colon (typeTokens ++ semicolon :: rest) isColon
      have typeRead := type_read typed (semicolon :: rest)
      have regrouped : nameTokens ++ colon :: (typeTokens ++ [semicolon]) ++ rest =
          nameTokens ++ colon :: (typeTokens ++ semicolon :: rest) := by simp
      rw [regrouped, varGroup_outcome]
      simp [nameRead, isColon, typeRead, ended]

theorem name_begins {tokens names : List Token}
    (listed : Separated .comma NamePhrase tokens names) :
    ∃ first more, tokens = first :: more ∧ first.kind = .identifier := by
  cases listed with
  | one tokens name only =>
      cases only with
      | name name isName => exact ⟨name, [], rfl, isName⟩
  | more tokens others mark name names first marked rest =>
      cases first with
      | name name isName => exact ⟨name, mark :: others, rfl, isName⟩

theorem name_begins_group {tokens : List Token} {group : List VarDecl}
    (phrase : VarGroupPhrase tokens group) :
    ∃ first more, tokens = first :: more ∧ first.kind = .identifier := by
  cases phrase with
  | group nameTokens typeTokens colon semicolon names type typeLine listed =>
      obtain ⟨first, more, rfl, isName⟩ := name_begins listed
      exact ⟨first, _, rfl, isName⟩

theorem var_groups_read {tokens : List Token} {vars : List VarDecl}
    (phrase : VarGroupsPhrase tokens vars) (next : Token) (rest : List Token)
    (stopped : next.kind ≠ .identifier) :
    (do let (group, rest) ← (varGroup (tokens ++ next :: rest)).outcome
        let (groups, rest) ← (moreVarGroups rest).outcome
        .ok (group ++ groups, rest)) = (.ok (vars, next :: rest) : Except Failure _) := by
  induction phrase with
  | one tokens group only =>
      rw [var_group_read only, except_ok_bind]
      dsimp only
      rw [moreVarGroups_outcome]
      simp [stopped]
  | more tokens others group groups first others ih =>
      rw [List.append_assoc, var_group_read first, except_ok_bind]
      dsimp only
      rw [moreVarGroups_outcome]
      cases others with
      | one others groups only =>
          obtain ⟨name, more, rfl, isName⟩ := name_begins_group only
          rw [List.cons_append] at ih ⊢
          simp only [isName, ↓reduceIte, ih, except_ok_bind]
      | more others further groups final second more =>
          obtain ⟨name, more, rfl, isName⟩ := name_begins_group second
          rw [List.cons_append, List.cons_append] at ih ⊢
          simp only [isName, ↓reduceIte, ih, except_ok_bind]

theorem vars_read {tokens : List Token} {vars : List VarDecl} (phrase : VarsPhrase tokens vars)
    (next : Token) (rest : List Token) (unnamed : next.kind ≠ .identifier)
    (stopped : next.kind ≠ .varWord) :
    (PascalCasl.Grammar.vars (tokens ++ next :: rest)).outcome = .ok (vars, next :: rest) := by
  rw [vars_outcome]
  cases phrase with
  | none => simp [stopped]
  | declared word tokens vars isVar groups =>
      have read := var_groups_read groups next rest unnamed
      simpa only [List.cons_append, isVar, ↓reduceIte] using read

theorem param_group_read {tokens : List Token} {group : List Param}
    (phrase : ParamGroupPhrase tokens group) (rest : List Token) :
    (paramGroup (tokens ++ rest)).outcome = .ok (group, rest) := by
  cases phrase with
  | group nameTokens colon word names type listed isColon named =>
      have nameRead := names_read listed colon (word :: rest) isColon
      have regrouped : nameTokens ++ [colon, word] ++ rest =
          nameTokens ++ colon :: word :: rest := by simp
      rw [regrouped, paramGroup_outcome]
      simp [nameRead, isColon, standard_type_read rest named]

theorem params_read {tokens : List Token} {groups : List (List Param)}
    (phrase : Optional (Separated .semicolon ParamGroupPhrase) tokens groups)
    (semicolon : Token) (rest : List Token) (ended : semicolon.kind = .semicolon) :
    (parenthesised (items .semicolon paramGroup) (tokens ++ semicolon :: rest)).outcome =
      .ok (groups, semicolon :: rest) := by
  refine optional_read (fun tokens values closing rest list closes => ?_) phrase semicolon rest
    (by simp [ended])
  have reads : ∀ tokens group next rest, ParamGroupPhrase tokens group → True →
      (paramGroup (tokens ++ next :: rest)).outcome = .ok (group, next :: rest) :=
    fun tokens group next rest phrase _ => param_group_read phrase (next :: rest)
  exact separated_read (fun _ => True) reads trivial list closing rest trivial (by simp [closes])

theorem procedure_read {tokens : List Token} {declared : Procedure}
    (phrase : ProcedurePhrase tokens declared) (rest : List Token) :
    (procedure (tokens ++ rest)).outcome = .ok (declared, rest) := by
  cases phrase with
  | procedure word name semicolon paramTokens varTokens blockTokens groups vars bodyLine body
      isProcedure isName params ended locals block =>
      have paramRead := params_read params semicolon (varTokens ++ (blockTokens ++ rest)) ended
      have blockRead := block_read block rest
      obtain ⟨beginWord, more, rfl, isBegin⟩ := begin_starts_block block
      have varRead := vars_read locals beginWord (more ++ rest) (by simp [isBegin])
        (by simp [isBegin])
      rw [procedure_outcome]
      simp only [List.cons_append] at blockRead paramRead
      simp [isProcedure, isName, paramRead, ended, varRead, blockRead]

theorem procedures_read {tokens : List Token} {declared : List Procedure}
    (phrase : ProceduresPhrase tokens declared) (word : Token) (rest : List Token)
    (isBegin : word.kind = .beginWord) :
    (procedures (tokens ++ word :: rest)).outcome = .ok (declared, word :: rest) := by
  induction phrase with
  | none =>
      rw [List.nil_append, procedures_outcome]
      simp [isBegin]
  | more tokens others semicolon first declared phrase ended remaining ih =>
      have head := procedure_read phrase (semicolon :: (others ++ word :: rest))
      cases phrase with
      | procedure procedureWord name _ _ _ _ _ _ _ _ isProcedure =>
          rw [List.append_assoc, List.cons_append, procedures_outcome]
          simp only [List.cons_append] at head ⊢
          simp [isProcedure, head, ended, ih]

theorem procedures_begin {tokens : List Token} {declared : List Procedure}
    (phrase : ProceduresPhrase tokens declared) {word : Token} (rest : List Token)
    (isBegin : word.kind = .beginWord) :
    ∃ next more, tokens ++ word :: rest = next :: more ∧ next.kind ≠ .identifier ∧
      next.kind ≠ .varWord := by
  cases phrase with
  | none => exact ⟨word, rest, rfl, by simp [isBegin], by simp [isBegin]⟩
  | more tokens others semicolon first declared phrase =>
      cases phrase with
      | procedure procedureWord name _ _ _ _ _ _ _ _ isProcedure =>
          exact ⟨procedureWord, _, rfl, by simp [isProcedure], by simp [isProcedure]⟩

theorem program_read {tokens : List Token} {tree : Program} (phrase : ProgramPhrase tokens tree) :
    (program tokens).outcome = .ok (tree, []) := by
  cases phrase with
  | program word name semicolon dot varTokens procedureTokens blockTokens vars declared bodyLine body
      isProgram isName ended globals procedures block isDot =>
      have blockRead := block_read block [dot]
      obtain ⟨beginWord, inner, rfl, isBegin⟩ := begin_starts_block block
      have procedureRead := procedures_read procedures beginWord (inner ++ [dot]) isBegin
      obtain ⟨next, more, same, unnamed, stopped⟩ :=
        procedures_begin procedures (inner ++ [dot]) isBegin
      have varRead := vars_read globals next more unnamed stopped
      rw [← same] at varRead
      rw [program_outcome]
      simp only [List.cons_append] at blockRead
      simp [isProgram, isName, ended, varRead, procedureRead, blockRead, isDot]

end Declarations

end PascalCasl.Grammar
