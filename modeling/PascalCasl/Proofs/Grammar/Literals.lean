import PascalCasl.Proofs.Code.Agreement
import PascalCasl.Proofs.Grammar.Phrase

/-!
What the literals of a source say. The literals of one sort, numerals or quoted
texts, reach the tree one for one and in the order of the source: what the
tokens of a phrase are read as is what the expressions of its tree hold.
-/

namespace PascalCasl.Grammar

/-- Marks, words and names, as opposed to literals. -/
def Valueless (kind : Kind) : Prop := kind ≠ .constant ∧ kind ≠ .string

@[simp] theorem valueless_iff {kind : Kind} :
    Valueless kind ↔ kind ≠ .constant ∧ kind ≠ .string := .rfl

theorem relation_valueless {kind : Kind} {op : BinaryOp} (marked : RelationMark kind op) :
    Valueless kind := by cases marked <;> simp

theorem sum_valueless {kind : Kind} {op : BinaryOp} (marked : SumMark kind op) :
    Valueless kind := by cases marked <;> simp

theorem product_valueless {kind : Kind} {op : BinaryOp} (marked : ProductMark kind op) :
    Valueless kind := by cases marked <;> simp

theorem sign_valueless {kind : Kind} {op : UnaryOp} (marked : SignMark kind op) :
    Valueless kind := by cases marked <;> simp

theorem type_word_valueless {kind : Kind} {type : StandardType}
    (named : StandardTypeWord kind type) : Valueless kind := by cases named <;> simp

/-- One sort of literals: how a token of its kind is read, and what an expression
holds of it, from left to right. -/
structure LiteralSort (α : Type) where
  kind : Kind
  read : String → Option α
  inside : Expr → List α
  literal : ¬Valueless kind
  number (line : Nat) (text : String) (value : Nat) (valued : Numeral text value) :
    (if Kind.constant = kind then [read text] else []) = (inside (.number line value)).map some
  string (line : Nat) (text content : String) (valued : QuotedText text content) :
    (if Kind.string = kind then [read text] else []) = (inside (.string line content)).map some
  truth (line : Nat) (value : Bool) : inside (.truth line value) = []
  simple (line : Nat) (name : String) : inside (.simple line name) = []
  indexed (line : Nat) (name : String) (index : Expr) :
    inside (.indexed line name index) = inside index
  unary (line : Nat) (op : UnaryOp) (operand : Expr) :
    inside (.unary line op operand) = inside operand
  binary (line : Nat) (op : BinaryOp) (left right : Expr) :
    inside (.binary line op left right) = inside left ++ inside right

namespace LiteralSort

attribute [simp] truth simple indexed unary binary

variable {α β : Type} (sort : LiteralSort α) {tokens : List Token}

/-- What the literals among tokens are read as. -/
def told (tokens : List Token) : List (Option α) :=
  ((tokens.filter fun token => token.kind = sort.kind).map Token.text).map sort.read

@[simp] theorem told_nil : sort.told [] = [] := rfl

@[simp] theorem told_append (first second : List Token) :
    sort.told (first ++ second) = sort.told first ++ sort.told second := by
  simp [told]

theorem told_cons (token : Token) (rest : List Token) :
    sort.told (token :: rest) =
      (if token.kind = sort.kind then [sort.read token.text] else []) ++ sort.told rest := by
  by_cases own : token.kind = sort.kind <;> simp [told, own]

@[simp] theorem told_valueless {token : Token} (valueless : Valueless token.kind)
    (rest : List Token) : sort.told (token :: rest) = sort.told rest := by
  have other : token.kind ≠ sort.kind := fun same => sort.literal (same ▸ valueless)
  rw [told_cons, if_neg other, List.nil_append]

theorem expr_told {level : Level} {tree : Expr} (derived : ExprPhrase level tokens tree) :
    sort.told tokens = (sort.inside tree).map some := by
  induction derived with
  | name name isName => simp [isName]
  | element name opening closing inner index isName opens _ closes ih =>
      simp [isName, opens, closes, ih]
  | parenthesised opening closing inner tree opens _ closes ih => simp [opens, closes, ih]
  | negation word operand tree isNot _ ih => simp [isNot, ih]
  | number numeral value isConstant valued =>
      rw [told_cons, isConstant, told_nil, List.append_nil]
      exact sort.number numeral.line numeral.text value valued
  | string literal text isString valued =>
      rw [told_cons, isString, told_nil, List.append_nil]
      exact sort.string literal.line literal.text text valued
  | trueValue word isTrue => simp [isTrue]
  | falseValue word isFalse => simp [isFalse]
  | ofFactor tokens tree _ ih => exact ih
  | product left right mark op leftTree rightTree _ marked _ leftIh rightIh =>
      simp [sort.told_valueless (product_valueless marked), leftIh, rightIh]
  | ofTerm tokens tree _ ih => exact ih
  | signed sign op tokens tree marked _ ih => simp [sort.told_valueless (sign_valueless marked), ih]
  | sum left right mark op leftTree rightTree _ marked _ leftIh rightIh =>
      simp [sort.told_valueless (sum_valueless marked), leftIh, rightIh]
  | ofSimple tokens tree _ ih => exact ih
  | relation left right mark op leftTree rightTree _ marked _ leftIh rightIh =>
      simp [sort.told_valueless (relation_valueless marked), leftIh, rightIh]

theorem target_told {target : Target} (derived : TargetPhrase tokens target) :
    sort.told tokens = (target.indexes.flatMap sort.inside).map some := by
  cases derived with
  | name name isName => simp [isName, Target.indexes]
  | element name opening closing inner index isName opens within closes =>
      have inIndex := sort.expr_told within
      simp [isName, opens, closes, Target.indexes, inIndex]

/-! Lists of items that hold literals of their own. -/

section Lists

variable {item : List Token → β → Prop} {inside : β → List α} {items : List β}

theorem separated_told {separator : Kind} (listed : Separated separator item tokens items)
    (valueless : Valueless separator)
    (each : ∀ tokens value, item tokens value → sort.told tokens = (inside value).map some) :
    sort.told tokens = (items.flatMap inside).map some := by
  induction listed with
  | one tokens value only => simpa using each tokens value only
  | more tokens others mark value values first marked _ ih =>
      have apart : Valueless mark.kind := marked ▸ valueless
      rw [told_append, sort.told_valueless apart, each tokens value first, ih, List.flatMap_cons,
        List.map_append]

theorem optional_told {list : List Token → List β → Prop} (listed : Optional list tokens items)
    (each : ∀ tokens items, list tokens items →
      sort.told tokens = (items.flatMap inside).map some) :
    sort.told tokens = (items.flatMap inside).map some := by
  cases listed with
  | absent => rfl
  | present opening closing inner _ opens within closes =>
      simp [opens, closes, each inner items within]

end Lists

theorem exprs_told {values : List Expr}
    (listed : Optional (Separated .comma (ExprPhrase .expr)) tokens values) :
    sort.told tokens = (values.flatMap sort.inside).map some :=
  sort.optional_told listed fun _ _ items =>
    sort.separated_told items (by simp) fun _ _ item => sort.expr_told item

theorem targets_told {targets : List Target}
    (listed : Optional (Separated .comma TargetPhrase) tokens targets) :
    sort.told tokens = ((targets.flatMap Target.indexes).flatMap sort.inside).map some := by
  rw [List.flatMap_assoc]
  exact sort.optional_told listed fun _ _ items =>
    sort.separated_told items (by simp) fun _ _ item => sort.target_told item

mutual

theorem stmt_told : ∀ {tokens : List Token} {statement : Stmt}, StmtPhrase tokens statement →
    sort.told tokens = (statement.values.flatMap sort.inside).map some
  | _, _, .assign left right mark assigned value target marked source => by
      have inTarget := sort.target_told target
      have inValue := sort.expr_told source
      simp [Stmt.values, marked, inTarget, inValue]
  | _, _, .call name tokens arguments isName listed => by
      have given := sort.exprs_told listed
      simp [Stmt.values, isName, given]
  | _, _, .ifThen ifWord thenWord test thenTokens condition thenLine thenBody isIf tested isThen
      thenBlock => by
      have inTest := sort.expr_told tested
      have inThen := block_told thenBlock
      simp [Stmt.values, isIf, isThen, inTest, inThen]
  | _, _, .ifElse ifWord thenWord elseWord test thenTokens elseTokens condition thenLine thenBody
      elseLine elseBody isIf tested isThen thenBlock isElse elseBlock => by
      have inTest := sort.expr_told tested
      have inThen := block_told thenBlock
      have inElse := block_told elseBlock
      simp [Stmt.values, isIf, isThen, isElse, inTest, inThen, inElse]
  | _, _, .whileDo whileWord doWord test tokens condition bodyLine body isWhile tested isDo
      block => by
      have inTest := sort.expr_told tested
      have inBody := block_told block
      simp [Stmt.values, isWhile, isDo, inTest, inBody]
  | _, _, .read word tokens targets isRead listed => by
      have given := sort.targets_told listed
      simp [Stmt.values, isRead, given]
  | _, _, .write word tokens values isWrite listed => by
      have given := sort.exprs_told listed
      simp [Stmt.values, isWrite, given]
  | _, _, .block tokens line body block => block_told block

theorem block_told : ∀ {tokens : List Token} {line : Nat} {body : List Stmt},
    BlockPhrase tokens line body →
    sort.told tokens = ((valuesOf body).flatMap sort.inside).map some
  | _, _, _, .block beginWord endWord tokens body isBegin within isEnd => by
      have inBody := stmts_told within
      simp [isBegin, isEnd, inBody]

theorem stmts_told : ∀ {tokens : List Token} {body : List Stmt}, StmtsPhrase tokens body →
    sort.told tokens = ((valuesOf body).flatMap sort.inside).map some
  | _, _, .none => rfl
  | _, _, .more tokens others mark first rest statement ended statements => by
      have inFirst := stmt_told statement
      have inRest := stmts_told statements
      simp [valuesOf, ended, inFirst, inRest]

end

/-! Names and parameters hold no literal. -/

theorem names_told {names : List Token} (listed : Separated .comma NamePhrase tokens names) :
    sort.told tokens = [] := by
  induction listed with
  | one tokens name only =>
      cases only with
      | name name isName => simp [isName]
  | more tokens others mark name names first marked _ ih =>
      cases first with
      | name name isName => simp [isName, marked, ih]

theorem params_told {groups : List (List Param)}
    (derived : Optional (Separated .semicolon ParamGroupPhrase) tokens groups) :
    sort.told tokens = [] := by
  have each (tokens : List Token) (group : List Param) (item : ParamGroupPhrase tokens group) :
      sort.told tokens = ([] : List α).map some := by
    cases item with
    | group nameTokens colon word names type listed isColon named =>
        simp [isColon, sort.told_valueless (type_word_valueless named), sort.names_told listed]
  have nothing : sort.told tokens = (groups.flatMap fun _ => []).map some :=
    sort.optional_told derived fun _ _ items => sort.separated_told items (by simp) each
  rwa [List.flatMap_eq_nil_iff.mpr fun _ _ => rfl] at nothing

end LiteralSort
end PascalCasl.Grammar
