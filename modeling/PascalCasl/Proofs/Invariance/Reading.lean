import PascalCasl.Proofs.Grammar.Soundness
import PascalCasl.Proofs.Invariance.Relabelling

/-!
Readers do not see relabelling. On relabelled tokens a reader takes as many
tokens as before and gives the relabelled tree, or it stops at the same place.
-/

namespace PascalCasl

open Grammar

variable {α β γ : Type}

namespace Relabelling

variable (change : Relabelling)

def failure : Failure → Failure
  | .unexpected rest => .unexpected (rest.map change.token)
  | .malformed token rest => .malformed (change.token token) (rest.map change.token)

/-- The outcome on relabelled tokens, where `onValue` says what becomes of the
phrase. -/
def outcome (onValue : α → α) :
    Except Failure (α × List Token) → Except Failure (α × List Token)
  | .ok (value, rest) => .ok (onValue value, rest.map change.token)
  | .error stopped => .error (change.failure stopped)

/-- The reader gives the relabelled outcome on relabelled inputs. -/
def Keeps (onValue : α → α) (reader : List Token → Except Failure (α × List Token)) : Prop :=
  ∀ input, reader (input.map change.token) = change.outcome onValue (reader input)

/-- Readers that keep their outcome on inputs below a length. -/
def KeepsBelow (bound : Nat) (onValue : α → α)
    (reader : List Token → Except Failure (α × List Token)) : Prop :=
  ∀ input, input.length < bound →
    reader (input.map change.token) = change.outcome onValue (reader input)

end Relabelling

namespace Grammar

variable {change : Relabelling} {onValue : α → α} {onResult : β → β}

theorem keeps_of_below {reader : List Token → Except Failure (α × List Token)}
    (kept : ∀ bound, change.KeepsBelow bound onValue reader) : change.Keeps onValue reader :=
  fun input => kept (input.length + 1) input (Nat.lt_succ_self _)

/-- Readers one after the other. The second ones may differ, as they know the
tokens that were read before. -/
theorem kept_bind {step other : Except Failure (α × List Token)}
    {next after : α × List Token → Except Failure (β × List Token)}
    (kept : other = change.outcome onValue step)
    (same : ∀ value rest, step = .ok (value, rest) →
      after (onValue value, rest.map change.token) = change.outcome onResult (next (value, rest))) :
    other >>= after = change.outcome onResult (step >>= next) := by
  subst kept
  cases step with
  | error stopped => rfl
  | ok read => exact same read.1 read.2 rfl

theorem kept_if {condition : Prop} [Decidable condition]
    {taken takenAgain skipped skippedAgain : Except Failure (α × List Token)}
    (whereTrue : condition → takenAgain = change.outcome onValue taken)
    (whereFalse : ¬ condition → skippedAgain = change.outcome onValue skipped) :
    (if condition then takenAgain else skippedAgain) =
      change.outcome onValue (if condition then taken else skipped) := by
  by_cases holds : condition
  · rw [if_pos holds, if_pos holds, whereTrue holds]
  · rw [if_neg holds, if_neg holds, whereFalse holds]

theorem kept_value_bind {value? : Option γ} {written : Token} {rest : List Token}
    {next after : γ → Except Failure (β × List Token)}
    (same : ∀ value, after value = change.outcome onResult (next value)) :
    valueOf value? (change.token written) (rest.map change.token) >>= after =
      change.outcome onResult (valueOf value? written rest >>= next) := by
  cases value? with
  | none => rfl
  | some value => exact same value

theorem token_kept (kind : Kind) :
    change.Keeps change.token fun input => (token kind input).outcome := by
  intro input
  simp only [token_outcome]
  cases input with
  | nil => rfl
  | cons first rest =>
      apply kept_if
      · exact fun _ => rfl
      · exact fun _ => rfl

section Lists

variable {bound : Nat} {separator : Kind}

theorem more_items_kept {item : Reader α}
    (kept : change.KeepsBelow bound onValue fun input => (item input).outcome) :
    change.KeepsBelow (bound + 1) (List.map onValue)
      fun input => (moreItems separator item input).outcome := by
  intro input short
  induction size : input.length using Nat.strongRecOn generalizing input with
  | ind size ih =>
      dsimp only
      rw [moreItems_outcome, moreItems_outcome]
      cases input with
      | nil => rfl
      | cons first rest =>
          simp only [List.length_cons] at short size
          apply kept_if
          · intro _
            apply kept_bind (kept rest (by omega))
            intro value middle read
            have shorter := outcome_shorter read
            exact kept_bind (ih middle.length (by omega) middle (by omega) rfl) fun _ _ _ => rfl
          · exact fun _ => rfl

theorem items_kept {item : Reader α}
    (kept : change.KeepsBelow bound onValue fun input => (item input).outcome) :
    change.KeepsBelow bound (List.map onValue)
      fun input => (items separator item input).outcome := by
  intro input short
  simp only [items_outcome]
  apply kept_bind (kept input short)
  intro value middle read
  have shorter := outcome_shorter read
  exact kept_bind (more_items_kept kept middle (by omega)) fun _ _ _ => rfl

theorem parenthesised_kept {list : Reader (List α)}
    (kept : change.KeepsBelow bound (List.map onValue) fun input => (list input).outcome) :
    change.KeepsBelow (bound + 1) (List.map onValue)
      fun input => (parenthesised list input).outcome := by
  intro input short
  simp only [parenthesised_outcome]
  cases input with
  | nil => rfl
  | cons first rest =>
      apply kept_if
      · intro _
        apply kept_bind (kept rest (Nat.lt_of_succ_lt_succ short))
        intro values middle _
        exact kept_bind (token_kept .rightParen middle) fun _ _ _ => rfl
      · exact fun _ => rfl

end Lists

section Expressions

variable {bound : Nat}

theorem chain_kept {mark? : Kind → Option BinaryOp}
    {loop : Expr → List Token → Except Failure (Expr × List Token)}
    {operand : Reader Expr}
    (unfolded : ∀ left input, loop left input = (match input with
      | [] => .ok (left, [])
      | first :: rest =>
          match mark? first.kind with
          | none => .ok (left, first :: rest)
          | some op => do
              let (right, rest) ← (operand rest).outcome
              loop (.binary first.line op left right) rest))
    (operands : change.KeepsBelow bound change.expr fun input => (operand input).outcome)
    (left : Expr) (input : List Token) (short : input.length < bound + 1) :
    loop (change.expr left) (input.map change.token) =
      change.outcome change.expr (loop left input) := by
  induction size : input.length using Nat.strongRecOn generalizing left input with
  | ind size ih =>
      rw [unfolded, unfolded]
      cases input with
      | nil => rfl
      | cons first rest =>
          simp only [List.length_cons] at short size
          simp only [List.map_cons, Relabelling.token_kind]
          cases mark? first.kind with
          | none => rfl
          | some op =>
              apply kept_bind (operands rest (by omega))
              intro right middle read
              have shorter := outcome_shorter read
              exact ih middle.length (by omega) (.binary first.line op left right) middle
                (by omega) rfl

theorem term_kept
    (factors : change.KeepsBelow bound change.expr fun input => (factor input).outcome) :
    change.KeepsBelow bound change.expr fun input => (term input).outcome := by
  intro input short
  simp only [term_outcome]
  apply kept_bind (factors input short)
  intro left middle read
  have shorter := outcome_shorter read
  exact chain_kept products_outcome factors left middle (by omega)

theorem simple_kept
    (terms : change.KeepsBelow bound change.expr fun input => (term input).outcome) :
    change.KeepsBelow bound change.expr fun input => (simple input).outcome := by
  intro input short
  simp only [simple_outcome]
  cases input with
  | nil => rfl
  | cons first more =>
      have loop (left : Expr) := chain_kept sums_outcome terms left
      simp only [List.map_cons, Relabelling.token_kind]
      cases sign? first.kind with
      | some op =>
          have shortMore : more.length < bound := Nat.lt_of_succ_lt short
          apply kept_bind (terms more shortMore)
          intro operand middle read
          have shorter := outcome_shorter read
          exact loop (.unary first.line op operand) middle (by omega)
      | none =>
          apply kept_bind (terms (first :: more) short)
          intro operand middle read
          have shorter := outcome_shorter read
          exact loop operand middle (by omega)

theorem expr_kept_below
    (factors : change.KeepsBelow bound change.expr fun input => (factor input).outcome) :
    change.KeepsBelow bound change.expr fun input => (expr input).outcome := by
  have simples := simple_kept (term_kept factors)
  intro input short
  simp only [expr_outcome]
  apply kept_bind (simples input short)
  intro left rest read
  have shorter := outcome_shorter read
  cases rest with
  | nil => rfl
  | cons first more =>
      simp only [List.length_cons] at shorter
      simp only [List.map_cons, Relabelling.token_kind]
      cases relation? first.kind with
      | none => rfl
      | some op => exact kept_bind (simples more (by omega)) fun _ _ _ => rfl

theorem index_kept_below
    (exprs : change.KeepsBelow bound change.expr fun input => (expr input).outcome) :
    change.KeepsBelow (bound + 1) (Option.map change.expr) fun input => (index input).outcome := by
  intro input short
  simp only [index_outcome]
  cases input with
  | nil => rfl
  | cons first rest =>
      apply kept_if
      · intro _
        apply kept_bind (exprs rest (Nat.lt_of_succ_lt_succ short))
        intro _ middle _
        exact kept_bind (token_kept .rightBracket middle) fun _ _ _ => rfl
      · exact fun _ => rfl

theorem variable_tree_kept {name : Token} (isName : name.kind = .identifier)
    (index? : Option Expr) :
    variableTree (change.token name) (index?.map change.expr) =
      change.expr (variableTree name index?) := by
  cases index? <;> simp [variableTree, Relabelling.expr, Relabelling.identifier_text isName]

theorem factor_kept_step
    (factors : change.KeepsBelow bound change.expr fun input => (factor input).outcome) :
    change.KeepsBelow (bound + 1) change.expr fun input => (factor input).outcome := by
  have exprs := expr_kept_below factors
  intro input short
  dsimp only
  rw [factor_outcome, factor_outcome]
  cases input with
  | nil => rfl
  | cons first rest =>
      have shortRest : rest.length < bound := Nat.lt_of_succ_lt_succ short
      simp only [List.map_cons, Relabelling.token_kind]
      cases marked : first.kind
      case identifier =>
        apply kept_bind (index_kept_below exprs rest (Nat.lt_succ_of_lt shortRest))
        intro index? middle _
        simp only [variable_tree_kept marked]
        rfl
      case leftParen =>
        apply kept_bind (exprs rest shortRest)
        intro _ middle _
        exact kept_bind (token_kept .rightParen middle) fun _ _ _ => rfl
      case notWord => exact kept_bind (factors rest shortRest) fun _ _ _ => rfl
      case constant =>
        rw [Relabelling.other_text (by simp [marked])]
        exact kept_value_bind fun _ => rfl
      case string =>
        rw [Relabelling.other_text (by simp [marked])]
        exact kept_value_bind fun _ => rfl
      all_goals rfl

theorem factor_kept (bound : Nat) :
    change.KeepsBelow bound change.expr fun input => (factor input).outcome := by
  induction bound with
  | zero => exact fun input short => absurd short (Nat.not_lt_zero _)
  | succ bound ih => exact factor_kept_step ih

theorem expr_kept : change.Keeps change.expr fun input => (expr input).outcome :=
  keeps_of_below fun bound => expr_kept_below (factor_kept bound)

end Expressions

theorem index_kept : change.Keeps (Option.map change.expr) fun input => (index input).outcome :=
  keeps_of_below fun _ => fun input short =>
    index_kept_below (fun input _ => expr_kept input) input (Nat.lt_succ_of_lt short)

theorem target_kept : change.Keeps change.target fun input => (target input).outcome := by
  intro input
  simp only [target_outcome]
  apply kept_bind (token_kept .identifier input)
  intro name rest read
  apply kept_bind (index_kept rest)
  intro index? _ _
  have isName := (token_ok.mp read).2
  cases index? <;> simp [targetTree, Relabelling.outcome, Relabelling.target,
    Relabelling.identifier_text isName]

theorem list_kept {item : Reader α} {onValue : α → α}
    (kept : change.Keeps onValue fun input => (item input).outcome) (separator : Kind) :
    change.Keeps (List.map onValue)
      fun input => (parenthesised (items separator item) input).outcome := by
  refine keeps_of_below fun bound input short => ?_
  exact parenthesised_kept (items_kept fun input (_ : input.length < bound) => kept input) input
    (Nat.lt_succ_of_lt short)

theorem starts_assignment_kept (input : List Token) :
    startsAssignment (input.map change.token) = startsAssignment input := by
  cases input <;> rfl

theorem assignment_kept : change.Keeps change.stmt fun input => (assignment input).outcome := by
  intro input
  simp only [assignment_outcome]
  apply kept_bind (target_kept input)
  intro assigned rest _
  apply kept_bind (token_kept .assign rest)
  intro mark rest _
  exact kept_bind (expr_kept rest) fun _ _ _ => rfl

theorem call_kept : change.Keeps change.stmt fun input => (call input).outcome := by
  intro input
  simp only [call_outcome]
  apply kept_bind (token_kept .identifier input)
  intro name rest read
  apply kept_bind (list_kept expr_kept .comma rest)
  intro arguments _ _
  simp [Relabelling.outcome, Relabelling.stmt,
    Relabelling.identifier_text (token_ok.mp read).2]

theorem conditional_tree_kept (word : Token) (condition : Expr) (thenBlock : Nat × List Stmt)
    (otherwise? : Option (Nat × List Stmt)) :
    conditionalTree (change.token word) (change.expr condition) (change.block thenBlock)
      (otherwise?.map change.block) =
        change.stmt (conditionalTree word condition thenBlock otherwise?) := by
  cases otherwise? <;> rfl

section Statements

variable {bound : Nat}

theorem else_part_kept_below
    (blocks : change.KeepsBelow bound change.block fun input => (block input).outcome) :
    change.KeepsBelow (bound + 1) (Option.map change.block)
      fun input => (elsePart input).outcome := by
  intro input short
  simp only [elsePart_outcome]
  cases input with
  | nil => rfl
  | cons first rest =>
      apply kept_if
      · intro _
        exact kept_bind (blocks rest (Nat.lt_of_succ_lt_succ short)) fun _ _ _ => rfl
      · exact fun _ => rfl

theorem stmt_kept_below
    (blocks : change.KeepsBelow bound change.block fun input => (block input).outcome) :
    change.KeepsBelow bound change.stmt fun input => (stmt input).outcome := by
  intro input short
  simp only [stmt_outcome]
  cases input with
  | nil => rfl
  | cons first rest =>
      simp only [List.length_cons] at short
      simp only [List.map_cons, Relabelling.token_kind]
      cases marked : first.kind
      case ifWord =>
        apply kept_bind (expr_kept rest)
        intro condition afterTest tested
        have shortTest : afterTest.length < rest.length := outcome_shorter tested
        apply kept_bind (token_kept .thenWord afterTest)
        intro word afterThen isThen
        have shortThen : afterThen.length < afterTest.length := outcome_shorter isThen
        apply kept_bind (blocks afterThen (by omega))
        intro thenBlock afterBlock read
        have shortBlock : afterBlock.length < afterThen.length := outcome_shorter read
        apply kept_bind (else_part_kept_below blocks afterBlock (by omega))
        intro otherwise? _ _
        simp only [conditional_tree_kept]
        rfl
      case whileWord =>
        apply kept_bind (expr_kept rest)
        intro condition afterTest tested
        have shortTest : afterTest.length < rest.length := outcome_shorter tested
        apply kept_bind (token_kept .doWord afterTest)
        intro word afterDo isDo
        have shortDo : afterDo.length < afterTest.length := outcome_shorter isDo
        exact kept_bind (blocks afterDo (by omega)) fun _ _ _ => rfl
      case identifier =>
        -- the choice looks at kinds alone
        rw [starts_assignment_kept]
        cases startsAssignment rest with
        | true => exact assignment_kept (first :: rest)
        | false => exact call_kept (first :: rest)
      case readlnWord => exact kept_bind (list_kept target_kept .comma rest) fun _ _ _ => rfl
      case writelnWord => exact kept_bind (list_kept expr_kept .comma rest) fun _ _ _ => rfl
      case beginWord => exact kept_bind (blocks (first :: rest) short) fun _ _ _ => rfl
      all_goals rfl

theorem stmts_kept_below
    (blocks : change.KeepsBelow bound change.block fun input => (block input).outcome) :
    change.KeepsBelow bound change.stmts fun input => (stmts input).outcome := by
  intro input short
  induction size : input.length using Nat.strongRecOn generalizing input with
  | ind size ih =>
      dsimp only
      rw [stmts_outcome, stmts_outcome]
      cases input with
      | nil => rfl
      | cons first more =>
          apply kept_if
          · intro _
            apply kept_bind (stmt_kept_below blocks (first :: more) short)
            intro statement middle read
            have shorter : middle.length < (first :: more).length := outcome_shorter read
            apply kept_bind (token_kept .semicolon middle)
            intro mark others ended
            have fewer : others.length < middle.length := outcome_shorter ended
            exact kept_bind (ih others.length (by omega) others (by omega) rfl) fun _ _ _ => rfl
          · exact fun _ => rfl

theorem block_kept_below (bound : Nat) :
    change.KeepsBelow bound change.block fun input => (block input).outcome := by
  induction bound with
  | zero => exact fun input short => absurd short (Nat.not_lt_zero _)
  | succ bound ih =>
      intro input short
      simp only [block_outcome]
      cases input with
      | nil => rfl
      | cons first rest =>
          apply kept_if
          · intro _
            apply kept_bind (stmts_kept_below ih rest (Nat.lt_of_succ_lt_succ short))
            intro body middle _
            exact kept_bind (token_kept .endWord middle) fun _ _ _ => rfl
          · exact fun _ => rfl

theorem block_kept : change.Keeps change.block fun input => (block input).outcome :=
  keeps_of_below block_kept_below

end Statements

theorem standard_type_kept : change.Keeps id fun input => (standardType input).outcome := by
  intro input
  simp only [standardType_outcome]
  cases input with
  | nil => rfl
  | cons first rest =>
      simp only [List.map_cons, Relabelling.token_kind]
      cases standardType? first.kind <;> rfl

theorem magnitude_kept : change.Keeps id fun input => (magnitude input).outcome := by
  intro input
  simp only [magnitude_outcome]
  apply kept_bind (token_kept .constant input)
  intro numeral rest read
  have plain : numeral.kind ≠ .identifier := by simp [(token_ok.mp read).2]
  simp only [Relabelling.other_text plain]
  exact kept_value_bind fun _ => rfl

theorem bound_kept : change.Keeps id fun input => (bound input).outcome := by
  intro input
  simp only [bound_outcome]
  cases input with
  | nil => rfl
  | cons first rest =>
      simp only [List.map_cons, Relabelling.token_kind]
      cases sign? first.kind with
      | some sign => exact kept_bind (magnitude_kept rest) fun _ _ _ => rfl
      | none => exact kept_bind (magnitude_kept (first :: rest)) fun _ _ _ => rfl

theorem type_spec_kept : change.Keeps (fun spec => (spec.1, change.line spec.2))
    fun input => (typeSpec input).outcome := by
  intro input
  simp only [typeSpec_outcome]
  cases input with
  | nil => rfl
  | cons first rest =>
      apply kept_if
      · intro _
        apply kept_bind (token_kept .leftBracket rest)
        intro _ rest _
        apply kept_bind (bound_kept rest)
        intro _ rest _
        apply kept_bind (token_kept .range rest)
        intro _ rest _
        apply kept_bind (bound_kept rest)
        intro _ rest _
        apply kept_bind (token_kept .rightBracket rest)
        intro _ rest _
        apply kept_bind (token_kept .ofWord rest)
        intro _ rest _
        exact kept_bind (standard_type_kept rest) fun _ _ _ => rfl
      · intro _
        exact kept_bind (standard_type_kept (first :: rest)) fun _ _ _ => rfl

theorem names_kept : change.Keeps (List.map change.token) fun input => (names input).outcome :=
  keeps_of_below fun _ => items_kept fun input _ => token_kept .identifier input

theorem names_identifiers {tokens names : List Token}
    (listed : Separated .comma NamePhrase tokens names) :
    ∀ name ∈ names, name.kind = .identifier := by
  induction listed with
  | one tokens name only =>
      cases only with
      | name _ isName => simpa using isName
  | more tokens others mark name names first marked rest ih =>
      cases first with
      | name _ isName =>
          intro other member
          rcases List.mem_cons.mp member with rfl | later
          · exact isName
          · exact ih other later

theorem declared_kept {input rest found : List Token}
    (read : (names input).outcome = .ok (found, rest)) {declare again : Token → α}
    {onDeclared : α → α}
    (same : ∀ name : Token, name.kind = .identifier →
      again (change.token name) = onDeclared (declare name)) :
    (found.map change.token).map again = (found.map declare).map onDeclared := by
  obtain ⟨taken, _, listed⟩ := names_derived input found rest read
  rw [List.map_map, List.map_map]
  exact List.map_congr_left fun name member => same name (names_identifiers listed name member)

theorem var_group_kept : change.Keeps (List.map change.varDecl)
    fun input => (varGroup input).outcome := by
  intro input
  simp only [varGroup_outcome]
  apply kept_bind (names_kept input)
  intro found rest read
  apply kept_bind (token_kept .colon rest)
  intro _ rest _
  apply kept_bind (type_spec_kept rest)
  intro spec rest _
  apply kept_bind (token_kept .semicolon rest)
  intro _ rest _
  simp only [Relabelling.outcome, Except.ok.injEq, Prod.mk.injEq, and_true]
  apply declared_kept read
  intro name isName
  simp only [Relabelling.varDecl, Relabelling.identifier_text isName, Relabelling.token_line]

theorem more_var_groups_kept : change.Keeps (List.map change.varDecl)
    fun input => (moreVarGroups input).outcome := by
  intro input
  induction size : input.length using Nat.strongRecOn generalizing input with
  | ind size ih =>
      dsimp only
      rw [moreVarGroups_outcome, moreVarGroups_outcome]
      cases input with
      | nil => rfl
      | cons first more =>
          apply kept_if
          · intro _
            apply kept_bind (var_group_kept (first :: more))
            intro group middle read
            have shorter := outcome_shorter read
            apply kept_bind (ih middle.length (by omega) middle rfl)
            intro groups _ _
            simp only [Relabelling.outcome, List.map_append]
          · exact fun _ => rfl

theorem vars_kept : change.Keeps (List.map change.varDecl) fun input => (vars input).outcome := by
  intro input
  simp only [vars_outcome]
  cases input with
  | nil => rfl
  | cons first rest =>
      apply kept_if
      · intro _
        apply kept_bind (var_group_kept rest)
        intro group rest _
        apply kept_bind (more_var_groups_kept rest)
        intro groups _ _
        simp only [Relabelling.outcome, List.map_append]
      · exact fun _ => rfl

theorem param_group_kept : change.Keeps (List.map change.param)
    fun input => (paramGroup input).outcome := by
  intro input
  simp only [paramGroup_outcome]
  apply kept_bind (names_kept input)
  intro found rest read
  apply kept_bind (token_kept .colon rest)
  intro _ rest _
  apply kept_bind (standard_type_kept rest)
  intro type rest _
  simp only [Relabelling.outcome, Except.ok.injEq, Prod.mk.injEq, and_true]
  apply declared_kept read
  intro name isName
  simp only [Relabelling.param, Relabelling.identifier_text isName, Relabelling.token_line, id]

theorem procedure_kept : change.Keeps change.procedure
    fun input => (procedure input).outcome := by
  intro input
  simp only [procedure_outcome]
  apply kept_bind (token_kept .procedureWord input)
  intro _ rest _
  apply kept_bind (token_kept .identifier rest)
  intro name rest read
  apply kept_bind (list_kept param_group_kept .semicolon rest)
  intro groups rest _
  apply kept_bind (token_kept .semicolon rest)
  intro _ rest _
  apply kept_bind (vars_kept rest)
  intro vars rest _
  apply kept_bind (block_kept rest)
  intro body rest _
  simp only [Relabelling.outcome, Relabelling.procedure, Relabelling.block, Relabelling.token_line,
    Relabelling.identifier_text (token_ok.mp read).2, List.map_flatten]

theorem procedures_kept : change.Keeps (List.map change.procedure)
    fun input => (procedures input).outcome := by
  intro input
  induction size : input.length using Nat.strongRecOn generalizing input with
  | ind size ih =>
      dsimp only
      rw [procedures_outcome, procedures_outcome]
      cases input with
      | nil => rfl
      | cons first more =>
          apply kept_if
          · intro _
            apply kept_bind (procedure_kept (first :: more))
            intro declared middle read
            have shorter : middle.length < (first :: more).length := outcome_shorter read
            apply kept_bind (token_kept .semicolon middle)
            intro mark others ended
            have fewer : others.length < middle.length := outcome_shorter ended
            exact kept_bind (ih others.length (by omega) others rfl) fun _ _ _ => rfl
          · exact fun _ => rfl

theorem program_kept : change.Keeps change.program fun input => (program input).outcome := by
  intro input
  simp only [program_outcome]
  apply kept_bind (token_kept .programWord input)
  intro word rest _
  apply kept_bind (token_kept .identifier rest)
  intro name rest read
  apply kept_bind (token_kept .semicolon rest)
  intro _ rest _
  apply kept_bind (vars_kept rest)
  intro vars rest _
  apply kept_bind (procedures_kept rest)
  intro procedures rest _
  apply kept_bind (block_kept rest)
  intro body rest _
  apply kept_bind (token_kept .dot rest)
  intro _ _ _
  simp only [Relabelling.outcome, Relabelling.program, Relabelling.block, Relabelling.token_line,
    Relabelling.identifier_text (token_ok.mp read).2]

theorem sentence_outcome (input : List Token) :
    sentence input = (match (program input).outcome with
      | .error stopped => .error stopped
      | .ok (tree, []) => .ok tree
      | .ok (_, first :: rest) => .error (.unexpected (first :: rest))) := by
  unfold sentence
  cases program input with
  | error stopped => rfl
  | ok reading =>
      obtain ⟨tree, rest, within⟩ := reading
      cases rest <;> rfl

theorem sentence_kept (input : List Token) :
    sentence (input.map change.token) = (match sentence input with
      | .ok tree => .ok (change.program tree)
      | .error stopped => .error (change.failure stopped)) := by
  have kept : (program (input.map change.token)).outcome =
      change.outcome change.program (program input).outcome := program_kept input
  rw [sentence_outcome, sentence_outcome, kept]
  rcases (program input).outcome with stopped | ⟨tree, _ | ⟨first, rest⟩⟩ <;> rfl

theorem failure_line_kept (stopped : Failure) (last : Nat) :
    (change.failure stopped).line (change.line last) = change.line (stopped.line last) := by
  rcases stopped with ⟨_ | ⟨first, rest⟩⟩ | ⟨token, rest⟩ <;> rfl

end Grammar

variable {change : Relabelling}

theorem input_kept (tokens : List Token) :
    (Cursor.mk (tokens.map change.token) 0).input =
      (Cursor.mk tokens 0).input.map change.token := by
  simp only [Cursor.input, Cursor.upcoming, List.drop_zero, List.takeWhile_map]
  rfl

theorem end_line_kept {tokens : List Token} (written : tokens ≠ []) :
    (Cursor.mk (tokens.map change.token) 0).endLine =
      change.line (Cursor.mk tokens 0).endLine := by
  simp only [Cursor.endLine, Cursor.upcoming, List.drop_zero, List.find?_map, List.getLast?_map,
    List.getLast?_eq_some_getLast written]
  have same : Token.isEnd ∘ change.token = Token.isEnd := rfl
  rw [same]
  cases tokens.find? Token.isEnd <;> rfl

/-- The end mark that is added stands on the line of a token, so it moves with
the tokens where there are any. -/
theorem close_tokens_kept {tokens : List Token} (written : tokens ≠ []) :
    closeTokens (tokens.map change.token) = (closeTokens tokens).map change.token := by
  simp only [closeTokens, List.getLast?_map, List.getLast?_eq_some_getLast written, Option.map_some,
    Relabelling.token_is_end]
  by_cases ends : (tokens.getLast written).isEnd
  · simp only [ends, ↓reduceIte]
  · simp only [ends, Bool.false_eq_true, ↓reduceIte, List.map_append]
    rfl

theorem close_tokens_written (tokens : List Token) : closeTokens tokens ≠ [] := by
  unfold closeTokens
  split
  · exact List.cons_ne_nil _ _
  · next last ending =>
      split
      · rintro rfl
        cases ending
      · simp

theorem parse_kept {tokens : List Token} (written : tokens ≠ []) :
    Program.ofTokens (tokens.map change.token) =
      change.result change.program (Program.ofTokens tokens) := by
  simp only [Program.ofTokens, Cursor.ofTokens, Cursor.parse, close_tokens_kept written, input_kept,
    sentence_kept, end_line_kept (close_tokens_written tokens)]
  cases sentence (Cursor.mk (closeTokens tokens) 0).input with
  | ok tree => rfl
  | error stopped =>
      simp only [Relabelling.result, failure_line_kept, change.syntactic]

end PascalCasl
