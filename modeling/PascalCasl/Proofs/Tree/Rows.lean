import PascalCasl.Proofs.Casl.Reading
import PascalCasl.Proofs.Text.Decimal
import PascalCasl.Proofs.Tree.Outline
import PascalCasl.Tree.Rows

/-!
The rows of a tree determine its outline. The label of a row says which node
begins there, and the rows of its parts follow in order. The number of parts of
an expression is known from its label. A list of parts goes on as long as rows
of its depth follow, or, among declarations, rows of its label; so the rows
behind a node are the same in two readings, and its parts are alike.
-/

namespace PascalCasl.Rows

/-- The rows do not go on with a node that begins as `opens` says. -/
def Closes (opens : Row → Prop) (rows : List Row) : Prop := ∀ row ∈ rows.head?, ¬ opens row

/-- The rows go on above the depth, if they go on at all. -/
def Above (depth : Nat) (rows : List Row) : Prop := ∀ row ∈ rows.head?, row.depth < depth

def Begins (opens : Row → Prop) (rows : List Row) : Prop :=
  ∃ row more, rows = row :: more ∧ opens row

@[simp] theorem above_nil (depth : Nat) : Above depth [] := by simp [Above]

@[simp] theorem above_cons {depth : Nat} {row : Row} {rows : List Row} :
    Above depth (row :: rows) ↔ row.depth < depth := by simp [Above]

theorem Above.mono {depth deeper : Nat} {rows : List Row} (above : Above depth rows)
    (ordered : depth ≤ deeper) : Above deeper rows :=
  fun row first => Nat.lt_of_lt_of_le (above row first) ordered

section

variable {α β : Type} {rows : α → List Row} {key : α → β} {firsts seconds : List α}
  {rest other : List Row}

/-- Two lists of nodes with the same rows hold the same, node by node, if nodes
are told apart from what comes behind them. -/
theorem items_cancel {opens : Row → Prop} {after : List Row → Prop}
    (each : ∀ first ∈ firsts, ∀ second rest other, after rest → after other →
      rows first ++ rest = rows second ++ other → key first = key second ∧ rest = other)
    (begins : ∀ item, Begins opens (rows item)) (goesOn : ∀ row more, opens row → after (row :: more))
    (closed : Closes opens rest) (closedToo : Closes opens other) (ended : after rest)
    (endedToo : after other)
    (same : firsts.flatMap rows ++ rest = seconds.flatMap rows ++ other) :
    firsts.map key = seconds.map key ∧ rest = other := by
  have next (items : List α) {tail : List Row} (ended : after tail) :
      after (items.flatMap rows ++ tail) := by
    cases items with
    | nil => exact ended
    | cons item items =>
        obtain ⟨row, more, begun, opened⟩ := begins item
        rw [List.flatMap_cons, begun]
        exact goesOn _ _ opened
  -- a list that has ended is followed by no row that opens an item
  have apart {item : α} {more tail : List Row} (closed : Closes opens tail) :
      tail ≠ rows item ++ more := by
    rintro rfl
    obtain ⟨row, others, begun, opened⟩ := begins item
    rw [begun] at closed
    exact closed row rfl opened
  induction firsts generalizing seconds with
  | nil =>
      cases seconds with
      | nil => exact ⟨rfl, same⟩
      | cons second seconds =>
          rw [List.flatMap_cons, List.append_assoc] at same
          exact absurd same (apart closed)
  | cons first firsts ih =>
      cases seconds with
      | nil =>
          rw [List.flatMap_cons, List.append_assoc] at same
          exact absurd same.symm (apart closedToo)
      | cons second seconds =>
          rw [List.flatMap_cons, List.flatMap_cons, List.append_assoc, List.append_assoc] at same
          obtain ⟨head, tails⟩ := each first List.mem_cons_self second _ _ (next firsts ended)
            (next seconds endedToo) same
          obtain ⟨keys, ends⟩ := ih (fun item member => each item (List.mem_cons_of_mem _ member))
            tails
          exact ⟨by rw [List.map_cons, head, keys, List.map_cons], ends⟩

theorem nodes_cancel {depth : Nat}
    (each : ∀ first ∈ firsts, ∀ second rest other, Above (depth + 1) rest →
      Above (depth + 1) other → rows first ++ rest = rows second ++ other →
      key first = key second ∧ rest = other)
    (begins : ∀ item, Begins (·.depth = depth) (rows item)) (above : Above depth rest)
    (aboveToo : Above depth other)
    (same : firsts.flatMap rows ++ rest = seconds.flatMap rows ++ other) :
    firsts.map key = seconds.map key ∧ rest = other := by
  have closed {tail : List Row} (above : Above depth tail) : Closes (·.depth = depth) tail :=
    fun row first level => Nat.lt_irrefl depth (level ▸ above row first)
  refine items_cancel each begins (fun row more level => ?_) (closed above) (closed aboveToo)
    (above.mono (Nat.le_succ depth)) (aboveToo.mono (Nat.le_succ depth)) same
  rw [above_cons, level]
  exact Nat.lt_succ_self depth

end

variable {depth : Nat} {rest other : List Row}

theorem unary_symbol_injective : Function.Injective UnaryOp.symbol := by
  intro first second same
  cases first <;> cases second <;> simp [UnaryOp.symbol] at same ⊢

theorem binary_symbol_injective : Function.Injective BinaryOp.symbol := by
  intro first second same
  cases first <;> cases second <;> simp [BinaryOp.symbol] at same ⊢

theorem standard_name_injective : Function.Injective StandardType.name := by
  intro first second same
  cases first <;> cases second <;> simp [StandardType.name] at same ⊢

theorem truth_name_injective : Function.Injective truthName := by
  intro first second same
  cases first <;> cases second <;> simp [truthName] at same ⊢

theorem expr_begins (depth : Nat) (value : Expr) : Begins (·.depth = depth) (expr depth value) := by
  cases value <;> exact ⟨_, _, rfl, rfl⟩

/-! A number is read back from its text. -/

@[simp] theorem number_written {first second : Nat} :
    first.repr = second.repr ↔ first = second := by
  refine ⟨fun same => ?_, congrArg Nat.repr⟩
  have value := Text.digits_value_repr first
  rw [same, Text.digits_value_repr] at value
  exact (Option.some.inj value).symm

@[simp] theorem integer_written {first second : Int} :
    first.repr = second.repr ↔ first = second := by
  refine ⟨fun same => ?_, congrArg Int.repr⟩
  have value := Casl.read_integer first
  rw [same, Casl.read_integer] at value
  exact (Option.some.inj value).symm

theorem expr_cancel {first second : Expr}
    (same : expr depth first ++ rest = expr depth second ++ other) :
    unlined.expr first = unlined.expr second ∧ rest = other := by
  induction first generalizing second depth rest other with
  | number line value =>
      cases second <;> simp [expr, titled, Expr.label] at same
      obtain ⟨rfl, rfl⟩ := same
      exact ⟨rfl, rfl⟩
  | string line text =>
      cases second <;> simp [expr, titled, Expr.label] at same
      obtain ⟨rfl, rfl⟩ := same
      exact ⟨rfl, rfl⟩
  | truth line value =>
      cases second <;> simp [expr, titled, Expr.label] at same
      obtain ⟨named, rfl⟩ := same
      cases truth_name_injective named
      exact ⟨rfl, rfl⟩
  | simple line name =>
      cases second <;> simp [expr, titled, Expr.label] at same
      obtain ⟨rfl, rfl⟩ := same
      exact ⟨rfl, rfl⟩
  | indexed line name index ih =>
      cases second <;> simp [expr, titled, Expr.label] at same
      obtain ⟨rfl, same⟩ := same
      obtain ⟨indexes, rfl⟩ := ih same
      exact ⟨by rw [Relabelling.expr, indexes]; rfl, rfl⟩
  | unary line op operand ih =>
      cases second <;> simp [expr, titled, Expr.label] at same
      obtain ⟨symbol, same⟩ := same
      cases unary_symbol_injective symbol
      obtain ⟨operands, rfl⟩ := ih same
      exact ⟨by rw [Relabelling.expr, operands]; rfl, rfl⟩
  | binary line op left right leftIh rightIh =>
      cases second <;> simp [expr, titled, Expr.label] at same
      obtain ⟨symbol, same⟩ := same
      cases binary_symbol_injective symbol
      obtain ⟨lefts, same⟩ := leftIh same
      obtain ⟨rights, rfl⟩ := rightIh same
      exact ⟨by rw [Relabelling.expr, lefts, rights]; rfl, rfl⟩

theorem target_cancel {first second : Target}
    (same : target depth first ++ rest = target depth second ++ other) :
    unlined.target first = unlined.target second ∧ rest = other := by
  cases first with
  | simple line name =>
      cases second <;> simp [target, titled, Target.label] at same
      obtain ⟨rfl, rfl⟩ := same
      exact ⟨rfl, rfl⟩
  | indexed line name index =>
      cases second <;> simp [target, titled, Target.label] at same
      obtain ⟨rfl, same⟩ := same
      obtain ⟨indexes, rfl⟩ := expr_cancel same
      exact ⟨by rw [Relabelling.target, indexes]; rfl, rfl⟩

theorem exprs_cancel {firsts seconds : List Expr} (above : Above depth rest)
    (aboveToo : Above depth other)
    (same : firsts.flatMap (expr depth) ++ rest = seconds.flatMap (expr depth) ++ other) :
    firsts.map unlined.expr = seconds.map unlined.expr ∧ rest = other :=
  nodes_cancel (fun _ _ _ _ _ _ _ same => expr_cancel same) (expr_begins depth) above aboveToo same

theorem targets_cancel {firsts seconds : List Target} (above : Above depth rest)
    (aboveToo : Above depth other)
    (same : (firsts.flatMap fun filled =>
        bare depth "InputStatementComponent" :: target (depth + 1) filled) ++ rest =
      (seconds.flatMap fun filled =>
        bare depth "InputStatementComponent" :: target (depth + 1) filled) ++ other) :
    firsts.map unlined.target = seconds.map unlined.target ∧ rest = other :=
  nodes_cancel (fun _ _ _ _ _ _ _ same => target_cancel (List.cons.inj same).2)
    (fun _ => ⟨_, _, rfl, rfl⟩) above aboveToo same

theorem written_cancel {firsts seconds : List Expr} (above : Above depth rest)
    (aboveToo : Above depth other)
    (same : (firsts.flatMap fun value =>
        bare depth "OutputStatementComponent" :: expr (depth + 1) value) ++ rest =
      (seconds.flatMap fun value =>
        bare depth "OutputStatementComponent" :: expr (depth + 1) value) ++ other) :
    firsts.map unlined.expr = seconds.map unlined.expr ∧ rest = other :=
  nodes_cancel (fun _ _ _ _ _ _ _ same => expr_cancel (List.cons.inj same).2)
    (fun _ => ⟨_, _, rfl, rfl⟩) above aboveToo same

theorem stmts_eq (depth : Nat) (body : List Stmt) : stmts depth body = body.flatMap (stmt depth) := by
  induction body with
  | nil => rfl
  | cons first rest ih => rw [stmts, ih, List.flatMap_cons]

theorem unlined_stmts (body : List Stmt) : unlined.stmts body = body.map unlined.stmt := by
  induction body with
  | nil => rfl
  | cons first rest ih => rw [Relabelling.stmts, ih, List.map_cons]

theorem stmt_begins (depth : Nat) (statement : Stmt) :
    Begins (·.depth = depth) (stmt depth statement) := by
  cases statement <;> exact ⟨_, _, rfl, rfl⟩

/-- The bodies of a statement are told apart from the rows behind them, which
begin further to the left. -/
theorem stmt_cancel (first : Stmt) {second : Stmt} {depth : Nat} {rest other : List Row}
    (above : Above (depth + 1) rest) (aboveToo : Above (depth + 1) other)
    (same : stmt depth first ++ rest = stmt depth second ++ other) :
    unlined.stmt first = unlined.stmt second ∧ rest = other := by
  have body_cancel {body : List Stmt} (smaller : sizeOf body < sizeOf first) {seconds : List Stmt}
      {depth : Nat} {rest other : List Row} (above : Above depth rest) (aboveToo : Above depth other)
      (same : stmts depth body ++ rest = stmts depth seconds ++ other) :
      unlined.stmts body = unlined.stmts seconds ∧ rest = other := by
    rw [stmts_eq, stmts_eq] at same
    rw [unlined_stmts, unlined_stmts]
    refine nodes_cancel (fun statement member second rest other above aboveToo same => ?_)
      (stmt_begins depth) above aboveToo same
    have inside : sizeOf statement < sizeOf body := List.sizeOf_lt_of_mem member
    exact stmt_cancel statement above aboveToo same
  have deeper {tail : List Row} (above : Above (depth + 1) tail) : Above (depth + 2) tail :=
    above.mono (Nat.le_succ _)
  have deepest {tail : List Row} (above : Above (depth + 1) tail) : Above (depth + 3) tail :=
    (deeper above).mono (Nat.le_succ _)
  cases first with
  | assign line assigned value =>
      cases second <;> simp [stmt, titled, bare, Stmt.label] at same
      obtain ⟨targets, same⟩ := target_cancel same
      obtain ⟨values, rfl⟩ := expr_cancel same
      exact ⟨by rw [Relabelling.stmt, targets, values]; rfl, rfl⟩
  | call line name arguments =>
      cases second <;> simp [stmt, titled, bare, Stmt.label] at same
      obtain ⟨rfl, same⟩ := same
      obtain ⟨values, rfl⟩ := exprs_cancel above aboveToo same
      exact ⟨by rw [Relabelling.stmt, values]; rfl, rfl⟩
  | ifThen line condition thenLine thenBody =>
      have size := Stmt.ifThen.sizeOf_spec line condition thenLine thenBody
      cases second <;> simp [stmt, titled, bare, Stmt.label, blockLabel] at same
      · obtain ⟨tests, same⟩ := expr_cancel same
        rw [List.cons.injEq, List.cons.injEq] at same
        obtain ⟨bodies, same⟩ := body_cancel (by omega) (by simp) (by simp) same.2.2
        exact ⟨by rw [Relabelling.stmt, tests, bodies]; rfl, (List.cons.inj same).2⟩
      · -- no block follows where an else part is absent
        obtain ⟨_, same⟩ := expr_cancel same
        rw [List.cons.injEq, List.cons.injEq] at same
        obtain ⟨_, same⟩ := body_cancel (by omega) (by simp) (by simp) same.2.2
        rw [(List.cons.inj same).2, above_cons] at above
        exact absurd above (by simp)
  | ifElse line condition thenLine thenBody elseLine elseBody =>
      have size := Stmt.ifElse.sizeOf_spec line condition thenLine thenBody elseLine elseBody
      cases second <;> simp [stmt, titled, bare, Stmt.label, blockLabel] at same
      · obtain ⟨_, same⟩ := expr_cancel same
        rw [List.cons.injEq, List.cons.injEq] at same
        obtain ⟨_, same⟩ := body_cancel (by omega) (by simp) (by simp) same.2.2
        rw [← (List.cons.inj same).2, above_cons] at aboveToo
        exact absurd aboveToo (by simp)
      · obtain ⟨tests, same⟩ := expr_cancel same
        rw [List.cons.injEq, List.cons.injEq] at same
        obtain ⟨bodies, same⟩ := body_cancel (by omega) (by simp) (by simp) same.2.2
        rw [List.cons.injEq, List.cons.injEq] at same
        obtain ⟨others, rfl⟩ := body_cancel (by omega) (deepest above) (deepest aboveToo)
          same.2.2
        exact ⟨by rw [Relabelling.stmt, tests, bodies, others]; rfl, rfl⟩
  | whileDo line condition bodyLine body =>
      have size := Stmt.whileDo.sizeOf_spec line condition bodyLine body
      cases second <;> simp [stmt, titled, bare, Stmt.label, blockLabel] at same
      obtain ⟨tests, same⟩ := expr_cancel same
      rw [List.cons.injEq] at same
      obtain ⟨bodies, rfl⟩ := body_cancel (by omega) (deeper above) (deeper aboveToo) same.2
      exact ⟨by rw [Relabelling.stmt, tests, bodies]; rfl, rfl⟩
  | read line targets =>
      cases second <;> simp [stmt, titled, bare, Stmt.label, blockLabel] at same
      obtain ⟨filled, rfl⟩ := targets_cancel above aboveToo same
      exact ⟨by rw [Relabelling.stmt, filled]; rfl, rfl⟩
  | write line values =>
      cases second <;> simp [stmt, titled, bare, Stmt.label, blockLabel] at same
      obtain ⟨written, rfl⟩ := written_cancel above aboveToo same
      exact ⟨by rw [Relabelling.stmt, written]; rfl, rfl⟩
  | block line body =>
      have size := Stmt.block.sizeOf_spec line body
      cases second <;> simp [stmt, titled, bare, Stmt.label, blockLabel] at same
      obtain ⟨bodies, rfl⟩ := body_cancel (by omega) above aboveToo same
      exact ⟨by rw [Relabelling.stmt, bodies]; rfl, rfl⟩
  termination_by sizeOf first

theorem block_cancel {body others : List Stmt} (above : Above (depth + 1) rest)
    (aboveToo : Above (depth + 1) other)
    (same : block depth body ++ rest = block depth others ++ other) :
    unlined.stmts body = unlined.stmts others ∧ rest = other := by
  have asStatements : stmt depth (.block 0 body) ++ rest = stmt depth (.block 0 others) ++ other :=
    same
  obtain ⟨bodies, ends⟩ := stmt_cancel (.block 0 body) above aboveToo asStatements
  rw [Relabelling.stmt, Relabelling.stmt] at bodies
  exact ⟨(Stmt.block.inj bodies).2, ends⟩

theorem type_cancel {first second : TypeSpec}
    (same : typeSpec depth first ++ rest = typeSpec depth second ++ other) :
    first.settled = second.settled ∧ rest = other := by
  cases first with
  | standard type =>
      cases second <;> simp [typeSpec, titled, bare, TypeSpec.label] at same
      obtain ⟨named, rfl⟩ := same
      cases standard_name_injective named
      exact ⟨rfl, rfl⟩
  | array low high element =>
      cases second <;> simp [typeSpec, titled, bare, TypeSpec.label] at same
      obtain ⟨lows, highs, named, rfl⟩ := same
      cases standard_name_injective named
      exact ⟨by rw [TypeSpec.settled, bound_settled_iff.mpr lows, bound_settled_iff.mpr highs]; rfl,
        rfl⟩

def varOutline (declared : VarDecl) : VarDecl := (unlined.varDecl declared).settled

theorem var_cancel {first second : VarDecl}
    (same : varDecl depth first ++ rest = varDecl depth second ++ other) :
    varOutline first = varOutline second ∧ rest = other := by
  rcases first with ⟨name, line, type, typeLine⟩
  rcases second with ⟨otherName, otherLine, otherType, otherTypeLine⟩
  simp [varDecl, titled] at same
  obtain ⟨rfl, same⟩ := same
  obtain ⟨types, rfl⟩ := type_cancel same
  exact ⟨by simp only [varOutline, VarDecl.settled, Relabelling.varDecl, types]; rfl, rfl⟩

theorem param_cancel {first second : Param}
    (same : param depth first ++ rest = param depth second ++ other) :
    unlined.param first = unlined.param second ∧ rest = other := by
  rcases first with ⟨name, line, type⟩
  rcases second with ⟨otherName, otherLine, otherType⟩
  simp [param, titled] at same
  obtain ⟨rfl, named, rfl⟩ := same
  cases standard_name_injective named
  exact ⟨rfl, rfl⟩

/-- Declarations of one kind have one label, and what comes behind them another. -/
theorem declared_cancel {α β : Type} {rows : α → List Row} {key : α → β} {label : String}
    {firsts seconds : List α}
    (each : ∀ first second rest other, rows first ++ rest = rows second ++ other →
      key first = key second ∧ rest = other)
    (begins : ∀ item, Begins (·.label = label) (rows item))
    (closed : Closes (·.label = label) rest) (closedToo : Closes (·.label = label) other)
    (same : firsts.flatMap rows ++ rest = seconds.flatMap rows ++ other) :
    firsts.map key = seconds.map key ∧ rest = other :=
  @items_cancel α β rows key firsts seconds rest other (·.label = label) (fun _ => True)
    (fun first _ second rest other _ _ same => each first second rest other same) begins
    (fun _ _ _ => trivial) closed closedToo trivial trivial same

theorem closes_behind {α : Type} {rows : α → List Row} {label behind : String} {items : List α}
    (begins : ∀ item, Begins (·.label = behind) (rows item)) (apart : behind ≠ label)
    (closed : Closes (·.label = label) rest) :
    Closes (·.label = label) (items.flatMap rows ++ rest) := by
  cases items with
  | nil => exact closed
  | cons item items =>
      obtain ⟨row, more, begun, labelled⟩ := begins item
      rw [List.flatMap_cons, begun]
      intro first found
      cases found
      exact fun same => apart (labelled.symm.trans same)

theorem closes_block {label : String} {body : List Stmt} (apart : blockLabel ≠ label) :
    Closes (·.label = label) (block depth body ++ rest) := by
  intro row found
  cases found
  exact apart

theorem var_begins (depth : Nat) (declared : VarDecl) :
    Begins (·.label = "VariableDeclarator") (varDecl depth declared) := ⟨_, _, rfl, rfl⟩

theorem param_begins (depth : Nat) (declared : Param) :
    Begins (·.label = "FormalParameterDeclarator") (param depth declared) := ⟨_, _, rfl, rfl⟩

theorem procedure_begins (depth : Nat) (declared : Procedure) :
    Begins (·.label = "Subprogram") (procedure depth declared) := ⟨_, _, rfl, rfl⟩

theorem vars_cancel {firsts seconds : List VarDecl}
    (closed : Closes (·.label = "VariableDeclarator") rest)
    (closedToo : Closes (·.label = "VariableDeclarator") other)
    (same : firsts.flatMap (varDecl depth) ++ rest = seconds.flatMap (varDecl depth) ++ other) :
    firsts.map varOutline = seconds.map varOutline ∧ rest = other :=
  declared_cancel (fun _ _ _ _ same => var_cancel same) (var_begins depth) closed closedToo same

def procedureOutline (declared : Procedure) : Procedure := (unlined.procedure declared).settled

theorem procedure_outline (declared : Procedure) :
    procedureOutline declared = ⟨declared.name, 0, declared.params.map unlined.param,
      declared.vars.map varOutline, 0, unlined.stmts declared.body⟩ := by
  simp only [procedureOutline, Procedure.settled, Relabelling.procedure, List.map_map]
  rfl

theorem procedure_cancel {first second : Procedure} (above : Above (depth + 2) rest)
    (aboveToo : Above (depth + 2) other)
    (same : procedure depth first ++ rest = procedure depth second ++ other) :
    procedureOutline first = procedureOutline second ∧ rest = other := by
  rcases first with ⟨name, line, params, vars, bodyLine, body⟩
  rcases second with ⟨otherName, otherLine, otherParams, otherVars, otherBodyLine, otherBody⟩
  simp only [procedure, titled, bare, List.cons_append, List.append_assoc, List.cons.injEq,
    Row.mk.injEq, Option.some.injEq, true_and] at same
  obtain ⟨rfl, same⟩ := same
  obtain ⟨paramOutlines, same⟩ := declared_cancel (fun _ _ _ _ same => param_cancel same)
    (param_begins (depth + 2))
    (closes_behind (var_begins (depth + 1)) (by decide) (closes_block (by decide)))
    (closes_behind (var_begins (depth + 1)) (by decide) (closes_block (by decide))) same
  obtain ⟨varOutlines, same⟩ := vars_cancel (closes_block (by decide)) (closes_block (by decide)) same
  obtain ⟨bodies, rfl⟩ := block_cancel above aboveToo same
  exact ⟨by simp only [procedure_outline, paramOutlines, varOutlines, bodies], rfl⟩

theorem procedures_cancel {firsts seconds : List Procedure}
    (closed : Closes (·.label = "Subprogram") rest) (closedToo : Closes (·.label = "Subprogram") other)
    (above : Above (depth + 2) rest) (aboveToo : Above (depth + 2) other)
    (same : firsts.flatMap (procedure depth) ++ rest = seconds.flatMap (procedure depth) ++ other) :
    firsts.map procedureOutline = seconds.map procedureOutline ∧ rest = other := by
  have begins (declared : Procedure) :
      Begins (fun row => row.label = "Subprogram" ∧ row.depth = depth) (procedure depth declared) :=
    ⟨_, _, rfl, rfl, rfl⟩
  refine items_cancel (fun first _ second rest other above aboveToo same =>
    procedure_cancel above aboveToo same) begins (fun row more opened => ?_)
    (fun row first opened => closed row first opened.1)
    (fun row first opened => closedToo row first opened.1) above aboveToo same
  rw [above_cons, opened.2]
  omega

theorem program_outline (tree : Program) :
    tree.outline = ⟨tree.name, 0, tree.vars.map varOutline, tree.procedures.map procedureOutline, 0,
      unlined.stmts tree.body⟩ := by
  simp only [Program.outline, Program.settled, Relabelling.program, List.map_map]
  rfl

/-- Two programs with the same rows differ in lines and in the signs of zero
bounds alone. -/
theorem outline_of_rows {first second : Program} (same : program first = program second) :
    first.outline = second.outline := by
  have same : program first ++ [] = program second ++ [] := by rw [same]
  simp only [program, titled, bare, List.cons_append, List.append_assoc, List.cons.injEq,
    Row.mk.injEq, Option.some.injEq, true_and] at same
  obtain ⟨name, same⟩ := same
  have behind (tree : Program) : Closes (·.label = "VariableDeclarator")
      (tree.procedures.flatMap (procedure 1) ++ (block 1 tree.body ++ [])) :=
    closes_behind (procedure_begins 1) (by decide) (closes_block (by decide))
  obtain ⟨vars, same⟩ := vars_cancel (behind first) (behind second) same
  obtain ⟨procedures, same⟩ := procedures_cancel (closes_block (by decide))
    (closes_block (by decide)) (by simp [block, bare]) (by simp [block, bare]) same
  obtain ⟨bodies, _⟩ := block_cancel (above_nil 2) (above_nil 2) same
  rw [program_outline, program_outline, name, vars, procedures, bodies]

end PascalCasl.Rows
