import PascalCasl.Code.Listing
import PascalCasl.Proofs.Typing.Exactness

/-!
Code generation for accepted programs. Types and storage are kept in two sets
of tables; for an accepted program they agree name by name, so generation finds
every name it needs and pushes a value for a standard type and an address for
an array.
-/

namespace PascalCasl

def Cells.type : Cells → Ty
  | .scalar _ type => .standard type
  | .array _ element _ _ => .array element

/-- Scalars are pushed for standard types and addresses for arrays. -/
def Pushed.Fits (pushed : Pushed) (type : Ty) : Prop :=
  (∀ standard, pushed = .scalar standard ↔ type = .standard standard) ∧
    ((∃ length, pushed = .address length) ↔ ∃ element, type = .array element)

theorem scalar_fits (type : StandardType) : Pushed.Fits (.scalar type) (.standard type) := by
  simp [Pushed.Fits]

theorem address_fits (length : Nat) (element : StandardType) :
    Pushed.Fits (.address length) (.array element) := by
  simp [Pushed.Fits]

/-- The table of types that a table of cells amounts to. -/
def cellTypes (table : Table Cells) : Table Ty := table.map fun entry => (entry.1, entry.2.type)

theorem find_cell_types (table : Table Cells) (name : String) :
    (cellTypes table).find? name = (table.find? name).map Cells.type := by
  induction table with
  | nil => rfl
  | cons first rest ih =>
      rcases first with ⟨known, cells⟩
      have opened : cellTypes ((known, cells) :: rest) =
          (known, cells.type) :: cellTypes rest := rfl
      rw [opened, Table.find_cons, Table.find_cons, ih]
      by_cases same : name = known <;> simp [same]

/-- Storage has the types of the scope, and its procedures have frames. -/
structure Env.Stores (env : Env) (scope : Scope) : Prop where
  globals : cellTypes env.globals = scope.globals
  locals : cellTypes env.locals = scope.locals
  frames : ∀ name formals, scope.procedures.find? name = some formals →
    ∃ found, env.procedure? name = some found

variable {scope : Scope} {env : Env}

theorem cells_type (stores : env.Stores scope) (name : String) :
    (env.cells? name).map Cells.type = scope.find? name := by
  rw [Env.cells?, Scope.find?, ← stores.locals, find_cell_types, ← stores.globals]
  cases env.locals.find? name with
  | none => rw [find_cell_types]; rfl
  | some cells => rfl

theorem cells_found (stores : env.Stores scope) {name : String} {type : Ty}
    (declared : scope.find? name = some type) :
    ∃ cells, env.cells? name = some cells ∧ cells.type = type := by
  rw [← cells_type stores] at declared
  exact Option.map_eq_some_iff.mp declared

theorem cells_yields (stores : env.Stores scope) {name : String} {type : Ty} (line : Nat)
    (declared : scope.find? name = some type) :
    (env.cells name line).Yields fun cells => cells.type = type := by
  rcases cells_found stores declared with ⟨cells, found, typed⟩
  rw [Env.cells, found]
  exact Emit.yields_pure typed

theorem text_yields {text : String} {type : Ty} (typed : textType? text = some type) :
    (textCode text).Yields fun coded => coded.1.Fits type := by
  rw [text_type, String.length] at typed
  unfold textCode
  split
  next character single =>
    rcases typed with ⟨_, rfl⟩ | ⟨several, _⟩
    · exact Emit.yields_pure (scalar_fits _)
    · simp [single] at several
  next characters notSingle =>
    rcases typed with ⟨single, _⟩ | ⟨_, rfl⟩
    · exact absurd (List.length_eq_one_iff.mp single) (by simpa using notSingle)
    · exact fun supply => ⟨_, _, rfl, address_fits _ _⟩

theorem binary_code_yields (op : BinaryOp) (left : Pushed) :
    (binaryCode op left).Yields fun _ => True := by
  intro supply
  cases op <;> exact ⟨_, _, rfl, trivial⟩

theorem binary_value_fits {op : BinaryOp} {left right type : Ty}
    (result : resultType? op left right = some type) : (binaryValue op).Fits type := by
  rcases result_type.mp result with ⟨member, rfl, rfl, rfl⟩ | ⟨member, rfl, rfl, rfl⟩ |
    ⟨member, rfl, rfl⟩ <;>
  · simp only [List.mem_cons, List.not_mem_nil, or_false] at member
    rcases member with rfl | rfl | rfl | rfl | rfl | rfl <;> exact scalar_fits _

theorem indexed_yields {α : Type} (stores : env.Stores scope) {name : String}
    {element : StandardType} {line : Nat} {next : Cells → Emit α} {good : α → Prop}
    (declared : scope.find? name = some (.array element))
    (located : ∀ base low count, (next (.array base element low count)).Yields good) :
    Emit.Yields (env.cells name line >>= next) good := by
  refine Emit.yields_bind (cells_yields stores line declared) fun cells typed => ?_
  cases cells with
  | scalar base type => cases typed
  | array base known low count =>
      cases typed
      exact located base low count

/-- An expression with a type has code, and the code pushes what fits the
type. -/
theorem expr_yields (stores : env.Stores scope) {value : Expr} {type : Ty}
    (inferred : scope.infer value = .ok type) :
    (env.expr value).Yields fun coded => coded.1.Fits type := by
  induction value generalizing type with
  | number line value =>
      rcases infer_number.mp inferred with ⟨_, rfl⟩
      exact Emit.yields_pure (scalar_fits _)
  | string line text =>
      rw [Scope.infer, or_violation_ok] at inferred
      exact text_yields inferred
  | truth line value =>
      cases inferred
      exact Emit.yields_pure (scalar_fits _)
  | simple line name =>
      rw [Scope.infer, or_violation_ok] at inferred
      refine Emit.yields_bind (cells_yields stores line inferred) fun cells typed => ?_
      cases cells with
      | scalar base standard => exact typed ▸ Emit.yields_pure (scalar_fits _)
      | array base element low count => exact typed ▸ Emit.yields_pure (address_fits _ _)
  | indexed line name index ih =>
      rcases infer_indexed.mp inferred with ⟨element, declared, indexed, rfl⟩
      refine indexed_yields stores declared fun base low count => ?_
      exact Emit.yields_bind (ih indexed) fun _ _ => Emit.yields_pure (scalar_fits _)
  | unary line op operand ih =>
      have operandYields : (env.expr operand).Yields fun coded => coded.1.Fits type := by
        -- a number under a minus sign is not checked on its own, but it has code all the same
        by_cases plain : ∀ numberLine value, op = .minus → operand ≠ .number numberLine value
        · exact ih ((infer_unary plain).mp inferred).1
        · simp only [ne_eq, not_forall, not_not] at plain
          rcases plain with ⟨numberLine, value, rfl, rfl⟩
          rcases infer_negated.mp inferred with ⟨_, rfl⟩
          exact Emit.yields_pure (scalar_fits _)
      exact Emit.yields_bind operandYields fun _ fits => Emit.yields_pure fits
  | binary line op left right leftIh rightIh =>
      rcases infer_binary.mp inferred with ⟨_, _, leftInferred, rightInferred, result⟩
      refine Emit.yields_bind (leftIh leftInferred) fun leftCoded _ => ?_
      refine Emit.yields_bind (rightIh rightInferred) fun _ _ => ?_
      refine Emit.yields_bind (binary_code_yields op leftCoded.1) fun _ _ => ?_
      exact Emit.yields_pure (binary_value_fits result)

theorem target_yields (stores : env.Stores scope) {target : Target} {type : Ty}
    (typed : scope.targetType target = .ok type) :
    (env.target target).Yields fun coded => coded.1.Fits type := by
  cases target with
  | simple line name =>
      rw [Scope.targetType, or_violation_ok] at typed
      refine Emit.yields_bind (cells_yields stores line typed) fun cells same => ?_
      cases cells with
      | scalar base standard => exact same ▸ Emit.yields_pure (scalar_fits _)
      | array base element low count => exact same ▸ Emit.yields_pure (address_fits _ _)
  | indexed line name index =>
      rcases target_type_indexed.mp typed with ⟨element, declared, indexed, rfl⟩
      refine indexed_yields stores declared fun base low count => ?_
      exact Emit.yields_bind (expr_yields stores indexed) fun _ _ =>
        Emit.yields_pure (scalar_fits _)

def Expr.nodes : Expr → List Expr
  | .indexed line name index => .indexed line name index :: index.nodes
  | .unary line op operand => .unary line op operand :: operand.nodes
  | .binary line op left right => .binary line op left right :: (left.nodes ++ right.nodes)
  | leaf => [leaf]

/-- Checking an expression in the scope gives the node this type. A number
directly under a minus sign is not checked on its own. -/
inductive Scope.Assigns (scope : Scope) : Expr → Expr → Ty → Prop where
  | whole {value : Expr} {type : Ty} (inferred : scope.infer value = .ok type) :
      Assigns scope value value type
  | negated {line numberLine value : Nat} (small : value ≤ leastMagnitude) :
      Assigns scope (.unary line .minus (.number numberLine value)) (.number numberLine value)
        Ty.integer
  | index {line : Nat} {name : String} {index node : Expr} {type : Ty}
      (inner : Assigns scope index node type) : Assigns scope (.indexed line name index) node type
  | operand {line : Nat} {op : UnaryOp} {operand node : Expr} {type : Ty}
      (inner : Assigns scope operand node type) : Assigns scope (.unary line op operand) node type
  | left {line : Nat} {op : BinaryOp} {left right node : Expr} {type : Ty}
      (inner : Assigns scope left node type) : Assigns scope (.binary line op left right) node type
  | right {line : Nat} {op : BinaryOp} {left right node : Expr} {type : Ty}
      (inner : Assigns scope right node type) : Assigns scope (.binary line op left right) node type

theorem node_assigned {value : Expr} {type : Ty} (inferred : scope.infer value = .ok type) :
    ∀ node ∈ value.nodes, ∃ nodeType, scope.Assigns value node nodeType := by
  induction value generalizing type with
  | number line value => simpa [Expr.nodes] using ⟨type, .whole inferred⟩
  | string line text => simpa [Expr.nodes] using ⟨type, .whole inferred⟩
  | truth line value => simpa [Expr.nodes] using ⟨type, .whole inferred⟩
  | simple line name => simpa [Expr.nodes] using ⟨type, .whole inferred⟩
  | indexed line name index ih =>
      rcases infer_indexed.mp inferred with ⟨element, _, indexed, _⟩
      rw [Expr.nodes, List.forall_mem_cons]
      refine ⟨⟨type, .whole inferred⟩, fun node member => ?_⟩
      rcases ih indexed node member with ⟨nodeType, inner⟩
      exact ⟨nodeType, .index inner⟩
  | unary line op operand ih =>
      rw [Expr.nodes, List.forall_mem_cons]
      refine ⟨⟨type, .whole inferred⟩, fun node member => ?_⟩
      -- the number under a minus sign may be one that has no type alone
      by_cases plain : ∀ numberLine value, op = .minus → operand ≠ .number numberLine value
      · rcases ih ((infer_unary plain).mp inferred).1 node member with ⟨nodeType, inner⟩
        exact ⟨nodeType, .operand inner⟩
      · simp only [ne_eq, not_forall, not_not] at plain
        rcases plain with ⟨numberLine, value, rfl, rfl⟩
        have same : node = .number numberLine value := by simpa [Expr.nodes] using member
        subst same
        exact ⟨_, .negated (infer_negated.mp inferred).1⟩
  | binary line op left right leftIh rightIh =>
      rcases infer_binary.mp inferred with ⟨_, _, leftInferred, rightInferred, _⟩
      rw [Expr.nodes, List.forall_mem_cons]
      refine ⟨⟨type, .whole inferred⟩, fun node member => ?_⟩
      rcases List.mem_append.mp member with inLeft | inRight
      · rcases leftIh leftInferred node inLeft with ⟨nodeType, inner⟩
        exact ⟨nodeType, .left inner⟩
      · rcases rightIh rightInferred node inRight with ⟨nodeType, inner⟩
        exact ⟨nodeType, .right inner⟩

theorem assigned_yields (stores : env.Stores scope) {value node : Expr} {type : Ty}
    (assigned : scope.Assigns value node type) :
    (env.expr node).Yields fun coded => coded.1.Fits type := by
  induction assigned with
  | whole inferred => exact expr_yields stores inferred
  | negated _ => exact Emit.yields_pure (scalar_fits _)
  | index _ ih => exact ih
  | operand _ ih => exact ih
  | left _ ih => exact ih
  | right _ ih => exact ih

def Target.indexes : Target → List Expr
  | .simple _ _ => []
  | .indexed _ _ index => [index]

mutual

/-- The outermost expressions of a statement, in any depth of nesting. -/
def Stmt.values (statement : Stmt) : List Expr :=
  match statement with
  | .assign _ target value => target.indexes ++ [value]
  | .call _ _ arguments => arguments
  | .ifThen _ condition _ thenBody => condition :: valuesOf thenBody
  | .ifElse _ condition _ thenBody _ elseBody =>
      condition :: (valuesOf thenBody ++ valuesOf elseBody)
  | .whileDo _ condition _ body => condition :: valuesOf body
  | .read _ targets => targets.flatMap Target.indexes
  | .write _ values => values
  | .block _ body => valuesOf body
  termination_by structural statement

def valuesOf (body : List Stmt) : List Expr :=
  match body with
  | [] => []
  | first :: rest => first.values ++ valuesOf rest
  termination_by structural body

end

mutual

/-- The targets of assignments and readings, in any depth of nesting. -/
def Stmt.targets (statement : Stmt) : List Target :=
  match statement with
  | .assign _ target _ => [target]
  | .call _ _ _ => []
  | .ifThen _ _ _ thenBody => targetsOf thenBody
  | .ifElse _ _ _ thenBody _ elseBody => targetsOf thenBody ++ targetsOf elseBody
  | .whileDo _ _ _ body => targetsOf body
  | .read _ targets => targets
  | .write _ _ => []
  | .block _ body => targetsOf body
  termination_by structural statement

def targetsOf (body : List Stmt) : List Target :=
  match body with
  | [] => []
  | first :: rest => first.targets ++ targetsOf rest
  termination_by structural body

end

theorem values_of_eq (body : List Stmt) : valuesOf body = body.flatMap Stmt.values := by
  induction body with
  | nil => rfl
  | cons first rest ih => rw [valuesOf, List.flatMap_cons, ih]

theorem targets_of_eq (body : List Stmt) : targetsOf body = body.flatMap Stmt.targets := by
  induction body with
  | nil => rfl
  | cons first rest ih => rw [targetsOf, List.flatMap_cons, ih]

variable {context : Context}

theorem index_typed {target : Target} {type : Ty} (typed : context.TargetHasType target type) :
    ∀ value ∈ target.indexes, ∃ indexType, context.HasType value indexType := by
  cases typed with
  | simple _ => simp [Target.indexes]
  | element _ number => simpa [Target.indexes] using ⟨_, number⟩

theorem argument_typed {arguments : List Expr} {types : List Ty}
    (given : List.Forall₂ context.HasType arguments types) :
    ∀ value ∈ arguments, ∃ type, context.HasType value type := by
  induction given with
  | nil => simp
  | cons first _ ih => exact List.forall_mem_cons.mpr ⟨⟨_, first⟩, ih⟩

theorem values_typed {statement : Stmt} (typed : context.WellTyped statement) :
    ∀ value ∈ statement.values, ∃ type, context.HasType value type := by
  -- the judgment speaks of the statements of a body one at a time
  have together {body : List Stmt}
      (each : ∀ statement ∈ body, ∀ value ∈ statement.values, ∃ type, context.HasType value type) :
      ∀ value ∈ valuesOf body, ∃ type, context.HasType value type := by
    intro value member
    rw [values_of_eq, List.mem_flatMap] at member
    rcases member with ⟨statement, inBody, inStatement⟩
    exact each statement inBody value inStatement
  induction typed with
  | assign assigned given =>
      intro value member
      rcases List.mem_append.mp member with inTarget | same
      · exact index_typed assigned value inTarget
      · exact ⟨_, List.mem_singleton.mp same ▸ given⟩
  | call _ given => exact argument_typed given
  | ifThen test _ taken =>
      exact List.forall_mem_cons.mpr ⟨⟨_, test⟩, together taken⟩
  | ifElse test _ _ taken skipped =>
      exact List.forall_mem_cons.mpr ⟨⟨_, test⟩,
        List.forall_mem_append.mpr ⟨together taken, together skipped⟩⟩
  | whileDo test _ repeated => exact List.forall_mem_cons.mpr ⟨⟨_, test⟩, together repeated⟩
  | read each =>
      intro value member
      rcases List.mem_flatMap.mp member with ⟨target, inTargets, inTarget⟩
      rcases each target inTargets with ⟨_, _, typed⟩
      exact index_typed typed value inTarget
  | write each =>
      intro value member
      rcases each value member with ⟨type, _, typed⟩
      exact ⟨type, typed⟩
  | block _ each => exact together each

theorem targets_typed {statement : Stmt} (typed : context.WellTyped statement) :
    ∀ target ∈ statement.targets, ∃ type, context.TargetHasType target type := by
  have together {body : List Stmt}
      (each : ∀ statement ∈ body, ∀ target ∈ statement.targets,
        ∃ type, context.TargetHasType target type) :
      ∀ target ∈ targetsOf body, ∃ type, context.TargetHasType target type := by
    intro target member
    rw [targets_of_eq, List.mem_flatMap] at member
    rcases member with ⟨statement, inBody, inStatement⟩
    exact each statement inBody target inStatement
  induction typed with
  | assign assigned _ => simpa [Stmt.targets] using ⟨_, assigned⟩
  | call _ _ => simp [Stmt.targets]
  | ifThen _ _ taken => exact together taken
  | ifElse _ _ _ taken skipped =>
      exact List.forall_mem_append.mpr ⟨together taken, together skipped⟩
  | whileDo _ _ repeated => exact together repeated
  | read each =>
      intro target member
      rcases each target member with ⟨type, _, typed⟩
      exact ⟨type, typed⟩
  | write _ => simp [Stmt.targets]
  | block _ each => exact together each

section Statements

variable (stores : env.Stores scope) (means : scope.Means context)

include stores means

theorem typed_yields {value : Expr} {type : Ty} (typed : context.HasType value type) :
    (env.expr value).Yields fun coded => coded.1.Fits type :=
  expr_yields stores (infer_complete means typed)

theorem typed_target_yields {target : Target} {type : Ty}
    (typed : context.TargetHasType target type) :
    (env.target target).Yields fun coded => coded.1.Fits type :=
  target_yields stores ((target_type_exact means).mpr typed)

theorem exprs_yield {values : List Expr}
    (typed : ∀ value ∈ values, ∃ type, context.HasType value type) :
    (env.exprs values).Yields fun _ => True := by
  refine Emit.yields_list rfl (fun _ _ => rfl) fun value member => ?_
  obtain ⟨type, valueTyped⟩ := typed value member
  exact ⟨_, typed_yields stores means valueTyped⟩

theorem reads_yield {targets : List Target}
    (typed : ∀ target ∈ targets, ∃ type ∈ Context.printable, context.TargetHasType target type) :
    (env.reads targets).Yields fun _ => True := by
  refine Emit.yields_list rfl (fun _ _ => rfl) fun target member => ?_
  obtain ⟨type, _, targetTyped⟩ := typed target member
  exact ⟨_, typed_target_yields stores means targetTyped⟩

theorem writes_yield {values : List Expr}
    (typed : ∀ value ∈ values, ∃ type ∈ Context.printable, context.HasType value type) :
    (env.writes values).Yields fun _ => True := by
  refine Emit.yields_list rfl (fun _ _ => rfl) fun value member => ?_
  obtain ⟨type, _, valueTyped⟩ := typed value member
  exact ⟨_, typed_yields stores means valueTyped⟩

theorem call_yields {name : String} {arguments : List Expr} {formals : List StandardType}
    {line : Nat} (known : (name, formals) ∈ context.procedures)
    (typed : ∀ value ∈ arguments, ∃ type, context.HasType value type) :
    (env.call name arguments line).Yields fun _ => True := by
  rcases stores.frames name formals ((means.procedures name formals).mpr known) with
    ⟨⟨number, frame⟩, found⟩
  rw [Env.call, found]
  refine Emit.yields_bind (exprs_yield stores means ?_) fun code _ => ?_
  · simpa using typed
  · dsimp only
    split <;> exact Emit.yields_pure trivial

end Statements

theorem supply_yields {α : Type} {step : Emit α}
    (taken : ∀ supply, ∃ value after, step supply = (.ok value, after)) :
    step.Yields fun _ => True := by
  intro supply
  rcases taken supply with ⟨value, after, ran⟩
  exact ⟨value, after, ran, trivial⟩

theorem stmts_yield {body : List Stmt}
    (each : ∀ statement ∈ body, (env.stmt statement).Yields fun _ => True) :
    (env.stmts body).Yields fun _ => True :=
  Emit.yields_list rfl (fun _ _ => rfl) fun statement member => ⟨_, each statement member⟩

theorem stmt_yields (stores : env.Stores scope) (means : scope.Means context) {statement : Stmt}
    (typed : context.WellTyped statement) : (env.stmt statement).Yields fun _ => True := by
  induction typed with
  | assign assigned given =>
      refine Emit.yields_bind (typed_target_yields stores means assigned) fun _ _ => ?_
      exact Emit.yields_bind (typed_yields stores means given) fun _ _ => Emit.yields_pure trivial
  | call known given => exact call_yields stores means known (argument_typed given)
  | ifThen test _ taken =>
      refine Emit.yields_bind (supply_yields fun _ => ⟨_, _, rfl⟩) fun _ _ => ?_
      refine Emit.yields_bind (typed_yields stores means test) fun _ _ => ?_
      refine Emit.yields_bind (stmts_yield taken) fun _ _ => ?_
      refine Emit.yields_bind (supply_yields fun _ => ⟨_, _, rfl⟩) fun _ _ => ?_
      exact Emit.yields_pure trivial
  | ifElse test _ _ taken skipped =>
      refine Emit.yields_bind (supply_yields fun _ => ⟨_, _, rfl⟩) fun _ _ => ?_
      refine Emit.yields_bind (typed_yields stores means test) fun _ _ => ?_
      refine Emit.yields_bind (stmts_yield taken) fun _ _ => ?_
      refine Emit.yields_bind (supply_yields fun _ => ⟨_, _, rfl⟩) fun _ _ => ?_
      refine Emit.yields_bind (supply_yields fun _ => ⟨_, _, rfl⟩) fun _ _ => ?_
      refine Emit.yields_bind (stmts_yield skipped) fun _ _ => ?_
      refine Emit.yields_bind (supply_yields fun _ => ⟨_, _, rfl⟩) fun _ _ => ?_
      exact Emit.yields_pure trivial
  | whileDo test _ repeated =>
      refine Emit.yields_bind (supply_yields fun _ => ⟨_, _, rfl⟩) fun _ _ => ?_
      refine Emit.yields_bind (typed_yields stores means test) fun _ _ => ?_
      refine Emit.yields_bind (stmts_yield repeated) fun _ _ => ?_
      refine Emit.yields_bind (supply_yields fun _ => ⟨_, _, rfl⟩) fun _ _ => ?_
      exact Emit.yields_pure trivial
  | read each =>
      exact Emit.yields_bind (reads_yield stores means each) fun _ _ => Emit.yields_pure trivial
  | write each =>
      exact Emit.yields_bind (writes_yield stores means each) fun _ _ => Emit.yields_pure trivial
  | block _ each => exact stmts_yield each

end PascalCasl
