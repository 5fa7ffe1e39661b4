import Mathlib.Data.List.Nodup
import PascalCasl.Proofs.Typing.Declarations

/-!
The checker accepts the well-typed programs and no others. Expressions and
statements are compared in a scope that means the same as a context; the
declarations of an accepted program build such scopes.
-/

namespace PascalCasl

/-- The tables of the scope mean the declarations of the context. -/
structure Scope.Means (scope : Scope) (context : Context) : Prop where
  names : ∀ name type, scope.find? name = some type ↔ context.Resolves name type
  procedures : ∀ name formals,
    scope.procedures.find? name = some formals ↔ (name, formals) ∈ context.procedures

variable {scope : Scope} {context : Context}

theorem infer_number {line value : Nat} {type : Ty} :
    scope.infer (.number line value) = .ok type ↔ value ≤ 32767 ∧ type = .standard .integer := by
  simp only [Scope.infer, except_bind_ok, require_ok, decide_eq_true_eq, Except.ok.injEq]
  constructor
  · rintro ⟨_, small, rfl⟩
    exact ⟨small, rfl⟩
  · rintro ⟨small, rfl⟩
    exact ⟨(), small, rfl⟩

theorem infer_indexed {line : Nat} {name : String} {index : Expr} {type : Ty} :
    scope.infer (.indexed line name index) = .ok type ↔
      ∃ element, scope.find? name = some (.array element) ∧
        scope.infer index = .ok (.standard .integer) ∧ type = .standard element := by
  simp only [Scope.infer, except_bind_ok, or_violation_ok]
  constructor
  · rintro ⟨declared, found, indexType, inferred, selected⟩
    cases declared with
    | standard known => simp [elementType?] at selected
    | array element =>
        simp only [elementType?, Option.ite_none_right_eq_some, Option.some.injEq] at selected
        rcases selected with ⟨rfl, rfl⟩
        exact ⟨element, found, inferred, rfl⟩
  · rintro ⟨element, found, inferred, rfl⟩
    exact ⟨_, found, _, inferred, by simp [elementType?, Ty.integer]⟩

theorem infer_unary {line : Nat} {op : UnaryOp} {operand : Expr} {type : Ty}
    (plain : ∀ numberLine value, op = .minus → operand ≠ .number numberLine value) :
    scope.infer (.unary line op operand) = .ok type ↔
      scope.infer operand = .ok type ∧ type = operandType op := by
  have opened : scope.infer (.unary line op operand) = (do
      let type ← scope.infer operand
      require (type = operandType op) line
      .ok type) := by
    cases op <;> cases operand <;> first | rfl | exact absurd rfl (plain _ _ rfl)
  simp only [opened, except_bind_ok, require_ok, decide_eq_true_eq, Except.ok.injEq]
  constructor
  · rintro ⟨_, inferred, _, fits, rfl⟩
    exact ⟨inferred, fits⟩
  · rintro ⟨inferred, fits⟩
    exact ⟨_, inferred, (), fits, rfl⟩

theorem infer_negated {line numberLine value : Nat} {type : Ty} :
    scope.infer (.unary line .minus (.number numberLine value)) = .ok type ↔
      value ≤ 32768 ∧ type = .standard .integer := by
  simp only [Scope.infer, except_bind_ok, require_ok, decide_eq_true_eq, Except.ok.injEq]
  constructor
  · rintro ⟨_, small, _, rfl, _, _, rfl⟩
    exact ⟨small, rfl⟩
  · rintro ⟨small, rfl⟩
    exact ⟨(), small, _, rfl, (), rfl, rfl⟩

theorem result_type {op : BinaryOp} {left right type : Ty} :
    resultType? op left right = some type ↔
      (op ∈ [.add, .sub, .mul, .div, .mod] ∧ left = .standard .integer ∧
        right = .standard .integer ∧ type = .standard .integer) ∨
      (op ∈ [.and, .or] ∧ left = .standard .boolean ∧ right = .standard .boolean ∧
        type = .standard .boolean) ∨
      (op ∈ [.equal, .notEqual, .less, .lessEqual, .greater, .greaterEqual] ∧ left = right ∧
        type = .standard .boolean) := by
  cases op <;>
    simp [resultType?, BinaryOp.isArithmetic, BinaryOp.isLogical, and_assoc] <;>
    simp [Ty.integer, Ty.boolean, eq_comm]

theorem infer_binary {line : Nat} {op : BinaryOp} {left right : Expr} {type : Ty} :
    scope.infer (.binary line op left right) = .ok type ↔
      ∃ leftType rightType, scope.infer left = .ok leftType ∧ scope.infer right = .ok rightType ∧
        resultType? op leftType rightType = some type := by
  simp only [Scope.infer, except_bind_ok, or_violation_ok]
  grind

theorem text_type {text : String} {type : Ty} :
    textType? text = some type ↔
      (text.length = 1 ∧ type = .standard .char) ∨ (2 ≤ text.length ∧ type = .array .char) := by
  unfold textType?
  split
  next none => simp [none]
  next single => simp [single, Ty.char, eq_comm]
  next count several => simp [several, Ty.text, eq_comm]

theorem infer_sound (means : scope.Means context) {value : Expr} {type : Ty}
    (inferred : scope.infer value = .ok type) : context.HasType value type := by
  induction value generalizing type with
  | number line value =>
      rcases infer_number.mp inferred with ⟨small, rfl⟩
      exact .number small
  | string line text =>
      rw [Scope.infer, or_violation_ok, text_type] at inferred
      rcases inferred with ⟨single, rfl⟩ | ⟨several, rfl⟩
      · exact .character single
      · exact .text several
  | truth line value =>
      cases inferred
      exact .truth
  | simple line name =>
      rw [Scope.infer, or_violation_ok, means.names] at inferred
      exact .simple inferred
  | indexed line name index ih =>
      rcases infer_indexed.mp inferred with ⟨element, found, indexed, rfl⟩
      exact .element ((means.names _ _).mp found) (ih indexed)
  | unary line op operand ih =>
      -- a number under a minus sign is typed as one node, since it may be larger by one
      by_cases plain : ∀ numberLine value, op = .minus → operand ≠ .number numberLine value
      · rcases (infer_unary plain).mp inferred with ⟨operandInferred, rfl⟩
        cases op with
        | plus => exact .signed (by simp) (ih operandInferred)
        | minus => exact .signed (by simp) (ih operandInferred)
        | not => exact .negation (ih operandInferred)
      · simp only [ne_eq, not_forall, not_not] at plain
        rcases plain with ⟨numberLine, value, rfl, rfl⟩
        rcases infer_negated.mp inferred with ⟨small, rfl⟩
        exact .negated small
  | binary line op left right leftIh rightIh =>
      rcases infer_binary.mp inferred with
        ⟨leftType, rightType, leftInferred, rightInferred, result⟩
      have first := leftIh leftInferred
      have second := rightIh rightInferred
      rcases result_type.mp result with ⟨member, rfl, rfl, rfl⟩ | ⟨member, rfl, rfl, rfl⟩ |
        ⟨member, rfl, rfl⟩
      · exact .arithmetic member first second
      · exact .logical member first second
      · exact .relation member first second

theorem infer_signed {line : Nat} {op : UnaryOp} {operand : Expr} (sign : op ∈ [.plus, .minus])
    (number : scope.infer operand = .ok (.standard .integer)) :
    scope.infer (.unary line op operand) = .ok (.standard .integer) := by
  by_cases plain : ∀ numberLine value, op = .minus → operand ≠ .number numberLine value
  · refine (infer_unary plain).mpr ⟨number, ?_⟩
    rcases (by simpa using sign) with rfl | rfl <;> rfl
  · simp only [ne_eq, not_forall, not_not] at plain
    rcases plain with ⟨numberLine, value, rfl, rfl⟩
    have small := (infer_number.mp number).1
    exact infer_negated.mpr ⟨by omega, rfl⟩

theorem infer_complete (means : scope.Means context) {value : Expr} {type : Ty}
    (typed : context.HasType value type) : scope.infer value = .ok type := by
  induction typed with
  | number small => exact infer_number.mpr ⟨small, rfl⟩
  | negated small => exact infer_negated.mpr ⟨small, rfl⟩
  | character single =>
      rw [Scope.infer, or_violation_ok, text_type]
      exact .inl ⟨single, rfl⟩
  | text several =>
      rw [Scope.infer, or_violation_ok, text_type]
      exact .inr ⟨several, rfl⟩
  | truth => rfl
  | simple declared =>
      rw [Scope.infer, or_violation_ok, means.names]
      exact declared
  | element declared _ ih =>
      exact infer_indexed.mpr ⟨_, (means.names _ _).mpr declared, ih, rfl⟩
  | signed sign _ ih => exact infer_signed sign ih
  | negation _ ih => exact (infer_unary (by simp)).mpr ⟨ih, rfl⟩
  | arithmetic computes _ _ first second =>
      exact infer_binary.mpr ⟨_, _, first, second,
        result_type.mpr (.inl ⟨computes, rfl, rfl, rfl⟩)⟩
  | logical joins _ _ first second =>
      exact infer_binary.mpr ⟨_, _, first, second,
        result_type.mpr (.inr (.inl ⟨joins, rfl, rfl, rfl⟩))⟩
  | relation relates _ _ first second =>
      exact infer_binary.mpr ⟨_, _, first, second,
        result_type.mpr (.inr (.inr ⟨relates, rfl, rfl⟩))⟩

theorem infer_exact (means : scope.Means context) {value : Expr} {type : Ty} :
    scope.infer value = .ok type ↔ context.HasType value type :=
  ⟨infer_sound means, infer_complete means⟩

theorem target_type_indexed {line : Nat} {name : String} {index : Expr} {type : Ty} :
    scope.targetType (.indexed line name index) = .ok type ↔
      ∃ element, scope.find? name = some (.array element) ∧
        scope.infer index = .ok (.standard .integer) ∧ type = .standard element :=
  infer_indexed

theorem target_type_exact (means : scope.Means context) {target : Target} {type : Ty} :
    scope.targetType target = .ok type ↔ context.TargetHasType target type := by
  cases target with
  | simple line name =>
      rw [Scope.targetType, or_violation_ok, means.names]
      exact ⟨.simple, fun | .simple declared => declared⟩
  | indexed line name index =>
      rw [target_type_indexed]
      constructor
      · rintro ⟨element, found, indexed, rfl⟩
        exact .element ((means.names _ _).mp found) (infer_sound means indexed)
      · rintro ⟨declared, number⟩
        rename_i declared number
        exact ⟨_, (means.names _ _).mpr declared, infer_complete means number, rfl⟩

theorem is_printable {type : Ty} : type.isPrintable = true ↔ type ∈ Context.printable := by
  simp only [Ty.isPrintable, Bool.or_eq_true, decide_eq_true_eq, or_assoc]
  simp [Context.printable, Ty.integer, Ty.char, Ty.text]

theorem check_targets_exact (means : scope.Means context) {targets : List Target} :
    scope.checkTargets targets = .ok () ↔
      ∀ target ∈ targets, ∃ type ∈ Context.printable, context.TargetHasType target type := by
  induction targets with
  | nil => simp [Scope.checkTargets]
  | cons first rest ih =>
      simp only [Scope.checkTargets, except_bind_ok, require_ok, is_printable,
        target_type_exact means, ih, List.forall_mem_cons]
      grind

theorem check_values_exact (means : scope.Means context) {values : List Expr} :
    scope.checkValues values = .ok () ↔
      ∀ value ∈ values, ∃ type ∈ Context.printable, context.HasType value type := by
  induction values with
  | nil => simp [Scope.checkValues]
  | cons first rest ih =>
      simp only [Scope.checkValues, except_bind_ok, require_ok, is_printable,
        infer_exact means, ih, List.forall_mem_cons]
      grind

theorem check_condition_exact (means : scope.Means context) {condition : Expr} {line : Nat} :
    scope.checkCondition condition line = .ok () ↔
      context.HasType condition (.standard .boolean) := by
  simp only [Scope.checkCondition, except_bind_ok, infer_exact means, require_ok,
    decide_eq_true_eq, exists_eq_right]
  rfl

theorem infer_all_exact (means : scope.Means context) {values : List Expr} {types : List Ty} :
    scope.inferAll values = .ok types ↔ List.Forall₂ context.HasType values types := by
  induction values generalizing types with
  | nil => simp [Scope.inferAll, eq_comm]
  | cons first rest ih =>
      simp only [Scope.inferAll, except_bind_ok, infer_exact means, ih, List.forall₂_cons_left_iff,
        Except.ok.injEq]
      grind

theorem check_call_exact (means : scope.Means context) {line : Nat} {name : String}
    {arguments : List Expr} :
    scope.checkStmt (.call line name arguments) = .ok () ↔
      ∃ formals, (name, formals) ∈ context.procedures ∧
        List.Forall₂ context.HasType arguments (formals.map Ty.standard) := by
  simp only [Scope.checkStmt, except_bind_ok, require_ok, or_violation_ok, decide_eq_true_eq,
    infer_all_exact means, means.procedures]
  grind

theorem check_assign_exact (means : scope.Means context) {line : Nat} {target : Target}
    {value : Expr} :
    scope.checkStmt (.assign line target value) = .ok () ↔
      ∃ type, context.TargetHasType target (.standard type) ∧
        context.HasType value (.standard type) := by
  simp only [Scope.checkStmt, except_bind_ok, require_ok, infer_exact means,
    target_type_exact means, Bool.and_eq_true, decide_eq_true_eq]
  constructor
  · rintro ⟨type, assigned, _, given, rfl, scalar⟩
    cases type with
    | standard type => exact ⟨type, assigned, given⟩
    | array element => simp [Ty.isArray] at scalar
  · rintro ⟨type, assigned, given⟩
    exact ⟨_, assigned, _, given, rfl, rfl⟩

mutual

theorem check_stmt_exact (means : scope.Means context) :
    ∀ statement : Stmt, scope.checkStmt statement = .ok () ↔ context.WellTyped statement
  | .assign line target value => by
      rw [check_assign_exact means]
      exact ⟨fun ⟨_, assigned, given⟩ => .assign assigned given,
        fun | .assign assigned given => ⟨_, assigned, given⟩⟩
  | .call line name arguments => by
      rw [check_call_exact means]
      exact ⟨fun ⟨_, known, given⟩ => .call known given,
        fun | .call known given => ⟨_, known, given⟩⟩
  | .ifThen line condition thenLine thenBody => by
      simp only [Scope.checkStmt, except_bind_ok, check_condition_exact means,
        check_stmts_exact means thenBody]
      exact ⟨fun ⟨_, test, taken⟩ => .ifThen test taken,
        fun | .ifThen test taken => ⟨(), test, taken⟩⟩
  | .ifElse line condition thenLine thenBody elseLine elseBody => by
      simp only [Scope.checkStmt, except_bind_ok, check_condition_exact means,
        check_stmts_exact means thenBody, check_stmts_exact means elseBody]
      exact ⟨fun ⟨_, test, _, taken, skipped⟩ => .ifElse test taken skipped,
        fun | .ifElse test taken skipped => ⟨(), test, (), taken, skipped⟩⟩
  | .whileDo line condition bodyLine body => by
      simp only [Scope.checkStmt, except_bind_ok, check_condition_exact means,
        check_stmts_exact means body]
      exact ⟨fun ⟨_, test, repeated⟩ => .whileDo test repeated,
        fun | .whileDo test repeated => ⟨(), test, repeated⟩⟩
  | .read line targets => by
      rw [Scope.checkStmt, check_targets_exact means]
      exact ⟨.read, fun | .read each => each⟩
  | .write line values => by
      rw [Scope.checkStmt, check_values_exact means]
      exact ⟨.write, fun | .write each => each⟩
  | .block line body => by
      rw [Scope.checkStmt, check_stmts_exact means body]
      exact ⟨.block, fun | .block each => each⟩

theorem check_stmts_exact (means : scope.Means context) :
    ∀ body : List Stmt, scope.checkStmts body = .ok () ↔
      ∀ statement ∈ body, context.WellTyped statement
  | [] => by simp [Scope.checkStmts]
  | first :: rest => by
      simp only [Scope.checkStmts, except_bind_ok, check_stmt_exact means first,
        check_stmts_exact means rest, List.forall_mem_cons]
      exact ⟨fun ⟨_, typed, others⟩ => ⟨typed, others⟩, fun ⟨typed, others⟩ => ⟨(), typed, others⟩⟩

end

theorem find_reversed {α : Type} {entries : List (String × α)}
    (distinct : (entries.map Prod.fst).Nodup) (name : String) (value : α) :
    Table.find? entries.reverse name = some value ↔ (name, value) ∈ entries := by
  have reversed : (entries.reverse.map Prod.fst).Nodup := by
    rw [List.map_reverse]
    exact List.nodup_reverse.mpr distinct
  rw [Table.find_some reversed, List.mem_reverse]

theorem find_reversed_none {α : Type} {entries : List (String × α)} {name : String} :
    Table.find? entries.reverse name = none ↔ name ∉ entries.map Prod.fst := by
  rw [Table.find_none, List.map_reverse, List.mem_reverse]

/-- Tables that list distinct declarations newest first mean these
declarations. -/
theorem tables_mean (globals locals : List (String × Ty))
    (procedures : List (String × List StandardType))
    (globalNames : (globals.map Prod.fst).Nodup) (localNames : (locals.map Prod.fst).Nodup)
    (procedureNames : (procedures.map Prod.fst).Nodup) :
    Scope.Means ⟨globals.reverse, locals.reverse, procedures.reverse⟩
      ⟨globals, locals, procedures⟩ where
  names name type := by
    rw [Scope.find?, Context.Resolves]
    -- A local name hides a global one on both sides.
    cases found : Table.find? locals.reverse name with
    | none =>
        have missing := find_reversed_none.mp found
        have absent : (name, type) ∉ locals := fun held => missing (List.mem_map_of_mem held)
        simp only [find_reversed globalNames, absent, missing, not_false_eq_true, true_and,
          false_or]
    | some known =>
        have held := (find_reversed localNames name known).mp found
        have shadowed : name ∈ locals.map Prod.fst := List.mem_map_of_mem held
        simp only [found, ← find_reversed localNames, shadowed, not_true_eq_false, false_and,
          or_false]
  procedures := find_reversed procedureNames

theorem var_names (vars : List VarDecl) :
    (vars.map VarDecl.entry).map Prod.fst = vars.map VarDecl.name := by
  simp [VarDecl.entry, Function.comp_def]

theorem procedure_names (procedures : List Procedure) :
    (procedures.map Procedure.entry).map Prod.fst = procedures.map Procedure.name := by
  simp [Procedure.entry, Function.comp_def]

theorem nodup_names_append {earlier : List Procedure} {procedure : Procedure}
    (distinct : (earlier.map Procedure.name).Nodup)
    (newName : procedure.name ∉ earlier.map Procedure.name) :
    ((earlier ++ [procedure]).map Procedure.name).Nodup := by
  rw [List.map_append, List.nodup_append]
  refine ⟨distinct, by simp, fun name held other same => ?_⟩
  rw [List.map_singleton, List.mem_singleton] at same
  exact fun equal => newName (same ▸ equal ▸ held)

def globalTable (vars : List VarDecl) : Table Ty := (vars.map VarDecl.entry).reverse

def localTable (procedure : Procedure) : Table Ty := procedure.locals.reverse

def procedureTable (procedures : List Procedure) : Table (List StandardType) :=
  (procedures.map Procedure.entry).reverse

theorem declarable_append {reserved : List String} {table first second : List (String × Ty)} :
    Declarable reserved table (first ++ second) ↔
      Declarable reserved table first ∧ Declarable reserved (first.reverse ++ table) second := by
  induction first generalizing table with
  | nil => simp [declarable_nil]
  | cons head rest ih => simp [declarable_cons, ih, and_assoc]

theorem declarable_alone {name : String} {entries : List (String × Ty)} :
    Declarable [name] [] entries ↔
      (entries.map Prod.fst).Nodup ∧ name ∉ entries.map Prod.fst := by
  constructor
  · rintro ⟨distinct, allowed, _⟩
    exact ⟨distinct, fun held => allowed name held (by simp)⟩
  · rintro ⟨distinct, apart⟩
    refine ⟨distinct, fun other held same => ?_, by simp⟩
    exact apart (List.mem_singleton.mp same ▸ held)

theorem declare_locals_ok {procedure : Procedure} {result : Table Ty} :
    (do
      let locals ← declareParams [procedure.name] [] procedure.params
      declareVars [procedure.name] locals procedure.vars) = .ok result ↔
      (∀ declared ∈ procedure.vars, declared.type.WellFormed) ∧
        (procedure.locals.map Prod.fst).Nodup ∧
        procedure.name ∉ procedure.locals.map Prod.fst ∧ result = localTable procedure := by
  rw [except_bind_ok]
  simp only [declare_params_ok, declare_vars_ok, List.append_nil]
  constructor
  · rintro ⟨_, ⟨params, rfl⟩, valid, vars, rfl⟩
    have both := declarable_append.mpr ⟨params, by simpa using vars⟩
    have alone := declarable_alone.mp both
    exact ⟨valid, alone.1, alone.2, by simp [localTable, Procedure.locals]⟩
  · rintro ⟨valid, distinct, apart, rfl⟩
    have both := declarable_append.mp (declarable_alone.mpr ⟨distinct, apart⟩)
    exact ⟨_, ⟨both.1, rfl⟩, valid, by simpa using both.2, by simp [localTable, Procedure.locals]⟩

/-- What a procedure must be after `earlier`, its own name included. -/
structure Procedure.Accepted (vars : List VarDecl) (earlier : List Procedure)
    (procedure : Procedure) : Prop where
  newGlobal : procedure.name ∉ vars.map VarDecl.name
  newName : procedure.name ∉ earlier.map Procedure.name
  typed : procedure.WellTyped (vars.map VarDecl.entry) earlier

theorem check_procedure_ok {globals : Table Ty} {procedures result : Table (List StandardType)}
    {procedure : Procedure} :
    checkProcedure globals procedures procedure = .ok result ↔
      procedure.name ∉ globals.map Prod.fst ∧ procedure.name ∉ procedures.map Prod.fst ∧
        (∀ declared ∈ procedure.vars, declared.type.WellFormed) ∧
        (procedure.locals.map Prod.fst).Nodup ∧
        procedure.name ∉ procedure.locals.map Prod.fst ∧
        Scope.checkStmts ⟨globals, localTable procedure, procedure.entry :: procedures⟩
          procedure.body = .ok () ∧
        result = procedure.entry :: procedures := by
  rw [checkProcedure, except_bind_ok]
  simp only [require_ok, Bool.and_eq_true, Bool.not_eq_true', ← Bool.not_eq_true,
    Table.holds_iff]
  constructor
  · rintro ⟨_, ⟨newGlobal, newName⟩, checked⟩
    simp only [except_bind_ok] at checked
    rcases checked with ⟨params, declaredParams, locals, declaredVars, _, typed, same⟩
    cases same
    have declared := declare_locals_ok.mp (except_bind_ok.mpr ⟨_, declaredParams, declaredVars⟩)
    rcases declared with ⟨valid, distinct, apart, rfl⟩
    exact ⟨newGlobal, newName, valid, distinct, apart, typed, rfl⟩
  · rintro ⟨newGlobal, newName, valid, distinct, apart, typed, rfl⟩
    have declared := declare_locals_ok.mpr ⟨valid, distinct, apart, rfl⟩
    rcases except_bind_ok.mp declared with ⟨params, declaredParams, declaredVars⟩
    refine ⟨(), ⟨newGlobal, newName⟩, ?_⟩
    simp only [except_bind_ok]
    exact ⟨params, declaredParams, _, declaredVars, (), typed, rfl⟩

theorem check_procedure_exact {vars : List VarDecl} {earlier : List Procedure}
    {procedure : Procedure} {result : Table (List StandardType)}
    (globalNames : (vars.map VarDecl.name).Nodup)
    (procedureNames : (earlier.map Procedure.name).Nodup) :
    checkProcedure (globalTable vars) (procedureTable earlier) procedure = .ok result ↔
      procedure.Accepted vars earlier ∧ result = procedureTable (earlier ++ [procedure]) := by
  have extended : procedure.entry :: procedureTable earlier =
      procedureTable (earlier ++ [procedure]) := by
    simp [procedureTable]
  rw [check_procedure_ok, extended, globalTable, procedureTable, List.map_reverse,
    List.mem_reverse, var_names, List.map_reverse, List.mem_reverse, procedure_names]
  -- The procedure is in its own table, so it may call itself.
  have means (newName : procedure.name ∉ earlier.map Procedure.name)
      (distinct : (procedure.locals.map Prod.fst).Nodup) :=
    tables_mean (vars.map VarDecl.entry) procedure.locals
      ((earlier ++ [procedure]).map Procedure.entry) (var_names vars ▸ globalNames) distinct
      (procedure_names _ ▸ nodup_names_append procedureNames newName)
  constructor
  · rintro ⟨newGlobal, newName, valid, distinct, apart, checked, rfl⟩
    have typed := (check_stmts_exact (means newName distinct) procedure.body).mp checked
    exact ⟨⟨newGlobal, newName, valid, distinct, apart, typed⟩, rfl⟩
  · rintro ⟨⟨newGlobal, newName, valid, distinct, apart, typed⟩, rfl⟩
    have checked := (check_stmts_exact (means newName distinct) procedure.body).mpr typed
    exact ⟨newGlobal, newName, valid, distinct, apart, checked, rfl⟩

theorem forall_split_cons {α : Type} {first : α} {rest : List α} {holds : List α → α → Prop} :
    (∀ before item after, first :: rest = before ++ item :: after → holds before item) ↔
      holds [] first ∧
        ∀ before item after, rest = before ++ item :: after → holds (first :: before) item := by
  constructor
  · intro each
    exact ⟨each [] first rest rfl, fun before item after same =>
      each (first :: before) item after (by rw [same, List.cons_append])⟩
  · rintro ⟨one, others⟩ before item after same
    cases before with
    | nil =>
        rw [List.nil_append, List.cons.injEq] at same
        exact same.1 ▸ one
    | cons head more =>
        rw [List.cons_append, List.cons.injEq] at same
        exact same.1 ▸ others more item after same.2

theorem check_procedures_exact {vars : List VarDecl} {earlier procedures : List Procedure}
    {result : Table (List StandardType)} (globalNames : (vars.map VarDecl.name).Nodup)
    (procedureNames : (earlier.map Procedure.name).Nodup) :
    checkProcedures (globalTable vars) (procedureTable earlier) procedures = .ok result ↔
      (∀ before procedure after, procedures = before ++ procedure :: after →
        procedure.Accepted vars (earlier ++ before)) ∧
        result = procedureTable (earlier ++ procedures) := by
  induction procedures generalizing earlier with
  | nil => simp [checkProcedures, eq_comm]
  | cons first rest ih =>
      rw [forall_split_cons, checkProcedures, except_bind_ok]
      simp only [check_procedure_exact globalNames procedureNames, List.append_nil]
      -- each procedure is checked in the table of all the ones before it
      have regrouped (more : List Procedure) :
          (earlier ++ [first]) ++ more = earlier ++ first :: more := by simp
      constructor
      · rintro ⟨_, ⟨accepted, rfl⟩, others⟩
        have names := nodup_names_append procedureNames accepted.newName
        rw [ih names] at others
        simp only [regrouped] at others
        exact ⟨⟨accepted, others.1⟩, others.2⟩
      · rintro ⟨⟨accepted, others⟩, rfl⟩
        have names := nodup_names_append procedureNames accepted.newName
        refine ⟨_, ⟨accepted, rfl⟩, (ih names).mpr ?_⟩
        simpa only [regrouped, and_true] using others

theorem nodup_map_iff_split {α : Type} {key : α → String} {items : List α} :
    (items.map key).Nodup ↔
      ∀ before item after, items = before ++ item :: after → key item ∉ before.map key := by
  induction items with
  | nil => simp
  | cons first rest ih =>
      rw [forall_split_cons, List.map_cons, List.nodup_cons, ih]
      simp only [List.map_nil, List.not_mem_nil, not_false_eq_true, true_and, List.map_cons,
        List.mem_cons, not_or]
      constructor
      · rintro ⟨fresh, others⟩ before item after same
        have held : item ∈ rest := by simp [same]
        exact ⟨fun equal => fresh (equal ▸ List.mem_map_of_mem held), others before item after same⟩
      · intro each
        refine ⟨fun held => ?_, fun before item after same => (each before item after same).2⟩
        rcases List.mem_map.mp held with ⟨item, member, equal⟩
        rcases List.append_of_mem member with ⟨before, after, same⟩
        exact (each before item after same).1 equal

theorem check_all_procedures_exact {vars : List VarDecl} {procedures : List Procedure}
    {result : Table (List StandardType)} (globalNames : (vars.map VarDecl.name).Nodup) :
    checkProcedures (globalTable vars) [] procedures = .ok result ↔
      (procedures.map Procedure.name).Nodup ∧
        (∀ procedure ∈ procedures, procedure.name ∉ vars.map VarDecl.name) ∧
        (∀ before procedure after, procedures = before ++ procedure :: after →
          procedure.WellTyped (vars.map VarDecl.entry) before) ∧
        result = procedureTable procedures := by
  have whole := @check_procedures_exact vars [] procedures result globalNames List.nodup_nil
  simp only [List.nil_append] at whole
  rw [nodup_map_iff_split]
  refine whole.trans ⟨?_, ?_⟩
  · rintro ⟨each, same⟩
    refine ⟨fun before item after split => (each before item after split).newName, ?_,
      fun before item after split => (each before item after split).typed, same⟩
    intro procedure member
    rcases List.append_of_mem member with ⟨before, after, split⟩
    exact (each before procedure after split).newGlobal
  · rintro ⟨names, apart, typed, same⟩
    refine ⟨fun before procedure after split => ?_, same⟩
    exact ⟨apart procedure (by simp [split]), names before procedure after split,
      typed before procedure after split⟩

theorem declare_globals_ok {vars : List VarDecl} {result : Table Ty} :
    declareVars [] [] vars = .ok result ↔
      (∀ declared ∈ vars, declared.type.WellFormed) ∧ (vars.map VarDecl.name).Nodup ∧
        result = globalTable vars := by
  rw [declare_vars_ok, List.append_nil, ← var_names]
  constructor
  · rintro ⟨valid, declarable, same⟩
    exact ⟨valid, declarable.distinct, same⟩
  · rintro ⟨valid, distinct, same⟩
    exact ⟨valid, ⟨distinct, by simp, by simp⟩, same⟩

theorem main_means {program : Program}
    (globalNames : (program.vars.map VarDecl.name).Nodup)
    (procedureNames : (program.procedures.map Procedure.name).Nodup) :
    Scope.Means ⟨globalTable program.vars, [], procedureTable program.procedures⟩
      ⟨program.vars.map VarDecl.entry, [], program.procedures.map Procedure.entry⟩ :=
  tables_mean _ [] _ (var_names _ ▸ globalNames) List.nodup_nil
    (procedure_names _ ▸ procedureNames)

theorem check_sound {program : Program} (accepted : program.check = .ok ()) :
    program.WellTyped := by
  simp only [Program.check, except_bind_ok, declare_globals_ok] at accepted
  rcases accepted with ⟨_, ⟨valid, globalNames, rfl⟩, _, checked, body⟩
  rcases (check_all_procedures_exact globalNames).mp checked with
    ⟨procedureNames, apart, typed, rfl⟩
  exact ⟨valid, globalNames, procedureNames, apart, typed,
    (check_stmts_exact (main_means globalNames procedureNames) program.body).mp body⟩

theorem check_complete {program : Program} (wellTyped : program.WellTyped) :
    program.check = .ok () := by
  rcases wellTyped with ⟨valid, globalNames, procedureNames, apart, typed, body⟩
  simp only [Program.check, except_bind_ok, declare_globals_ok]
  have checked := (check_all_procedures_exact globalNames).mpr
    ⟨procedureNames, apart, typed, rfl⟩
  exact ⟨_, ⟨valid, globalNames, rfl⟩, _, checked,
    (check_stmts_exact (main_means globalNames procedureNames) program.body).mpr body⟩

theorem check_ok_iff_well_typed (program : Program) :
    program.check = .ok () ↔ program.WellTyped :=
  ⟨check_sound, check_complete⟩

end PascalCasl
