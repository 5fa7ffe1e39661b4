import PascalCasl.Proofs.Invariance.Relabelling
import PascalCasl.Typing.Check

/-!
Checking does not see relabelling. Tables are searched with equality of names
alone, so a relabelled name is found where the name was; and every violation is
reported at a line of the tree.
-/

namespace PascalCasl

variable {α : Type}

namespace Relabelling

variable (change : Relabelling)

def table (names : Table α) : Table α := names.map fun entry => (change.name entry.1, entry.2)

def scope (names : Scope) : Scope :=
  ⟨change.table names.globals, change.table names.locals, change.table names.procedures⟩

end Relabelling

variable {change : Relabelling}

theorem table_find_kept (names : Table α) (name : String) :
    (change.table names).find? (change.name name) = names.find? name := by
  simp only [Relabelling.table, Table.find?]
  induction names with
  | nil => rfl
  | cons entry names ih =>
      obtain ⟨known, value⟩ := entry
      by_cases found : name = known
      · simp [found]
      · have other : change.name name ≠ change.name known := change.injective.ne found
        simp [List.lookup_cons, beq_false_of_ne found, beq_false_of_ne other, ih]

theorem table_holds_kept (names : Table α) (name : String) :
    (change.table names).holds (change.name name) = names.holds name := by
  rw [Table.holds, table_find_kept, Table.holds]

theorem scope_find_kept (names : Scope) (name : String) :
    (change.scope names).find? (change.name name) = names.find? name := by
  simp only [Scope.find?, Relabelling.scope, table_find_kept]

theorem require_kept (condition : Bool) (line : Nat) :
    require condition (change.line line) = change.result id (require condition line) := by
  cases condition with
  | true => rfl
  | false => exact congrArg Except.error (change.semantic line).symm

theorem or_violation_kept (value? : Option α) (line : Nat) :
    orViolation value? (change.line line) = change.result id (orViolation value? line) := by
  cases value? with
  | some value => rfl
  | none => exact congrArg Except.error (change.semantic line).symm

section Statements

variable (names : Scope)

open Relabelling (result_bind)

theorem infer_kept (value : Expr) :
    (change.scope names).infer (change.expr value) = change.result id (names.infer value) := by
  induction value with
  | number line value =>
      exact result_bind (require_kept _ line) fun _ _ => rfl
  | string line text => exact or_violation_kept _ line
  | truth line value => rfl
  | simple line name =>
      simp only [Relabelling.expr, Scope.infer, scope_find_kept, or_violation_kept]
  | indexed line name index ih =>
      simp only [Relabelling.expr, Scope.infer, scope_find_kept]
      apply result_bind (or_violation_kept _ line)
      intro declared _
      exact result_bind ih fun _ _ => or_violation_kept _ line
  | unary line op operand ih =>
      have checked {step other : Except Fault Ty} (kept : other = change.result id step) :
          (do
            let type ← other
            require (type = operandType op) (change.line line)
            .ok type) =
          change.result id (do
            let type ← step
            require (type = operandType op) line
            .ok type) :=
        result_bind kept fun type _ => result_bind (require_kept _ line) fun _ _ => rfl
      cases op with
      | minus =>
          -- a number under a minus sign has a limit of its own
          cases operand with
          | number numberLine value =>
              apply result_bind (require_kept _ numberLine)
              intro _ _
              exact checked (rfl : .ok Ty.integer = change.result id (.ok Ty.integer))
          | _ => exact checked ih
      | _ => exact checked ih
  | binary line op left right leftIH rightIH =>
      apply result_bind leftIH
      intro leftType _
      exact result_bind rightIH fun _ _ => or_violation_kept _ line

theorem target_type_kept (assigned : Target) :
    (change.scope names).targetType (change.target assigned) =
      change.result id (names.targetType assigned) := by
  cases assigned with
  | simple line name =>
      simp only [Relabelling.target, Scope.targetType, scope_find_kept, or_violation_kept]
  | indexed line name index =>
      simp only [Relabelling.target, Scope.targetType, scope_find_kept]
      apply result_bind (or_violation_kept _ line)
      intro declared _
      exact result_bind (infer_kept names index) fun _ _ => or_violation_kept _ line

theorem infer_all_kept (values : List Expr) :
    (change.scope names).inferAll (values.map change.expr) =
      change.result id (names.inferAll values) := by
  induction values with
  | nil => rfl
  | cons first rest ih =>
      apply result_bind (infer_kept names first)
      intro type _
      exact result_bind ih fun _ _ => rfl

theorem check_targets_kept (targets : List Target) :
    (change.scope names).checkTargets (targets.map change.target) =
      change.result id (names.checkTargets targets) := by
  induction targets with
  | nil => rfl
  | cons first rest ih =>
      apply result_bind (target_type_kept names first)
      intro type _
      rw [Relabelling.target_line]
      exact result_bind (require_kept _ first.line) fun _ _ => ih

theorem check_values_kept (values : List Expr) :
    (change.scope names).checkValues (values.map change.expr) =
      change.result id (names.checkValues values) := by
  induction values with
  | nil => rfl
  | cons first rest ih =>
      apply result_bind (infer_kept names first)
      intro type _
      rw [Relabelling.expr_line]
      exact result_bind (require_kept _ first.line) fun _ _ => ih

theorem check_condition_kept (condition : Expr) (line : Nat) :
    (change.scope names).checkCondition (change.expr condition) (change.line line) =
      change.result id (names.checkCondition condition line) :=
  result_bind (infer_kept names condition) fun _ _ => require_kept _ line

mutual

theorem check_stmt_kept (statement : Stmt) :
    (change.scope names).checkStmt (change.stmt statement) =
      change.result id (names.checkStmt statement) := by
  cases statement with
  | assign line assigned value =>
      apply result_bind (target_type_kept names assigned)
      intro type _
      exact result_bind (infer_kept names value) fun _ _ => require_kept _ line
  | call line name arguments =>
      apply result_bind (infer_all_kept names arguments)
      intro types _
      rw [Relabelling.scope, table_find_kept]
      exact result_bind (or_violation_kept _ line) fun _ _ => require_kept _ line
  | ifThen line condition thenLine thenBody =>
      apply result_bind (check_condition_kept names condition line)
      intro _ _
      exact check_stmts_kept thenBody
  | ifElse line condition thenLine thenBody elseLine elseBody =>
      apply result_bind (check_condition_kept names condition line)
      intro _ _
      apply result_bind (check_stmts_kept thenBody)
      intro _ _
      exact check_stmts_kept elseBody
  | whileDo line condition bodyLine body =>
      apply result_bind (check_condition_kept names condition line)
      intro _ _
      exact check_stmts_kept body
  | read line targets => exact check_targets_kept names targets
  | write line values => exact check_values_kept names values
  | block line body => exact check_stmts_kept body
  termination_by structural statement

theorem check_stmts_kept (body : List Stmt) :
    (change.scope names).checkStmts (change.stmts body) =
      change.result id (names.checkStmts body) := by
  cases body with
  | nil => rfl
  | cons first rest =>
      apply result_bind (check_stmt_kept first)
      intro _ _
      exact check_stmts_kept rest
  termination_by structural body

end

end Statements

open Relabelling (result_bind)

theorem reserved_kept (reserved : List String) (name : String) :
    (reserved.map change.name).contains (change.name name) = reserved.contains name := by
  rw [Bool.eq_iff_iff, List.contains_iff_mem, List.contains_iff_mem]
  simp [change.injective.eq_iff]

theorem declare_kept (reserved : List String) (names : Table Ty) (name : String) (type : Ty)
    (line : Nat) :
    declare (reserved.map change.name) (change.table names) (change.name name) type
        (change.line line) =
      change.result change.table (declare reserved names name type line) := by
  simp only [declare, reserved_kept, table_holds_kept]
  exact result_bind (require_kept _ line) fun _ _ => rfl

theorem declare_params_kept (reserved : List String) (names : Table Ty) (params : List Param) :
    declareParams (reserved.map change.name) (change.table names) (params.map change.param) =
      change.result change.table (declareParams reserved names params) := by
  induction params generalizing names with
  | nil => rfl
  | cons first rest ih =>
      apply result_bind (declare_kept reserved names first.name _ first.line)
      intro names _
      exact ih names

theorem declare_vars_kept (reserved : List String) (names : Table Ty) (vars : List VarDecl) :
    declareVars (reserved.map change.name) (change.table names) (vars.map change.varDecl) =
      change.result change.table (declareVars reserved names vars) := by
  induction vars generalizing names with
  | nil => rfl
  | cons first rest ih =>
      apply result_bind (require_kept _ first.typeLine)
      intro _ _
      apply result_bind (declare_kept reserved names first.name _ first.line)
      intro names _
      exact ih names

theorem param_types_kept (params : List Param) :
    (params.map change.param).map Param.type = params.map Param.type := by
  rw [List.map_map]
  rfl

theorem check_procedure_kept (globals : Table Ty) (procedures : Table (List StandardType))
    (declared : Procedure) :
    checkProcedure (change.table globals) (change.table procedures) (change.procedure declared) =
      change.result change.table (checkProcedure globals procedures declared) := by
  simp only [checkProcedure, Relabelling.procedure, table_holds_kept, param_types_kept]
  apply result_bind (require_kept _ declared.line)
  intro _ _
  apply result_bind (declare_params_kept [declared.name] [] declared.params)
  intro locals _
  apply result_bind (declare_vars_kept [declared.name] locals declared.vars)
  intro locals _
  apply result_bind (check_stmts_kept
    ⟨globals, locals, (declared.name, declared.params.map Param.type) :: procedures⟩ declared.body)
  exact fun _ _ => rfl

theorem check_procedures_kept (globals : Table Ty) (procedures : Table (List StandardType))
    (declared : List Procedure) :
    checkProcedures (change.table globals) (change.table procedures)
        (declared.map change.procedure) =
      change.result change.table (checkProcedures globals procedures declared) := by
  induction declared generalizing procedures with
  | nil => rfl
  | cons first rest ih =>
      exact result_bind (check_procedure_kept globals procedures first) fun procedures _ =>
        ih procedures

theorem check_kept (program : Program) :
    (change.program program).check = change.result id program.check := by
  apply result_bind (declare_vars_kept [] [] program.vars)
  intro globals _
  apply result_bind (check_procedures_kept globals [] program.procedures)
  intro procedures _
  exact check_stmts_kept ⟨globals, [], procedures⟩ program.body

end PascalCasl
