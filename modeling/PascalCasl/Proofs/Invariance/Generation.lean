import PascalCasl.Code.Listing
import PascalCasl.Proofs.Invariance.Checking

/-!
Code generation does not see relabelling. Cells are handed out in the order of
the declarations and code names cells and procedures by number, so relabelled
programs have the same code.
-/

namespace PascalCasl

variable {α β : Type}

namespace Relabelling

variable (change : Relabelling)

def frame (storage : Frame) : Frame :=
  { storage with name := change.name storage.name, locals := change.table storage.locals }

def layout (storage : Layout) : Layout :=
  ⟨change.table storage.globals, storage.frames.map change.frame, storage.cells⟩

def env (storage : Env) : Env :=
  ⟨change.table storage.globals, change.table storage.locals, storage.frames.map change.frame,
    storage.current⟩

/-- The step on relabelled input: it takes the same from the supply. -/
def emitted (step : Emit α) : Emit α := fun supply =>
  (change.result id (step supply).1, (step supply).2)

end Relabelling

variable {change : Relabelling}

theorem emitted_bind {step other : Emit α} {next after : α → Emit β}
    (kept : other = change.emitted step)
    (same : ∀ value, after value = change.emitted (next value)) :
    other >>= after = change.emitted (step >>= next) := by
  subst kept
  funext supply
  simp only [Bind.bind, Emit.bind, Relabelling.emitted]
  rcases step supply with ⟨fault | value, middle⟩
  · rfl
  · exact congrFun (same value) middle

theorem unknown_kept (line : Nat) :
    (Emit.unknown (change.line line) : Emit α) = change.emitted (Emit.unknown line) := by
  funext supply
  simp only [Emit.unknown, Relabelling.emitted, Relabelling.result, change.semantic]

theorem allocate_vars_kept (cells : Table Cells) (next : Nat) (vars : List VarDecl) :
    Layout.allocateVars (change.table cells) next (vars.map change.varDecl) =
      (change.table (Layout.allocateVars cells next vars).1,
        (Layout.allocateVars cells next vars).2) := by
  induction vars generalizing cells next with
  | nil => rfl
  | cons first rest ih => exact ih ((first.name, _) :: cells) _

theorem allocate_params_kept (cells : Table Cells) (next : Nat) (params : List Param) :
    Layout.allocateParams (change.table cells) next (params.map change.param) =
      (change.table (Layout.allocateParams cells next params).1,
        (Layout.allocateParams cells next params).2) := by
  induction params generalizing cells next with
  | nil => rfl
  | cons first rest ih => exact ih ((first.name, _) :: cells) _

theorem frame_kept (ordinal base : Nat) (declared : Procedure) :
    Frame.ofProcedure ordinal base (change.procedure declared) =
      change.frame (Frame.ofProcedure ordinal base declared) := by
  have params : Layout.allocateParams [] base (declared.params.map change.param) =
      (change.table (Layout.allocateParams [] base declared.params).1,
        (Layout.allocateParams [] base declared.params).2) :=
    allocate_params_kept [] base declared.params
  simp only [Frame.ofProcedure, Relabelling.procedure, params, allocate_vars_kept]
  rfl

theorem frames_kept (ordinal next : Nat) (declared : List Procedure) :
    Layout.allocateFrames ordinal next (declared.map change.procedure) =
      ((Layout.allocateFrames ordinal next declared).1.map change.frame,
        (Layout.allocateFrames ordinal next declared).2) := by
  induction declared generalizing ordinal next with
  | nil => rfl
  | cons first rest ih =>
      have after : (change.frame (Frame.ofProcedure ordinal next first)).next =
          (Frame.ofProcedure ordinal next first).next := rfl
      simp only [List.map_cons, Layout.allocateFrames, frame_kept, after, ih]

theorem layout_kept (program : Program) :
    Layout.ofProgram (change.program program) = change.layout (Layout.ofProgram program) := by
  have globals : Layout.allocateVars [] 0 (program.vars.map change.varDecl) =
      (change.table (Layout.allocateVars [] 0 program.vars).1,
        (Layout.allocateVars [] 0 program.vars).2) :=
    allocate_vars_kept [] 0 program.vars
  simp only [Layout.ofProgram, Relabelling.program, globals, frames_kept]
  rfl

section Code

variable (storage : Env)

theorem cells_kept (name : String) (line : Nat) :
    (change.env storage).cells (change.name name) (change.line line) =
      change.emitted (storage.cells name line) := by
  simp only [Env.cells, Env.cells?, Relabelling.env, table_find_kept]
  cases storage.locals.find? name with
  | some cells => rfl
  | none =>
      cases storage.globals.find? name with
      | some cells => rfl
      | none => exact unknown_kept line

theorem procedure_frame_kept (name : String) :
    (change.env storage).procedure? (change.name name) =
      (storage.procedure? name).map change.frame := by
  have same : (fun frame : Frame => decide (frame.name = change.name name)) ∘ change.frame =
      fun frame => decide (frame.name = name) := by
    funext frame
    simp only [Function.comp_apply, decide_eq_decide]
    exact change.injective.eq_iff
  rw [Env.procedure?, Relabelling.env, List.find?_map, same]
  rfl

theorem text_code_kept (text : String) : textCode text = change.emitted (textCode text) := by
  unfold textCode
  split <;> rfl

theorem binary_code_kept (op : BinaryOp) (left : Pushed) :
    binaryCode op left = change.emitted (binaryCode op left) := by
  cases op <;> rfl

theorem expr_code_kept (value : Expr) :
    (change.env storage).expr (change.expr value) = change.emitted (storage.expr value) := by
  induction value with
  | number line value => rfl
  | string line text => exact text_code_kept text
  | truth line value => rfl
  | simple line name =>
      apply emitted_bind (cells_kept storage name line)
      intro cells
      cases cells <;> rfl
  | indexed line name index ih =>
      apply emitted_bind (cells_kept storage name line)
      intro cells
      cases cells with
      | scalar base type => exact unknown_kept line
      | array base element low count => exact emitted_bind ih fun _ => rfl
  | unary line op operand ih => exact emitted_bind ih fun _ => rfl
  | binary line op left right leftIH rightIH =>
      apply emitted_bind leftIH
      intro leftCode
      apply emitted_bind rightIH
      intro rightCode
      exact emitted_bind (binary_code_kept op leftCode.1) fun _ => rfl

theorem target_code_kept (assigned : Target) :
    (change.env storage).target (change.target assigned) =
      change.emitted (storage.target assigned) := by
  cases assigned with
  | simple line name =>
      apply emitted_bind (cells_kept storage name line)
      intro cells
      cases cells <;> rfl
  | indexed line name index =>
      apply emitted_bind (cells_kept storage name line)
      intro cells
      cases cells with
      | scalar base type => exact unknown_kept line
      | array base element low count =>
          exact emitted_bind (expr_code_kept storage index) fun _ => rfl

theorem exprs_code_kept (values : List Expr) :
    (change.env storage).exprs (values.map change.expr) =
      change.emitted (storage.exprs values) := by
  induction values with
  | nil => rfl
  | cons first rest ih =>
      apply emitted_bind (expr_code_kept storage first)
      intro code
      exact emitted_bind ih fun _ => rfl

theorem reads_code_kept (targets : List Target) :
    (change.env storage).reads (targets.map change.target) =
      change.emitted (storage.reads targets) := by
  induction targets with
  | nil => rfl
  | cons first rest ih =>
      apply emitted_bind (target_code_kept storage first)
      intro code
      exact emitted_bind ih fun _ => rfl

theorem writes_code_kept (values : List Expr) :
    (change.env storage).writes (values.map change.expr) =
      change.emitted (storage.writes values) := by
  induction values with
  | nil => rfl
  | cons first rest ih =>
      apply emitted_bind (expr_code_kept storage first)
      intro code
      exact emitted_bind ih fun _ => rfl

theorem call_code_kept (name : String) (arguments : List Expr) (line : Nat) :
    (change.env storage).call (change.name name) (arguments.map change.expr) (change.line line) =
      change.emitted (storage.call name arguments line) := by
  unfold Env.call
  rw [procedure_frame_kept]
  cases storage.procedure? name with
  | none => exact unknown_kept line
  | some frame =>
      simp only [Option.map_some, ← List.map_reverse]
      apply emitted_bind (exprs_code_kept storage arguments.reverse)
      intro code
      by_cases own : storage.current = some frame.ordinal
      · simp only [Relabelling.env, Relabelling.frame, own, ↓reduceIte]
        rfl
      · simp only [Relabelling.env, Relabelling.frame, own, ↓reduceIte]
        rfl

mutual

theorem stmt_code_kept (statement : Stmt) :
    (change.env storage).stmt (change.stmt statement) =
      change.emitted (storage.stmt statement) := by
  cases statement with
  | assign line assigned value =>
      apply emitted_bind (target_code_kept storage assigned)
      intro targetCode
      exact emitted_bind (expr_code_kept storage value) fun _ => rfl
  | call line name arguments => exact call_code_kept storage name arguments line
  | ifThen line condition thenLine thenBody =>
      apply emitted_bind (rfl : Emit.openOtherwise = _)
      intro number
      apply emitted_bind (expr_code_kept storage condition)
      intro test
      apply emitted_bind (stmts_code_kept thenBody)
      intro thenCode
      exact emitted_bind (rfl : Emit.closeOtherwise number = _) fun _ => rfl
  | ifElse line condition thenLine thenBody elseLine elseBody =>
      apply emitted_bind (rfl : Emit.openOtherwise = _)
      intro number
      apply emitted_bind (expr_code_kept storage condition)
      intro test
      apply emitted_bind (stmts_code_kept thenBody)
      intro thenCode
      apply emitted_bind (rfl : Emit.openEndIf = _)
      intro endNumber
      apply emitted_bind (rfl : Emit.closeOtherwise number = _)
      intro _
      apply emitted_bind (stmts_code_kept elseBody)
      intro elseCode
      exact emitted_bind (rfl : Emit.closeEndIf endNumber = _) fun _ => rfl
  | whileDo line condition bodyLine body =>
      apply emitted_bind (rfl : Emit.openLoop = _)
      intro number
      apply emitted_bind (expr_code_kept storage condition)
      intro test
      apply emitted_bind (stmts_code_kept body)
      intro bodyCode
      exact emitted_bind (rfl : Emit.closeLoop number = _) fun _ => rfl
  | read line targets => exact emitted_bind (reads_code_kept storage targets) fun _ => rfl
  | write line values => exact emitted_bind (writes_code_kept storage values) fun _ => rfl
  | block line body => exact stmts_code_kept body
  termination_by structural statement

theorem stmts_code_kept (body : List Stmt) :
    (change.env storage).stmts (change.stmts body) = change.emitted (storage.stmts body) := by
  cases body with
  | nil => rfl
  | cons first rest =>
      apply emitted_bind (stmt_code_kept first)
      intro code
      exact emitted_bind (stmts_code_kept rest) fun _ => rfl
  termination_by structural body

end

end Code

theorem procedure_code_kept (globals : Table Cells) (earlier : List Frame) (storage : Frame)
    (declared : Procedure) :
    procedureCode (change.table globals) (earlier.map change.frame) (change.frame storage)
        (change.procedure declared) =
      change.emitted (procedureCode globals earlier storage declared) := by
  have same : (⟨change.table globals, (change.frame storage).locals,
      earlier.map change.frame ++ [change.frame storage], some storage.ordinal⟩ : Env) =
      change.env ⟨globals, storage.locals, earlier ++ [storage], some storage.ordinal⟩ := by
    simp only [Relabelling.env, Relabelling.frame, List.map_append, List.map_cons, List.map_nil]
  have ordinal : (change.frame storage).ordinal = storage.ordinal := rfl
  simp only [procedureCode, List.length_map, ordinal, same, Relabelling.procedure]
  exact emitted_bind (stmts_code_kept _ declared.body) fun _ => rfl

theorem procedures_code_kept (globals : Table Cells) (earlier : List Frame)
    (declared : List (Frame × Procedure)) :
    proceduresCode (change.table globals) (earlier.map change.frame)
        (declared.map (Prod.map change.frame change.procedure)) =
      change.emitted (proceduresCode globals earlier declared) := by
  induction declared generalizing earlier with
  | nil => rfl
  | cons first rest ih =>
      obtain ⟨storage, declared⟩ := first
      have more := ih (earlier ++ [storage])
      rw [List.map_append] at more
      apply emitted_bind (procedure_code_kept globals earlier storage declared)
      intro code
      exact emitted_bind more fun _ => rfl

theorem program_code_kept (program : Program) :
    programCode (change.program program) = change.emitted (programCode program) := by
  have zipped : (change.layout (Layout.ofProgram program)).frames.zip
      (change.program program).procedures =
      ((Layout.ofProgram program).frames.zip program.procedures).map
        (Prod.map change.frame change.procedure) :=
    List.zip_map
  simp only [programCode, layout_kept, zipped]
  apply emitted_bind (procedures_code_kept _ [] _)
  intro procedures
  exact emitted_bind (stmts_code_kept ⟨_, [], _, none⟩ program.body) fun _ => rfl

theorem assembly_kept (program : Program) :
    (change.program program).assembly = change.result id program.assembly := by
  unfold Program.assembly Listing.ofProgram
  rw [program_code_kept, layout_kept]
  simp only [Relabelling.emitted]
  rcases programCode program .empty with ⟨fault | ⟨procedures, main⟩, supply⟩ <;> rfl

end PascalCasl
