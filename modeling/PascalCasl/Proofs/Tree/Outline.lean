import PascalCasl.Proofs.Invariance.Lines

/-!
What a tree says apart from its lines and from the sign of a zero bound. Lines
are used for reports alone, and a bound is used through its value and its range,
where the sign of zero makes no difference; so trees of one outline are accepted
or refused together and have the same code.
-/

namespace PascalCasl

def Bound.settled (bound : Bound) : Bound :=
  ⟨bound.negative && bound.magnitude ≠ 0, bound.magnitude⟩

def TypeSpec.settled : TypeSpec → TypeSpec
  | .standard type => .standard type
  | .array low high element => .array low.settled high.settled element

def VarDecl.settled (declared : VarDecl) : VarDecl :=
  { declared with type := declared.type.settled }

def Procedure.settled (declared : Procedure) : Procedure :=
  { declared with vars := declared.vars.map VarDecl.settled }

def Program.settled (program : Program) : Program :=
  { program with
    vars := program.vars.map VarDecl.settled
    procedures := program.procedures.map Procedure.settled }

theorem bound_settled_eq (bound : Bound) :
    bound.settled = ⟨bound.value < 0, bound.value.natAbs⟩ := by
  rcases bound with ⟨_ | _, magnitude⟩ <;> simp [Bound.settled, Bound.value, Nat.pos_iff_ne_zero]

theorem bound_settled_value (bound : Bound) : bound.settled.value = bound.value := by
  rcases bound with ⟨_ | _, magnitude⟩
  · rfl
  · by_cases zero : magnitude = 0 <;> simp [Bound.settled, Bound.value, zero]

theorem bound_settled_iff {first second : Bound} :
    first.settled = second.settled ↔ first.value = second.value := by
  constructor
  · intro same
    rw [← bound_settled_value first, same, bound_settled_value]
  · intro same
    rw [bound_settled_eq, same, bound_settled_eq]

theorem bound_settled_range (bound : Bound) : bound.settled.inRange = bound.inRange := by
  rcases bound with ⟨negative, magnitude⟩
  cases negative with
  | false => rfl
  | true =>
      by_cases zero : magnitude = 0
      · simp [zero, Bound.settled, Bound.inRange]
      · simp [zero, Bound.settled, Bound.inRange]

theorem valid_settled (type : TypeSpec) : type.settled.isValid = type.isValid := by
  cases type with
  | standard type => rfl
  | array low high element =>
      simp only [TypeSpec.settled, TypeSpec.isValid, bound_settled_range, bound_settled_value]

theorem type_settled (type : TypeSpec) : Ty.ofSpec type.settled = Ty.ofSpec type := by
  cases type <;> rfl

theorem cells_settled (base : Nat) (type : TypeSpec) :
    Cells.ofSpec base type.settled = Cells.ofSpec base type := by
  cases type with
  | standard type => rfl
  | array low high element =>
      simp only [TypeSpec.settled, Cells.ofSpec, cellsBetween, bound_settled_value]

theorem declare_vars_settled (reserved : List String) (table : Table Ty) (vars : List VarDecl) :
    declareVars reserved table (vars.map VarDecl.settled) = declareVars reserved table vars := by
  induction vars generalizing table with
  | nil => rfl
  | cons first rest ih =>
      simp only [List.map_cons, declareVars, VarDecl.settled, valid_settled, type_settled, ih]

theorem check_procedures_settled (globals : Table Ty) (known : Table (List StandardType))
    (procedures : List Procedure) :
    checkProcedures globals known (procedures.map Procedure.settled) =
      checkProcedures globals known procedures := by
  induction procedures generalizing known with
  | nil => rfl
  | cons first rest ih =>
      simp only [List.map_cons, checkProcedures, checkProcedure, Procedure.settled,
        declare_vars_settled, ih]

theorem check_settled (program : Program) : program.settled.check = program.check := by
  simp only [Program.check, Program.settled, declare_vars_settled, check_procedures_settled]

theorem allocate_vars_settled (table : Table Cells) (next : Nat) (vars : List VarDecl) :
    Layout.allocateVars table next (vars.map VarDecl.settled) =
      Layout.allocateVars table next vars := by
  induction vars generalizing table next with
  | nil => rfl
  | cons first rest ih =>
      simp only [List.map_cons, Layout.allocateVars, VarDecl.settled, cells_settled, ih]

theorem allocate_frames_settled (ordinal next : Nat) (procedures : List Procedure) :
    Layout.allocateFrames ordinal next (procedures.map Procedure.settled) =
      Layout.allocateFrames ordinal next procedures := by
  induction procedures generalizing ordinal next with
  | nil => rfl
  | cons first rest ih =>
      simp only [List.map_cons, Layout.allocateFrames, Frame.ofProcedure, Procedure.settled,
        allocate_vars_settled, ih]

theorem layout_settled (program : Program) :
    Layout.ofProgram program.settled = Layout.ofProgram program := by
  simp only [Layout.ofProgram, Program.settled, allocate_vars_settled, allocate_frames_settled]

theorem procedures_code_settled (globals : Table Cells) (earlier frames : List Frame)
    (procedures : List Procedure) :
    proceduresCode globals earlier (frames.zip (procedures.map Procedure.settled)) =
      proceduresCode globals earlier (frames.zip procedures) := by
  induction frames generalizing earlier procedures with
  | nil => rfl
  | cons frame frames ih =>
      cases procedures with
      | nil => rfl
      | cons first rest =>
          simp only [List.map_cons, List.zip_cons_cons, proceduresCode, ih]
          rfl

theorem assembly_settled (program : Program) : program.settled.assembly = program.assembly := by
  have code : programCode program.settled = programCode program := by
    simp only [programCode, layout_settled]
    simp only [Program.settled, procedures_code_settled]
  simp only [Program.assembly, Listing.ofProgram, code, layout_settled]

def unlined : Relabelling := .ofLines fun _ => 0

/-- The tree with every line zero and no sign before a bound that is zero. -/
def Program.outline (program : Program) : Program := (unlined.program program).settled

theorem outline_check (program : Program) :
    program.outline.check = .ok () ↔ program.check = .ok () := by
  rw [Program.outline, check_settled, check_kept]
  cases program.check with
  | ok value => simp [Relabelling.result]
  | error fault => simp [Relabelling.result]

theorem outline_assembly (program : Program) (text : String) :
    program.outline.assembly = .ok text ↔ program.assembly = .ok text := by
  rw [Program.outline, assembly_settled, assembly_kept]
  cases program.assembly with
  | ok text => simp [Relabelling.result]
  | error fault => simp [Relabelling.result]

end PascalCasl
