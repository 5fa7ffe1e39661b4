import PascalCasl.Code.Layout
import PascalCasl.Proofs.Typing.Declarations

/-!
Cells of variables. The variables of a table lie one after another, so the
cells of different names are apart; globals lie before all frames, and the
frames follow each other in the order of the procedures.
-/

namespace PascalCasl

/-- The cells of the table lie from `low` up to `high`, those of different names
apart. -/
structure Packed (table : Table Cells) (low high : Nat) : Prop where
  within : ∀ name cells, table.find? name = some cells →
    low ≤ cells.base ∧ cells.base + cells.count ≤ high
  apart : ∀ name other cells others, name ≠ other → table.find? name = some cells →
    table.find? other = some others →
    cells.base + cells.count ≤ others.base ∨ others.base + others.count ≤ cells.base

theorem packed_nil (low high : Nat) : Packed [] low high where
  within _ _ found := by simp [Table.find?] at found
  apart _ _ _ _ _ found := by simp [Table.find?] at found

theorem packed_cons {table : Table Cells} {low next : Nat} (packed : Packed table low next)
    (ordered : low ≤ next) (name : String) {cells : Cells} (based : cells.base = next) :
    Packed ((name, cells) :: table) low (next + cells.count) where
  within other found located := by
    rw [Table.find_cons] at located
    split at located
    · cases located
      omega
    · have inside := packed.within other found located
      omega
  apart first second firstCells secondCells different firstFound secondFound := by
    rw [Table.find_cons] at firstFound secondFound
    split at firstFound <;> split at secondFound
    next sameFirst sameSecond => exact absurd (sameFirst.trans sameSecond.symm) different
    next =>
      cases firstFound
      have inside := packed.within second secondCells secondFound
      omega
    next =>
      cases secondFound
      have inside := packed.within first firstCells firstFound
      omega
    next => exact packed.apart first second firstCells secondCells different firstFound secondFound

theorem cells_base (base : Nat) (type : TypeSpec) : (Cells.ofSpec base type).base = base := by
  cases type <;> rfl

namespace Layout

theorem allocate_vars_packed {table : Table Cells} {low next : Nat} (vars : List VarDecl)
    (packed : Packed table low next) (ordered : low ≤ next) :
    Packed (allocateVars table next vars).1 low (allocateVars table next vars).2 ∧
      next ≤ (allocateVars table next vars).2 := by
  induction vars generalizing table next with
  | nil => exact ⟨packed, Nat.le_refl _⟩
  | cons first rest ih =>
      have more := packed_cons packed ordered first.name (cells_base next first.type)
      have others := ih more (Nat.le_trans ordered (Nat.le_add_right _ _))
      exact ⟨others.1, Nat.le_trans (Nat.le_add_right _ _) others.2⟩

theorem allocate_params_packed {table : Table Cells} {low next : Nat} (params : List Param)
    (packed : Packed table low next) (ordered : low ≤ next) :
    Packed (allocateParams table next params).1 low (allocateParams table next params).2 ∧
      next ≤ (allocateParams table next params).2 := by
  induction params generalizing table next with
  | nil => exact ⟨packed, Nat.le_refl _⟩
  | cons first rest ih =>
      have based : (Cells.scalar next first.type).base = next := rfl
      have more := packed_cons packed ordered first.name based
      have others := ih more (Nat.le_trans ordered (Nat.le_add_right _ _))
      exact ⟨others.1, Nat.le_trans (Nat.le_add_right _ _) others.2⟩

theorem frame_packed (ordinal base : Nat) (procedure : Procedure) :
    Packed (Frame.ofProcedure ordinal base procedure).locals base
      (Frame.ofProcedure ordinal base procedure).next := by
  have params := allocate_params_packed procedure.params (packed_nil base base) (Nat.le_refl _)
  have vars := allocate_vars_packed procedure.vars params.1 params.2
  have next : (Frame.ofProcedure ordinal base procedure).next =
      (allocateVars (allocateParams [] base procedure.params).1
        (allocateParams [] base procedure.params).2 procedure.vars).2 :=
    Nat.add_sub_of_le (Nat.le_trans params.2 vars.2)
  rw [next]
  exact vars.1

theorem allocate_params_next (table : Table Cells) (next : Nat) (params : List Param) :
    (allocateParams table next params).2 = next + params.length := by
  induction params generalizing table next with
  | nil => rfl
  | cons first rest ih =>
      rw [allocateParams, ih, List.length_cons]
      omega

theorem params_in_frame (ordinal base : Nat) (procedure : Procedure) :
    base + procedure.params.length ≤ (Frame.ofProcedure ordinal base procedure).next := by
  have params := allocate_params_packed procedure.params (packed_nil base base) (Nat.le_refl _)
  have vars := allocate_vars_packed procedure.vars params.1 params.2
  rw [allocate_params_next] at vars
  have next : (Frame.ofProcedure ordinal base procedure).next = base +
      ((allocateVars (allocateParams [] base procedure.params).1
        (allocateParams [] base procedure.params).2 procedure.vars).2 - base) := rfl
  rw [next, allocate_params_next]
  omega

theorem allocate_frames_le (ordinal next : Nat) (procedures : List Procedure) :
    next ≤ (allocateFrames ordinal next procedures).2 := by
  induction procedures generalizing ordinal next with
  | nil => exact Nat.le_refl _
  | cons first rest ih =>
      have frame : next ≤ (Frame.ofProcedure ordinal next first).next := Nat.le_add_right _ _
      exact Nat.le_trans frame (ih _ _)

theorem allocate_frames_append (ordinal next : Nat) (first second : List Procedure) :
    allocateFrames ordinal next (first ++ second) =
      ((allocateFrames ordinal next first).1 ++
          (allocateFrames (ordinal + first.length) (allocateFrames ordinal next first).2 second).1,
        (allocateFrames (ordinal + first.length)
          (allocateFrames ordinal next first).2 second).2) := by
  induction first generalizing ordinal next with
  | nil => rfl
  | cons head rest ih =>
      have counted : ordinal + 1 + rest.length = ordinal + (rest.length + 1) := by omega
      simp [allocateFrames, ih, counted]

theorem allocate_frames_names (ordinal next : Nat) (procedures : List Procedure) :
    (allocateFrames ordinal next procedures).1.map Frame.name = procedures.map Procedure.name := by
  induction procedures generalizing ordinal next with
  | nil => rfl
  | cons first rest ih => simpa [allocateFrames, Frame.ofProcedure] using ih _ _

theorem allocate_frames_ordinals (ordinal next : Nat) (procedures : List Procedure) :
    (allocateFrames ordinal next procedures).1.map Frame.ordinal =
      List.range' ordinal procedures.length := by
  induction procedures generalizing ordinal next with
  | nil => rfl
  | cons first rest ih =>
      rw [allocateFrames, List.map_cons, ih, List.length_cons, List.range'_succ]
      rfl

end Layout

/-! Tables list the newest name first and declarations the oldest. -/

def varCells (next : Nat) : List VarDecl → List (String × Cells)
  | [] => []
  | first :: rest =>
      let cells := Cells.ofSpec next first.type
      (first.name, cells) :: varCells (next + cells.count) rest

def paramCells (next : Nat) : List Param → List (String × Cells)
  | [] => []
  | first :: rest => (first.name, .scalar next first.type) :: paramCells (next + 1) rest

theorem allocate_vars_eq (table : Table Cells) (next : Nat) (vars : List VarDecl) :
    (Layout.allocateVars table next vars).1 = (varCells next vars).reverse ++ table := by
  induction vars generalizing table next with
  | nil => rfl
  | cons first rest ih => simp [Layout.allocateVars, varCells, ih]

theorem allocate_params_eq (table : Table Cells) (next : Nat) (params : List Param) :
    (Layout.allocateParams table next params).1 = (paramCells next params).reverse ++ table := by
  induction params generalizing table next with
  | nil => rfl
  | cons first rest ih => simp [Layout.allocateParams, paramCells, ih]

theorem var_cells_names (next : Nat) (vars : List VarDecl) :
    (varCells next vars).map Prod.fst = vars.map VarDecl.name := by
  induction vars generalizing next with
  | nil => rfl
  | cons first rest ih => simp [varCells, ih]

theorem param_cells_names (next : Nat) (params : List Param) :
    (paramCells next params).map Prod.fst = params.map Param.name := by
  induction params generalizing next with
  | nil => rfl
  | cons first rest ih => simp [paramCells, ih]

theorem literal_range {bound : Bound} (literal : bound.IsLiteral) :
    -32768 ≤ bound.value ∧ bound.value ≤ 32767 := by
  unfold Bound.value
  rcases literal with magnitude | ⟨negative, magnitude⟩
  · split <;> omega
  · rw [if_pos negative]
    omega

/-- The bounds of a valid type are small, so counting its elements in 64 bits is
counting them. -/
theorem cells_between_eq {low high : Bound} (lowLiteral : low.IsLiteral)
    (highLiteral : high.IsLiteral) (ordered : low.value ≤ high.value) :
    cellsBetween low high = (high.value - low.value + 1).toNat := by
  have lowSmall := literal_range lowLiteral
  have highSmall := literal_range highLiteral
  rw [cellsBetween, Text.wordCount, Int.emod_eq_of_lt]
  · omega
  · omega

end PascalCasl
