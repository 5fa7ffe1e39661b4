import Mathlib.Data.List.Forall2
import PascalCasl.Proofs.Simulation.Storage
import PascalCasl.Proofs.Typing.Exactness

/-!
Fresh variables in memory. At the start of a program nothing is assigned, and
at the start of an activation only its parameters are. Tables of cells list the
newest name first and declarations the oldest; since names are distinct, both
say the same.
-/

namespace PascalCasl

open Source

namespace Machine

variable {machine : Machine} {memory : Word → Word}

/-- A cell entry and a declaration with its content go together. -/
def Declares (machine : Machine) (memory : Word → Word) (cells : String × Cells)
    (content : String × Content) : Prop :=
  cells.1 = content.1 ∧ machine.Represents memory cells.2 content.2

theorem holds_of_declared {cells : List (String × Cells)} {contents : List (String × Content)}
    (distinct : (cells.map Prod.fst).Nodup)
    (declared : List.Forall₂ (machine.Declares memory) cells contents) :
    machine.Holds memory cells.reverse (fun name => Table.find? contents name) := by
  have names : cells.map Prod.fst = contents.map Prod.fst := by
    clear distinct
    induction declared with
    | nil => rfl
    | cons head _ ih => rw [List.map_cons, List.map_cons, head.1, ih]
  constructor
  · intro name held found
    rw [find_reversed distinct] at found
    rw [names] at distinct
    rcases List.forall₂_iff_get.mp declared with ⟨length, pairs⟩
    rcases List.mem_iff_get.mp found with ⟨place, located⟩
    have other := pairs place place.isLt (length ▸ place.isLt)
    rw [located] at other
    refine ⟨_, (Table.find_some distinct).mpr ?_, other.2⟩
    rw [show name = (contents.get ⟨place, length ▸ place.isLt⟩).1 from other.1]
    exact List.get_mem _ _
  · intro name missing
    rw [find_reversed_none, names] at missing
    exact Table.find_none.mpr missing

theorem initial_represented {type : TypeSpec} (valid : type.WellFormed) (next : Nat) :
    machine.Represents memory (Cells.ofSpec next type) (Content.initial type) := by
  cases valid with
  | standard => exact .scalar nofun
  | array lowLiteral highLiteral ordered =>
      exact .array (cells_between_eq lowLiteral highLiteral ordered) fun _ _ => nofun

theorem vars_declared (next : Nat) {vars : List VarDecl}
    (valid : ∀ declared ∈ vars, declared.type.WellFormed) :
    List.Forall₂ (machine.Declares memory) (varCells next vars)
      (vars.map fun declared => (declared.name, Content.initial declared.type)) := by
  induction vars generalizing next with
  | nil => exact .nil
  | cons first rest ih =>
      rcases List.forall_mem_cons.mp valid with ⟨firstValid, restValid⟩
      exact .cons ⟨rfl, initial_represented firstValid next⟩ (ih _ restValid)

theorem params_declared {next : Nat} {params : List Param} {values : List Value}
    (typed : List.Forall₂ (fun param value => Value.type value = Param.type param) params values)
    (stored : ∀ (place : Nat) (value : Value), values[place]? = some value →
      memory (machine.cell (next + place)) = value.word) :
    List.Forall₂ (machine.Declares memory) (paramCells next params)
      ((params.zip values).map fun bound =>
        (bound.1.name, Content.scalar bound.1.type (some bound.2))) := by
  induction typed generalizing next with
  | nil => exact .nil
  | @cons param value params values head _ ih =>
      refine .cons ⟨rfl, .scalar ?_⟩ (ih fun place value found => ?_)
      · rintro _ ⟨⟩
        exact ⟨head, stored 0 value rfl⟩
      · rw [Nat.add_assoc, Nat.add_comm 1]
        exact stored (place + 1) value found

theorem start_holds {program : Program} (wellTyped : program.WellTyped) :
    machine.Holds memory (Layout.ofProgram program).globals (Source.start program).globals := by
  have cells : (Layout.ofProgram program).globals = (varCells 0 program.vars).reverse :=
    (allocate_vars_eq [] 0 program.vars).trans (List.append_nil _)
  rw [cells]
  apply holds_of_declared
  · rw [var_cells_names]
    exact wellTyped.distinct
  · exact vars_declared 0 wellTyped.bounds

theorem activation_holds {ordinal base : Nat} {procedure : Procedure} {values : List Value}
    (valid : ∀ declared ∈ procedure.vars, declared.type.WellFormed)
    (distinct : (procedure.locals.map Prod.fst).Nodup)
    (typed : List.Forall₂ (fun param value => Value.type value = Param.type param)
      procedure.params values)
    (stored : ∀ (place : Nat) (value : Value), values[place]? = some value →
      memory (machine.cell (base + place)) = value.word) :
    machine.Holds memory (Frame.ofProcedure ordinal base procedure).locals
      (activation procedure values) := by
  let next := (Layout.allocateParams [] base procedure.params).2
  have cells : (Frame.ofProcedure ordinal base procedure).locals =
      (paramCells base procedure.params ++ varCells next procedure.vars).reverse := by
    have allocated : (Frame.ofProcedure ordinal base procedure).locals = (Layout.allocateVars
        (Layout.allocateParams [] base procedure.params).1 next procedure.vars).1 := rfl
    rw [allocated, allocate_vars_eq, allocate_params_eq, List.append_nil, List.reverse_append]
  rw [cells]
  apply holds_of_declared
  · rw [List.map_append, param_cells_names, var_cells_names]
    simpa [Procedure.locals, Param.entry, VarDecl.entry, Function.comp_def] using distinct
  · exact List.rel_append (params_declared typed stored) (vars_declared next valid)

end Machine
end PascalCasl
