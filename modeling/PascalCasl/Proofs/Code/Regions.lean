import Mathlib.Order.Interval.Finset.Nat
import PascalCasl.Proofs.Code.Procedures

/-!
The region of all variables. Globals, parameters and the variables of procedures
get their cells from one running number, so the cells of all of them lie one
after another from zero up to the number that is reserved. Names of one scope
are distinct; therefore each variable is found under its name with the cells it
was given, and no cell belongs to two variables.
-/

namespace PascalCasl

open Casl

def Cells.span (cells : Cells) : Finset Nat := Finset.Ico cells.base (cells.base + cells.count)

/-- The cells lie one after another from `low` up to `high`. -/
def Tiles : Nat → List Cells → Nat → Prop
  | low, [], high => low = high
  | low, first :: rest, high => first.base = low ∧ Tiles (low + first.count) rest high

theorem tiles_append {low middle high : Nat} {first second : List Cells}
    (begun : Tiles low first middle) (ended : Tiles middle second high) :
    Tiles low (first ++ second) high := by
  induction first generalizing low with
  | nil =>
      cases begun
      exact ended
  | cons cells rest ih => exact ⟨begun.1, ih begun.2⟩

theorem tiles_le {low high : Nat} {tiles : List Cells} (tiled : Tiles low tiles high) :
    low ≤ high := by
  induction tiles generalizing low with
  | nil => exact Nat.le_of_eq tiled
  | cons cells rest ih => exact Nat.le_trans (Nat.le_add_right _ _) (ih tiled.2)

theorem tiles_cover {low high : Nat} {tiles : List Cells} (tiled : Tiles low tiles high)
    (number : Nat) : (∃ cells ∈ tiles, number ∈ cells.span) ↔ low ≤ number ∧ number < high := by
  induction tiles generalizing low with
  | nil =>
      cases tiled
      simp
  | cons cells rest ih =>
      have based := tiled.1
      have onward := tiles_le tiled.2
      rw [List.exists_mem_cons_iff, ih tiled.2, Cells.span, Finset.mem_Ico]
      omega

theorem tiles_apart {low high : Nat} {tiles : List Cells} (tiled : Tiles low tiles high) :
    tiles.Pairwise fun first second => Disjoint first.span second.span := by
  induction tiles generalizing low with
  | nil => exact .nil
  | cons cells rest ih =>
      refine .cons (fun other member => ?_) (ih tiled.2)
      rw [Finset.disjoint_left]
      intro number inFirst inOther
      have beyond := (tiles_cover tiled.2 number).mp ⟨other, member, inOther⟩
      have based := tiled.1
      rw [Cells.span, Finset.mem_Ico] at inFirst
      omega

theorem tiles_bounded {low high most : Nat} {tiles : List Cells} (tiled : Tiles low tiles high)
    (bounded : ∀ cells ∈ tiles, cells.count ≤ most) : high ≤ low + most * tiles.length := by
  induction tiles generalizing low with
  | nil =>
      cases tiled
      exact Nat.le_add_right _ _
  | cons cells rest ih =>
      rcases List.forall_mem_cons.mp bounded with ⟨first, others⟩
      have rested := ih tiled.2 others
      rw [List.length_cons, Nat.mul_succ]
      omega

/-- A declared variable: the number of the procedure that it belongs to, if it is
not global, its name and its type. -/
structure Variable where
  owner : Option Nat
  name : String
  type : TypeSpec

def Param.declared (param : Param) : VarDecl :=
  ⟨param.name, param.line, .standard param.type, param.line⟩

def Procedure.declared (procedure : Procedure) : List VarDecl :=
  procedure.params.map Param.declared ++ procedure.vars

def VarDecl.owned (owner : Option Nat) (declared : VarDecl) : Variable :=
  ⟨owner, declared.name, declared.type⟩

def Program.variables (program : Program) : List Variable :=
  program.vars.map (VarDecl.owned none) ++
    program.procedures.zipIdx.flatMap fun entry =>
      entry.1.declared.map (VarDecl.owned (some entry.2))

/-- The cells of a variable, found by its name in the table of its scope. -/
def Layout.cells? (layout : Layout) (declared : Variable) : Option Cells :=
  match declared.owner with
  | none => layout.globals.find? declared.name
  | some number => layout.frames[number]?.bind fun frame => frame.locals.find? declared.name

def Layout.span (layout : Layout) (declared : Variable) : Finset Nat :=
  match layout.cells? declared with
  | none => ∅
  | some cells => cells.span

def TypeSpec.extent : TypeSpec → Int
  | .standard _ => 1
  | .array low high _ => high.value - low.value + 1

/-- The cells are those of a variable of the type: one for a scalar, one for each
index of an array. -/
structure Cells.Fits (cells : Cells) (type : TypeSpec) : Prop where
  shape : cells = Cells.ofSpec cells.base type
  count : (cells.count : Int) = type.extent
  bounded : 1 ≤ cells.count ∧ cells.count ≤ 65536

theorem spec_fits (base : Nat) {type : TypeSpec} (wellFormed : type.WellFormed) :
    (Cells.ofSpec base type).Fits type := by
  cases wellFormed with
  | standard => exact ⟨rfl, rfl, Nat.le_refl 1, by simp [Cells.ofSpec, Cells.count]⟩
  | @array low high element lowLiteral highLiteral ordered =>
      have lowRange := literal_range lowLiteral
      have highRange := literal_range highLiteral
      have counted : (Cells.ofSpec base (.array low high element)).count =
          (high.value - low.value + 1).toNat := cells_between_eq lowLiteral highLiteral ordered
      refine ⟨rfl, ?_, ?_⟩
      · rw [counted, TypeSpec.extent]
        omega
      · rw [counted]
        omega

/-! What the running number gives to each variable. -/

/-- The variables declared one after another from cell `next` on, with their
cells. -/
def varRegions (owner : Option Nat) (next : Nat) : List VarDecl → List (Variable × Cells)
  | [] => []
  | first :: rest =>
      let cells := Cells.ofSpec next first.type
      (first.owned owner, cells) :: varRegions owner (next + cells.count) rest

section

variable {owner : Option Nat} {next : Nat} {vars : List VarDecl}

theorem var_regions_variables :
    (varRegions owner next vars).map Prod.fst = vars.map (VarDecl.owned owner) := by
  induction vars generalizing next with
  | nil => rfl
  | cons first rest ih => simp [varRegions, ih]

theorem var_regions_cells :
    varCells next vars =
      (varRegions owner next vars).map fun region => (region.1.name, region.2) := by
  induction vars generalizing next with
  | nil => rfl
  | cons first rest ih =>
      rw [varCells, varRegions, ih]
      rfl

theorem var_regions_tile (table : Table Cells) :
    Tiles next ((varRegions owner next vars).map Prod.snd)
      (Layout.allocateVars table next vars).2 := by
  induction vars generalizing table next with
  | nil => rfl
  | cons first rest ih => exact ⟨cells_base next first.type, ih _⟩

theorem var_regions_fit (wellFormed : ∀ declared ∈ vars, declared.type.WellFormed) :
    ∀ region ∈ varRegions owner next vars,
      region.1.owner = owner ∧ region.2.Fits region.1.type := by
  induction vars generalizing next with
  | nil => simp [varRegions]
  | cons first rest ih =>
      rcases List.forall_mem_cons.mp wellFormed with ⟨head, tail⟩
      exact List.forall_mem_cons.mpr ⟨⟨rfl, spec_fits next head⟩, ih tail⟩

/-- Tables of distinct names hold exactly the regions. -/
theorem var_regions_found (distinct : (vars.map VarDecl.name).Nodup) {name : String}
    {cells : Cells} :
    Table.find? (varCells next vars).reverse name = some cells ↔
      ∃ declared, (declared, cells) ∈ varRegions owner next vars ∧ declared.name = name := by
  rw [find_reversed (var_cells_names next vars ▸ distinct), var_regions_cells, List.mem_map]
  constructor
  · rintro ⟨⟨declared, held⟩, member, same⟩
    cases same
    exact ⟨declared, member, rfl⟩
  · rintro ⟨declared, member, rfl⟩
    exact ⟨(declared, cells), member, rfl⟩

end

namespace Layout

theorem allocate_vars_append (table : Table Cells) (next : Nat) (first second : List VarDecl) :
    allocateVars table next (first ++ second) =
      allocateVars (allocateVars table next first).1 (allocateVars table next first).2 second := by
  induction first generalizing table next with
  | nil => rfl
  | cons declared rest ih => exact ih _ _

theorem allocate_params_declared (table : Table Cells) (next : Nat) (params : List Param) :
    allocateParams table next params = allocateVars table next (params.map Param.declared) := by
  induction params generalizing table next with
  | nil => rfl
  | cons first rest ih => exact ih _ _

end Layout

section

variable (ordinal base : Nat) (procedure : Procedure)

theorem frame_locals :
    (Frame.ofProcedure ordinal base procedure).locals = (varCells base procedure.declared).reverse := by
  have declared := allocate_vars_eq [] base procedure.declared
  rw [List.append_nil, Procedure.declared, Layout.allocate_vars_append,
    ← Layout.allocate_params_declared] at declared
  exact declared

theorem frame_next :
    (Frame.ofProcedure ordinal base procedure).next =
      (Layout.allocateVars [] base procedure.declared).2 := by
  have forward := tiles_le (@var_regions_tile none base procedure.declared [])
  rw [Procedure.declared, Layout.allocate_vars_append, ← Layout.allocate_params_declared]
    at forward ⊢
  exact Nat.add_sub_of_le forward

theorem frame_tiles (owner : Option Nat) :
    Tiles base ((varRegions owner base procedure.declared).map Prod.snd)
      (Frame.ofProcedure ordinal base procedure).next := by
  rw [frame_next]
  exact var_regions_tile []

end

/-- The variables of the procedures from number `start` and cell `next` on, with
their cells. -/
def frameRegions (start next : Nat) : List Procedure → List (Variable × Cells)
  | [] => []
  | first :: rest =>
      varRegions (some start) next first.declared ++
        frameRegions (start + 1) (Frame.ofProcedure start next first).next rest

section

variable {start next : Nat} {procedures : List Procedure}

theorem frame_regions_variables :
    (frameRegions start next procedures).map Prod.fst =
      (procedures.zipIdx start).flatMap fun entry =>
        entry.1.declared.map (VarDecl.owned (some entry.2)) := by
  induction procedures generalizing start next with
  | nil => rfl
  | cons first rest ih =>
      rw [frameRegions, List.map_append, var_regions_variables, ih, List.zipIdx_cons,
        List.flatMap_cons]

theorem frame_regions_tile :
    Tiles next ((frameRegions start next procedures).map Prod.snd)
      (Layout.allocateFrames start next procedures).2 := by
  induction procedures generalizing start next with
  | nil => rfl
  | cons first rest ih =>
      rw [frameRegions, List.map_append]
      exact tiles_append (frame_tiles start next first (some start)) ih

/-- A region of a procedure begins its frame after the frames before it. -/
theorem frame_regions_split {region : Variable × Cells} :
    region ∈ frameRegions start next procedures ↔
      ∃ earlier procedure later, procedures = earlier ++ procedure :: later ∧
        region ∈ varRegions (some (start + earlier.length))
          (Layout.allocateFrames start next earlier).2 procedure.declared := by
  induction procedures generalizing start next with
  | nil => simp [frameRegions]
  | cons first rest ih =>
      rw [frameRegions, List.mem_append, ih]
      constructor
      · rintro (own | ⟨earlier, procedure, later, rfl, member⟩)
        · exact ⟨[], first, rest, rfl, own⟩
        · refine ⟨first :: earlier, procedure, later, rfl, ?_⟩
          rw [List.length_cons, Nat.add_comm earlier.length 1, ← Nat.add_assoc]
          exact member
      · rintro ⟨_ | ⟨head, earlier⟩, procedure, later, same, member⟩
        · cases same
          exact .inl member
        · cases same
          rw [List.length_cons, Nat.add_comm earlier.length 1, ← Nat.add_assoc] at member
          exact .inr ⟨earlier, procedure, later, rfl, member⟩

end

def Program.regions (program : Program) : List (Variable × Cells) :=
  varRegions none 0 program.vars ++ frameRegions 0 (Layout.globalEnd program) program.procedures

theorem regions_variables (program : Program) :
    program.regions.map Prod.fst = program.variables := by
  rw [Program.regions, List.map_append, var_regions_variables, frame_regions_variables,
    Program.variables]

theorem regions_tile (program : Program) :
    Tiles 0 (program.regions.map Prod.snd) (Layout.ofProgram program).cells := by
  rw [Program.regions, List.map_append]
  exact tiles_append (var_regions_tile []) frame_regions_tile

theorem declared_names (procedure : Procedure) :
    procedure.declared.map VarDecl.name = procedure.locals.map Prod.fst := by
  simp [Procedure.declared, Procedure.locals, Function.comp_def, Param.declared, Param.entry,
    VarDecl.entry]

theorem declared_well_formed {procedure : Procedure}
    (wellFormed : ∀ declared ∈ procedure.vars, declared.type.WellFormed) :
    ∀ declared ∈ procedure.declared, declared.type.WellFormed := by
  intro declared member
  rcases List.mem_append.mp member with parameter | own
  · rcases List.mem_map.mp parameter with ⟨param, _, rfl⟩
    exact .standard
  · exact wellFormed declared own

section

variable {program : Program} (wellTyped : program.WellTyped)

include wellTyped

theorem globals_found {name : String} {cells : Cells} :
    (Layout.ofProgram program).globals.find? name = some cells ↔
      ∃ declared, (declared, cells) ∈ varRegions none 0 program.vars ∧ declared.name = name := by
  have table := allocate_vars_eq [] 0 program.vars
  rw [List.append_nil] at table
  rw [← var_regions_found wellTyped.distinct, ← table]
  rfl

theorem locals_found {earlier later : List Procedure} {procedure : Procedure}
    (split : program.procedures = earlier ++ procedure :: later) (owner : Option Nat)
    {name : String} {cells : Cells} :
    (frameAfter program earlier procedure).locals.find? name = some cells ↔
      ∃ declared, (declared, cells) ∈ varRegions owner (frameAfter program earlier procedure).base
        procedure.declared ∧ declared.name = name := by
  have typed := wellTyped.procedures earlier procedure later split
  rw [← var_regions_found (declared_names procedure ▸ typed.distinct), ← frame_locals]
  rfl

theorem regions_found :
    ∀ region ∈ program.regions,
      (Layout.ofProgram program).cells? region.1 = some region.2 ∧
        region.2.Fits region.1.type := by
  rintro ⟨declared, cells⟩ member
  rcases List.mem_append.mp member with global | framed
  · rcases var_regions_fit wellTyped.bounds _ global with ⟨owned, fits⟩
    refine ⟨?_, fits⟩
    rw [Layout.cells?, owned]
    exact (globals_found wellTyped).mpr ⟨declared, global, rfl⟩
  · rcases frame_regions_split.mp framed with ⟨earlier, procedure, later, split, own⟩
    have typed := wellTyped.procedures earlier procedure later split
    rcases var_regions_fit (declared_well_formed typed.bounds) _ own with ⟨owned, fits⟩
    refine ⟨?_, fits⟩
    rw [Nat.zero_add] at own owned
    rw [Layout.cells?, owned]
    simp only [program_frame_at split, Option.bind_some]
    exact (locals_found wellTyped split _).mpr ⟨declared, own, rfl⟩

theorem variables_well_formed : ∀ declared ∈ program.variables, declared.type.WellFormed := by
  intro declared member
  rcases List.mem_append.mp member with global | framed
  · rcases List.mem_map.mp global with ⟨var, held, rfl⟩
    exact wellTyped.bounds var held
  · rcases List.mem_flatMap.mp framed with ⟨⟨procedure, number⟩, numbered, own⟩
    rcases List.mem_map.mp own with ⟨var, held, rfl⟩
    have placed := List.mem_zipIdx_iff_getElem?.mp numbered
    rcases split_at_member placed with ⟨earlier, later, split, _⟩
    have typed := wellTyped.procedures earlier procedure later split
    exact declared_well_formed typed.bounds var held

theorem region_of_variable {declared : Variable} (member : declared ∈ program.variables) :
    ∃ cells, (declared, cells) ∈ program.regions ∧
      (Layout.ofProgram program).cells? declared = some cells ∧ cells.Fits declared.type := by
  rw [← regions_variables, List.mem_map] at member
  rcases member with ⟨⟨_, cells⟩, member, rfl⟩
  exact ⟨cells, member, regions_found wellTyped _ member⟩

theorem span_of_region {declared : Variable} {cells : Cells}
    (member : (declared, cells) ∈ program.regions) :
    (Layout.ofProgram program).span declared = cells.span := by
  rw [Layout.span, (regions_found wellTyped _ member).1]

theorem variables_apart :
    program.variables.Pairwise fun first second =>
      Disjoint ((Layout.ofProgram program).span first)
        ((Layout.ofProgram program).span second) := by
  have apart := List.pairwise_map.mp (tiles_apart (regions_tile program))
  rw [← regions_variables, List.pairwise_map]
  refine apart.imp_of_mem fun {first second} inFirst inSecond disjoint => ?_
  rw [span_of_region wellTyped inFirst, span_of_region wellTyped inSecond]
  exact disjoint

theorem variables_cover (cell : Nat) :
    (∃ declared ∈ program.variables, cell ∈ (Layout.ofProgram program).span declared) ↔
      cell < (Layout.ofProgram program).cells := by
  have cover := tiles_cover (regions_tile program) cell
  simp only [Nat.zero_le, true_and] at cover
  rw [← cover]
  constructor
  · rintro ⟨declared, member, inside⟩
    rcases region_of_variable wellTyped member with ⟨cells, held, _⟩
    rw [span_of_region wellTyped held] at inside
    exact ⟨cells, List.mem_map_of_mem held, inside⟩
  · rintro ⟨_, member, inside⟩
    rcases List.mem_map.mp member with ⟨⟨declared, cells⟩, held, rfl⟩
    refine ⟨declared, ?_, ?_⟩
    · rw [← regions_variables]
      exact List.mem_map_of_mem held
    · rw [span_of_region wellTyped held]
      exact inside

theorem cells_bounded : (Layout.ofProgram program).cells ≤ 65536 * program.variables.length := by
  have bounded : ∀ cells ∈ program.regions.map Prod.snd, cells.count ≤ 65536 := by
    intro cells member
    rcases List.mem_map.mp member with ⟨region, held, rfl⟩
    exact (regions_found wellTyped region held).2.bounded.2
  have most := tiles_bounded (regions_tile program) bounded
  rw [← regions_variables, List.length_map]
  rw [List.length_map] at most
  omega

end

end PascalCasl
