import PascalCasl.Proofs.Code.Regions

/-!
The storage of an accepted program as its code sees it. A frame is made of the
variables of its procedure, parameters first, and the code that receives the
arguments stores them there. The constant that an element access adds to its
index leads into the array.
-/

namespace PascalCasl

open Casl

section

variable {program : Program} {earlier later : List Procedure} {procedure : Procedure}
  (split : program.procedures = earlier ++ procedure :: later)

include split

theorem frame_region {region : Variable × Cells}
    (member : region ∈ varRegions (some earlier.length) (frameAfter program earlier procedure).base
      procedure.declared) : region ∈ program.regions := by
  apply List.mem_append_right
  apply frame_regions_split.mpr
  refine ⟨earlier, procedure, later, split, ?_⟩
  rw [Nat.zero_add]
  exact member

theorem frame_cover (wellTyped : program.WellTyped) (cell : Nat) :
    (∃ declared ∈ procedure.declared.map (VarDecl.owned (some earlier.length)),
      cell ∈ (Layout.ofProgram program).span declared) ↔
      (frameAfter program earlier procedure).base ≤ cell ∧
        cell < (frameAfter program earlier procedure).next := by
  have tiled : Tiles (frameAfter program earlier procedure).base _
      (frameAfter program earlier procedure).next :=
    frame_tiles _ _ procedure (some earlier.length)
  rw [← tiles_cover tiled,
    ← @var_regions_variables _ (frameAfter program earlier procedure).base]
  simp only [List.mem_map, exists_exists_and_eq_and]
  constructor
  · rintro ⟨region, member, inside⟩
    rw [span_of_region wellTyped (frame_region split member)] at inside
    exact ⟨region, member, inside⟩
  · rintro ⟨region, member, inside⟩
    refine ⟨region, member, ?_⟩
    rw [span_of_region wellTyped (frame_region split member)]
    exact inside

end

theorem param_region {owner : Option Nat} {base number : Nat} {params : List Param}
    {vars : List VarDecl} {param : Param} (member : params[number]? = some param) :
    (param.declared.owned owner, .scalar (base + number) param.type) ∈
      varRegions owner base (params.map Param.declared ++ vars) := by
  induction params generalizing base number with
  | nil => simp at member
  | cons first rest ih =>
      rw [List.map_cons, List.cons_append, varRegions]
      cases number with
      | zero =>
          cases member
          exact List.mem_cons_self
      | succ number =>
          have onward := @ih (base + 1) number member
          rw [Nat.add_assoc, Nat.add_comm 1 number] at onward
          exact List.mem_cons_of_mem _ onward

theorem received_at {base count number : Nat} (below : number < count) (rest : Code) :
    ((prologue base count ++ rest).drop (3 * number)).take 3 = receiveParam base number := by
  have parts : List.range count = List.range number ++ List.range' number (count - number) := by
    have joined := @List.range'_append_1 0 number (count - number)
    rw [Nat.zero_add, Nat.add_sub_of_le (Nat.le_of_lt below)] at joined
    rw [List.range_eq_range', List.range_eq_range', joined]
  have length : ((List.range number).flatMap (receiveParam base)).length = 3 * number := by
    rw [List.length_flatMap]
    simp [receiveParam, Nat.mul_comm]
  have first : List.range' number (count - number) =
      number :: List.range' (number + 1) (count - number - 1) := by
    rw [← List.range'_succ, Nat.sub_add_cancel (Nat.sub_pos_of_lt below)]
  rw [prologue, parts, List.flatMap_append, first, List.flatMap_cons, ← length]
  simp only [List.append_assoc, List.drop_left]
  rfl

/-- An index within the bounds, shifted by the distance of the first cell from
the lowest index, is a cell of the array. -/
theorem element_inside {cells : Cells} {low high : Bound} {element : StandardType}
    (fits : cells.Fits (.array low high element)) {index : Int} (above : low.value ≤ index)
    (below : index ≤ high.value) :
    ∃ cell ∈ cells.span, index + (cells.base - low.value) = (cell : Int) := by
  have count := fits.count
  rw [TypeSpec.extent] at count
  refine ⟨(index + (cells.base - low.value)).toNat, ?_, ?_⟩
  · rw [Cells.span, Finset.mem_Ico]
    omega
  · omega

/-- The constant that element accesses add is that distance, unless there are more
variables than 64 bits can number. -/
theorem element_offset_exact {program : Program} (wellTyped : program.WellTyped)
    (few : program.variables.length < 2 ^ 46) {declared : Variable} {cells : Cells}
    (member : (declared, cells) ∈ program.regions) {low high : Bound} {element : StandardType}
    (fits : cells.Fits (.array low high element)) (literal : low.IsLiteral) :
    elementOffset cells.base low.value = cells.base - low.value := by
  have range := literal_range literal
  have small := cells_bounded wellTyped
  have first : cells.base ∈ cells.span := by
    rw [Cells.span, Finset.mem_Ico]
    have bounded := fits.bounded
    omega
  have inside := ((tiles_cover (regions_tile program) cells.base).mp
    ⟨cells, List.mem_map_of_mem member, first⟩).2
  have extended : (Layout.ofProgram program).cells < 2 ^ 62 := by omega
  rw [elementOffset, Text.wordCount]
  apply Int.bmod_eq_of_le <;> omega

theorem own_variable {program : Program} {earlier later : List Procedure} {procedure : Procedure}
    (split : program.procedures = earlier ++ procedure :: later) {declared : Variable}
    (member : declared ∈ program.variables) (owned : declared.owner = some earlier.length) :
    declared ∈ procedure.declared.map (VarDecl.owned (some earlier.length)) := by
  rcases List.mem_append.mp member with global | framed
  · rcases List.mem_map.mp global with ⟨_, _, rfl⟩
    cases owned
  · rcases List.mem_flatMap.mp framed with ⟨⟨other, number⟩, numbered, inside⟩
    rcases List.mem_map.mp inside with ⟨_, _, rfl⟩
    obtain rfl : number = earlier.length := Option.some.inj owned
    have placed := List.mem_zipIdx_iff_getElem?.mp numbered
    rw [procedure_at split] at placed
    cases placed
    exact inside

/-- What a name means to the owner of code: a variable of its own, or a global one
where it has none of this name. -/
def Program.Sees (program : Program) (owner : Option Nat) (name : String)
    (declared : Variable) : Prop :=
  declared ∈ program.variables ∧ declared.name = name ∧
    (declared.owner = owner ∨
      declared.owner = none ∧ ∀ other ∈ program.variables, other.owner = owner → other.name ≠ name)

theorem block_cells {program : Program} (wellTyped : program.WellTyped) {block : Block}
    (listed : block ∈ program.blocks) {name : String} {cells : Cells}
    (found : (block.env program).cells? name = some cells) :
    ∃ declared, (declared, cells) ∈ program.regions ∧
      program.Sees block.current name declared := by
  have known {declared : Variable} (region : (declared, cells) ∈ program.regions) :
      declared ∈ program.variables := by
    rw [← regions_variables]
    exact List.mem_map_of_mem region
  have global (held : (Layout.ofProgram program).globals.find? name = some cells) :
      ∃ declared, (declared, cells) ∈ program.regions ∧ declared.name = name ∧
        declared.owner = none := by
    rcases (globals_found wellTyped).mp held with ⟨declared, member, named⟩
    exact ⟨declared, List.mem_append_left _ member, named,
      (var_regions_fit wellTyped.bounds _ member).1⟩
  rcases mem_blocks.mp listed with ⟨earlier, procedure, later, split, rfl⟩ | rfl
  · have locals := @locals_found program wellTyped _ _ _ split (some earlier.length) name
    rw [Env.cells?] at found
    split at found
    next held hit =>
      cases found
      have typed := wellTyped.procedures earlier procedure later split
      rcases locals.mp hit with ⟨declared, member, named⟩
      have region := frame_region split member
      exact ⟨declared, region, known region, named,
        .inl (var_regions_fit (declared_well_formed typed.bounds) _ member).1⟩
    next miss =>
      rcases global found with ⟨declared, region, named, owned⟩
      -- an own variable of the name would have been found among the locals
      refine ⟨declared, region, known region, named, .inr ⟨owned, fun other among own same => ?_⟩⟩
      have inside := own_variable split among own
      rw [← @var_regions_variables _ (frameAfter program earlier procedure).base] at inside
      rcases List.mem_map.mp inside with ⟨⟨_, otherCells⟩, member, rfl⟩
      have hit := locals.mpr ⟨_, member, same⟩
      cases hit.symm.trans miss
  · rcases global found with ⟨declared, region, named, owned⟩
    exact ⟨declared, region, known region, named, .inl owned⟩

/-- The frame of a procedure is the union of its own variables. Parameter
`position` has the cell that the code of the procedure stores it into. -/
structure FrameLaidOut (program : Program) (number : Nat) (procedure : Procedure) (frame : Frame)
    (code : Code) : Prop where
  covered : ∀ cell,
    (∃ declared ∈ procedure.declared.map (VarDecl.owned (some number)),
      cell ∈ (Layout.ofProgram program).span declared) ↔
      frame.base ≤ cell ∧ cell < frame.base + frame.size
  parameters : ∀ position param, procedure.params[position]? = some param →
    (Layout.ofProgram program).cells? ⟨some number, param.name, .standard param.type⟩ =
      some (.scalar (frame.base + position) param.type) ∧
    (code.drop (1 + 3 * position)).take 3 =
      [line (.load .gr1 (.memory ⟨.number (position + 1 : Nat), some .gr8⟩)),
        line (.load .gr2 (.literal (.number (frame.base + position : Nat)))),
        line (.store .gr1 ⟨.label .variables, some .gr2⟩)]

/-- The code of an element of `name`, which ends in `access`, adds the constant of
the array variable that the name means. -/
def AccessesElement (program : Program) (env : Env) (name : String) (index : Expr)
    (access code : Code) : Prop :=
  ∃ declared base element low count indexCode, program.Sees env.current name declared ∧
    (Layout.ofProgram program).cells? declared = some (.array base element low count) ∧
    (∃ supply pushed after, env.expr index supply = (.ok (pushed, indexCode), after)) ∧
    code = indexCode ++
      [line (.pop .gr2),
        line (.compute .add .gr2 (.literal (.number (elementOffset base low))))] ++ access

/-- Where the variables of a program are, and that its code agrees. -/
structure LaidOut (program : Program) (listing : Listing) : Prop where
  fitted : ∀ declared ∈ program.variables, ∃ cells,
    (Layout.ofProgram program).cells? declared = some cells ∧ cells.Fits declared.type
  apart : program.variables.Pairwise fun first second =>
    Disjoint ((Layout.ofProgram program).span first) ((Layout.ofProgram program).span second)
  covered : ∀ cell,
    (∃ declared ∈ program.variables, cell ∈ (Layout.ofProgram program).span declared) ↔
      cell < listing.cells
  reserved : ∀ count, labelled .variables (.reserve count) ∈ listing.lines ↔ count = listing.cells
  framed : ∀ number procedure, program.procedures[number]? = some procedure →
    ∃ frame code, (Layout.ofProgram program).frames[number]? = some frame ∧
      listing.procedures[number]? = some code ∧ FrameLaidOut program number procedure frame code
  elements : ∀ declared ∈ program.variables, ∀ low high element,
    declared.type = .array low high element → ∃ base count,
      (Layout.ofProgram program).cells? declared = some (.array base element low.value count) ∧
      (∀ index, low.value ≤ index → index ≤ high.value →
        ∃ cell ∈ (Layout.ofProgram program).span declared,
          index + (base - low.value) = (cell : Int)) ∧
      -- The constant is kept in 64 bits, which fewer variables than these do not exceed.
      elementOffset base low.value % 2 ^ 64 = (base - low.value) % 2 ^ 64 ∧
      (program.variables.length < 2 ^ 46 → elementOffset base low.value = base - low.value)
  accessed : ∀ block ∈ program.blocks, ∀ nodeLine name index supply pushed code after,
    ((block.env program).expr (.indexed nodeLine name index) supply =
        (.ok (pushed, code), after) →
      AccessesElement program (block.env program) name index
        [line (.load .gr1 (.memory ⟨.label .variables, some .gr2⟩)),
          line (.push ⟨.number 0, some .gr1⟩)] code) ∧
    ((block.env program).target (.indexed nodeLine name index) supply =
        (.ok (pushed, code), after) →
      AccessesElement program (block.env program) name index
        [line (.push ⟨.number 0, some .gr2⟩)] code)

theorem region_reserved {program : Program} {listing : Listing}
    (generated : Listing.ofProgram program = .ok listing) (count : Nat) :
    labelled .variables (.reserve count) ∈ listing.lines ↔ count = listing.cells := by
  have reserved : labelled .variables (.reserve listing.cells) ∈ listing.lines := by
    simp [Listing.lines]
  constructor
  · intro member
    -- The label stands in one place only, so both lines are the same one.
    rcases List.append_of_mem member with ⟨before, after, first⟩
    rcases List.append_of_mem reserved with ⟨otherBefore, otherAfter, second⟩
    have distinct := listing_labels_distinct generated
    rw [first] at distinct
    have placed := label_once (first.symm.trans second) distinct rfl rfl
    rw [first, placed] at second
    cases List.append_cancel_left second
    rfl
  · rintro rfl
    exact reserved

theorem frame_laid_out {program : Program} (wellTyped : program.WellTyped) {listing : Listing}
    (generated : Listing.ofProgram program = .ok listing) {earlier later : List Procedure}
    {procedure : Procedure} (split : program.procedures = earlier ++ procedure :: later) :
    ∃ code, listing.procedures[earlier.length]? = some code ∧
      FrameLaidOut program earlier.length procedure (frameAfter program earlier procedure)
        code := by
  rcases procedure_listed generated split with ⟨body, _, _, listed, _⟩
  refine ⟨_, listed, frame_cover split wellTyped, fun position param member => ⟨?_, ?_⟩⟩
  · have region := frame_region split (param_region member)
    exact (regions_found wellTyped _ region).1
  · have below := (List.getElem?_eq_some_iff.mp member).1
    rw [← List.drop_drop, Block.opening, List.append_assoc, List.append_assoc,
      List.singleton_append, List.drop_one, List.tail_cons]
    exact received_at below _

theorem elements_laid_out {program : Program} (wellTyped : program.WellTyped)
    {declared : Variable} (member : declared ∈ program.variables) {low high : Bound}
    {element : StandardType} (array : declared.type = .array low high element) :
    ∃ base count,
      (Layout.ofProgram program).cells? declared = some (.array base element low.value count) ∧
      (∀ index, low.value ≤ index → index ≤ high.value →
        ∃ cell ∈ (Layout.ofProgram program).span declared,
          index + (base - low.value) = (cell : Int)) ∧
      elementOffset base low.value % 2 ^ 64 = (base - low.value) % 2 ^ 64 ∧
      (program.variables.length < 2 ^ 46 → elementOffset base low.value = base - low.value) := by
  rcases region_of_variable wellTyped member with ⟨cells, region, found, fits⟩
  have wellFormed := variables_well_formed wellTyped declared member
  rw [array] at fits wellFormed
  cases wellFormed with
  | array lowLiteral highLiteral ordered =>
      refine ⟨cells.base, cellsBetween low high, ?_, ?_, ?_, ?_⟩
      · rw [found]
        exact congrArg some fits.shape
      · intro index above below
        rw [span_of_region wellTyped region]
        exact element_inside fits above below
      · -- in 64 bits the offset may have wrapped around, and then it agrees only modulo
        exact Int.bmod_emod
      · intro few
        exact element_offset_exact wellTyped few region fits lowLiteral

theorem access_laid_out {program : Program} (wellTyped : program.WellTyped) {block : Block}
    (listed : block ∈ program.blocks) {name : String} {index : Expr}
    {access code indexCode : Code} {base count : Nat} {element : StandardType} {low : Int}
    {supply after : Supply} {pushed : Pushed}
    (found : (block.env program).cells? name = some (.array base element low count))
    (indexed : (block.env program).expr index supply = (.ok (pushed, indexCode), after))
    (same : code = indexCode ++ locateElement base low ++ access) :
    AccessesElement program (block.env program) name index access code := by
  rcases block_cells wellTyped listed found with ⟨declared, region, sees⟩
  exact ⟨declared, base, element, low, count, indexCode, sees,
    (regions_found wellTyped _ region).1, ⟨supply, pushed, after, indexed⟩, same⟩

/-- Each variable of an accepted program has cells of its own, the cells of all
variables are the region that is reserved, and frames, prologues and element
accesses keep to them. -/
theorem storage_laid_out (program : Program) (accepted : program.check = .ok ()) :
    ∃ listing, Listing.ofProgram program = .ok listing ∧ LaidOut program listing := by
  have wellTyped := check_sound accepted
  rcases listing_exists wellTyped with ⟨listing, generated⟩
  rcases listing_inv generated with ⟨_, _, _, _, cells, _⟩
  refine ⟨listing, generated, {
    fitted := fun declared member => ?_
    apart := variables_apart wellTyped
    covered := fun cell => ?_
    reserved := region_reserved generated
    framed := fun number procedure member => ?_
    elements := fun declared member low high element array =>
      elements_laid_out wellTyped member array
    accessed := fun block listed nodeLine name index supply pushed code after => ⟨?_, ?_⟩ }⟩
  · rcases region_of_variable wellTyped member with ⟨cells, _, found, fits⟩
    exact ⟨cells, found, fits⟩
  · rw [cells]
    exact variables_cover wellTyped cell
  · rcases split_at_member member with ⟨earlier, later, split, rfl⟩
    rcases frame_laid_out wellTyped generated split with ⟨code, listed, laidOut⟩
    exact ⟨_, code, program_frame_at split, listed, laidOut⟩
  · intro coded
    rcases expr_indexed_inv coded with ⟨_, _, _, _, _, _, found, indexed, _, same⟩
    exact access_laid_out wellTyped listed found indexed same
  · intro coded
    rcases target_indexed_inv coded with ⟨_, _, _, _, _, _, found, indexed, _, same⟩
    exact access_laid_out wellTyped listed found indexed same

theorem tally_laid_out :
    tally.check = .ok () ∧
      ∃ listing, Listing.ofProgram tally = .ok listing ∧ listing.cells = 11 ∧
        LaidOut tally listing := by
  have accepted : tally.check = .ok () := by decide
  rcases storage_laid_out tally accepted with ⟨listing, generated, laidOut⟩
  rcases listing_inv generated with ⟨_, _, _, _, cells, _⟩
  exact ⟨accepted, listing, generated, cells, laidOut⟩

end PascalCasl
