import PascalCasl.Proofs.Numbers.Code

/-!
Exactness of numbers in accepted programs. What is read from a numeral is the
value of its digits, what is computed from bounds and cells stays within 64
bits, and so every numeral in the generated text is the integer it stands for.
-/

namespace PascalCasl

open Casl

section

variable {program : Program}

theorem frame_cells (wellTyped : program.WellTyped) {block : Block}
    (listed : block ∈ program.blocks) {name : String} {frame : Frame}
    (found : (block.env program).procedure? name = some frame) :
    ∀ cell ∈ frame.cells, program.IsCell cell := by
  obtain ⟨others, whole⟩ := known_first listed
  obtain ⟨earlier, procedure, later, known, rfl, _⟩ := procedure_of_frame rfl found
  intro cell member
  apply cell_counted wellTyped
  have ended := @Layout.frame_le program earlier procedure (later ++ others)
  have total : (Layout.firstFrames program (earlier ++ procedure :: (later ++ others))).2 =
      (Layout.ofProgram program).cells := by
    rw [← List.cons_append, ← List.append_assoc, ← known, whole]
    rfl
  have below := List.mem_range'_1.mp member
  have within : (frameAfter program earlier procedure).next ≤ (Layout.ofProgram program).cells :=
    total ▸ ended
  rw [Frame.next] at within
  omega

theorem block_counts (wellTyped : program.WellTyped) {block : Block}
    (listed : block ∈ program.blocks) : (block.env program).Counts program where
  cells := by
    intro name cells found
    obtain ⟨declared, region, _⟩ := block_cells wellTyped listed found
    exact ⟨declared, region⟩
  frames := frame_cells wellTyped listed

section

variable {earlier later : List Procedure} {procedure : Procedure}

theorem prologue_settles (wellTyped : program.WellTyped)
    (split : program.procedures = earlier ++ procedure :: later) :
    program.Settles
      (prologue (frameAfter program earlier procedure).base procedure.params.length) := by
  have listed : procedure ∈ program.procedures := by simp [split]
  have received : ∀ number ∈ List.range procedure.params.length,
      program.Settles (receiveParam (frameAfter program earlier procedure).base number) := by
    intro number member
    have below := List.mem_range.mp member
    obtain ⟨place, placed, known, counted⟩ := scalar_region wellTyped
      (frame_region split (param_region (List.getElem?_eq_getElem below)))
    refine settles_cons.mpr ⟨?_, (load_cell_settles ?_).append store_cell_settles⟩
    · simpa [line] using Program.Denotes.argument listed below
    · exact ⟨place, _, 0, placed, Int.le_refl 0, by simp [known, TypeSpec.extent],
        by rw [counted, Int.add_zero]⟩
  refine (settles_flat_map received).append ?_
  unfold dropParams
  split
  · exact settles_nil
  · refine settles_cons.mpr ⟨?_, settles_cons.mpr ⟨?_, settles_cons.mpr ⟨?_, settles_nil⟩⟩⟩
    · simpa [line, content] using Program.Denotes.fetched
    · simpa [line] using Program.Denotes.arguments listed
    · simpa [line, content] using Program.Denotes.stored

end

theorem values_contained {value : Expr} (member : value ∈ program.values) :
    program.Contains value := by
  refine ⟨fun number inside => List.mem_flatMap_of_mem member inside, fun text inside => ?_⟩
  rcases List.mem_append.mp member with inProcedures | inMain
  · obtain ⟨procedure, listed, inBody⟩ := List.mem_flatMap.mp inProcedures
    exact List.mem_append_left _
      (List.mem_flatMap_of_mem listed (List.mem_flatMap_of_mem inBody inside))
  · exact List.mem_append_right _ (List.mem_flatMap_of_mem inMain inside)

section

variable (wellTyped : program.WellTyped) (few : program.variables.length < 2 ^ 46)
  {listing : Listing} (generated : Listing.ofProgram program = .ok listing)

include wellTyped few generated

theorem procedures_settle : program.Settles listing.procedures.flatten := by
  intro line member
  obtain ⟨code, among, inside⟩ := List.mem_flatten.mp member
  obtain ⟨number, listed⟩ := List.mem_iff_getElem?.mp among
  have below := (List.getElem?_eq_some_iff.mp listed).1
  rw [listing_procedures_length generated] at below
  obtain ⟨earlier, later, split, rfl⟩ := split_at_member (List.getElem?_eq_getElem below)
  obtain ⟨body, _, _, placed, coded⟩ := procedure_listed generated split
  rw [listed] at placed
  cases placed
  have contained : ∀ value ∈ valuesOf program.procedures[earlier.length].body,
      program.Contains value := fun value inBody => values_contained <|
    List.mem_append_left _ (List.mem_flatMap_of_mem (List.getElem_mem below) inBody)
  have counts := block_counts wellTyped (mem_blocks.mpr (.inl ⟨_, _, _, split, rfl⟩))
  have settled := stmts_settle wellTyped few counts _ contained coded
  have entered := (place_settles (.procedure earlier.length)).append
    (prologue_settles wellTyped split)
  exact ((entered.append settled).append (by simp [Casl.line])) line inside

theorem listing_settles : program.Settles listing.lines := by
  obtain ⟨_, _, _, mainCoded, cells, _⟩ := listing_inv generated
  have contained : ∀ value ∈ valuesOf program.body, program.Contains value :=
    fun value inBody => values_contained (List.mem_append_right _ inBody)
  have header : program.Settles Listing.header := by
    simpa [Listing.header, labelled, line, direct, symbol] using Program.Denotes.cleared
  have main : program.Settles listing.main :=
    stmts_settle wellTyped few (block_counts wellTyped (mem_blocks.mpr (.inr rfl))) _ contained
      mainCoded
  have region : program.Settles [labelled .variables (.reserve listing.cells)] := by
    refine settles_cons.mpr ⟨?_, settles_nil⟩
    rw [cells]
    simpa [labelled] using Program.Denotes.region (cells_counted wellTyped)
  have texts : program.Settles (Listing.textLines listing.texts) := by
    intro line member
    obtain ⟨_, _, rfl⟩ := List.mem_map.mp member
    simp [labelled]
  have buffer : program.Settles [labelled .buffer (.reserve Listing.bufferCells), line .finish] := by
    simpa [labelled, line, Listing.bufferCells] using Program.Denotes.buffer
  exact (((((header.append main).append (by simp [line])).append
    (procedures_settle wellTyped few generated)).append region).append texts).append buffer

end

/-- A signed number of 64 bits. -/
def InWord (number : Int) : Prop := -2 ^ 63 ≤ number ∧ number < 2 ^ 63

theorem counter_next {place : Nat} {declared : Variable}
    (placed : program.variables[place]? = some declared) :
    program.cellsBefore (place + 1) = program.cellsBefore place + declared.type.extent := by
  rw [Program.cellsBefore, List.take_add_one, placed, List.map_append, List.sum_append]
  simp [Program.cellsBefore]

theorem params_bounded {procedure : Procedure} (listed : procedure ∈ program.procedures) :
    procedure.params.length ≤ program.variables.length := by
  obtain ⟨number, placed⟩ := List.mem_iff_getElem?.mp listed
  have numbered : (procedure, number) ∈ program.procedures.zipIdx :=
    List.mem_zipIdx_iff_getElem?.mpr placed
  have own : List.Sublist (procedure.declared.map (VarDecl.owned (some number)))
      (program.procedures.zipIdx.flatMap fun entry =>
        entry.1.declared.map (VarDecl.owned (some entry.2))) :=
    List.sublist_flatten_of_mem (List.mem_map.mpr ⟨_, numbered, rfl⟩)
  have fewer := own.length_le
  rw [List.length_map, Procedure.declared, List.length_append, List.length_map] at fewer
  rw [Program.variables, List.length_append]
  omega

section

variable (wellTyped : program.WellTyped)

include wellTyped

theorem counter_range (place : Nat) :
    0 ≤ program.cellsBefore place ∧
      program.cellsBefore place ≤ ((Layout.ofProgram program).cells : Int) := by
  have whole := congrArg (fun tiles => (tiles.map Cells.count).sum)
    (List.take_append_drop place (program.regions.map Prod.snd))
  simp only [List.map_append, List.sum_append] at whole
  rw [tiles_end (regions_tile program), ← counts_extents wellTyped, Nat.zero_add]
  omega

theorem array_literals {declared : Variable} (member : declared ∈ program.variables)
    {low high : Bound} {element : StandardType} (known : declared.type = .array low high element) :
    low.IsLiteral ∧ high.IsLiteral ∧ low.value ≤ high.value := by
  have wellFormed := variables_well_formed wellTyped declared member
  rw [known] at wellFormed
  cases wellFormed with
  | array lowLiteral highLiteral ordered => exact ⟨lowLiteral, highLiteral, ordered⟩

variable (few : program.variables.length < 2 ^ 46)

include few

theorem counter_small (place : Nat) :
    0 ≤ program.cellsBefore place ∧ program.cellsBefore place < 2 ^ 62 := by
  have range := counter_range wellTyped place
  have bounded := cells_bounded wellTyped
  omega

theorem denotes_range {op : Op} {number : Int} (denotes : program.Denotes op number) :
    InWord number ∨ ∃ text ∈ program.texts, number = text.length := by
  cases denotes with
  | @constant value written =>
      have small := values_numbers_small (program_representable wellTyped) value written
      exact .inl ⟨by omega, by omega⟩
  | @scalar place | @array place =>
      have small := counter_small wellTyped few place
      exact .inl ⟨by omega, by omega⟩
  | cell held =>
      obtain ⟨place, declared, offset, placed, above, below, rfl⟩ := held
      have small := counter_small wellTyped few place
      have next := counter_small wellTyped few (place + 1)
      rw [counter_next placed] at next
      exact .inl ⟨by omega, by omega⟩
  | @element place declared low high _ placed known =>
      have small := counter_small wellTyped few place
      have range := literal_range
        (array_literals wellTyped (List.mem_of_getElem? placed) known).1
      exact .inl ⟨by omega, by omega⟩
  -- only the length of a text is not bounded by a declaration
  | length measured =>
      rcases measured with ⟨declared, member, low, high, element, known, rfl⟩ | written
      · obtain ⟨lowLiteral, highLiteral, _⟩ := array_literals wellTyped member known
        have lowRange := literal_range lowLiteral
        have highRange := literal_range highLiteral
        exact .inl ⟨by omega, by omega⟩
      · exact .inr written
  | argument listed below =>
      have bounded := params_bounded listed
      exact .inl ⟨by omega, by omega⟩
  | arguments listed =>
      have bounded := params_bounded listed
      exact .inl ⟨by omega, by omega⟩
  | region whole =>
      have small := counter_small wellTyped few program.variables.length
      exact .inl ⟨by omega, by omega⟩
  | pushed | fetched | stored | cleared | buffer => exact .inl ⟨by decide, by decide⟩

end

end

/-- The bounds of an array are numbers of the type integer, and counting its
elements stays within 64 bits at every step. -/
structure LengthExact (low high : Bound) : Prop where
  literals : low.IsLiteral ∧ high.IsLiteral
  bounds : InWord low.value ∧ InWord high.value
  difference : InWord (high.value - low.value)
  length : InWord (high.value - low.value + 1)
  bounded : 1 ≤ high.value - low.value + 1 ∧ high.value - low.value + 1 ≤ 65536
  unsigned : (cellsBetween low high : Int) = high.value - low.value + 1

/-- The running number of cells and the offsets of arrays stay within 64 bits and
are those that arithmetic without a limit gives. -/
structure CountersExact (program : Program) : Prop where
  counter : ∀ place, InWord (program.cellsBefore place)
  total : ((Layout.ofProgram program).cells : Int) = program.cellsBefore program.variables.length
  placed : ∀ place declared, program.variables[place]? = some declared →
    ∃ cells, (Layout.ofProgram program).cells? declared = some cells ∧
      (cells.base : Int) = program.cellsBefore place ∧
      ((cells.base + cells.count : Nat) : Int) = program.cellsBefore (place + 1) ∧
      ∀ low high element, declared.type = .array low high element →
        InWord (cells.base - low.value) ∧
          elementOffset cells.base low.value = cells.base - low.value

/-- Every numeral in the operands of a line is the integer that it stands for. It
is one of 64 bits, if it is not the length of a text. -/
def NumeralsExact (program : Program) (listing : Listing) : Prop :=
  ∀ line ∈ listing.lines, ∀ operand ∈ line.op.operands, ∀ number,
    readNumeral? operand.toList = some number →
      program.Denotes line.op number ∧
        (InWord number ∨ ∃ text ∈ program.texts, number = text.length)

structure NumbersExact (tokens : List Token) (program : Program) : Prop where
  read : ∃ values, program.Numbers values ∧
    (numerals (tokens.takeWhile fun token => !token.isEnd)).map
      (fun text => Text.digitsValue? text.toList) = values.map some
  literals : ∀ value ∈ program.values, value.Representable
  lengths : ∀ declared ∈ program.variables, ∀ low high element,
    declared.type = .array low high element → LengthExact low high
  counters : program.variables.length < 2 ^ 46 → CountersExact program
  written : program.variables.length < 2 ^ 46 → ∃ listing,
    Listing.ofProgram program = .ok listing ∧
      program.assembly = .ok (Code.render listing.lines) ∧ NumeralsExact program listing

section

variable {program : Program} (wellTyped : program.WellTyped)

include wellTyped

theorem length_exact {declared : Variable} (member : declared ∈ program.variables)
    {low high : Bound} {element : StandardType} (known : declared.type = .array low high element) :
    LengthExact low high := by
  obtain ⟨lowLiteral, highLiteral, ordered⟩ := array_literals wellTyped member known
  have lowRange := literal_range lowLiteral
  have highRange := literal_range highLiteral
  have counted := cells_between_eq lowLiteral highLiteral ordered
  exact ⟨⟨lowLiteral, highLiteral⟩, ⟨⟨by omega, by omega⟩, by omega, by omega⟩,
    ⟨by omega, by omega⟩, ⟨by omega, by omega⟩, by omega, by omega⟩

theorem counters_exact (few : program.variables.length < 2 ^ 46) : CountersExact program where
  counter place := by
    have small := counter_small wellTyped few place
    exact ⟨by omega, by omega⟩
  total := cells_counted wellTyped
  placed := by
    intro place declared placed
    obtain ⟨cells, held⟩ := region_at.mp placed
    have region := List.mem_of_getElem? held
    have found := regions_found wellTyped _ region
    have based := base_counted wellTyped held
    have small := counter_small wellTyped few place
    have extent : (cells.count : Int) = declared.type.extent := found.2.count
    refine ⟨cells, found.1, based, by rw [counter_next placed]; omega, ?_⟩
    intro low high element known
    obtain ⟨lowLiteral, _, _⟩ := array_literals wellTyped (List.mem_of_getElem? placed) known
    have range := literal_range lowLiteral
    have fits : cells.Fits (.array low high element) := known ▸ found.2
    exact ⟨⟨by omega, by omega⟩, element_offset_exact wellTyped few region fits lowLiteral⟩

theorem numerals_exact (few : program.variables.length < 2 ^ 46) {listing : Listing}
    (generated : Listing.ofProgram program = .ok listing) : NumeralsExact program listing := by
  intro line member operand among number read
  have denotes := listing_settles wellTyped few generated line member number
    (operand_numeral among read)
  exact ⟨denotes, denotes_range wellTyped few denotes⟩

end

/-- The numbers of an accepted program are exact from the source to the text of
its code. -/
theorem accepted_numbers_exact (tokens : List Token) (program : Program)
    (accepted : Program.accept tokens = .ok program) : NumbersExact tokens program := by
  obtain ⟨parsed, checked⟩ := accept_inv accepted
  have wellTyped := check_sound checked
  refine ⟨numbers_read parsed wellTyped, program_representable wellTyped,
    fun declared member low high element known => length_exact wellTyped member known,
    counters_exact wellTyped, fun few => ?_⟩
  obtain ⟨listing, generated⟩ := listing_exists wellTyped
  refine ⟨listing, generated, ?_, numerals_exact wellTyped few generated⟩
  rw [Program.assembly, generated]
  rfl

/-- Numerals with leading zeros, two arrays that begin below zero, and the least
integer. -/
def leadingZeros : String :=
  "program p;\nvar a, b: array[-00002..+000000000000000000000000000001] of integer;\n" ++
    "x: integer;\nbegin x := -032768; writeln(b[x]); end.\n"

theorem leading_zeros_exact :
    ∃ tokens program listing, Token.scan leadingZeros = .ok tokens ∧
      Program.accept tokens = .ok program ∧ program.Numbers [2, 1, 32768] ∧
      CountersExact program ∧ Listing.ofProgram program = .ok listing ∧
      line (.compute .add .gr2 (.literal (.number 6))) ∈ listing.lines ∧
      NumeralsExact program listing := by
  have read : (Token.scan leadingZeros).map (fun tokens =>
      (numerals (tokens.takeWhile fun token => !token.isEnd)).map fun text =>
        Text.digitsValue? text.toList) = .ok ([2, 1, 32768].map some) := by decide +kernel
  have coded : (do
      let program ← Token.scan leadingZeros >>= Program.accept
      let listing ← Listing.ofProgram program
      pure (program.variables.length, decide
        (line (.compute .add .gr2 (.literal (.number 6))) ∈ listing.lines))) = .ok (3, true) := by
    decide +kernel
  obtain ⟨tokens, scanned, values⟩ := except_map_ok.mp read
  rw [scanned, except_ok_bind] at coded
  obtain ⟨program, accepted, coded⟩ := except_bind_ok.mp coded
  obtain ⟨listing, generated, counted⟩ := except_bind_ok.mp coded
  obtain ⟨three, held⟩ := Prod.mk.inj (Except.ok.inj counted)
  have exact := accepted_numbers_exact tokens program accepted
  have few : program.variables.length < 2 ^ 46 := by omega
  obtain ⟨numbers, numbered, same⟩ := exact.read
  obtain ⟨listed, again, _, numerals⟩ := exact.written few
  cases generated.symm.trans again
  have known : numbers = [2, 1, 32768] :=
    List.map_injective_iff.mpr (Option.some_injective Nat) (same.symm.trans values)
  exact ⟨tokens, program, listing, scanned, accepted, known ▸ numbered, exact.counters few,
    generated, of_decide_eq_true held, numerals⟩

end PascalCasl
