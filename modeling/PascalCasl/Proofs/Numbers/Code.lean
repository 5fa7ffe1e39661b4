import Mathlib.Algebra.BigOperators.Ring.Finset
import PascalCasl.Proofs.Casl.Reading
import PascalCasl.Proofs.Code.StorageLayout
import PascalCasl.Proofs.Literals.Table
import PascalCasl.Proofs.Numbers.Reading

/-!
The numbers in generated code. Each is a number of the source, a number of cells
or of characters, or the place of a cell or of an argument, and it is written
with the integer that this is, added up without a limit. Numerals in the text of
the code are these numbers and no others.
-/

namespace PascalCasl

open Casl

/-- How many values the first variables of a program hold. -/
def Program.cellsBefore (program : Program) (place : Nat) : Int :=
  ((program.variables.take place).map fun declared => declared.type.extent).sum

theorem tiles_base {low high place : Nat} {tiles : List Cells} {cells : Cells}
    (tiled : Tiles low tiles high) (placed : tiles[place]? = some cells) :
    cells.base = low + ((tiles.take place).map Cells.count).sum := by
  induction tiles generalizing low place with
  | nil => simp at placed
  | cons first rest ih =>
      cases place with
      | zero =>
          cases placed
          simpa using tiled.1
      | succ place =>
          have onward := ih tiled.2 placed
          rw [List.take_succ_cons, List.map_cons, List.sum_cons]
          omega

theorem tiles_end {low high : Nat} {tiles : List Cells} (tiled : Tiles low tiles high) :
    high = low + (tiles.map Cells.count).sum := by
  induction tiles generalizing low with
  | nil =>
      cases tiled
      simp
  | cons first rest ih =>
      have onward := ih tiled.2
      rw [List.map_cons, List.sum_cons]
      omega

section

variable {program : Program}

theorem region_at {place : Nat} {declared : Variable} :
    program.variables[place]? = some declared ↔
      ∃ cells, program.regions[place]? = some (declared, cells) := by
  rw [← regions_variables, List.getElem?_map, Option.map_eq_some_iff]
  constructor
  · rintro ⟨⟨_, cells⟩, held, rfl⟩
    exact ⟨cells, held⟩
  · rintro ⟨cells, held⟩
    exact ⟨(declared, cells), held, rfl⟩

variable (wellTyped : program.WellTyped)

include wellTyped

theorem counts_extents (place : Nat) :
    ((((program.regions.map Prod.snd).take place).map Cells.count).sum : Int) =
      program.cellsBefore place := by
  have extents : ∀ region ∈ program.regions.take place,
      ((region.2.count : Nat) : Int) = region.1.type.extent := fun region member =>
    (regions_found wellTyped region (List.mem_of_mem_take member)).2.count
  rw [Program.cellsBefore, ← regions_variables, ← List.map_take, ← List.map_take, List.map_map,
    List.map_map, Nat.cast_list_sum, List.map_map]
  exact congrArg List.sum (List.map_congr_left extents)

/-- The cells of a variable begin where those of the variables before it end. -/
theorem base_counted {place : Nat} {declared : Variable} {cells : Cells}
    (placed : program.regions[place]? = some (declared, cells)) :
    (cells.base : Int) = program.cellsBefore place := by
  have held : (program.regions.map Prod.snd)[place]? = some cells := by
    rw [List.getElem?_map, placed]
    rfl
  rw [tiles_base (regions_tile program) held, Nat.zero_add]
  exact counts_extents wellTyped place

theorem cells_counted :
    ((Layout.ofProgram program).cells : Int) = program.cellsBefore program.variables.length := by
  rw [tiles_end (regions_tile program), Nat.zero_add, ← counts_extents wellTyped,
    List.take_of_length_le]
  rw [← regions_variables, List.length_map, List.length_map]

theorem cell_counted {number : Nat} (below : number < (Layout.ofProgram program).cells) :
    ∃ place declared offset, program.variables[place]? = some declared ∧ 0 ≤ offset ∧
      offset < declared.type.extent ∧ (number : Int) = program.cellsBefore place + offset := by
  have covered := (tiles_cover (regions_tile program) number).mpr ⟨Nat.zero_le _, below⟩
  obtain ⟨_, held, inside⟩ := covered
  obtain ⟨⟨declared, cells⟩, member, rfl⟩ := List.mem_map.mp held
  obtain ⟨place, placed⟩ := List.mem_iff_getElem?.mp member
  have counted := base_counted wellTyped placed
  have extent : (cells.count : Int) = declared.type.extent :=
    (regions_found wellTyped _ member).2.count
  have span : cells.base ≤ number ∧ number < cells.base + cells.count := Finset.mem_Ico.mp inside
  exact ⟨place, declared, number - cells.base, region_at.mpr ⟨cells, placed⟩, by omega, by omega,
    by omega⟩

end

@[simp] def Casl.Address.numbers (address : Address) : List Int :=
  match address.base with
  | .number value => [value]
  | .label _ => []

@[simp] def Casl.Source.numbers : Source → List Int
  | .memory address => address.numbers
  | .literal (.number value) => [value]
  | _ => []

@[simp] def Casl.Op.numbers : Op → List Int
  | .load _ source | .compute _ _ source | .compareSigned _ source | .compareUnsigned _ source =>
      source.numbers
  | .store _ address | .loadAddress _ address | .push address => address.numbers
  | .reserve cells => [(cells : Int)]
  | _ => []

/-- A number, as it stands or behind the mark of a constant. -/
def Casl.readNumeral? : List Char → Option Int
  | '=' :: constant => readInteger? constant
  | operand => readInteger? operand

section

variable {first : Char} {rest : List Char}

theorem read_integer_none (letter : first.isDigit = false) (unsigned : first ≠ '-') :
    readInteger? (first :: rest) = none := by
  rw [readInteger?, Text.digitsValue?]
  · simp [Text.isDigits, letter]
  · rintro _ same
    cases same
    exact unsigned rfl

theorem read_numeral_none (letter : first.isDigit = false) (unsigned : first ≠ '-')
    (unmarked : first ≠ '=') : readNumeral? (first :: rest) = none := by
  rw [readNumeral?]
  · exact read_integer_none letter unsigned
  · rintro _ same
    cases same
    exact unmarked rfl

end

@[simp] theorem read_numeral_integer (value : Int) :
    readNumeral? value.repr.toList = some value := by
  obtain ⟨first, rest, spelled, begins, _⟩ := integer_head value
  have read := read_integer value
  rw [spelled] at read ⊢
  rw [readNumeral?]
  · exact read
  · rintro _ same
    cases same
    exact absurd begins (by decide)

@[simp] theorem read_numeral_register (register : Register) :
    readNumeral? register.name.toList = none := by
  cases register <;> decide

@[simp] theorem read_numeral_label (label : Label) : readNumeral? label.name.toList = none := by
  obtain ⟨first, rest, spelled, letter, other⟩ := label.name_head
  rw [spelled]
  simp only [List.mem_cons, not_or] at other
  exact read_numeral_none letter other.1 other.2.1

@[simp] theorem read_numeral_callee (callee : Callee) :
    readNumeral? callee.name.toList = none := by
  cases callee with
  | routine called => cases called <;> decide
  | procedure number => exact read_numeral_label (.procedure number)

@[simp] theorem read_integer_quote (rest : List Char) :
    readInteger? (Text.quoteMark :: rest) = none := read_integer_none (by decide) (by decide)

@[simp] theorem read_numeral_quote (rest : List Char) :
    readNumeral? (Text.quoteMark :: rest) = none :=
  read_numeral_none (by decide) (by decide) (by decide)

section

variable {operand : String} {value : Int}

theorem address_numeral {address : Address} (member : operand ∈ address.operands)
    (read : readNumeral? operand.toList = some value) : value ∈ address.numbers := by
  obtain ⟨base, index⟩ := address
  rcases List.mem_cons.mp member with rfl | indexed
  · cases base with
    | number held =>
        rw [Base.render, read_numeral_integer, Option.some.injEq] at read
        simp [read]
    | label named => simp [Base.render] at read
  · obtain ⟨register, _, rfl⟩ : ∃ register, index = some register ∧ register.name = operand := by
      simpa using indexed
    simp at read

theorem literal_numeral {literal : Literal}
    (read : readNumeral? literal.render.toList = some value) : literal = .number value := by
  cases literal with
  | number held =>
      rw [Literal.render, String.toList_append] at read
      have same : readInteger? held.repr.toList = some value := read
      rw [read_integer, Option.some.injEq] at same
      rw [same]
  | truth held =>
      have none : readNumeral? (Literal.truth held).render.toList = none := by
        cases held <;> decide
      rw [none] at read
      cases read
  | character held => simp [Literal.render, readNumeral?] at read

theorem source_numeral {source : Casl.Source} (member : operand ∈ source.operands)
    (read : readNumeral? operand.toList = some value) : value ∈ source.numbers := by
  cases source with
  | register source =>
      cases List.mem_singleton.mp member
      simp at read
  | memory address => exact address_numeral member read
  | literal held =>
      cases List.mem_singleton.mp member
      simp [literal_numeral read]

theorem operand_numeral {op : Op} (member : operand ∈ op.operands)
    (read : readNumeral? operand.toList = some value) : value ∈ op.numbers := by
  -- the name of a register reads as no numeral
  have behind {register : Register} {others : List String}
      (among : operand ∈ register.name :: others) : operand ∈ others := by
    rcases List.mem_cons.mp among with rfl | later
    · simp at read
    · exact later
  cases op with
  | load _ _ => exact source_numeral (behind member) read
  | compute _ _ _ => exact source_numeral (behind member) read
  | compareSigned _ _ => exact source_numeral (behind member) read
  | compareUnsigned _ _ => exact source_numeral (behind member) read
  | store _ _ => exact address_numeral (behind member) read
  | loadAddress _ _ => exact address_numeral (behind member) read
  | push _ => exact address_numeral member read
  | reserve cells =>
      cases List.mem_singleton.mp member
      have counted : readNumeral? cells.repr.toList = some (cells : Int) :=
        read_numeral_integer cells
      rw [read, Option.some.injEq] at counted
      simp [counted]
  | pop _ | start _ | jump _ _ | call _ | text _ =>
      cases List.mem_singleton.mp member
      simp at read
  | ret | nop | finish => cases member

end

/-- The number of a cell of a variable. -/
def Program.IsCell (program : Program) (number : Int) : Prop :=
  ∃ place declared offset, program.variables[place]? = some declared ∧ 0 ≤ offset ∧
    offset < declared.type.extent ∧ number = program.cellsBefore place + offset

/-- The number of values of an array, or of characters of a text. -/
def Program.IsLength (program : Program) (number : Int) : Prop :=
  (∃ declared ∈ program.variables, ∃ low high element,
    declared.type = .array low high element ∧ number = high.value - low.value + 1) ∨
  ∃ text ∈ program.texts, number = text.length

/-- What a number in an operation stands for, as an integer without a limit. -/
inductive Program.Denotes (program : Program) : Op → Int → Prop where
  | constant {value : Nat} (written : value ∈ program.values.flatMap Expr.numbers) :
      Denotes program (.push (direct value)) value
  | scalar {place : Nat} {declared : Variable} {type : StandardType}
      (placed : program.variables[place]? = some declared) (single : declared.type = .standard type) :
      Denotes program (.push (direct (program.cellsBefore place))) (program.cellsBefore place)
  | cell {number : Int} (held : program.IsCell number) :
      Denotes program (.load .gr2 (.literal (.number number))) number
  | array {place : Nat} {declared : Variable} {low high : Bound} {element : StandardType}
      (placed : program.variables[place]? = some declared)
      (several : declared.type = .array low high element) :
      Denotes program (.compute .add .gr1 (.literal (.number (program.cellsBefore place))))
        (program.cellsBefore place)
  | element {place : Nat} {declared : Variable} {low high : Bound} {element : StandardType}
      (placed : program.variables[place]? = some declared)
      (several : declared.type = .array low high element) :
      Denotes program
        (.compute .add .gr2 (.literal (.number (program.cellsBefore place - low.value))))
        (program.cellsBefore place - low.value)
  | length {number : Int} (measured : program.IsLength number) :
      Denotes program (.loadAddress .gr1 (direct number)) number
  | argument {procedure : Procedure} {position : Nat} (listed : procedure ∈ program.procedures)
      (below : position < procedure.params.length) :
      Denotes program (.load .gr1 (.memory ⟨.number (position + 1 : Nat), some .gr8⟩))
        (position + 1 : Nat)
  | arguments {procedure : Procedure} (listed : procedure ∈ program.procedures) :
      Denotes program (.compute .add .gr8 (.literal (.number procedure.params.length)))
        procedure.params.length
  | pushed {register : Register} : Denotes program (.push (content register)) 0
  | fetched {register : Register} : Denotes program (.load .gr1 (.memory (content register))) 0
  | stored {register : Register} : Denotes program (.store .gr1 (content register)) 0
  | cleared {register : Register} : Denotes program (.loadAddress register (direct 0)) 0
  | region {cells : Nat}
      (whole : (cells : Int) = program.cellsBefore program.variables.length) :
      Denotes program (.reserve cells) cells
  | buffer : Denotes program (.reserve 256) 256

/-- All numbers of the code stand for what they should. -/
def Program.Settles (program : Program) (code : Code) : Prop :=
  ∀ line ∈ code, ∀ number ∈ line.op.numbers, program.Denotes line.op number

section

variable {program : Program} {code rest : Code}

@[simp] theorem settles_nil : program.Settles [] := fun _ member => absurd member List.not_mem_nil

theorem Program.Settles.append (one : program.Settles code) (two : program.Settles rest) :
    program.Settles (code ++ rest) := List.forall_mem_append.mpr ⟨one, two⟩

theorem settles_composes : Composes fun _ code _ => program.Settles code where
  nothing _ := settles_nil
  joined := Program.Settles.append

@[simp] theorem settles_cons {first : Line} :
    program.Settles (first :: rest) ↔
      (∀ number ∈ first.op.numbers, program.Denotes first.op number) ∧ program.Settles rest :=
  List.forall_mem_cons

theorem settles_flat_map {α : Type} {items : List α} {lines : α → Code}
    (each : ∀ item ∈ items, program.Settles (lines item)) :
    program.Settles (items.flatMap lines) := by
  intro line member
  obtain ⟨item, among, inside⟩ := List.mem_flatMap.mp member
  exact each item among line inside

theorem push_register_settles {register : Register} :
    program.Settles [pushRegister register] := by
  simpa [pushRegister, line, content] using Program.Denotes.pushed

theorem push_cell_settles : program.Settles pushCell := by
  refine settles_cons.mpr ⟨by simp [line, cell], push_register_settles⟩

theorem pop_settles {register : Register} : program.Settles [popInto register] := by
  simp [popInto, line]

theorem truth_settles {value : Bool} :
    program.Settles [line (loadTruth value), pushRegister .gr1] :=
  settles_cons.mpr ⟨by simp [line, loadTruth], push_register_settles⟩

theorem unary_code_settles (op : UnaryOp) : program.Settles (unaryCode op) := by
  cases op with
  | plus => exact settles_nil
  | minus =>
      refine settles_cons.mpr ⟨by simp [popInto, line], settles_cons.mpr ⟨?_, ?_⟩⟩
      · simpa [line, direct] using Program.Denotes.cleared
      · exact settles_cons.mpr ⟨by simp [line], push_register_settles⟩
  | not =>
      refine settles_cons.mpr ⟨by simp [popInto, line], settles_cons.mpr ⟨?_, ?_⟩⟩
      · simp [line]
      · exact push_register_settles

theorem jump_if_false_settles (label : Label) : program.Settles (jumpIfFalse label) := by
  simp [jumpIfFalse, popInto, line]

theorem place_settles (label : Label) : program.Settles [place label] := by
  simp [place, labelled]

theorem turn_settles (target label : Label) :
    program.Settles [line (.jump .always target), place label] := by
  simp [place, labelled, line]

theorem call_routine_settles (called : Routine) : program.Settles [callRoutine called] := by
  simp [callRoutine, line]

theorem comparison_settles (number : Nat) (operands : Pushed) (condition : Condition)
    (taken : Bool) : program.Settles (comparison number operands condition taken) := by
  have compared : program.Settles [line (compareOp operands)] := by
    rcases operands with (_ | _ | _) | _ <;> simp [compareOp, line]
  have joined : program.Settles [labelled (.both number) (.push (content .gr1))] := by
    simpa [labelled, content] using Program.Denotes.pushed
  have between (target : Label) : program.Settles
      [line (.jump condition target), line (loadTruth !taken),
        line (.jump .always (.both number)), labelled target (loadTruth taken)] := by
    simp [line, labelled, loadTruth]
  exact compared.append ((between _).append joined)

theorem operator_settles {op : BinaryOp} (plain : operatorCode op = some code) :
    program.Settles code := by
  have last (register : Register) : program.Settles [pushRegister register] :=
    push_register_settles
  cases op <;> cases plain <;> exact settles_cons.mpr ⟨by simp [line], last _⟩

theorem binary_code_settles {op : BinaryOp} {left : Pushed} {supply after : Supply}
    (generated : binaryCode op left supply = (.ok code, after)) : program.Settles code := by
  rcases binary_code_inv generated with ⟨plain, _⟩ | ⟨condition, taken, number, _, _, rfl⟩
  · exact operator_settles plain
  · exact comparison_settles number left condition taken

end

/-- The names that code can use stand for regions of the program. -/
structure Env.Counts (env : Env) (program : Program) : Prop where
  cells : ∀ {name : String} {cells : Cells}, env.cells? name = some cells →
    ∃ declared, (declared, cells) ∈ program.regions
  frames : ∀ {name : String} {frame : Frame},
    env.procedure? name = some frame → ∀ cell ∈ frame.cells, program.IsCell cell

/-- What is left on the stack, if an address, is that of a known length. -/
def Program.Measures (program : Program) : Pushed → Prop
  | .scalar _ => True
  | .address length => program.IsLength length

/-- The numbers and the texts of the expression are some of the program. -/
def Program.Contains (program : Program) (value : Expr) : Prop :=
  value.numbers ⊆ program.values.flatMap Expr.numbers ∧ value.texts ⊆ program.texts

section

variable {program : Program} (wellTyped : program.WellTyped)

include wellTyped

theorem scalar_region {declared : Variable} {base : Nat} {type : StandardType}
    (member : (declared, .scalar base type) ∈ program.regions) :
    ∃ place : Nat, program.variables[place]? = some declared ∧ declared.type = .standard type ∧
      (base : Int) = program.cellsBefore place := by
  obtain ⟨place, placed⟩ := List.mem_iff_getElem?.mp member
  have shape := (regions_found wellTyped _ member).2.shape
  refine ⟨place, region_at.mpr ⟨_, placed⟩, ?_, base_counted wellTyped placed⟩
  cases known : declared.type with
  | standard _ =>
      rw [known] at shape
      cases shape
      rfl
  | array _ _ _ =>
      rw [known] at shape
      cases shape

theorem array_region {declared : Variable} {base count : Nat} {element : StandardType} {low : Int}
    (member : (declared, .array base element low count) ∈ program.regions) :
    ∃ (place : Nat) (least most : Bound), program.variables[place]? = some declared ∧
      declared.type = .array least most element ∧ low = least.value ∧
      (base : Int) = program.cellsBefore place ∧
      (count : Int) = most.value - least.value + 1 := by
  obtain ⟨place, placed⟩ := List.mem_iff_getElem?.mp member
  have fits := (regions_found wellTyped _ member).2
  have shape := fits.shape
  have extent := fits.count
  cases known : declared.type with
  | standard _ =>
      rw [known] at shape
      cases shape
  | array least most _ =>
      rw [known] at shape extent
      cases shape
      exact ⟨place, least, most, region_at.mpr ⟨_, placed⟩, rfl, rfl,
        base_counted wellTyped placed, extent⟩

/-- Fewer variables than these have offsets that 64 bits can hold. -/
theorem element_number (few : program.variables.length < 2 ^ 46) {declared : Variable}
    {base count : Nat} {element : StandardType} {low : Int}
    (member : (declared, .array base element low count) ∈ program.regions) :
    elementOffset base low = base - low := by
  obtain ⟨_, least, most, _, known, rfl, _, _⟩ := array_region wellTyped member
  have fits := (regions_found wellTyped _ member).2
  have among : declared ∈ program.variables := by
    rw [← regions_variables]
    exact List.mem_map_of_mem member
  have wellFormed := variables_well_formed wellTyped declared among
  simp only [known] at fits wellFormed
  cases wellFormed with
  | array lowLiteral _ _ => exact element_offset_exact wellTyped few member fits lowLiteral

end

section

variable {program : Program} (wellTyped : program.WellTyped)
  (few : program.variables.length < 2 ^ 46) {env : Env} (counts : env.Counts program)
  {supply after : Supply} {pushed : Pushed} {code : Code}

theorem text_code_settles {text : String} (contained : program.Contains (.string 0 text))
    (generated : textCode text supply = (.ok (pushed, code), after)) :
    program.Settles code ∧ program.Measures pushed := by
  rcases text_code_inv generated with
    ⟨character, _, _, rfl, rfl⟩ | ⟨number, _, _, rfl, rfl⟩
  · exact ⟨settles_cons.mpr ⟨by simp [line], push_register_settles⟩, trivial⟩
  · refine ⟨settles_cons.mpr ⟨by simp [line, symbol], push_register_settles⟩, .inr ⟨text, ?_, rfl⟩⟩
    exact contained.2 List.mem_cons_self

theorem read_code_settles (measured : program.Measures pushed) :
    program.Settles (readCode pushed) := by
  cases pushed with
  | scalar type =>
      simp [readCode, popInto, callRoutine, line, symbol]
  | address length =>
      refine settles_cons.mpr ⟨by simp [popInto, line], settles_cons.mpr ⟨?_, ?_⟩⟩
      · simpa [line, direct] using Program.Denotes.length measured
      · exact call_routine_settles _

theorem write_code_settles (measured : program.Measures pushed) :
    program.Settles (writeCode pushed) := by
  cases pushed with
  | scalar type => simp [writeCode, popInto, callRoutine, line]
  | address length =>
      refine settles_cons.mpr ⟨by simp [popInto, line], settles_cons.mpr ⟨?_, ?_⟩⟩
      · simpa [line, direct] using Program.Denotes.length measured
      · exact call_routine_settles _

theorem load_cell_settles {number : Nat} (held : program.IsCell number) :
    program.Settles [loadNumber .gr2 number] := by
  simpa [loadNumber, line] using Program.Denotes.cell held

theorem save_settles {frame : Frame} (held : ∀ cell ∈ frame.cells, program.IsCell cell) :
    program.Settles frame.save :=
  settles_flat_map fun number member =>
    (load_cell_settles (held number member)).append push_cell_settles

theorem store_cell_settles : program.Settles [storeCell] := by simp [storeCell, line, cell]

theorem restore_settles {frame : Frame} (held : ∀ cell ∈ frame.cells, program.IsCell cell) :
    program.Settles frame.restore := by
  refine settles_flat_map fun number member => pop_settles.append ?_
  exact (load_cell_settles (held number (List.mem_reverse.mp member))).append store_cell_settles

include wellTyped counts

theorem scalar_settles {name : String} {base : Nat} {type : StandardType}
    (found : env.cells? name = some (.scalar base type)) :
    program.Settles [loadNumber .gr2 base] ∧ program.Settles [line (.push (direct base))] := by
  obtain ⟨declared, member⟩ := counts.cells found
  obtain ⟨place, placed, known, counted⟩ := scalar_region wellTyped member
  constructor
  · apply load_cell_settles
    exact ⟨place, declared, 0, placed, Int.le_refl 0, by simp [known, TypeSpec.extent],
      by simp [counted]⟩
  · simpa [line, direct, counted] using Program.Denotes.scalar placed known

theorem address_settles {name : String} {base count : Nat} {element : StandardType} {low : Int}
    (found : env.cells? name = some (.array base element low count)) :
    program.Settles (pushAddress base) ∧ program.Measures (.address count) := by
  obtain ⟨declared, member⟩ := counts.cells found
  obtain ⟨place, least, most, placed, known, rfl, counted, length⟩ := array_region wellTyped member
  refine ⟨settles_cons.mpr ⟨by simp [line, symbol], settles_cons.mpr ⟨?_, ?_⟩⟩, .inl ?_⟩
  · simpa [line, counted] using Program.Denotes.array placed known
  · exact push_register_settles
  · exact ⟨declared, List.mem_of_getElem? placed, least, most, element, known, length⟩

include few

theorem locate_settles {name : String} {base count : Nat} {element : StandardType} {low : Int}
    (found : env.cells? name = some (.array base element low count)) :
    program.Settles (locateElement base low) := by
  obtain ⟨declared, member⟩ := counts.cells found
  have offset := element_number wellTyped few member
  obtain ⟨place, least, most, placed, known, rfl, counted, _⟩ := array_region wellTyped member
  refine settles_cons.mpr ⟨by simp [popInto, line], settles_cons.mpr ⟨?_, settles_nil⟩⟩
  rw [offset, counted]
  simpa [line] using Program.Denotes.element placed known

theorem expr_settles {value : Expr} (contained : program.Contains value)
    (generated : env.expr value supply = (.ok (pushed, code), after)) :
    program.Settles code ∧ program.Measures pushed := by
  induction value generalizing supply after pushed code with
  | number _ value =>
      cases generated
      refine ⟨settles_cons.mpr ⟨?_, settles_nil⟩, trivial⟩
      simpa [line, direct] using Program.Denotes.constant (contained.1 List.mem_cons_self)
  | string _ text => exact text_code_settles contained generated
  | truth _ value =>
      cases generated
      exact ⟨truth_settles, trivial⟩
  | simple _ name =>
      rcases expr_simple_inv generated with
        ⟨_, ⟨_, _, found, rfl, rfl⟩ | ⟨_, _, _, _, found, rfl, rfl⟩⟩
      · exact ⟨(scalar_settles wellTyped counts found).1.append push_cell_settles, trivial⟩
      · exact address_settles wellTyped counts found
  | indexed _ name index ih =>
      rcases expr_indexed_inv generated with ⟨_, _, _, _, _, _, found, indexed, rfl, rfl⟩
      have located := (ih contained indexed).1.append (locate_settles wellTyped few counts found)
      exact ⟨located.append push_cell_settles, trivial⟩
  | unary _ op operand ih =>
      rcases expr_unary_inv generated with ⟨operandCode, coded, rfl⟩
      have inner := ih contained coded
      exact ⟨inner.1.append (unary_code_settles op), inner.2⟩
  | binary _ op left right leftIh rightIh =>
      rcases expr_binary_inv generated with
        ⟨_, leftCode, _, rightCode, joint, _, _, leftCoded, rightCoded, joined, rfl, rfl⟩
      have numbers := List.append_subset.mp contained.1
      have texts := List.append_subset.mp contained.2
      have operands := (leftIh ⟨numbers.1, texts.1⟩ leftCoded).1.append
        (rightIh ⟨numbers.2, texts.2⟩ rightCoded).1
      refine ⟨(operands.append (pop_settles.append pop_settles)).append
        (binary_code_settles joined), ?_⟩
      cases op <;> trivial

theorem target_settles {target : Target}
    (contained : ∀ value ∈ target.indexes, program.Contains value)
    (generated : env.target target supply = (.ok (pushed, code), after)) :
    program.Settles code ∧ program.Measures pushed := by
  cases target with
  | simple _ name =>
      rcases target_simple_inv generated with
        ⟨_, ⟨_, _, found, rfl, rfl⟩ | ⟨_, _, _, _, found, rfl, rfl⟩⟩
      · exact ⟨(scalar_settles wellTyped counts found).2, trivial⟩
      · exact address_settles wellTyped counts found
  | indexed _ name index =>
      rcases target_indexed_inv generated with ⟨_, _, _, _, _, _, found, indexed, rfl, rfl⟩
      have inner := expr_settles wellTyped few counts (contained index List.mem_cons_self) indexed
      have located := inner.1.append (locate_settles wellTyped few counts found)
      exact ⟨located.append push_register_settles, trivial⟩

theorem exprs_settle {values : List Expr} (contained : ∀ value ∈ values, program.Contains value)
    (generated : env.exprs values supply = (.ok code, after)) : program.Settles code :=
  settles_composes.exprs (fun value member _ _ _ _ coded =>
    (expr_settles wellTyped few counts (contained value member) coded).1) generated

theorem reads_settle {targets : List Target}
    (contained : ∀ value ∈ targets.flatMap Target.indexes, program.Contains value)
    (generated : env.reads targets supply = (.ok code, after)) : program.Settles code := by
  refine settles_composes.reads (fun target member _ _ _ _ coded => ?_) generated
  have own : ∀ value ∈ target.indexes, program.Contains value := fun value inside =>
    contained value (List.mem_flatMap_of_mem member inside)
  have located := target_settles wellTyped few counts own coded
  exact located.1.append (read_code_settles located.2)

theorem writes_settle {values : List Expr} (contained : ∀ value ∈ values, program.Contains value)
    (generated : env.writes values supply = (.ok code, after)) : program.Settles code := by
  refine settles_composes.writes (fun value member _ _ _ _ coded => ?_) generated
  have valued := expr_settles wellTyped few counts (contained value member) coded
  exact valued.1.append (write_code_settles valued.2)

theorem call_settles {name : String} {arguments : List Expr} {nodeLine : Nat}
    (contained : ∀ value ∈ arguments, program.Contains value)
    (generated : env.call name arguments nodeLine supply = (.ok code, after)) :
    program.Settles code := by
  rcases call_inv generated with ⟨frame, argumentCode, known, coded, rfl⟩
  have given := exprs_settle wellTyped few counts
    (fun value member => contained value (List.mem_reverse.mp member)) coded
  have plain : program.Settles (argumentCode ++ [line (.call (.procedure frame.ordinal))]) :=
    given.append (by simp [line])
  split
  · exact ((save_settles (counts.frames known)).append plain).append
      (restore_settles (counts.frames known))
  · exact plain

end

mutual

theorem stmt_settles {program : Program} (wellTyped : program.WellTyped)
    (few : program.variables.length < 2 ^ 46) {env : Env} (counts : env.Counts program) :
    ∀ (statement : Stmt) {supply after : Supply} {code : Code},
    (∀ value ∈ statement.values, program.Contains value) →
      env.stmt statement supply = (.ok code, after) → program.Settles code
  | .assign _ _ _, _, _, _, contained, generated => by
      rcases assign_inv generated with ⟨_, _, _, _, _, located, coded, rfl⟩
      obtain ⟨inTarget, own⟩ := List.forall_mem_append.mp contained
      have target := (target_settles wellTyped few counts inTarget located).1
      have value := (expr_settles wellTyped few counts (own _ List.mem_cons_self) coded).1
      exact (target.append value).append (pop_settles.append (pop_settles.append store_cell_settles))
  | .call _ _ _, _, _, _, contained, generated =>
      call_settles wellTyped few counts contained generated
  | .ifThen _ _ _ thenBody, _, _, _, contained, generated => by
      rcases if_then_inv generated with ⟨_, _, _, _, _, _, _, _, tested, coded, _, rfl⟩
      obtain ⟨test, inThen⟩ := List.forall_mem_cons.mp contained
      have inTest := (expr_settles wellTyped few counts test tested).1
      exact ((inTest.append (jump_if_false_settles _)).append
        (stmts_settle wellTyped few counts thenBody inThen coded)).append (place_settles _)
  | .ifElse _ _ _ thenBody _ elseBody, _, _, _, contained, generated => by
      rcases if_else_inv generated with ⟨_, _, _, _, _, _, _, _, _, _, _, _, _, tested,
        thenCoded, _, _, elseCoded, _, rfl⟩
      obtain ⟨test, branches⟩ := List.forall_mem_cons.mp contained
      obtain ⟨inThen, inElse⟩ := List.forall_mem_append.mp branches
      have inTest := (expr_settles wellTyped few counts test tested).1
      have taken := stmts_settle wellTyped few counts thenBody inThen thenCoded
      have skipped := stmts_settle wellTyped few counts elseBody inElse elseCoded
      exact ((((inTest.append (jump_if_false_settles _)).append taken).append
        (turn_settles _ _)).append skipped).append (place_settles _)
  | .whileDo _ _ _ body, _, _, _, contained, generated => by
      rcases while_inv generated with ⟨_, _, _, _, _, _, _, _, tested, coded, _, rfl⟩
      obtain ⟨test, inBody⟩ := List.forall_mem_cons.mp contained
      have inTest := (expr_settles wellTyped few counts test tested).1
      exact ((((place_settles _).append inTest).append (jump_if_false_settles _)).append
        (stmts_settle wellTyped few counts body inBody coded)).append (turn_settles _ _)
  | .read _ _, _, _, _, contained, generated => by
      rcases read_inv generated with ⟨_, coded, rfl⟩
      exact (reads_settle wellTyped few counts contained coded).append (call_routine_settles _)
  | .write _ _, _, _, _, contained, generated => by
      rcases write_inv generated with ⟨_, coded, rfl⟩
      exact (writes_settle wellTyped few counts contained coded).append (call_routine_settles _)
  | .block _ body, _, _, _, contained, generated =>
      stmts_settle wellTyped few counts body contained generated

theorem stmts_settle {program : Program} (wellTyped : program.WellTyped)
    (few : program.variables.length < 2 ^ 46) {env : Env} (counts : env.Counts program) :
    ∀ (body : List Stmt) {supply after : Supply} {code : Code},
    (∀ value ∈ valuesOf body, program.Contains value) →
      env.stmts body supply = (.ok code, after) → program.Settles code
  | [], _, _, _, _, generated => by
      rcases stmts_nil_inv generated with ⟨rfl, _⟩
      exact settles_nil
  | first :: rest, _, _, _, contained, generated => by
      rcases stmts_cons_inv generated with ⟨_, _, _, coded, more, rfl⟩
      obtain ⟨own, others⟩ := List.forall_mem_append.mp contained
      exact (stmt_settles wellTyped few counts first own coded).append
        (stmts_settle wellTyped few counts rest others more)

end

end PascalCasl
