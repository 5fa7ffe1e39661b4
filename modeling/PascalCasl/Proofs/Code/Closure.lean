import PascalCasl.Proofs.Code.Generation
import PascalCasl.Proofs.Code.Labels
import PascalCasl.Proofs.Text.Decimal

/-!
Labels that code mentions. The jumps of a piece of code go to labels of that
piece; all else that code mentions is the region of variables, a text of the
table or a procedure known so far. In a listing all of these are defined, once
each and under different names, and every piece ends with a return.
-/

namespace PascalCasl

open Casl

/-! Names of labels. A name is a stem of letters and, in the numbered families,
a numeral; the label is read back from the two. -/

namespace Casl.Label

def stem : Label → String
  | .program => "CASL"
  | .entry => "BEGIN"
  | .variables => "VAR"
  | .buffer => "LIBBUF"
  | .text _ => "CHAR"
  | .procedure _ => "PROC"
  | .otherwise _ => "ELSE"
  | .endIf _ => "ENDIF"
  | .loop _ => "LOOP"
  | .endLoop _ => "ENDLP"
  | .onTrue _ => "TRUE"
  | .onFalse _ => "FALSE"
  | .both _ => "BOTH"

def ofStem? (stem : String) (number : Nat) : Option Label :=
  [Label.program, .entry, .variables, .buffer, .text number, .procedure number, .otherwise number,
    .endIf number, .loop number, .endLoop number, .onTrue number, .onFalse number,
    .both number].find? fun label => label.stem = stem

theorem of_stem (label : Label) : ofStem? label.stem label.number = some label := by
  cases label <;> rfl

/-- The numeral of a name, which fixed labels do not have. -/
def numeral (label : Label) : List Char :=
  match label with
  | .program | .entry | .variables | .buffer => []
  | _ => label.number.repr.toList

theorem name_chars (label : Label) : label.name.toList = label.stem.toList ++ label.numeral := by
  cases label <;> simp [name, stem, numeral, number]

theorem numeral_cases (label : Label) :
    (label.numeral = [] ∧ label.number = 0) ∨ label.numeral = label.number.repr.toList :=
  match label with
  | .program | .entry | .variables | .buffer => .inl ⟨rfl, rfl⟩
  | .text _ | .procedure _ | .otherwise _ | .endIf _ | .loop _ | .endLoop _ | .onTrue _
  | .onFalse _ | .both _ => .inr rfl

theorem numeral_value (label : Label) :
    (Text.digitsValue? label.numeral).getD 0 = label.number := by
  rcases label.numeral_cases with ⟨empty, zero⟩ | written
  · rw [empty, zero]
    rfl
  · rw [written, Text.digits_value_repr, Option.getD_some]

theorem numeral_digits (label : Label) : ∀ c ∈ label.numeral, c.isDigit := by
  intro c among
  rcases label.numeral_cases with ⟨empty, _⟩ | written
  · rw [empty] at among
    exact absurd among List.not_mem_nil
  · rw [written] at among
    exact Text.digit_of_repr among

theorem stem_letters (label : Label) : ∀ c ∈ label.stem.toList, !c.isDigit := by
  apply List.all_eq_true.mp
  cases label <;> (simp only [stem]; decide)

theorem numeral_split (label : Label) :
    label.numeral.takeWhile (fun c => !c.isDigit) = [] ∧
      label.numeral.dropWhile (fun c => !c.isDigit) = label.numeral := by
  have digits := label.numeral_digits
  generalize label.numeral = numeral at digits
  cases numeral with
  | nil => exact ⟨rfl, rfl⟩
  | cons first rest => simp [digits first List.mem_cons_self]

/-- A stem has no digit, so a name splits at its first one. -/
theorem of_name (label : Label) :
    ofStem? (String.ofList (label.name.toList.takeWhile fun c => !c.isDigit))
      ((Text.digitsValue? (label.name.toList.dropWhile fun c => !c.isDigit)).getD 0) =
        some label := by
  rw [name_chars, List.takeWhile_append_of_pos label.stem_letters,
    List.dropWhile_append_of_pos label.stem_letters, label.numeral_split.1, label.numeral_split.2,
    List.append_nil, String.ofList_toList, numeral_value, of_stem]

theorem name_injective : Function.Injective Label.name := by
  intro label other same
  have read := label.of_name
  rw [same, other.of_name] at read
  exact (Option.some.inj read).symm

theorem name_ne_empty (label : Label) : label.name ≠ "" := by
  cases label <;> simp [name]

end Casl.Label

theorem label_texts (code : Code) :
    (code.map Line.labelText).filter (· ≠ "") = (labels code).map Label.name := by
  induction code with
  | nil => rfl
  | cons first rest ih =>
      rcases first with ⟨_ | label, op⟩
      · exact ih
      · rw [List.map_cons, List.filter_cons_of_pos (by simp [Line.labelText, label.name_ne_empty]), ih]
        rfl

theorem label_text_of_mem {code : Code} {label : Label} (member : label ∈ labels code) :
    label.name ∈ code.map Line.labelText := by
  have named : label.name ∈ (labels code).map Label.name := List.mem_map_of_mem member
  rw [← label_texts] at named
  exact List.mem_of_mem_filter named

@[simp] def Casl.Address.mentions (address : Address) : List Label :=
  match address.base with
  | .number _ => []
  | .label named => [named]

@[simp] def Casl.Source.mentions : Source → List Label
  | .memory address => address.mentions
  | _ => []

@[simp] def Casl.Callee.mentions : Callee → List Label
  | .routine _ => []
  | .procedure number => [.procedure number]

@[simp] def Casl.Op.mentions : Op → List Label
  | .load _ source | .compute _ _ source | .compareSigned _ source | .compareUnsigned _ source =>
      source.mentions
  | .store _ address | .loadAddress _ address | .push address => address.mentions
  | .jump _ target => [target]
  | .call callee => callee.mentions
  | .start first => [first]
  | .pop _ | .ret | .nop | .reserve _ | .text _ | .finish => []

@[simp] theorem line_op (op : Op) : (line op).op = op := rfl

@[simp] theorem labelled_op (label : Label) (op : Op) : (labelled label op).op = op := rfl

@[simp] theorem place_op (label : Label) : (place label).op = .nop := rfl

/-- What code may mention that is defined outside of it. -/
@[simp] def Shared (texts procedures : Nat) : Label → Prop
  | .variables => True
  | .text number => number < texts
  | .procedure number => number < procedures
  | _ => False

@[simp] def Casl.Op.target? : Op → Option Label
  | .jump _ target => some target
  | _ => none

/-- A jump goes to one of the names; any other operation mentions only what is
shared. -/
@[simp] def Casl.Op.Resolves (names : List Label) (texts procedures : Nat) (op : Op) : Prop :=
  (∀ target, op.target? = some target → target ∈ names) ∧
    (op.target? = none → ∀ label ∈ op.mentions, Shared texts procedures label)

def Resolved (names : List Label) (texts procedures : Nat) (code : Code) : Prop :=
  ∀ line ∈ code, line.op.Resolves names texts procedures

section

variable {names more : List Label} {texts later procedures further : Nat} {code others : Code}

theorem Shared.mono {label : Label} (shared : Shared texts procedures label)
    (grown : texts ≤ later) (joined : procedures ≤ further) : Shared later further label := by
  cases label with
  | text number => exact Nat.lt_of_lt_of_le shared grown
  | procedure number => exact Nat.lt_of_lt_of_le shared joined
  | _ => exact shared

theorem Resolved.mono (resolved : Resolved names texts procedures code)
    (wider : ∀ label ∈ names, label ∈ more) (grown : texts ≤ later) :
    Resolved more later procedures code :=
  fun line member => ⟨fun target goes => wider target ((resolved line member).1 target goes),
    fun other label mentioned =>
      ((resolved line member).2 other label mentioned).mono grown (Nat.le_refl _)⟩

theorem Resolved.extend (resolved : Resolved names texts procedures code)
    (joined : procedures ≤ further) : Resolved names texts further code :=
  fun line member => ⟨(resolved line member).1, fun other label mentioned =>
    ((resolved line member).2 other label mentioned).mono (Nat.le_refl _) joined⟩

@[simp] theorem resolved_nil : Resolved names texts procedures [] :=
  fun _ member => absurd member List.not_mem_nil

@[simp] theorem resolved_append : Resolved names texts procedures (code ++ others) ↔
    Resolved names texts procedures code ∧ Resolved names texts procedures others :=
  List.forall_mem_append

@[simp] theorem resolved_cons {first : Line} :
    Resolved names texts procedures (first :: code) ↔
      first.op.Resolves names texts procedures ∧ Resolved names texts procedures code :=
  List.forall_mem_cons

theorem resolved_flat_map {α : Type} {items : List α} {lines : α → Code}
    (each : ∀ item, Resolved names texts procedures (lines item)) :
    Resolved names texts procedures (items.flatMap lines) := by
  intro line member
  obtain ⟨item, _, among⟩ := List.mem_flatMap.1 member
  exact each item line among

theorem push_cell_resolved : Resolved names texts procedures pushCell := by
  simp [pushCell, pushRegister, cell, content]

theorem push_address_resolved (base : Nat) : Resolved names texts procedures (pushAddress base) := by
  simp [pushAddress, pushRegister, symbol, content]

theorem locate_element_resolved (base : Nat) (low : Int) :
    Resolved names texts procedures (locateElement base low) := by
  simp [locateElement, popInto]

theorem unary_code_resolved (op : UnaryOp) : Resolved names texts procedures (unaryCode op) := by
  cases op <;> simp [unaryCode, popInto, pushRegister, direct, content]

theorem read_code_resolved (pushed : Pushed) : Resolved names texts procedures (readCode pushed) := by
  cases pushed <;> simp [readCode, popInto, callRoutine, symbol, direct]

theorem write_code_resolved (pushed : Pushed) :
    Resolved names texts procedures (writeCode pushed) := by
  cases pushed <;> simp [writeCode, popInto, callRoutine, direct]

theorem save_resolved (frame : Frame) : Resolved names texts procedures frame.save :=
  resolved_flat_map fun number => by
    simp [saveCell, push_cell_resolved, loadNumber]

theorem restore_resolved (frame : Frame) : Resolved names texts procedures frame.restore :=
  resolved_flat_map fun number => by
    simp [restoreCell, popInto, storeCell, loadNumber, cell]

theorem prologue_resolved (base count : Nat) :
    Resolved names texts procedures (prologue base count) := by
  have received (number : Nat) : Resolved names texts procedures (receiveParam base number) := by
    simp [receiveParam, storeCell, loadNumber, cell]
  have dropped : Resolved names texts procedures (dropParams count) := by
    unfold dropParams
    split <;> simp [content]
  exact resolved_append.2 ⟨resolved_flat_map received, dropped⟩

theorem jump_if_false_resolved {label : Label} (known : label ∈ names) :
    Resolved names texts procedures (jumpIfFalse label) := by
  simp [jumpIfFalse, popInto, known]

theorem comparison_resolved (number : Nat) (operands : Pushed) (condition : Condition)
    (taken : Bool) :
    Resolved (labels (comparison number operands condition taken)) texts procedures
      (comparison number operands condition taken) := by
  rcases operands with (_ | _ | _) | _ <;> cases taken <;>
    simp [comparison, compareOp, loadTruth, content]

end

/-! Expressions. They mention no procedure. -/

variable {env : Env} {supply after : Supply} {pushed : Pushed} {code : Code} {procedures : Nat}

theorem text_code_resolved {text : String}
    (generated : textCode text supply = (.ok (pushed, code), after)) :
    Resolved (labels code) after.texts.length procedures code := by
  rcases text_code_inv generated with ⟨_, _, rfl, _, rfl⟩ | ⟨number, _, entered, _, rfl⟩
  · simp [pushRegister, content]
  · have placed := (new_text_numbered entered).2
    have below := (List.getElem?_eq_some_iff.1 placed).1
    simp [pushRegister, content, symbol, below]

theorem binary_code_resolved {op : BinaryOp} {left : Pushed}
    (generated : binaryCode op left supply = (.ok code, after)) :
    Resolved (labels code) after.texts.length procedures code := by
  rcases binary_code_inv generated with ⟨plain, rfl⟩ | ⟨condition, taken, number, _, _, rfl⟩
  · cases op <;> cases plain <;> simp [pushRegister, content]
  · exact comparison_resolved number left condition taken

theorem expr_resolved {value : Expr}
    (generated : env.expr value supply = (.ok (pushed, code), after)) :
    Resolved (labels code) after.texts.length procedures code := by
  induction value generalizing supply after pushed code with
  | number _ value =>
      cases generated
      simp [direct]
  | string _ text => exact text_code_resolved generated
  | truth _ value =>
      cases generated
      simp [loadTruth, pushRegister, content]
  | simple _ name =>
      rcases expr_simple_inv generated with ⟨rfl, ⟨_, _, _, _, rfl⟩ | ⟨_, _, _, _, _, _, rfl⟩⟩
      · exact resolved_cons.2 ⟨by simp [loadNumber], push_cell_resolved⟩
      · exact push_address_resolved _
  | indexed _ name index ih =>
      rcases expr_indexed_inv generated with ⟨_, _, _, _, _, _, _, indexed, _, rfl⟩
      simp only [resolved_append]
      exact ⟨⟨(ih indexed).mono (by simp +contextual) (Nat.le_refl _),
        locate_element_resolved _ _⟩, push_cell_resolved⟩
  | unary _ op operand ih =>
      rcases expr_unary_inv generated with ⟨operandCode, coded, rfl⟩
      simp only [resolved_append]
      exact ⟨(ih coded).mono (by simp +contextual) (Nat.le_refl _), unary_code_resolved op⟩
  | binary _ op left right leftIh rightIh =>
      rcases expr_binary_inv generated with
        ⟨_, leftCode, _, rightCode, joint, _, _, leftCoded, rightCoded, joined, _, rfl⟩
      -- texts entered for an operand stay in the table that the operator leaves
      have grown := (binary_code_numbered joined).grows.texts.length_le
      have earlier := (expr_numbered rightCoded).grows.texts.length_le
      simp only [resolved_append]
      exact ⟨⟨⟨(leftIh leftCoded).mono (by simp +contextual) (Nat.le_trans earlier grown),
        (rightIh rightCoded).mono (by simp +contextual) grown⟩, by simp [popInto]⟩,
        (binary_code_resolved joined).mono (by simp +contextual [popInto]) (Nat.le_refl _)⟩

theorem target_resolved {target : Target}
    (generated : env.target target supply = (.ok (pushed, code), after)) :
    Resolved (labels code) after.texts.length procedures code := by
  cases target with
  | simple _ name =>
      rcases target_simple_inv generated with ⟨rfl, ⟨_, _, _, _, rfl⟩ | ⟨_, _, _, _, _, _, rfl⟩⟩
      · simp [direct]
      · exact push_address_resolved _
  | indexed _ name index =>
      rcases target_indexed_inv generated with ⟨_, _, _, _, _, _, _, indexed, _, rfl⟩
      simp only [resolved_append]
      exact ⟨⟨(expr_resolved indexed).mono (by simp +contextual) (Nat.le_refl _),
        locate_element_resolved _ _⟩, by simp [pushRegister, content]⟩

/-- Texts entered for one piece stay in the table that a later piece leaves, so
what has been resolved stays so. -/
theorem resolved_composes : Composes fun supply code after =>
    Numbered supply after (labels code) ∧
      Resolved (labels code) after.texts.length procedures code where
  nothing supply := ⟨Numbered.refl supply, resolved_nil⟩
  joined := by
    rintro supply middle after first second ⟨numbered, resolved⟩ ⟨others, followed⟩
    refine ⟨numbered_composes.joined numbered others, resolved_append.2 ⟨?_, ?_⟩⟩
    · exact resolved.mono (by simp +contextual) others.grows.texts.length_le
    · exact followed.mono (by simp +contextual) (Nat.le_refl _)

theorem exprs_resolved {values : List Expr}
    (generated : env.exprs values supply = (.ok code, after)) :
    Resolved (labels code) after.texts.length procedures code :=
  (resolved_composes.exprs (fun _ _ _ _ _ _ coded =>
    ⟨expr_numbered coded, expr_resolved coded⟩) generated).2

theorem reads_resolved {targets : List Target}
    (generated : env.reads targets supply = (.ok code, after)) :
    Resolved (labels code) after.texts.length procedures code := by
  refine (resolved_composes.reads (fun target _ supply after pushed code coded => ?_) generated).2
  refine ⟨target_read_numbered coded, resolved_append.2 ⟨?_, read_code_resolved pushed⟩⟩
  exact (target_resolved coded).mono (by simp +contextual) (Nat.le_refl _)

theorem writes_resolved {values : List Expr}
    (generated : env.writes values supply = (.ok code, after)) :
    Resolved (labels code) after.texts.length procedures code := by
  refine (resolved_composes.writes (fun value _ supply after pushed code coded => ?_) generated).2
  refine ⟨expr_written_numbered coded, resolved_append.2 ⟨?_, write_code_resolved pushed⟩⟩
  exact (expr_resolved coded).mono (by simp +contextual) (Nat.le_refl _)

/-- Calls find the first `count` procedures only. -/
def Env.CallsBelow (env : Env) (count : Nat) : Prop :=
  ∀ name frame, env.procedure? name = some frame → frame.ordinal < count

theorem block_calls_below {program : Program} {block : Block} (member : block ∈ program.blocks) :
    (block.env program).CallsBelow program.procedures.length := by
  intro name frame found
  have placed := (blocks_indexed program block member).found name frame found
  have below := (List.getElem?_eq_some_iff.mp placed).1
  rw [Block.env, Layout.first_frames_length] at below
  exact Nat.lt_of_lt_of_le below (known_first member).length_le

theorem call_resolved (below : env.CallsBelow procedures) {name : String} {arguments : List Expr}
    {nodeLine : Nat} (generated : env.call name arguments nodeLine supply = (.ok code, after)) :
    Resolved (labels code) after.texts.length procedures code := by
  rcases call_inv generated with ⟨frame, argumentCode, found, coded, rfl⟩
  have known := below name frame found
  have argued : Resolved _ _ procedures argumentCode := exprs_resolved coded
  split
  · simp only [resolved_append]
    exact ⟨⟨save_resolved frame, argued.mono (by simp +contextual) (Nat.le_refl _),
      by simp [known]⟩, restore_resolved frame⟩
  · simp only [resolved_append]
    exact ⟨argued.mono (by simp +contextual) (Nat.le_refl _), by simp [known]⟩

mutual

theorem stmt_resolved (below : env.CallsBelow procedures) :
    ∀ (statement : Stmt) {supply after : Supply} {code : Code},
    env.stmt statement supply = (.ok code, after) →
      Resolved (labels code) after.texts.length procedures code
  | .assign _ _ _, _, _, _, generated => by
      rcases assign_inv generated with ⟨_, _, _, _, _, located, coded, rfl⟩
      have grown := (expr_numbered coded).grows.texts.length_le
      simp only [resolved_append]
      exact ⟨⟨(target_resolved located).mono (by simp +contextual) grown,
        (expr_resolved coded).mono (by simp +contextual) (Nat.le_refl _)⟩,
        by simp [popInto, storeCell, cell]⟩
  | .call _ _ _, _, _, _, generated => call_resolved below generated
  | .ifThen _ _ _ thenBody, _, _, _, generated => by
      rcases if_then_inv generated with
        ⟨number, _, test, thenCode, _, _, _, opened, tested, coded, closed, rfl⟩
      have grown := (close_label_numbered .otherwise closed).grows.texts.length_le
      have earlier := (stmts_numbered thenBody coded).grows.texts.length_le
      simp only [resolved_append]
      -- the jump is over the branch, to the label placed behind it
      exact ⟨⟨⟨(expr_resolved tested).mono (by simp +contextual) (Nat.le_trans earlier grown),
        jump_if_false_resolved (by simp)⟩,
        (stmts_resolved below thenBody coded).mono (by simp +contextual) grown⟩,
        by simp⟩
  | .ifElse _ _ _ thenBody _ elseBody, _, _, _, generated => by
      rcases if_else_inv generated with ⟨number, endNumber, _, test, thenCode, elseCode, _, _, _, _,
        _, _, opened, tested, thenCoded, endOpened, closed, elseCoded, endClosed, rfl⟩
      have last := (close_label_numbered .endIf endClosed).grows.texts.length_le
      have skipped := ((close_label_numbered .otherwise closed).append
        (stmts_numbered elseBody elseCoded)).grows.texts.length_le
      have joined := (open_label_numbered .endIf endOpened).grows.texts.length_le
      have taken := (stmts_numbered thenBody thenCoded).grows.texts.length_le
      simp only [resolved_append]
      refine ⟨⟨⟨⟨⟨(expr_resolved tested).mono (by simp +contextual) (by omega),
        jump_if_false_resolved (by simp)⟩,
        (stmts_resolved below thenBody thenCoded).mono (by simp +contextual) (by omega)⟩, ?_⟩,
        (stmts_resolved below elseBody elseCoded).mono (by simp +contextual) last⟩, ?_⟩
      · simp
      · simp
  | .whileDo _ _ _ body, _, _, _, generated => by
      rcases while_inv generated with
        ⟨number, _, test, bodyCode, _, _, _, opened, tested, coded, closed, rfl⟩
      have grown := (close_label_numbered .loop closed).grows.texts.length_le
      have earlier := (stmts_numbered body coded).grows.texts.length_le
      simp only [resolved_append]
      refine ⟨⟨⟨⟨?_, (expr_resolved tested).mono (by simp +contextual)
        (Nat.le_trans earlier grown)⟩, jump_if_false_resolved (by simp)⟩,
        (stmts_resolved below body coded).mono (by simp +contextual) grown⟩, ?_⟩
      · simp
      · simp
  | .read _ _, _, _, _, generated => by
      rcases read_inv generated with ⟨inner, coded, rfl⟩
      simp only [resolved_append]
      exact ⟨(reads_resolved coded).mono (by simp +contextual) (Nat.le_refl _),
        by simp [callRoutine]⟩
  | .write _ _, _, _, _, generated => by
      rcases write_inv generated with ⟨inner, coded, rfl⟩
      simp only [resolved_append]
      exact ⟨(writes_resolved coded).mono (by simp +contextual) (Nat.le_refl _),
        by simp [callRoutine]⟩
  | .block _ body, _, _, _, generated => stmts_resolved below body generated

theorem stmts_resolved (below : env.CallsBelow procedures) :
    ∀ (body : List Stmt) {supply after : Supply} {code : Code},
    env.stmts body supply = (.ok code, after) →
      Resolved (labels code) after.texts.length procedures code
  | [], _, _, _, generated => by
      rcases stmts_nil_inv generated with ⟨rfl, rfl⟩
      exact resolved_nil
  | first :: rest, _, _, _, generated => by
      rcases stmts_cons_inv generated with ⟨_, _, _, coded, more, rfl⟩
      exact (resolved_composes.joined ⟨stmt_numbered first coded, stmt_resolved below first coded⟩
        ⟨stmts_numbered rest more, stmts_resolved below rest more⟩).2

end

theorem procedures_resolved {program : Program} {blocks : List Block} {codes : List Code}
    (within : ∀ block ∈ blocks, block ∈ program.procedureBlocks)
    (generated : codeBlocks program blocks supply = (.ok codes, after)) :
    ∀ code ∈ codes, code.getLast? = some (line .ret) ∧
      Resolved (labels code) after.texts.length program.procedures.length code := by
  induction blocks generalizing supply codes with
  | nil =>
      rcases blocks_nil_inv generated with ⟨rfl, rfl⟩
      exact fun code member => absurd member List.not_mem_nil
  | cons first rest ih =>
      rcases blocks_cons_inv generated with ⟨body, others, middle, coded, more, rfl⟩
      obtain ⟨names, numbered, _⟩ := blocks_numbered more
      have grown := numbered.grows.texts.length_le
      have listed := within first List.mem_cons_self
      have known := block_calls_below (List.mem_append_left _ listed)
      have bodyResolved := stmts_resolved known _ coded
      obtain ⟨earlier, own, later, _, rfl⟩ := mem_procedure_blocks.1 listed
      rintro code member
      rcases List.mem_cons.1 member with rfl | member
      · refine ⟨List.getLast?_concat, ?_⟩
        simp only [Block.opening, Block.closing, resolved_append]
        exact ⟨⟨⟨by simp, prologue_resolved _ _⟩, bodyResolved.mono (by simp +contextual) grown⟩,
          by simp⟩
      · exact ih (fun block inside => within block (List.mem_cons_of_mem _ inside)) more code member

namespace Listing

/-- The pieces of code that control enters by a call or at the start. -/
def pieces (listing : Listing) : List Code :=
  (header ++ listing.main ++ [line .ret]) :: listing.procedures

def data (listing : Listing) : Code :=
  labelled .variables (.reserve listing.cells) :: textLines listing.texts ++
    [labelled .buffer (.reserve bufferCells), line .finish]

theorem lines_eq (listing : Listing) :
    listing.lines = listing.pieces.flatten ++ listing.data := by
  simp [lines, pieces, data]

/-- Every label is defined once, by its name; what a line mentions is defined;
calls are of procedures of the listing or of support routines; jumps stay in
their piece, and each piece ends with a return. -/
structure Closed (listing : Listing) : Prop where
  once : ((listing.lines.map Line.labelText).filter (· ≠ "")).Nodup
  defined : ∀ line ∈ listing.lines, ∀ label ∈ line.op.mentions,
    label.name ∈ listing.lines.map Line.labelText
  calls : ∀ line ∈ listing.lines, ∀ callee, line.op = .call callee →
    callee.name ∈ Routine.all.map Routine.name ∨
      callee.name ∈ listing.procedures.flatten.map Line.labelText
  jumps : ∀ piece ∈ listing.pieces, ∀ line ∈ piece, ∀ condition target,
    line.op = .jump condition target → target.name ∈ piece.map Line.labelText
  returns : ∀ piece ∈ listing.pieces, piece.getLast? = some (line .ret)

end Listing

theorem text_line_labels {texts : List String} {number : Nat} (below : number < texts.length) :
    .text number ∈ labels (Listing.textLines texts) := by
  rw [labels_text_lines]
  exact List.mem_map_of_mem (List.mem_range.2 below)

theorem procedure_label {program : Program} {listing : Listing}
    (generated : Listing.ofProgram program = .ok listing) {number : Nat}
    (below : number < program.procedures.length) :
    .procedure number ∈ labels listing.procedures.flatten := by
  rcases listing_inv generated with ⟨_, _, coded, _⟩
  obtain ⟨names, _, same⟩ := blocks_numbered coded
  rw [same.mem_iff, List.mem_append, procedure_blocks_current]
  exact .inl (List.mem_map_of_mem (List.mem_range.mpr below))

theorem pieces_resolved {program : Program} {listing : Listing}
    (generated : Listing.ofProgram program = .ok listing) :
    Resolved (labels listing.main) listing.texts.length program.procedures.length listing.main ∧
      ∀ code ∈ listing.procedures, code.getLast? = some (line .ret) ∧
        Resolved (labels code) listing.texts.length program.procedures.length code := by
  rcases listing_inv generated with ⟨middle, last, proceduresCoded, mainCoded, _, entered⟩
  have known : (Block.env program .main).CallsBelow program.procedures.length :=
    block_calls_below (mem_blocks.mpr (.inr rfl))
  have grown := (stmts_numbered program.body mainCoded).grows.texts.length_le
  rw [entered]
  refine ⟨stmts_resolved known program.body mainCoded, ?_⟩
  intro code member
  obtain ⟨returns, resolved⟩ :=
    procedures_resolved (fun _ inside => inside) proceduresCoded code member
  exact ⟨returns, resolved.mono (fun _ known => known) grown⟩

theorem data_resolved (listing : Listing) (names : List Label) (texts procedures : Nat) :
    Resolved names texts procedures listing.data := by
  have entered : Resolved names texts procedures (Listing.textLines listing.texts) := by
    intro line member
    obtain ⟨entry, _, rfl⟩ := List.mem_map.1 member
    simp
  simp [Listing.data, entered]

theorem lines_resolved {program : Program} {listing : Listing}
    (generated : Listing.ofProgram program = .ok listing) :
    ∃ rest, listing.lines = Listing.header ++ rest ∧
      Resolved (labels listing.lines) listing.texts.length program.procedures.length rest := by
  obtain ⟨mainResolved, procedures⟩ := pieces_resolved generated
  have flattened : Resolved (labels listing.procedures.flatten) listing.texts.length
      program.procedures.length listing.procedures.flatten := by
    intro line member
    obtain ⟨code, listed, among⟩ := List.mem_flatten.1 member
    refine (procedures code listed).2.mono (fun label known => ?_) (Nat.le_refl _) line among
    obtain ⟨defining, within, named⟩ := List.mem_filterMap.1 known
    exact List.mem_filterMap.2 ⟨defining, List.mem_flatten.2 ⟨code, listed, within⟩, named⟩
  refine ⟨listing.main ++ [line .ret] ++ listing.procedures.flatten ++ listing.data, ?_, ?_⟩
  · simp [Listing.lines, Listing.data]
  · simp only [resolved_append]
    exact ⟨⟨⟨mainResolved.mono (by simp +contextual [Listing.lines]) (Nat.le_refl _), by simp⟩,
      flattened.mono (by simp +contextual [Listing.lines]) (Nat.le_refl _)⟩,
      data_resolved listing _ _ _⟩

theorem shared_defined {program : Program} {listing : Listing}
    (generated : Listing.ofProgram program = .ok listing) {label : Label}
    (shared : Shared listing.texts.length program.procedures.length label) :
    label ∈ labels listing.lines := by
  cases label with
  | text number => simp [Listing.lines, text_line_labels shared]
  | procedure number => simp [Listing.lines, procedure_label generated shared]
  | _ => first | exact absurd shared id | simp [Listing.lines]

theorem target_mentioned {op : Op} {target : Label} (goes : op.target? = some target) :
    op.mentions = [target] := by
  cases op <;> cases goes
  rfl

theorem header_mentions {line : Line} (member : line ∈ Listing.header) :
    line.op.target? = none ∧ (∀ callee, line.op ≠ .call callee) ∧
      ∀ label ∈ line.op.mentions, label = .entry ∨ label = .buffer := by
  simp only [Listing.header, List.mem_cons, List.not_mem_nil, or_false] at member
  rcases member with rfl | rfl | rfl <;> simp [direct, symbol]

theorem mention_defined {program : Program} {listing : Listing}
    (generated : Listing.ofProgram program = .ok listing) {line : Line}
    (member : line ∈ listing.lines) {label : Label} (mentioned : label ∈ line.op.mentions) :
    label ∈ labels listing.lines := by
  obtain ⟨rest, split, resolved⟩ := lines_resolved generated
  rcases List.mem_append.1 (split ▸ member) with inHeader | inRest
  · rcases (header_mentions inHeader).2.2 label mentioned with rfl | rfl
    · simp [Listing.lines, Listing.header]
    · simp [Listing.lines]
  · obtain ⟨jumps, others⟩ := resolved line inRest
    cases goes : line.op.target? with
    | some target =>
        rw [target_mentioned goes, List.mem_singleton] at mentioned
        exact mentioned ▸ jumps target goes
    | none => exact shared_defined generated (others goes label mentioned)

theorem call_known {program : Program} {listing : Listing}
    (generated : Listing.ofProgram program = .ok listing) {line : Line}
    (member : line ∈ listing.lines) {callee : Callee} (called : line.op = .call callee) :
    callee.name ∈ Routine.all.map Routine.name ∨
      callee.name ∈ listing.procedures.flatten.map Line.labelText := by
  cases callee with
  | routine served => exact .inl (List.mem_map_of_mem (by cases served <;> decide))
  | procedure number =>
      obtain ⟨rest, split, resolved⟩ := lines_resolved generated
      rcases List.mem_append.1 (split ▸ member) with inHeader | inRest
      · exact absurd called ((header_mentions inHeader).2.1 _)
      · have shared := (resolved line inRest).2 (by rw [called]; rfl) (.procedure number)
          (by rw [called]; exact List.mem_cons_self)
        exact .inr (label_text_of_mem (procedure_label generated shared))

theorem jump_within {names : List Label} {texts procedures : Nat} {piece : Code}
    (resolved : Resolved names texts procedures piece) {line : Line} (member : line ∈ piece)
    {condition : Condition} {target : Label} (jumps : line.op = .jump condition target) :
    target ∈ names :=
  (resolved line member).1 target (by rw [jumps]; rfl)

/-- Code is closed under its labels: a listing defines each label once and every
label it mentions, calls only its own procedures and support routines, and
keeps control in each piece of code until a call or the return at its end. -/
theorem listing_closed (program : Program) (listing : Listing)
    (generated : Listing.ofProgram program = .ok listing) :
    listing.lines = listing.pieces.flatten ++ listing.data ∧ listing.Closed := by
  obtain ⟨mainResolved, procedures⟩ := pieces_resolved generated
  refine ⟨listing.lines_eq, ?_, ?_, ?_, ?_, ?_⟩
  · rw [label_texts]
    exact (listing_labels_distinct generated).map Label.name_injective
  · exact fun line member label mentioned =>
      label_text_of_mem (mention_defined generated member mentioned)
  · exact fun line member callee called => call_known generated member called
  · intro piece member line among condition target jumps
    apply label_text_of_mem
    rcases List.mem_cons.1 member with rfl | member
    · simp only [List.mem_append, List.mem_singleton] at among
      rcases among with (inHeader | inMain) | rfl
      · have idle := (header_mentions inHeader).1
        rw [jumps] at idle
        cases idle
      · simp [jump_within mainResolved inMain jumps]
      · cases jumps
    · exact jump_within (procedures piece member).2 among jumps
  · intro piece member
    rcases List.mem_cons.1 member with rfl | member
    · exact List.getLast?_concat
    · exact (procedures piece member).1

/-- A loop over a branch with two comparisons in a procedure that calls itself
and writes a text. -/
def branching : Program where
  name := "branching"
  line := 1
  vars := []
  procedures := [{
    name := "descend"
    line := 2
    params := [⟨"depth", 2, .integer⟩]
    vars := []
    bodyLine := 3
    body := [
      .whileDo 4 (.binary 4 .greater (.simple 4 "depth") (.number 4 0)) 4 [
        .ifElse 5 (.binary 5 .equal (.simple 5 "depth") (.number 5 1)) 5
          [.write 6 [.string 6 "end"]] 7
          [.call 8 "descend" [.binary 8 .div (.simple 8 "depth") (.number 8 2)]],
        .assign 9 (.simple 9 "depth") (.number 9 0)]] }]
  bodyLine := 10
  body := [.ifThen 11 (.truth 11 true) 11 [.call 12 "descend" [.number 12 9]]]

theorem branching_listing_closed :
    ∃ listing, Listing.ofProgram branching = .ok listing ∧ listing.lines.length = 86 ∧
      listing.Closed := by
  have counted : (Listing.ofProgram branching).map (fun listing => listing.lines.length) =
      .ok 86 := by decide +kernel
  obtain ⟨listing, generated, length⟩ := except_map_ok.1 counted
  exact ⟨listing, generated, length, (listing_closed branching listing generated).2⟩

end PascalCasl
