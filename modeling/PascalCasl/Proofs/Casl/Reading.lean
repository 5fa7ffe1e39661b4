import Mathlib.Data.List.TakeWhile
import PascalCasl.Casl.Render
import PascalCasl.Proofs.Code.Closure
import PascalCasl.Proofs.Text.Lines
import PascalCasl.Proofs.Token.Quoted

/-!
Assembly text read back. Names, numbers and constants are told apart by their
first character, and only the last operand of a line may hold a comma; so every
operation is read back from its mnemonic and the text of its operands. A line is
read back from its columns if none of them holds a tab, and code from its text
if no line holds a line feed.
-/

namespace PascalCasl.Casl

def Register.all : List Register := [.gr0, .gr1, .gr2, .gr3, .gr4, .gr5, .gr6, .gr7, .gr8]

def Register.read? (text : List Char) : Option Register :=
  all.find? fun register => register.name.toList = text

def Label.read? (text : List Char) : Option Label :=
  ofStem? (String.ofList (text.takeWhile fun c => !c.isDigit))
    ((Text.digitsValue? (text.dropWhile fun c => !c.isDigit)).getD 0)

def readInteger? : List Char → Option Int
  | '-' :: digits => (Text.digitsValue? digits).map fun magnitude => -(magnitude : Int)
  | digits => (Text.digitsValue? digits).map Int.ofNat

/-- What is no number is a name. -/
def Base.read? (text : List Char) : Option Base :=
  match readInteger? text with
  | some value => some (.number value)
  | none => (Label.read? text).map .label

def firstOperand (text : List Char) : List Char := text.takeWhile (· ≠ ',')

/-- What stands behind the first comma and the blank after it. -/
def laterOperands (text : List Char) : List Char := (text.dropWhile (· ≠ ',')).drop 2

def Address.read? (text : List Char) : Option Address :=
  (Base.read? (firstOperand text)).bind fun base =>
    if (laterOperands text).isEmpty then some ⟨base, none⟩
    else (Register.read? (laterOperands text)).map fun register => ⟨base, some register⟩

def Literal.read? : List Char → Option Literal
  | '#' :: digits => some (.truth (digits = ['F', 'F', 'F', 'F']))
  | '\'' :: rest =>
      ((Text.unquoted? (String.ofList ('\'' :: rest))).bind fun text => text.toList.head?).map
        .character
  | digits => (readInteger? digits).map .number

/-- No label begins with the letter of the registers. -/
def Source.read? : List Char → Option Source
  | '=' :: constant => (Literal.read? constant).map .literal
  | 'G' :: rest => (Register.read? ('G' :: rest)).map .register
  | text => (Address.read? text).map .memory

def Callee.read? (text : List Char) : Option Callee :=
  match Routine.all.find? fun called => called.name.toList = text with
  | some called => some (.routine called)
  | none => (Label.read? text).map fun label => .procedure label.number

def withRegister {α : Type} (make : Register → α → Op) (read? : List Char → Option α)
    (operands : List Char) : Option Op :=
  (Register.read? (firstOperand operands)).bind fun register =>
    (read? (laterOperands operands)).map (make register)

/-- How the operands of an operation are read, by its mnemonic. -/
def Op.readers : List (String × (List Char → Option Op)) :=
  [("LD", withRegister .load Source.read?), ("ST", withRegister .store Address.read?),
    ("LAD", withRegister .loadAddress Address.read?),
    ("CPA", withRegister .compareSigned Source.read?),
    ("CPL", withRegister .compareUnsigned Source.read?),
    ("PUSH", fun operands => (Address.read? operands).map .push),
    ("POP", fun operands => (Register.read? operands).map .pop),
    ("CALL", fun operands => (Callee.read? operands).map .call),
    ("RET", fun _ => some .ret), ("NOP", fun _ => some .nop), ("END", fun _ => some .finish),
    ("START", fun operands => (Label.read? operands).map .start),
    ("DS", fun operands => (Text.digitsValue? operands).map .reserve),
    ("DC", fun operands => (Text.unquoted? (String.ofList operands)).map .text)] ++
  ([.add, .subtract, .and, .or, .xor].map fun operation =>
    (operation.mnemonic, withRegister (.compute operation) Source.read?)) ++
  [.always, .zero, .nonzero, .minus, .plus].map fun condition =>
    (condition.mnemonic, fun operands => (Label.read? operands).map (.jump condition))

def Op.read? (mnemonic : String) (operands : List Char) : Option Op :=
  (Op.readers.lookup mnemonic).bind fun read? => read? operands

@[simp] theorem Register.read_name (register : Register) :
    Register.read? register.name.toList = some register := by
  cases register <;> decide

theorem Register.name_chars (register : Register) :
    ',' ∉ register.name.toList ∧ ∃ rest, register.name.toList = 'G' :: rest := by
  cases register <;> exact ⟨by decide, _, rfl⟩

@[simp] theorem Label.read_name (label : Label) : Label.read? label.name.toList = some label :=
  label.of_name

theorem Label.name_head (label : Label) :
    ∃ first rest, label.name.toList = first :: rest ∧ first.isDigit = false ∧
      first ∉ ['-', '=', 'G'] := by
  have stem : (label.stem.toList.head?.any fun c => !c.isDigit && c ∉ ['-', '=', 'G']) = true := by
    cases label <;> (simp only [Label.stem]; decide)
  rw [Label.name_chars]
  cases spelled : label.stem.toList with
  | nil => simp [spelled] at stem
  | cons first rest =>
      rw [spelled, List.head?_cons, Option.any_some, Bool.and_eq_true, Bool.not_eq_true',
        decide_eq_true_eq] at stem
      exact ⟨first, rest ++ label.numeral, rfl, stem⟩

theorem Label.name_alphanumeric (label : Label) : ∀ c ∈ label.name.toList, c.isAlphanum := by
  have stem : (label.stem.toList.all Char.isAlphanum) = true := by
    cases label <;> (simp only [Label.stem]; decide)
  rw [Label.name_chars]
  refine List.forall_mem_append.mpr ⟨List.all_eq_true.mp stem, fun c among => ?_⟩
  rw [Char.isAlphanum, label.numeral_digits c among, Bool.or_true]

theorem integer_head (value : Int) :
    ∃ first rest, value.repr.toList = first :: rest ∧ (first.isDigit ∨ first = '-') ∧
      ∀ c ∈ rest, c.isDigit := by
  cases value with
  | ofNat magnitude =>
      obtain ⟨first, rest, spelled⟩ := List.exists_cons_of_ne_nil (Text.repr_ne_nil magnitude)
      have digits : ∀ c ∈ first :: rest, c.isDigit := fun c among =>
        Text.digit_of_repr (spelled ▸ among)
      exact ⟨first, rest, spelled, .inl (digits first List.mem_cons_self),
        fun c among => digits c (List.mem_cons_of_mem first among)⟩
  | negSucc magnitude =>
      exact ⟨'-', magnitude.succ.repr.toList, by simp [Int.repr], .inr rfl,
        fun c among => Text.digit_of_repr among⟩

@[simp] theorem read_integer (value : Int) : readInteger? value.repr.toList = some value := by
  cases value with
  | ofNat magnitude =>
      have unsigned : ∀ digits, magnitude.repr.toList ≠ '-' :: digits := by
        intro digits same
        have sign := Text.digit_of_repr (same ▸ List.mem_cons_self)
        exact absurd sign (by decide)
      have spelled : (Int.ofNat magnitude).repr.toList = magnitude.repr.toList := rfl
      rw [spelled, readInteger?, Text.digits_value_repr]
      · rfl
      · exact unsigned
  | negSucc magnitude =>
      have spelled : (Int.negSucc magnitude).repr.toList = '-' :: magnitude.succ.repr.toList := by
        simp [Int.repr]
      rw [spelled, readInteger?, Text.digits_value_repr]
      rfl

@[simp] theorem Base.read_render (base : Base) : Base.read? base.render.toList = some base := by
  cases base with
  | number value => rw [Base.render, Base.read?, read_integer]
  | label named =>
      have name : readInteger? named.name.toList = none := by
        obtain ⟨first, rest, spelled, letter, other⟩ := named.name_head
        rw [spelled, readInteger?, Text.digitsValue?]
        · simp [Text.isDigits, letter]
        · rintro _ same
          cases same
          simp at other
      rw [Base.render, Base.read?, name, Label.read_name]
      rfl

theorem Base.render_whole (base : Base) : ',' ∉ base.render.toList := by
  cases base with
  | number value =>
      obtain ⟨first, rest, spelled, begins, digits⟩ := integer_head value
      rw [Base.render, spelled, List.mem_cons, not_or]
      refine ⟨?_, fun among => absurd (digits _ among) (by decide)⟩
      rintro rfl
      exact absurd begins (by decide)
  | label named => exact fun among => absurd (named.name_alphanumeric _ among) (by decide)

section

variable {first : List Char} (whole : ',' ∉ first)

include whole

theorem before_comma : ∀ c ∈ first, decide (c ≠ ',') = true := by
  intro c among
  simpa using fun same : c = ',' => whole (same ▸ among)

theorem operands_split (rest : List Char) :
    firstOperand (first ++ ',' :: ' ' :: rest) = first ∧
      laterOperands (first ++ ',' :: ' ' :: rest) = rest := by
  rw [firstOperand, laterOperands, List.takeWhile_append_of_pos (before_comma whole),
    List.dropWhile_append_of_pos (before_comma whole)]
  simp

theorem operand_alone : firstOperand first = first ∧ laterOperands first = [] := by
  rw [firstOperand, laterOperands, List.takeWhile_eq_self_iff.mpr (before_comma whole),
    List.dropWhile_eq_nil_iff.mpr (before_comma whole)]
  exact ⟨rfl, rfl⟩

end

def operandText (operands : List String) : List Char := (", ".intercalate operands).toList

@[simp] theorem operand_text_one (operand : String) : operandText [operand] = operand.toList := by
  simp [operandText]

theorem operand_text_more (operand next : String) (operands : List String) :
    operandText (operand :: next :: operands) =
      operand.toList ++ ',' :: ' ' :: operandText (next :: operands) := by
  simp [operandText]

@[simp] theorem Address.read_operands (address : Address) :
    Address.read? (operandText address.operands) = some address := by
  have whole := address.base.render_whole
  rcases address with ⟨base, _ | register⟩
  · have text : operandText (Address.operands ⟨base, none⟩) = base.render.toList :=
      operand_text_one _
    rw [text, Address.read?, (operand_alone whole).1, (operand_alone whole).2, base.read_render]
    rfl
  · have text : operandText (Address.operands ⟨base, some register⟩) =
        base.render.toList ++ ',' :: ' ' :: register.name.toList := by
      rw [← operand_text_one register.name]
      exact operand_text_more _ _ _
    obtain ⟨_, rest, spelled⟩ := register.name_chars
    rw [text, Address.read?, (operands_split whole _).1, (operands_split whole _).2,
      base.read_render, Option.bind_some, register.read_name, spelled]
    rfl

theorem Literal.read_render (literal : Literal) :
    ∃ constant, literal.render.toList = '=' :: constant ∧
      Literal.read? constant = some literal := by
  cases literal with
  | number value =>
      refine ⟨value.repr.toList, by simp [Literal.render], ?_⟩
      obtain ⟨first, rest, spelled, begins, _⟩ := integer_head value
      have read := read_integer value
      rw [spelled] at read ⊢
      -- a digit or a sign opens neither a truth value nor a character
      rw [Literal.read?, read]
      · rfl
      · rintro _ same
        cases same
        exact absurd begins (by decide)
      · rintro _ same
        cases same
        exact absurd begins (by decide)
  | truth value => cases value <;> exact ⟨_, rfl, by decide⟩
  | character value =>
      refine ⟨(Text.quoted (String.singleton value)).toList, by simp [Literal.render], ?_⟩
      -- the reader splits off the first quote, so it is split off in the round trip
      have unquoted := Text.unquoted_quoted (String.singleton value)
      rw [← String.ofList_toList (s := Text.quoted _), Text.quoted_chars] at unquoted
      rw [Text.quoted_chars]
      simp only [Text.quoteMark] at unquoted ⊢
      rw [Literal.read?, unquoted]
      simp

theorem Base.render_head (base : Base) :
    ∃ first rest, base.render.toList = first :: rest ∧ first ≠ '=' ∧ first ≠ 'G' := by
  cases base with
  | number value =>
      obtain ⟨first, rest, spelled, begins, _⟩ := integer_head value
      refine ⟨first, rest, spelled, ?_, ?_⟩ <;>
      · rintro rfl
        exact absurd begins (by decide)
  | label named =>
      obtain ⟨first, rest, spelled, _, other⟩ := named.name_head
      simp only [List.mem_cons, List.not_mem_nil, or_false, not_or] at other
      exact ⟨first, rest, spelled, other.2⟩

theorem Address.operands_head (address : Address) :
    ∃ first rest, operandText address.operands = first :: rest ∧ first ≠ '=' ∧ first ≠ 'G' := by
  obtain ⟨first, rest, spelled, apart⟩ := address.base.render_head
  rcases address with ⟨base, _ | register⟩
  · exact ⟨first, rest, (operand_text_one _).trans spelled, apart⟩
  · refine ⟨first, rest ++ ',' :: ' ' :: operandText [register.name], ?_, apart⟩
    rw [← List.cons_append, ← spelled]
    exact operand_text_more _ _ _

@[simp] theorem Source.read_operands (source : Source) :
    Source.read? (operandText source.operands) = some source := by
  cases source with
  | register register =>
      obtain ⟨_, rest, spelled⟩ := register.name_chars
      have read := register.read_name
      rw [Source.operands, operand_text_one, spelled]
      rw [spelled] at read
      rw [Source.read?, read]
      rfl
  | memory address =>
      obtain ⟨first, rest, spelled, notMark, notRegister⟩ := address.operands_head
      have read := address.read_operands
      rw [Source.operands, spelled]
      rw [spelled] at read
      rw [Source.read?, read]
      · rfl
      · rintro _ same
        exact notMark (List.cons.inj same).1
      · rintro _ same
        exact notRegister (List.cons.inj same).1
  | literal value =>
      obtain ⟨constant, spelled, read⟩ := value.read_render
      rw [Source.operands, operand_text_one, spelled, Source.read?, read]
      rfl

@[simp] theorem Callee.read_name (callee : Callee) :
    Callee.read? callee.name.toList = some callee := by
  cases callee with
  | routine called => cases called <;> decide
  | procedure number =>
      -- no routine begins like a procedure
      have heads : ∀ called ∈ Routine.all, called.name.toList.head? ≠ some 'P' := by decide
      have other : (Routine.all.find? fun called =>
          called.name.toList = (Label.procedure number).name.toList) = none := by
        rw [List.find?_eq_none]
        intro called listed same
        rw [decide_eq_true_eq, Label.name_chars] at same
        exact heads called listed (by simp [same, Label.stem])
      rw [Callee.name, Callee.read?, other, Label.read_name]
      rfl

theorem Source.operands_ne_nil (source : Source) : source.operands ≠ [] := by
  cases source <;> exact List.cons_ne_nil _ _

theorem with_register {α : Type} {make : Register → α → Op} {read? : List Char → Option α}
    {value : α} (register : Register) (operands : List String) (some_operand : operands ≠ [])
    (read : read? (operandText operands) = some value) :
    withRegister make read? (operandText (register.name :: operands)) =
      some (make register value) := by
  obtain ⟨next, others, rfl⟩ := List.exists_cons_of_ne_nil some_operand
  have whole := register.name_chars.1
  rw [operand_text_more, withRegister, (operands_split whole _).1, (operands_split whole _).2,
    register.read_name, Option.bind_some, read]
  rfl

theorem Op.read_columns (op : Op) : Op.read? op.mnemonic (operandText op.operands) = some op := by
  have located (make : Register → Address → Op) (register : Register) (address : Address) :
      withRegister make Address.read? (operandText (register.name :: address.operands)) =
        some (make register address) :=
    with_register register address.operands (List.cons_ne_nil _ _) address.read_operands
  have taken (make : Register → Source → Op) (register : Register) (source : Source) :
      withRegister make Source.read? (operandText (register.name :: source.operands)) =
        some (make register source) :=
    with_register register source.operands source.operands_ne_nil source.read_operands
  cases op with
  | compute operation register source =>
      cases operation <;>
        simp [Op.read?, Op.readers, List.lookup_cons, Op.mnemonic, Arithmetic.mnemonic, Op.operands,
          taken]
  | jump condition target =>
      -- the mnemonics of the operations before it in the table are passed over by name
      cases condition <;>
        simp [Op.read?, Op.readers, List.lookup_cons, Op.mnemonic, Arithmetic.mnemonic,
          Condition.mnemonic, Op.operands]
  | text characters =>
      have read : Text.unquoted? (String.ofList (operandText [Text.quoted characters])) =
          some characters := by
        rw [operand_text_one, String.ofList_toList, Text.unquoted_quoted]
      simp [Op.read?, Op.readers, List.lookup_cons, Op.mnemonic, Op.operands, -operand_text_one,
        read]
  | reserve cells =>
      have read : Text.digitsValue? (operandText [cells.repr]) = some cells := by
        rw [operand_text_one, Text.digits_value_repr]
      simp [Op.read?, Op.readers, List.lookup_cons, Op.mnemonic, Op.operands, -operand_text_one,
        read]
  | _ => simp [Op.read?, Op.readers, List.lookup_cons, Op.mnemonic, Op.operands, located, taken]

/-- Nothing that ends a column or a line. -/
def Solid (text : List Char) : Prop := '\t' ∉ text ∧ '\n' ∉ text

instance (text : List Char) : Decidable (Solid text) :=
  inferInstanceAs (Decidable ('\t' ∉ text ∧ '\n' ∉ text))

theorem not_mem_intercalate {c : Char} {separator : String} {parts : List String}
    (apart : c ∉ separator.toList) (outside : ∀ part ∈ parts, c ∉ part.toList) :
    c ∉ (separator.intercalate parts).toList := by
  induction parts with
  | nil => simp
  | cons first rest ih =>
      rcases List.forall_mem_cons.mp outside with ⟨head, tail⟩
      cases rest with
      | nil => simpa using head
      | cons next others =>
          rw [String.intercalate_cons_cons, String.toList_append, String.toList_append,
            List.mem_append, List.mem_append, not_or, not_or]
          exact ⟨⟨head, apart⟩, ih tail⟩

namespace Line

/-- The text of a line without its line feed. -/
def text (line : Line) : List Char := ("\t".intercalate line.columns).toList

def ofColumns? (label mnemonic operands : List Char) : Option Line :=
  (Op.read? (String.ofList mnemonic) operands).bind fun op =>
    if label.isEmpty then some ⟨none, op⟩ else (Label.read? label).map fun named => ⟨some named, op⟩

def read? (text : List Char) : Option Line :=
  match Text.columns text with
  | [label, mnemonic] => ofColumns? label mnemonic []
  | [label, mnemonic, operands] => ofColumns? label mnemonic operands
  | _ => none

end Line

def Code.read? (text : String) : Option Code :=
  (Text.pieces '\n' text.toList).dropLast.mapM Line.read?

namespace Line

variable {line : Line}

theorem of_columns (line : Line) :
    ofColumns? line.labelText.toList line.op.mnemonic.toList (operandText line.op.operands) =
      some line := by
  rw [ofColumns?, String.ofList_toList, Op.read_columns, Option.bind_some]
  rcases line with ⟨_ | label, op⟩
  · rfl
  · obtain ⟨first, rest, spelled, _⟩ := label.name_head
    have named : (labelText ⟨some label, op⟩).toList = label.name.toList := rfl
    rw [named, Label.read_name, spelled]
    rfl

theorem columns_ne_nil (line : Line) : line.columns ≠ [] := by
  unfold columns
  split <;> exact List.cons_ne_nil _ _

theorem text_columns (solid : ∀ column ∈ line.columns, Solid column.toList) :
    Text.columns line.text = line.columns.map String.toList := by
  have tab : "\t".toList = ['\t'] := rfl
  rw [text, String.toList_intercalate, Text.columns, Text.pieces_eq_split, tab,
    List.splitOn_intercalate]
  · intro column member
    obtain ⟨original, listed, rfl⟩ := List.mem_map.mp member
    exact (solid original listed).1
  · simpa using line.columns_ne_nil

theorem text_whole (solid : ∀ column ∈ line.columns, Solid column.toList) : '\n' ∉ line.text :=
  not_mem_intercalate (by decide) fun column member => (solid column member).2

theorem read_text (solid : ∀ column ∈ line.columns, Solid column.toList) :
    read? line.text = some line := by
  have read := of_columns line
  rw [read?, text_columns solid, columns]
  cases operands : line.op.operands with
  | nil =>
      rw [operands] at read
      exact read
  | cons first rest =>
      rw [operands] at read
      exact read

end Line

variable {code : Code}

theorem Code.render_lines (solid : ∀ line ∈ code, ∀ column ∈ line.columns, Solid column.toList) :
    Text.pieces '\n' (Code.render code).toList = code.map Line.text ++ [[]] := by
  induction code with
  | nil => rfl
  | cons first rest ih =>
      rcases List.forall_mem_cons.mp solid with ⟨head, tail⟩
      have split : (Code.render (first :: rest)).toList =
          first.text ++ '\n' :: (Code.render rest).toList := by
        simp [Code.render, Line.render, Line.text]
      rw [split, Text.pieces_append (Line.text_whole head), ih tail]
      rfl

/-- Code whose columns are solid is read back from its text. -/
theorem Code.read_render (solid : ∀ line ∈ code, ∀ column ∈ line.columns, Solid column.toList) :
    Code.read? (Code.render code) = some code := by
  rw [Code.read?, Code.render_lines solid, List.dropLast_concat]
  induction code with
  | nil => rfl
  | cons first rest ih =>
      rcases List.forall_mem_cons.mp solid with ⟨head, tail⟩
      rw [List.map_cons, List.mapM_cons, Line.read_text head, ih tail]
      rfl

end PascalCasl.Casl
