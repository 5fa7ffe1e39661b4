import PascalCasl.Proofs.Casl.Reading
import PascalCasl.Proofs.Literals.Table

/-!
The text of a listing. What the user wrote reaches an operand only as a constant
or as a text of the table, and both come from string tokens, which hold no tab
and no line feed. All else in a line is letters, digits and a few marks. So the
text falls apart into the lines and columns that it was put together from, and
the listing is read back from it.
-/

namespace PascalCasl

open Casl

theorem solid_of_alphanumeric {text : List Char} (plain : ∀ c ∈ text, c.isAlphanum) :
    Solid text :=
  ⟨fun among => absurd (plain _ among) (by decide), fun among => absurd (plain _ among) (by decide)⟩

@[simp] theorem solid_append {first second : List Char} :
    Solid (first ++ second) ↔ Solid first ∧ Solid second := by
  simp only [Solid, List.mem_append, not_or]
  exact and_and_and_comm

theorem solid_quoted {text : String} : Solid (Text.quoted text).toList ↔ Solid text.toList := by
  simp [Solid, Text.quoteMark, Text.mem_doubled]

theorem solid_number (value : Nat) : Solid value.repr.toList :=
  solid_of_alphanumeric fun c among => by
    rw [Char.isAlphanum, Text.digit_of_repr among, Bool.or_true]

theorem solid_integer (value : Int) : Solid value.repr.toList := by
  cases value with
  | ofNat magnitude => exact solid_number magnitude
  | negSucc magnitude =>
      rw [Int.repr, String.toList_append, solid_append]
      exact ⟨by decide, solid_number _⟩

theorem solid_label (label : Label) : Solid label.name.toList :=
  solid_of_alphanumeric label.name_alphanumeric

theorem solid_register (register : Register) : Solid register.name.toList := by
  cases register <;> decide

theorem solid_base (base : Base) : Solid base.render.toList := by
  cases base with
  | number value => exact solid_integer value
  | label named => exact solid_label named

theorem solid_address (address : Address) :
    ∀ operand ∈ address.operands, Solid operand.toList := by
  rcases address with ⟨base, _ | register⟩
  · simpa [Address.operands] using solid_base base
  · simpa [Address.operands] using ⟨solid_base base, solid_register register⟩

theorem solid_source {source : Source} (solid : Solid source.characters) :
    ∀ operand ∈ source.operands, Solid operand.toList := by
  rcases source with register | address | value | truth | character
  · exact List.forall_mem_singleton.mpr (solid_register register)
  · exact solid_address address
  · refine List.forall_mem_singleton.mpr ?_
    rw [Literal.render, String.toList_append, solid_append]
    exact ⟨by decide, solid_integer value⟩
  · cases truth <;> exact List.forall_mem_singleton.mpr (by decide)
  · refine List.forall_mem_singleton.mpr ?_
    rw [Literal.render, String.toList_append, solid_append, solid_quoted, String.toList_singleton]
    exact ⟨by decide, solid⟩

theorem solid_callee (callee : Callee) : Solid callee.name.toList := by
  cases callee with
  | routine called => cases called <;> decide
  | procedure number => exact solid_label (.procedure number)

theorem solid_mnemonic (op : Op) : Solid op.mnemonic.toList := by
  cases op with
  | compute operation _ _ =>
      cases operation <;> (simp only [Op.mnemonic, Arithmetic.mnemonic]; decide)
  | jump condition _ => cases condition <;> (simp only [Op.mnemonic, Condition.mnemonic]; decide)
  | _ => simp only [Op.mnemonic]; decide

/-- Nothing of what the user wrote ends a column or a line. -/
def Casl.Op.UserSolid (op : Op) : Prop :=
  Solid op.characters ∧ ∀ text, op.text? = some text → Solid text.toList

theorem solid_operands {op : Op} (solid : op.UserSolid) :
    ∀ operand ∈ op.operands, Solid operand.toList := by
  cases op with
  | load register source =>
      exact List.forall_mem_cons.mpr ⟨solid_register register, solid_source solid.1⟩
  | store register address =>
      exact List.forall_mem_cons.mpr ⟨solid_register register, solid_address address⟩
  | loadAddress register address =>
      exact List.forall_mem_cons.mpr ⟨solid_register register, solid_address address⟩
  | compute _ register source =>
      exact List.forall_mem_cons.mpr ⟨solid_register register, solid_source solid.1⟩
  | compareSigned register source =>
      exact List.forall_mem_cons.mpr ⟨solid_register register, solid_source solid.1⟩
  | compareUnsigned register source =>
      exact List.forall_mem_cons.mpr ⟨solid_register register, solid_source solid.1⟩
  | jump _ target => exact List.forall_mem_singleton.mpr (solid_label target)
  | push address => exact solid_address address
  | pop register => exact List.forall_mem_singleton.mpr (solid_register register)
  | call callee => exact List.forall_mem_singleton.mpr (solid_callee callee)
  | start first => exact List.forall_mem_singleton.mpr (solid_label first)
  | reserve cells => exact List.forall_mem_singleton.mpr (solid_number cells)
  | text characters =>
      exact List.forall_mem_singleton.mpr (solid_quoted.mpr (solid.2 characters rfl))
  | ret | nop | finish => exact fun _ member => absurd member List.not_mem_nil

theorem solid_label_text (line : Line) : Solid line.labelText.toList := by
  rcases line with ⟨_ | label, op⟩
  · exact ⟨List.not_mem_nil, List.not_mem_nil⟩
  · exact solid_label label

theorem solid_columns {line : Line} (solid : line.op.UserSolid) :
    ∀ column ∈ line.columns, Solid column.toList := by
  have operands := solid_operands solid
  have joined : Solid (", ".intercalate line.op.operands).toList :=
    ⟨not_mem_intercalate (by decide) fun operand member => (operands operand member).1,
      not_mem_intercalate (by decide) fun operand member => (operands operand member).2⟩
  have label := solid_label_text line
  have mnemonic := solid_mnemonic line.op
  unfold Line.columns
  split
  · simp [label, mnemonic]
  · simp only [List.forall_mem_cons, List.not_mem_nil, false_imp_iff, implies_true, and_true]
    exact ⟨label, mnemonic, joined⟩

/-- The texts of a source that was read are solid, since its string tokens are. -/
theorem texts_solid {source : String} {tokens : List Token} {program : Program}
    (scanned : Token.scan source = .ok tokens) (parsed : Program.ofTokens tokens = .ok program) :
    ∀ text ∈ program.texts, Solid text.toList := by
  intro text member
  have written : Text.quoted text ∈ stringTexts tokens :=
    texts_scanned scanned parsed ▸ List.mem_map_of_mem member
  obtain ⟨token, among, spelled⟩ := List.mem_map.mp written
  rw [List.mem_filter, decide_eq_true_eq] at among
  obtain ⟨named, rfl, lexemes⟩ := scan_named scanned
  rcases List.mem_append.mp among.1 with inside | last
  · rw [← solid_quoted, ← spelled]
    exact (lexemes token inside).1.solid
  · rw [List.mem_singleton.mp last] at among
    cases among.2

theorem Casl.Op.Bare.user_solid {op : Op} (bare : op.Bare) : op.UserSolid := by
  rw [Op.UserSolid, bare.1, bare.2.1]
  exact ⟨by decide, nofun⟩

section

variable {program : Program} {listing : Listing}
  (generated : Listing.ofProgram program = .ok listing)
  (solid : ∀ text ∈ program.texts, Solid text.toList)

include generated solid

theorem code_user_solid :
    ∀ line ∈ listing.procedures.flatten ++ listing.main, line.op.UserSolid := by
  have delivers := listing_delivers generated
  intro line member
  have apart (c : Char) (outside : ∀ text ∈ program.texts, c ∉ text.toList) :
      c ∉ line.op.characters := by
    intro among
    have loaded : c ∈ (listing.procedures.flatten ++ listing.main).flatMap
        (fun line => line.op.characters) := List.mem_flatMap.mpr ⟨line, member, among⟩
    rw [delivers.loaded] at loaded
    obtain ⟨text, listed, inside⟩ := List.mem_flatMap.mp loaded
    have coded := List.mem_of_mem_filter listed
    exact outside text ((coded_texts_perm program).mem_iff.mp coded) inside
  refine ⟨⟨apart _ fun text listed => (solid text listed).1,
    apart _ fun text listed => (solid text listed).2⟩, ?_⟩
  rw [delivers.outside line member]
  nofun

theorem table_user_solid : ∀ line ∈ Listing.textLines listing.texts, line.op.UserSolid := by
  intro line member
  obtain ⟨⟨text, number⟩, entered, rfl⟩ := List.mem_map.mp member
  have listed : text ∈ listing.texts := List.fst_mem_of_mem_zipIdx entered
  rw [(listing_delivers generated).entered, List.nil_append] at listed
  have coded := List.mem_of_mem_filter listed
  refine ⟨⟨List.not_mem_nil, List.not_mem_nil⟩, fun other same => ?_⟩
  cases same
  exact solid text ((coded_texts_perm program).mem_iff.mp coded)

theorem lines_user_solid : ∀ line ∈ listing.lines, line.op.UserSolid := by
  have bare {code : Code} (plain : Bare code) : ∀ line ∈ code, line.op.UserSolid :=
    fun line member => (plain line member).user_solid
  obtain ⟨procedures, main⟩ := List.forall_mem_append.mp (code_user_solid generated solid)
  simp only [Listing.lines, List.forall_mem_append]
  exact ⟨⟨⟨⟨⟨⟨bare (by simp [Listing.header]), main⟩, bare (by simp)⟩, procedures⟩,
    bare (by simp)⟩, table_user_solid generated solid⟩, bare (by simp)⟩

end

theorem ended_render (code : Code) : Library.ended (Code.render code) = Code.render code := by
  rcases List.eq_nil_or_concat code with rfl | ⟨first, last, rfl⟩
  · rfl
  · have ending : (Code.render (first.concat last)).toList.getLast? = some '\n' := by
      simp [Code.render, Line.render]
    rw [Library.ended, ending]
    rfl

/-- The text of a listing loses nothing: it has a line for each line of the
listing and between its tabs the columns of that line, no column holds what
would end it, and the listing is read back. -/
structure Listing.Lossless (listing : Listing) (text : String) : Prop where
  lines : Text.pieces '\n' text.toList = listing.lines.map Line.text ++ [[]]
  columns : ∀ line ∈ listing.lines, Text.columns line.text =
    ([line.labelText, line.op.mnemonic] ++
      if line.op.operands = [] then [] else [", ".intercalate line.op.operands]).map String.toList
  solid : ∀ line ∈ listing.lines,
    ∀ column ∈ line.labelText :: line.op.mnemonic :: line.op.operands, Solid column.toList
  read : Code.read? text = some listing.lines

theorem columns_eq (line : Line) :
    line.columns = [line.labelText, line.op.mnemonic] ++
      if line.op.operands = [] then [] else [", ".intercalate line.op.operands] := by
  cases operands : line.op.operands with
  | nil => simp [Line.columns, operands]
  | cons first rest => simp [Line.columns, operands]

theorem listing_lossless {listing : Listing}
    (solid : ∀ line ∈ listing.lines, line.op.UserSolid) :
    listing.Lossless (Code.render listing.lines) := by
  have columns : ∀ line ∈ listing.lines, ∀ column ∈ line.columns, Solid column.toList :=
    fun line member => solid_columns (solid line member)
  refine ⟨Code.render_lines columns, fun line member => ?_, fun line member => ?_,
    Code.read_render columns⟩
  · rw [Line.text_columns (columns line member), columns_eq]
  · exact List.forall_mem_cons.mpr ⟨solid_label_text line,
      List.forall_mem_cons.mpr ⟨solid_mnemonic line.op, solid_operands (solid line member)⟩⟩

/-- The assembly text of a compiled source loses nothing of its listing, and a
library that is added to it leaves it as it is. -/
theorem rendering_lossless (source assembly : String) (compiled : compile source = .ok assembly) :
    ∃ tokens program listing text, Token.scan source = .ok tokens ∧
      Program.accept tokens = .ok program ∧ Listing.ofProgram program = .ok listing ∧
      program.assembly = .ok text ∧ listing.Lossless text ∧
      assembly = text ++ Library.ended Library.bundled ∧
      ∀ library, compileWith library tokens = .ok (text ++ Library.ended library) := by
  obtain ⟨tokens, program, listing, scanned, accepted, generated, rfl⟩ := compile_inv compiled
  have solid := texts_solid scanned (accept_inv accepted).1
  have written : program.assembly = .ok (Code.render listing.lines) := by
    rw [Program.assembly, generated]
    rfl
  have added (library : String) : Library.append (Code.render listing.lines) library =
      Code.render listing.lines ++ Library.ended library := by
    rw [Library.append, ended_render]
  refine ⟨tokens, program, listing, Code.render listing.lines, scanned, accepted, generated,
    written, listing_lossless (lines_user_solid generated solid), added _, fun library => ?_⟩
  rw [compileWith, accepted, except_ok_bind, written, except_ok_bind, added]

/-- A character and a text with the mark that stands between operands, and lines
with no operand. -/
def markedSource : String :=
  "program p;\nvar c: char;\nbegin c := ','; writeln(c, 'a, b''', -1); end.\n"

theorem marked_source_lossless :
    ∃ (assembly : String) (listing : Listing) (text : String),
      compile markedSource = .ok assembly ∧ listing.lines.length = 32 ∧
      (listing.lines.map Line.columns)[4]? = some ["", "LD", "GR1, =','"] ∧
      (listing.lines.map Line.columns)[29]? = some ["CHAR0", "DC", "'a, b'''"] ∧
      (listing.lines.map Line.columns)[31]? = some ["", "END"] ∧
      listing.Lossless text ∧ assembly = text ++ Library.ended Library.bundled := by
  have listed : (Token.scan markedSource >>= Program.accept >>= Listing.ofProgram).map
      (fun listing => (listing.lines.length, (listing.lines.map Line.columns)[4]?,
        (listing.lines.map Line.columns)[29]?, (listing.lines.map Line.columns)[31]?)) =
      .ok (32, some ["", "LD", "GR1, =','"], some ["CHAR0", "DC", "'a, b'''"],
        some ["", "END"]) := by decide +kernel
  obtain ⟨listing, generated, shown⟩ := except_map_ok.mp listed
  simp only [Prod.mk.injEq] at shown
  obtain ⟨program, accepted, generated⟩ := except_bind_ok.mp generated
  obtain ⟨tokens, scanned, accepted⟩ := except_bind_ok.mp accepted
  obtain ⟨assembly, compiled⟩ := compile_exists scanned accepted
  obtain ⟨_, _, _, text, scannedAgain, acceptedAgain, generatedAgain, _, lossless, whole, _⟩ :=
    rendering_lossless markedSource assembly compiled
  cases scanned.symm.trans scannedAgain
  cases accepted.symm.trans acceptedAgain
  cases generated.symm.trans generatedAgain
  exact ⟨assembly, listing, text, compiled, shown.1, shown.2.1, shown.2.2.1, shown.2.2.2, lossless,
    whole⟩

end PascalCasl
