import PascalCasl.Proofs.Literals.Printed

/-!
String literals survive compilation. An accepted program has no empty text, so
the texts in its table are those of two characters or more. Their lines of data
show them as they stand in the source, and they are written with their length.
-/

namespace PascalCasl

open Casl

variable {context : Context}

theorem typed_texts {value : Expr} {type : Ty} (typed : context.HasType value type) :
    ∀ text ∈ value.texts, 1 ≤ text.length := by
  induction typed with
  | character single => simp [Expr.texts, single]
  | text several => simpa [Expr.texts] using Nat.le_of_succ_le several
  | number _ => simp [Expr.texts]
  | negated _ => simp [Expr.texts]
  | truth => simp [Expr.texts]
  | simple _ => simp [Expr.texts]
  | element _ _ ih => exact ih
  | signed _ _ ih => exact ih
  | negation _ ih => exact ih
  | arithmetic _ _ _ leftIh rightIh => exact List.forall_mem_append.mpr ⟨leftIh, rightIh⟩
  | logical _ _ _ leftIh rightIh => exact List.forall_mem_append.mpr ⟨leftIh, rightIh⟩
  | relation _ _ _ leftIh rightIh => exact List.forall_mem_append.mpr ⟨leftIh, rightIh⟩

theorem body_texts {body : List Stmt} (typed : ∀ statement ∈ body, context.WellTyped statement) :
    ∀ text ∈ (valuesOf body).flatMap Expr.texts, 1 ≤ text.length := by
  intro text member
  rw [values_of_eq, List.flatMap_assoc, List.mem_flatMap] at member
  obtain ⟨statement, inBody, member⟩ := member
  obtain ⟨value, inStatement, inValue⟩ := List.mem_flatMap.mp member
  obtain ⟨type, valueTyped⟩ := values_typed (typed statement inBody) value inStatement
  exact typed_texts valueTyped text inValue

theorem program_texts {program : Program} (wellTyped : program.WellTyped) :
    ∀ text ∈ program.texts, 1 ≤ text.length := by
  refine List.forall_mem_append.mpr ⟨fun text member => ?_, body_texts wellTyped.body⟩
  obtain ⟨procedure, listed, inBody⟩ := List.mem_flatMap.mp member
  obtain ⟨earlier, later, split⟩ := List.append_of_mem listed
  exact body_texts (wellTyped.procedures earlier procedure later split).body text inBody

theorem table_texts {program : Program} (wellTyped : program.WellTyped) {listing : Listing}
    (generated : Listing.ofProgram program = .ok listing) :
    listing.texts = program.codedTexts.filter fun text => 2 ≤ text.length := by
  rw [(listing_delivers generated).entered, List.nil_append]
  apply List.filter_congr
  intro text member
  have written := program_texts wellTyped text ((coded_texts_perm program).mem_iff.mp member)
  rw [decide_eq_decide]
  omega

theorem data_mnemonic (op : Op) : op.mnemonic = "DC" ↔ op.text?.isSome := by
  cases op with
  | compute operation _ _ => cases operation <;> simp [Op.mnemonic, Arithmetic.mnemonic]
  | jump condition _ => cases condition <;> simp [Op.mnemonic, Condition.mnemonic]
  | _ => simp [Op.mnemonic]

def dataLines (code : Code) : Code := code.filter fun line => line.op.mnemonic = "DC"

@[simp] theorem data_lines_append (first second : Code) :
    dataLines (first ++ second) = dataLines first ++ dataLines second := List.filter_append ..

theorem no_data {code : Code} (outside : ∀ line ∈ code, line.op.text? = none) :
    dataLines code = [] := by
  rw [dataLines, List.filter_eq_nil_iff]
  intro line member
  rw [decide_eq_true_eq, data_mnemonic, outside line member]
  nofun

theorem data_listed {program : Program} {listing : Listing}
    (generated : Listing.ofProgram program = .ok listing) :
    dataLines listing.lines = Listing.textLines listing.texts := by
  obtain ⟨procedures, main⟩ := List.forall_mem_append.mp (listing_delivers generated).outside
  have entered : dataLines (Listing.textLines listing.texts) = Listing.textLines listing.texts := by
    rw [dataLines, List.filter_eq_self]
    intro line member
    obtain ⟨_, _, rfl⟩ := List.mem_map.mp member
    rfl
  have header : dataLines Listing.header = [] := no_data (by simp [Listing.header])
  have returns : dataLines [line .ret] = [] := no_data (by simp)
  have region : dataLines [labelled .variables (.reserve listing.cells)] = [] :=
    no_data (by simp)
  have ending : dataLines [labelled .buffer (.reserve Listing.bufferCells), line .finish] = [] :=
    no_data (by simp)
  simp only [Listing.lines, data_lines_append, header, returns, region, ending, entered,
    no_data main, no_data procedures, List.nil_append, List.append_nil]

theorem text_line_columns (texts : List String) :
    (Listing.textLines texts).map Line.columns =
      (texts.map Text.quoted).zipIdx.map fun entry => ["CHAR" ++ entry.2.repr, "DC", entry.1] := by
  rw [Listing.textLines, List.map_map, List.zipIdx_map, List.map_map]
  rfl

/-- How the texts of a source come through. Its string tokens are the texts of
the program; the lines of data show those of two characters or more, numbered in
the order of the code; and what the listing writes as texts it writes whole. -/
structure Listing.KeepsTexts (listing : Listing) (tokens : List Token) (program : Program) :
    Prop where
  read : stringTexts tokens = program.texts.map Text.quoted
  once : program.codedTexts.Perm program.texts
  table : listing.texts = program.codedTexts.filter fun text => 2 ≤ text.length
  data : (dataLines listing.lines).map Line.columns =
    ((program.codedTexts.filter fun text => 2 ≤ text.length).map Text.quoted).zipIdx.map
      fun entry => ["CHAR" ++ entry.2.repr, "DC", entry.1]
  written : Prints listing.texts program.printedTexts listing.lines

/-- Quoting is undone by unquoting, and unquoting by quoting on what the scanner
takes for a string; so the literals of a source come through compilation. -/
theorem literals_survive :
    (∀ text, Text.unquoted? (Text.quoted text) = some text) ∧
      (∀ source tokens, Token.scan source = .ok tokens →
        ∀ token ∈ tokens, token.kind = .string →
          ∃ text, Text.unquoted? token.text = some text ∧ Text.quoted text = token.text) ∧
      ∀ source assembly, compile source = .ok assembly →
        ∃ tokens program listing, Token.scan source = .ok tokens ∧
          Program.accept tokens = .ok program ∧ Listing.ofProgram program = .ok listing ∧
          assembly = Library.append (Code.render listing.lines) Library.bundled ∧
          listing.KeepsTexts tokens program := by
  refine ⟨Text.unquoted_quoted, fun source tokens => scanned_quoted, ?_⟩
  intro source assembly compiled
  obtain ⟨tokens, program, listing, scanned, accepted, generated, rfl⟩ := compile_inv compiled
  obtain ⟨parsed, checked⟩ := accept_inv accepted
  have wellTyped := check_sound checked
  have table := table_texts wellTyped generated
  refine ⟨tokens, program, listing, scanned, accepted, generated, rfl,
    texts_scanned scanned parsed, coded_texts_perm program, table, ?_,
    listing_prints wellTyped generated⟩
  rw [data_listed generated, text_line_columns, table]

/-- Quotes next to each other and next to the ends, characters of several bytes,
and a call whose second argument is coded first. -/
def quotedSource : String :=
  "program p;\nprocedure q(a, b: boolean);\nbegin writeln('it''s', 'é', 'ん'''); end;\n" ++
    "begin q('ab' = 'c''', 'ef' <> 'gh'); end.\n"

theorem quoted_source_survives :
    (∃ text, Text.unquoted? "'ん'''" = some text ∧ Text.quoted text = "'ん'''") ∧
    ∃ (assembly : String) (listing : Listing), compile quotedSource = .ok assembly ∧
      assembly = Library.append (Code.render listing.lines) Library.bundled ∧
      (dataLines listing.lines).map Line.columns =
        [["CHAR0", "DC", "'it''s'"], ["CHAR1", "DC", "'ん'''"], ["CHAR2", "DC", "'ef'"],
          ["CHAR3", "DC", "'gh'"], ["CHAR4", "DC", "'ab'"], ["CHAR5", "DC", "'c'''"]] ∧
      Prints ["it's", "ん'", "ef", "gh", "ab", "c'"] ["it's", "ん'"] listing.lines := by
  have found : (Token.scan quotedSource).map (List.find? fun token => token.text = "'ん'''") =
      .ok (some ⟨"'ん'''", .string, 3⟩) := by decide +kernel
  have read : (Token.scan quotedSource >>= Program.accept).map
      (fun program => (program.codedTexts, program.printedTexts)) =
      .ok (["it's", "é", "ん'", "ef", "gh", "ab", "c'"], ["it's", "ん'"]) := by decide +kernel
  obtain ⟨program, accepted, texts⟩ := except_map_ok.mp read
  obtain ⟨coded, printed⟩ := Prod.mk.inj texts
  obtain ⟨tokens, scanned, accepted⟩ := except_bind_ok.mp accepted
  obtain ⟨assembly, compiled⟩ := compile_exists scanned accepted
  obtain ⟨_, _, listing, scannedAgain, acceptedAgain, _, same, keeps⟩ :=
    literals_survive.2.2 quotedSource _ compiled
  cases scanned.symm.trans scannedAgain
  cases accepted.symm.trans acceptedAgain
  refine ⟨?_, _, listing, compiled, same, ?_, ?_⟩
  · rw [scanned] at found
    have member := List.mem_of_find?_eq_some (Except.ok.inj found)
    exact literals_survive.2.1 quotedSource tokens scanned _ member rfl
  · rw [keeps.data, coded]
    decide
  · have table : listing.texts = ["it's", "ん'", "ef", "gh", "ab", "c'"] := by
      rw [keeps.table, coded]
      decide
    rw [← table, ← printed]
    exact keeps.written

end PascalCasl
