import PascalCasl.Proofs.Code.Occurrence
import PascalCasl.Proofs.Literals.Table

/-!
Texts that are written out. The routine that writes a text is told where the text
begins and how long it is. Every call of it in generated code writes a whole
array, or a text of the table with the length of that text; and the texts so
written are the ones that the statements write, in their order.
-/

namespace PascalCasl

open Casl

/-- The text that is written for a value which is a text and no character. -/
def Expr.printed : Expr → List String
  | .string _ text => if 2 ≤ text.length then [text] else []
  | _ => []

/-- The texts that a statement writes, without those of the statements in it. -/
def Stmt.printed : Stmt → List String
  | .write _ values => values.flatMap Expr.printed
  | _ => []

def printedOf (body : List Stmt) : List String := (partsOf body).flatMap Stmt.printed

/-- The texts that a program writes, in the order of the listing. -/
def Program.printedTexts (program : Program) : List String :=
  printedOf program.body ++ program.procedures.flatMap fun procedure => printedOf procedure.body

/-- No line calls the routine that writes a text. -/
def Silent (code : Code) : Prop := ∀ line ∈ code, line.op ≠ .call (.routine .writeText)

/-- The code writes these texts of the table: the address of each is pushed by its
number and popped for the routine that writes a text, which is told the length.
Any other call of the routine is told the address and the length of an array. -/
inductive Prints (table : List String) : List String → Code → Prop where
  | silent {code : Code} (silent : Silent code) : Prints table [] code
  | text {number : Nat} {text : String} (entered : table[number]? = some text) :
      Prints table [text]
        [line (.loadAddress .gr2 ⟨.label (.text number), none⟩),
          line (.push ⟨.number 0, some .gr2⟩), line (.pop .gr2),
          line (.loadAddress .gr1 ⟨.number text.length, none⟩),
          line (.call (.routine .writeText))]
  | array (base length : Nat) :
      Prints table []
        [line (.loadAddress .gr1 ⟨.label .variables, none⟩),
          line (.compute .add .gr1 (.literal (.number base))),
          line (.push ⟨.number 0, some .gr1⟩), line (.pop .gr2),
          line (.loadAddress .gr1 ⟨.number length, none⟩),
          line (.call (.routine .writeText))]
  | append {texts others : List String} {code rest : Code} (first : Prints table texts code)
      (second : Prints table others rest) : Prints table (texts ++ others) (code ++ rest)

section

variable {table texts : List String} {code rest : Code}

@[simp] theorem silent_append : Silent (code ++ rest) ↔ Silent code ∧ Silent rest :=
  List.forall_mem_append

theorem Bare.silent (bare : Bare code) : Silent code := fun line member => (bare line member).2.2

theorem Prints.before_silent (prints : Prints table texts code) (silent : Silent rest) :
    Prints table texts (code ++ rest) := by
  simpa using prints.append (.silent silent)

theorem Prints.after_silent (silent : Silent rest) (prints : Prints table texts code) :
    Prints table texts (rest ++ code) := .append (.silent silent) prints

end

variable {env : Env} {supply after : Supply} {pushed : Pushed} {code : Code}

/-! Expressions write nothing. -/

theorem text_code_silent {text : String}
    (generated : textCode text supply = (.ok (pushed, code), after)) : Silent code := by
  rcases text_code_inv generated with ⟨_, _, _, _, rfl⟩ | ⟨_, _, _, _, rfl⟩ <;>
    simp [Silent, pushRegister]

theorem binary_code_silent {op : BinaryOp} {left : Pushed}
    (generated : binaryCode op left supply = (.ok code, after)) : Silent code := by
  rcases binary_code_inv generated with ⟨plain, _⟩ | ⟨condition, taken, number, _, _, rfl⟩
  · cases op <;> cases plain <;> simp [Silent, pushRegister]
  · exact (comparison_bare number left condition taken).silent

theorem expr_silent {value : Expr}
    (generated : env.expr value supply = (.ok (pushed, code), after)) : Silent code := by
  induction value generalizing supply after pushed code with
  | number _ value =>
      cases generated
      simp [Silent]
  | string _ text => exact text_code_silent generated
  | truth _ value =>
      cases generated
      simp [Silent, loadTruth, pushRegister]
  | simple _ name =>
      rcases expr_simple_inv generated with ⟨rfl, ⟨_, _, _, _, rfl⟩ | ⟨_, _, _, _, _, _, rfl⟩⟩
      · exact Bare.silent (by simp [loadNumber, push_cell_bare])
      · exact (push_address_bare _).silent
  | indexed _ name index ih =>
      rcases expr_indexed_inv generated with ⟨_, _, _, _, _, _, _, indexed, _, rfl⟩
      simp [ih indexed, (locate_element_bare _ _).silent, push_cell_bare.silent]
  | unary _ op operand ih =>
      rcases expr_unary_inv generated with ⟨operandCode, coded, rfl⟩
      simp [ih coded, (unary_code_bare op).silent]
  | binary _ op left right leftIh rightIh =>
      rcases expr_binary_inv generated with
        ⟨_, leftCode, _, rightCode, joint, _, _, leftCoded, rightCoded, joined, _, rfl⟩
      have popped : Silent [popInto .gr2, popInto .gr1] := by simp [Silent, popInto]
      simp only [silent_append]
      exact ⟨⟨⟨leftIh leftCoded, rightIh rightCoded⟩, popped⟩, binary_code_silent joined⟩

theorem target_silent {target : Target}
    (generated : env.target target supply = (.ok (pushed, code), after)) : Silent code := by
  cases target with
  | simple _ name =>
      rcases target_simple_inv generated with ⟨rfl, ⟨_, _, _, _, rfl⟩ | ⟨_, _, _, _, _, _, rfl⟩⟩
      · simp [Silent]
      · exact (push_address_bare _).silent
  | indexed _ name index =>
      rcases target_indexed_inv generated with ⟨_, _, _, _, _, _, _, indexed, _, rfl⟩
      have pushes : Silent [pushRegister .gr2] := by simp [Silent, pushRegister]
      simp [expr_silent indexed, (locate_element_bare _ _).silent, pushes]

theorem silent_composes : Composes fun _ code _ => Silent code where
  nothing _ := bare_nil.silent
  joined first second := silent_append.mpr ⟨first, second⟩

theorem exprs_silent {values : List Expr}
    (generated : env.exprs values supply = (.ok code, after)) : Silent code :=
  silent_composes.exprs (fun _ _ => expr_silent) generated

theorem reads_silent {targets : List Target}
    (generated : env.reads targets supply = (.ok code, after)) : Silent code :=
  silent_composes.reads (fun _ _ _ _ pushed _ coded =>
    silent_append.mpr ⟨target_silent coded, (read_code_bare pushed).silent⟩) generated

theorem call_silent {name : String} {arguments : List Expr} {nodeLine : Nat}
    (generated : env.call name arguments nodeLine supply = (.ok code, after)) : Silent code := by
  rcases call_inv generated with ⟨frame, argumentCode, _, coded, rfl⟩
  have calls : Silent [line (.call (.procedure frame.ordinal))] := by simp [Silent]
  have given := exprs_silent coded
  split
  · simp only [silent_append]
    exact ⟨⟨(save_bare frame).silent, given, calls⟩, (restore_bare frame).silent⟩
  · exact silent_append.mpr ⟨given, calls⟩

variable {table : List String} {scope : Scope} {context : Context}

theorem typed_literal {value : Expr} {type : Ty} (typed : context.HasType value type) :
    (∃ line text, value = .string line text ∧ (text.length = 1 ∨ 2 ≤ text.length)) ∨
      (∃ line name, value = .simple line name) ∨
      value.printed = [] ∧ ∃ standard, type = .standard standard := by
  cases typed with
  | character single => exact .inl ⟨_, _, rfl, .inl single⟩
  | text several => exact .inl ⟨_, _, rfl, .inr several⟩
  | simple _ => exact .inr (.inl ⟨_, _, rfl⟩)
  | _ => exact .inr (.inr ⟨rfl, _, rfl⟩)

section

variable (stores : env.Stores scope) (means : scope.Means context)

include stores means

theorem value_prints {value : Expr} {type : Ty} (typed : context.HasType value type)
    (generated : env.expr value supply = (.ok (pushed, code), after))
    (kept : after.texts <+: table) :
    Prints table value.printed (code ++ writeCode pushed) := by
  have quiet := expr_silent generated
  rcases typed_literal typed with
    ⟨line, text, rfl, single | several⟩ | ⟨line, name, rfl⟩ | ⟨short, standard, rfl⟩
  · rcases text_code_inv generated with ⟨_, _, _, rfl, rfl⟩ | ⟨_, several, _⟩
    · have short : (Expr.string line text).printed = [] := by simp [Expr.printed, single]
      rw [short]
      exact (Prints.silent quiet).before_silent (write_scalar_bare .char).silent
    · exact absurd single several
  · rcases text_code_inv generated with ⟨_, single, _⟩ | ⟨number, _, entered, rfl, rfl⟩
    · simp [← String.length_toList, single] at several
    · -- the table only grows, so in the whole one the number still finds the text
      have placed := (new_text_numbered entered).2
      have found : table[number]? = some text := by
        obtain ⟨more, rfl⟩ := kept
        rw [List.getElem?_append_left (List.getElem?_eq_some_iff.mp placed).1, placed]
      have long : (Expr.string line text).printed = [text] := by simp [Expr.printed, several]
      rw [long]
      exact .text found
  · rcases expr_simple_inv generated with
      ⟨_, ⟨_, type, _, rfl, rfl⟩ | ⟨base, _, _, count, _, rfl, rfl⟩⟩
    · exact (Prints.silent quiet).before_silent (write_scalar_bare type).silent
    · exact .array base count
  · -- only literals and variables have a type that is no scalar
    rcases typed_yields stores means typed supply with ⟨coded, _, same, fits⟩
    rw [generated] at same
    cases same
    have scalar : pushed = .scalar standard := (fits.1 standard).mpr rfl
    rw [short, scalar]
    exact (Prints.silent quiet).before_silent (write_scalar_bare standard).silent

theorem writes_print {values : List Expr}
    (each : ∀ value ∈ values, ∃ type ∈ Context.printable, context.HasType value type)
    (generated : env.writes values supply = (.ok code, after)) (kept : after.texts <+: table) :
    Prints table (values.flatMap Expr.printed) code := by
  induction values generalizing supply code with
  | nil =>
      rcases writes_nil_inv generated with ⟨rfl, _⟩
      exact .silent bare_nil.silent
  | cons first rest ih =>
      rcases List.forall_mem_cons.mp each with ⟨⟨type, _, typed⟩, others⟩
      rcases writes_cons_inv generated with ⟨_, _, _, _, coded, more, rfl⟩
      have earlier := (writes_numbered more).grows.texts.trans kept
      exact (value_prints stores means typed coded earlier).append (ih others more)

end

theorem test_silent (label : Label) {test : Code} {condition : Expr}
    (tested : env.expr condition supply = (.ok (pushed, test), after)) :
    Silent (test ++ jumpIfFalse label) :=
  silent_append.mpr ⟨expr_silent tested, (jump_if_false_bare label).silent⟩

theorem stmts_print {body : List Stmt} {supply after : Supply} {code : Code}
    (each : ∀ statement ∈ body, ∀ {supply after : Supply} {code : Code},
      env.stmt statement supply = (.ok code, after) → after.texts <+: table →
        Prints table (statement.parts.flatMap Stmt.printed) code)
    (generated : env.stmts body supply = (.ok code, after)) (kept : after.texts <+: table) :
    Prints table (printedOf body) code := by
  induction body generalizing supply code with
  | nil =>
      rcases stmts_nil_inv generated with ⟨rfl, _⟩
      exact .silent bare_nil.silent
  | cons first rest ih =>
      rcases List.forall_mem_cons.mp each with ⟨head, tail⟩
      rcases stmts_cons_inv generated with ⟨_, _, _, coded, more, rfl⟩
      have earlier := (stmts_numbered rest more).grows.texts.trans kept
      rw [printedOf, partsOf, List.flatMap_append]
      exact (head coded earlier).append (ih tail more)

theorem stmt_prints (stores : env.Stores scope) (means : scope.Means context) {statement : Stmt}
    (typed : context.WellTyped statement) {supply after : Supply} {code : Code}
    (generated : env.stmt statement supply = (.ok code, after)) (kept : after.texts <+: table) :
    Prints table (statement.parts.flatMap Stmt.printed) code := by
  induction typed generalizing supply after code with
  | assign _ _ =>
      rcases assign_inv generated with ⟨_, _, _, _, _, located, coded, rfl⟩
      refine .silent (silent_append.mpr ⟨silent_append.mpr
        ⟨target_silent located, expr_silent coded⟩, ?_⟩)
      simp [Silent, popInto, storeCell]
  | call _ _ => exact .silent (call_silent generated)
  | ifThen _ _ ih =>
      rcases if_then_inv generated with ⟨number, _, _, _, _, _, _, _, tested, coded, closed, rfl⟩
      have known := (close_label_numbered .otherwise closed).grows.texts.trans kept
      exact ((stmts_print ih coded known).after_silent
        (test_silent (.otherwise number) tested)).before_silent (place_bare _).silent
  | ifElse _ _ _ takenIh skippedIh =>
      rcases if_else_inv generated with ⟨number, _, _, _, _, _, _, _, _, _, _, _, _, tested,
        thenCoded, opened, closed, elseCoded, endClosed, rfl⟩
      -- each part sees the table at its own end, which begins the table of the whole program
      have last := (close_label_numbered .endIf endClosed).grows.texts.trans kept
      have middle := (close_label_numbered .otherwise closed).grows.texts.trans
        ((stmts_numbered _ elseCoded).grows.texts.trans last)
      have known := (open_label_numbered .endIf opened).grows.texts.trans middle
      have taken := (stmts_print takenIh thenCoded known).after_silent
        (test_silent (.otherwise number) tested)
      rw [Stmt.parts, List.flatMap_cons, List.flatMap_append]
      exact ((taken.before_silent (turn_bare _ _).silent).append
        (stmts_print skippedIh elseCoded last)).before_silent (place_bare _).silent
  | whileDo _ _ ih =>
      rcases while_inv generated with ⟨number, _, _, _, _, _, _, _, tested, coded, closed, rfl⟩
      have known := (close_label_numbered .loop closed).grows.texts.trans kept
      have test := silent_append.mpr ⟨(place_bare (.loop number)).silent,
        test_silent (.endLoop number) tested⟩
      rw [← List.append_assoc] at test
      exact ((stmts_print ih coded known).after_silent test).before_silent (turn_bare _ _).silent
  | read _ =>
      rcases read_inv generated with ⟨_, coded, rfl⟩
      refine .silent (silent_append.mpr ⟨reads_silent coded, ?_⟩)
      simp [Silent, callRoutine]
  | write each =>
      rcases write_inv generated with ⟨_, coded, rfl⟩
      have finished : Silent [callRoutine .writeLine] := by simp [Silent, callRoutine]
      rw [Stmt.parts, List.flatMap_singleton]
      exact (writes_print stores means each coded kept).before_silent finished
  | block _ ih => exact stmts_print ih generated kept

theorem body_prints {body : List Stmt} (agreement : Agreement scope env context body)
    (generated : env.stmts body supply = (.ok code, after)) (kept : after.texts <+: table) :
    Prints table (printedOf body) code :=
  stmts_print (fun statement member => stmt_prints agreement.stores agreement.means
    (agreement.typed statement member)) generated kept

theorem blocks_print {program : Program} (wellTyped : program.WellTyped) {blocks : List Block}
    (within : ∀ block ∈ blocks, block ∈ program.blocks) {codes : List Code}
    (generated : codeBlocks program blocks supply = (.ok codes, after))
    (kept : after.texts <+: table) :
    Prints table ((blocks.map (Block.statements program)).flatMap printedOf) codes.flatten := by
  induction blocks generalizing supply codes with
  | nil =>
      rcases blocks_nil_inv generated with ⟨rfl, _⟩
      exact .silent bare_nil.silent
  | cons first rest ih =>
      rcases blocks_cons_inv generated with ⟨body, _, _, coded, more, rfl⟩
      have agreement := block_agreement wellTyped (within first List.mem_cons_self)
      obtain ⟨_, numbered, _⟩ := blocks_numbered more
      have printed := body_prints agreement coded (numbered.grows.texts.trans kept)
      exact ((printed.after_silent (opening_bare program first).silent).before_silent
        (closing_bare first).silent).append
          (ih (fun block member => within block (List.mem_cons_of_mem _ member)) more)

theorem listing_prints {program : Program} (wellTyped : program.WellTyped) {listing : Listing}
    (generated : Listing.ofProgram program = .ok listing) :
    Prints listing.texts program.printedTexts listing.lines := by
  -- the main body is coded last, so its table is the whole one
  rcases listing_inv generated with ⟨_, last, proceduresCoded, mainCoded, _, entered⟩
  have whole : last.texts <+: listing.texts := entered ▸ List.prefix_refl listing.texts
  have kept := (stmts_numbered program.body mainCoded).grows.texts.trans whole
  have procedures := blocks_print wellTyped (fun _ member => List.mem_append_left _ member)
    proceduresCoded kept
  rw [Program.procedureBlocks, blocks_after_bodies, List.flatMap_map] at procedures
  have main := body_prints (block_agreement wellTyped (mem_blocks.mpr (.inr rfl))) mainCoded whole
  have header : Silent Listing.header := by simp [Silent, Listing.header]
  have stored : Silent (Listing.textLines listing.texts) := by
    intro line member
    obtain ⟨entry, _, rfl⟩ := List.mem_map.mp member
    simp
  have data : Silent listing.data := by
    rw [Listing.data, silent_append]
    exact ⟨List.forall_mem_cons.mpr ⟨by simp, stored⟩, by simp [Silent]⟩
  have returns : Silent [line .ret] := by simp [Silent]
  rw [Listing.lines_eq, Listing.pieces, List.flatten_cons]
  exact (((main.after_silent header).before_silent returns).append procedures).before_silent data

end PascalCasl
