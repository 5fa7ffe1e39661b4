import Mathlib.Data.List.Perm.Basic
import PascalCasl.Proofs.Code.Closure
import PascalCasl.Proofs.Literals.Reading

/-!
Where the texts of a program go. Code is generated for the procedures in order
and then for the main body, and for the arguments of a call from the last to the
first. In this order a text of one character goes into the code as a constant,
and every other text into the table.
-/

namespace PascalCasl

open Casl

mutual

/-- The outermost expressions of a statement in the order of their code. -/
def Stmt.coded (statement : Stmt) : List Expr :=
  match statement with
  | .assign _ target value => target.indexes ++ [value]
  | .call _ _ arguments => arguments.reverse
  | .ifThen _ condition _ thenBody => condition :: codedOf thenBody
  | .ifElse _ condition _ thenBody _ elseBody =>
      condition :: (codedOf thenBody ++ codedOf elseBody)
  | .whileDo _ condition _ body => condition :: codedOf body
  | .read _ targets => targets.flatMap Target.indexes
  | .write _ values => values
  | .block _ body => codedOf body
  termination_by structural statement

def codedOf (body : List Stmt) : List Expr :=
  match body with
  | [] => []
  | first :: rest => first.coded ++ codedOf rest
  termination_by structural body

end

/-- The texts of a program in the order of the code. -/
def Program.codedTexts (program : Program) : List String :=
  program.procedures.flatMap (fun procedure => (codedOf procedure.body).flatMap Expr.texts) ++
    (codedOf program.body).flatMap Expr.texts

mutual

theorem stmt_coded_perm : ∀ statement : Stmt, statement.coded.Perm statement.values
  | .assign _ _ _ => .refl _
  | .call _ _ arguments => List.reverse_perm arguments
  | .ifThen _ _ _ thenBody => (coded_of_perm thenBody).cons _
  | .ifElse _ _ _ thenBody _ elseBody =>
      ((coded_of_perm thenBody).append (coded_of_perm elseBody)).cons _
  | .whileDo _ _ _ body => (coded_of_perm body).cons _
  | .read _ _ => .refl _
  | .write _ _ => .refl _
  | .block _ body => coded_of_perm body

theorem coded_of_perm : ∀ body : List Stmt, (codedOf body).Perm (valuesOf body)
  | [] => .refl _
  | first :: rest => (stmt_coded_perm first).append (coded_of_perm rest)

end

/-- Code is generated for each text of the source once. -/
theorem coded_texts_perm (program : Program) : program.codedTexts.Perm program.texts := by
  refine List.Perm.append ?_ ((coded_of_perm program.body).flatMap_right _)
  exact List.Perm.flatMap_left _ fun procedure _ => (coded_of_perm procedure.body).flatMap_right _

@[simp] def Casl.Source.characters : Source → List Char
  | .literal (.character value) => [value]
  | _ => []

@[simp] def Casl.Op.characters : Op → List Char
  | .load _ source | .compute _ _ source | .compareSigned _ source | .compareUnsigned _ source =>
      source.characters
  | _ => []

@[simp] def Casl.Op.text? : Op → Option String
  | .text characters => some characters
  | _ => none

/-- The operation has no part in texts: it holds none and writes none. -/
@[simp] def Casl.Op.Bare (op : Op) : Prop :=
  op.characters = [] ∧ op.text? = none ∧ op ≠ .call (.routine .writeText)

def Bare (code : Code) : Prop := ∀ line ∈ code, line.op.Bare

/-- The table grows by the texts that have not one character, and the code holds
the others. -/
structure Delivers (before after : List String) (texts : List String) (code : Code) : Prop where
  entered : after = before ++ texts.filter fun text => text.length ≠ 1
  loaded : code.flatMap (fun line => line.op.characters) =
    (texts.filter fun text => text.length = 1).flatMap String.toList
  outside : ∀ line ∈ code, line.op.text? = none

section

variable {before middle after texts others : List String} {code rest : Code}

@[simp] theorem bare_nil : Bare [] := fun _ member => absurd member List.not_mem_nil

@[simp] theorem bare_append : Bare (code ++ rest) ↔ Bare code ∧ Bare rest := List.forall_mem_append

@[simp] theorem bare_cons {first : Line} :
    Bare (first :: rest) ↔ first.op.Bare ∧ Bare rest := List.forall_mem_cons

theorem bare_flat_map {α : Type} {items : List α} {lines : α → Code}
    (each : ∀ item, Bare (lines item)) : Bare (items.flatMap lines) := by
  intro line member
  obtain ⟨item, _, among⟩ := List.mem_flatMap.mp member
  exact each item line among

theorem Bare.delivers (bare : Bare code) : Delivers before before [] code where
  entered := (List.append_nil before).symm
  loaded := List.flatMap_eq_nil_iff.mpr fun line member => (bare line member).1
  outside line member := (bare line member).2.1

theorem Delivers.append (one : Delivers before middle texts code)
    (two : Delivers middle after others rest) :
    Delivers before after (texts ++ others) (code ++ rest) where
  entered := by rw [two.entered, one.entered, List.filter_append, List.append_assoc]
  loaded := by
    rw [List.flatMap_append, one.loaded, two.loaded, List.filter_append, List.flatMap_append]
  outside := List.forall_mem_append.mpr ⟨one.outside, two.outside⟩

theorem Delivers.before_bare (delivers : Delivers before after texts code) (bare : Bare rest) :
    Delivers before after texts (code ++ rest) := by
  simpa using delivers.append bare.delivers

theorem Delivers.after_bare (bare : Bare rest) (delivers : Delivers before after texts code) :
    Delivers before after texts (rest ++ code) := bare.delivers.append delivers

theorem push_cell_bare : Bare pushCell := by simp [pushCell, pushRegister]

theorem push_address_bare (base : Nat) : Bare (pushAddress base) := by
  simp [pushAddress, pushRegister]

theorem locate_element_bare (base : Nat) (low : Int) : Bare (locateElement base low) := by
  simp [locateElement, popInto]

theorem unary_code_bare (op : UnaryOp) : Bare (unaryCode op) := by
  cases op <;> simp [unaryCode, popInto, pushRegister]

theorem read_code_bare (pushed : Pushed) : Bare (readCode pushed) := by
  rcases pushed with (_ | _ | _) | _ <;> simp [readCode, popInto, callRoutine]

theorem write_scalar_bare (type : StandardType) : Bare (writeCode (.scalar type)) := by
  cases type <;> simp [writeCode, popInto, callRoutine]

theorem write_code_delivers (pushed : Pushed) : Delivers before before [] (writeCode pushed) := by
  cases pushed with
  | scalar type => exact (write_scalar_bare type).delivers
  | address length =>
      exact ⟨by simp, by simp [writeCode, popInto, callRoutine],
        by simp [writeCode, popInto, callRoutine]⟩

theorem save_bare (frame : Frame) : Bare frame.save :=
  bare_flat_map fun number => by simp [saveCell, push_cell_bare, loadNumber]

theorem restore_bare (frame : Frame) : Bare frame.restore :=
  bare_flat_map fun number => by simp [restoreCell, popInto, storeCell, loadNumber]

theorem prologue_bare (base count : Nat) : Bare (prologue base count) := by
  have received (number : Nat) : Bare (receiveParam base number) := by
    simp [receiveParam, storeCell, loadNumber]
  have dropped : Bare (dropParams count) := by
    unfold dropParams
    split <;> simp
  exact bare_append.mpr ⟨bare_flat_map received, dropped⟩

theorem jump_if_false_bare (label : Label) : Bare (jumpIfFalse label) := by
  simp [jumpIfFalse, popInto]

theorem place_bare (label : Label) : Bare [place label] := by simp

theorem turn_bare (target label : Label) :
    Bare [line (.jump .always target), place label] := by simp

theorem comparison_bare (number : Nat) (operands : Pushed) (condition : Condition) (taken : Bool) :
    Bare (comparison number operands condition taken) := by
  rcases operands with (_ | _ | _) | _ <;> simp [comparison, compareOp, loadTruth]

end

variable {env : Env} {supply after : Supply} {pushed : Pushed} {code : Code}

theorem text_code_delivers {text : String}
    (generated : textCode text supply = (.ok (pushed, code), after)) :
    Delivers supply.texts after.texts [text] code := by
  rcases text_code_inv generated with
    ⟨character, single, rfl, _, rfl⟩ | ⟨number, several, entered, _, rfl⟩
  · -- one character is loaded as a constant, and the table stays
    have short : text.length = 1 := by simp [← String.length_toList, single]
    exact ⟨by simp [short], by simp [short, single, pushRegister], by simp [pushRegister]⟩
  · cases entered
    exact ⟨by simp [several], by simp [several, pushRegister], by simp [pushRegister]⟩

theorem binary_code_delivers {op : BinaryOp} {left : Pushed}
    (generated : binaryCode op left supply = (.ok code, after)) :
    Delivers supply.texts after.texts [] code := by
  rcases binary_code_inv generated with ⟨plain, rfl⟩ | ⟨condition, taken, number, _, counted, rfl⟩
  · have bare : Bare code := by
      cases op <;> cases plain <;> simp [pushRegister]
    exact bare.delivers
  · cases counted
    exact (comparison_bare _ left condition taken).delivers

theorem expr_delivers {value : Expr}
    (generated : env.expr value supply = (.ok (pushed, code), after)) :
    Delivers supply.texts after.texts value.texts code := by
  induction value generalizing supply after pushed code with
  | number _ value =>
      cases generated
      exact Bare.delivers (by simp)
  | string _ text => exact text_code_delivers generated
  | truth _ value =>
      cases generated
      exact Bare.delivers (by simp [loadTruth, pushRegister])
  | simple _ name =>
      rcases expr_simple_inv generated with ⟨rfl, ⟨_, _, _, _, rfl⟩ | ⟨_, _, _, _, _, _, rfl⟩⟩
      · exact Bare.delivers (by simp [loadNumber, push_cell_bare])
      · exact (push_address_bare _).delivers
  | indexed _ name index ih =>
      rcases expr_indexed_inv generated with ⟨_, _, _, _, _, _, _, indexed, _, rfl⟩
      exact ((ih indexed).before_bare (locate_element_bare _ _)).before_bare push_cell_bare
  | unary _ op operand ih =>
      rcases expr_unary_inv generated with ⟨operandCode, coded, rfl⟩
      exact (ih coded).before_bare (unary_code_bare op)
  | binary _ op left right leftIh rightIh =>
      rcases expr_binary_inv generated with
        ⟨_, leftCode, _, rightCode, joint, _, _, leftCoded, rightCoded, joined, _, rfl⟩
      have operands := ((leftIh leftCoded).append (rightIh rightCoded)).before_bare
        (show Bare [popInto .gr2, popInto .gr1] by simp [popInto])
      simpa [Expr.texts] using operands.append (binary_code_delivers joined)

theorem target_delivers {target : Target}
    (generated : env.target target supply = (.ok (pushed, code), after)) :
    Delivers supply.texts after.texts (target.indexes.flatMap Expr.texts) code := by
  cases target with
  | simple _ name =>
      rcases target_simple_inv generated with ⟨rfl, ⟨_, _, _, _, rfl⟩ | ⟨_, _, _, _, _, _, rfl⟩⟩
      · exact Bare.delivers (by simp)
      · exact (push_address_bare _).delivers
  | indexed _ name index =>
      rcases target_indexed_inv generated with ⟨_, _, _, _, _, _, _, indexed, _, rfl⟩
      rw [Target.indexes, List.flatMap_singleton]
      exact ((expr_delivers indexed).before_bare (locate_element_bare _ _)).before_bare
        (by simp [pushRegister])

theorem exprs_deliver {values : List Expr}
    (generated : env.exprs values supply = (.ok code, after)) :
    Delivers supply.texts after.texts (values.flatMap Expr.texts) code := by
  induction values generalizing supply code with
  | nil =>
      rcases exprs_nil_inv generated with ⟨rfl, rfl⟩
      exact bare_nil.delivers
  | cons first rest ih =>
      rcases exprs_cons_inv generated with ⟨_, _, _, _, coded, more, rfl⟩
      exact (expr_delivers coded).append (ih more)

theorem reads_deliver {targets : List Target}
    (generated : env.reads targets supply = (.ok code, after)) :
    Delivers supply.texts after.texts ((targets.flatMap Target.indexes).flatMap Expr.texts)
      code := by
  induction targets generalizing supply code with
  | nil =>
      rcases reads_nil_inv generated with ⟨rfl, rfl⟩
      exact bare_nil.delivers
  | cons first rest ih =>
      rcases reads_cons_inv generated with ⟨inner, _, _, _, coded, more, rfl⟩
      rw [List.flatMap_cons, List.flatMap_append]
      exact ((target_delivers coded).before_bare (read_code_bare inner)).append (ih more)

theorem writes_deliver {values : List Expr}
    (generated : env.writes values supply = (.ok code, after)) :
    Delivers supply.texts after.texts (values.flatMap Expr.texts) code := by
  induction values generalizing supply code with
  | nil =>
      rcases writes_nil_inv generated with ⟨rfl, rfl⟩
      exact bare_nil.delivers
  | cons first rest ih =>
      rcases writes_cons_inv generated with ⟨inner, _, _, _, coded, more, rfl⟩
      have written := (expr_delivers coded).append (write_code_delivers inner)
      rw [List.append_nil] at written
      exact written.append (ih more)

theorem call_delivers {name : String} {arguments : List Expr} {nodeLine : Nat}
    (generated : env.call name arguments nodeLine supply = (.ok code, after)) :
    Delivers supply.texts after.texts (arguments.reverse.flatMap Expr.texts) code := by
  rcases call_inv generated with ⟨frame, argumentCode, _, coded, rfl⟩
  have plain : Delivers supply.texts after.texts (arguments.reverse.flatMap Expr.texts)
      (argumentCode ++ [line (.call (.procedure frame.ordinal))]) :=
    (exprs_deliver coded).before_bare (by simp)
  split
  · exact (plain.after_bare (save_bare frame)).before_bare (restore_bare frame)
  · exact plain

mutual

theorem stmt_delivers : ∀ (statement : Stmt) {supply after : Supply} {code : Code},
    env.stmt statement supply = (.ok code, after) →
      Delivers supply.texts after.texts (statement.coded.flatMap Expr.texts) code
  | .assign _ _ _, _, _, _, generated => by
      rcases assign_inv generated with ⟨_, _, _, _, _, located, coded, rfl⟩
      rw [Stmt.coded, List.flatMap_append, List.flatMap_singleton]
      exact ((target_delivers located).append (expr_delivers coded)).before_bare
        (by simp [popInto, storeCell])
  | .call _ _ _, _, _, _, generated => call_delivers generated
  | .ifThen _ _ _ thenBody, _, _, _, generated => by
      rcases if_then_inv generated with ⟨_, _, _, _, _, _, _, opened, tested, coded, closed, rfl⟩
      -- numbering a block leaves the table as it is, here and below
      cases opened
      cases closed
      rw [Stmt.coded, List.flatMap_cons]
      exact (((expr_delivers tested).before_bare (jump_if_false_bare _)).append
        (stmts_deliver thenBody coded)).before_bare (place_bare _)
  | .ifElse _ _ _ thenBody _ elseBody, _, _, _, generated => by
      rcases if_else_inv generated with ⟨_, _, _, _, _, _, _, _, _, _, _, _, opened, tested,
        thenCoded, endOpened, closed, elseCoded, endClosed, rfl⟩
      cases opened
      cases endOpened
      cases closed
      cases endClosed
      have skipped := stmts_deliver elseBody elseCoded
      rw [Stmt.coded, List.flatMap_cons, List.flatMap_append, ← List.append_assoc]
      exact (((((expr_delivers tested).before_bare (jump_if_false_bare _)).append
        (stmts_deliver thenBody thenCoded)).before_bare (turn_bare _ _)).append
        skipped).before_bare (place_bare _)
  | .whileDo _ _ _ body, _, _, _, generated => by
      rcases while_inv generated with ⟨_, _, _, _, _, _, _, opened, tested, coded, closed, rfl⟩
      cases opened
      cases closed
      rw [Stmt.coded, List.flatMap_cons]
      exact ((((expr_delivers tested).after_bare (place_bare _)).before_bare
        (jump_if_false_bare _)).append (stmts_deliver body coded)).before_bare (turn_bare _ _)
  | .read _ _, _, _, _, generated => by
      rcases read_inv generated with ⟨_, coded, rfl⟩
      exact (reads_deliver coded).before_bare (by simp [callRoutine])
  | .write _ _, _, _, _, generated => by
      rcases write_inv generated with ⟨_, coded, rfl⟩
      exact (writes_deliver coded).before_bare (by simp [callRoutine])
  | .block _ body, _, _, _, generated => stmts_deliver body generated

theorem stmts_deliver : ∀ (body : List Stmt) {supply after : Supply} {code : Code},
    env.stmts body supply = (.ok code, after) →
      Delivers supply.texts after.texts ((codedOf body).flatMap Expr.texts) code
  | [], _, _, _, generated => by
      rcases stmts_nil_inv generated with ⟨rfl, rfl⟩
      exact bare_nil.delivers
  | first :: rest, _, _, _, generated => by
      rcases stmts_cons_inv generated with ⟨_, _, _, coded, more, rfl⟩
      rw [codedOf, List.flatMap_append]
      exact (stmt_delivers first coded).append (stmts_deliver rest more)

end

theorem opening_bare (program : Program) (block : Block) : Bare (block.opening program) := by
  cases block <;> simp [Block.opening, prologue_bare]

theorem closing_bare (block : Block) : Bare block.closing := by
  cases block <;> simp [Block.closing]

theorem blocks_deliver {program : Program} {blocks : List Block} {codes : List Code}
    (generated : codeBlocks program blocks supply = (.ok codes, after)) :
    Delivers supply.texts after.texts
      ((blocks.map (Block.statements program)).flatMap fun body =>
        (codedOf body).flatMap Expr.texts) codes.flatten := by
  induction blocks generalizing supply codes with
  | nil =>
      rcases blocks_nil_inv generated with ⟨rfl, rfl⟩
      exact bare_nil.delivers
  | cons first rest ih =>
      rcases blocks_cons_inv generated with ⟨body, others, middle, coded, more, rfl⟩
      have whole := ((stmts_deliver _ coded).after_bare (opening_bare program first)).before_bare
        (closing_bare first)
      exact whole.append (ih more)

theorem listing_delivers {program : Program} {listing : Listing}
    (generated : Listing.ofProgram program = .ok listing) :
    Delivers [] listing.texts program.codedTexts (listing.procedures.flatten ++ listing.main) := by
  rcases listing_inv generated with ⟨middle, last, proceduresCoded, mainCoded, _, entered⟩
  have procedures := blocks_deliver proceduresCoded
  rw [Program.procedureBlocks, blocks_after_bodies, List.flatMap_map] at procedures
  rw [entered]
  exact procedures.append (stmts_deliver program.body mainCoded)

end PascalCasl
