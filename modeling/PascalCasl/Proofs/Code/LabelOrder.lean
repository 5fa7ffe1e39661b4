import PascalCasl.Proofs.Code.Occurrence
import PascalCasl.Proofs.Code.Procedures

/-!
The order in which labels are opened and closed. Generation follows the nesting
of the tree, so a label is closed only while it is the innermost open one of its
family. This holds for every tree, also for one that generation gives up on. A
generation that succeeds leaves no label open, and its counters have counted the
nodes of the tree that take labels.
-/

namespace PascalCasl

open Casl

def Stmt.isConditional : Stmt → Bool
  | .ifThen _ _ _ _ | .ifElse _ _ _ _ _ _ => true
  | _ => false

def Stmt.isAlternative : Stmt → Bool
  | .ifElse _ _ _ _ _ _ => true
  | _ => false

def Stmt.isLoop : Stmt → Bool
  | .whileDo _ _ _ _ => true
  | _ => false

def Expr.isRelation : Expr → Bool
  | .binary _ op _ _ => op.isRelational
  | _ => false

def LabelFamily.takes : LabelFamily → Stmt → Bool
  | .otherwise => Stmt.isConditional
  | .endIf => Stmt.isAlternative
  | .loop => Stmt.isLoop

/-- How many labels of each family and how many comparisons are taken. -/
@[ext] structure Tally where
  labels : LabelFamily → Nat
  relations : Nat

namespace Tally

instance : Add Tally where
  add first second := ⟨fun family => first.labels family + second.labels family,
    first.relations + second.relations⟩

/-- The labels that statements and expressions take, where `values` are the
outermost expressions. -/
def count (statements : List Stmt) (values : List Expr) : Tally where
  labels family := statements.countP family.takes
  relations := (values.flatMap Expr.nodes).countP Expr.isRelation

def none : Tally := count [] []

def label (family : LabelFamily) : Tally := ⟨fun other => if other = family then 1 else 0, 0⟩

def comparisons (number : Nat) : Tally := ⟨fun _ => 0, number⟩

@[simp] theorem add_labels (first second : Tally) (family : LabelFamily) :
    (first + second).labels family = first.labels family + second.labels family := rfl

@[simp] theorem add_relations (first second : Tally) :
    (first + second).relations = first.relations + second.relations := rfl

@[simp] theorem none_add (tally : Tally) : none + tally = tally := by
  ext <;> simp [none, count]

@[simp] theorem add_none (tally : Tally) : tally + none = tally := by
  ext <;> simp [none, count]

theorem count_append (first second : List Stmt) (values others : List Expr) :
    count (first ++ second) (values ++ others) = count first values + count second others := by
  ext <;> simp [count]

theorem count_values_append (values others : List Expr) :
    count [] (values ++ others) = count [] values + count [] others :=
  count_append [] [] values others

theorem count_values_cons (first : Expr) (rest : List Expr) :
    count [] (first :: rest) = count [] [first] + count [] rest :=
  count_values_append [first] rest

end Tally

namespace Supply

/-- Whether no label was closed out of order so far. -/
def orderly (supply : Supply) : Bool :=
  supply.otherwises.orderly && supply.endIfs.orderly && supply.loops.orderly

@[simp] theorem stack_with_stack (supply : Supply) (family other : LabelFamily)
    (stack : OpenLabels) :
    (supply.withStack family stack).stack other =
      if other = family then stack else supply.stack other := by
  cases family <;> cases other <;> rfl

@[simp] theorem comparisons_with_stack (supply : Supply) (family : LabelFamily)
    (stack : OpenLabels) : (supply.withStack family stack).comparisons = supply.comparisons := by
  cases family <;> rfl

theorem orderly_with_stack {supply : Supply} {family : LabelFamily} {stack : OpenLabels}
    (kept : stack.orderly = (supply.stack family).orderly) :
    (supply.withStack family stack).orderly = supply.orderly := by
  cases family <;> simp [orderly, withStack, kept, Supply.stack]

/-- The counters have gone on, and the open labels are as before. -/
structure Spent (before : Supply) (tally : Tally) (after : Supply) : Prop where
  families : ∀ family, after.stack family =
    { before.stack family with next := (before.stack family).next + tally.labels family }
  comparisons : after.comparisons = before.comparisons + tally.relations

namespace Spent

theorem trans {first second third : Supply} {tally more : Tally}
    (one : first.Spent tally second) (two : second.Spent more third) :
    first.Spent (tally + more) third where
  families family := by simp [two.families, one.families, Nat.add_assoc]
  comparisons := by simp [two.comparisons, one.comparisons, Nat.add_assoc]

variable {supply after : Supply} {family : LabelFamily} {tally : Tally}
  (inside : (supply.withStack family (supply.stack family).push).Spent tally after)

include inside

theorem top : (after.stack family).opened.head? = some (supply.stack family).next := by
  simp [inside.families, OpenLabels.push]

theorem close :
    supply.Spent (.label family + tally)
      (after.withStack family ((after.stack family).close (supply.stack family).next)) where
  families other := by
    by_cases same : other = family
    · subst same
      simp [inside.families, OpenLabels.push, OpenLabels.close, Tally.label, Nat.add_assoc]
    · simp [inside.families, same, Tally.label]
  comparisons := by simp [inside.comparisons, Tally.label]

end Spent

end Supply

theorem Supply.spent_none (supply : Supply) : supply.Spent .none supply :=
  ⟨fun _ => rfl, rfl⟩

namespace Emit

variable {α β : Type}

/-- From `supply`, the step ends as `good` says unless it fails. In either case
no label is closed out of order on the way. -/
structure Ends (step : Emit α) (supply : Supply) (good : α → Supply → Prop) : Prop where
  orderly : (step supply).2.orderly = supply.orderly
  ended : ∀ {value after}, step supply = (.ok value, after) → good value after

theorem bind_after_ok {step : Emit α} {next : α → Emit β} {supply middle : Supply} {value : α}
    (ran : step supply = (.ok value, middle)) : (step >>= next) supply = next value middle := by
  simp only [Bind.bind, Emit.bind, ran]

theorem bind_after_error {step : Emit α} {next : α → Emit β} {supply middle : Supply}
    {fault : Fault} (ran : step supply = (.error fault, middle)) :
    (step >>= next) supply = (.error fault, middle) := by
  simp only [Bind.bind, Emit.bind, ran]

theorem ends_bind {step : Emit α} {next : α → Emit β} {supply : Supply}
    {good : α → Supply → Prop} {fine : β → Supply → Prop} (first : step.Ends supply good)
    (second : ∀ value middle, good value middle → (next value).Ends middle fine) :
    Ends (step >>= next) supply fine := by
  rcases ran : step supply with ⟨fault | value, middle⟩
  · have kept := first.orderly
    rw [ran] at kept
    exact ⟨by rw [bind_after_error ran]; exact kept, by simp [bind_after_error ran]⟩
  · have kept := first.orderly
    have rest := second value middle (first.ended ran)
    rw [ran] at kept
    constructor
    · rw [bind_after_ok ran]
      exact rest.orderly.trans kept
    · rw [bind_after_ok ran]
      exact rest.ended

/-- From every supply, the step takes so many labels and leaves those that are
open alone. -/
def Spends (step : Emit α) (tally : Tally) : Prop :=
  ∀ supply, step.Ends supply fun _ after => supply.Spent tally after

theorem ends_pure {value : α} {supply : Supply} {good : α → Supply → Prop}
    (holds : good value supply) : Ends (Pure.pure value) supply good :=
  ⟨rfl, by rintro _ _ ⟨⟩; exact holds⟩

theorem spends_pure (value : α) : Spends (Pure.pure value) .none := fun supply =>
  ends_pure supply.spent_none

theorem spends_unknown (line : Nat) (tally : Tally) : Spends (unknown line : Emit α) tally :=
  fun _ => ⟨rfl, by simp [unknown]⟩

theorem spends_bind {step : Emit α} {next : α → Emit β} {tally more : Tally}
    (first : step.Spends tally) (second : ∀ value, (next value).Spends more) :
    Spends (step >>= next) (tally + more) := fun supply =>
  ends_bind (first supply) fun value middle spent =>
    ⟨(second value middle).orderly, fun ended => spent.trans ((second value middle).ended ended)⟩

theorem spends_behind {step : Emit α} {next : α → Emit β} {tally : Tally}
    (first : step.Spends .none) (second : ∀ value, (next value).Spends tally) :
    Spends (step >>= next) tally := by
  simpa using spends_bind first second

theorem spends_then {step : Emit α} {change : α → β} {tally : Tally}
    (first : step.Spends tally) :
    Spends (step >>= fun value => Pure.pure (change value)) tally := by
  simpa using spends_bind first fun value => spends_pure (change value)

theorem spends_new_text (text : String) : Spends (newText text) .none := fun _ =>
  ⟨rfl, by rintro _ _ ⟨⟩; exact ⟨by rintro ⟨⟩ <;> rfl, rfl⟩⟩

theorem spends_new_comparison : Spends newComparison (.comparisons 1) := fun _ =>
  ⟨rfl, by rintro _ _ ⟨⟩; exact ⟨by rintro ⟨⟩ <;> rfl, rfl⟩⟩

/-! A label opened before a step and closed behind it. -/

theorem ends_open (family : LabelFamily) (supply : Supply) :
    (openLabel family).Ends supply fun number after => number = (supply.stack family).next ∧
      after = supply.withStack family (supply.stack family).push :=
  ⟨Supply.orderly_with_stack rfl, by rintro _ _ ⟨⟩; exact ⟨rfl, rfl⟩⟩

/-- Closing is in order where the label is the innermost open one. -/
theorem ends_close (family : LabelFamily) {number : Nat} {supply : Supply}
    (top : (supply.stack family).opened.head? = some number) :
    (closeLabel family number).Ends supply fun _ after =>
      after = supply.withStack family ((supply.stack family).close number) :=
  ⟨Supply.orderly_with_stack (by simp [OpenLabels.close, top]), by rintro _ _ ⟨⟩; rfl⟩

end Emit

open Emit

variable {env : Env}

theorem cells_spend (name : String) (line : Nat) : (env.cells name line).Spends .none := by
  rw [Env.cells]
  cases env.cells? name with
  | none => exact spends_unknown line _
  | some cells => exact spends_pure cells

theorem text_code_spends (text : String) : (textCode text).Spends .none := by
  unfold textCode
  split
  · exact spends_pure _
  · exact spends_bind (spends_new_text text) fun _ => spends_pure _

/-- Relational operators take a number, the others none. -/
theorem binary_code_spends (op : BinaryOp) (left : Pushed) :
    (binaryCode op left).Spends (.comparisons op.isRelational.toNat) := by
  cases op
  case add | sub | or | mul | div | mod | and => exact spends_pure _
  all_goals exact spends_then spends_new_comparison

theorem expr_spends (value : Expr) : (env.expr value).Spends (.count [] [value]) := by
  induction value with
  | number line value => exact spends_pure _
  | string line text => exact text_code_spends text
  | truth line value => exact spends_pure _
  | simple line name =>
      refine spends_behind (cells_spend name line) fun cells => ?_
      cases cells <;> exact spends_pure _
  | indexed line name index ih =>
      refine spends_behind (cells_spend name line) fun cells => ?_
      cases cells with
      | scalar base type => exact spends_unknown line _
      | array base element low count =>
          have inner : Tally.count [] [.indexed line name index] = .count [] [index] := by
            ext <;> simp [Tally.count, Expr.nodes, Expr.isRelation]
          exact inner ▸ spends_then ih
  | unary line op operand ih =>
      have inner : Tally.count [] [.unary line op operand] = .count [] [operand] := by
        ext <;> simp [Tally.count, Expr.nodes, Expr.isRelation]
      exact inner ▸ spends_then ih
  | binary line op left right leftIh rightIh =>
      have inner : Tally.count [] [.binary line op left right] =
          .count [] [left] + (.count [] [right] + .comparisons op.isRelational.toNat) := by
        by_cases relational : op.isRelational = true
        · ext <;> simp [Tally.count, Tally.comparisons, Expr.nodes, Expr.isRelation, relational]
          omega
        · ext <;> simp [Tally.count, Tally.comparisons, Expr.nodes, Expr.isRelation, relational]
      rw [inner]
      exact spends_bind leftIh fun _ => spends_bind rightIh fun _ =>
        spends_then (binary_code_spends op _)

theorem target_spends (target : Target) :
    (env.target target).Spends (.count [] target.indexes) := by
  cases target with
  | simple line name =>
      refine spends_behind (cells_spend name line) fun cells => ?_
      cases cells <;> exact spends_pure _
  | indexed line name index =>
      refine spends_behind (cells_spend name line) fun cells => ?_
      cases cells with
      | scalar base type => exact spends_unknown line _
      | array base element low count => exact spends_then (expr_spends index)

theorem exprs_spend (values : List Expr) : (env.exprs values).Spends (.count [] values) := by
  induction values with
  | nil => exact spends_pure _
  | cons first rest ih =>
      rw [Tally.count_values_cons]
      exact spends_bind (expr_spends first) fun _ => spends_then ih

theorem reads_spend (targets : List Target) :
    (env.reads targets).Spends (.count [] (targets.flatMap Target.indexes)) := by
  induction targets with
  | nil => exact spends_pure _
  | cons first rest ih =>
      rw [List.flatMap_cons, Tally.count_values_append]
      exact spends_bind (target_spends first) fun _ => spends_then ih

theorem writes_spend (values : List Expr) : (env.writes values).Spends (.count [] values) := by
  induction values with
  | nil => exact spends_pure _
  | cons first rest ih =>
      rw [Tally.count_values_cons]
      exact spends_bind (expr_spends first) fun _ => spends_then ih

theorem call_spends (name : String) (arguments : List Expr) (nodeLine : Nat) :
    (env.call name arguments nodeLine).Spends (.count [] arguments) := by
  have reversed : Tally.count [] arguments.reverse = .count [] arguments := by
    have same := (List.reverse_perm arguments).flatMap_right Expr.nodes
    ext <;> simp only [Tally.count, same.countP_eq]
  unfold Env.call
  cases env.procedure? name with
  | none => exact spends_unknown nodeLine _
  | some found =>
      rw [← reversed, ← Tally.add_none (.count [] arguments.reverse)]
      refine spends_bind (exprs_spend arguments.reverse) fun code => ?_
      dsimp only
      split <;> exact spends_pure _

namespace Tally

def ofBody (body : List Stmt) : Tally := count (partsOf body) (valuesOf body)

def ofStmt (statement : Stmt) : Tally := count statement.parts statement.values

theorem of_body_cons (first : Stmt) (rest : List Stmt) :
    ofBody (first :: rest) = ofStmt first + ofBody rest := by
  rw [ofBody, partsOf, valuesOf, count_append]
  rfl

theorem of_plain {statement : Stmt} {inner : List Stmt}
    (plain : ∀ family : LabelFamily, family.takes statement = false)
    (parts : statement.parts = statement :: inner) :
    ofStmt statement = count inner statement.values := by
  ext <;> simp [ofStmt, count, parts, plain]

theorem of_assign (line : Nat) (target : Target) (value : Expr) :
    ofStmt (.assign line target value) = count [] target.indexes + count [] [value] := by
  rw [← count_values_append]
  exact of_plain (by rintro ⟨⟩ <;> rfl) rfl

theorem of_call (line : Nat) (name : String) (arguments : List Expr) :
    ofStmt (.call line name arguments) = count [] arguments :=
  of_plain (by rintro ⟨⟩ <;> rfl) rfl

theorem of_read (line : Nat) (targets : List Target) :
    ofStmt (.read line targets) = count [] (targets.flatMap Target.indexes) :=
  of_plain (by rintro ⟨⟩ <;> rfl) rfl

theorem of_write (line : Nat) (values : List Expr) :
    ofStmt (.write line values) = count [] values :=
  of_plain (by rintro ⟨⟩ <;> rfl) rfl

theorem of_block (line : Nat) (body : List Stmt) : ofStmt (.block line body) = ofBody body :=
  of_plain (by rintro ⟨⟩ <;> rfl) rfl

theorem of_if_then (line : Nat) (condition : Expr) (thenLine : Nat) (thenBody : List Stmt) :
    ofStmt (.ifThen line condition thenLine thenBody) =
      label .otherwise + (count [] [condition] + ofBody thenBody) := by
  ext family
  · cases family <;>
      simp [ofStmt, ofBody, count, label, Stmt.parts, LabelFamily.takes, Stmt.isConditional,
        Stmt.isAlternative, Stmt.isLoop, List.countP_cons, Nat.add_comm]
  · simp [ofStmt, ofBody, count, label, Stmt.values]

theorem of_if_else (line : Nat) (condition : Expr) (thenLine : Nat) (thenBody : List Stmt)
    (elseLine : Nat) (elseBody : List Stmt) :
    ofStmt (.ifElse line condition thenLine thenBody elseLine elseBody) =
      label .otherwise + (count [] [condition] + ofBody thenBody) +
        (label .endIf + ofBody elseBody) := by
  ext family
  · cases family <;>
      simp [ofStmt, ofBody, count, label, Stmt.parts, LabelFamily.takes, Stmt.isConditional,
        Stmt.isAlternative, Stmt.isLoop, List.countP_cons] <;>
      omega
  · simp [ofStmt, ofBody, count, label, Stmt.values]
    omega

theorem of_while (line : Nat) (condition : Expr) (bodyLine : Nat) (body : List Stmt) :
    ofStmt (.whileDo line condition bodyLine body) =
      label .loop + (count [] [condition] + ofBody body) := by
  ext family
  · cases family <;>
      simp [ofStmt, ofBody, count, label, Stmt.parts, LabelFamily.takes, Stmt.isConditional,
        Stmt.isAlternative, Stmt.isLoop, List.countP_cons, Nat.add_comm]
  · simp [ofStmt, ofBody, count, label, Stmt.values]

end Tally

mutual

/-- The labels of a statement are opened and closed within its code. The label
of the else part is closed while that of the end is open: they are in different
families. -/
theorem stmt_spends : ∀ statement : Stmt, (env.stmt statement).Spends (.ofStmt statement)
  | .assign line target value => by
      rw [Tally.of_assign]
      exact spends_bind (target_spends target) fun _ => spends_then (expr_spends value)
  | .call line name arguments => by
      rw [Tally.of_call]
      exact call_spends name arguments line
  | .ifThen line condition thenLine thenBody => by
      intro supply
      refine ends_bind (ends_open .otherwise supply) ?_
      rintro _ _ ⟨rfl, rfl⟩
      refine ends_bind (expr_spends condition _) fun _ _ tested => ?_
      refine ends_bind (stmts_spend thenBody _) fun _ _ coded => ?_
      have inside := tested.trans coded
      refine ends_bind (ends_close .otherwise inside.top) ?_
      rintro _ _ rfl
      rw [Tally.of_if_then]
      exact ends_pure inside.close
  | .ifElse line condition thenLine thenBody elseLine elseBody => by
      intro supply
      refine ends_bind (ends_open .otherwise supply) ?_
      rintro _ _ ⟨rfl, rfl⟩
      refine ends_bind (expr_spends condition _) fun _ _ tested => ?_
      refine ends_bind (stmts_spend thenBody _) fun _ middle coded => ?_
      have inside := tested.trans coded
      refine ends_bind (ends_open .endIf middle) ?_
      rintro _ _ ⟨rfl, rfl⟩
      refine ends_bind (ends_close .otherwise inside.top) ?_
      rintro _ _ rfl
      refine ends_bind (stmts_spend elseBody _) fun _ last skipped => ?_
      -- the else part begins with its own label closed and that of the end open
      let closed : Supply :=
        middle.withStack .otherwise ((middle.stack .otherwise).close (supply.stack .otherwise).next)
      have outside : (closed.withStack .endIf (closed.stack .endIf).push).Spent
          (.ofBody elseBody) last := skipped
      refine ends_bind (ends_close .endIf outside.top) ?_
      rintro _ _ rfl
      rw [Tally.of_if_else]
      exact ends_pure (inside.close.trans outside.close)
  | .whileDo line condition bodyLine body => by
      intro supply
      refine ends_bind (ends_open .loop supply) ?_
      rintro _ _ ⟨rfl, rfl⟩
      refine ends_bind (expr_spends condition _) fun _ _ tested => ?_
      refine ends_bind (stmts_spend body _) fun _ _ coded => ?_
      have inside := tested.trans coded
      refine ends_bind (ends_close .loop inside.top) ?_
      rintro _ _ rfl
      rw [Tally.of_while]
      exact ends_pure inside.close
  | .read line targets => by
      rw [Tally.of_read]
      exact spends_then (reads_spend targets)
  | .write line values => by
      rw [Tally.of_write]
      exact spends_then (writes_spend values)
  | .block line body => by
      rw [Tally.of_block]
      exact stmts_spend body

theorem stmts_spend : ∀ body : List Stmt, (env.stmts body).Spends (.ofBody body)
  | [] => spends_pure _
  | first :: rest => by
      rw [Tally.of_body_cons]
      exact spends_bind (stmt_spends first) fun _ => spends_then (stmts_spend rest)

end

namespace Program

def statements (program : Program) : List Stmt := program.bodies.flatMap partsOf

def expressions (program : Program) : List Expr :=
  (program.bodies.flatMap valuesOf).flatMap Expr.nodes

end Program

theorem code_blocks_spend (program : Program) (blocks : List Block) :
    (codeBlocks program blocks).Spends
      (.count ((blocks.map (Block.statements program)).flatMap partsOf)
        ((blocks.map (Block.statements program)).flatMap valuesOf)) := by
  induction blocks with
  | nil => exact spends_pure _
  | cons first rest ih =>
      rw [List.map_cons, List.flatMap_cons, List.flatMap_cons, Tally.count_append]
      exact spends_bind (spends_then (stmts_spend _)) fun _ => spends_then ih

theorem program_spends (program : Program) :
    (programCode program).Spends
      (.count program.statements (program.bodies.flatMap valuesOf)) := by
  rw [program_code_eq, Program.statements, ← block_bodies]
  exact spends_then (code_blocks_spend program program.blocks)

theorem listing_coded {program : Program} {listing : Listing}
    (generated : Listing.ofProgram program = .ok listing) :
    ∃ final, programCode program .empty = (.ok (listing.procedures, listing.main), final) := by
  unfold Listing.ofProgram at generated
  split at generated
  next procedures main final coded =>
    cases generated
    exact ⟨final, coded⟩
  next => cases generated

/-- Generation goes through the blocks of a program, and the number that a block
has is the place of a frame. Whether it succeeds or fails, no label is closed
that is not the innermost open one of its family. Where it succeeds no label is
left open, and each counter has counted the nodes that take labels from it. -/
theorem generation_orderly (program : Program) :
    programCode program = (do
      let codes ← codeBlocks program program.blocks
      Pure.pure (codes.dropLast, codes.getLastD [])) ∧
    (∀ block ∈ program.blocks, (block.env program).Indexed) ∧
    program.blocks.map (Block.record program) =
      (program.procedures.zipIdx.map fun entry =>
        (some entry.2, (Layout.ofProgram program).frames.take (entry.2 + 1), entry.1.body)) ++
      [(none, (Layout.ofProgram program).frames, program.body)] ∧
    (Layout.ofProgram program).frames.map Frame.name = program.procedures.map Procedure.name ∧
    (programCode program .empty).2.orderly = true ∧
    ∀ listing, Listing.ofProgram program = .ok listing →
      ∃ final, programCode program .empty = (.ok (listing.procedures, listing.main), final) ∧
        final.otherwises = ⟨program.statements.countP Stmt.isConditional, [], true⟩ ∧
        final.endIfs = ⟨program.statements.countP Stmt.isAlternative, [], true⟩ ∧
        final.loops = ⟨program.statements.countP Stmt.isLoop, [], true⟩ ∧
        final.comparisons = program.expressions.countP Expr.isRelation := by
  have spends := program_spends program .empty
  refine ⟨program_code_eq program, blocks_indexed program, block_records program,
    Layout.allocate_frames_names _ _ _, spends.orderly, fun listing generated => ?_⟩
  obtain ⟨final, coded⟩ := listing_coded generated
  have spent := spends.ended coded
  have counted (family : LabelFamily) : final.stack family =
      ⟨program.statements.countP family.takes, [], true⟩ := by
    rw [spent.families]
    cases family <;> simp [Supply.stack, Supply.empty, OpenLabels.empty, Tally.count]
  refine ⟨final, coded, counted .otherwise, counted .endIf, counted .loop, ?_⟩
  simpa [Supply.empty, Tally.count, Program.expressions] using spent.comparisons

/-- A loop around two branches, the inner of which writes an undeclared name. -/
def unwritable : Program where
  name := "unwritable"
  line := 1
  vars := []
  procedures := []
  bodyLine := 3
  body := [
    .whileDo 4 (.truth 4 true) 4 [
      .ifThen 5 (.binary 5 .less (.number 5 1) (.number 5 2)) 5 [
        .ifElse 6 (.truth 6 false) 6 [] 7 [.write 8 [.simple 8 "column"]]]]]

theorem tally_generation_orderly :
    (∃ listing final, Listing.ofProgram tally = .ok listing ∧
      programCode tally .empty = (.ok (listing.procedures, listing.main), final) ∧
      final.otherwises = ⟨1, [], true⟩ ∧ final.endIfs = ⟨1, [], true⟩ ∧
      final.loops = ⟨1, [], true⟩ ∧ final.comparisons = 2) ∧
    (programCode unwritable .empty).1.toOption.isNone = true ∧
    (programCode unwritable .empty).2.loops.opened = [0] ∧
    (programCode unwritable .empty).2.orderly = true := by
  have accepted : (Listing.ofProgram tally).map (fun _ => ()) = .ok () := by decide +kernel
  refine ⟨?_, by decide +kernel, by decide +kernel,
    (generation_orderly unwritable).2.2.2.2.1⟩
  obtain ⟨listing, generated, _⟩ := except_map_ok.1 accepted
  obtain ⟨final, coded, counted⟩ := (generation_orderly tally).2.2.2.2.2 listing generated
  exact ⟨listing, final, generated, coded, counted⟩

end PascalCasl
