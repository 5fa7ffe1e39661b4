import Mathlib.Data.List.Nodup
import PascalCasl.Proofs.Code.Inversion
import PascalCasl.Proofs.Meaning.Machine

/-!
Labels of generated code. Each piece of code takes the numbers of its labels
from the supply, so pieces that are generated one after another have different
labels, wherever they are listed. In a listing each label is defined once, and
the texts that code refers to by number are in its table.
-/

namespace PascalCasl

open Casl

@[simp] theorem labels_nil : labels [] = [] := rfl

@[simp] theorem labels_append (first second : Code) :
    labels (first ++ second) = labels first ++ labels second := by
  simp [labels]

@[simp] theorem labels_line (op : Op) (rest : Code) : labels (line op :: rest) = labels rest := rfl

@[simp] theorem labels_labelled (label : Label) (op : Op) (rest : Code) :
    labels (labelled label op :: rest) = label :: labels rest := rfl

@[simp] theorem labels_place (label : Label) (rest : Code) :
    labels (place label :: rest) = label :: labels rest := rfl

/-- How many labels of the family were handed out. Procedures, texts and the
labels of the listing itself are not taken from the supply. -/
def Supply.issued (supply : Supply) : Label → Nat
  | .otherwise _ => supply.otherwises.next
  | .endIf _ => supply.endIfs.next
  | .loop _ | .endLoop _ => supply.loops.next
  | .onTrue _ | .onFalse _ | .both _ => supply.comparisons
  | _ => 0

def Casl.Label.number : Label → Nat
  | .text number | .procedure number | .otherwise number | .endIf number | .loop number
  | .endLoop number | .onTrue number | .onFalse number | .both number => number
  | _ => 0

/-- Counters never fall, and texts stay in the table. -/
structure Supply.Grows (before after : Supply) : Prop where
  issued : ∀ label, before.issued label ≤ after.issued label
  texts : before.texts <+: after.texts

/-- These labels are different and were all handed out in between. -/
structure Numbered (before after : Supply) (names : List Label) : Prop where
  grows : before.Grows after
  between : ∀ label ∈ names, before.issued label ≤ label.number ∧ label.number < after.issued label
  distinct : names.Nodup

namespace Numbered

variable {first second third : Supply} {names others : List Label}

theorem append (one : Numbered first second names) (two : Numbered second third others) :
    Numbered first third (names ++ others) where
  grows := ⟨fun label => Nat.le_trans (one.grows.issued label) (two.grows.issued label),
    one.grows.texts.trans two.grows.texts⟩
  between label member := by
    have lower := one.grows.issued label
    have upper := two.grows.issued label
    rcases List.mem_append.mp member with inFirst | inSecond
    · have taken := one.between label inFirst
      omega
    · have taken := two.between label inSecond
      omega
  distinct := by
    refine List.nodup_append.mpr ⟨one.distinct, two.distinct, ?_⟩
    rintro label inFirst _ inSecond rfl
    have early := one.between label inFirst
    have late := two.between label inSecond
    omega

theorem perm (numbered : Numbered first second names) (same : names.Perm others) :
    Numbered first second others where
  grows := numbered.grows
  between label member := numbered.between label (same.mem_iff.mpr member)
  distinct := same.nodup_iff.mp numbered.distinct

theorem refl (supply : Supply) : Numbered supply supply [] where
  grows := ⟨fun _ => Nat.le_refl _, List.prefix_refl _⟩
  between := by simp
  distinct := List.nodup_nil

end Numbered

/-- The labels that have the number of an open one. -/
def LabelFamily.labels (number : Nat) : LabelFamily → List Label
  | .otherwise => [.otherwise number]
  | .endIf => [.endIf number]
  | .loop => [.loop number, .endLoop number]

theorem open_label_numbered (family : LabelFamily) {supply after : Supply} {number : Nat}
    (opened : Emit.openLabel family supply = (.ok number, after)) :
    Numbered supply after (family.labels number) := by
  cases opened
  refine ⟨⟨fun label => ?_, ?_⟩, ?_, ?_⟩
  · cases family <;> cases label <;>
      simp [Supply.issued, Supply.stack, Supply.withStack, OpenLabels.push]
  · cases family <;> exact List.prefix_refl _
  · cases family <;>
      simp [Supply.issued, Supply.stack, Supply.withStack, OpenLabels.push, LabelFamily.labels,
        Label.number]
  · cases family <;> simp [LabelFamily.labels]

theorem close_label_numbered (family : LabelFamily) {supply after : Supply} {number : Nat}
    (closed : Emit.closeLabel family number supply = (.ok (), after)) :
    Numbered supply after [] := by
  cases closed
  refine ⟨⟨fun label => ?_, ?_⟩, by simp, List.nodup_nil⟩
  · cases family <;> cases label <;>
      simp [Supply.issued, Supply.stack, Supply.withStack, OpenLabels.close]
  · cases family <;> exact List.prefix_refl _

theorem new_comparison_numbered {supply after : Supply} {number : Nat} (taken : Bool)
    (counted : Emit.newComparison supply = (.ok number, after)) :
    Numbered supply after [if taken then .onTrue number else .onFalse number, .both number] := by
  cases counted
  refine ⟨⟨fun label => ?_, List.prefix_refl _⟩, ?_, ?_⟩
  · cases label <;> simp [Supply.issued]
  · cases taken <;> simp [Supply.issued, Label.number]
  · cases taken <;> simp

theorem new_text_numbered {supply after : Supply} {number : Nat} {text : String}
    (entered : Emit.newText text supply = (.ok number, after)) :
    Numbered supply after [] ∧ after.texts[number]? = some text := by
  cases entered
  refine ⟨⟨⟨fun label => ?_, List.prefix_append _ _⟩, by simp, List.nodup_nil⟩, by simp⟩
  cases label <;> simp [Supply.issued]

variable {env : Env} {supply after : Supply} {pushed : Pushed} {code : Code}

theorem text_code_numbered {text : String}
    (generated : textCode text supply = (.ok (pushed, code), after)) :
    Numbered supply after (labels code) := by
  rcases text_code_inv generated with ⟨_, _, rfl, _, rfl⟩ | ⟨number, _, entered, _, rfl⟩
  · exact Numbered.refl after
  · exact (new_text_numbered entered).1

theorem binary_code_numbered {op : BinaryOp} {left : Pushed}
    (generated : binaryCode op left supply = (.ok code, after)) :
    Numbered supply after (labels code) := by
  rcases binary_code_inv generated with ⟨plain, rfl⟩ | ⟨condition, taken, number, _, counted, rfl⟩
  · have unlabelled : labels code = [] := by
      cases op <;> cases plain <;> rfl
    exact unlabelled ▸ Numbered.refl after
  · exact new_comparison_numbered taken counted

theorem expr_numbered {value : Expr}
    (generated : env.expr value supply = (.ok (pushed, code), after)) :
    Numbered supply after (labels code) := by
  induction value generalizing supply after pushed code with
  | number line value =>
      cases generated
      exact Numbered.refl supply
  | string line text => exact text_code_numbered generated
  | truth line value =>
      cases generated
      exact Numbered.refl supply
  | simple line name =>
      rcases expr_simple_inv generated with ⟨rfl, ⟨_, _, _, _, rfl⟩ | ⟨_, _, _, _, _, _, rfl⟩⟩ <;>
        exact Numbered.refl after
  | indexed line name index ih =>
      rcases expr_indexed_inv generated with ⟨_, _, _, _, _, _, _, indexed, _, rfl⟩
      simpa [locateElement, popInto, pushCell, pushRegister] using ih indexed
  | unary line op operand ih =>
      rcases expr_unary_inv generated with ⟨operandCode, coded, rfl⟩
      have unlabelled : labels (unaryCode op) = [] := by cases op <;> rfl
      simpa [unlabelled] using ih coded
  | binary line op left right leftIh rightIh =>
      rcases expr_binary_inv generated with
        ⟨_, leftCode, _, rightCode, joint, _, _, leftCoded, rightCoded, joined, _, rfl⟩
      have operands := (leftIh leftCoded).append (rightIh rightCoded)
      simpa [popInto] using operands.append (binary_code_numbered joined)

theorem target_numbered {target : Target}
    (generated : env.target target supply = (.ok (pushed, code), after)) :
    Numbered supply after (labels code) := by
  cases target with
  | simple line name =>
      rcases target_simple_inv generated with ⟨rfl, ⟨_, _, _, _, rfl⟩ | ⟨_, _, _, _, _, _, rfl⟩⟩ <;>
        exact Numbered.refl after
  | indexed line name index =>
      rcases target_indexed_inv generated with ⟨_, _, _, _, _, _, _, indexed, _, rfl⟩
      simpa [locateElement, popInto, pushRegister] using expr_numbered indexed

theorem numbered_composes : Composes fun supply code after =>
    Numbered supply after (labels code) where
  nothing := Numbered.refl
  joined first second := by simpa using first.append second

theorem exprs_numbered {values : List Expr}
    (generated : env.exprs values supply = (.ok code, after)) :
    Numbered supply after (labels code) :=
  numbered_composes.exprs (fun _ _ => expr_numbered) generated

theorem target_read_numbered {target : Target}
    (generated : env.target target supply = (.ok (pushed, code), after)) :
    Numbered supply after (labels (code ++ readCode pushed)) := by
  have unlabelled : labels (readCode pushed) = [] := by cases pushed <;> rfl
  simpa [unlabelled] using target_numbered generated

theorem reads_numbered {targets : List Target}
    (generated : env.reads targets supply = (.ok code, after)) :
    Numbered supply after (labels code) :=
  numbered_composes.reads (fun _ _ => target_read_numbered) generated

theorem expr_written_numbered {value : Expr}
    (generated : env.expr value supply = (.ok (pushed, code), after)) :
    Numbered supply after (labels (code ++ writeCode pushed)) := by
  have unlabelled : labels (writeCode pushed) = [] := by cases pushed <;> rfl
  simpa [unlabelled] using expr_numbered generated

theorem writes_numbered {values : List Expr}
    (generated : env.writes values supply = (.ok code, after)) :
    Numbered supply after (labels code) :=
  numbered_composes.writes (fun _ _ => expr_written_numbered) generated

theorem labels_flat_map {α : Type} {items : List α} {lines : α → Code}
    (unlabelled : ∀ item, labels (lines item) = []) : labels (items.flatMap lines) = [] := by
  induction items with
  | nil => rfl
  | cons first rest ih => simp [unlabelled, ih]

theorem call_numbered {name : String} {arguments : List Expr} {nodeLine : Nat}
    (generated : env.call name arguments nodeLine supply = (.ok code, after)) :
    Numbered supply after (labels code) := by
  rcases call_inv generated with ⟨frame, argumentCode, _, coded, rfl⟩
  have saved : labels frame.save = [] := labels_flat_map fun _ => rfl
  have restored : labels frame.restore = [] := labels_flat_map fun _ => rfl
  split <;> simpa [saved, restored] using exprs_numbered coded

mutual

theorem stmt_numbered : ∀ (statement : Stmt) {supply after : Supply} {code : Code},
    env.stmt statement supply = (.ok code, after) → Numbered supply after (labels code)
  | .assign _ _ _, _, _, _, generated => by
      rcases assign_inv generated with ⟨_, _, _, _, _, located, coded, rfl⟩
      simpa [popInto, storeCell] using (target_numbered located).append (expr_numbered coded)
  | .call _ _ _, _, _, _, generated => call_numbered generated
  | .ifThen _ _ _ thenBody, _, _, _, generated => by
      rcases if_then_inv generated with
        ⟨number, _, test, thenCode, _, _, _, opened, tested, coded, closed, rfl⟩
      have taken := (expr_numbered tested).append (stmts_numbered thenBody coded)
      have whole := ((open_label_numbered .otherwise opened).append taken).append
        (close_label_numbered .otherwise closed)
      -- the labels stand in the code in another order than they were handed out
      refine whole.perm (List.perm_iff_count.mpr fun label => ?_)
      simp [LabelFamily.labels, jumpIfFalse, popInto, List.count_cons]
      omega
  | .ifElse _ _ _ thenBody _ elseBody, _, _, _, generated => by
      rcases if_else_inv generated with ⟨number, endNumber, _, test, thenCode, elseCode, _, _, _, _,
        _, _, opened, tested, thenCoded, endOpened, closed, elseCoded, endClosed, rfl⟩
      have taken := ((open_label_numbered .otherwise opened).append (expr_numbered tested)).append
        (stmts_numbered thenBody thenCoded)
      have skipped := ((close_label_numbered .otherwise closed).append
        (stmts_numbered elseBody elseCoded)).append (close_label_numbered .endIf endClosed)
      have whole := (taken.append (open_label_numbered .endIf endOpened)).append skipped
      refine whole.perm (List.perm_iff_count.mpr fun label => ?_)
      simp [LabelFamily.labels, jumpIfFalse, popInto, List.count_cons]
      omega
  | .whileDo _ _ _ body, _, _, _, generated => by
      rcases while_inv generated with
        ⟨number, _, test, bodyCode, _, _, _, opened, tested, coded, closed, rfl⟩
      have repeated := (expr_numbered tested).append (stmts_numbered body coded)
      have whole := ((open_label_numbered .loop opened).append repeated).append
        (close_label_numbered .loop closed)
      refine whole.perm (List.perm_iff_count.mpr fun label => ?_)
      simp [LabelFamily.labels, jumpIfFalse, popInto, List.count_cons]
      omega
  | .read _ _, _, _, _, generated => by
      rcases read_inv generated with ⟨inner, coded, rfl⟩
      simpa [callRoutine] using reads_numbered coded
  | .write _ _, _, _, _, generated => by
      rcases write_inv generated with ⟨inner, coded, rfl⟩
      simpa [callRoutine] using writes_numbered coded
  | .block _ body, _, _, _, generated => stmts_numbered body generated

theorem stmts_numbered : ∀ (body : List Stmt) {supply after : Supply} {code : Code},
    env.stmts body supply = (.ok code, after) → Numbered supply after (labels code)
  | [], _, after, _, generated => by
      rcases stmts_nil_inv generated with ⟨rfl, rfl⟩
      exact Numbered.refl after
  | first :: rest, _, _, _, generated => by
      rcases stmts_cons_inv generated with ⟨_, _, _, coded, more, rfl⟩
      exact numbered_composes.joined (stmt_numbered first coded) (stmts_numbered rest more)

end

theorem opening_labels (program : Program) (block : Block) :
    labels (block.opening program) = block.current.toList.map Label.procedure := by
  cases block with
  | main => rfl
  | procedure earlier own =>
      have params := @labels_flat_map _ (List.range own.params.length)
        (receiveParam (frameAfter program earlier own).base) fun _ => rfl
      have received :
          labels (prologue (frameAfter program earlier own).base own.params.length) = [] := by
        simp only [prologue, labels_append, params, dropParams]
        split <;> rfl
      simp [Block.opening, Block.current, received]

/-- Each procedure has a label with its number; the other labels of blocks come
from the supply. -/
theorem blocks_numbered {program : Program} {blocks : List Block} {codes : List Code}
    (generated : codeBlocks program blocks supply = (.ok codes, after)) :
    ∃ names, Numbered supply after names ∧
      (labels codes.flatten).Perm
        ((blocks.filterMap Block.current).map Label.procedure ++ names) := by
  induction blocks generalizing supply codes with
  | nil =>
      rcases blocks_nil_inv generated with ⟨rfl, rfl⟩
      exact ⟨[], Numbered.refl after, .refl _⟩
  | cons block rest ih =>
      rcases blocks_cons_inv generated with ⟨body, others, middle, coded, more, rfl⟩
      rcases ih more with ⟨names, numbered, same⟩
      refine ⟨_, (stmts_numbered _ coded).append numbered, ?_⟩
      have closed : labels block.closing = [] := by cases block <;> rfl
      -- The code of a block puts its own label before the labels of its body.
      rw [List.perm_iff_count] at same ⊢
      intro label
      have counted := same label
      cases block <;>
        simp [opening_labels, closed, Block.current, List.filterMap_cons, List.count_cons]
          at counted ⊢ <;>
        omega

theorem labels_text_lines (texts : List String) :
    labels (Listing.textLines texts) = (List.range texts.length).map Label.text := by
  have numbered : texts.zipIdx.map Prod.snd = List.range texts.length := by
    rw [List.zipIdx_map_snd, List.range_eq_range']
  rw [← numbered, List.map_map, labels, Listing.textLines, List.filterMap_map]
  exact congrFun (List.filterMap_eq_map (f := fun entry : String × Nat => Label.text entry.2)) _

/-- In a listing each label is defined once. -/
theorem listing_labels_distinct {program : Program} {listing : Listing}
    (generated : Listing.ofProgram program = .ok listing) : (labels listing.lines).Nodup := by
  rcases listing_inv generated with ⟨middle, last, proceduresCoded, mainCoded, _, _⟩
  rcases blocks_numbered proceduresCoded with ⟨names, numbered, same⟩
  rw [procedure_blocks_current] at same
  have supplied := numbered.append (stmts_numbered program.body mainCoded)
  -- The families that are not taken from the supply come first.
  have arranged : (labels listing.lines).Perm
      ([.program, .entry, .variables, .buffer] ++
        ((List.range listing.texts.length).map Label.text ++
        ((List.range program.procedures.length).map Label.procedure ++
          (names ++ labels listing.main)))) := by
    rw [List.perm_iff_count] at same ⊢
    intro label
    have counted := same label
    simp [Listing.lines, Listing.header, labels_text_lines, List.count_cons] at counted ⊢
    omega
  refine arranged.nodup_iff.mpr ?_
  -- Families are apart by their constructors; the supply issued none of the first three.
  have texts : ((List.range listing.texts.length).map Label.text).Nodup :=
    List.nodup_range.map fun _ _ => Label.text.inj
  have procedures (count : Nat) : ((List.range count).map Label.procedure).Nodup :=
    List.nodup_range.map fun _ _ => Label.procedure.inj
  have foreign {label : Label} (member : label ∈ names ++ labels listing.main) :
      0 < last.issued label := by
    have between := supplied.between label member
    omega
  refine List.nodup_append.mpr ⟨by decide, List.nodup_append.mpr ⟨texts,
    List.nodup_append.mpr ⟨procedures _, supplied.distinct, ?_⟩, ?_⟩, ?_⟩
  · rintro label inProcedures _ inSupply rfl
    rcases List.mem_map.mp inProcedures with ⟨number, _, rfl⟩
    exact absurd (foreign inSupply) (by simp [Supply.issued])
  · rintro label inTexts other inOthers rfl
    rcases List.mem_map.mp inTexts with ⟨number, _, rfl⟩
    rcases List.mem_append.mp inOthers with inProcedures | inSupply
    · simp at inProcedures
    · exact absurd (foreign inSupply) (by simp [Supply.issued])
  · rintro label fixed other inOthers rfl
    simp only [List.mem_append, List.mem_map] at inOthers
    rcases inOthers with ⟨_, _, rfl⟩ | ⟨_, _, rfl⟩ | inSupply
    · simp at fixed
    · simp at fixed
    · have issued := foreign (List.mem_append.mpr inSupply)
      cases label <;> simp [Supply.issued] at issued fixed

theorem label_once {label : Label} {before after otherBefore otherAfter : Code} {line other : Line}
    (same : before ++ line :: after = otherBefore ++ other :: otherAfter)
    (once : (labels (before ++ line :: after)).Nodup) (labelled : line.label? = some label)
    (otherLabelled : other.label? = some label) : before = otherBefore := by
  have defined (first second : Code) (marked : Line) (named : marked.label? = some label) :
      label ∈ labels (first ++ marked :: second) := by
    simp [labels, named]
  induction before generalizing otherBefore with
  | nil =>
      cases otherBefore with
      | nil => rfl
      | cons head rest =>
          -- the first line of one cut is behind the other, so its label stands there twice
          cases same
          simp only [labels, List.nil_append, List.filterMap_cons, labelled] at once
          exact absurd (defined rest otherAfter other otherLabelled) (List.nodup_cons.mp once).1
  | cons head rest ih =>
      cases otherBefore with
      | nil =>
          cases same
          simp only [labels, List.cons_append, List.filterMap_cons, otherLabelled] at once
          exact absurd (defined rest after line labelled) (List.nodup_cons.mp once).1
      | cons otherHead otherRest =>
          rcases List.cons.inj same with ⟨rfl, tails⟩
          have tailOnce : (labels (rest ++ line :: after)).Nodup :=
            once.sublist (List.Sublist.filterMap _ (List.sublist_cons_self head _))
          rw [ih tails tailOnce]

end PascalCasl
