import PascalCasl.Proofs.Code.Agreement
import PascalCasl.Proofs.Code.Inversion

/-!
Where the code of a part stands. The code of a statement contains the code of
each statement and of each expression in it, in any depth, as one run of lines.
-/

namespace PascalCasl

open Casl

mutual

def Stmt.parts (statement : Stmt) : List Stmt :=
  match statement with
  | .ifThen line condition thenLine thenBody =>
      .ifThen line condition thenLine thenBody :: partsOf thenBody
  | .ifElse line condition thenLine thenBody elseLine elseBody =>
      .ifElse line condition thenLine thenBody elseLine elseBody ::
        (partsOf thenBody ++ partsOf elseBody)
  | .whileDo line condition bodyLine body =>
      .whileDo line condition bodyLine body :: partsOf body
  | .block line body => .block line body :: partsOf body
  | .assign line target value => [.assign line target value]
  | .call line name arguments => [.call line name arguments]
  | .read line targets => [.read line targets]
  | .write line values => [.write line values]
  termination_by structural statement

def partsOf (body : List Stmt) : List Stmt :=
  match body with
  | [] => []
  | first :: rest => first.parts ++ partsOf rest
  termination_by structural body

end

namespace Env

/-- The code is generated for the statement, from some supply. -/
def CodesStmt (env : Env) (statement : Stmt) (code : Code) : Prop :=
  ∃ supply after, env.stmt statement supply = (.ok code, after)

def CodesExpr (env : Env) (value : Expr) (code : Code) : Prop :=
  ∃ supply pushed after, env.expr value supply = (.ok (pushed, code), after)

end Env

/-- Some lines in the code, one after another, are as `codes` says. -/
def Includes (codes : Code → Prop) (code : Code) : Prop := ∃ part, codes part ∧ part <:+: code

namespace Includes

variable {codes : Code → Prop} {first second : Code}

theorem whole (coded : codes first) : Includes codes first := ⟨first, coded, List.infix_rfl⟩

theorem left (included : Includes codes first) : Includes codes (first ++ second) := by
  rcases included with ⟨part, coded, inside⟩
  exact ⟨part, coded, inside.trans (List.prefix_append first second).isInfix⟩

theorem right (included : Includes codes second) : Includes codes (first ++ second) := by
  rcases included with ⟨part, coded, inside⟩
  exact ⟨part, coded, inside.trans (List.suffix_append first second).isInfix⟩

end Includes

variable {env : Env} {supply after : Supply} {pushed : Pushed} {code : Code}

theorem expr_held {value : Expr}
    (generated : env.expr value supply = (.ok (pushed, code), after)) :
    Includes (env.CodesExpr value) code := .whole ⟨supply, pushed, after, generated⟩

theorem nodes_held {value : Expr}
    (generated : env.expr value supply = (.ok (pushed, code), after)) :
    ∀ node ∈ value.nodes, Includes (env.CodesExpr node) code := by
  have whole := expr_held generated
  induction value generalizing supply pushed code after with
  | number _ _ => simpa [Expr.nodes] using whole
  | string _ _ => simpa [Expr.nodes] using whole
  | truth _ _ => simpa [Expr.nodes] using whole
  | simple _ _ => simpa [Expr.nodes] using whole
  | indexed nodeLine name index ih =>
      rcases expr_indexed_inv generated with ⟨_, _, _, _, _, indexCode, _, indexed, _, rfl⟩
      refine List.forall_mem_cons.mpr ⟨whole, fun node member => ?_⟩
      exact (ih indexed (expr_held indexed) node member).left.left
  | unary nodeLine op operand ih =>
      rcases expr_unary_inv generated with ⟨operandCode, coded, rfl⟩
      refine List.forall_mem_cons.mpr ⟨whole, fun node member => ?_⟩
      exact (ih coded (expr_held coded) node member).left
  | binary nodeLine op left right leftIh rightIh =>
      rcases expr_binary_inv generated with
        ⟨_, leftCode, _, rightCode, joint, _, _, leftCoded, rightCoded, _, _, rfl⟩
      refine List.forall_mem_cons.mpr ⟨whole, fun node member => ?_⟩
      rcases List.mem_append.mp member with inLeft | inRight
      · exact (leftIh leftCoded (expr_held leftCoded) node inLeft).left.left.left
      · exact (rightIh rightCoded (expr_held rightCoded) node inRight).right.left.left

theorem indexes_held {target : Target}
    (generated : env.target target supply = (.ok (pushed, code), after)) :
    ∀ value ∈ target.indexes, Includes (env.CodesExpr value) code := by
  cases target with
  | simple _ _ => simp [Target.indexes]
  | indexed nodeLine name index =>
      rcases target_indexed_inv generated with ⟨_, _, _, _, _, _, _, indexed, _, rfl⟩
      simpa [Target.indexes] using (expr_held indexed).left

theorem exprs_held {values : List Expr}
    (generated : env.exprs values supply = (.ok code, after)) :
    ∀ value ∈ values, Includes (env.CodesExpr value) code := by
  induction values generalizing supply code with
  | nil => simp
  | cons first rest ih =>
      rcases exprs_cons_inv generated with ⟨_, _, _, _, coded, more, rfl⟩
      exact List.forall_mem_cons.mpr
        ⟨(expr_held coded).left, fun value member => (ih more value member).right⟩

theorem reads_held {targets : List Target}
    (generated : env.reads targets supply = (.ok code, after)) :
    ∀ value ∈ targets.flatMap Target.indexes, Includes (env.CodesExpr value) code := by
  induction targets generalizing supply code with
  | nil => simp
  | cons first rest ih =>
      rcases reads_cons_inv generated with ⟨_, _, _, _, coded, more, rfl⟩
      rw [List.flatMap_cons, List.forall_mem_append]
      exact ⟨fun value member => (indexes_held coded value member).left.left,
        fun value member => (ih more value member).right⟩

theorem writes_held {values : List Expr}
    (generated : env.writes values supply = (.ok code, after)) :
    ∀ value ∈ values, Includes (env.CodesExpr value) code := by
  induction values generalizing supply code with
  | nil => simp
  | cons first rest ih =>
      rcases writes_cons_inv generated with ⟨_, _, _, _, coded, more, rfl⟩
      exact List.forall_mem_cons.mpr
        ⟨(expr_held coded).left.left, fun value member => (ih more value member).right⟩

theorem call_held {name : String} {arguments : List Expr} {nodeLine : Nat}
    (generated : env.call name arguments nodeLine supply = (.ok code, after)) :
    ∀ value ∈ arguments, Includes (env.CodesExpr value) code := by
  intro value member
  rcases call_inv generated with ⟨_, _, _, coded, rfl⟩
  have given := exprs_held coded value (List.mem_reverse.mpr member)
  split
  · exact given.left.right.left
  · exact given.left

mutual

theorem stmt_parts_held : ∀ (statement : Stmt) {supply after : Supply} {code : Code},
    env.stmt statement supply = (.ok code, after) →
      ∀ part ∈ statement.parts, Includes (env.CodesStmt part) code
  | .assign _ _ _, _, _, _, generated => by
      simpa [Stmt.parts] using Includes.whole ⟨_, _, generated⟩
  | .call _ _ _, _, _, _, generated => by
      simpa [Stmt.parts] using Includes.whole ⟨_, _, generated⟩
  | .ifThen _ _ _ thenBody, _, _, _, generated => by
      refine List.forall_mem_cons.mpr ⟨.whole ⟨_, _, generated⟩, fun part member => ?_⟩
      rcases if_then_inv generated with ⟨_, _, _, _, _, _, _, _, _, coded, _, rfl⟩
      exact (stmts_parts_held thenBody coded part member).right.left
  | .ifElse _ _ _ thenBody _ elseBody, _, _, _, generated => by
      refine List.forall_mem_cons.mpr ⟨.whole ⟨_, _, generated⟩, fun part member => ?_⟩
      rcases if_else_inv generated with
        ⟨_, _, _, _, _, _, _, _, _, _, _, _, _, _, thenCoded, _, _, elseCoded, _, rfl⟩
      rcases List.mem_append.mp member with inThen | inElse
      · exact (stmts_parts_held thenBody thenCoded part inThen).right.left.left.left
      · exact (stmts_parts_held elseBody elseCoded part inElse).right.left
  | .whileDo _ _ _ body, _, _, _, generated => by
      refine List.forall_mem_cons.mpr ⟨.whole ⟨_, _, generated⟩, fun part member => ?_⟩
      rcases while_inv generated with ⟨_, _, _, _, _, _, _, _, _, coded, _, rfl⟩
      exact (stmts_parts_held body coded part member).right.left
  | .read _ _, _, _, _, generated => by
      simpa [Stmt.parts] using Includes.whole ⟨_, _, generated⟩
  | .write _ _, _, _, _, generated => by
      simpa [Stmt.parts] using Includes.whole ⟨_, _, generated⟩
  | .block _ body, _, _, _, generated => by
      refine List.forall_mem_cons.mpr ⟨.whole ⟨_, _, generated⟩, fun part member => ?_⟩
      exact stmts_parts_held body generated part member

theorem stmts_parts_held : ∀ (body : List Stmt) {supply after : Supply} {code : Code},
    env.stmts body supply = (.ok code, after) →
      ∀ part ∈ partsOf body, Includes (env.CodesStmt part) code
  | [], _, _, _, _ => by simp [partsOf]
  | first :: rest, _, _, _, generated => by
      rcases stmts_cons_inv generated with ⟨_, _, _, coded, more, rfl⟩
      rw [partsOf, List.forall_mem_append]
      exact ⟨fun part member => (stmt_parts_held first coded part member).left,
        fun part member => (stmts_parts_held rest more part member).right⟩

end

mutual

theorem stmt_values_held : ∀ (statement : Stmt) {supply after : Supply} {code : Code},
    env.stmt statement supply = (.ok code, after) →
      ∀ value ∈ statement.values, Includes (env.CodesExpr value) code
  | .assign _ _ _, _, _, _, generated => by
      rcases assign_inv generated with ⟨_, _, _, _, _, located, coded, rfl⟩
      rw [Stmt.values, List.forall_mem_append]
      exact ⟨fun value member => (indexes_held located value member).left.left,
        by simpa using (expr_held coded).right.left⟩
  | .call _ _ _, _, _, _, generated => call_held generated
  | .ifThen _ _ _ thenBody, _, _, _, generated => by
      rcases if_then_inv generated with ⟨_, _, _, _, _, _, _, _, tested, coded, _, rfl⟩
      exact List.forall_mem_cons.mpr ⟨(expr_held tested).left.left.left,
        fun value member => (stmts_values_held thenBody coded value member).right.left⟩
  | .ifElse _ _ _ thenBody _ elseBody, _, _, _, generated => by
      rcases if_else_inv generated with
        ⟨_, _, _, _, _, _, _, _, _, _, _, _, _, tested, thenCoded, _, _, elseCoded, _, rfl⟩
      refine List.forall_mem_cons.mpr ⟨(expr_held tested).left.left.left.left.left, ?_⟩
      rw [List.forall_mem_append]
      exact ⟨fun value member =>
          (stmts_values_held thenBody thenCoded value member).right.left.left.left,
        fun value member => (stmts_values_held elseBody elseCoded value member).right.left⟩
  | .whileDo _ _ _ body, _, _, _, generated => by
      rcases while_inv generated with ⟨_, _, _, _, _, _, _, _, tested, coded, _, rfl⟩
      exact List.forall_mem_cons.mpr ⟨(expr_held tested).right.left.left.left,
        fun value member => (stmts_values_held body coded value member).right.left⟩
  | .read _ _, _, _, _, generated => by
      rcases read_inv generated with ⟨_, coded, rfl⟩
      exact fun value member => (reads_held coded value member).left
  | .write _ _, _, _, _, generated => by
      rcases write_inv generated with ⟨_, coded, rfl⟩
      exact fun value member => (writes_held coded value member).left
  | .block _ body, _, _, _, generated => stmts_values_held body generated

theorem stmts_values_held : ∀ (body : List Stmt) {supply after : Supply} {code : Code},
    env.stmts body supply = (.ok code, after) →
      ∀ value ∈ valuesOf body, Includes (env.CodesExpr value) code
  | [], _, _, _, _ => by simp [valuesOf]
  | first :: rest, _, _, _, generated => by
      rcases stmts_cons_inv generated with ⟨_, _, _, coded, more, rfl⟩
      rw [valuesOf, List.forall_mem_append]
      exact ⟨fun value member => (stmt_values_held first coded value member).left,
        fun value member => (stmts_values_held rest more value member).right⟩

end

theorem body_nodes_held {body : List Stmt}
    (generated : env.stmts body supply = (.ok code, after)) :
    ∀ value ∈ valuesOf body, ∀ node ∈ value.nodes, Includes (env.CodesExpr node) code := by
  intro value member node inside
  rcases stmts_values_held body generated value member with
    ⟨part, ⟨_, _, _, coded⟩, within⟩
  rcases nodes_held coded node inside with ⟨inner, innerCoded, innerWithin⟩
  exact ⟨inner, innerCoded, innerWithin.trans within⟩

end PascalCasl
