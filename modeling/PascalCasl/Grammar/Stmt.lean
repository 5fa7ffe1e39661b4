import PascalCasl.Grammar.Expr

/-!
Reading statements. Every statement of a block ends with a semicolon, and the
bodies of branches and loops are blocks. An identifier begins an assignment
when a bracket or an assignment mark follows it, and a call otherwise.
-/

namespace PascalCasl.Grammar

def startsStatement : Kind → Bool
  | .ifWord | .whileWord | .identifier | .readlnWord | .writelnWord | .beginWord => true
  | _ => false

def startsAssignment : List Token → Bool
  | [] => false
  | next :: _ => next.kind = .leftBracket || next.kind = .assign

/-- An assignment is reported at its mark. -/
def assignment : Reader Stmt := fun input => do
  let ⟨assigned, rest, shorter⟩ ← target input
  let ⟨mark, rest, shorter⟩ ← (token .assign rest).under shorter
  let ⟨value, rest, shorter⟩ ← (expr rest).under shorter
  .ok ⟨.assign mark.line assigned value, rest, shorter⟩

def call : Reader Stmt := fun input => do
  let ⟨name, rest, shorter⟩ ← token .identifier input
  let ⟨arguments, rest, shorter⟩ ← (parenthesised (items .comma expr) rest).upTo shorter
  .ok ⟨.call name.line name.text arguments, rest, shorter⟩

mutual

def stmt (input : List Token) : Result Stmt input.length :=
  match input with
  | [] => .error (.unexpected [])
  | first :: rest =>
      match first.kind with
      | .ifWord => do
          let ⟨condition, rest, shorter⟩ ← (expr rest).under (tail_shorter first rest)
          let ⟨_, rest, shorter⟩ ← (token .thenWord rest).under shorter
          let ⟨(thenLine, thenBody), rest, shorter⟩ ← (block rest).under shorter
          let ⟨otherwise?, rest, shorter⟩ ← (elsePart rest).upTo shorter
          match otherwise? with
          | none => .ok ⟨.ifThen first.line condition thenLine thenBody, rest, shorter⟩
          | some (elseLine, elseBody) =>
              .ok ⟨.ifElse first.line condition thenLine thenBody elseLine elseBody, rest, shorter⟩
      | .whileWord => do
          let ⟨condition, rest, shorter⟩ ← (expr rest).under (tail_shorter first rest)
          let ⟨_, rest, shorter⟩ ← (token .doWord rest).under shorter
          let ⟨(bodyLine, body), rest, shorter⟩ ← (block rest).under shorter
          .ok ⟨.whileDo first.line condition bodyLine body, rest, shorter⟩
      | .identifier =>
          -- both begin with a name, and one more token tells them apart
          if startsAssignment rest then assignment (first :: rest) else call (first :: rest)
      | .readlnWord => do
          let ⟨targets, rest, shorter⟩ ←
            (parenthesised (items .comma target) rest).upTo (tail_shorter first rest)
          .ok ⟨.read first.line targets, rest, shorter⟩
      | .writelnWord => do
          let ⟨values, rest, shorter⟩ ←
            (parenthesised (items .comma expr) rest).upTo (tail_shorter first rest)
          .ok ⟨.write first.line values, rest, shorter⟩
      | .beginWord => do
          let ⟨(line, body), rest, shorter⟩ ← block (first :: rest)
          .ok ⟨.block line body, rest, shorter⟩
      | _ => .error (.unexpected (first :: rest))
  termination_by 3 * input.length + 1
  decreasing_by all_goals (simp only [List.length_cons] at *; omega)

def block (input : List Token) : Result (Nat × List Stmt) input.length :=
  match input with
  | [] => .error (.unexpected [])
  | first :: rest =>
      if first.kind = .beginWord then do
        let ⟨body, rest, shorter⟩ ← (stmts rest).upTo (tail_shorter first rest)
        let ⟨_, rest, shorter⟩ ← (token .endWord rest).under shorter
        .ok ⟨(first.line, body), rest, shorter⟩
      else .error (.unexpected (first :: rest))
  termination_by 3 * input.length
  decreasing_by all_goals (simp only [List.length_cons] at *; omega)

/-- Statements, as long as a token begins one. -/
def stmts (input : List Token) : Result (List Stmt) (input.length + 1) :=
  match input with
  | [] => .ok (.absent [] [])
  | first :: more =>
      if startsStatement first.kind then Result.present do
        let ⟨statement, rest, shorter⟩ ← stmt (first :: more)
        let ⟨_, rest, shorter⟩ ← (token .semicolon rest).under shorter
        let ⟨statements, rest, shorter⟩ ← (stmts rest).upTo shorter
        .ok ⟨statement :: statements, rest, shorter⟩
      else .ok (.absent [] (first :: more))
  termination_by 3 * input.length + 2
  decreasing_by all_goals (simp only [List.length_cons] at *; omega)

def elsePart (input : List Token) : Result (Option (Nat × List Stmt)) (input.length + 1) :=
  match input with
  | [] => .ok (.absent none [])
  | first :: rest =>
      if first.kind = .elseWord then Result.present do
        let ⟨body, rest, shorter⟩ ← (block rest).under (tail_shorter first rest)
        .ok ⟨some body, rest, shorter⟩
      else .ok (.absent none (first :: rest))
  termination_by 3 * input.length
  decreasing_by all_goals (simp only [List.length_cons] at *; omega)

end

end PascalCasl.Grammar
