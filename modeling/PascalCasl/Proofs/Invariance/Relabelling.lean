import Mathlib.Logic.Function.Basic
import PascalCasl.Fault
import PascalCasl.Token.Basic
import PascalCasl.Tree.Basic

/-!
Changes that the compiler does not see. Tokens move to other lines, and the
names that identifiers write are exchanged for others, different names for
different ones. A pass that uses lines for its reports alone, and compares names
and does nothing else with them, gives on the changed input the changed result.
-/

namespace PascalCasl

/-- Faults of parsing and checking move with the lines. What becomes of other
faults is left open, since no pass behind the scanner reports them. -/
structure Relabelling where
  line : Nat → Nat
  name : String → String
  injective : Function.Injective name
  fault : Fault → Fault
  syntactic : ∀ number, fault (.syntactic number) = .syntactic (line number)
  semantic : ∀ number, fault (.semantic number) = .semantic (line number)

namespace Relabelling

variable (change : Relabelling)

def token (written : Token) : Token where
  text := if written.kind = .identifier then change.name written.text else written.text
  kind := written.kind
  line := change.line written.line

@[simp] theorem token_kind (written : Token) : (change.token written).kind = written.kind := rfl

@[simp] theorem token_line (written : Token) :
    (change.token written).line = change.line written.line := rfl

@[simp] theorem token_is_end (written : Token) :
    (change.token written).isEnd = written.isEnd := rfl

variable {change} in
theorem identifier_text {written : Token} (isName : written.kind = .identifier) :
    (change.token written).text = change.name written.text := if_pos isName

variable {change} in
theorem other_text {written : Token} (noName : written.kind ≠ .identifier) :
    (change.token written).text = written.text := if_neg noName

def expr : Expr → Expr
  | .number line value => .number (change.line line) value
  | .string line text => .string (change.line line) text
  | .truth line value => .truth (change.line line) value
  | .simple line name => .simple (change.line line) (change.name name)
  | .indexed line name index => .indexed (change.line line) (change.name name) (expr index)
  | .unary line op operand => .unary (change.line line) op (expr operand)
  | .binary line op left right => .binary (change.line line) op (expr left) (expr right)

@[simp] theorem expr_line (value : Expr) : (change.expr value).line = change.line value.line := by
  cases value <;> rfl

def target : Target → Target
  | .simple line name => .simple (change.line line) (change.name name)
  | .indexed line name index => .indexed (change.line line) (change.name name) (change.expr index)

@[simp] theorem target_line (assigned : Target) :
    (change.target assigned).line = change.line assigned.line := by
  cases assigned <;> rfl

mutual

def stmt (statement : Stmt) : Stmt :=
  match statement with
  | .assign line assigned value =>
      .assign (change.line line) (change.target assigned) (change.expr value)
  | .call line name arguments =>
      .call (change.line line) (change.name name) (arguments.map change.expr)
  | .ifThen line condition thenLine thenBody =>
      .ifThen (change.line line) (change.expr condition) (change.line thenLine) (stmts thenBody)
  | .ifElse line condition thenLine thenBody elseLine elseBody =>
      .ifElse (change.line line) (change.expr condition) (change.line thenLine) (stmts thenBody)
        (change.line elseLine) (stmts elseBody)
  | .whileDo line condition bodyLine body =>
      .whileDo (change.line line) (change.expr condition) (change.line bodyLine) (stmts body)
  | .read line targets => .read (change.line line) (targets.map change.target)
  | .write line values => .write (change.line line) (values.map change.expr)
  | .block line body => .block (change.line line) (stmts body)
  termination_by structural statement

def stmts (body : List Stmt) : List Stmt :=
  match body with
  | [] => []
  | first :: rest => stmt first :: stmts rest
  termination_by structural body

end

def block (body : Nat × List Stmt) : Nat × List Stmt := (change.line body.1, change.stmts body.2)

def varDecl (declared : VarDecl) : VarDecl :=
  ⟨change.name declared.name, change.line declared.line, declared.type,
    change.line declared.typeLine⟩

def param (declared : Param) : Param :=
  ⟨change.name declared.name, change.line declared.line, declared.type⟩

def procedure (declared : Procedure) : Procedure where
  name := change.name declared.name
  line := change.line declared.line
  params := declared.params.map change.param
  vars := declared.vars.map change.varDecl
  bodyLine := change.line declared.bodyLine
  body := change.stmts declared.body

def program (tree : Program) : Program where
  name := change.name tree.name
  line := change.line tree.line
  vars := tree.vars.map change.varDecl
  procedures := tree.procedures.map change.procedure
  bodyLine := change.line tree.bodyLine
  body := change.stmts tree.body

section Results

variable {α β : Type}

/-- What a pass reports about relabelled input, where `onValue` says what
becomes of its value. -/
def result (onValue : α → α) : Except Fault α → Except Fault α
  | .ok value => .ok (onValue value)
  | .error found => .error (change.fault found)

variable {change} {onValue : α → α} {onResult : β → β}

theorem result_bind {step other : Except Fault α} {next after : α → Except Fault β}
    (kept : other = change.result onValue step)
    (same : ∀ value, step = .ok value →
      after (onValue value) = change.result onResult (next value)) :
    other >>= after = change.result onResult (step >>= next) := by
  subst kept
  cases step with
  | error found => rfl
  | ok value => exact same value rfl

end Results

end Relabelling
end PascalCasl
