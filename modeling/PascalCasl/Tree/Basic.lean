/-!
Syntax trees of the Pascal subset. A node keeps the line it is reported at.
Bodies of branches and loops are blocks, given by the line of the block and its
statements. Operators say which of the three classes they belong to.

The trees that are meant are those the parser builds. A number or the magnitude of
a bound is the value of a literal there, which stops at the greatest signed 64-bit
number; trees with greater ones can be written down but are never read.
-/

namespace PascalCasl

inductive StandardType where
  | integer | char | boolean
  deriving DecidableEq

/-- An array bound as written: a sign and a magnitude, so `-0` differs from `0`. -/
structure Bound where
  negative : Bool
  magnitude : Nat
  deriving DecidableEq

def Bound.value (bound : Bound) : Int :=
  if bound.negative then -bound.magnitude else bound.magnitude

inductive TypeSpec where
  | standard (type : StandardType)
  | array (low high : Bound) (element : StandardType)
  deriving DecidableEq

inductive UnaryOp where
  | plus | minus | not
  deriving DecidableEq

inductive BinaryOp where
  | add | sub | or | mul | div | mod | and
  | equal | notEqual | less | lessEqual | greater | greaterEqual
  deriving DecidableEq

namespace BinaryOp

def isArithmetic : BinaryOp → Bool
  | add | sub | mul | div | mod => true
  | _ => false

def isLogical : BinaryOp → Bool
  | and | or => true
  | _ => false

def isRelational (op : BinaryOp) : Bool := !op.isArithmetic && !op.isLogical

end BinaryOp

inductive Expr where
  | number (line : Nat) (value : Nat)
  | string (line : Nat) (text : String)
  | truth (line : Nat) (value : Bool)
  | simple (line : Nat) (name : String)
  | indexed (line : Nat) (name : String) (index : Expr)
  | unary (line : Nat) (op : UnaryOp) (operand : Expr)
  | binary (line : Nat) (op : BinaryOp) (left right : Expr)
  deriving DecidableEq

def Expr.line : Expr → Nat
  | .number line _ => line
  | .string line _ => line
  | .truth line _ => line
  | .simple line _ => line
  | .indexed line _ _ => line
  | .unary line _ _ => line
  | .binary line _ _ _ => line

inductive Target where
  | simple (line : Nat) (name : String)
  | indexed (line : Nat) (name : String) (index : Expr)
  deriving DecidableEq

def Target.line : Target → Nat
  | .simple line _ => line
  | .indexed line _ _ => line

def Target.name : Target → String
  | .simple _ name => name
  | .indexed _ name _ => name

inductive Stmt where
  | assign (line : Nat) (target : Target) (value : Expr)
  | call (line : Nat) (name : String) (arguments : List Expr)
  | ifThen (line : Nat) (condition : Expr) (thenLine : Nat) (thenBody : List Stmt)
  | ifElse (line : Nat) (condition : Expr) (thenLine : Nat) (thenBody : List Stmt)
      (elseLine : Nat) (elseBody : List Stmt)
  | whileDo (line : Nat) (condition : Expr) (bodyLine : Nat) (body : List Stmt)
  | read (line : Nat) (targets : List Target)
  | write (line : Nat) (values : List Expr)
  | block (line : Nat) (body : List Stmt)

/-- The variables of one declaration group share the type and its line. -/
structure VarDecl where
  name : String
  line : Nat
  type : TypeSpec
  typeLine : Nat
  deriving DecidableEq

structure Param where
  name : String
  line : Nat
  type : StandardType
  deriving DecidableEq

structure Procedure where
  name : String
  line : Nat
  params : List Param
  vars : List VarDecl
  bodyLine : Nat
  body : List Stmt

structure Program where
  name : String
  line : Nat
  vars : List VarDecl
  procedures : List Procedure
  bodyLine : Nat
  body : List Stmt

end PascalCasl
