import PascalCasl.Typing.Basic

/-!
Checking a program. Declarations and statements are checked in the order of the
text, and the first violated rule is reported at the line of its node.
-/

namespace PascalCasl

variable {α : Type}

def violation (line : Nat) : Except Fault α := .error (.semantic line)

def require (condition : Bool) (line : Nat) : Except Fault Unit :=
  if condition then .ok () else violation line

def orViolation (value? : Option α) (line : Nat) : Except Fault α :=
  match value? with
  | some value => .ok value
  | none => violation line

def greatest : Nat := 32767

/-- The magnitude of the least number. It is written as the operand of a minus
sign and nowhere else. -/
def leastMagnitude : Nat := 32768

def Bound.inRange (bound : Bound) : Bool :=
  bound.magnitude ≤ if bound.negative then leastMagnitude else greatest

namespace TypeSpec

def isValid : TypeSpec → Bool
  | .standard _ => true
  | .array low high _ => low.inRange && high.inRange && low.value ≤ high.value

end TypeSpec

def operandType : UnaryOp → Ty
  | .plus | .minus => Ty.integer
  | .not => Ty.boolean

/-- Relations hold between values of one type, arrays included. -/
def resultType? (op : BinaryOp) (left right : Ty) : Option Ty :=
  if op.isArithmetic then
    if left = Ty.integer ∧ right = Ty.integer then some Ty.integer else none
  else if op.isLogical then
    if left = Ty.boolean ∧ right = Ty.boolean then some Ty.boolean else none
  else if left = right then some Ty.boolean else none

def elementType? : Ty → Ty → Option Ty
  | .array element, index => if index = Ty.integer then some (.standard element) else none
  | .standard _, _ => none

/-- One character is a character and more are an array; there is no type for
none. -/
def textType? (text : String) : Option Ty :=
  match text.length with
  | 0 => none
  | 1 => some Ty.char
  | _ + 2 => some Ty.text

namespace Scope

def infer (scope : Scope) : Expr → Except Fault Ty
  | .number line value => do
      require (value ≤ greatest) line
      .ok Ty.integer
  | .string line text => orViolation (textType? text) line
  | .truth _ _ => .ok Ty.boolean
  | .simple line name => orViolation (scope.find? name) line
  | .indexed line name index => do
      let declared ← orViolation (scope.find? name) line
      let indexType ← scope.infer index
      orViolation (elementType? declared indexType) line
  | .unary line op operand => do
      let type ← match op, operand with
        | .minus, .number numberLine value => do
            require (value ≤ leastMagnitude) numberLine
            .ok Ty.integer
        | _, _ => scope.infer operand
      require (type = operandType op) line
      .ok type
  | .binary line op left right => do
      let leftType ← scope.infer left
      let rightType ← scope.infer right
      orViolation (resultType? op leftType rightType) line

def targetType (scope : Scope) : Target → Except Fault Ty
  | .simple line name => orViolation (scope.find? name) line
  | .indexed line name index => do
      let declared ← orViolation (scope.find? name) line
      let indexType ← scope.infer index
      orViolation (elementType? declared indexType) line

def inferAll (scope : Scope) : List Expr → Except Fault (List Ty)
  | [] => .ok []
  | first :: rest => do
      let type ← scope.infer first
      let types ← scope.inferAll rest
      .ok (type :: types)

def checkTargets (scope : Scope) : List Target → Except Fault Unit
  | [] => .ok ()
  | first :: rest => do
      let type ← scope.targetType first
      require type.isPrintable first.line
      scope.checkTargets rest

def checkValues (scope : Scope) : List Expr → Except Fault Unit
  | [] => .ok ()
  | first :: rest => do
      let type ← scope.infer first
      require type.isPrintable first.line
      scope.checkValues rest

def checkCondition (scope : Scope) (condition : Expr) (line : Nat) : Except Fault Unit := do
  let type ← scope.infer condition
  require (type = Ty.boolean) line

mutual

def checkStmt (scope : Scope) (statement : Stmt) : Except Fault Unit :=
  match statement with
  | .assign line assigned value => do
      let type ← scope.targetType assigned
      let valueType ← scope.infer value
      require (type = valueType && !type.isArray) line
  | .call line name arguments => do
      -- the arguments are checked before the name is looked up
      let types ← scope.inferAll arguments
      let params ← orViolation (scope.procedures.find? name) line
      require (types = params.map Ty.standard) line
  | .ifThen line condition _ thenBody => do
      scope.checkCondition condition line
      scope.checkStmts thenBody
  | .ifElse line condition _ thenBody _ elseBody => do
      scope.checkCondition condition line
      scope.checkStmts thenBody
      scope.checkStmts elseBody
  | .whileDo line condition _ body => do
      scope.checkCondition condition line
      scope.checkStmts body
  | .read _ targets => scope.checkTargets targets
  | .write _ values => scope.checkValues values
  | .block _ body => scope.checkStmts body
  termination_by structural statement

def checkStmts (scope : Scope) (body : List Stmt) : Except Fault Unit :=
  match body with
  | [] => .ok ()
  | first :: rest => do
      scope.checkStmt first
      scope.checkStmts rest
  termination_by structural body

end

end Scope

/-! Declarations. A name is declared once in its table, and the names in
`reserved` are not declared at all. -/

def declare (reserved : List String) (table : Table Ty) (name : String) (type : Ty) (line : Nat) :
    Except Fault (Table Ty) := do
  require (!reserved.contains name && !table.holds name) line
  .ok ((name, type) :: table)

def declareParams (reserved : List String) (table : Table Ty) :
    List Param → Except Fault (Table Ty)
  | [] => .ok table
  | first :: rest => do
      let table ← declare reserved table first.name (.standard first.type) first.line
      declareParams reserved table rest

def declareVars (reserved : List String) (table : Table Ty) :
    List VarDecl → Except Fault (Table Ty)
  | [] => .ok table
  | first :: rest => do
      require first.type.isValid first.typeLine
      let table ← declare reserved table first.name (Ty.ofSpec first.type) first.line
      declareVars reserved table rest

/-- A procedure is known in its own body. Its name is no name for a parameter
or a local. -/
def checkProcedure (globals : Table Ty) (procedures : Table (List StandardType))
    (procedure : Procedure) : Except Fault (Table (List StandardType)) := do
  require (!globals.holds procedure.name && !procedures.holds procedure.name) procedure.line
  let procedures := (procedure.name, procedure.params.map Param.type) :: procedures
  let locals ← declareParams [procedure.name] [] procedure.params
  let locals ← declareVars [procedure.name] locals procedure.vars
  Scope.checkStmts ⟨globals, locals, procedures⟩ procedure.body
  .ok procedures

def checkProcedures (globals : Table Ty) (procedures : Table (List StandardType)) :
    List Procedure → Except Fault (Table (List StandardType))
  | [] => .ok procedures
  | first :: rest => do
      let procedures ← checkProcedure globals procedures first
      checkProcedures globals procedures rest

def Program.check (program : Program) : Except Fault Unit := do
  let globals ← declareVars [] [] program.vars
  let procedures ← checkProcedures globals [] program.procedures
  Scope.checkStmts ⟨globals, [], procedures⟩ program.body

end PascalCasl
