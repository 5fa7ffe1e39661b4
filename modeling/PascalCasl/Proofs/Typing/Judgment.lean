import Mathlib.Data.List.Forall2
import PascalCasl.Typing.Basic

/-!
Well-typed programs, by rules. The rules speak of the declarations that are in
scope as they stand in the text, and of membership and distinctness of names;
there is no table, no order of checking and no place of an error here.
-/

namespace PascalCasl

/-- The declarations a statement may use: globals, the parameters and variables
of the enclosing procedure, and the procedures that may be called. -/
structure Context where
  globals : List (String × Ty)
  locals : List (String × Ty)
  procedures : List (String × List StandardType)

namespace Context

variable (context : Context)

/-- A name means its local declaration if there is one, and else its global
one. -/
def Resolves (name : String) (type : Ty) : Prop :=
  (name, type) ∈ context.locals ∨
    (name ∉ context.locals.map Prod.fst ∧ (name, type) ∈ context.globals)

/-- The magnitude 32768 is a literal only directly under a minus sign. -/
inductive HasType : Expr → Ty → Prop where
  | number {line value : Nat} (small : value ≤ 32767) :
      HasType (.number line value) (.standard .integer)
  | negated {line numberLine value : Nat} (small : value ≤ 32768) :
      HasType (.unary line .minus (.number numberLine value)) (.standard .integer)
  | character {line : Nat} {text : String} (single : text.length = 1) :
      HasType (.string line text) (.standard .char)
  | text {line : Nat} {text : String} (several : 2 ≤ text.length) :
      HasType (.string line text) (.array .char)
  | truth {line : Nat} {value : Bool} : HasType (.truth line value) (.standard .boolean)
  | simple {line : Nat} {name : String} {type : Ty} (declared : context.Resolves name type) :
      HasType (.simple line name) type
  | element {line : Nat} {name : String} {index : Expr} {type : StandardType}
      (declared : context.Resolves name (.array type))
      (number : HasType index (.standard .integer)) :
      HasType (.indexed line name index) (.standard type)
  | signed {line : Nat} {op : UnaryOp} {operand : Expr} (sign : op ∈ [.plus, .minus])
      (number : HasType operand (.standard .integer)) :
      HasType (.unary line op operand) (.standard .integer)
  | negation {line : Nat} {operand : Expr} (truth : HasType operand (.standard .boolean)) :
      HasType (.unary line .not operand) (.standard .boolean)
  | arithmetic {line : Nat} {op : BinaryOp} {left right : Expr}
      (computes : op ∈ [.add, .sub, .mul, .div, .mod])
      (first : HasType left (.standard .integer)) (second : HasType right (.standard .integer)) :
      HasType (.binary line op left right) (.standard .integer)
  | logical {line : Nat} {op : BinaryOp} {left right : Expr} (joins : op ∈ [.and, .or])
      (first : HasType left (.standard .boolean)) (second : HasType right (.standard .boolean)) :
      HasType (.binary line op left right) (.standard .boolean)
  | relation {line : Nat} {op : BinaryOp} {left right : Expr} {type : Ty}
      (relates : op ∈ [.equal, .notEqual, .less, .lessEqual, .greater, .greaterEqual])
      (first : HasType left type) (second : HasType right type) :
      HasType (.binary line op left right) (.standard .boolean)

inductive TargetHasType : Target → Ty → Prop where
  | simple {line : Nat} {name : String} {type : Ty} (declared : context.Resolves name type) :
      TargetHasType (.simple line name) type
  | element {line : Nat} {name : String} {index : Expr} {type : StandardType}
      (declared : context.Resolves name (.array type))
      (number : context.HasType index (.standard .integer)) :
      TargetHasType (.indexed line name index) (.standard type)

/-- The types of what is read and written. -/
def printable : List Ty := [.standard .integer, .standard .char, .array .char]

inductive WellTyped : Stmt → Prop where
  | assign {line : Nat} {target : Target} {value : Expr} {type : StandardType}
      (assigned : context.TargetHasType target (.standard type))
      (given : context.HasType value (.standard type)) :
      WellTyped (.assign line target value)
  | call {line : Nat} {name : String} {arguments : List Expr} {formals : List StandardType}
      (known : (name, formals) ∈ context.procedures)
      (given : List.Forall₂ context.HasType arguments (formals.map Ty.standard)) :
      WellTyped (.call line name arguments)
  | ifThen {line thenLine : Nat} {condition : Expr} {thenBody : List Stmt}
      (test : context.HasType condition (.standard .boolean))
      (taken : ∀ statement ∈ thenBody, WellTyped statement) :
      WellTyped (.ifThen line condition thenLine thenBody)
  | ifElse {line thenLine elseLine : Nat} {condition : Expr} {thenBody elseBody : List Stmt}
      (test : context.HasType condition (.standard .boolean))
      (taken : ∀ statement ∈ thenBody, WellTyped statement)
      (skipped : ∀ statement ∈ elseBody, WellTyped statement) :
      WellTyped (.ifElse line condition thenLine thenBody elseLine elseBody)
  | whileDo {line bodyLine : Nat} {condition : Expr} {body : List Stmt}
      (test : context.HasType condition (.standard .boolean))
      (repeated : ∀ statement ∈ body, WellTyped statement) :
      WellTyped (.whileDo line condition bodyLine body)
  | read {line : Nat} {targets : List Target}
      (each : ∀ target ∈ targets, ∃ type ∈ printable, context.TargetHasType target type) :
      WellTyped (.read line targets)
  | write {line : Nat} {values : List Expr}
      (each : ∀ value ∈ values, ∃ type ∈ printable, context.HasType value type) :
      WellTyped (.write line values)
  | block {line : Nat} {body : List Stmt} (each : ∀ statement ∈ body, WellTyped statement) :
      WellTyped (.block line body)

end Context

def VarDecl.entry (declared : VarDecl) : String × Ty := (declared.name, Ty.ofSpec declared.type)

def Param.entry (param : Param) : String × Ty := (param.name, .standard param.type)

def Procedure.entry (procedure : Procedure) : String × List StandardType :=
  (procedure.name, procedure.params.map Param.type)

def Procedure.locals (procedure : Procedure) : List (String × Ty) :=
  procedure.params.map Param.entry ++ procedure.vars.map VarDecl.entry

def Bound.IsLiteral (bound : Bound) : Prop :=
  bound.magnitude ≤ 32767 ∨ (bound.negative = true ∧ bound.magnitude ≤ 32768)

inductive TypeSpec.WellFormed : TypeSpec → Prop where
  | standard {type : StandardType} : WellFormed (.standard type)
  | array {low high : Bound} {element : StandardType} (lowLiteral : low.IsLiteral)
      (highLiteral : high.IsLiteral) (ordered : low.value ≤ high.value) :
      WellFormed (.array low high element)

/-- A procedure after the procedures `earlier`: it may call these and itself. -/
structure Procedure.WellTyped (globals : List (String × Ty)) (earlier : List Procedure)
    (procedure : Procedure) : Prop where
  bounds : ∀ declared ∈ procedure.vars, declared.type.WellFormed
  distinct : (procedure.locals.map Prod.fst).Nodup
  apart : procedure.name ∉ procedure.locals.map Prod.fst
  body : ∀ statement ∈ procedure.body,
    Context.WellTyped ⟨globals, procedure.locals, (earlier ++ [procedure]).map Procedure.entry⟩
      statement

structure Program.WellTyped (program : Program) : Prop where
  bounds : ∀ declared ∈ program.vars, declared.type.WellFormed
  distinct : (program.vars.map VarDecl.name).Nodup
  procedureNames : (program.procedures.map Procedure.name).Nodup
  apart : ∀ procedure ∈ program.procedures, procedure.name ∉ program.vars.map VarDecl.name
  procedures : ∀ earlier procedure later, program.procedures = earlier ++ procedure :: later →
    procedure.WellTyped (program.vars.map VarDecl.entry) earlier
  body : ∀ statement ∈ program.body,
    Context.WellTyped
      ⟨program.vars.map VarDecl.entry, [], program.procedures.map Procedure.entry⟩ statement

end PascalCasl
