import PascalCasl.Casl.Basic
import PascalCasl.Code.Layout
import PascalCasl.Code.Supply

/-!
Code of expressions. The code of an expression leaves one word on the stack:
the value of a scalar, or the address of a text or a whole array. Names that
have no cells and indexed scalars are reported at their line; nothing else is
checked here.
-/

namespace PascalCasl

open Casl

/-- What the code of an expression leaves on the stack. -/
inductive Pushed where
  | scalar (type : StandardType)
  | address (length : Nat)
  deriving DecidableEq

/-- The storage that code can name: the frames of the procedures known so far
and the ordinal of the procedure the code belongs to, if any. -/
structure Env where
  globals : Table Cells
  locals : Table Cells
  frames : List Frame
  current : Option Nat

namespace Env

def cells? (env : Env) (name : String) : Option Cells :=
  match env.locals.find? name with
  | some cells => some cells
  | none => env.globals.find? name

def cells (env : Env) (name : String) (line : Nat) : Emit Cells :=
  match env.cells? name with
  | some cells => pure cells
  | none => Emit.unknown line

end Env

def pushRegister (register : Register) : Line := line (.push (content register))

def popInto (register : Register) : Line := line (.pop register)

def loadNumber (register : Register) (value : Int) : Line :=
  line (.load register (.literal (.number value)))

def loadTruth (value : Bool) : Op := .load .gr1 (.literal (.truth value))

/-- Pushes the cell whose number is in GR2. -/
def pushCell : Code :=
  [line (.load .gr1 (.memory (cell .gr2))), pushRegister .gr1]

/-- Stores GR1 into the cell whose number is in GR2. -/
def storeCell : Line := line (.store .gr1 (cell .gr2))

def pushAddress (base : Nat) : Code :=
  [line (.loadAddress .gr1 (symbol .variables)),
    line (.compute .add .gr1 (.literal (.number base))),
    pushRegister .gr1]

/-- Turns the index on the stack into a cell number in GR2. -/
def locateElement (base : Nat) (low : Int) : Code :=
  [popInto .gr2, line (.compute .add .gr2 (.literal (.number (elementOffset base low))))]

def unaryCode : UnaryOp → Code
  | .plus => []
  | .minus =>
      [popInto .gr2, line (.loadAddress .gr1 (direct 0)),
        line (.compute .subtract .gr1 (.register .gr2)), pushRegister .gr1]
  | .not =>
      [popInto .gr1, line (.compute .xor .gr1 (.literal (.truth true))), pushRegister .gr1]

/-- Truth values and addresses compare as unsigned words. -/
def compareOp : Pushed → Op
  | .scalar .integer => .compareSigned .gr1 (.register .gr2)
  | .scalar .char => .compareSigned .gr1 (.register .gr2)
  | .scalar .boolean => .compareUnsigned .gr1 (.register .gr2)
  | .address _ => .compareUnsigned .gr1 (.register .gr2)

/-- The code of comparison `number`, which jumps under `condition` and whose
value is then `taken`. -/
def comparison (number : Nat) (operands : Pushed) (condition : Condition) (taken : Bool) : Code :=
  let target : Label := if taken then .onTrue number else .onFalse number
  [line (compareOp operands), line (.jump condition target), line (loadTruth !taken),
    line (.jump .always (.both number)), labelled target (loadTruth taken),
    labelled (.both number) (.push (content .gr1))]

/-- Operands are in GR1 and GR2; `left` says what the first one is. Less or
equal and greater or equal jump when they fail. -/
def binaryCode (op : BinaryOp) (left : Pushed) : Emit Code :=
  let compute (operation : Arithmetic) : Emit Code :=
    pure [line (.compute operation .gr1 (.register .gr2)), pushRegister .gr1]
  let routine (called : Routine) (result : Register) : Emit Code :=
    pure [line (.call (.routine called)), pushRegister result]
  let compare (condition : Condition) (taken : Bool) : Emit Code := do
    let number ← Emit.newComparison
    pure (comparison number left condition taken)
  match op with
  | .add => compute .add
  | .sub => compute .subtract
  | .and => compute .and
  | .or => compute .or
  | .mul => routine .multiply .gr2
  | .div => routine .divide .gr2
  | .mod => routine .divide .gr1
  | .equal => compare .zero true
  | .notEqual => compare .nonzero true
  | .less => compare .minus true
  | .greater => compare .plus true
  | .lessEqual => compare .plus false
  | .greaterEqual => compare .minus false

def binaryValue (op : BinaryOp) : Pushed :=
  if op.isArithmetic then .scalar .integer else .scalar .boolean

/-- A text of one character is a character; any other text goes into the table
of texts. -/
def textCode (text : String) : Emit (Pushed × Code) :=
  match text.toList with
  | [character] =>
      pure (.scalar .char,
        [line (.load .gr1 (.literal (.character character))), pushRegister .gr1])
  | characters => do
      let number ← Emit.newText text
      pure (.address characters.length,
        [line (.loadAddress .gr2 (symbol (.text number))), pushRegister .gr2])

namespace Env

def expr (env : Env) : Expr → Emit (Pushed × Code)
  | .number _ value => pure (.scalar .integer, [line (.push (direct value))])
  | .string _ text => textCode text
  | .truth _ value => pure (.scalar .boolean, [line (loadTruth value), pushRegister .gr1])
  | .simple nodeLine name => do
      match ← env.cells name nodeLine with
      | .scalar base type => pure (.scalar type, loadNumber .gr2 base :: pushCell)
      | .array base _ _ count => pure (.address count, pushAddress base)
  | .indexed nodeLine name index => do
      match ← env.cells name nodeLine with
      | .scalar _ _ => Emit.unknown nodeLine
      | .array base element low _ =>
          let (_, code) ← env.expr index
          pure (.scalar element, code ++ locateElement base low ++ pushCell)
  | .unary _ op operand => do
      let (value, code) ← env.expr operand
      pure (value, code ++ unaryCode op)
  | .binary _ op left right => do
      let (leftValue, leftCode) ← env.expr left
      let (_, rightCode) ← env.expr right
      let code ← binaryCode op leftValue
      pure (binaryValue op, leftCode ++ rightCode ++ [popInto .gr2, popInto .gr1] ++ code)

/-- The code of a target leaves the number of its cell on the stack, or the
address of a whole array. -/
def target (env : Env) : Target → Emit (Pushed × Code)
  | .simple nodeLine name => do
      match ← env.cells name nodeLine with
      | .scalar base type => pure (.scalar type, [line (.push (direct base))])
      | .array base _ _ count => pure (.address count, pushAddress base)
  | .indexed nodeLine name index => do
      match ← env.cells name nodeLine with
      | .scalar _ _ => Emit.unknown nodeLine
      | .array base element low _ =>
          let (_, code) ← env.expr index
          pure (.scalar element, code ++ locateElement base low ++ [pushRegister .gr2])

end Env
end PascalCasl
