import PascalCasl.Typing.Basic

/-!
What programs mean. Integers are 16-bit words that wrap, characters are codes
below `2 ^ 15`, and false is less than true. A call binds fresh parameters and
variables, which hide the globals of the same names.

There is no result for what has no meaning: an index out of bounds, a variable
or an element that was never assigned, a division by zero, a comparison of
arrays, a character with a larger code. Input is whatever the console gives
after what was read and written so far.
-/

namespace PascalCasl

abbrev Word := BitVec 16

/-- One call of an input or output routine, with the values that were read or
written. -/
inductive Event where
  | readInteger (value : Word)
  | readChar (code : Word)
  | readText (codes : List Word)
  | readLine
  | writeInteger (value : Word)
  | writeChar (code : Word)
  | writeText (codes : List Word)
  | writeLine
  deriving DecidableEq

abbrev CharCode := Fin 32768

def CharCode.word (code : CharCode) : Word := BitVec.ofNat 16 code.val

def charCode? (character : Char) : Option CharCode :=
  if small : character.toNat < 32768 then some ⟨character.toNat, small⟩ else none

/-- What the next input is after the given events; a text is asked for with its
length, character by character. -/
structure Console where
  integer : List Event → Word
  character : List Event → CharCode
  text : List Event → Nat → Nat → CharCode

namespace Source

inductive Value where
  | integer (word : Word)
  | char (code : CharCode)
  | boolean (truth : Bool)
  deriving DecidableEq

namespace Value

def type : Value → StandardType
  | integer _ => .integer
  | char _ => .char
  | boolean _ => .boolean

/-- Division goes toward zero, and the remainder has the sign of the dividend. -/
def quotient (left right : Word) : Word := BitVec.ofInt 16 (left.toInt.tdiv right.toInt)

def remainder (left right : Word) : Word := BitVec.ofInt 16 (left.toInt.tmod right.toInt)

def unary : UnaryOp → Value → Option Value
  | .plus, integer word => some (integer word)
  | .minus, integer word => some (integer (-word))
  | .not, boolean truth => some (boolean !truth)
  | _, _ => none

def arithmetic (left right : Word) : BinaryOp → Option Word
  | .add => some (left + right)
  | .sub => some (left - right)
  | .mul => some (left * right)
  | .div => if right = 0 then none else some (quotient left right)
  | .mod => if right = 0 then none else some (remainder left right)
  | _ => none

def logical (left right : Bool) : BinaryOp → Option Bool
  | .and => some (left && right)
  | .or => some (left || right)
  | _ => none

/-- Whether a relation holds of two values in this order. -/
def relates (order : Ordering) : BinaryOp → Option Bool
  | .equal => some (order = .eq)
  | .notEqual => some (order ≠ .eq)
  | .less => some (order = .lt)
  | .lessEqual => some (order ≠ .gt)
  | .greater => some (order = .gt)
  | .greaterEqual => some (order ≠ .lt)
  | _ => none

def binary (op : BinaryOp) : Value → Value → Option Value
  | integer left, integer right =>
      if op.isArithmetic then (arithmetic left right op).map integer
      else (relates (compare left.toInt right.toInt) op).map boolean
  | char left, char right => (relates (compare left.val right.val) op).map boolean
  | boolean left, boolean right =>
      if op.isLogical then (logical left right op).map boolean
      else (relates (compare left.toNat right.toNat) op).map boolean
  | _, _ => none

def char? : Value → Option CharCode
  | char code => some code
  | _ => none

/-- The event of writing the value; truth values are not written. -/
def written : Value → Option Event
  | integer word => some (.writeInteger word)
  | char code => some (.writeChar code.word)
  | boolean _ => none

end Value

/-- What a variable holds. A value that is missing was never assigned. -/
inductive Content where
  | scalar (type : StandardType) (value? : Option Value)
  | array (element : StandardType) (low high : Int) (values : Int → Option Value)

namespace Content

def initial : TypeSpec → Content
  | .standard type => .scalar type none
  | .array low high element => .array element low.value high.value fun _ => none

def elementType : Content → StandardType
  | .scalar type _ => type
  | .array element _ _ _ => element

end Content

abbrev Store := String → Option Content

def Store.put (store : Store) (name : String) (content : Content) : Store :=
  fun other => if other = name then some content else store other

structure State where
  globals : Store
  locals : Store
  trace : List Event

namespace State

def find? (state : State) (name : String) : Option Content :=
  match state.locals name with
  | some content => some content
  | none => state.globals name

def put (state : State) (name : String) (content : Content) : State :=
  match state.locals name with
  | some _ => { state with locals := Store.put state.locals name content }
  | none => { state with globals := Store.put state.globals name content }

def log (state : State) (event : Event) : State :=
  { state with trace := state.trace ++ [event] }

/-- The value of an expression. Operands are all evaluated, also those of `and`
and `or`. -/
def eval (state : State) : Expr → Option Value
  | .number _ value => some (.integer (BitVec.ofNat 16 value))
  | .string _ text =>
      match text.toList with
      | [character] => (charCode? character).map .char
      | _ => none
  | .truth _ value => some (.boolean value)
  | .simple _ name =>
      match state.find? name with
      | some (.scalar _ value?) => value?
      | _ => none
  | .indexed _ name index => do
      match ← state.eval index, state.find? name with
      | .integer position, some (.array _ low high values) =>
          if low ≤ position.toInt ∧ position.toInt ≤ high then values position.toInt else none
      | _, _ => none
  | .unary _ op operand => do Value.unary op (← state.eval operand)
  | .binary _ op left right => do Value.binary op (← state.eval left) (← state.eval right)

/-- The characters of a text or of a whole array of characters. -/
def text? (state : State) : Expr → Option (List CharCode)
  | .string _ text => if text.length = 1 then none else text.toList.mapM charCode?
  | .simple _ name =>
      match state.find? name with
      | some (.array _ low high values) =>
          (List.range (high - low + 1).toNat).mapM fun (place : Nat) =>
            (values (low + place)).bind Value.char?
      | _ => none
  | _ => none

def assign (state : State) (target : Target) (value : Value) : Option State :=
  match target with
  | .simple _ name =>
      match state.find? name with
      | some (.scalar type _) => some (state.put name (.scalar type (some value)))
      | _ => none
  | .indexed _ name index => do
      match ← state.eval index, state.find? name with
      | .integer position, some (.array element low high values) =>
          if low ≤ position.toInt ∧ position.toInt ≤ high then
            some (state.put name (.array element low high fun other =>
              if other = position.toInt then some value else values other))
          else none
      | _, _ => none

/-- The next input as a value of the type; truth values are not read. -/
def nextInput (state : State) (console : Console) : StandardType → Option (Value × Event)
  | .integer =>
      let word := console.integer state.trace
      some (.integer word, .readInteger word)
  | .char =>
      let code := console.character state.trace
      some (.char code, .readChar code.word)
  | .boolean => none

/-- Reads into a variable, into an element or into all of an array of
characters. -/
def readInto (console : Console) (state : State) (target : Target) : Option State :=
  match target, state.find? target.name with
  | .simple _ name, some (.array .char low high _) =>
      let length := (high - low + 1).toNat
      let code := console.text state.trace length
      some ((state.put name (.array .char low high fun position =>
          some (.char (code (position - low).toNat)))).log
        (.readText ((List.range length).map fun place => (code place).word)))
  | _, some content => do
      let (value, event) ← state.nextInput console content.elementType
      let state ← state.assign target value
      some (state.log event)
  | _, none => none

def writeOut (state : State) (value : Expr) : Option State :=
  match state.eval value with
  | some value => value.written.map state.log
  | none => (state.text? value).map fun codes => state.log (.writeText (codes.map CharCode.word))

end State

/-- The parameters of an activation with their values, and its variables. -/
def activation (procedure : Procedure) (values : List Value) : Store := fun name =>
  Table.find?
    ((procedure.params.zip values).map (fun bound =>
        (bound.1.name, Content.scalar bound.1.type (some bound.2))) ++
      procedure.vars.map fun declared => (declared.name, Content.initial declared.type))
    name

/-- Runs a statement with at most `fuel` nested steps. -/
def exec (program : Program) (console : Console) : Nat → State → Stmt → Option State
  | 0, _, _ => none
  | fuel + 1, state, statement =>
      match statement with
      | .assign _ target value => do state.assign target (← state.eval value)
      | .call _ name arguments => do
          let values ← arguments.mapM state.eval
          let procedure ← program.procedures.find? fun procedure => procedure.name = name
          let inner ← procedure.body.foldlM (exec program console fuel)
            { state with locals := activation procedure values }
          -- the caller gets its own variables back
          some { inner with locals := state.locals }
      | .ifThen _ condition _ thenBody => do
          match ← state.eval condition with
          | .boolean true => thenBody.foldlM (exec program console fuel) state
          | .boolean false => some state
          | _ => none
      | .ifElse _ condition _ thenBody _ elseBody => do
          match ← state.eval condition with
          | .boolean true => thenBody.foldlM (exec program console fuel) state
          | .boolean false => elseBody.foldlM (exec program console fuel) state
          | _ => none
      | .whileDo line condition bodyLine body => do
          match ← state.eval condition with
          | .boolean true =>
              let state ← body.foldlM (exec program console fuel) state
              exec program console fuel state (.whileDo line condition bodyLine body)
          | .boolean false => some state
          | _ => none
      | .read _ targets => do
          let state ← targets.foldlM (State.readInto console) state
          some (state.log .readLine)
      | .write _ values => do
          let state ← values.foldlM State.writeOut state
          some (state.log .writeLine)
      | .block _ body => body.foldlM (exec program console fuel) state

def start (program : Program) : State where
  globals name :=
    Table.find? (program.vars.map fun declared => (declared.name, Content.initial declared.type))
      name
  locals _ := none
  trace := []

def run (program : Program) (console : Console) (fuel : Nat) : Option State :=
  program.body.foldlM (exec program console fuel) (start program)

end Source
end PascalCasl
