import PascalCasl.Code.Expr

/-!
Code of statements. The code of a statement leaves the stack as it was. A call
of a procedure from its own body keeps the cells of the frame on the stack
while the call lasts, since both activations use the same cells.
-/

namespace PascalCasl

open Casl

def callRoutine (called : Routine) : Line := line (.call (.routine called))

def readCode : Pushed → Code
  | .scalar type =>
      [popInto .gr2, line (.loadAddress .gr1 (symbol .variables)),
        line (.compute .add .gr2 (.register .gr1)),
        callRoutine (if type = .char then .readChar else .readInteger)]
  | .address length =>
      [popInto .gr2, line (.loadAddress .gr1 (direct length)), callRoutine .readText]

def writeCode : Pushed → Code
  | .scalar type =>
      [popInto .gr2, callRoutine (if type = .char then .writeChar else .writeInteger)]
  | .address length =>
      [popInto .gr2, line (.loadAddress .gr1 (direct length)), callRoutine .writeText]

def jumpIfFalse (label : Label) : Code :=
  [popInto .gr1, line (.compareSigned .gr1 (.literal (.truth false))), line (.jump .zero label)]

def place (label : Label) : Line := labelled label .nop

def saveCell (number : Nat) : Code := loadNumber .gr2 number :: pushCell

def restoreCell (number : Nat) : Code := [popInto .gr1, loadNumber .gr2 number, storeCell]

def Frame.save (frame : Frame) : Code := frame.cells.flatMap saveCell

def Frame.restore (frame : Frame) : Code := frame.cells.reverse.flatMap restoreCell

namespace Env

/-- The frame of the first procedure of a name. -/
def procedure? (env : Env) (name : String) : Option Frame :=
  env.frames.find? fun frame => frame.name = name

def exprs (env : Env) : List Expr → Emit Code
  | [] => pure []
  | first :: rest => do
      let (_, code) ← env.expr first
      let others ← env.exprs rest
      pure (code ++ others)

/-- Arguments are evaluated from the last to the first. -/
def call (env : Env) (name : String) (arguments : List Expr) (nodeLine : Nat) : Emit Code := do
  match env.procedure? name with
  | none => Emit.unknown nodeLine
  | some frame =>
      let code ← env.exprs arguments.reverse
      let plain := code ++ [line (.call (.procedure frame.ordinal))]
      if env.current = some frame.ordinal then pure (frame.save ++ plain ++ frame.restore)
      else pure plain

def reads (env : Env) : List Target → Emit Code
  | [] => pure []
  | first :: rest => do
      let (value, code) ← env.target first
      let others ← env.reads rest
      pure (code ++ readCode value ++ others)

def writes (env : Env) : List Expr → Emit Code
  | [] => pure []
  | first :: rest => do
      let (value, code) ← env.expr first
      let others ← env.writes rest
      pure (code ++ writeCode value ++ others)

mutual

def stmt (env : Env) (statement : Stmt) : Emit Code :=
  match statement with
  | .assign _ assigned value => do
      let (_, targetCode) ← env.target assigned
      let (_, valueCode) ← env.expr value
      pure (targetCode ++ valueCode ++ [popInto .gr1, popInto .gr2, storeCell])
  | .call nodeLine name arguments => env.call name arguments nodeLine
  | .ifThen _ condition _ thenBody => do
      let number ← Emit.openOtherwise
      let (_, test) ← env.expr condition
      let thenCode ← env.stmts thenBody
      Emit.closeOtherwise number
      pure (test ++ jumpIfFalse (.otherwise number) ++ thenCode ++ [place (.otherwise number)])
  | .ifElse _ condition _ thenBody _ elseBody => do
      let number ← Emit.openOtherwise
      let (_, test) ← env.expr condition
      let thenCode ← env.stmts thenBody
      -- the end is numbered behind the first part, so a conditional in that part comes before it
      let endNumber ← Emit.openEndIf
      Emit.closeOtherwise number
      let elseCode ← env.stmts elseBody
      Emit.closeEndIf endNumber
      pure (test ++ jumpIfFalse (.otherwise number) ++ thenCode ++
        [line (.jump .always (.endIf endNumber)), place (.otherwise number)] ++ elseCode ++
        [place (.endIf endNumber)])
  | .whileDo _ condition _ body => do
      let number ← Emit.openLoop
      let (_, test) ← env.expr condition
      let bodyCode ← env.stmts body
      Emit.closeLoop number
      pure ([place (.loop number)] ++ test ++ jumpIfFalse (.endLoop number) ++ bodyCode ++
        [line (.jump .always (.loop number)), place (.endLoop number)])
  | .read _ targets => do
      let code ← env.reads targets
      pure (code ++ [callRoutine .readLine])
  | .write _ values => do
      let code ← env.writes values
      pure (code ++ [callRoutine .writeLine])
  | .block _ body => env.stmts body
  termination_by structural statement

def stmts (env : Env) (body : List Stmt) : Emit Code :=
  match body with
  | [] => pure []
  | first :: rest => do
      let code ← env.stmt first
      let others ← env.stmts rest
      pure (code ++ others)
  termination_by structural body

end

end Env
end PascalCasl
