import PascalCasl.Casl.Render
import PascalCasl.Code.Stmt

/-!
The listing of a compiled program: the main code, the code of each procedure,
and the data. Procedures are generated before the main code, so that label
numbers and texts are counted in the order of the source, and are listed after
it.
-/

namespace PascalCasl

open Casl

structure Listing where
  main : Code
  procedures : List Code
  cells : Nat
  texts : List String

/-- Copies parameter `number` from the stack into its cell. It lies above the
return address, the first parameter nearest. -/
def receiveParam (base number : Nat) : Code :=
  [line (.load .gr1 (.memory ⟨.number (number + 1 : Nat), some .gr8⟩)),
    loadNumber .gr2 (base + number : Nat), storeCell]

/-- Moves the return address down over `count` parameters. -/
def dropParams (count : Nat) : Code :=
  if count = 0 then []
  else
    [line (.load .gr1 (.memory (content .gr8))),
      line (.compute .add .gr8 (.literal (.number count))),
      line (.store .gr1 (content .gr8))]

def prologue (base count : Nat) : Code :=
  (List.range count).flatMap (receiveParam base) ++ dropParams count

/-- The code of one procedure. It is known to itself and to the procedures
after it; `earlier` are the frames of those before it. -/
def procedureCode (globals : Table Cells) (earlier : List Frame) (frame : Frame)
    (procedure : Procedure) : Emit Code := do
  let env : Env := ⟨globals, frame.locals, earlier ++ [frame], some frame.ordinal⟩
  let body ← env.stmts procedure.body
  pure ([place (.procedure frame.ordinal)] ++ prologue frame.base procedure.params.length ++
    body ++ [line .ret])

def proceduresCode (globals : Table Cells) (earlier : List Frame) :
    List (Frame × Procedure) → Emit (List Code)
  | [] => pure []
  | (frame, procedure) :: rest => do
      let code ← procedureCode globals earlier frame procedure
      let others ← proceduresCode globals (earlier ++ [frame]) rest
      pure (code :: others)

def programCode (program : Program) : Emit (List Code × Code) := do
  let layout := Layout.ofProgram program
  let procedures ← proceduresCode layout.globals [] (layout.frames.zip program.procedures)
  let env : Env := ⟨layout.globals, [], layout.frames, none⟩
  let main ← env.stmts program.body
  pure (procedures, main)

namespace Listing

def ofProgram (program : Program) : Except Fault Listing :=
  match programCode program .empty with
  | (.ok (procedures, main), supply) =>
      .ok ⟨main, procedures, (Layout.ofProgram program).cells, supply.texts⟩
  | (.error fault, _) => .error fault

def header : Code :=
  [labelled .program (.start .entry), labelled .entry (.loadAddress .gr6 (direct 0)),
    line (.loadAddress .gr7 (symbol .buffer))]

def textLines (texts : List String) : Code :=
  texts.zipIdx.map fun entry => labelled (.text entry.2) (.text entry.1)

def bufferCells : Nat := 256

def lines (listing : Listing) : Code :=
  header ++ listing.main ++ [line .ret] ++ listing.procedures.flatten ++
    [labelled .variables (.reserve listing.cells)] ++ textLines listing.texts ++
    [labelled .buffer (.reserve bufferCells), line .finish]

end Listing

def Program.assembly (program : Program) : Except Fault String :=
  (Listing.ofProgram program).map fun listing => Code.render listing.lines

end PascalCasl
