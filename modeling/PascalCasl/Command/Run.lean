import PascalCasl.Command.Basic
import PascalCasl.Command.FileSystem
import PascalCasl.Command.Path
import PascalCasl.Compile
import PascalCasl.Token.Stream
import PascalCasl.Tree.Rows

/-!
Running a command. An output file is opened when its whole content is known, so
a fault in the program leaves it as it was.
-/

namespace PascalCasl

inductive CommandFailure where
  | program (fault : Fault)
  | inputMissing
  | outputNotDirectory
  | access (path : String) (cause : AccessCause)
  deriving DecidableEq

def CommandFailure.message : CommandFailure → String
  | .program fault => fault.message
  | .inputMissing => "File not found"
  | .outputNotDirectory => "specify an output dir instead of file"
  | .access path cause => path ++ ": " ++ cause.message

namespace Command

variable {Files α : Type} [FileSystem Files]

abbrev Step (Files : Type) := ExceptT CommandFailure (StateM (World Files))

def accessed (path : String) (outcome : Except AccessCause α) : Step Files α :=
  match outcome with
  | .ok value => pure value
  | .error cause => throw (.access path cause)

def compiled (outcome : Except Fault α) : Step Files α :=
  match outcome with
  | .ok value => pure value
  | .error fault => throw (.program fault)

def print (text : String) : StateM (World Files) Unit :=
  modify fun world => { world with printed := world.printed ++ text }

def report (text : String) : StateM (World Files) Unit :=
  modify fun world => { world with reported := world.reported ++ text }

def directoryFound (path : String) : Step Files Bool := do
  let world ← get
  pure (FileSystem.isDirectory world.files path)

/-- The text of an input file, which must be whole UTF-8. -/
def readText (path : String) : Step Files String := do
  let world ← get
  if FileSystem.isFile world.files path then
    let bytes ← accessed path (FileSystem.read world.files path)
    match Text.decodeWhole? bytes with
    | some text => pure text
    | none => throw (.access path .notText)
  else throw .inputMissing

def writeText (path text : String) : Step Files Unit := do
  let world ← get
  let (outcome, files) := FileSystem.write world.files path (Text.encode text)
  set { world with files }
  accessed path outcome

def warning (path : String) (missing : List Routine) : String :=
  "warning: " ++ path ++ " does not define " ++ ", ".intercalate (missing.map Routine.name) ++ "\n"

/-- The support library to add. One that lacks routines is used all the same. -/
def chooseLibrary (options : Options) : Step Files String :=
  match options.library? with
  | none => pure Library.bundled
  | some path => do
      let library ← readText path
      let missing := Library.missing library
      if missing ≠ [] then (report (warning path missing) : StateM (World Files) Unit)
      pure library

def compile (tokens : List Token) (options : Options) : Step Files String := do
  let library ← chooseLibrary options
  let program ← compiled (Program.accept tokens)
  if options.dumpTree then (print program.render : StateM (World Files) Unit)
  let assembly ← compiled program.assembly
  pure (Library.append assembly library)

def execute : Command → Step Files Unit
  | .lexer input output => do
      let source ← readText input
      let tokens ← compiled (Token.scan source)
      writeText output (Stream.write tokens)
  | .compiler input output options => do
      let stream ← readText input
      let tokens ← compiled (Stream.read stream)
      let assembly ← compile tokens options
      writeText output assembly
  | .all input directory options => do
      let found ← directoryFound directory
      if !found then throw .outputNotDirectory
      match Path.stem? input with
      | none => throw .inputMissing
      | some stem =>
          let source ← readText input
          let tokens ← compiled (Token.scan source)
          writeText (Path.join directory (stem ++ ".ts")) (Stream.write tokens)
          let assembly ← compile tokens options
          writeText (Path.join directory (stem ++ ".cas")) assembly

/-- Runs a command and gives its exit code: 0 for success, 1 for a failure. -/
def run (command : Command) : StateM (World Files) Nat := do
  match ← ExceptT.run command.execute with
  | .ok () => do
      print "OK\n"
      pure 0
  | .error failure => do
      report (failure.message ++ "\n")
      pure 1

end Command
end PascalCasl
