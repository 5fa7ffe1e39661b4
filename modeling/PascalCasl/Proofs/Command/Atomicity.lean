import PascalCasl.Proofs.Command.FileTree
import PascalCasl.Proofs.Command.Steps

/-!
What a command leaves behind. A command that succeeds has written its outputs,
each with its whole content, and nothing else. One that fails has written
nothing, except that `all` may have stored the tokens of its whole input before
it failed. A command fails only when its outputs cannot be made.

Paths may coincide in every way, by their names or by links: each file is read
as it is at that moment, so a library that is also the stored token stream is
read after that stream was written. Where both outputs of `all` are one file,
the second replaces the first; where an output is a special file, nothing of it
is kept.
-/

namespace PascalCasl

open LawfulFileSystem (find content)
open Text

variable {Files File : Type} [FileSystem Files] [LawfulFileSystem Files File]

namespace Command

/-- The support library that the options select. -/
def Supplies (files : Files) (options : Options) (library : String) : Prop :=
  match options.library? with
  | none => library = Library.bundled
  | some path => Reads files path library

/-- The tokens pass all checks, and the text is their code followed by the
selected library. -/
def Assembles (files : Files) (options : Options) (tokens : List Token) (text : String) : Prop :=
  ∃ library program assembly, Supplies files options library ∧
    Program.accept tokens = .ok program ∧ program.assembly = .ok assembly ∧
    Library.append assembly library = text

def streamPath (directory stem : String) : String := Path.join directory (stem ++ ".ts")

def assemblyPath (directory stem : String) : String := Path.join directory (stem ++ ".cas")

/-- The tokens of the input are stored, and then their code. The library is
read in between. -/
structure Staged (before : Files) (source directory stem : String) (options : Options)
    (tokens : List Token) (text : String) (middle after : Files) : Prop where
  scanned : Token.scan source = .ok tokens
  stored : Writes before (streamPath directory stem) (Stream.write tokens) middle
  assembled : Assembles middle options tokens text
  written : Writes middle (assemblyPath directory stem) text after
  kept : SameFile after (assemblyPath directory stem) (streamPath directory stem) ∨
    Untouched middle (streamPath directory stem) after
  others : ∀ file, find after (streamPath directory stem) ≠ some (.file file) →
    find after (assemblyPath directory stem) ≠ some (.file file) →
    content after file = content before file

/-- The command has made its outputs from the files before it, and `after` is
what they leave. -/
def Performed (before : Files) : Command → Files → Prop
  | .lexer input output, after =>
      ∃ source tokens, Reads before input source ∧ Token.scan source = .ok tokens ∧
        Writes before output (Stream.write tokens) after
  | .compiler input output options, after =>
      ∃ stream tokens text, Reads before input stream ∧ Stream.read stream = .ok tokens ∧
        Assembles before options tokens text ∧ Writes before output text after
  | .all input directory options, after =>
      find before directory = some .directory ∧
        ∃ stem source tokens text middle, Path.stem? input = some stem ∧
          Reads before input source ∧
          Staged before source directory stem options tokens text middle after

/-- What a failed command may leave. -/
inductive Abandoned (before : Files) : Command → Files → Prop where
  | unchanged (command : Command) : Abandoned before command before
  | stored {input directory stem source : String} {tokens : List Token} {after : Files}
      (options : Options) (named : Path.stem? input = some stem)
      (held : Reads before input source) (scanned : Token.scan source = .ok tokens)
      (written : Writes before (streamPath directory stem) (Stream.write tokens) after)
      (untouched : SameFile after (streamPath directory stem) (assemblyPath directory stem) ∨
        Untouched before (assemblyPath directory stem) after) :
      Abandoned before (.all input directory options) after

theorem observes_read (path : String) :
    Observes (readText path) fun (files : Files) text => Reads files path text := by
  intro world
  simp only [reads_iff, readText, ran_bind, ran_get]
  cases FileSystem.isFile world.files path with
  | false => simp [ran_throw]
  | true =>
      simp only [↓reduceIte, ran_bind, true_and]
      cases FileSystem.read world.files path with
      | error cause => simp [accessed, ran_throw]
      | ok bytes =>
          simp only [accessed, ran_pure, Except.ok.injEq, ← decode_whole_iff]
          cases decodeWhole? bytes with
          | none => simp [ran_throw]
          | some text => simp [ran_pure]

theorem observes_library (options : Options) :
    Observes (chooseLibrary options) fun (files : Files) library =>
      Supplies files options library := by
  unfold chooseLibrary Supplies
  cases options.library? with
  | none => exact (observes_pure Library.bundled).congr fun _ _ => eq_comm
  | some path =>
      refine (observes_bind (observes_read path) fun library =>
        observes_after_talk (fun _ => rfl) (observes_pure library)).congr fun files result => ?_
      simp

theorem observes_compile (tokens : List Token) (options : Options) :
    Observes (Command.compile tokens options) fun (files : Files) text =>
      Assembles files options tokens text := by
  unfold Command.compile
  refine (observes_bind (observes_library options) fun library =>
    observes_bind (observes_compiled (Program.accept tokens)) fun program =>
      observes_after_talk (fun _ => rfl) <|
        observes_bind (observes_compiled program.assembly) fun assembly =>
          observes_pure (Library.append assembly library)).congr fun files text => ?_
  simp only [Assembles, exists_and_left]

theorem runs_write (path text : String) :
    Runs (writeText path text) (fun (before : Files) after => Writes before path text after)
      fun before after => after = before := by
  intro world
  have wrote : ran (writeText path text) world =
      ran (accessed path (FileSystem.write world.files path (encode text)).1)
        { world with files := (FileSystem.write world.files path (encode text)).2 } := rfl
  rw [wrote]
  rcases opened : FileSystem.write world.files path (encode text) with ⟨cause | _, after⟩
  · refine ⟨LawfulFileSystem.refused opened, fun files written => ?_⟩
    cases opened.symm.trans written.opened
  · exact writes_iff.mpr opened

theorem runs_after_write {path text : String} {next : Step Files Unit}
    {done left : Files → Files → Prop} (rest : Runs next done left) :
    Runs (writeText path text >>= fun _ => next)
      (fun before after => ∃ middle, Writes before path text middle ∧ done middle after)
      fun before after =>
        after = before ∨ ∃ middle, Writes before path text middle ∧ left middle after := by
  intro world
  have first := runs_write path text world
  rw [ran_bind]
  rcases ended : ran (writeText path text) world with ⟨_ | _, middle⟩
  · simp only [ended] at first ⊢
    exact ⟨.inl first.1, fun files ⟨between, written, _⟩ => first.2 between written⟩
  · simp only [ended] at first ⊢
    have second := rest middle
    rcases last : ran next middle with ⟨_ | _, after⟩
    · simp only [last] at second ⊢
      refine ⟨.inr ⟨middle.files, first, second.1⟩, ?_⟩
      rintro files ⟨between, written, made⟩
      cases first.opened.symm.trans written.opened
      exact second.2 files made
    · simp only [last] at second ⊢
      exact ⟨middle.files, first, second⟩

theorem lexer_runs (input output : String) :
    Runs (execute (.lexer input output))
      (fun (before : Files) => Performed before (.lexer input output))
      (Abandoned · (.lexer input output)) := by
  refine (runs_after (observes_read input) fun source =>
    runs_after (observes_compiled (Token.scan source)) fun tokens =>
      runs_write output (Stream.write tokens)).imp (fun before after => ?_) fun before after => ?_
  · simp only [Performed, exists_and_left]
  · rintro (rfl | ⟨source, _, rfl | ⟨tokens, _, rfl⟩⟩) <;> exact .unchanged _

theorem compiler_runs (input output : String) (options : Options) :
    Runs (execute (.compiler input output options))
      (fun (before : Files) => Performed before (.compiler input output options))
      (Abandoned · (.compiler input output options)) := by
  refine (runs_after (observes_read input) fun stream =>
    runs_after (observes_compiled (Stream.read stream)) fun tokens =>
      runs_after (observes_compile tokens options) fun text =>
        runs_write output text).imp (fun before after => ?_) fun before after => ?_
  · simp only [Performed, exists_and_left]
  · rintro (rfl | ⟨stream, _, rfl | ⟨tokens, _, rfl | ⟨text, _, rfl⟩⟩⟩) <;> exact .unchanged _

theorem staged_iff {before middle after : Files} {source directory stem text : String}
    {options : Options} {tokens : List Token} :
    Staged before source directory stem options tokens text middle after ↔
      Token.scan source = .ok tokens ∧
        Writes before (streamPath directory stem) (Stream.write tokens) middle ∧
        Assembles middle options tokens text ∧
        Writes middle (assemblyPath directory stem) text after := by
  constructor
  · rintro ⟨scanned, stored, assembled, written, -, -⟩
    exact ⟨scanned, stored, assembled, written⟩
  · rintro ⟨scanned, stored, assembled, written⟩
    refine ⟨scanned, stored, assembled, written, written.beside _, fun file first second => ?_⟩
    rw [written.changed.others file second]
    apply stored.changed.others
    -- The first name still leads where it led when it was written.
    rcases written.changed.names (streamPath directory stem) with same | ⟨nowhere, -, -⟩
    · exact same ▸ first
    · simp [nowhere]

theorem staged_runs {input stem : String} (directory : String) (options : Options)
    (named : Path.stem? input = some stem) :
    Runs
      (do
        let source ← readText input
        let tokens ← compiled (Token.scan source)
        writeText (streamPath directory stem) (Stream.write tokens)
        let assembly ← Command.compile tokens options
        writeText (assemblyPath directory stem) assembly)
      (fun (before : Files) after => ∃ source tokens text middle, Reads before input source ∧
        Staged before source directory stem options tokens text middle after)
      (Abandoned · (.all input directory options)) := by
  refine (runs_after (observes_read input) fun source =>
    runs_after (observes_compiled (Token.scan source)) fun tokens =>
      runs_after_write
        (runs_after (observes_compile tokens options) fun text =>
          runs_write (assemblyPath directory stem) text)).imp
    (fun before after => ?_) fun before after => ?_
  · simp only [staged_iff]
    constructor
    · rintro ⟨source, held, tokens, scanned, middle, stored, text, assembled, written⟩
      exact ⟨source, tokens, text, middle, held, scanned, stored, assembled, written⟩
    · rintro ⟨source, tokens, text, middle, held, scanned, stored, assembled, written⟩
      exact ⟨source, held, tokens, scanned, middle, stored, text, assembled, written⟩
  · -- before the stream is written nothing has changed, and afterwards only the stream is new
    rintro (rfl | ⟨source, held, rfl | ⟨tokens, scanned, rfl | ⟨middle, stored, rest⟩⟩⟩)
    · exact .unchanged _
    · exact .unchanged _
    · exact .unchanged _
    · obtain rfl : after = middle := by
        rcases rest with rfl | ⟨_, _, rfl⟩ <;> rfl
      exact .stored options named held scanned stored (stored.beside _)

theorem observes_directory (directory : String) :
    Observes (directoryFound directory) fun (files : Files) found =>
      (found = true ↔ find files directory = some .directory) := by
  intro world
  have answered : ran (directoryFound directory) world =
      (.ok (FileSystem.isDirectory world.files directory), world) := rfl
  have seen : FileSystem.isDirectory world.files directory = true ↔
      find world.files directory = some .directory := LawfulFileSystem.is_directory
  rw [answered]
  refine ⟨rfl, fun found => ?_⟩
  simp only [← seen]
  rw [Except.ok.injEq, eq_comm, Bool.eq_iff_iff]

theorem all_runs (input directory : String) (options : Options) :
    Runs (execute (.all input directory options))
      (fun (before : Files) => Performed before (.all input directory options))
      (Abandoned · (.all input directory options)) := by
  -- the directory is looked up before anything else, and what is found decides the rest
  refine (@runs_after _ _ _ _ _
    (fun found before after => found = true ∧ ∃ stem source tokens text middle,
      Path.stem? input = some stem ∧ Reads before input source ∧
        Staged before source directory stem options tokens text middle after)
    (fun _ before after => Abandoned before (.all input directory options) after)
    (observes_directory directory) fun found => ?_).imp (fun before after => ?_)
      fun before after => ?_
  · cases found with
    | false =>
        exact (runs_refused fun _ => rfl).imp (fun _ _ => by simp) fun _ _ same =>
          same ▸ .unchanged _
    | true =>
        cases named : Path.stem? input with
        | none =>
            exact (runs_refused fun _ => rfl).imp (fun _ _ => by simp) fun _ _ same =>
              same ▸ .unchanged _
        | some stem =>
            exact (staged_runs directory options named).imp (fun _ _ => by simp) fun _ _ => id
  · constructor
    · rintro ⟨found, there, rfl, staged⟩
      exact ⟨there.mp rfl, staged⟩
    · rintro ⟨there, staged⟩
      exact ⟨true, ⟨fun _ => there, fun _ => rfl⟩, rfl, staged⟩
  · rintro (rfl | ⟨_, _, left⟩)
    · exact .unchanged _
    · exact left

theorem execute_runs (command : Command) :
    Runs command.execute (fun (before : Files) => Performed before command)
      (Abandoned · command) := by
  cases command with
  | lexer input output => exact lexer_runs input output
  | compiler input output options => exact compiler_runs input output options
  | all input directory options => exact all_runs input directory options

theorem run_eq (command : Command) (world : World Files) :
    command.run.run world = match ran command.execute world with
      | (.ok _, after) => (0, { after with printed := after.printed ++ "OK\n" })
      | (.error failure, after) =>
          (1, { after with reported := after.reported ++ (failure.message ++ "\n") }) := by
  unfold run ran
  simp only [StateT.run_bind]
  rcases StateT.run (ExceptT.run command.execute) world with ⟨_ | _, after⟩ <;> rfl

end Command

/-- On every file system, a command exits with 0 after it has made its outputs, or
with 1 when they cannot be made. -/
theorem commands_atomic (command : Command) (world : World Files) :
    let result := command.run.run world
    (result.1 = 0 ∧ Command.Performed world.files command result.2.files) ∨
      (result.1 = 1 ∧ Command.Abandoned world.files command result.2.files ∧
        ∀ files, ¬ Command.Performed world.files command files) := by
  have ended := Command.execute_runs command world
  rw [Command.run_eq]
  rcases last : Command.ran command.execute world with ⟨failure | _, after⟩
  · simp only [last] at ended
    exact .inr ⟨rfl, ended⟩
  · simp only [last] at ended
    exact .inl ⟨rfl, ended⟩

def World.ofTexts (entries : List (List String × Entry)) (texts : List String) :
    World FileTree where
  files := ⟨entries, texts.map fun text => (encode text, .full), []⟩
  printed := ""
  reported := ""

/-- One file is the source, the stored token stream and the library. -/
def sharedWorld : World FileTree := .ofTexts [(["p.ts"], .file 0)] ["program p; begin end."]

def sharedCommand : Command := .all "p.ts" "." ⟨some "p.ts", false⟩

theorem shared_file_atomic :
    (sharedCommand.run.run sharedWorld).1 = 0 ∧
      Command.Performed sharedWorld.files sharedCommand
        (sharedCommand.run.run sharedWorld).2.files := by
  have code : (sharedCommand.run.run sharedWorld).1 = 0 := by decide +kernel
  rcases commands_atomic sharedCommand sharedWorld with made | failed
  · exact made
  · exact absurd (code.symm.trans failed.1) (by decide)

/-- The stored token stream is a link to the assembly, and the program is wrong. -/
def linkedWorld : World FileTree :=
  .ofTexts [(["p.pas"], .file 0), (["out"], .directory .full), (["out", "p.cas"], .file 1),
    (["out", "p.ts"], .link "p.cas"), (["dev"], .directory .full), (["dev", "null"], .special)]
    ["program p; begin x := 1 end.", "CASL"]

/-- A command that fails may replace the assembly, and one that succeeds may leave
nothing. -/
theorem outputs_lost :
    let failed := (Command.run (.all "p.pas" "out" ⟨none, false⟩)).run linkedWorld
    let made := (Command.run (.lexer "p.pas" "/dev/null")).run linkedWorld
    failed.1 = 1 ∧ FileSystem.read linkedWorld.files "out/p.cas" = .ok (encode "CASL") ∧
      FileSystem.read failed.2.files "out/p.cas" ≠ .ok (encode "CASL") ∧
      made.1 = 0 ∧ FileSystem.read made.2.files "/dev/null" = .ok [] := by
  decide +kernel

end PascalCasl
