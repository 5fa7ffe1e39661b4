import Mathlib.Tactic.Common
import PascalCasl.Command.Run

/-!
Steps of commands. A step that only reads gives what it finds in the files; one
that writes changes them as it says or fails.
-/

namespace PascalCasl.Command

variable {Files α β : Type}

def ran (step : Step Files α) (world : World Files) : Except CommandFailure α × World Files :=
  StateT.run (ExceptT.run step) world

theorem ran_bind (step : Step Files α) (next : α → Step Files β) (world : World Files) :
    ran (step >>= next) world = match ran step world with
      | (.ok value, after) => ran (next value) after
      | (.error failure, after) => (.error failure, after) := by
  unfold ran
  rw [ExceptT.run_bind, StateT.run_bind]
  rcases StateT.run (ExceptT.run step) world with ⟨_ | value, after⟩ <;> rfl

theorem ran_pure (value : α) (world : World Files) :
    ran (pure value) world = (.ok value, world) := rfl

theorem ran_throw (failure : CommandFailure) (world : World Files) :
    ran (throw failure : Step Files α) world = (.error failure, world) := rfl

theorem ran_get (world : World Files) : ran (get : Step Files (World Files)) world =
    (.ok world, world) := rfl

theorem ran_lift (step : StateM (World Files) α) (world : World Files) :
    ran (liftM step) world = (.ok (step.run world).1, (step.run world).2) := rfl

/-- The step leaves the files, and gives exactly the values that `good` finds
in them. -/
def Observes (step : Step Files α) (good : Files → α → Prop) : Prop :=
  ∀ world, (ran step world).2.files = world.files ∧
    ∀ value, (ran step world).1 = .ok value ↔ good world.files value

theorem Observes.congr {step : Step Files α} {good fine : Files → α → Prop}
    (observed : Observes step good) (same : ∀ files value, good files value ↔ fine files value) :
    Observes step fine :=
  fun world => ⟨(observed world).1, fun value => ((observed world).2 value).trans (same _ _)⟩

theorem observes_bind {step : Step Files α} {next : α → Step Files β}
    {good : Files → α → Prop} {fine : α → Files → β → Prop}
    (first : Observes step good) (second : ∀ value, Observes (next value) (fine value)) :
    Observes (step >>= next) fun files result =>
      ∃ value, good files value ∧ fine value files result := by
  intro world
  obtain ⟨kept, found⟩ := first world
  rw [ran_bind]
  rcases ended : ran step world with ⟨_ | value, middle⟩
  · simp only [ended, reduceCtorEq, false_iff] at kept found
    simp [kept, found]
  · simp only [ended, Except.ok.injEq] at kept found
    obtain ⟨keptAfter, foundAfter⟩ := second value middle
    rw [kept] at keptAfter foundAfter
    refine ⟨keptAfter, fun result => (foundAfter result).trans ?_⟩
    simp [← found]

theorem observes_pure (value : α) :
    Observes (pure value : Step Files α) fun _ result => value = result :=
  fun _ => ⟨rfl, fun result => by rw [ran_pure, Except.ok.injEq]⟩

theorem observes_compiled (outcome : Except Fault α) :
    Observes (compiled outcome : Step Files α) fun _ value => outcome = .ok value := by
  intro world
  cases outcome with
  | error fault => simp [compiled, ran_throw]
  | ok value => simp [compiled, ran_pure]

theorem observes_after_talk {talk : StateM (World Files) Unit} {rest : Unit → Step Files α}
    {good : Files → α → Prop} {told : Prop} [Decidable told]
    (silent : ∀ world, (talk.run world).2.files = world.files)
    (observed : Observes (rest ()) good) :
    Observes (if told then liftM talk >>= rest else rest ()) good := by
  split
  · intro world
    rw [ran_bind, ran_lift, ← silent world]
    exact observed _
  · exact observed

/-- On success the files changed as `done` says. On failure they changed as
`left` says, and no change is as `done` says. -/
def Runs (step : Step Files Unit) (done left : Files → Files → Prop) : Prop :=
  ∀ world, match ran step world with
    | (.ok _, after) => done world.files after.files
    | (.error _, after) => left world.files after.files ∧ ∀ files, ¬ done world.files files

theorem Runs.imp {step : Step Files Unit} {done left whole rest : Files → Files → Prop}
    (runs : Runs step done left) (same : ∀ before after, done before after ↔ whole before after)
    (more : ∀ before after, left before after → rest before after) : Runs step whole rest := by
  intro world
  have ended := runs world
  split at ended
  · exact (same _ _).mp ended
  · exact ⟨more _ _ ended.1, fun files made => ended.2 files ((same _ _).mpr made)⟩

theorem runs_refused {step : Step Files Unit} {failure : CommandFailure}
    (refused : ∀ world, ran step world = (.error failure, world)) :
    Runs step (fun _ _ => False) fun before after => after = before := by
  intro world
  rw [refused]
  exact ⟨rfl, fun _ => id⟩

theorem runs_after {step : Step Files α} {next : α → Step Files Unit}
    {good : Files → α → Prop} {done left : α → Files → Files → Prop}
    (observed : Observes step good) (rest : ∀ value, Runs (next value) (done value) (left value)) :
    Runs (step >>= next) (fun before after => ∃ value, good before value ∧ done value before after)
      fun before after =>
        after = before ∨ ∃ value, good before value ∧ left value before after := by
  intro world
  obtain ⟨kept, found⟩ := observed world
  rw [ran_bind]
  rcases ended : ran step world with ⟨_ | value, middle⟩
  · simp only [ended, reduceCtorEq, false_iff] at kept found
    simp [kept, found]
  · simp only [ended, Except.ok.injEq] at kept found
    have holds : good world.files value := (found value).mp rfl
    -- what is observed is the only value that `good` allows
    have unique : ∀ other, good world.files other → other = value :=
      fun other good => ((found other).mpr good).symm
    have second := rest value middle
    rcases last : ran (next value) middle with ⟨_ | _, after⟩
    · simp only [last, kept] at second ⊢
      refine ⟨.inr ⟨value, holds, second.1⟩, ?_⟩
      rintro files ⟨other, good, made⟩
      cases unique other good
      exact second.2 files made
    · simp only [last, kept] at second ⊢
      exact ⟨value, holds, second⟩

end PascalCasl.Command
