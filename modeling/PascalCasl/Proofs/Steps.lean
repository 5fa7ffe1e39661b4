import PascalCasl.Code.Supply

/-!
Steps that may fail, one after another.
-/

namespace PascalCasl

variable {α β : Type}

theorem except_bind_ok {ε : Type} {step : Except ε α} {next : α → Except ε β} {result : β} :
    step >>= next = .ok result ↔ ∃ value, step = .ok value ∧ next value = .ok result := by
  cases step with
  | error failure => simp [bind, Except.bind]
  | ok value => simp [bind, Except.bind]

theorem except_bind_error {ε : Type} {step : Except ε α} {next : α → Except ε β} {failure : ε} :
    step >>= next = .error failure ↔
      step = .error failure ∨ ∃ value, step = .ok value ∧ next value = .error failure := by
  cases step with
  | error other => simp [bind, Except.bind]
  | ok value => simp [bind, Except.bind]

@[simp] theorem except_ok_bind {ε : Type} (value : α) (next : α → Except ε β) :
    (Except.ok value >>= next) = next value := rfl

theorem except_map_ok {ε : Type} {step : Except ε α} {change : α → β} {result : β} :
    step.map change = .ok result ↔ ∃ value, step = .ok value ∧ change value = result := by
  cases step with
  | error failure => simp [Except.map]
  | ok value => simp [Except.map]

theorem except_map_error {ε : Type} {step : Except ε α} {change : α → β} {failure : ε} :
    step.map change = .error failure ↔ step = .error failure := by
  cases step with
  | error other => simp [Except.map]
  | ok value => simp [Except.map]

namespace Emit

theorem pure_ok {value result : α} {supply after : Supply} :
    (Pure.pure value : Emit α) supply = (.ok result, after) ↔ value = result ∧ supply = after := by
  simp [Pure.pure, Emit.pure]

theorem bind_ok {step : Emit α} {next : α → Emit β} {result : β} {supply after : Supply} :
    (step >>= next) supply = (.ok result, after) ↔
      ∃ value middle, step supply = (.ok value, middle) ∧
        next value middle = (.ok result, after) := by
  simp only [Bind.bind, Emit.bind]
  rcases step supply with ⟨_ | value, middle⟩
  · simp
  · constructor
    · exact fun ended => ⟨value, middle, rfl, ended⟩
    · rintro ⟨_, _, same, ended⟩
      cases same
      exact ended

/-- The step succeeds whatever the supply is, and its result is as `good`
says. -/
def Yields (step : Emit α) (good : α → Prop) : Prop :=
  ∀ supply, ∃ value after, step supply = (.ok value, after) ∧ good value

theorem yields_pure {value : α} {good : α → Prop} (holds : good value) :
    Yields (Pure.pure value) good :=
  fun supply => ⟨value, supply, rfl, holds⟩

theorem yields_bind {step : Emit α} {next : α → Emit β} {good : α → Prop} {fine : β → Prop}
    (first : step.Yields good) (second : ∀ value, good value → (next value).Yields fine) :
    Yields (step >>= next) fine := by
  intro supply
  rcases first supply with ⟨value, middle, ran, holds⟩
  rcases second value holds middle with ⟨result, after, ended, finished⟩
  exact ⟨result, after, bind_ok.mpr ⟨value, middle, ran, ended⟩, finished⟩

theorem yields_list {γ : Type} {item : β → Emit α} {list : List β → Emit γ} {empty : γ}
    {join : α → γ → γ} {items : List β} (nil : list [] = Pure.pure empty)
    (cons : ∀ first rest, list (first :: rest) = (do
      let value ← item first
      let others ← list rest
      Pure.pure (join value others)))
    (each : ∀ first ∈ items, ∃ good, (item first).Yields good) :
    (list items).Yields fun _ => True := by
  induction items with
  | nil =>
      rw [nil]
      exact yields_pure trivial
  | cons first rest ih =>
      rcases List.forall_mem_cons.mp each with ⟨⟨good, one⟩, others⟩
      rw [cons]
      exact yields_bind one fun _ _ => yields_bind (ih others) fun _ _ => yields_pure trivial

end Emit
end PascalCasl
