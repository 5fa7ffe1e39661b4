import PascalCasl.Proofs.Code.Storage
import PascalCasl.Proofs.Simulation.Memory

/-!
Variables in memory. Where a state of a program is represented in memory, each
value that was assigned is in its cell, as a word, and has the type of its
variable. Changing one variable leaves the others as they were, since their
cells are apart.
-/

namespace PascalCasl

open Source

/-- Truth values are words of all ones and all zeros. -/
def Source.Value.word : Value → Word
  | .integer word => word
  | .char code => code.word
  | .boolean truth => if truth then BitVec.allOnes 16 else 0#16

/-- Where the variables of an environment lie: globals first, then the locals up
to `bound`. -/
structure Env.Placed (env : Env) (globalEnd base bound : Nat) : Prop where
  globals : Packed env.globals 0 globalEnd
  locals : Packed env.locals base bound
  below : globalEnd ≤ base
  ordered : base ≤ bound

namespace Machine

variable (machine : Machine)

def Stores (memory : Word → Word) (number : Nat) (type : StandardType) (value? : Option Value) :
    Prop :=
  ∀ value, value? = some value → value.type = type ∧ memory (machine.cell number) = value.word

inductive Represents (memory : Word → Word) : Cells → Content → Prop where
  | scalar {base : Nat} {type : StandardType} {value? : Option Value}
      (held : machine.Stores memory base type value?) :
      Represents memory (.scalar base type) (.scalar type value?)
  | array {base count : Nat} {element : StandardType} {low high : Int}
      {values : Int → Option Value} (counted : count = (high - low + 1).toNat)
      (held : ∀ place < count,
        machine.Stores memory (base + place) element (values (low + (place : Int)))) :
      Represents memory (.array base element low count) (.array element low high values)

/-- The names of the table are those of the store, and each holds what it
should. -/
structure Holds (memory : Word → Word) (table : Table Cells) (store : Store) : Prop where
  present : ∀ name cells, table.find? name = some cells →
    ∃ content, store name = some content ∧ machine.Represents memory cells content
  absent : ∀ name, table.find? name = none → store name = none

structure Matches (env : Env) (state : Source.State) (memory : Word → Word) : Prop where
  globals : machine.Holds memory env.globals state.globals
  locals : machine.Holds memory env.locals state.locals

variable {machine} {env : Env} {state : Source.State} {memory later : Word → Word}
  {globalEnd base bound low high : Nat} {name : String} {cells : Cells} {content : Content}
  {table : Table Cells} {store : Store}

theorem represents_of_same (held : machine.Represents memory cells content)
    (same : ∀ number, cells.base ≤ number → number < cells.base + cells.count →
      later (machine.cell number) = memory (machine.cell number)) :
    machine.Represents later cells content := by
  cases held with
  | @scalar base _ _ held =>
      refine .scalar fun value assigned => ?_
      have kept := same base (Nat.le_refl _) (Nat.lt_succ_self _)
      rw [kept]
      exact held value assigned
  | @array base _ _ _ _ _ counted held =>
      refine .array counted fun place inside value assigned => ?_
      have kept := same (base + place) (Nat.le_add_right _ _) (Nat.add_lt_add_left inside _)
      rw [kept]
      exact held place inside value assigned

theorem holds_of_same (packed : Packed table low high) (held : machine.Holds memory table store)
    (same : ∀ number, low ≤ number → number < high →
      later (machine.cell number) = memory (machine.cell number)) :
    machine.Holds later table store where
  present name cells found := by
    rcases held.present name cells found with ⟨content, known, represented⟩
    have inside := packed.within name cells found
    exact ⟨content, known, represents_of_same represented fun number low high =>
      same number (by omega) (by omega)⟩
  absent := held.absent

theorem matches_of_same (placed : env.Placed globalEnd base bound)
    (held : machine.Matches env state memory)
    (same : ∀ number < bound, later (machine.cell number) = memory (machine.cell number)) :
    machine.Matches env state later := by
  have below := placed.below
  have ordered := placed.ordered
  exact ⟨holds_of_same placed.globals held.globals fun number _ high => same number (by omega),
    holds_of_same placed.locals held.locals fun number _ high => same number high⟩

theorem content_found (held : machine.Matches env state memory)
    (found : env.cells? name = some cells) :
    ∃ content, state.find? name = some content ∧ machine.Represents memory cells content := by
  unfold Env.cells? at found
  unfold Source.State.find?
  cases hit : env.locals.find? name with
  | none =>
      rw [hit] at found
      rw [held.locals.absent name hit]
      exact held.globals.present name cells found
  | some local_ =>
      rw [hit] at found
      cases found
      rcases held.locals.present name cells hit with ⟨content, known, represented⟩
      rw [known]
      exact ⟨content, rfl, represented⟩

theorem cells_inside (placed : env.Placed globalEnd base bound)
    (found : env.cells? name = some cells) : cells.base + cells.count ≤ bound := by
  have below := placed.below
  have ordered := placed.ordered
  unfold Env.cells? at found
  cases hit : env.locals.find? name with
  | none =>
      rw [hit] at found
      have inside := placed.globals.within name cells found
      omega
  | some local_ =>
      rw [hit] at found
      cases found
      exact (placed.locals.within name cells hit).2

theorem holds_put (packed : Packed table low high) (held : machine.Holds memory table store)
    (found : table.find? name = some cells) (changed : machine.Represents later cells content)
    (same : ∀ number, low ≤ number → number < high →
      (number < cells.base ∨ cells.base + cells.count ≤ number) →
      later (machine.cell number) = memory (machine.cell number)) :
    machine.Holds later table (Store.put store name content) where
  present other others located := by
    by_cases equal : other = name
    · subst equal
      rw [found] at located
      cases located
      exact ⟨content, by simp [Store.put], changed⟩
    · rcases held.present other others located with ⟨known, assigned, represented⟩
      have inside := packed.within other others located
      -- another name has cells of its own
      have apart := packed.apart other name others cells equal located found
      refine ⟨known, by simp [Store.put, equal, assigned], ?_⟩
      exact represents_of_same represented fun number low high =>
        same number (by omega) (by omega) (by omega)
  absent other missing := by
    have different : other ≠ name := by
      rintro rfl
      rw [found] at missing
      cases missing
    rw [Store.put, if_neg different]
    exact held.absent other missing

theorem matches_put (placed : env.Placed globalEnd base bound)
    (held : machine.Matches env state memory) (found : env.cells? name = some cells)
    (changed : machine.Represents later cells content)
    (same : ∀ number < bound, (number < cells.base ∨ cells.base + cells.count ≤ number) →
      later (machine.cell number) = memory (machine.cell number)) :
    machine.Matches env (state.put name content) later := by
  have below := placed.below
  have ordered := placed.ordered
  unfold Env.cells? at found
  unfold Source.State.put
  cases hit : env.locals.find? name with
  | none =>
      rw [hit] at found
      -- the state looks a name up in the order of the environment
      rw [held.locals.absent name hit]
      have inside := placed.globals.within name cells found
      exact ⟨holds_put placed.globals held.globals found changed fun number _ high outside =>
          same number (by omega) outside,
        holds_of_same placed.locals held.locals fun number low high =>
          same number high (by omega)⟩
  | some local_ =>
      rw [hit] at found
      cases found
      rcases held.locals.present name cells hit with ⟨known, assigned, _⟩
      rw [assigned]
      have inside := placed.locals.within name cells hit
      exact ⟨holds_of_same placed.globals held.globals fun number _ high =>
          same number (by omega) (by omega),
        holds_put placed.locals held.locals hit changed fun number low high outside =>
          same number high outside⟩

end Machine
end PascalCasl
