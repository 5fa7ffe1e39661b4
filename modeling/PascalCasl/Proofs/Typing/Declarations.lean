import PascalCasl.Proofs.Steps
import PascalCasl.Proofs.Typing.Judgment
import PascalCasl.Typing.Check

/-!
What declarations must be to be accepted, and the tables they leave. A table
lists the declarations newest first; with distinct names the order does not
matter, and looking a name up is membership.
-/

namespace PascalCasl

@[simp] theorem require_ok {condition : Bool} {line : Nat} {done : Unit} :
    require condition line = .ok done ↔ condition = true := by
  cases condition <;> simp [require, violation]

@[simp] theorem or_violation_ok {α : Type} {value? : Option α} {line : Nat} {value : α} :
    orViolation value? line = .ok value ↔ value? = some value := by
  cases value? <;> simp [orViolation, violation]

namespace Table

variable {α : Type} {table : Table α} {name : String}

theorem find_cons (first : String) (value : α) (rest : Table α) :
    Table.find? ((first, value) :: rest) name =
      if name = first then some value else rest.find? name := by
  rw [Table.find?, List.lookup_cons]
  by_cases same : name = first
  · simp [same]
  · have differs : (name == first) = false := by simpa using same
    simp [same, differs, Table.find?]

theorem find_none : table.find? name = none ↔ name ∉ table.map Prod.fst := by
  induction table with
  | nil => simp [Table.find?]
  | cons first rest ih =>
      rw [find_cons]
      by_cases same : name = first.1
      · simp [same]
      · simp [same, ih]

theorem holds_iff : table.holds name = true ↔ name ∈ table.map Prod.fst := by
  rw [Table.holds, Option.isSome_iff_ne_none, ne_eq, find_none, not_not]

theorem find_some {value : α} (distinct : (table.map Prod.fst).Nodup) :
    table.find? name = some value ↔ (name, value) ∈ table := by
  induction table with
  | nil => simp [Table.find?]
  | cons first rest ih =>
      rcases first with ⟨known, meaning⟩
      rw [List.map_cons, List.nodup_cons] at distinct
      rw [find_cons, List.mem_cons, Prod.mk.injEq]
      by_cases same : name = known
      · subst same
        have absent : (name, value) ∉ rest := fun held =>
          distinct.1 (List.mem_map.mpr ⟨_, held, rfl⟩)
        simp [absent, eq_comm]
      · simp [same, ih distinct.2]

end Table

theorem declare_ok {reserved : List String} {table result : Table Ty} {name : String} {type : Ty}
    {line : Nat} :
    declare reserved table name type line = .ok result ↔
      name ∉ reserved ∧ name ∉ table.map Prod.fst ∧ result = (name, type) :: table := by
  simp only [declare, except_bind_ok, require_ok, Bool.and_eq_true, Bool.not_eq_true',
    ← Bool.not_eq_true, Table.holds_iff, List.contains_iff_mem, Except.ok.injEq]
  grind

/-- The names of `entries` may be declared over `table`: they are distinct, new
and not reserved. -/
structure Declarable (reserved : List String) (table entries : List (String × Ty)) : Prop where
  distinct : (entries.map Prod.fst).Nodup
  allowed : ∀ name ∈ entries.map Prod.fst, name ∉ reserved
  fresh : ∀ name ∈ entries.map Prod.fst, name ∉ table.map Prod.fst

theorem declarable_nil {reserved : List String} {table : List (String × Ty)} :
    Declarable reserved table [] := by
  constructor <;> simp

theorem declarable_cons {reserved : List String} {table rest : List (String × Ty)}
    {first : String × Ty} :
    Declarable reserved table (first :: rest) ↔
      first.1 ∉ reserved ∧ first.1 ∉ table.map Prod.fst ∧
        Declarable reserved (first :: table) rest := by
  constructor
  · rintro ⟨distinct, allowed, fresh⟩
    rw [List.map_cons, List.nodup_cons] at distinct
    rw [List.map_cons, List.forall_mem_cons] at allowed fresh
    refine ⟨allowed.1, fresh.1, distinct.2, allowed.2, ?_⟩
    intro name declared
    simp only [List.map_cons, List.mem_cons, not_or]
    exact ⟨fun same => distinct.1 (same ▸ declared), fresh.2 name declared⟩
  · rintro ⟨allowedFirst, freshFirst, distinct, allowed, fresh⟩
    simp only [List.map_cons, List.mem_cons, not_or] at fresh
    refine ⟨?_, ?_, ?_⟩
    · exact List.nodup_cons.mpr ⟨fun declared => (fresh _ declared).1 rfl, distinct⟩
    · exact List.forall_mem_cons.mpr ⟨allowedFirst, allowed⟩
    · exact List.forall_mem_cons.mpr ⟨freshFirst, fun name declared => (fresh name declared).2⟩

theorem declare_params_ok {reserved : List String} {table result : Table Ty}
    {params : List Param} :
    declareParams reserved table params = .ok result ↔
      Declarable reserved table (params.map Param.entry) ∧
        result = (params.map Param.entry).reverse ++ table := by
  induction params generalizing table with
  | nil => simp [declareParams, declarable_nil, eq_comm]
  | cons first rest ih =>
      simp only [declareParams, except_bind_ok, declare_ok, List.map_cons, declarable_cons,
        List.reverse_cons, List.append_assoc, List.singleton_append]
      constructor
      · rintro ⟨_, ⟨allowed, fresh, rfl⟩, declared⟩
        rw [ih] at declared
        exact ⟨⟨allowed, fresh, declared.1⟩, declared.2⟩
      · rintro ⟨⟨allowed, fresh, declarable⟩, same⟩
        exact ⟨_, ⟨allowed, fresh, rfl⟩, ih.mpr ⟨declarable, same⟩⟩

theorem bound_in_range {bound : Bound} : bound.inRange = true ↔ bound.IsLiteral := by
  rcases bound with ⟨negative, magnitude⟩
  cases negative
  · simp [Bound.inRange, Bound.IsLiteral, greatest]
  · simp only [Bound.inRange, Bound.IsLiteral, leastMagnitude, if_true, decide_eq_true_eq, true_and]
    omega

theorem type_valid {type : TypeSpec} : type.isValid = true ↔ type.WellFormed := by
  cases type with
  | standard type => exact ⟨fun _ => .standard, fun _ => rfl⟩
  | array low high element =>
      simp only [TypeSpec.isValid, Bool.and_eq_true, decide_eq_true_eq, bound_in_range]
      constructor
      · rintro ⟨⟨lowLiteral, highLiteral⟩, ordered⟩
        exact .array lowLiteral highLiteral ordered
      · rintro (_ | ⟨lowLiteral, highLiteral, ordered⟩)
        exact ⟨⟨lowLiteral, highLiteral⟩, ordered⟩

theorem declare_vars_ok {reserved : List String} {table result : Table Ty} {vars : List VarDecl} :
    declareVars reserved table vars = .ok result ↔
      (∀ declared ∈ vars, declared.type.WellFormed) ∧
        Declarable reserved table (vars.map VarDecl.entry) ∧
        result = (vars.map VarDecl.entry).reverse ++ table := by
  induction vars generalizing table with
  | nil => simp [declareVars, declarable_nil, eq_comm]
  | cons first rest ih =>
      simp only [declareVars, except_bind_ok, require_ok, declare_ok, type_valid, List.map_cons,
        declarable_cons, List.reverse_cons, List.append_assoc, List.singleton_append,
        List.mem_cons, forall_eq_or_imp]
      constructor
      · rintro ⟨_, valid, _, ⟨allowed, fresh, rfl⟩, declared⟩
        rw [ih] at declared
        exact ⟨⟨valid, declared.1⟩, ⟨allowed, fresh, declared.2.1⟩, declared.2.2⟩
      · rintro ⟨⟨valid, others⟩, ⟨allowed, fresh, declarable⟩, same⟩
        exact ⟨(), valid, _, ⟨allowed, fresh, rfl⟩, ih.mpr ⟨others, declarable, same⟩⟩

end PascalCasl
