import PascalCasl.Proofs.Code.Labels

/-!
Where lines lie in memory. A place in the program is given by the lines before
it, so that code is followed by appending lines and no address is computed;
fetching and label lookup are stated for such places.
-/

namespace PascalCasl

open Casl

@[simp] theorem code_size_nil : codeSize [] = 0 := rfl

@[simp] theorem code_size_cons (first : Line) (rest : Code) :
    codeSize (first :: rest) = first.op.size + codeSize rest := rfl

@[simp] theorem code_size_append (first second : Code) :
    codeSize (first ++ second) = codeSize first + codeSize second := by
  induction first with
  | nil => simp
  | cons head rest ih => simp [ih, Nat.add_assoc]

theorem line_at_append (before rest : Code) (place : Nat) :
    lineAt? (before ++ rest) (codeSize before + place) = lineAt? rest place := by
  induction before with
  | nil => simp
  | cons first others ih =>
      have beyond : ¬ first.op.size + codeSize others + place < first.op.size := by omega
      have left : first.op.size + codeSize others + place - first.op.size =
          codeSize others + place := by omega
      rw [List.cons_append, lineAt?, code_size_cons, if_neg beyond, left, ih]

theorem line_at_first {line : Line} (rest : Code) (occupied : 0 < line.op.size) :
    lineAt? (line :: rest) 0 = some line := by
  rw [lineAt?, if_pos occupied, if_pos rfl]

theorem line_at_split {code : Code} {place : Nat} {line : Line}
    (found : lineAt? code place = some line) :
    ∃ before after, code = before ++ [line] ++ after ∧ codeSize before = place := by
  induction code generalizing place with
  | nil => cases found
  | cons first rest ih =>
      rw [lineAt?] at found
      split at found
      next inside =>
        split at found
        next start =>
          cases found
          exact ⟨[], rest, rfl, start.symm⟩
        next => cases found
      next beyond =>
        rcases ih found with ⟨before, after, split, size⟩
        exact ⟨first :: before, after, by simp [split], by rw [code_size_cons]; omega⟩

theorem lines_apart {before other after rest : Code} {line another : Line}
    (same : before ++ [line] ++ after = other ++ [another] ++ rest) (different : line ≠ another) :
    codeSize before + line.op.size ≤ codeSize other ∨
      codeSize other + another.op.size ≤ codeSize before := by
  -- Whichever of the two lines comes first, the other begins after its words.
  rw [List.append_assoc, List.append_assoc, List.append_eq_append_iff] at same
  rcases same with ⟨between, rfl, split⟩ | ⟨between, rfl, split⟩
  · cases between with
    | nil => exact absurd (List.cons.inj split).1 different
    | cons first more =>
        cases (List.cons.inj split).1
        left
        rw [code_size_append, code_size_cons]
        omega
  · cases between with
    | nil => exact absurd (List.cons.inj split).1.symm different
    | cons first more =>
        cases (List.cons.inj split).1
        right
        rw [code_size_append, code_size_cons]
        omega

theorem label_place_append {before : Code} (rest : Code) {label : Label}
    (new : label ∉ labels before) :
    labelPlace? (before ++ rest) label =
      (labelPlace? rest label).map (codeSize before + ·) := by
  induction before with
  | nil => simp
  | cons first others ih =>
      have differs : first.label? ≠ some label := by
        intro same
        exact new (by simp [labels, same])
      have newLater : label ∉ labels others := by
        intro later
        apply new
        rw [labels, List.mem_filterMap] at later ⊢
        rcases later with ⟨line, member, named⟩
        exact ⟨line, List.mem_cons_of_mem _ member, named⟩
      rw [List.cons_append, labelPlace?, if_neg differs, ih newLater, Option.map_map]
      simp [Function.comp_def, Nat.add_assoc]

namespace Machine

variable (machine : Machine)

/-- The address after the lines `before`. -/
def place (before : Code) : Word := BitVec.ofNat 16 (machine.origin + codeSize before)

/-- The lines `code` are listed after the lines `before`. -/
def Lists (before code : Code) : Prop := ∃ after, machine.lines = before ++ code ++ after

variable {machine} {before code first second : Code}

theorem lists_left (lists : machine.Lists before (first ++ second)) :
    machine.Lists before first := by
  rcases lists with ⟨after, split⟩
  exact ⟨second ++ after, by simp [split]⟩

theorem lists_right (lists : machine.Lists before (first ++ second)) :
    machine.Lists (before ++ first) second := by
  rcases lists with ⟨after, split⟩
  exact ⟨after, by simp [split]⟩

theorem place_line (line : Line) :
    machine.place before + BitVec.ofNat 16 line.op.size = machine.place (before ++ [line]) := by
  simp [place, ← BitVec.ofNat_add, Nat.add_assoc]

theorem line_in_listing {line : Line} (lists : machine.Lists before [line]) :
    codeSize before + line.op.size ≤ codeSize machine.lines := by
  rcases lists with ⟨after, split⟩
  rw [split, code_size_append, code_size_append, code_size_cons]
  omega

theorem line_below_limit (fits : machine.Fits) {line : Line} (lists : machine.Lists before [line]) :
    machine.origin + codeSize before + line.op.size ≤ machine.limit := by
  have listed := line_in_listing lists
  have image := fits.image
  rw [imageSize] at image
  omega

theorem limit_in_space (fits : machine.Fits) : machine.limit ≤ 65536 :=
  Nat.le_trans fits.stack fits.space

theorem place_in_space (fits : machine.Fits) {line : Line} (lists : machine.Lists before [line])
    (occupied : 0 < line.op.size) :
    (machine.place before).toNat = machine.origin + codeSize before := by
  have below := line_below_limit fits lists
  have space := limit_in_space fits
  rw [place, BitVec.toNat_ofNat, Nat.mod_eq_of_lt]
  omega

theorem line_at_place {line : Line} (lists : machine.Lists before [line])
    (occupied : 0 < line.op.size) : lineAt? machine.lines (codeSize before) = some line := by
  rcases lists with ⟨after, split⟩
  rw [split, List.append_assoc, ← Nat.add_zero (codeSize before), line_at_append,
    List.singleton_append, line_at_first after occupied]

theorem fetch_at (fits : machine.Fits) {line : Line} (lists : machine.Lists before [line])
    (occupied : 0 < line.op.size) : machine.fetch (machine.place before) = some line.op := by
  have address := place_in_space fits lists occupied
  have offset : (machine.place before).toNat - machine.origin = codeSize before := by omega
  rw [fetch, if_pos (by omega), offset, line_at_place lists occupied, Option.map_some]

theorem address_at (distinct : (labels machine.lines).Nodup) {line : Line} {label : Label}
    (lists : machine.Lists before [line]) (named : line.label? = some label) :
    machine.address? label = some (machine.place before) := by
  rcases lists with ⟨after, split⟩
  rw [List.append_assoc, List.singleton_append] at split
  -- The lookup takes the first line of that label, and no other line has it.
  have new : label ∉ labels before := by
    intro earlier
    rw [split, labels_append] at distinct
    have later : label ∈ labels (line :: after) := by simp [labels, named]
    exact (List.nodup_append.mp distinct).2.2 label earlier label later rfl
  rw [address?, split, label_place_append _ new, labelPlace?, if_pos named]
  rfl

end Machine
end PascalCasl
