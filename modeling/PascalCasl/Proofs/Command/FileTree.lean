import PascalCasl.Command.FileTree
import PascalCasl.Proofs.Command.FileSystem
import PascalCasl.Proofs.Steps

/-!
A tree of names is a file system. Walking sees only directories and links, and
writing changes none of them, so every name leads where it led.
-/

namespace PascalCasl

namespace FileTree

variable {tree : FileTree}

theorem entry_put {place : List String} (inside : place ≠ []) (entry : Entry)
    (other : List String) :
    entry? (tree.put place entry) other =
      if other = place then some entry else tree.entry? other := by
  have passed (entries : List (List String × Entry)) (different : other ≠ place) :
      (entries.filter fun old => old.1 ≠ place).lookup other = entries.lookup other := by
    induction entries with
    | nil => rfl
    | cons old entries ih =>
        obtain ⟨key, content⟩ := old
        by_cases same : key = place
        · have skipped : (other == key) = false := beq_false_of_ne (same ▸ different)
          rw [List.filter_cons_of_neg (by simp [same]), ih, List.lookup_cons, skipped]
        · rw [List.filter_cons_of_pos (by simp [same]), List.lookup_cons, ih, List.lookup_cons]
  unfold entry? put
  by_cases same : other = place
  · subst same
    simp [inside]
  · simp only [same, ↓reduceIte, List.lookup_cons, beq_false_of_ne same]
    rw [passed tree.entries same]

def passage (tree : FileTree) (place : List String) : Option Entry :=
  match tree.entry? place with
  | some (.directory access) => some (.directory access)
  | some (.link target) => some (.link target)
  | _ => none

theorem follow_cons
    (onward : List String → List String → Except AccessCause (List String))
    (place : List String) (step : String) (rest : List String) :
    (tree.follow onward place (step :: rest)).toOption =
      match tree.passage place with
      | some (.directory access) =>
          if !access.use then none
          else if step = "." then (tree.follow onward place rest).toOption
          else if step = ".." then (tree.follow onward place.dropLast rest).toOption
          else
            match tree.passage (place ++ [step]) with
            | some (.link target) =>
                (onward (if Path.isAbsolute target then [] else place)
                  (Path.walked target ++ rest)).toOption
            | _ => (tree.follow onward (place ++ [step]) rest).toOption
      | _ => none := by
  rw [follow, passage]
  cases tree.entry? place with
  | none => rfl
  | some entry =>
      cases entry with
      | directory access =>
          simp only [apply_ite Except.toOption]
          rw [passage]
          cases tree.entry? (place ++ [step]) with
          | none => rfl
          | some next => cases next <;> rfl
      | _ => rfl

variable {other : FileTree}

theorem follow_alike (same : ∀ place, tree.passage place = other.passage place)
    {onward further : List String → List String → Except AccessCause (List String)}
    (alike : ∀ place steps, (onward place steps).toOption = (further place steps).toOption)
    (place steps : List String) :
    (tree.follow onward place steps).toOption = (other.follow further place steps).toOption := by
  induction steps generalizing place with
  | nil => rfl
  | cons step rest ih => simp only [follow_cons, same, ih, alike]

theorem walk_alike (same : ∀ place, tree.passage place = other.passage place) (links : Nat)
    (place steps : List String) :
    (tree.walk links place steps).toOption = (other.walk links place steps).toOption := by
  induction links generalizing place steps with
  | zero => exact follow_alike same (fun _ _ => rfl) place steps
  | succ links ih => exact follow_alike same ih place steps

theorem reach_alike (one other : FileTree) (working : one.working = other.working)
    (same : ∀ place, one.passage place = other.passage place) (path : String)
    (steps : List String) :
    (one.reach path steps).toOption = (other.reach path steps).toOption := by
  rw [reach, reach, working]
  exact walk_alike same 40 _ steps

theorem find_eq (path : String) :
    (tree.find path).toOption =
      (tree.reach path (Path.walked path)).toOption.bind tree.found? := by
  rw [find]
  cases tree.reach path (Path.walked path) with
  | error cause => rfl
  | ok place =>
      rw [except_ok_bind]
      cases reached : tree.found? place <;> simp [Except.toOption, reached]

theorem find_at {path : String} {place : List String} (file : Path.namesDirectory path = false)
    (reached : tree.reach path (Path.steps path) = .ok place) :
    (tree.find path).toOption = tree.found? place := by
  rw [find_eq, Path.walked, file]
  simp [reached, Except.toOption]

/-- All that a write can do at a place. -/
inductive Filled (tree : FileTree) (place : List String) (bytes : List UInt8) :
    FileTree → Prop where
  | special (led : tree.entry? place = some .special) : Filled tree place bytes tree
  | replaced {number : Nat} {old : List UInt8} (access : Access)
      (led : tree.entry? place = some (.file number))
      (held : tree.files[number]? = some (old, access)) :
      Filled tree place bytes (tree.withContent number bytes access)
  | made (missing : tree.entry? place = none) :
      Filled tree place bytes (tree.withFile place bytes)

theorem fill_ok {place : List String} {bytes : List UInt8} {after : FileTree}
    (filled : tree.fill place bytes = .ok after) : Filled tree place bytes after := by
  unfold fill at filled
  split at filled
  next => cases filled
  next led =>
    cases filled
    exact .special led
  next => cases filled
  next number led =>
    split at filled
    next old access held =>
      split_ifs at filled
      cases filled
      exact .replaced access led held
    next => cases filled
  next missing =>
    split at filled
    next =>
      split_ifs at filled
      cases filled
      exact .made missing
    next => cases filled

theorem overwrite_ok {path : String} {bytes : List UInt8} {after : FileTree}
    (written : tree.overwrite path bytes = .ok after) :
    Path.namesDirectory path = false ∧
      ∃ place, tree.reach path (Path.steps path) = .ok place ∧ Filled tree place bytes after := by
  unfold overwrite at written
  split at written
  next => cases written
  next last _ =>
    split_ifs at written with _ directory
    · obtain ⟨_, _, refused⟩ := except_bind_ok.mp written
      cases refused
    · obtain ⟨_, _, refused⟩ := except_bind_ok.mp written
      cases refused
    · obtain ⟨place, reached, filled⟩ := except_bind_ok.mp written
      exact ⟨eq_false_of_ne_true directory, place, reached, fill_ok filled⟩

def contentOf (tree : FileTree) (number : Nat) : Option (List UInt8) :=
  tree.files[number]?.map Prod.fst

abbrev Changes (tree : FileTree) (path : String) (bytes : List UInt8) (after : FileTree) : Prop :=
  Change (fun tree path => (tree.find path).toOption) contentOf tree path bytes after

theorem special_changes {path : String} {bytes : List UInt8}
    (led : (tree.find path).toOption = some .special) : Changes tree path bytes tree where
  filled := .inl led
  fresh file missing := by simp [led] at missing
  names _ := .inl rfl
  others _ _ := rfl

theorem find_with_content (number : Nat) (bytes : List UInt8) (access : Access) (name : String) :
    (find (tree.withContent number bytes access) name).toOption = (tree.find name).toOption := by
  have same : found? (tree.withContent number bytes access) = tree.found? := by
    funext place
    simp only [found?, withContent, List.length_set]
    rfl
  have ways (steps : List String) :
      (reach (tree.withContent number bytes access) name steps).toOption =
        (tree.reach name steps).toOption :=
    reach_alike (tree.withContent number bytes access) tree rfl (fun _ => rfl) name steps
  rw [find_eq, find_eq, same, ways]

theorem replaced_changes {path : String} {number : Nat} {old bytes : List UInt8}
    {access : Access} (led : (tree.find path).toOption = some (.file number))
    (held : tree.files[number]? = some (old, access)) :
    Changes tree path bytes (tree.withContent number bytes access) := by
  have within : number < tree.files.length := (List.getElem?_eq_some_iff.mp held).1
  have target := (find_with_content number bytes access path).trans led
  refine ⟨.inr ⟨number, target, ?_⟩, ?_, fun name => .inl (find_with_content _ _ _ name), ?_⟩
  · simp [contentOf, withContent, List.getElem?_set_self within]
  · intro _ missing
    simp [led] at missing
  · intro other elsewhere
    have different : number ≠ other := by
      rintro rfl
      exact elsewhere target
    simp [contentOf, withContent, List.getElem?_set_ne different]

theorem content_with_file (place : List String) (bytes : List UInt8) {number : Nat}
    (other : number ≠ tree.files.length) :
    (tree.withFile place bytes).contentOf number = tree.contentOf number := by
  rw [contentOf, contentOf, withFile]
  rcases Nat.lt_or_gt_of_ne other with less | more
  · rw [List.getElem?_append_left less]
  · have beyond : (tree.files ++ [(bytes, Access.full)]).length ≤ number := by
      rw [List.length_append]
      exact more
    rw [List.getElem?_eq_none (Nat.le_of_lt more), List.getElem?_eq_none beyond]

section

variable {place : List String} (missing : tree.entry? place = none) (bytes : List UInt8)

include missing

theorem entry_with_file (other : List String) :
    entry? (tree.withFile place bytes) other =
      if other = place then some (.file tree.files.length) else tree.entry? other := by
  have inside : place ≠ [] := by
    rintro rfl
    cases missing
  exact entry_put inside _ other

theorem reach_with_file (path : String) (steps : List String) :
    (reach (tree.withFile place bytes) path steps).toOption =
      (tree.reach path steps).toOption := by
  refine reach_alike (tree.withFile place bytes) tree rfl (fun other => ?_) path steps
  rw [passage, passage, entry_with_file missing]
  by_cases same : other = place
  · rw [if_pos same, same, missing]
  · rw [if_neg same]

theorem found_with_file (other : List String) :
    found? (tree.withFile place bytes) other = tree.found? other ∨
      tree.found? other = none ∧
        found? (tree.withFile place bytes) other = some (.file tree.files.length) := by
  have size : (tree.withFile place bytes).files.length = tree.files.length + 1 := by
    simp [withFile]
  rw [found?, found?, entry_with_file missing, size]
  by_cases same : other = place
  · rw [if_pos same, same, missing]
    exact .inr ⟨rfl, if_pos (Nat.lt_succ_self _)⟩
  · rw [if_neg same]
    split
    next => exact .inl rfl
    next number _ =>
      rcases Nat.lt_trichotomy number tree.files.length with less | rfl | more
      · exact .inl ((if_pos (Nat.lt_succ_of_lt less)).trans (if_pos less).symm)
      · exact .inr ⟨if_neg (Nat.lt_irrefl _), if_pos (Nat.lt_succ_self _)⟩
      · have beyond : ¬number < tree.files.length + 1 := by omega
        exact .inl ((if_neg beyond).trans (if_neg (Nat.lt_asymm more)).symm)
    next => exact .inl rfl
    next => exact .inl rfl

theorem made_changes {path : String} (file : Path.namesDirectory path = false)
    (reached : tree.reach path (Path.steps path) = .ok place) :
    Changes tree path bytes (tree.withFile place bytes) := by
  have before : (tree.find path).toOption = none := by
    rw [find_at file reached, found?, missing]
  have target : (find (tree.withFile place bytes) path).toOption =
      some (.file tree.files.length) := by
    have there : found? (tree.withFile place bytes) place = some (.file tree.files.length) := by
      rw [found?, entry_with_file missing, if_pos rfl]
      exact if_pos (by simp [withFile])
    rw [find_eq, reach_with_file missing, Path.walked, file]
    simp [reached, Except.toOption, there]
  refine ⟨.inr ⟨tree.files.length, target, by simp [contentOf, withFile]⟩, ?_, ?_, ?_⟩
  · intro number _ led
    cases target.symm.trans led
    simp [contentOf]
  · intro name
    rw [find_eq, find_eq, reach_with_file missing]
    cases (tree.reach name (Path.walked name)).toOption with
    | none => exact .inl rfl
    | some other =>
        -- a name that reaches the new file reached nothing before
        rcases found_with_file missing bytes other with kept | ⟨nothing, made⟩
        · exact .inl kept
        · exact .inr ⟨nothing, before, _, target, made⟩
  · intro number elsewhere
    apply content_with_file
    rintro rfl
    exact elsewhere target

end

theorem overwrite_changes {path : String} {bytes : List UInt8} {after : FileTree}
    (written : tree.overwrite path bytes = .ok after) : Changes tree path bytes after := by
  obtain ⟨file, place, reached, filled⟩ := overwrite_ok written
  cases filled with
  | special led =>
      apply special_changes
      rw [find_at file reached, found?, led]
  | replaced access led held =>
      refine replaced_changes ?_ held
      rw [find_at file reached, found?, led]
      exact if_pos (List.getElem?_eq_some_iff.mp held).1
  | made missing => exact made_changes missing bytes file reached

theorem read_content {path : String} {number : Nat} {bytes : List UInt8}
    (led : (tree.find path).toOption = some (.file number))
    (opened : tree.read path = .ok bytes) : tree.contentOf number = some bytes := by
  rw [read] at opened
  cases found : tree.find path with
  | error cause => simp [found, Except.toOption] at led
  | ok target =>
      obtain rfl : target = .file number := by simpa [found, Except.toOption] using led
      rw [found, except_ok_bind] at opened
      simp only at opened
      split at opened
      next held =>
        split_ifs at opened
        cases opened
        rw [contentOf, held]
        rfl
      next => cases opened

theorem is_file_iff {path : String} :
    tree.isFile path = true ↔ ∃ number, (tree.find path).toOption = some (.file number) := by
  rw [isFile]
  cases tree.find path with
  | error cause => simp [Except.toOption]
  | ok found => cases found <;> simp [Except.toOption]

theorem is_directory_iff {path : String} :
    tree.isDirectory path = true ↔ (tree.find path).toOption = some .directory := by
  rw [isDirectory]
  cases tree.find path with
  | error cause => simp [Except.toOption]
  | ok found => cases found <;> simp [Except.toOption]

theorem write_refused {after : FileTree} {path : String} {bytes : List UInt8} {cause : AccessCause}
    (refused : tree.write path bytes = (.error cause, after)) : after = tree := by
  rw [write] at refused
  split at refused
  · cases refused
  · cases refused
    rfl

theorem write_changes {after : FileTree} {path : String} {bytes : List UInt8}
    (written : tree.write path bytes = (.ok (), after)) : Changes tree path bytes after := by
  rw [write] at written
  split at written
  next done =>
    cases written
    exact overwrite_changes done
  next => cases written

instance : LawfulFileSystem FileTree Nat where
  find tree path := (tree.find path).toOption
  content := contentOf
  is_file := is_file_iff
  is_directory := is_directory_iff
  read := read_content
  refused := write_refused
  written := write_changes

end FileTree
end PascalCasl
