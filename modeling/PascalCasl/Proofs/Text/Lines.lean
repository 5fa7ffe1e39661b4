import PascalCasl.Text.Lines

/-!
Lines and columns taken apart again: a line that was ended by a line feed and
columns that were put between separators come back as they were, and no line
holds a line feed, no column its separator.
-/

namespace PascalCasl.Text

theorem extend_first_eq (c : Char) {parts : List (List Char)} (some_part : parts ≠ []) :
    extendFirst c parts = parts.modifyHead (List.cons c) := by
  obtain ⟨part, others, rfl⟩ := List.exists_cons_of_ne_nil some_part
  rfl

theorem pieces_eq_split (separator : Char) (text : List Char) :
    pieces separator text = text.splitOn separator := by
  induction text with
  | nil => rfl
  | cons c text ih =>
      have some_part : text.splitOn separator ≠ [] := List.splitOn_ne_nil _ _
      rw [pieces, ih, List.splitOn_cons_eq_if_modifyHead, extend_first_eq c some_part]
      simp only [beq_iff_eq]

theorem pieces_append {separator : Char} {piece : List Char} (whole : separator ∉ piece)
    (rest : List Char) :
    pieces separator (piece ++ separator :: rest) = piece :: pieces separator rest := by
  rw [pieces_eq_split, pieces_eq_split, List.splitOn_append_cons_self_of_not_mem whole]

theorem pieces_whole {separator : Char} {piece : List Char} (whole : separator ∉ piece) :
    pieces separator piece = [piece] := by
  rw [pieces_eq_split, List.splitOn_eq_splitOnP, List.splitOnP_eq_singleton]
  intro c among
  rw [beq_eq_false_iff_ne]
  rintro rfl
  exact whole among

theorem mem_extend_first {c : Char} {parts : List (List Char)} {part : List Char}
    (member : part ∈ extendFirst c parts) :
    part ∈ parts ∨ ∃ rest, part = c :: rest ∧ (rest = [] ∨ rest ∈ parts) := by
  cases parts with
  | nil =>
      rw [extendFirst, List.mem_singleton] at member
      exact .inr ⟨[], member, .inl rfl⟩
  | cons first parts =>
      rcases List.mem_cons.1 member with rfl | among
      · exact .inr ⟨first, rfl, .inr List.mem_cons_self⟩
      · exact .inl (List.mem_cons_of_mem first among)

theorem mem_pieces {separator : Char} {text piece : List Char}
    (member : piece ∈ pieces separator text) :
    separator ∉ piece ∧ piece ⊆ text := by
  induction text generalizing piece with
  | nil =>
      rw [pieces, List.mem_singleton] at member
      subst member
      exact ⟨List.not_mem_nil, List.nil_subset _⟩
  | cons c text ih =>
      rw [pieces] at member
      split at member
      · rcases List.mem_cons.1 member with rfl | among
        · exact ⟨List.not_mem_nil, List.nil_subset _⟩
        · exact ⟨(ih among).1, List.subset_cons_of_subset c (ih among).2⟩
      · rename_i other
        rcases mem_extend_first member with among | ⟨rest, rfl, rfl | among⟩
        · exact ⟨(ih among).1, List.subset_cons_of_subset c (ih among).2⟩
        · exact ⟨by simpa using Ne.symm other, by simp⟩
        · refine ⟨?_, List.cons_subset_cons c (ih among).2⟩
          exact List.not_mem_cons_of_ne_of_not_mem (Ne.symm other) (ih among).1

theorem mem_lines {text line : List Char} (member : line ∈ lines text) : '\n' ∉ line := by
  fun_induction lines text generalizing line with
  | case1 => exact absurd member List.not_mem_nil
  | case2 rest ih =>
      rcases List.mem_cons.1 member with rfl | among
      · exact List.not_mem_nil
      · exact ih among
  | case3 rest ih =>
      rcases List.mem_cons.1 member with rfl | among
      · exact List.not_mem_nil
      · exact ih among
  | case4 c rest not_feed _ ih =>
      rcases mem_extend_first member with among | ⟨tail, rfl, rfl | among⟩
      · exact ih among
      · simpa using Ne.symm not_feed
      · exact List.not_mem_cons_of_ne_of_not_mem (Ne.symm not_feed) (ih among)

/-- A line that does not end in a carriage return comes back whole. -/
theorem lines_append {line : List Char} (whole : '\n' ∉ line) (ending : line.getLast? ≠ some '\r')
    (rest : List Char) : lines (line ++ '\n' :: rest) = line :: lines rest := by
  induction line with
  | nil => rw [List.nil_append, lines]
  | cons c line ih =>
      rw [List.mem_cons, not_or] at whole
      have more : lines (line ++ '\n' :: rest) = line :: lines rest := by
        cases line with
        | nil => rw [List.nil_append, lines]
        | cons next line => exact ih whole.2 (by rwa [List.getLast?_cons_cons] at ending)
      rw [List.cons_append, lines, more]
      · rfl
      · exact Ne.symm whole.1
      · -- a carriage return right before the line feed would be the last of the line
        rintro tail rfl next
        cases line with
        | nil => exact ending rfl
        | cons d line =>
            cases next
            exact whole.2 List.mem_cons_self

end PascalCasl.Text
