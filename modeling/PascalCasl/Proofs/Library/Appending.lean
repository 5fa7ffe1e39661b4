import Mathlib.Data.List.DropRight
import Mathlib.Data.List.TakeDrop
import PascalCasl.Library.Basic
import PascalCasl.Proofs.Text.Lines

/-!
Adding a library to a text keeps the lines of both. A last line that is not
ended gets a line feed; this can only take a carriage return off the line, which
then counts as part of the ending. Carriage returns at the end of a line are
blanks behind its words, so they do not matter to the routine it defines.
-/

namespace PascalCasl

namespace Text

/-- A text without an unfinished line. -/
def Ended (text : List Char) : Prop := text = [] ∨ text.getLast? = some '\n'

theorem Ended.append {first second : List Char} (left : Ended first) (right : Ended second) :
    Ended (first ++ second) := by
  rcases right with rfl | feed
  · rwa [List.append_nil]
  · exact .inr (by simp [List.getLast?_append, feed])

theorem ended_cons {c : Char} {rest : List Char} :
    Ended (c :: rest) ↔ Ended rest ∧ (rest = [] → c = '\n') := by
  cases rest with
  | nil => simp [Ended]
  | cons next rest => simp [Ended, List.getLast?_cons_cons]

theorem lines_ne_nil {text : List Char} (some_char : text ≠ []) : lines text ≠ [] := by
  fun_cases lines text with
  | case1 => contradiction
  | case2 rest => exact List.cons_ne_nil _ _
  | case3 rest => exact List.cons_ne_nil _ _
  | case4 c rest _ _ => cases lines rest <;> exact List.cons_ne_nil _ _

theorem lines_cons_append {c : Char} {rest : List Char} (not_feed : c ≠ '\n')
    (not_return : ∀ tail, c = '\r' → rest ≠ '\n' :: tail) (some_char : rest ≠ [])
    (more : List Char) : lines (c :: (rest ++ more)) = extendFirst c (lines (rest ++ more)) := by
  obtain ⟨next, rest, rfl⟩ := List.exists_cons_of_ne_nil some_char
  rw [lines]
  · exact not_feed
  · rintro tail rfl same
    cases same
    exact not_return rest rfl rfl

theorem extend_first_append (c : Char) {first : List (List Char)} (some_line : first ≠ [])
    (second : List (List Char)) :
    extendFirst c (first ++ second) = extendFirst c first ++ second := by
  obtain ⟨line, others, rfl⟩ := List.exists_cons_of_ne_nil some_line
  rfl

theorem lines_append_ended {text : List Char} (ended : Ended text) (more : List Char) :
    lines (text ++ more) = lines text ++ lines more := by
  fun_induction lines text with
  | case1 => rfl
  | case2 rest ih => rw [List.cons_append, lines, ih (ended_cons.mp ended).1, List.cons_append]
  | case3 rest ih =>
      have behind := ended_cons.mp (ended_cons.mp ended).1
      rw [List.cons_append, List.cons_append, lines, ih behind.1, List.cons_append]
  | case4 c rest not_feed not_return ih =>
      obtain ⟨behind, feed⟩ := ended_cons.mp ended
      have some_char : rest ≠ [] := fun empty => not_feed (feed empty)
      rw [List.cons_append, lines_cons_append not_feed not_return some_char, ih behind,
        extend_first_append c (lines_ne_nil some_char)]

/-- A line without the carriage returns at its end. -/
def bare (line : List Char) : List Char := line.rdropWhile (· = '\r')

theorem bare_cons (c : Char) (rest : List Char) :
    bare (c :: rest) = if bare rest = [] then bare [c] else c :: bare rest := by
  simp only [bare, List.rdropWhile, List.reverse_cons, List.dropWhile_append,
    List.isEmpty_iff, List.reverse_eq_nil_iff]
  split <;> simp

theorem bare_extend_first (c : Char) {first second : List (List Char)}
    (some_line : first ≠ []) (other_line : second ≠ []) (same : first.map bare = second.map bare) :
    (extendFirst c first).map bare = (extendFirst c second).map bare := by
  obtain ⟨line, others, rfl⟩ := List.exists_cons_of_ne_nil some_line
  obtain ⟨other, more, rfl⟩ := List.exists_cons_of_ne_nil other_line
  obtain ⟨head, tail⟩ := List.cons.inj same
  simp only [extendFirst, List.map_cons, bare_cons c line, bare_cons c other, head, tail]

/-- Ending the last line of a text changes its lines by a carriage return at
most. -/
theorem lines_feed {text : List Char} (unended : ¬ Ended text) :
    (lines (text ++ ['\n'])).map bare = (lines text).map bare := by
  fun_induction lines text with
  | case1 => exact absurd (.inl rfl) unended
  | case2 rest ih =>
      have behind : ¬ Ended rest := by simpa [ended_cons] using unended
      rw [List.cons_append, lines, List.map_cons, List.map_cons, ih behind]
  | case3 rest ih =>
      have behind : ¬ Ended rest := by simpa [ended_cons] using unended
      rw [List.cons_append, List.cons_append, lines, List.map_cons, List.map_cons, ih behind]
  | case4 c rest not_feed not_return ih =>
      by_cases last : rest = []
      · -- the only place where a carriage return meets the new line feed
        subst last
        by_cases carriage : c = '\r'
        · subst carriage
          rfl
        · have single : lines ([c] ++ '\n' :: []) = [c] :: lines [] :=
            lines_append (by simpa using Ne.symm not_feed) (by simpa using carriage) []
          rw [single]
          rfl
      · have behind : ¬ Ended rest := by simpa [ended_cons, last] using unended
        rw [List.cons_append, lines_cons_append not_feed not_return last]
        exact bare_extend_first c (lines_ne_nil (by simp)) (lines_ne_nil last) (ih behind)

theorem span_append_stop {inside : Char → Bool} {stop : Char} (stops : inside stop = false)
    (text : List Char) :
    (text ++ [stop]).span inside = ((text.span inside).1, (text.span inside).2 ++ [stop]) := by
  simp only [List.span_eq_takeWhile_dropWhile]
  induction text with
  | nil => simp [stops]
  | cons c text ih =>
      obtain ⟨taken, dropped⟩ := Prod.mk.inj ih
      by_cases member : inside c = true <;> simp [member, taken, dropped]

theorem split_word_blank {blank : Char} (isBlank : Text.isBlank blank = true) (text : List Char) :
    (splitWord (text ++ [blank])).1 = (splitWord text).1 ∧
      ((splitWord (text ++ [blank])).2 = (splitWord text).2 ∨
        (splitWord (text ++ [blank])).2 = (splitWord text).2 ++ [blank]) := by
  simp only [splitWord, List.dropWhile_append]
  cases text.dropWhile Text.isBlank with
  | nil => simp [isBlank]
  | cons c rest =>
      have stops : (fun d => !Text.isBlank d) blank = false := by simp [isBlank]
      rw [if_neg (by simp), span_append_stop stops]
      exact ⟨rfl, .inr rfl⟩

theorem second_word_blank {blank : Char} (isBlank : Text.isBlank blank = true) (text : List Char) :
    (splitWord (splitWord (text ++ [blank])).2).1 = (splitWord (splitWord text).2).1 := by
  rcases (split_word_blank isBlank text).2 with same | more
  · rw [same]
  · rw [more, (split_word_blank isBlank _).1]

end Text

namespace Library

open Text

theorem defines_at_blank {blank : Char} (isBlank : Text.isBlank blank = true) (name : String)
    (line : List Char) : definesAt name (line ++ [blank]) = definesAt name line := by
  cases line with
  | nil => simp [definesAt, isBlank]
  | cons first rest =>
      have word := (split_word_blank isBlank (first :: rest)).1
      have second := second_word_blank isBlank (first :: rest)
      rw [List.cons_append] at word second
      simp only [definesAt, List.cons_append, word, second]

theorem defines_at_bare (name : String) (line : List Char) :
    definesAt name (bare line) = definesAt name line := by
  induction line using List.reverseRecOn with
  | nil => rfl
  | append_singleton line last ih =>
      by_cases carriage : last = '\r'
      · rw [bare, List.rdropWhile_concat_pos _ _ _ (by simpa using carriage), ← bare, ih, carriage,
          defines_at_blank (by decide)]
      · rw [bare, List.rdropWhile_concat_neg _ _ _ (by simpa using carriage)]

theorem defines_bare (text : String) (routine : Routine) :
    defines text routine = ((lines text.toList).map bare).any (definesAt routine.name) := by
  simp only [defines, List.any_map]
  congr 1
  funext line
  exact (defines_at_bare routine.name line).symm

theorem ended_of_ended {text : String} (closed : Ended text.toList) : ended text = text := by
  rcases closed with empty | feed
  · rw [ended, empty]
    rfl
  · rw [ended, feed]
    rfl

theorem ended_of_open {text : String} (unended : ¬ Ended text.toList) :
    ended text = text ++ "\n" := by
  rw [ended]
  cases last : text.toList.getLast? with
  | none => exact absurd (.inl (List.getLast?_eq_none_iff.mp last)) unended
  | some c =>
      have other : c ≠ '\n' := by
        rintro rfl
        exact unended (.inr last)
      simp [other]

theorem ended_closes (text : String) : Ended (ended text).toList := by
  by_cases closed : Ended text.toList
  · rwa [ended_of_ended closed]
  · rw [ended_of_open closed, String.toList_append]
    exact .inr (by simp)

theorem append_closes (first second : String) : Ended (append first second).toList := by
  rw [append, String.toList_append]
  exact (ended_closes first).append (ended_closes second)

theorem lines_ended (text : String) :
    (lines (ended text).toList).map bare = (lines text.toList).map bare := by
  by_cases closed : Ended text.toList
  · rw [ended_of_ended closed]
  · rw [ended_of_open closed, String.toList_append]
    exact lines_feed closed

theorem append_associative (first second third : String) :
    append (append first second) third = append first (append second third) := by
  have left := ended_of_ended (append_closes first second)
  have right := ended_of_ended (append_closes second third)
  calc append (append first second) third
      = append first second ++ ended third := congrArg (· ++ ended third) left
    _ = ended first ++ append second third := String.append_assoc
    _ = append first (append second third) := congrArg (ended first ++ ·) right.symm

theorem lines_of_append (first second : String) :
    (lines (append first second).toList).map bare =
      (lines first.toList ++ lines second.toList).map bare := by
  rw [append, String.toList_append, lines_append_ended (ended_closes first), List.map_append,
    lines_ended, lines_ended, List.map_append]

theorem defines_append (first second : String) (routine : Routine) :
    defines (append first second) routine = (defines first routine || defines second routine) := by
  rw [defines_bare, lines_of_append, List.map_append, List.any_append, ← defines_bare,
    ← defines_bare]

theorem mem_missing {text : String} {routine : Routine} :
    routine ∈ missing text ↔ defines text routine = false := by
  have listed : routine ∈ Routine.all := by cases routine <;> decide
  simp [missing, listed]

/-- Adding texts to each other never joins two lines or loses one. However the
texts are grouped the result is the same, its last line is ended, its lines are
those of the first text and then those of the second, and it lacks the routines
that both of them lack. -/
theorem appending_keeps_lines (first second third : String) :
    append (append first second) third = append first (append second third) ∧
    (append first second ≠ "" → (append first second).toList.getLast? = some '\n') ∧
    (lines (append first second).toList).map bare =
      (lines first.toList ++ lines second.toList).map bare ∧
    ∀ routine, routine ∈ missing (append first second) ↔
      routine ∈ missing first ∧ routine ∈ missing second := by
  refine ⟨append_associative first second third, fun some_text => ?_,
    lines_of_append first second, fun routine => ?_⟩
  · exact (append_closes first second).resolve_left (by simpa using some_text)
  · rw [mem_missing, mem_missing, mem_missing, defines_append, Bool.or_eq_false_iff]

/-- A definition stays one when its carriage return joins a line feed, and a name
at the end of a text does not take the word that begins the next text. -/
theorem unended_lines_kept :
    (append "DIV\u00a0START\r" "RDCH").toList.getLast? = some '\n' ∧
    Routine.divide ∉ missing (append "DIV\u00a0START\r" "RDCH") ∧
    Routine.readChar ∈ missing (append (append "DIV\u00a0START\r" "RDCH") " START") := by
  have nonempty : append "DIV\u00a0START\r" "RDCH" ≠ "" := by decide +kernel
  have divides : Routine.divide ∉ missing "DIV\u00a0START\r" := by decide +kernel
  have names : Routine.readChar ∈ missing "DIV\u00a0START\r" ∧
      Routine.readChar ∈ missing (append "RDCH" " START") := by decide +kernel
  have pair := appending_keeps_lines "DIV\u00a0START\r" "RDCH" " START"
  refine ⟨pair.2.1 nonempty, fun lacks => divides ((pair.2.2.2 _).mp lacks).1, ?_⟩
  rw [pair.1]
  exact ((appending_keeps_lines "DIV\u00a0START\r" (append "RDCH" " START") "").2.2.2 _).mpr names

end Library
end PascalCasl
