import PascalCasl.Text.Blank
import PascalCasl.Text.Decimal

/-!
Numerals. A written number is a run of digits, which holds no blank and no
sign, so it is read back from between any separators.
-/

namespace PascalCasl.Text

/-- A run of characters of one class ends where the next character is of no such
class. -/
theorem run_split {class? : Char → Bool} {run tail : List Char}
    (inside : ∀ c ∈ run, class? c = true) (ends : ∀ c ∈ tail.head?, class? c = false) :
    (run ++ tail).takeWhile class? = run ∧ (run ++ tail).dropWhile class? = tail := by
  rw [List.takeWhile_append_of_pos inside, List.dropWhile_append_of_pos inside]
  cases tail with
  | nil => simp
  | cons c tail => simp [ends c rfl]

theorem repr_eq (number : Nat) : number.repr.toList = Nat.toDigits 10 number := by
  rw [Nat.repr_eq_ofList_toDigits, String.toList_ofList]

theorem repr_ne_nil (number : Nat) : number.repr.toList ≠ [] := by
  rw [repr_eq]
  exact Nat.toDigits_ne_nil

theorem digit_code {c : Char} (digit : c.isDigit) : 48 ≤ c.toNat ∧ c.toNat ≤ 57 := by
  simp only [Char.isDigit, Bool.and_eq_true, decide_eq_true_eq, UInt32.le_iff_toNat_le] at digit
  exact digit

theorem digit_of_repr {number : Nat} {c : Char} (among : c ∈ number.repr.toList) : c.isDigit := by
  rw [repr_eq] at among
  exact Nat.isDigit_of_mem_toDigits (b := 10) (by decide) (by decide) among

theorem digit_not_blank {c : Char} (digit : c.isDigit) : isBlank c = false := by
  have code := digit_code digit
  simp [isBlank, blankRanges]
  omega

theorem digits_value_repr (number : Nat) : digitsValue? number.repr.toList = some number := by
  have digits : isDigits number.repr.toList := by
    rw [isDigits, Bool.and_eq_true, List.all_eq_true]
    refine ⟨?_, fun c among => digit_of_repr among⟩
    rw [List.isEmpty_eq_false_iff.2 (repr_ne_nil number), Bool.not_false]
  rw [digitsValue?, if_pos digits, repr_eq, Nat.ofDigitChars_ten_toDigits]

theorem trim_solid {text : List Char} (solid : ∀ c ∈ text, isBlank c = false) : trim text = text := by
  have kept (other : List Char) (same : ∀ c ∈ other, isBlank c = false) :
      other.dropWhile isBlank = other := by
    cases other with
    | nil => rfl
    | cons c rest => rw [List.dropWhile_cons, same c List.mem_cons_self]; rfl
  rw [trim, kept text solid, kept _ fun c among => solid c (List.mem_reverse.1 among),
    List.reverse_reverse]

theorem unsigned_repr {number : Nat} (word : number < wordCount) :
    unsigned? (trim number.repr.toList) = some number := by
  rw [trim_solid fun c among => digit_not_blank (digit_of_repr among)]
  have unsigned : unsigned? number.repr.toList =
      (digitsValue? number.repr.toList).filter (· < wordCount) := by
    cases spelled : number.repr.toList with
    | nil => rfl
    | cons first rest =>
        have digit : first.isDigit := digit_of_repr (spelled ▸ List.mem_cons_self)
        have no_sign : first ≠ '+' := by
          rintro rfl
          exact absurd digit (by decide)
        simp [unsigned?, no_sign]
  rw [unsigned, digits_value_repr]
  simp [word]

theorem unsigned_lt {text : List Char} {number : Nat} (read : unsigned? text = some number) :
    number < wordCount := by
  simpa using (Option.filter_eq_some_iff.1 read).2

end PascalCasl.Text
