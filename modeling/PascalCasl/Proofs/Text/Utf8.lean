import Mathlib.Tactic.Common
import PascalCasl.Text.Utf8

/-!
Characters and their bytes. A character below 128 is one byte of the same
value, any other character has bytes from 128 on only; so a byte below 128
always stands for a whole character, and reading the bytes of characters gives
the characters back.
-/

namespace PascalCasl.Text

/-- The bytes of characters, one character after the other. -/
def charBytes (chars : List Char) : List UInt8 :=
  chars.flatMap String.utf8EncodeChar

def byteOf (c : Char) : UInt8 := UInt8.ofNat c.toNat

@[simp] theorem char_bytes_nil : charBytes [] = [] := rfl

@[simp] theorem char_bytes_append (left right : List Char) :
    charBytes (left ++ right) = charBytes left ++ charBytes right :=
  List.flatMap_append

theorem char_bytes_cons (c : Char) (chars : List Char) :
    charBytes (c :: chars) = String.utf8EncodeChar c ++ charBytes chars :=
  List.flatMap_cons

theorem encode_eq (text : String) : encode text = charBytes text.toList := by
  have whole : text.toUTF8 = text.toList.utf8Encode := by
    rw [← String.toByteArray_ofList, String.ofList_toList]
    rfl
  rw [encode, whole, List.utf8Encode.eq_1, List.toList_data_toByteArray]
  rfl

theorem narrow_bytes (c : Char) (narrow : c.toNat < 128) :
    String.utf8EncodeChar c = [byteOf c] := by
  have low : c.val.toNat ≤ 127 := Nat.le_of_lt_succ narrow
  simp only [String.utf8EncodeChar, low, if_true]
  rfl

theorem wide_bytes (c : Char) (wide : 128 ≤ c.toNat) :
    ∃ lead tail, String.utf8EncodeChar c = lead :: tail ∧
      ∀ byte ∈ lead :: tail, 128 ≤ byte.toNat := by
  have high : ¬ c.val.toNat ≤ 127 := Nat.not_le.2 wide
  simp only [String.utf8EncodeChar, high, if_false]
  split
  · exact ⟨_, _, rfl, by simp; omega⟩
  · split
    · exact ⟨_, _, rfl, by simp; omega⟩
    · exact ⟨_, _, rfl, by simp; omega⟩

theorem char_bytes_narrow (c : Char) (chars : List Char) (narrow : c.toNat < 128) :
    charBytes (c :: chars) = byteOf c :: charBytes chars := by
  rw [char_bytes_cons, narrow_bytes c narrow, List.singleton_append]

theorem encoded_ne_nil (c : Char) : String.utf8EncodeChar c ≠ [] := by
  intro empty
  have size := String.length_utf8EncodeChar c
  rw [empty] at size
  exact absurd size.symm (Nat.ne_of_gt (Char.utf8Size_pos c))

theorem char_bytes_ne_nil {chars : List Char} (some_char : chars ≠ []) : charBytes chars ≠ [] := by
  obtain ⟨c, rest, rfl⟩ := List.exists_cons_of_ne_nil some_char
  rw [char_bytes_cons]
  exact List.append_ne_nil_of_left_ne_nil (encoded_ne_nil c) _

theorem decode_first_eq (c : Char) (rest : List UInt8) :
    decodeFirst? (String.utf8EncodeChar c ++ rest) = some c := by
  have short : (String.utf8EncodeChar c).length ≤ 4 := by
    rw [String.length_utf8EncodeChar]
    exact Char.utf8Size_le_four c
  unfold decodeFirst?
  rw [List.take_append, List.take_of_length_le short]
  simpa using ByteArray.utf8DecodeChar?_utf8EncodeChar_append

theorem decode_char_bytes (chars : List Char) : decodeChars (charBytes chars) = chars := by
  induction chars with
  | nil => simp [decodeChars]
  | cons c chars ih =>
      have size : (String.utf8EncodeChar c).length = c.utf8Size := String.length_utf8EncodeChar c
      have first := decode_first_eq c (charBytes chars)
      rw [char_bytes_cons]
      cases bytes : String.utf8EncodeChar c with
      | nil => exact absurd bytes (encoded_ne_nil c)
      | cons lead tail =>
          rw [bytes, List.length_cons] at size
          rw [bytes, List.cons_append] at first
          rw [List.cons_append, decodeChars, first]
          simp [← size, ih]

theorem decode_eq (chars : List Char) : decode (charBytes chars) = String.ofList chars := by
  rw [decode, decode_char_bytes]

theorem byte_of_code {c : Char} (narrow : c.toNat < 128) : (byteOf c).toNat = c.toNat :=
  UInt8.toNat_ofNat_of_lt' (Nat.lt_trans narrow (by decide))

theorem char_of_byte {c : Char} (narrow : c.toNat < 128) : Char.ofNat (byteOf c).toNat = c := by
  rw [byte_of_code narrow, Char.ofNat_toNat]

theorem narrow_chars {chars : List Char} (narrow : ∀ byte ∈ charBytes chars, byte.toNat < 128) :
    (charBytes chars).map (fun byte => Char.ofNat byte.toNat) = chars := by
  induction chars with
  | nil => rfl
  | cons c chars ih =>
      rw [char_bytes_cons, List.forall_mem_append] at narrow
      have small : c.toNat < 128 := by
        by_contra wide
        obtain ⟨lead, tail, bytes, high⟩ := wide_bytes c (Nat.le_of_not_lt wide)
        rw [bytes] at narrow
        exact absurd (narrow.1 lead List.mem_cons_self) (Nat.not_lt.2 (high lead List.mem_cons_self))
      rw [char_bytes_narrow c chars small, List.map_cons, char_of_byte small, ih narrow.2]

theorem ascii_chars {text : String} (narrow : ∀ byte ∈ encode text, byte.toNat < 128) :
    text.toList = (encode text).map fun byte => Char.ofNat byte.toNat := by
  rw [encode_eq] at narrow ⊢
  exact (narrow_chars narrow).symm

theorem byte_of_inj {c d : Char} (narrow : c.toNat < 128) (other : d.toNat < 128) :
    byteOf c = byteOf d ↔ c = d := by
  refine ⟨fun same => ?_, fun same => congrArg byteOf same⟩
  rw [← char_of_byte narrow, same, char_of_byte other]

/-- A narrow character's byte stands in no other character. -/
theorem byte_not_mem {c d : Char} (narrow : d.toNat < 128) (different : c ≠ d) :
    byteOf d ∉ String.utf8EncodeChar c := by
  by_cases also : c.toNat < 128
  · rw [narrow_bytes c also, List.mem_singleton, byte_of_inj narrow also]
    exact different.symm
  · intro among
    obtain ⟨_, _, bytes, high⟩ := wide_bytes c (Nat.le_of_not_lt also)
    rw [bytes] at among
    have low := high _ among
    rw [byte_of_code narrow] at low
    exact absurd narrow (Nat.not_lt.2 low)

/-! A class of bytes below 128 is a class of characters. -/

structure ByteClass (ofByte : UInt8 → Bool) (ofChar : Char → Bool) : Prop where
  narrow : ∀ c : Char, c.toNat < 128 → ofByte (byteOf c) = ofChar c
  wide_byte : ∀ byte : UInt8, 128 ≤ byte.toNat → ofByte byte = false
  wide_char : ∀ c : Char, 128 ≤ c.toNat → ofChar c = false

namespace ByteClass

variable {ofByte : UInt8 → Bool} {ofChar : Char → Bool}

theorem or {otherByte : UInt8 → Bool} {otherChar : Char → Bool}
    (same : ByteClass ofByte ofChar) (other : ByteClass otherByte otherChar) :
    ByteClass (fun byte => ofByte byte || otherByte byte) (fun c => ofChar c || otherChar c) where
  narrow c below := by rw [same.narrow c below, other.narrow c below]
  wide_byte byte high := by rw [same.wide_byte byte high, other.wide_byte byte high, Bool.or_self]
  wide_char c wide := by rw [same.wide_char c wide, other.wide_char c wide, Bool.or_self]

theorem narrow_of_member (same : ByteClass ofByte ofChar) {c : Char} (member : ofChar c = true) :
    c.toNat < 128 := by
  by_contra wide
  rw [same.wide_char c (Nat.le_of_not_lt wide)] at member
  exact Bool.false_ne_true member

theorem lead (same : ByteClass ofByte ofChar) {c : Char} {first : UInt8} {tail : List UInt8}
    (bytes : String.utf8EncodeChar c = first :: tail) : ofByte first = ofChar c := by
  by_cases narrow : c.toNat < 128
  · rw [narrow_bytes c narrow] at bytes
    cases bytes
    exact same.narrow c narrow
  · have wide : 128 ≤ c.toNat := Nat.le_of_not_lt narrow
    obtain ⟨_, _, spelled, high⟩ := wide_bytes c wide
    rw [bytes] at spelled
    cases spelled
    rw [same.wide_byte first (high first List.mem_cons_self), same.wide_char c wide]

theorem take_while (same : ByteClass ofByte ofChar) (chars : List Char) :
    (charBytes chars).takeWhile ofByte = charBytes (chars.takeWhile ofChar) := by
  induction chars with
  | nil => rfl
  | cons c chars ih =>
      cases member : ofChar c with
      | true =>
          have narrow := same.narrow_of_member member
          rw [List.takeWhile_cons, if_pos member, char_bytes_narrow _ _ narrow,
            char_bytes_narrow _ _ narrow, List.takeWhile_cons,
            if_pos ((same.narrow c narrow).trans member), ih]
      | false =>
          rw [List.takeWhile_cons, member]
          cases bytes : String.utf8EncodeChar c with
          | nil => exact absurd bytes (encoded_ne_nil c)
          | cons first tail =>
              rw [char_bytes_cons, bytes, List.cons_append, List.takeWhile_cons,
                same.lead bytes, member]
              rfl

theorem count_eq (same : ByteClass ofByte ofChar) (chars : List Char) :
    (charBytes chars).countP ofByte = chars.countP ofChar := by
  induction chars with
  | nil => rfl
  | cons c chars ih =>
      rw [char_bytes_cons, List.countP_append, ih, List.countP_cons, Nat.add_comm]
      congr 1
      by_cases narrow : c.toNat < 128
      · rw [narrow_bytes c narrow, List.countP_singleton, same.narrow c narrow]
      · have wide : 128 ≤ c.toNat := Nat.le_of_not_lt narrow
        obtain ⟨first, tail, bytes, high⟩ := wide_bytes c wide
        rw [bytes, same.wide_char c wide, if_neg Bool.false_ne_true, List.countP_eq_zero]
        intro byte among
        simp [same.wide_byte byte (high byte among)]

end ByteClass
end PascalCasl.Text
