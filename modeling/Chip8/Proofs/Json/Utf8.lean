import Chip8.Json.Record
import Chip8.Proofs.Json.Sequence

/-!
# Written forms are text

What is written is the UTF-8 of some string (`IsText`), for records with a line for each field no
less than for single values.  Bytes below 0x80 are text (`IsText.of_small`), and escapes change no
others (`IsText.write`).

    isText_writeLines : fields.Textual → IsText (fields.writeLines values)
-/

namespace Chip8.Json

open Numeral

/-- The bytes are those of a string. -/
def IsText (bytes : List UInt8) : Prop := ∃ s : String, bytes = Text.utf8 s

/-! ## Characters -/

namespace Text

theorem utf8_append (s t : String) : utf8 (s ++ t) = utf8 s ++ utf8 t := by
  simp [utf8, String.toUTF8, String.toByteArray_append]

theorem utf8_ofList (cs : List Char) :
    utf8 (String.ofList cs) = cs.flatMap String.utf8EncodeChar := by
  simp [utf8, String.toUTF8, String.toByteArray_ofList, List.utf8Encode]

theorem utf8_eq_flatMap (s : String) : utf8 s = s.toList.flatMap String.utf8EncodeChar := by
  rw [← utf8_ofList, String.ofList_toList]

theorem large_ofNat {n : Nat} (h : 0x80 ≤ n) (h' : n < 0x100) : 0x80 ≤ UInt8.ofNat n := by
  rw [UInt8.le_iff_toNat_le, UInt8.toNat_ofNat_of_lt' h']
  exact h

theorem utf8EncodeChar_ofNat {n : Nat} (h : n < 0x80) :
    String.utf8EncodeChar (Char.ofNat n) = [UInt8.ofNat n] := by
  have value : (Char.ofNat n).val.toNat = n := by
    rw [Char.ofNat, dif_pos (.inl (by omega))]
    rfl
  unfold String.utf8EncodeChar
  simp only [value]
  exact if_pos (by omega)

/-- A character is a byte below 0x80, or bytes from there on. -/
theorem utf8EncodeChar_cases (c : Char) :
    (∃ b : UInt8, b < 0x80 ∧ String.utf8EncodeChar c = [b]) ∨
      ∀ b ∈ String.utf8EncodeChar c, 0x80 ≤ b := by
  unfold String.utf8EncodeChar
  simp only
  split
  · next small =>
    refine .inl ⟨_, ?_, rfl⟩
    rw [UInt8.lt_iff_toNat_lt, UInt8.toNat_ofNat_of_lt' (Nat.lt_of_le_of_lt small (by decide))]
    exact Nat.lt_succ_of_le small
  · right
    split
    · simp only [List.forall_mem_cons, List.not_mem_nil, false_implies, implies_true, and_true]
      exact ⟨large_ofNat (by omega) (by omega), large_ofNat (by omega) (by omega)⟩
    · split
      · simp only [List.forall_mem_cons, List.not_mem_nil, false_implies, implies_true, and_true]
        exact ⟨large_ofNat (by omega) (by omega), large_ofNat (by omega) (by omega),
          large_ofNat (by omega) (by omega)⟩
      · simp only [List.forall_mem_cons, List.not_mem_nil, false_implies, implies_true, and_true]
        exact ⟨large_ofNat (by omega) (by omega), large_ofNat (by omega) (by omega),
          large_ofNat (by omega) (by omega), large_ofNat (by omega) (by omega)⟩

theorem escape_of_large {b : UInt8} (h : 0x80 ≤ b) : escape b = [b] := by
  have not_small : ¬b < 0x20 := by
    rw [UInt8.le_iff_toNat_le] at h
    rw [UInt8.lt_iff_toNat_lt, Nat.not_lt]
    exact Nat.le_trans (by decide) h
  rw [escape, if_neg, if_neg not_small]
  rintro (rfl | rfl) <;> exact absurd h (by decide)

theorem flatMap_escape_of_large {bytes : List UInt8} (h : ∀ b ∈ bytes, 0x80 ≤ b) :
    bytes.flatMap escape = bytes := by
  induction bytes with
  | nil => rfl
  | cons b bytes ih =>
    rw [List.forall_mem_cons] at h
    rw [List.flatMap_cons, escape_of_large h.1, ih h.2, List.singleton_append]

/-- Small bytes are escaped by small ones. -/
theorem escape_of_small {b : UInt8} (h : b < 0x80) : (escape b).all (· < 0x80) = true := by
  by_cases control : b < 0x20
  · have all : ∀ n, n < 0x20 → (escape (UInt8.ofNat n)).all (· < 0x80) = true := by decide
    have := all b.toNat (UInt8.lt_iff_toNat_lt.1 control)
    rwa [UInt8.ofNat_toNat] at this
  · rw [escape, if_neg control]
    split
    · simpa using ⟨by decide, h⟩
    · simpa using h

end Text

/-! ## Texts -/

namespace IsText

variable {front back : List UInt8}

theorem isSome (h : IsText front) : (String.fromUTF8? ⟨front.toArray⟩).isSome = true := by
  obtain ⟨s, rfl⟩ := h
  rw [Text.fromUTF8?_utf8]
  rfl

theorem append (hfront : IsText front) (hback : IsText back) : IsText (front ++ back) := by
  obtain ⟨s, rfl⟩ := hfront
  obtain ⟨t, rfl⟩ := hback
  exact ⟨s ++ t, (Text.utf8_append s t).symm⟩

theorem flatten {parts : List (List UInt8)} (h : ∀ part ∈ parts, IsText part) :
    IsText parts.flatten := by
  induction parts with
  | nil => exact ⟨"", rfl⟩
  | cons part parts ih =>
    rw [List.forall_mem_cons] at h
    rw [List.flatten_cons]
    exact h.1.append (ih h.2)

theorem char (c : Char) : IsText (String.utf8EncodeChar c) :=
  ⟨String.ofList [c], by rw [Text.utf8_ofList, List.flatMap_cons]; simp⟩

/-- Bytes below 0x80 stand for characters of their own. -/
theorem of_small {bytes : List UInt8} (h : bytes.all (· < 0x80) = true) : IsText bytes := by
  induction bytes with
  | nil => exact ⟨"", rfl⟩
  | cons b bytes ih =>
    rw [List.all_cons, Bool.and_eq_true, decide_eq_true_eq] at h
    have first := Text.utf8EncodeChar_ofNat (UInt8.lt_iff_toNat_lt.1 h.1)
    rw [UInt8.ofNat_toNat] at first
    have := (char (Char.ofNat b.toNat)).append (ih h.2)
    rwa [first] at this

theorem decimal (n : Nat) : IsText (decimal n) := by
  refine of_small (List.all_eq_true.2 fun b hb => decide_eq_true ?_)
  have digit := isDigit_of_mem_decimal b hb
  simp only [isDigit, Bool.and_eq_true, decide_eq_true_eq] at digit
  exact UInt8.lt_of_le_of_lt digit.2 (by decide)

/-- Escapes keep the characters of a string whole. -/
theorem write (s : String) : IsText (Text.write s) := by
  have body : IsText ((Text.utf8 s).flatMap Text.escape) := by
    rw [Text.utf8_eq_flatMap, List.flatMap_assoc, List.flatMap]
    refine flatten fun part hpart => ?_
    obtain ⟨c, -, rfl⟩ := List.mem_map.1 hpart
    rcases Text.utf8EncodeChar_cases c with ⟨b, hb, hc⟩ | large
    · rw [hc, List.flatMap_singleton]
      exact of_small (Text.escape_of_small hb)
    · rw [Text.flatMap_escape_of_large large]
      exact char c
  have quoted : IsText [quote] := of_small (by decide)
  exact quoted.append (body.append quoted)

end IsText

/-! ## Records -/

theorem isText_chained {parts : List (List UInt8)} (h : ∀ part ∈ parts, IsText part) :
    ∀ first, IsText (chained first parts) := by
  induction parts with
  | nil => exact fun _ => ⟨"", rfl⟩
  | cons part parts ih =>
    rw [List.forall_mem_cons] at h
    have separator : IsText [comma] := .of_small (by decide)
    intro first
    rw [chained]
    cases first with
    | true => exact h.1.append (ih h.2 false)
    | false => exact (separator.append h.1).append (ih h.2 false)

namespace Fields

/-- Every value of the record is written as text. -/
def Textual {αs : List Type} : Fields αs → Prop
  | nil => True
  | cons _ codec _ later => (∀ a, IsText (codec.write a)) ∧ later.Textual

theorem isText_write {αs : List Type} {fields : Fields αs} (h : fields.Textual)
    {between : List UInt8} (hbetween : IsText between) (values : Values αs) :
    ∀ part ∈ fields.write between values, IsText part := by
  induction fields with
  | nil => simp [write]
  | cons name codec fallback later ih =>
    obtain ⟨a, as⟩ := values
    rw [write, List.forall_mem_cons]
    exact ⟨((IsText.write name).append hbetween).append (h.1 a), ih h.2 as⟩

theorem isText_writeLines {αs : List Type} {fields : Fields αs} (h : fields.Textual)
    (values : Values αs) : IsText (fields.writeLines values) := by
  have lines : IsText (separated ((fields.write [colon, 0x20] values).map
      fun field => [0x0A, 0x20, 0x20] ++ field)) := by
    rw [separated_eq_chained]
    refine isText_chained (fun line hline => ?_) true
    obtain ⟨field, hfield, rfl⟩ := List.mem_map.1 hline
    exact (IsText.of_small (by decide)).append
      (isText_write h (.of_small (by decide)) values field hfield)
  have first : IsText [openRecord] := .of_small (by decide)
  exact (first.append lines).append (.of_small (by decide))

end Fields

end Chip8.Json
