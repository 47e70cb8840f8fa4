import Chip8.Json.Codec
import Chip8.Proofs.Json.Number
import Chip8.Proofs.Json.Text

/-!
# Codecs that read back what they write

A codec is `Faithful` when every value is read back from its written form, whatever comes after,
as long as it stops the value, and a part of the written form is never taken for malformed or unfit.
Numbers, truth values and strings are, and so is the same written form for another type:

    faithful_transport : c.Faithful → (∀ b, make (parts b) = b) →
        (c.transport make parts).Faithful

All but numbers are `Closed`: their written form shows where it ends.  It is read back in front of
any text, and a part of it is refused as cut short.
-/

namespace Chip8.Json

open Reader Numeral

namespace Codec

variable {α β : Type}

/-- A written value starts with a byte that stops no other value, may have blanks in front, and is
read back from in front of any text that stops it.  A part of it is used up. -/
structure Faithful (c : Codec α) : Prop where
  starts : ∀ a, ∃ b text, c.write a = b :: text ∧ isStop b = false
  read_blank : ∀ b text, isBlank b = true → c.read (b :: text) = c.read text
  read_write : ∀ a rest, Stops rest → c.read (c.write a ++ rest) = .ok (a, rest)
  runs_out : ∀ a front back, c.write a = front ++ back → back ≠ [] → c.read.RunsOut front

/-- A written value shows where it ends. -/
structure Closed (c : Codec α) : Prop where
  read_append : ∀ a rest, c.read (c.write a ++ rest) = .ok (a, rest)
  torn : ∀ a front back, c.write a = front ++ back → back ≠ [] → c.read front = .error .truncated

theorem Closed.faithful {c : Codec α} (hc : c.Closed)
    (starts : ∀ a, ∃ b text, c.write a = b :: text ∧ isStop b = false)
    (read_blank : ∀ b text, isBlank b = true → c.read (b :: text) = c.read text) : c.Faithful where
  starts := starts
  read_blank := read_blank
  read_write a rest _ := hc.read_append a rest
  runs_out a front back h torn := .inl (hc.torn a front back h torn)

theorem Faithful.skip_blanks {c : Codec α} (hc : c.Faithful) {blanks : List UInt8}
    (hblanks : ∀ b ∈ blanks, isBlank b = true) (text : List UInt8) :
    c.read (blanks ++ text) = c.read text := by
  induction blanks with
  | nil => rfl
  | cons b blanks ih =>
    rw [List.cons_append, hc.read_blank _ _ (hblanks b (by simp))]
    exact ih fun b hb => hblanks b (by simp [hb])

theorem Faithful.read_blanks {c : Codec α} (hc : c.Faithful) {blanks rest : List UInt8} (a : α)
    (hblanks : ∀ b ∈ blanks, isBlank b = true) (hrest : Stops rest) :
    c.read (blanks ++ c.write a ++ rest) = .ok (a, rest) := by
  rw [List.append_assoc, hc.skip_blanks hblanks]
  exact hc.read_write a rest hrest

/-- Of a value with blanks in front, also the blanks alone are read to the end. -/
theorem Faithful.runs_out_blanks {c : Codec α} (hc : c.Faithful) {blanks front back : List UInt8}
    (hblanks : ∀ b ∈ blanks, isBlank b = true) (a : α) (h : blanks ++ c.write a = front ++ back)
    (torn : back ≠ []) : c.read.RunsOut front := by
  rcases torn_append h with ⟨lost, -, rfl⟩ | ⟨more, rfl, hmore⟩
  · have nothing := hc.runs_out a [] (c.write a) rfl (by
      obtain ⟨b, text, ha, -⟩ := hc.starts a
      simp [ha])
    have hskip := hc.skip_blanks (fun b hb => hblanks b (List.mem_append_left lost hb)) []
    rw [List.append_nil] at hskip
    rw [RunsOut, hskip]
    exact nothing
  · rw [RunsOut, hc.skip_blanks hblanks]
    exact hc.runs_out a more back hmore torn

/-! ## Single values -/

theorem starts_decimal (n : Nat) : ∃ b text, decimal n = b :: text ∧ isStop b = false := by
  obtain ⟨b, digits, hdecimal, hb⟩ := exists_decimal_eq_cons n
  exact ⟨b, digits, hdecimal, not_isStop_of_isDigit hb⟩

theorem natural_decimal {n bound : Nat} {rest : List UInt8} (hn : n < bound)
    (hbound : bound ≤ UInt64.size) (hrest : Stops rest) :
    Reader.natural bound (decimal n ++ rest) = .ok (n, rest) := by
  obtain ⟨b, digits, -, hb, hpeek⟩ := peek_decimal n rest
  unfold Reader.natural
  have hread := Number.read_decimal (Nat.lt_of_lt_of_le hn hbound) hrest
  rw [bind_of_ok hpeek, if_pos hb, bind_of_ok hread]
  show (if n < bound then pure n else Reader.fail .unfit : Reader Nat) rest = _
  rw [if_pos hn]
  rfl

/-- Digits that are left of a number are a number. -/
theorem natural_torn {n bound : Nat} (hn : n < bound) (hbound : bound ≤ UInt64.size)
    {front back : List UInt8} (h : decimal n = front ++ back) :
    (Reader.natural bound).RunsOut front := by
  by_cases none : front = []
  · subst none
    exact .inl (bind_of_truncated peek_nil)
  · obtain ⟨m, hm, rfl⟩ := exists_decimal_torn h none
    have hread := natural_decimal (Nat.lt_of_le_of_lt hm hn) hbound stops_nil
    rw [List.append_nil] at hread
    exact .inr ⟨m, hread⟩

/-- Numbers of a type with a bound, written in decimal. -/
theorem faithful_number {bound : Nat} {toNat : α → Nat} {ofNat : Nat → α}
    (hbound : bound ≤ UInt64.size) (hlt : ∀ a, toNat a < bound) (hinv : ∀ a, ofNat (toNat a) = a) :
    Faithful ⟨fun a => decimal (toNat a), ofNat <$> Reader.natural bound⟩ where
  starts a := starts_decimal (toNat a)
  read_blank b text hb := map_congr ofNat (peek_bind_blank hb _)
  read_write a rest hrest := by
    show (ofNat <$> Reader.natural bound) (decimal (toNat a) ++ rest) = _
    rw [map_of_ok ofNat (natural_decimal (hlt a) hbound hrest), hinv]
  runs_out a front back h _ := (natural_torn (hlt a) hbound h).map ofNat

theorem faithful_uint8 : uint8.Faithful :=
  faithful_number (by decide) UInt8.toNat_lt fun _ => UInt8.ofNat_toNat

theorem faithful_uint16 : uint16.Faithful :=
  faithful_number (by decide) UInt16.toNat_lt fun _ => UInt16.ofNat_toNat

theorem faithful_uint32 : uint32.Faithful :=
  faithful_number (by decide) UInt32.toNat_lt fun _ => UInt32.ofNat_toNat

theorem faithful_uint64 : uint64.Faithful :=
  faithful_number (by decide) UInt64.toNat_lt fun _ => UInt64.ofNat_toNat

theorem bool_literal (b : UInt8) (letters : List UInt8) {rest : List UInt8} {a : Bool}
    (hb : isBlank b = false)
    (hletters : Skip.literal? b = some letters)
    (ha : (if b = 0x74 then pure true else if b = 0x66 then pure false else Reader.fail .unfit :
      Reader Bool) = pure a) :
    Reader.bool (b :: letters ++ rest) = .ok (a, rest) := by
  rw [List.cons_append]
  unfold Reader.bool
  rw [bind_of_ok (peek_cons hb _)]
  simp only [hletters]
  rw [bind_of_ok (drop_cons b _), bind_of_ok (word_append letters rest), ha]
  rfl

theorem bool_literal_torn {b : UInt8} {letters front back : List UInt8} (hb : isBlank b = false)
    (hletters : Skip.literal? b = some letters) (h : b :: letters = front ++ back)
    (torn : back ≠ []) : Reader.bool front = .error .truncated := by
  obtain ⟨rfl, -⟩ | ⟨front, rfl, hfront⟩ := List.cons_eq_append_iff.1 h
  · exact bind_of_truncated peek_nil
  · unfold Reader.bool
    rw [bind_of_ok (peek_cons hb _)]
    simp only [hletters]
    rw [bind_of_ok (drop_cons b _)]
    exact bind_of_truncated (word_torn hfront torn)

theorem closed_bool : bool.Closed where
  read_append a rest := by
    cases a with
    | true => exact bool_literal 0x74 (ascii "rue") (by decide) rfl rfl
    | false => exact bool_literal 0x66 (ascii "alse") (by decide) rfl rfl
  torn a front back h torn := by
    cases a with
    | true =>
      have letters : Skip.literal? 0x74 = some (ascii "rue") := rfl
      exact bool_literal_torn (by decide) letters h torn
    | false =>
      have letters : Skip.literal? 0x66 = some (ascii "alse") := rfl
      exact bool_literal_torn (by decide) letters h torn

theorem faithful_bool : bool.Faithful := by
  refine closed_bool.faithful (fun a => ?_) fun b text hb => peek_bind_blank hb _
  cases a with
  | true => exact ⟨0x74, ascii "rue", rfl, by decide⟩
  | false => exact ⟨0x66, ascii "alse", rfl, by decide⟩

theorem closed_text : text.Closed where
  read_append s rest := by
    have htext : Text.write s ++ rest =
        quote :: ((Text.utf8 s).flatMap Text.escape ++ quote :: rest) := by
      simp [Text.write]
    show Reader.text (Text.write s ++ rest) = _
    unfold Reader.text
    rw [htext, bind_of_ok (peek_cons (by decide) _), if_pos rfl]
    exact Text.read_escape s rest
  torn s front back h torn := by
    obtain ⟨rfl, -⟩ | ⟨front, rfl, hfront⟩ := List.cons_eq_append_iff.1 h
    · exact bind_of_truncated peek_nil
    · show Reader.text _ = _
      unfold Reader.text
      rw [bind_of_ok (peek_cons (by decide) _), if_pos rfl]
      exact Text.read_torn s hfront torn

theorem faithful_text : text.Faithful :=
  closed_text.faithful (fun _ => ⟨quote, _, rfl, by decide⟩) fun _ _ hb => peek_bind_blank hb _

/-- A number of which only the low bits count keeps all of its bits, if it has few enough. -/
theorem faithful_wide {width : Nat}
    (hwidth : ∀ n : BitVec width, n.toNat < UInt64.size * UInt64.size) :
    (wide width).Faithful where
  starts n := starts_decimal n.toNat
  read_blank b text hb := map_congr (BitVec.ofNat width) (peek_bind_blank hb _)
  read_write n rest hrest := by
    show (BitVec.ofNat width <$> wideNatural) (decimal n.toNat ++ rest) = _
    rw [map_of_ok _ (wideNatural_decimal (hwidth n) hrest), BitVec.ofNat_toNat, BitVec.setWidth_eq]
  runs_out n front back h _ := by
    by_cases none : front = []
    · subst none
      exact .inl (map_of_truncated _ (bind_of_truncated peek_nil))
    · obtain ⟨m, hm, rfl⟩ := exists_decimal_torn h none
      have hread := wideNatural_decimal (Nat.lt_of_le_of_lt hm (hwidth n)) stops_nil
      rw [List.append_nil] at hread
      exact .inr ⟨_, map_of_ok _ hread⟩

/-- The same written form for another type, where making a value from its parts gives it back. -/
theorem faithful_transport {c : Codec α} {make : α → β} {parts : β → α} (hc : c.Faithful)
    (hmake : ∀ b, make (parts b) = b) : (c.transport make parts).Faithful where
  starts b := hc.starts (parts b)
  read_blank b text hb := map_congr make (hc.read_blank b text hb)
  read_write b rest hrest := by
    show (make <$> c.read) (c.write (parts b) ++ rest) = _
    rw [map_of_ok make (hc.read_write (parts b) rest hrest), hmake]
  runs_out b front back h torn := (hc.runs_out (parts b) front back h torn).map make

theorem closed_transport {c : Codec α} {make : α → β} {parts : β → α} (hc : c.Closed)
    (hmake : ∀ b, make (parts b) = b) : (c.transport make parts).Closed where
  read_append b rest := by
    show (make <$> c.read) (c.write (parts b) ++ rest) = _
    rw [map_of_ok make (hc.read_append (parts b) rest), hmake]
  torn b front back h torn := map_of_truncated make (hc.torn (parts b) front back h torn)

end Codec

end Chip8.Json
