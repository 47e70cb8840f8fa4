import Chip8.Proofs.Json.Codec
import Chip8.Proofs.Json.Spelling

/-!
# Values in all their forms

Of the values of JSON, a codec takes those of one form each (`Codec.Exact`): a number its own
digits, a truth value its own letters, a string every spelling of it.  All others are refused, be
they of another shape or out of range:

    uint32.Exact fun n text => text = decimal n.toNat                              (exact_uint32)
    bool.Exact fun b text => text = ascii (if b then "true" else "false")           (exact_bool)
    text.Exact fun s text =>
      ∃ body, text = quote :: (body ++ [quote]) ∧ Spells body (utf8 s)              (exact_text)
-/

namespace Chip8.Json

open Reader Numeral

/-! ## Digits and their value -/

theorem valueOf_concat (front : List UInt8) (b : UInt8) :
    valueOf 0 (front ++ [b]) = 10 * valueOf 0 front + digitValue b := by
  simp [valueOf]

theorem decimal_digit (b : UInt8) (digit : isDigit b = true) :
    digitValue b < 10 ∧ decimal (digitValue b) = [b] := by
  simp only [isDigit, Bool.and_eq_true, decide_eq_true_eq, UInt8.le_iff_toNat_le] at digit
  have low : 0x30 ≤ b.toNat := digit.1
  have value : digitValue b < 10 := Nat.lt_succ_of_le (Nat.sub_le_sub_right digit.2 0x30)
  have spelled : UInt8.ofNat (0x30 + digitValue b) = b := by
    rw [digitValue, Nat.add_sub_cancel' low, UInt8.ofNat_toNat]
  exact ⟨value, by rw [(digit_all _ value).1, spelled]⟩

/-- Digits without leading zeros are those of their value. -/
theorem decimal_valueOf {whole : List UInt8} (h : IsWhole whole) :
    decimal (valueOf 0 whole) = whole := by
  induction hn : whole.length generalizing whole with
  | zero => exact absurd (List.length_eq_zero_iff.1 hn) h.1.1
  | succ n ih =>
    obtain rfl | ⟨front, b, hwhole⟩ := List.eq_nil_or_concat whole
    · cases hn
    rw [List.concat_eq_append] at hwhole
    subst hwhole
    obtain ⟨⟨-, hdigits⟩, hzero⟩ := h
    obtain ⟨small, last⟩ := decimal_digit b (hdigits b (by simp))
    rw [valueOf_concat]
    cases front with
    | nil => simpa [valueOf] using last
    | cons first later =>
      have nonzero : first ≠ 0x30 := by
        rintro rfl
        have := hzero rfl
        simp at this
      have front : IsWhole (first :: later) :=
        ⟨⟨by simp, fun b hb => hdigits b (List.mem_append_left _ hb)⟩, fun zero =>
          absurd (Option.some.inj zero) nonzero⟩
      have hfront := ih front (by simpa using hn)
      have pos : valueOf 0 (first :: later) ≠ 0 := by
        intro none
        rw [none] at hfront
        exact nonzero (List.cons.inj hfront).1.symm
      rw [decimal_step (by omega)]
      have quotient : (10 * valueOf 0 (first :: later) + digitValue b) / 10 =
          valueOf 0 (first :: later) := by omega
      have remainder : (10 * valueOf 0 (first :: later) + digitValue b) % 10 = digitValue b := by
        omega
      rw [quotient, remainder, hfront, last]

/-! ## Numbers that are digits alone -/

namespace Number

/-- Numbers with a fraction or an exponent, and large ones, are never natural. -/
def Other (x : Reader Number) : Prop :=
  ∀ text n rest, x text ≠ .ok (natural n, rest)

theorem other_finish (significand : Nat) (power : Int) : Other (finish significand power) := by
  intro text n rest h
  unfold finish at h
  split at h <;> cases h

theorem other_exponent (significand : Nat) (start : Int) : Other (exponent significand start) := by
  intro text n rest h
  unfold exponent at h
  simp only at h
  repeat' split at h
  all_goals first
    | cases h
    | exact other_finish _ _ _ _ _ h

theorem other_fraction (significand : Nat) (start : Int) : Other (fraction significand start) := by
  intro text n rest h
  unfold fraction at h
  simp only at h
  split at h
  · split at h <;> cases h
  · split at h
    · split at h
      · exact other_exponent _ _ _ _ _ h
      · exact other_finish _ _ _ _ _ h
    · exact other_finish _ _ _ _ _ h

theorem accumulate_eq {digits : List UInt8} {n m : Nat}
    (h : accumulate n digits = (m, [])) : m = valueOf n digits := by
  induction digits generalizing n with
  | nil =>
    cases h
    rfl
  | cons b digits ih =>
    rw [accumulate] at h
    split at h
    · cases h
    · exact ih h

/-- The end of a number that is digits alone. -/
theorem whole_eq_natural {digits text rest : List UInt8} {n : Nat}
    (h : (if (accumulate 0 digits).2.isEmpty then pure (natural (accumulate 0 digits).1)
      else finish (accumulate 0 digits).1 (accumulate 0 digits).2.length : Reader Number) text =
        .ok (natural n, rest)) : text = rest ∧ n = valueOf 0 digits := by
  split at h
  · next empty =>
    cases h
    have all : accumulate 0 digits = ((accumulate 0 digits).1, []) :=
      Prod.ext rfl (List.isEmpty_iff.1 empty)
    exact ⟨rfl, accumulate_eq all⟩
  · exact absurd h (other_finish _ _ _ _ _)

/-- What is read as a natural number are digits, and the number goes on with nothing else. -/
theorem read_eq_natural {text rest : List UInt8} {n : Nat}
    (h : read false text = .ok (natural n, rest)) :
    ∃ whole, IsWhole whole ∧ text = whole ++ rest ∧ n = valueOf 0 whole ∧
      ∀ b ∈ rest.head?, isDigit b = false ∧ b ≠ point ∧ isExponentMark b = false := by
  cases text with
  | nil => cases h
  | cons first later =>
    unfold read at h
    simp only at h
    split at h
    · cases h
    next some_digits =>
    split at h
    · cases h
    next no_zero =>
    have halves := List.takeWhile_append_dropWhile (p := isDigit) (l := first :: later)
    have hwhole : IsWhole ((first :: later).takeWhile isDigit) := by
      refine ⟨⟨by simpa using some_digits, List.all_eq_true.1 List.all_takeWhile⟩, fun zero => ?_⟩
      cases digit : isDigit first with
      | false => simp [digit] at zero
      | true =>
        simp only [List.takeWhile_cons, digit, if_true, List.head?_cons, Option.some.injEq,
          List.length_cons] at zero no_zero ⊢
        have short : ¬1 < (later.takeWhile isDigit).length + 1 := fun long => no_zero ⟨zero, long⟩
        omega
    refine ⟨_, hwhole, ?_⟩
    split at h
    · next b tail hdrop =>
      split at h
      · exact absurd h (other_fraction _ _ _ _ _)
      next hpoint =>
      split at h
      · exact absurd h (other_exponent _ _ _ _ _)
      next hmark =>
      obtain ⟨rfl, hn⟩ := whole_eq_natural h
      refine ⟨halves.symm, hn, fun c hc => ?_⟩
      rw [hdrop] at hc
      cases hc
      have digit := List.head?_dropWhile_not isDigit (first :: later)
      rw [hdrop] at digit
      exact ⟨digit, hpoint, Bool.eq_false_iff.2 hmark⟩
    · next hdrop =>
      obtain ⟨rfl, hn⟩ := whole_eq_natural h
      rw [hdrop] at halves
      exact ⟨halves.symm, hn, by simp⟩

end Number

/-! ## Values of the wrong shape -/

namespace Reader

variable {α β : Type} {x : Reader α} {f : α → Reader β} {text : List UInt8}

/-- The reader takes nothing. -/
def Fails (x : Reader α) : Prop := ∀ text r, x text ≠ .ok r

theorem fails_fail (problem : Problem) : Fails (fail problem : Reader α) := by
  rintro text r ⟨⟩

theorem fails_bind (h : ∀ a, (f a).Fails) : (x >>= f).Fails := by
  intro text r hr
  obtain ⟨a, rest, -, hrest⟩ := bind_eq_ok_iff.1 hr
  exact h a rest r hrest

/-- A value of the wrong shape is refused in any case. -/
theorem fails_mismatch : (mismatch : Reader α).Fails := by
  unfold mismatch
  refine fails_bind fun b => ?_
  simp only
  split
  · exact fails_bind fun _ => fails_fail _
  split
  · exact fails_bind fun _ => fails_fail _
  refine fails_bind fun _ => ?_
  split
  · exact fails_bind fun _ => fails_fail _
  split
  · exact fails_bind fun _ => fails_fail _
  split <;> exact fails_bind fun _ => fails_fail _

end Reader

/-! ## Values of JSON -/

namespace Codec

variable {α : Type}

/-- The codec takes the texts of a form, each for the value that it is the form of, and no other
value of JSON. -/
structure Exact (c : Codec α) (Form : α → List UInt8 → Prop) : Prop where
  read_of_form : ∀ a text blanks rest, Form a text → Blank blanks → Stops rest →
    c.read (blanks ++ (text ++ rest)) = .ok (a, rest)
  form_of_read : ∀ a text blanks rest rest', Derives .value text → Blank blanks → Stops rest →
    c.read (blanks ++ (text ++ rest)) = .ok (a, rest') → Form a text

/-- Where a value has only its written form. -/
theorem Faithful.exact {c : Codec α} (hc : c.Faithful)
    (form_of_read : ∀ a text blanks rest rest', Derives .value text → Blank blanks → Stops rest →
      c.read (blanks ++ (text ++ rest)) = .ok (a, rest') → text = c.write a) :
    c.Exact fun a text => text = c.write a where
  read_of_form a text blanks rest h hblanks hrest := by
    rw [h, ← List.append_assoc]
    exact hc.read_blanks a hblanks hrest
  form_of_read := form_of_read

/-- The look at the first byte of a value. -/
theorem peek_derives {b : UInt8} {later blanks : List UInt8} (h : Derives .value (b :: later))
    (hblanks : Blank blanks) (rest : List UInt8) :
    peek (blanks ++ (b :: later ++ rest)) = .ok (b, b :: later ++ rest) := by
  obtain ⟨_, _, ⟨⟩, hb⟩ := h.starts
  refine peek_of_skipBlanks ?_
  rw [skipBlanks_append hblanks]
  exact skipBlanks_cons (not_isBlank_of_not_isStop hb)

/-- The first byte tells what a value is. -/
theorem derives_cases {b : UInt8} {later : List UInt8} (h : Derives .value (b :: later)) :
    (b :: later ∈ [ascii "null", ascii "true", ascii "false"] ∧ (Skip.literal? b).isSome = true) ∨
      (isDigit b = true ∧ IsUnsigned (b :: later)) ∨ b = minus ∨
      (b = quote ∧ ∃ body, Quoted body ∧ later = body ++ [quote]) ∨ ∃ nest, b = opening nest := by
  generalize htext : b :: later = text at h
  cases h with
  | word h =>
    have letter : ∀ letters ∈ [ascii "null", ascii "true", ascii "false"],
        (letters.head?.bind Skip.literal?).isSome = true := by decide
    exact .inl ⟨h, by simpa [← htext] using letter text h⟩
  | number h =>
    subst htext
    rcases h with unsigned | ⟨_, -, ⟨⟩⟩
    · obtain ⟨whole, fraction, exponent, hwhole, -, -, heq⟩ := id unsigned
      obtain ⟨d, ds, rfl⟩ := List.exists_cons_of_ne_nil hwhole.1.1
      obtain ⟨rfl, -⟩ := List.cons.inj heq
      exact .inr (.inl ⟨hwhole.1.2 b (by simp), unsigned⟩)
    · exact .inr (.inr (.inl rfl))
  | string h =>
    obtain ⟨rfl, rfl⟩ := List.cons.inj htext
    exact .inr (.inr (.inr (.inl ⟨rfl, _, h, rfl⟩)))
  | container nest h =>
    obtain ⟨rfl, -⟩ := List.cons.inj htext
    exact .inr (.inr (.inr (.inr ⟨nest, rfl⟩)))

theorem unsigned_of_digit {b : UInt8} {later : List UInt8} (h : Derives .value (b :: later))
    (digit : isDigit b = true) : IsUnsigned (b :: later) := by
  rcases derives_cases h with ⟨-, letter⟩ | ⟨-, unsigned⟩ | rfl | ⟨rfl, -⟩ | ⟨nest, rfl⟩
  · rw [Skip.literal?_of_isDigit digit] at letter
    cases letter
  · exact unsigned
  · exact absurd digit (by decide)
  · exact absurd digit (by decide)
  · exact absurd digit (by cases nest <;> decide)

theorem word_of_literal {b : UInt8} {later : List UInt8} (h : Derives .value (b :: later))
    (letter : (Skip.literal? b).isSome = true) :
    b :: later ∈ [ascii "null", ascii "true", ascii "false"] := by
  rcases derives_cases h with ⟨word, -⟩ | ⟨digit, -⟩ | rfl | ⟨rfl, -⟩ | ⟨nest, rfl⟩
  · exact word
  · rw [Skip.literal?_of_isDigit digit] at letter
    cases letter
  · cases letter
  · cases letter
  · cases nest <;> cases letter

theorem quoted_of_quote {later : List UInt8} (h : Derives .value (quote :: later)) :
    ∃ body, Quoted body ∧ later = body ++ [quote] := by
  rcases derives_cases h with ⟨-, letter⟩ | ⟨digit, -⟩ | minus | ⟨-, body⟩ | ⟨nest, brace⟩
  · cases letter
  · cases digit
  · cases minus
  · exact body
  · cases nest <;> cases brace

/-- The digits of a value, where nothing else of a number comes after them, are all of it. -/
theorem eq_of_digits {text whole rest rest' : List UInt8} (h : IsUnsigned text)
    (hrest : Stops rest) (hwhole : IsWhole whole) (htext : text ++ rest = whole ++ rest')
    (hrest' : ∀ b ∈ rest'.head?, isDigit b = false ∧ b ≠ point ∧ isExponentMark b = false) :
    text = whole := by
  obtain ⟨front, fraction, exponent, hfront, hfraction, hexponent, rfl⟩ := h
  have tail := hfraction.noDigit (hexponent.noDigit hrest)
  simp only [List.append_assoc] at htext
  have same : front = whole := by
    rw [← takeWhile_digits hfront.1.2 tail, htext,
      takeWhile_digits hwhole.1.2 fun b hb => (hrest' b hb).1]
  rw [same, List.append_cancel_left_eq] at htext
  subst htext
  obtain rfl : fraction = [] := by
    rcases hfraction with rfl | ⟨digits, -, rfl⟩
    · rfl
    · exact absurd rfl (hrest' point rfl).2.1
  obtain rfl : exponent = [] := by
    rcases hexponent with rfl | ⟨mark, sign, digits, hmark, -, -, rfl⟩
    · rfl
    · rw [(hrest' mark rfl).2.2] at hmark
      cases hmark
  rw [List.append_nil, List.append_nil, same]

theorem natural_eq_ok {bound n : Nat} {text blanks rest rest' : List UInt8}
    (h : Derives .value text) (hblanks : Blank blanks) (hrest : Stops rest)
    (hread : Reader.natural bound (blanks ++ (text ++ rest)) = .ok (n, rest')) :
    n < bound ∧ text = decimal n := by
  obtain ⟨b, later, rfl, -⟩ := h.starts
  rw [Reader.natural, bind_of_ok (peek_derives h hblanks rest)] at hread
  split at hread
  · next digit =>
    obtain ⟨number, rest'', hnumber, hread⟩ := bind_eq_ok_iff.1 hread
    cases number with
    | other => cases hread
    | natural m =>
      obtain ⟨whole, hwhole, htext, rfl, hends⟩ := Number.read_eq_natural hnumber
      rw [eq_of_digits (unsigned_of_digit h digit) hrest hwhole htext hends]
      simp only at hread
      split at hread <;> cases hread
      exact ⟨‹_›, (decimal_valueOf hwhole).symm⟩
  · exact absurd hread (fails_mismatch _ _)

/-- Numbers of a type with a bound. -/
theorem exact_number {bound : Nat} {toNat : α → Nat} {ofNat : Nat → α}
    (faithful : Faithful ⟨fun a => decimal (toNat a), ofNat <$> Reader.natural bound⟩)
    (hinv : ∀ n, n < bound → toNat (ofNat n) = n) :
    Exact ⟨fun a => decimal (toNat a), ofNat <$> Reader.natural bound⟩
      fun a text => text = decimal (toNat a) := by
  refine faithful.exact fun a text blanks rest rest' h hblanks hrest hread => ?_
  obtain ⟨n, hn, rfl⟩ := map_eq_ok_iff.1 hread
  obtain ⟨small, rfl⟩ := natural_eq_ok h hblanks hrest hn
  exact congrArg decimal (hinv n small).symm

theorem exact_uint32 : uint32.Exact fun n text => text = decimal n.toNat :=
  exact_number faithful_uint32 fun _ => UInt32.toNat_ofNat_of_lt'

theorem exact_uint64 : uint64.Exact fun n text => text = decimal n.toNat :=
  exact_number faithful_uint64 fun _ => UInt64.toNat_ofNat_of_lt'

theorem exact_bool : bool.Exact fun b text => text = ascii (if b then "true" else "false") := by
  refine faithful_bool.exact fun a text blanks rest rest' h hblanks hrest hread => ?_
  obtain ⟨b, later, rfl, -⟩ := h.starts
  have hread : Reader.bool _ = _ := hread
  rw [Reader.bool, bind_of_ok (peek_derives h hblanks rest)] at hread
  have word := word_of_literal h
  generalize Skip.literal? b = letters? at hread word
  cases letters? with
  | none => exact absurd hread (fails_mismatch _ _)
  | some letters =>
    obtain ⟨_, _, -, hread⟩ := bind_eq_ok_iff.1 hread
    obtain ⟨_, _, -, hread⟩ := bind_eq_ok_iff.1 hread
    have first : ∀ letters ∈ [ascii "null", ascii "true", ascii "false"],
        (letters.head? = some 0x74 → letters = ascii "true") ∧
          (letters.head? = some 0x66 → letters = ascii "false") := by decide
    obtain ⟨yes, no⟩ := first _ (word rfl)
    split at hread
    · next letter =>
      cases hread
      exact yes (congrArg some letter)
    split at hread
    · next letter =>
      cases hread
      exact no (congrArg some letter)
    · cases hread

/-- A string is read up to its own closing quote. -/
theorem text_eq_ok {s : String} {body rest rest' : List UInt8} (hbody : Quoted body)
    (h : Text.read (body ++ quote :: rest) = .ok (s, rest')) : Spells body (Text.utf8 s) := by
  unfold Text.read at h
  split at h
  · cases h
  next bytes tail hcontent =>
  split at h
  · next s' hutf8 =>
    cases h
    obtain ⟨body', hsame, hspells⟩ := Text.spells_of_content hcontent
    have ends := skip_quoted hbody rest
    rw [hsame, skip_quoted hspells.quoted] at ends
    cases ends
    rw [List.append_cancel_right_eq] at hsame
    rw [hsame, Text.utf8_of_fromUTF8? hutf8]
    exact hspells
  · cases h

theorem exact_text : Codec.text.Exact fun s text =>
    ∃ body, text = quote :: (body ++ [quote]) ∧ Spells body (Text.utf8 s) where
  read_of_form s text blanks rest h hblanks hrest := by
    obtain ⟨body, rfl, hbody⟩ := h
    have value : Derives .value (quote :: (body ++ [quote])) := .string hbody.quoted
    have start := peek_derives value hblanks rest
    show Reader.text _ = _
    rw [Reader.text, bind_of_ok start, if_pos rfl, List.cons_append, bind_of_ok (drop_cons _ _),
      List.append_assoc]
    simp only [Text.read, List.cons_append, List.nil_append, Text.content_spells hbody,
      Text.fromUTF8?_utf8]
  form_of_read s text blanks rest rest' h hblanks hrest hread := by
    obtain ⟨b, later, rfl, -⟩ := h.starts
    have hread : Reader.text _ = _ := hread
    rw [Reader.text, bind_of_ok (peek_derives h hblanks rest)] at hread
    split at hread
    · next hquote =>
      subst hquote
      obtain ⟨body, hbody, rfl⟩ := quoted_of_quote h
      rw [List.cons_append, bind_of_ok (drop_cons _ _), List.append_assoc] at hread
      exact ⟨body, rfl, text_eq_ok hbody hread⟩
    · exact absurd hread (fails_mismatch _ _)

end Codec

end Chip8.Json
