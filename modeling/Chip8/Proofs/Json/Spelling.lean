import Chip8.Proofs.Json.Grammar
import Chip8.Proofs.Json.Text

/-!
# Spellings

The same string may be spelled in many ways, its characters as they are or as escapes (`Spells`).
What is spelled is read, and what is read was spelled, up to the closing quote:

    Spells body bytes → content (body ++ quote :: rest) = .ok (bytes, rest)     (content_spells)
    content text = .ok (bytes, rest) →
      ∃ body, text = body ++ quote :: rest ∧ Spells body bytes                (spells_of_content)
-/

namespace Chip8.Json

/-! ## What is spelled -/

/-- What stands between quotes, and the bytes that it stands for. -/
inductive Spells : List UInt8 → List UInt8 → Prop
  | nil : Spells [] []
  | plain {b : UInt8} {body bytes : List UInt8} (hquote : b ≠ quote) (hslash : b ≠ backslash)
      (hcontrol : ¬b < 0x20) (later : Spells body bytes) : Spells (b :: body) (b :: bytes)
  | letter {letter b : UInt8} {body bytes : List UInt8} (hletter : (letter, b) ∈ escapes)
      (later : Spells body bytes) : Spells (backslash :: letter :: body) (b :: bytes)
  | code {c : Char} {digits body bytes : List UInt8} (hcode : HexCode digits c.toNat)
      (later : Spells body bytes) :
      Spells (backslash :: Text.codeMark :: (digits ++ body)) (String.utf8EncodeChar c ++ bytes)
  /-- Two surrogates for a character that does not fit four digits. -/
  | pair {c : Char} {leading trailing : Nat} {digits digits' body bytes : List UInt8}
      (hcode : HexCode digits (0xD800 + leading)) (hcode' : HexCode digits' (0xDC00 + trailing))
      (hleading : leading < 0x400) (htrailing : trailing < 0x400)
      (hc : c.toNat = 0x10000 + 0x400 * leading + trailing) (later : Spells body bytes) :
      Spells (backslash :: Text.codeMark :: (digits ++ backslash :: Text.codeMark ::
        (digits' ++ body))) (String.utf8EncodeChar c ++ bytes)

/-- Bytes that need no escape stand for themselves. -/
theorem Spells.plain_all {body : List UInt8}
    (h : ∀ b ∈ body, b ≠ quote ∧ b ≠ backslash ∧ ¬b < 0x20) : Spells body body := by
  induction body with
  | nil => exact .nil
  | cons b body ih =>
    rw [List.forall_mem_cons] at h
    exact .plain h.1.1 h.1.2.1 h.1.2.2 (ih h.2)

theorem Spells.quoted {body bytes : List UInt8} (h : Spells body bytes) : Quoted body := by
  induction h with
  | nil => exact .nil
  | plain hquote hslash hcontrol _ ih => exact .plain hquote hslash hcontrol ih
  | letter hletter _ ih => exact .letter hletter ih
  | code hcode _ ih => exact .code hcode ih
  | pair hcode hcode' _ _ _ _ ih => exact .code hcode (.code hcode' ih)

namespace Text

theorem before_eq_ok_iff {bytes all rest : List UInt8}
    {later : Except Problem (List UInt8 × List UInt8)} :
    before bytes later = .ok (all, rest) ↔
      ∃ tail, later = .ok (tail, rest) ∧ all = bytes ++ tail := by
  cases later with
  | error problem => simp [before]
  | ok r =>
    obtain ⟨tail, rest'⟩ := r
    simp only [before, Except.ok.injEq, Prod.mk.injEq]
    constructor
    · rintro ⟨rfl, rfl⟩
      exact ⟨tail, ⟨rfl, rfl⟩, rfl⟩
    · rintro ⟨_, ⟨rfl, rfl⟩, rfl⟩
      exact ⟨rfl, rfl⟩

theorem lt_of_hex {b : UInt8} {n : Nat} (h : Hex b n) : n < 16 := by
  rcases h with h | h <;> exact (List.getElem?_eq_some_iff.1 h).1

theorem lt_of_hexCode {digits : List UInt8} {code : Nat} (h : HexCode digits code) :
    code < 0x10000 := by
  obtain ⟨b₁, b₂, b₃, b₄, n₁, n₂, n₃, n₄, -, h₁, h₂, h₃, h₄, rfl⟩ := h
  have := lt_of_hex h₁
  have := lt_of_hex h₂
  have := lt_of_hex h₃
  have := lt_of_hex h₄
  omega

theorem codeBytes_toNat (c : Char) : codeBytes c.toNat = String.utf8EncodeChar c := by
  rw [codeBytes, Char.ofNat_toNat]

theorem not_surrogate (c : Char) : isTrailing c.toNat = false ∧ isLeading c.toNat = false := by
  have valid : c.toNat < 0xD800 ∨ 0xDFFF < c.toNat ∧ c.toNat < 0x110000 := c.valid
  simp only [isTrailing, isLeading, Bool.and_eq_false_iff, decide_eq_false_iff_not]
  omega

theorem exists_char {n : Nat} (h : n.isValidChar) :
    ∃ c : Char, c.toNat = n ∧ codeBytes n = String.utf8EncodeChar c := by
  refine ⟨Char.ofNat n, ?_, rfl⟩
  rw [Char.ofNat, dif_pos h]
  rfl

theorem exists_char_single {code : Nat} (small : code < 0x10000) (htrailing : ¬isTrailing code)
    (hleading : ¬isLeading code) :
    ∃ c : Char, c.toNat = code ∧ codeBytes code = String.utf8EncodeChar c := by
  simp only [isTrailing, isLeading, Bool.and_eq_true, decide_eq_true_eq] at htrailing hleading
  refine exists_char ?_
  unfold Nat.isValidChar
  omega

theorem exists_char_pair {code second : Nat} (hleading : isLeading code)
    (htrailing : isTrailing second) : ∃ (c : Char) (leading trailing : Nat),
      leading < 0x400 ∧ trailing < 0x400 ∧ code = 0xD800 + leading ∧ second = 0xDC00 + trailing ∧
      c.toNat = 0x10000 + 0x400 * leading + trailing ∧
      codeBytes (paired code second) = String.utf8EncodeChar c := by
  simp only [isTrailing, isLeading, Bool.and_eq_true, decide_eq_true_eq] at htrailing hleading
  have value : paired code second = 0x10000 + 0x400 * (code - 0xD800) + (second - 0xDC00) := by
    unfold paired
    omega
  have valid : (paired code second).isValidChar := by
    unfold Nat.isValidChar
    omega
  obtain ⟨c, hc, hbytes⟩ := exists_char valid
  exact ⟨c, code - 0xD800, second - 0xDC00, by omega, by omega, by omega, by omega,
    hc.trans value, hbytes⟩

theorem content_pair {b₁ b₂ b₃ b₄ c₁ c₂ c₃ c₄ : UInt8} {text : List UInt8} {code second : Nat}
    (hcode : code? b₁ b₂ b₃ b₄ = some code) (hleading : isLeading code = true)
    (hsecond : code? c₁ c₂ c₃ c₄ = some second) (htrailing : isTrailing second = true) :
    content (backslash :: codeMark :: b₁ :: b₂ :: b₃ :: b₄ :: backslash :: codeMark ::
        c₁ :: c₂ :: c₃ :: c₄ :: text) =
      before (codeBytes (paired code second)) (content text) := by
  have single : isTrailing code = false := by
    simp only [isLeading, isTrailing, Bool.and_eq_true, decide_eq_true_eq, Bool.and_eq_false_iff,
      decide_eq_false_iff_not] at hleading ⊢
    omega
  rw [content.eq_def]
  simp only [hcode, single, hleading, hsecond, htrailing, if_true, Bool.false_eq_true, if_false]
  rw [if_neg (by decide)]

theorem content_spells {body bytes : List UInt8} (h : Spells body bytes) (rest : List UInt8) :
    content (body ++ quote :: rest) = .ok (bytes, rest) := by
  induction h with
  | nil => exact content_quote rest
  | plain hquote hslash hcontrol _ ih =>
    rw [List.cons_append, content_plain hquote hslash hcontrol, ih]
    rfl
  | letter hletter _ ih =>
    rw [List.cons_append, List.cons_append, content_letter (escapes_ne_codeMark hletter)
      (unescape?_eq_some_iff.2 hletter), ih]
    rfl
  | @code c digits body bytes hcode _ ih =>
    obtain ⟨b₁, b₂, b₃, b₄, n₁, n₂, n₃, n₄, rfl, -⟩ := id hcode
    obtain ⟨htrailing, hleading⟩ := not_surrogate c
    show content (backslash :: codeMark :: b₁ :: b₂ :: b₃ :: b₄ :: (body ++ quote :: rest)) = _
    rw [content_code (code?_eq_some_iff.2 hcode) htrailing hleading, ih, codeBytes_toNat]
    rfl
  | @pair c leading trailing digits digits' body bytes hcode hcode' hleading htrailing hc _ ih =>
    obtain ⟨b₁, b₂, b₃, b₄, n₁, n₂, n₃, n₄, rfl, -⟩ := id hcode
    obtain ⟨c₁, c₂, c₃, c₄, m₁, m₂, m₃, m₄, rfl, -⟩ := id hcode'
    have first : isLeading (0xD800 + leading) = true := by
      simp only [isLeading, Bool.and_eq_true, decide_eq_true_eq]
      omega
    have second : isTrailing (0xDC00 + trailing) = true := by
      simp only [isTrailing, Bool.and_eq_true, decide_eq_true_eq]
      omega
    have whole : paired (0xD800 + leading) (0xDC00 + trailing) = c.toNat := by
      unfold paired
      omega
    show content (backslash :: codeMark :: b₁ :: b₂ :: b₃ :: b₄ :: backslash :: codeMark ::
      c₁ :: c₂ :: c₃ :: c₄ :: (body ++ quote :: rest)) = _
    rw [content_pair (code?_eq_some_iff.2 hcode) first (code?_eq_some_iff.2 hcode') second, ih,
      whole, codeBytes_toNat]
    rfl

/-- What is read was spelled, up to the closing quote. -/
theorem spells_of_content {text bytes rest : List UInt8} (h : content text = .ok (bytes, rest)) :
    ∃ body, text = body ++ quote :: rest ∧ Spells body bytes := by
  fun_induction content text generalizing bytes with
  | case2 text =>
    cases h
    exact ⟨[], rfl, .nil⟩
  | case9 b₁ b₂ b₃ b₄ code hcode _ hleading c₁ c₂ c₃ c₄ text second hsecond htrailing _ ih =>
    obtain ⟨tail, htail, hbytes⟩ := before_eq_ok_iff.1 h
    obtain ⟨body, rfl, hbody⟩ := ih htail
    obtain ⟨c, n, m, hn, hm, hfirst, hlast, hc, hencode⟩ := exists_char_pair hleading htrailing
    rw [hfirst, code?_eq_some_iff] at hcode
    rw [hlast, code?_eq_some_iff] at hsecond
    rw [hbytes, hencode]
    exact ⟨_, rfl, .pair hcode hsecond hn hm hc hbody⟩
  | case14 b₁ b₂ b₃ b₄ text code hcode htrailing hleading _ ih =>
    obtain ⟨tail, htail, hbytes⟩ := before_eq_ok_iff.1 h
    obtain ⟨body, rfl, hbody⟩ := ih htail
    have hcode := code?_eq_some_iff.1 hcode
    obtain ⟨c, rfl, hencode⟩ := exists_char_single (lt_of_hexCode hcode) htrailing hleading
    rw [hbytes, hencode]
    exact ⟨_, rfl, .code hcode hbody⟩
  | case16 letter text _ b hletter _ ih =>
    obtain ⟨tail, htail, rfl⟩ := before_eq_ok_iff.1 h
    obtain ⟨body, rfl, hbody⟩ := ih htail
    exact ⟨backslash :: letter :: body, rfl, .letter (unescape?_eq_some_iff.1 hletter) hbody⟩
  | case19 b text hquote hslash hcontrol ih =>
    obtain ⟨tail, htail, rfl⟩ := before_eq_ok_iff.1 h
    obtain ⟨body, rfl, hbody⟩ := ih htail
    exact ⟨b :: body, rfl, .plain hquote hslash hcontrol hbody⟩
  | _ => cases h

theorem utf8_of_fromUTF8? {bytes : List UInt8} {s : String}
    (h : String.fromUTF8? ⟨bytes.toArray⟩ = some s) : utf8 s = bytes := by
  unfold String.fromUTF8? at h
  split at h
  · cases h
    rfl
  · cases h

end Text

end Chip8.Json
