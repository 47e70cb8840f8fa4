import Chip8.Json.Text
import Chip8.Proofs.Json.Reader

/-!
# Written strings read back

Whatever its bytes, a string between quotes is read back up to the closing quote: `content` undoes
`escape` one byte at a time.

    content_escape_append : content (escape b ++ text) = before [b] (content text)
    read_escape           : read ((utf8 s).flatMap escape ++ quote :: rest) = .ok (s, rest)
    read_torn             : (utf8 s).flatMap escape ++ [quote] = front ++ back → back ≠ [] →
        read front = .error .truncated
-/

namespace Chip8.Json.Text

variable {text : List UInt8} {b : UInt8}

/-! ## One step of reading -/

theorem content_quote (text : List UInt8) : content (quote :: text) = .ok ([], text) := by
  rw [content.eq_def]
  rfl

theorem content_plain (hquote : b ≠ quote) (hslash : b ≠ backslash) (hcontrol : ¬b < 0x20) :
    content (b :: text) = before [b] (content text) := by
  rw [content.eq_def]
  simp only [hquote, hslash, hcontrol, if_false]

theorem content_letter {letter : UInt8} (hmark : letter ≠ codeMark)
    (hletter : unescape? letter = some b) :
    content (backslash :: letter :: text) = before [b] (content text) := by
  rw [content.eq_def]
  simp only [hmark, hletter, if_true, if_false]
  rw [if_neg (by decide)]

theorem content_code {b₁ b₂ b₃ b₄ : UInt8} {code : Nat} (hcode : code? b₁ b₂ b₃ b₄ = some code)
    (htrailing : isTrailing code = false) (hleading : isLeading code = false) :
    content (backslash :: codeMark :: b₁ :: b₂ :: b₃ :: b₄ :: text) =
      before (codeBytes code) (content text) := by
  rw [content.eq_def]
  simp only [hcode, htrailing, hleading, if_true]
  rw [if_neg (by decide), if_neg (by decide), if_neg (by decide)]

/-! ## Escapes -/

theorem letters_all : ∀ p ∈ letters, p.2 ≠ codeMark ∧ unescape? p.2 = some p.1 := by
  intro p hp
  simp only [letters, List.mem_cons, List.not_mem_nil, or_false] at hp
  rcases hp with rfl | rfl | rfl | rfl | rfl <;> exact ⟨by decide, rfl⟩

theorem codes_all : ∀ n, n < 32 →
    code? 0x30 0x30 (hexDigit (n / 16)) (hexDigit (n % 16)) = some n ∧
      isTrailing n = false ∧ isLeading n = false ∧ codeBytes n = [UInt8.ofNat n] := by
  decide

/-- A byte that was written as an escape, or as itself, is read as itself. -/
theorem content_escape_append (b : UInt8) (text : List UInt8) :
    content (escape b ++ text) = before [b] (content text) := by
  rw [escape]
  split
  · next h =>
    apply content_letter
    · rcases h with rfl | rfl <;> decide
    · rcases h with rfl | rfl <;> rfl
  · next h =>
    rw [not_or] at h
    split
    · next hcontrol =>
      split
      · next letter hlookup =>
        have hmem : (b, letter) ∈ letters := by
          obtain ⟨front, back, hletters, -⟩ := List.lookup_eq_some_iff.mp hlookup
          simp [hletters]
        obtain ⟨hmark, hletter⟩ := letters_all _ hmem
        exact content_letter hmark hletter
      · have hb : b.toNat < 32 := by simpa [UInt8.lt_iff_toNat_lt] using hcontrol
        obtain ⟨hcode, htrailing, hleading, hbytes⟩ := codes_all b.toNat hb
        rw [UInt8.ofNat_toNat] at hbytes
        rw [← hbytes]
        exact content_code hcode htrailing hleading
    · next hcontrol => exact content_plain h.1 h.2 hcontrol

theorem content_escape (bytes rest : List UInt8) :
    content (bytes.flatMap escape ++ quote :: rest) = .ok (bytes, rest) := by
  induction bytes with
  | nil => exact content_quote rest
  | cons b bytes ih =>
    rw [List.flatMap_cons, List.append_assoc, content_escape_append, ih]
    rfl

/-! ## Escapes cut short -/

theorem content_nil : content [] = .error .truncated := by rw [content.eq_def]

theorem content_slash : content [backslash] = .error .truncated := by
  rw [content.eq_def]
  rfl

theorem content_code_torn {digits : List UInt8} (h : digits.length < 4) :
    content (backslash :: codeMark :: digits) = .error .truncated := by
  rw [content.eq_def]
  match digits, h with
  | [], _ | [_], _ | [_, _], _ | [_, _, _], _ => rfl

theorem escape_cases (b : UInt8) :
    escape b = [b] ∨ (∃ letter, escape b = [backslash, letter]) ∨
      ∃ high low, escape b = [backslash, codeMark, 0x30, 0x30, high, low] := by
  unfold escape
  split
  · exact .inr (.inl ⟨_, rfl⟩)
  · split
    · split
      · exact .inr (.inl ⟨_, rfl⟩)
      · exact .inr (.inr ⟨_, _, rfl⟩)
    · exact .inl rfl

/-- A part of an escape is none. -/
theorem content_escape_torn {front back : List UInt8} (h : escape b = front ++ back)
    (torn : back ≠ []) : content front = .error .truncated := by
  rcases escape_cases b with plain | ⟨letter, short⟩ | ⟨high, low, long⟩
  · rw [plain] at h
    rw [torn_singleton h torn]
    exact content_nil
  · rw [short] at h
    obtain ⟨rfl, -⟩ | ⟨front, rfl, hletter⟩ := List.cons_eq_append_iff.1 h
    · exact content_nil
    · rw [torn_singleton hletter torn]
      exact content_slash
  · rw [long] at h
    obtain ⟨rfl, -⟩ | ⟨front, rfl, hmark⟩ := List.cons_eq_append_iff.1 h
    · exact content_nil
    · obtain ⟨rfl, -⟩ | ⟨digits, rfl, hdigits⟩ := List.cons_eq_append_iff.1 hmark
      · exact content_slash
      · have hlength := congrArg List.length hdigits
        have := List.length_pos_iff.2 torn
        simp only [List.length_append, List.length_cons, List.length_nil] at hlength
        exact content_code_torn (by omega)

/-- Without its closing quote, or more, a string is cut short. -/
theorem content_torn (bytes : List UInt8) {front back : List UInt8}
    (h : bytes.flatMap escape ++ [quote] = front ++ back) (torn : back ≠ []) :
    content front = .error .truncated := by
  induction bytes generalizing front with
  | nil =>
    rw [torn_singleton h torn]
    exact content_nil
  | cons b bytes ih =>
    rw [List.flatMap_cons, List.append_assoc] at h
    rcases torn_append h with ⟨lost, some_lost, hescape⟩ | ⟨more, rfl, hmore⟩
    · exact content_escape_torn hescape some_lost
    · rw [content_escape_append, ih hmore]
      rfl

/-! ## Strings -/

theorem fromUTF8?_utf8 (s : String) : String.fromUTF8? ⟨(utf8 s).toArray⟩ = some s := by
  have hbytes : (⟨(utf8 s).toArray⟩ : ByteArray) = s.toByteArray := by
    rw [utf8, Array.toArray_toList]
    rfl
  rw [hbytes, String.fromUTF8?, dif_pos s.isValidUTF8]
  rfl

theorem read_escape (s : String) (rest : List UInt8) :
    read ((utf8 s).flatMap escape ++ quote :: rest) = .ok (s, rest) := by
  simp only [read, content_escape, fromUTF8?_utf8]

theorem read_torn (s : String) {front back : List UInt8}
    (h : (utf8 s).flatMap escape ++ [quote] = front ++ back) (torn : back ≠ []) :
    read front = .error .truncated := by
  simp only [read, content_torn (utf8 s) h torn]

end Chip8.Json.Text
