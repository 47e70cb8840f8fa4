import Chip8.Json.Reader

/-!
# How readers go through a text

A reader in a chain gets the text that the one before it left:

    x text = .ok (a, rest) → (x >>= f) text = f a rest                          (bind_of_ok)

Blanks in front are passed over, and what follows a value has to stop it (`Stops`): a number goes on
as long as there are digits.

A reader `RunsOut` of a text that ends inside what it reads.  It may take what there is, as it does
with a number that lost digits, but then nothing is left to whatever reads on:

    x.RunsOut text → (∀ a, f a [] = .error .truncated) →
      (x >>= f) text = .error .truncated                                      (RunsOut.bind)
-/

namespace Chip8.Json

/-! ## Chains of readers -/

namespace Reader

variable {α β : Type} {x : Reader α} {f : α → Reader β} {text rest : List UInt8} {a : α}

theorem bind_of_ok (h : x text = .ok (a, rest)) : (x >>= f) text = f a rest := by
  show StateT.bind x f text = f a rest
  simp only [StateT.bind, h]
  rfl

theorem map_of_ok (make : α → β) (h : x text = .ok (a, rest)) :
    (make <$> x) text = .ok (make a, rest) := by
  show StateT.map make x text = .ok (make a, rest)
  simp only [StateT.map, h]
  rfl

theorem bind_of_error {problem : Problem} (h : x text = .error problem) :
    (x >>= f) text = .error problem := by
  show StateT.bind x f text = .error problem
  simp only [StateT.bind, h]
  rfl

theorem map_of_error {problem : Problem} (make : α → β) (h : x text = .error problem) :
    (make <$> x) text = .error problem := by
  show StateT.map make x text = .error problem
  simp only [StateT.map, h]
  rfl

theorem bind_eq_ok_iff {r : β × List UInt8} :
    (x >>= f) text = .ok r ↔ ∃ a rest, x text = .ok (a, rest) ∧ f a rest = .ok r := by
  show StateT.bind x f text = .ok r ↔ _
  unfold StateT.bind
  cases x text with
  | error problem => simp [bind, Except.bind]
  | ok r' =>
    constructor
    · exact fun h => ⟨r'.1, r'.2, rfl, h⟩
    · rintro ⟨_, _, ⟨⟩, h⟩
      exact h

theorem map_eq_ok_iff {make : α → β} {b : β} {rest : List UInt8} :
    (make <$> x) text = .ok (b, rest) ↔ ∃ a, x text = .ok (a, rest) ∧ b = make a := by
  show StateT.map make x text = .ok (b, rest) ↔ _
  unfold StateT.map
  cases x text with
  | error problem => simp [bind, Except.bind]
  | ok r =>
    constructor
    · rintro ⟨⟩
      exact ⟨r.1, rfl, rfl⟩
    · rintro ⟨a, ⟨⟩, rfl⟩
      rfl

theorem map_congr {other : List UInt8} (make : α → β) (h : x text = x other) :
    (make <$> x) text = (make <$> x) other := by
  show StateT.map make x text = StateT.map make x other
  simp only [StateT.map, h]

/-! ## Blanks -/

theorem skipBlanks_cons {b : UInt8} (hb : isBlank b = false) :
    skipBlanks (b :: text) = b :: text := by
  simp [skipBlanks, hb]

theorem skipBlanks_blank {b : UInt8} (hb : isBlank b = true) :
    skipBlanks (b :: text) = skipBlanks text := by
  simp [skipBlanks, hb]

/-- Blanks in front are no part of what is read. -/
theorem skipBlanks_append {blanks : List UInt8} (hblanks : ∀ b ∈ blanks, isBlank b = true) :
    skipBlanks (blanks ++ text) = skipBlanks text := by
  induction blanks with
  | nil => rfl
  | cons b blanks ih =>
    rw [List.cons_append, skipBlanks_blank (hblanks b (by simp))]
    exact ih fun b hb => hblanks b (by simp [hb])

/-- A text that does not run out in blanks keeps its end. -/
theorem skipBlanks_append_right {b : UInt8} {later : List UInt8}
    (h : skipBlanks text = b :: later) (rest : List UInt8) :
    skipBlanks (text ++ rest) = b :: (later ++ rest) := by
  induction text with
  | nil => exact absurd h (by simp [skipBlanks])
  | cons c text ih =>
    cases hc : isBlank c with
    | true =>
      rw [skipBlanks_blank hc] at h
      rw [List.cons_append, skipBlanks_blank hc]
      exact ih h
    | false =>
      rw [skipBlanks_cons hc] at h
      rw [List.cons_append, skipBlanks_cons hc]
      cases h
      rfl

theorem peek_blanks {blanks : List UInt8} (hblanks : ∀ b ∈ blanks, isBlank b = true) :
    peek blanks = .error .truncated := by
  have hskip : skipBlanks (blanks ++ []) = [] := skipBlanks_append hblanks
  rw [List.append_nil] at hskip
  simp only [peek, hskip]

theorem peek_of_skipBlanks {b : UInt8} {later : List UInt8} (h : skipBlanks text = b :: later) :
    peek text = .ok (b, b :: later) := by
  simp only [peek, h]

theorem expect_of_skipBlanks {b : UInt8} {later : List UInt8} (h : skipBlanks text = b :: later) :
    expect b text = .ok ((), later) := by
  rw [expect, bind_of_ok (peek_of_skipBlanks h), if_pos rfl]
  rfl

theorem peek_cons {b : UInt8} (hb : isBlank b = false) (text : List UInt8) :
    peek (b :: text) = .ok (b, b :: text) :=
  peek_of_skipBlanks (skipBlanks_cons hb)

theorem expect_cons {b : UInt8} (hb : isBlank b = false) (text : List UInt8) :
    expect b (b :: text) = .ok ((), text) :=
  expect_of_skipBlanks (skipBlanks_cons hb)

/-- What has to come next may have blanks in front. -/
theorem expect_blanks {b : UInt8} {blanks : List UInt8} (hblanks : ∀ b ∈ blanks, isBlank b = true)
    (hb : isBlank b = false) (text : List UInt8) :
    expect b (blanks ++ b :: text) = .ok ((), text) :=
  expect_of_skipBlanks (by rw [skipBlanks_append hblanks, skipBlanks_cons hb])

theorem drop_cons (b : UInt8) (text : List UInt8) : drop (b :: text) = .ok ((), text) := rfl

theorem get_apply (text : List UInt8) : (get : Reader (List UInt8)) text = .ok (text, text) := rfl

/-- A reader that starts with a look at the next byte does not see blanks. -/
theorem peek_bind_blank {b : UInt8} (hb : isBlank b = true) (f : UInt8 → Reader β) :
    (peek >>= f) (b :: text) = (peek >>= f) text := by
  have hpeek : peek (b :: text) = peek text := by
    simp only [peek, skipBlanks_blank hb]
  show StateT.bind peek f (b :: text) = StateT.bind peek f text
  simp only [StateT.bind, hpeek]

theorem peek_bind_blanks {blanks : List UInt8} (hblanks : ∀ b ∈ blanks, isBlank b = true)
    (f : UInt8 → Reader β) (text : List UInt8) :
    (peek >>= f) (blanks ++ text) = (peek >>= f) text := by
  induction blanks with
  | nil => rfl
  | cons b blanks ih =>
    rw [List.cons_append, peek_bind_blank (hblanks b (by simp))]
    exact ih fun b hb => hblanks b (by simp [hb])

theorem word_append (letters rest : List UInt8) :
    word letters (letters ++ rest) = .ok ((), rest) := by
  induction letters with
  | nil => rfl
  | cons b letters ih =>
    rw [List.cons_append, word, if_pos rfl]
    exact ih

/-! ## Texts that end too early -/

/-- The text is refused as cut short, or it is used up. -/
def RunsOut (x : Reader α) (text : List UInt8) : Prop :=
  x text = .error .truncated ∨ ∃ a, x text = .ok (a, [])

theorem bind_of_truncated (h : x text = .error .truncated) :
    (x >>= f) text = .error .truncated :=
  bind_of_error h

theorem map_of_truncated (make : α → β) (h : x text = .error .truncated) :
    (make <$> x) text = .error .truncated :=
  map_of_error make h

/-- Nothing is left for the reader after it. -/
theorem RunsOut.bind (h : x.RunsOut text) (hf : ∀ a, f a [] = .error .truncated) :
    (x >>= f) text = .error .truncated := by
  rcases h with short | ⟨a, whole⟩
  · exact bind_of_truncated short
  · rw [bind_of_ok whole]
    exact hf a

theorem RunsOut.after (h : x text = .ok (a, rest)) (hf : (f a).RunsOut rest) :
    (x >>= f).RunsOut text := by
  unfold RunsOut
  rw [bind_of_ok h]
  exact hf

theorem RunsOut.map (make : α → β) (h : x.RunsOut text) : (make <$> x).RunsOut text := by
  rcases h with short | ⟨a, whole⟩
  · exact .inl (map_of_truncated make short)
  · exact .inr ⟨make a, map_of_ok make whole⟩

theorem peek_nil : peek [] = .error .truncated := rfl

theorem expect_nil (b : UInt8) : expect b [] = .error .truncated := rfl

theorem another_nil (close : UInt8) (first : Bool) :
    another close first [] = .error .truncated := rfl

theorem word_torn {letters front back : List UInt8} (h : letters = front ++ back)
    (torn : back ≠ []) : word letters front = .error .truncated := by
  subst h
  induction front with
  | nil =>
    obtain ⟨b, back, rfl⟩ := List.exists_cons_of_ne_nil torn
    rfl
  | cons b front ih =>
    rw [List.cons_append, word, if_pos rfl]
    exact ih

end Reader

/-- A single byte cannot be torn. -/
theorem torn_singleton {b : UInt8} {front back : List UInt8} (h : [b] = front ++ back)
    (torn : back ≠ []) : front = [] := by
  obtain ⟨rfl, -⟩ | ⟨front, rfl, hnil⟩ := List.cons_eq_append_iff.1 h
  · rfl
  · exact absurd (List.append_eq_nil_iff.1 hnil.symm).2 torn

/-- A text of two parts that is torn in two is torn inside the first part, or behind it. -/
theorem torn_append {first later front back : List UInt8} (h : first ++ later = front ++ back) :
    (∃ lost, lost ≠ [] ∧ first = front ++ lost) ∨
      ∃ more, front = first ++ more ∧ later = more ++ back := by
  rcases List.append_eq_append_iff.1 h with ⟨more, rfl, rfl⟩ | ⟨lost, rfl, rfl⟩
  · exact .inr ⟨more, rfl, rfl⟩
  · by_cases none : lost = []
    · subst none
      exact .inr ⟨[], by simp, rfl⟩
    · exact .inl ⟨lost, none, rfl⟩

/-! ## Ends of values -/

/-- A byte that ends a number in front of it. -/
def isStop (b : UInt8) : Bool := isBlank b || b == comma || b == closeArray || b == closeRecord

/-- A text that does not go on with the value in front of it. -/
def Stops (rest : List UInt8) : Prop := ∀ b ∈ rest.head?, isStop b = true

theorem stops_nil : Stops [] := by
  intro b hb
  exact absurd hb (by simp)

theorem stops_cons {b : UInt8} {rest : List UInt8} (hb : isStop b = true) : Stops (b :: rest) := by
  intro c hc
  cases hc
  exact hb

theorem Stops.of_append {front back : List UInt8} (h : Stops (front ++ back)) : Stops front := by
  cases front with
  | nil => exact stops_nil
  | cons b front => exact stops_cons (h b rfl)

theorem isStop_of_isBlank {b : UInt8} (hb : isBlank b = true) : isStop b = true := by
  simp [isStop, hb]

theorem not_isBlank_of_not_isStop {b : UInt8} (hb : isStop b = false) : isBlank b = false := by
  by_cases h : isBlank b = true
  · rw [isStop_of_isBlank h] at hb
    exact absurd hb (by decide)
  · exact Bool.eq_false_iff.mpr h

theorem not_isDigit_of_isStop {b : UInt8} (hb : isStop b = true) : isDigit b = false := by
  simp only [isStop, isBlank, Bool.or_eq_true, beq_iff_eq] at hb
  rcases hb with (((((rfl | rfl) | rfl) | rfl) | rfl) | rfl) | rfl <;> decide

theorem not_isStop_of_isDigit {b : UInt8} (hb : isDigit b = true) : isStop b = false := by
  by_cases h : isStop b = true
  · rw [not_isDigit_of_isStop h] at hb
    exact absurd hb (by decide)
  · exact Bool.eq_false_iff.mpr h

/-- Blanks, and after them the end of a container. -/
theorem stops_blanks {blanks rest : List UInt8} {b : UInt8}
    (hblanks : ∀ b ∈ blanks, isBlank b = true) (hb : isStop b = true) :
    Stops (blanks ++ b :: rest) := by
  cases blanks with
  | nil => exact stops_cons hb
  | cons c blanks => exact stops_cons (isStop_of_isBlank (hblanks c (by simp)))

theorem Stops.head_ne {b c : UInt8} {rest : List UInt8} (h : Stops (b :: rest))
    (hc : isStop c = false) : b ≠ c := by
  intro e
  have hb := h b rfl
  rw [e, hc] at hb
  exact absurd hb (by decide)

end Chip8.Json
