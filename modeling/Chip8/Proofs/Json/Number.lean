import Chip8.Numeral
import Chip8.Json.Number
import Chip8.Proofs.Json.Reader

/-!
# Written numbers read back

The digits of a number are digits only, do not start with zero unless they are a single one, and
denote the number; so each reader of natural numbers takes them as a whole, given that what follows
is no digit, point or exponent.

    read_decimal        : n < UInt64.size → Stops rest →
        Number.read false (decimal n ++ rest) = .ok (.natural n, rest)
    wideNatural_decimal : n < UInt64.size * UInt64.size → Stops rest →
        wideNatural (decimal n ++ rest) = .ok (n, rest)

A number that lost some of its digits is a smaller one (`exists_decimal_torn`).
-/

namespace Chip8

/-! ## Decimal digits -/

namespace Numeral

open Json

theorem digit_all : ∀ n, n < 10 →
    decimal n = [UInt8.ofNat (0x30 + n)] ∧ isDigit (UInt8.ofNat (0x30 + n)) = true ∧
      digitValue (UInt8.ofNat (0x30 + n)) = n ∧ (UInt8.ofNat (0x30 + n) = 0x30 → n = 0) := by
  decide

/-- The last digit is the remainder by ten. -/
theorem decimal_step {n : Nat} (h : 10 ≤ n) : decimal n = decimal (n / 10) ++ decimal (n % 10) := by
  have hlast : Nat.toDigits 10 (n % 10) = [Nat.digitChar (n % 10)] :=
    Nat.toDigits_of_lt_base (Nat.mod_lt n (by decide))
  rw [decimal, decimal, decimal, hlast, Nat.toDigits_of_base_le (by decide) h, List.map_append]

theorem decimal_ne_nil (n : Nat) : decimal n ≠ [] := by
  simp [decimal, Nat.toDigits_ne_nil]

theorem isDigit_of_mem_decimal {n : Nat} : ∀ b ∈ decimal n, isDigit b = true := by
  induction n using Nat.strongRecOn with
  | ind n ih =>
    intro b hb
    by_cases h : n < 10
    · obtain ⟨hdecimal, hdigit, -, -⟩ := digit_all n h
      rw [hdecimal, List.mem_singleton] at hb
      rw [hb]
      exact hdigit
    · rw [decimal_step (by omega), List.mem_append] at hb
      rcases hb with hb | hb
      · exact ih (n / 10) (by omega) b hb
      · exact ih (n % 10) (by omega) b hb

theorem exists_decimal_eq_cons (n : Nat) :
    ∃ b digits, decimal n = b :: digits ∧ isDigit b = true := by
  obtain ⟨b, digits, h⟩ := List.exists_cons_of_ne_nil (decimal_ne_nil n)
  have hb : b ∈ decimal n := by simp [h]
  exact ⟨b, digits, h, isDigit_of_mem_decimal b hb⟩

/-- The first digit is the first byte that counts. -/
theorem peek_decimal (n : Nat) (rest : List UInt8) :
    ∃ b digits, decimal n = b :: digits ∧ isDigit b = true ∧
      Reader.peek (decimal n ++ rest) = .ok (b, decimal n ++ rest) := by
  obtain ⟨b, digits, h, hb⟩ := exists_decimal_eq_cons n
  refine ⟨b, digits, h, hb, ?_⟩
  rw [h]
  exact Reader.peek_cons (not_isBlank_of_not_isStop (not_isStop_of_isDigit hb)) _

/-- Digits that start with zero are those of zero. -/
theorem decimal_head_zero {n : Nat} (h : (decimal n).head? = some 0x30) : n = 0 := by
  induction n using Nat.strongRecOn with
  | ind n ih =>
    by_cases hn : n < 10
    · obtain ⟨hdecimal, -, -, hzero⟩ := digit_all n hn
      rw [hdecimal, List.head?_cons, Option.some.injEq] at h
      exact hzero h
    · obtain ⟨b, digits, hfront, -⟩ := exists_decimal_eq_cons (n / 10)
      rw [decimal_step (by omega), hfront, List.cons_append, List.head?_cons] at h
      have := ih (n / 10) (by omega) (by rw [hfront, List.head?_cons, h])
      omega

theorem valueOf_append (n : Nat) (front back : List UInt8) :
    valueOf n (front ++ back) = valueOf (valueOf n front) back := by
  simp [valueOf]

theorem valueOf_decimal (n : Nat) : valueOf 0 (decimal n) = n := by
  induction n using Nat.strongRecOn with
  | ind n ih =>
    by_cases h : n < 10
    · obtain ⟨hdecimal, -, hvalue, -⟩ := digit_all n h
      rw [hdecimal]
      simp only [valueOf, List.foldl_cons, List.foldl_nil, hvalue]
      omega
    · obtain ⟨hdecimal, -, hvalue, -⟩ := digit_all (n % 10) (by omega)
      rw [decimal_step (by omega), valueOf_append, ih (n / 10) (by omega), hdecimal]
      simp only [valueOf, List.foldl_cons, List.foldl_nil, hvalue]
      omega

/-- No leading zeros: the first of several digits is none. -/
theorem decimal_no_zero {n : Nat} {b : UInt8} {digits : List UInt8}
    (h : decimal n = b :: digits) : ¬(b = 0x30 ∧ 1 < (decimal n).length) := by
  rintro ⟨rfl, hlen⟩
  have hn : n = 0 := decimal_head_zero (by rw [h]; rfl)
  subst hn
  exact absurd hlen (by decide)

/-- Digits in front of others are those of a smaller number. -/
theorem exists_decimal_torn {n : Nat} {front back : List UInt8} (h : decimal n = front ++ back)
    (some_front : front ≠ []) : ∃ m, m ≤ n ∧ front = decimal m := by
  induction n using Nat.strongRecOn generalizing back with
  | ind n ih =>
    by_cases none : back = []
    · subst none
      exact ⟨n, Nat.le_refl n, by simpa using h.symm⟩
    by_cases single : n < 10
    · obtain ⟨hdecimal, -⟩ := digit_all n single
      exact absurd (torn_singleton (hdecimal.symm.trans h) none) some_front
    · obtain ⟨hlast, -⟩ := digit_all (n % 10) (by omega)
      rw [decimal_step (by omega)] at h
      rcases torn_append h with ⟨lost, -, h⟩ | ⟨more, hfront, h⟩
      · obtain ⟨m, hm, hfront⟩ := ih (n / 10) (by omega) h
        exact ⟨m, by omega, hfront⟩
      · rw [torn_singleton (hlast.symm.trans h) none, List.append_nil] at hfront
        exact ⟨n / 10, by omega, hfront⟩

end Numeral

namespace Json

open Numeral

variable {rest : List UInt8}

/-! ## Digits in front of other text -/

/-- No digit comes next. -/
def NoDigit (rest : List UInt8) : Prop := ∀ b ∈ rest.head?, isDigit b = false

theorem noDigit_cons {b : UInt8} {rest : List UInt8} (hb : isDigit b = false) :
    NoDigit (b :: rest) := by
  intro c hc
  cases hc
  exact hb

theorem Stops.noDigit {rest : List UInt8} (h : Stops rest) : NoDigit rest :=
  fun b hb => not_isDigit_of_isStop (h b hb)

section
variable {digits rest : List UInt8} (hdigits : ∀ b ∈ digits, isDigit b = true)
  (hrest : NoDigit rest)
include hdigits hrest

theorem takeWhile_digits : (digits ++ rest).takeWhile isDigit = digits := by
  rw [List.takeWhile_append_of_pos hdigits]
  cases rest with
  | nil => simp
  | cons b rest => simp [hrest b rfl]

theorem dropWhile_digits : (digits ++ rest).dropWhile isDigit = rest := by
  rw [List.dropWhile_append_of_pos hdigits]
  cases rest with
  | nil => rfl
  | cons b rest => simp [hrest b rfl]

end

theorem takeWhile_decimal (n : Nat) (hrest : Stops rest) :
    (decimal n ++ rest).takeWhile isDigit = decimal n :=
  takeWhile_digits isDigit_of_mem_decimal hrest.noDigit

theorem dropWhile_decimal (n : Nat) (hrest : Stops rest) :
    (decimal n ++ rest).dropWhile isDigit = rest :=
  dropWhile_digits isDigit_of_mem_decimal hrest.noDigit

theorem le_valueOf (digits : List UInt8) : ∀ n, n ≤ valueOf n digits := by
  induction digits with
  | nil => exact fun n => Nat.le_refl n
  | cons b digits ih =>
    intro n
    have h := ih (10 * n + digitValue b)
    simp only [valueOf, List.foldl_cons] at h ⊢
    omega

namespace Number

/-- Digits of a number of 64 bits are all taken up. -/
theorem accumulate_of_lt (digits : List UInt8) :
    ∀ n, valueOf n digits < UInt64.size → accumulate n digits = (valueOf n digits, []) := by
  induction digits with
  | nil => exact fun n _ => rfl
  | cons b digits ih =>
    intro n h
    have hvalue : valueOf n (b :: digits) = valueOf (10 * n + digitValue b) digits := rfl
    have hle := le_valueOf digits (10 * n + digitValue b)
    rw [hvalue] at h ⊢
    rw [accumulate, if_neg (by omega), ih _ h]

theorem read_decimal {n : Nat} (hn : n < UInt64.size) (hrest : Stops rest) :
    read false (decimal n ++ rest) = .ok (.natural n, rest) := by
  obtain ⟨b, digits, hdecimal, hb⟩ := exists_decimal_eq_cons n
  have htake := takeWhile_decimal n hrest
  have hdrop := dropWhile_decimal n hrest
  have hvalue : accumulate 0 (decimal n) = (n, []) := by
    rw [accumulate_of_lt _ _ (by rw [valueOf_decimal]; exact hn), valueOf_decimal]
  have hhead : decimal n ++ rest = b :: (digits ++ rest) := by rw [hdecimal, List.cons_append]
  rw [hhead] at htake hdrop ⊢
  have hempty : (decimal n).isEmpty = false := by simp [decimal_ne_nil]
  simp only [read, htake, hdrop, hempty, hvalue]
  rw [if_neg (by decide), if_neg (decimal_no_zero hdecimal)]
  cases rest with
  | nil => rfl
  | cons c rest =>
    have hpoint : c ≠ point := hrest.head_ne (by decide)
    have hlower : c ≠ 0x65 := hrest.head_ne (by decide)
    have hupper : c ≠ 0x45 := hrest.head_ne (by decide)
    simp [isExponentMark, hpoint, hlower, hupper]
    rfl

end Number

theorem wideNatural_decimal {n : Nat} (hn : n < UInt64.size * UInt64.size) (hrest : Stops rest) :
    wideNatural (decimal n ++ rest) = .ok (n, rest) := by
  obtain ⟨b, digits, hdecimal, -, hpeek⟩ := peek_decimal n rest
  have htake := takeWhile_decimal n hrest
  have hdrop := dropWhile_decimal n hrest
  have hempty : (decimal n).isEmpty = false := by simp [decimal_ne_nil]
  unfold wideNatural
  rw [Reader.bind_of_ok hpeek, Reader.bind_of_ok (Reader.get_apply _)]
  simp only [htake, hdrop, hempty, valueOf_decimal]
  rw [if_neg (by simp [decimal_no_zero hdecimal]), if_neg (by omega)]
  rfl

end Json

end Chip8
