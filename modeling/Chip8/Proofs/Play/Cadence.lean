import Chip8.Play.Cadence

/-!
# Ticks one by one

A cadence counts its ticks in a loop: while a period has passed, it is taken off the accumulated
time and counted, in 32 bits.  `Cadence.advance` says at once what the loop comes to, and has no
answer exactly where the counter overflows:

    c.advance elapsed = some (n, c') ↔ (c.wait elapsed).Ends n c' ∧ n < 2 ^ 32
                                                                          (advance_eq_some_iff)
    c.advance elapsed = none ↔ the loop goes round 2 ^ 32 times           (advance_eq_none_iff)

Its ticks are the multiples of the period that all the time up to now has passed (`advance_of_due`).
With a period a second is never too long, and without one the loop does not end (`answers_iff`).
The period of a rate is a second cut by the rate, so there is one up to a tick each nanosecond.
-/

namespace Chip8

namespace Cadence

/-! ## The loop -/

/-- More time has passed. -/
def wait (c : Cadence) (elapsed : Nat) : Cadence :=
  { c with accumulated := c.accumulated + elapsed }

/-- Once round the loop, if a tick is due. -/
def tick? (c : Cadence) : Option Cadence :=
  if c.period ≤ c.accumulated then some { c with accumulated := c.accumulated - c.period }
  else none

/-- So many times round the loop. -/
def tickTimes? (c : Cadence) : Nat → Option Cadence
  | 0 => some c
  | n + 1 => c.tick?.bind (·.tickTimes? n)

/-- The loop ends after so many ticks. -/
structure Ends (c : Cadence) (n : Nat) (c' : Cadence) : Prop where
  ticked : c.tickTimes? n = some c'
  rest : c'.tick? = none

/-- The loop ends, and its counter has not overflowed. -/
def Answers (c : Cadence) (elapsed : Nat) : Prop :=
  ∃ n c', (c.wait elapsed).Ends n c' ∧ n < UInt32.size

/-- Times that pass one after another, each with its ticks. -/
def advanceAll (c : Cadence) : List Nat → Option (List Nat × Cadence)
  | [] => some ([], c)
  | elapsed :: later => do
    let (ticks, c) ← c.advance elapsed
    let (more, c) ← c.advanceAll later
    return (ticks :: more, c)

/-- The multiples of a period that are passed when some time goes by after other time. -/
def due (period before elapsed : Nat) : Nat := (before + elapsed) / period - before / period

/-! ## What the loop comes to -/

theorem tickTimes?_eq_some_iff {c c' : Cadence} {n : Nat} :
    c.tickTimes? n = some c' ↔
      n * c.period ≤ c.accumulated ∧ c' = { c with accumulated := c.accumulated - n * c.period } := by
  induction n generalizing c with
  | zero => simp [tickTimes?, eq_comm]
  | succ n ih =>
    rw [tickTimes?, tick?, Nat.succ_mul]
    by_cases due : c.period ≤ c.accumulated
    · rw [if_pos due, Option.bind_some, ih]
      refine and_congr ?_ ?_
      · show n * c.period ≤ c.accumulated - c.period ↔ _
        omega
      · show c' = ⟨c.period, c.accumulated - c.period - n * c.period⟩ ↔ _
        rw [Nat.sub_sub, Nat.add_comm c.period]
    · rw [if_neg due, Option.bind_none]
      constructor
      · intro h
        cases h
      · rintro ⟨h, -⟩
        omega

theorem tick?_eq_none_iff {c : Cadence} : c.tick? = none ↔ c.accumulated < c.period := by
  simp [tick?]

/-- It takes a period for the loop to end, and then it has divided by it. -/
theorem ends_iff {c c' : Cadence} {n : Nat} :
    c.Ends n c' ↔ 0 < c.period ∧ n = c.accumulated / c.period ∧
      c' = { c with accumulated := c.accumulated % c.period } := by
  constructor
  · rintro ⟨hticked, hrest⟩
    obtain ⟨hle, rfl⟩ := tickTimes?_eq_some_iff.1 hticked
    have rest : c.accumulated - n * c.period < c.period := tick?_eq_none_iff.1 hrest
    have period : 0 < c.period := by omega
    have quotient : c.accumulated / c.period = n := by
      apply Nat.div_eq_of_lt_le hle
      rw [Nat.succ_mul]
      omega
    refine ⟨period, quotient.symm, ?_⟩
    rw [Nat.mod_eq_sub_mul_div, quotient, Nat.mul_comm]
  · rintro ⟨period, rfl, rfl⟩
    refine ⟨tickTimes?_eq_some_iff.2 ⟨Nat.div_mul_le_self _ _, ?_⟩, ?_⟩
    · rw [Nat.mod_eq_sub_mul_div, Nat.mul_comm]
    · exact tick?_eq_none_iff.2 (Nat.mod_lt _ period)

/-- An advance is the loop run to its end. -/
theorem advance_eq_some_iff {c c' : Cadence} {elapsed n : Nat} :
    c.advance elapsed = some (n, c') ↔ (c.wait elapsed).Ends n c' ∧ n < UInt32.size := by
  rw [ends_iff, advance]
  show (if _ then _ else some ((c.accumulated + elapsed) / c.period, _)) = _ ↔
    (0 < c.period ∧ n = (c.accumulated + elapsed) / c.period ∧ _) ∧ _
  split
  · next stuck =>
    constructor
    · intro h
      cases h
    · rintro ⟨⟨period, rfl, -⟩, fits⟩
      omega
  · next steady =>
    constructor
    · intro h
      cases h
      exact ⟨⟨by omega, rfl, rfl⟩, by omega⟩
    · rintro ⟨⟨-, rfl, rfl⟩, -⟩
      rfl

/-- Where there is no answer, the loop goes round until its counter overflows. -/
theorem advance_eq_none_iff {c : Cadence} {elapsed : Nat} :
    c.advance elapsed = none ↔ ∃ c', (c.wait elapsed).tickTimes? UInt32.size = some c' := by
  simp only [tickTimes?_eq_some_iff, exists_eq_right]
  show _ ↔ UInt32.size * c.period ≤ c.accumulated + elapsed
  by_cases period : c.period = 0
  · simp [advance, period]
  · rw [← Nat.le_div_iff_mul_le (Nat.pos_of_ne_zero period)]
    simp [advance, period]

theorem answers_iff_advance {c : Cadence} {elapsed : Nat} :
    c.Answers elapsed ↔ c.advance elapsed ≠ none := by
  rw [Option.ne_none_iff_exists', Prod.exists]
  simp only [advance_eq_some_iff]
  rfl

theorem period_advance {c c' : Cadence} {elapsed n : Nat}
    (h : c.advance elapsed = some (n, c')) : c'.period = c.period := by
  obtain ⟨ends, -⟩ := advance_eq_some_iff.1 h
  obtain ⟨-, -, rfl⟩ := ends_iff.1 ends
  rfl

theorem advanceAll_cons_eq_some_iff {c c' : Cadence} {elapsed : Nat} {later ticks : List Nat} :
    c.advanceAll (elapsed :: later) = some (ticks, c') ↔
      ∃ n c₁ more, c.advance elapsed = some (n, c₁) ∧ c₁.advanceAll later = some (more, c') ∧
        ticks = n :: more := by
  rw [advanceAll]
  simp only [Option.bind_eq_bind, Option.bind_eq_some_iff, Prod.exists]
  constructor
  · rintro ⟨n, c₁, hadvance, more, c₂, hlater, h⟩
    cases h
    exact ⟨n, c₁, more, hadvance, hlater, rfl⟩
  · rintro ⟨n, c₁, more, hadvance, hlater, rfl⟩
    exact ⟨n, c₁, hadvance, more, c', hlater, rfl⟩

/-! ## All the time that has passed -/

/-- With the remainder of the time before, a cadence ticks at the multiples of its period. -/
theorem advance_of_due {period before elapsed : Nat} (hperiod : 0 < period)
    (small : due period before elapsed < UInt32.size) :
    (⟨period, before % period⟩ : Cadence).advance elapsed =
      some (due period before elapsed, ⟨period, (before + elapsed) % period⟩) := by
  have total : before + elapsed = before % period + elapsed + period * (before / period) := by
    have := Nat.mod_add_div before period
    omega
  have hdue : due period before elapsed = (before % period + elapsed) / period := by
    rw [due, total, Nat.add_mul_div_left _ _ hperiod, Nat.add_sub_cancel]
  rw [hdue] at small ⊢
  have steady : ¬(period = 0 ∨ UInt32.size ≤ (before % period + elapsed) / period) := by
    omega
  rw [total, Nat.add_mul_mod_self_left]
  simp only [advance, if_neg steady]

/-! ## A second at most -/

/-- Where less than a period was left, a period is all it takes for a second to be answered. -/
theorem answers_iff {c : Cadence} (rest : c.accumulated < c.period ∨ c.period = 0) {elapsed : Nat}
    (short : elapsed ≤ second) : c.Answers elapsed ↔ 0 < c.period := by
  constructor
  · rintro ⟨n, c', ends, -⟩
    exact (ends_iff.1 ends).1
  · intro period
    refine ⟨_, _, ends_iff.2 ⟨period, rfl, rfl⟩, ?_⟩
    show (c.accumulated + elapsed) / c.period < UInt32.size
    rw [Nat.div_lt_iff_lt_mul period]
    have many : second * 1 ≤ second * c.period := Nat.mul_le_mul_left second period
    unfold second at short many
    show _ < 4294967296 * c.period
    omega

theorem period_perSecond_pos_iff {rate : UInt32} (hrate : rate.toNat ≠ 0) :
    0 < (perSecond rate).period ↔ rate.toNat ≤ second := by
  rw [perSecond, Nat.div_pos_iff]
  exact ⟨And.right, fun h => ⟨Nat.pos_of_ne_zero hrate, h⟩⟩

end Cadence

end Chip8
