/-!
# Cadences

Ticks at a fixed rate out of time that passes in uneven pieces.  Times are nanoseconds.
-/

namespace Chip8

/-- Nanoseconds of a second. -/
def second : Nat := 1000000000

structure Cadence where
  /-- Time from one tick to the next. -/
  period : Nat
  /-- Time that has passed since the last tick. -/
  accumulated : Nat
  deriving DecidableEq, Repr

namespace Cadence

/-- A cadence of so many ticks a second.  The period is cut to whole nanoseconds. -/
def perSecond (rate : UInt32) : Cadence := ⟨second / rate.toNat, 0⟩

/-- The ticks that are due after more time has passed.  There is no answer from a cadence without a
period, which is never done ticking, nor where the ticks do not fit 32 bits. -/
def advance (c : Cadence) (elapsed : Nat) : Option (Nat × Cadence) :=
  let total := c.accumulated + elapsed
  if c.period = 0 ∨ UInt32.size ≤ total / c.period then none
  else some (total / c.period, { c with accumulated := total % c.period })

/-! ## Lemmas -/

theorem accumulated_lt_period {c c' : Cadence} {elapsed ticks : Nat}
    (h : c.advance elapsed = some (ticks, c')) : c'.accumulated < c'.period := by
  simp only [advance] at h
  split at h
  · cases h
  · next hp => cases h; exact Nat.mod_lt _ (Nat.pos_of_ne_zero fun h0 => hp (.inl h0))

/-- No time is lost: it is in the ticks or still accumulated. -/
theorem ticks_mul_period {c c' : Cadence} {elapsed ticks : Nat}
    (h : c.advance elapsed = some (ticks, c')) :
    ticks * c.period + c'.accumulated = c.accumulated + elapsed := by
  simp only [advance] at h
  split at h
  · cases h
  · cases h; exact Nat.div_add_mod' _ _

end Cadence

end Chip8
