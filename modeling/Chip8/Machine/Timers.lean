/-!
# Timers

Two bytes that count down to zero.  A tone is due as long as the sound timer has not got there.
-/

namespace Chip8

structure Timers where
  delay : UInt8
  sound : UInt8
  deriving DecidableEq, Repr

namespace Timers

/-- Both timers at zero. -/
def stopped : Timers := ⟨0, 0⟩

/-- One less, but never below zero. -/
def countDown (t : UInt8) : UInt8 := if t = 0 then 0 else t - 1

def tick (t : Timers) : Timers := ⟨countDown t.delay, countDown t.sound⟩

/-- Several ticks at once. -/
def tickBy (t : Timers) (ticks : Nat) : Timers :=
  ⟨UInt8.ofNat (t.delay.toNat - ticks), UInt8.ofNat (t.sound.toNat - ticks)⟩

def isSounding (t : Timers) : Bool := t.sound != 0

/-! ## Lemmas -/

theorem countDown_toNat (t : UInt8) : (countDown t).toNat = t.toNat - 1 := by
  unfold countDown
  split
  · next h => simp [h]
  · next h =>
    have : t.toNat ≠ 0 := fun h' => h (UInt8.toNat_inj.1 h')
    rw [UInt8.toNat_sub_of_le _ _ (by rw [UInt8.le_iff_toNat_le]; simp; omega)]
    simp

theorem tickBy_zero (t : Timers) : t.tickBy 0 = t := by simp [tickBy]

theorem tickBy_succ (t : Timers) (ticks : Nat) : t.tickBy (ticks + 1) = t.tick.tickBy ticks := by
  simp [tickBy, tick, countDown_toNat, Nat.sub_sub, Nat.add_comm]

theorem isSounding_iff (t : Timers) : t.isSounding = true ↔ 0 < t.sound.toNat := by
  rw [isSounding, bne_iff_ne, ne_eq, ← UInt8.toNat_inj, UInt8.toNat_zero, Nat.pos_iff_ne_zero]

end Timers

end Chip8
