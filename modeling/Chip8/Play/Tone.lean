/-!
# Tone

A beeper that is started and stopped.  It counts its starts, so that one can hear whether a tone
went on or began anew.
-/

namespace Chip8

structure Tone where
  isBeeping : Bool
  starts : Nat
  deriving DecidableEq, Repr

namespace Tone

def silent : Tone := ⟨false, 0⟩

def start (t : Tone) : Tone := ⟨true, t.starts + 1⟩

def stop (t : Tone) : Tone := { t with isBeeping := false }

/-- Starts or stops where the tone is not as wanted already. -/
def follow (t : Tone) (wanted : Bool) : Tone :=
  match wanted, t.isBeeping with
  | true, false => t.start
  | false, true => t.stop
  | _, _ => t

/-! ## Lemmas -/

theorem isBeeping_follow (t : Tone) (wanted : Bool) : (t.follow wanted).isBeeping = wanted := by
  cases h : t.isBeeping <;> cases wanted <;> simp [follow, start, stop, h]

/-- A tone that goes on does not begin anew. -/
theorem starts_follow (t : Tone) (wanted : Bool) :
    (t.follow wanted).starts = t.starts + (if wanted && !t.isBeeping then 1 else 0) := by
  cases h : t.isBeeping <;> cases wanted <;> simp [follow, start, stop, h]

end Tone

end Chip8
