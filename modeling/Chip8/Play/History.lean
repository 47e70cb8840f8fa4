/-!
# History

The last so many recordings, for going back.  `record` writes at the cursor of a ring and moves it
on, over the oldest recording once the ring is full.  `rewind` moves the cursor back and hands out
what is there; when all recordings have been handed out it goes on handing out the last of them.
-/

namespace Chip8

structure History (α : Type) where
  ring : Array (Option α)
  /-- Where the next recording goes. -/
  cursor : Nat
  /-- Recordings not yet gone back over. -/
  count : Nat
  /-- Something was rewound since the last recording. -/
  inSession : Bool
  deriving DecidableEq, Repr

namespace History

variable {α : Type}

/-- No recordings, and room for `capacity`. -/
def empty (capacity : Nat) : History α := ⟨Array.replicate capacity none, 0, 0, false⟩

/-- The most recordings that can be addressed. -/
def maxCapacity : Nat := 0x40000000000000

/-- A history has room for one recording at least. -/
def ofCapacity? (capacity : Nat) : Option (History α) :=
  if capacity = 0 ∨ maxCapacity < capacity then none else some (empty capacity)

def capacity (h : History α) : Nat := h.ring.size

def isEmpty (h : History α) : Bool := h.count == 0

def record (h : History α) (a : α) : History α where
  ring := h.ring.setIfInBounds h.cursor (some a)
  cursor := (h.cursor + 1) % h.capacity
  count := min (h.count + 1) h.capacity
  inSession := false

/-- The recording one step back, or none where nothing was ever recorded. -/
def rewind (h : History α) : Option α × History α :=
  let h : History α :=
    if h.count = 0 then { h with inSession := true }
    else
      { h with
        cursor := (h.cursor + h.capacity - 1) % h.capacity
        count := h.count - 1
        inSession := true }
  ((h.ring[h.cursor]?).join, h)

/-- All recordings forgotten. -/
def clear (h : History α) : History α := empty h.capacity

/-! ## Lemmas -/

theorem capacity_empty (n : Nat) : (empty (α := α) n).capacity = n := by simp [capacity, empty]

theorem capacity_record (h : History α) (a : α) : (h.record a).capacity = h.capacity := by
  simp [capacity, record]

theorem capacity_rewind (h : History α) : h.rewind.2.capacity = h.capacity := by
  unfold rewind
  split <;> rfl

/-- What was recorded last is handed out first. -/
theorem rewind_record (h : History α) (a : α) (hc : h.cursor < h.capacity) :
    (h.record a).rewind.1 = some a := by
  have hcount : (h.record a).count ≠ 0 := by simp [record]; omega
  have hcursor : ((h.cursor + 1) % h.capacity + h.capacity - 1) % h.capacity = h.cursor := by
    rcases Nat.lt_or_ge (h.cursor + 1) h.capacity with hlt | hge
    · rw [Nat.mod_eq_of_lt hlt, show h.cursor + 1 + h.capacity - 1 = h.cursor + h.capacity by omega,
        Nat.add_mod_right, Nat.mod_eq_of_lt hc]
    · rw [show h.cursor + 1 = h.capacity by omega, Nat.mod_self, Nat.zero_add,
        Nat.mod_eq_of_lt (by omega)]
      omega
  simp only [rewind, hcount, ↓reduceIte, capacity_record]
  simp [record, hcursor, show h.cursor < h.ring.size from hc]

end History

end Chip8
