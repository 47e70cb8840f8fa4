import Chip8.Proofs.Machine.Frame
import Chip8.Proofs.Machine.Memory

/-!
# Reserved memory

The bytes below `programStart` belong to the font.  A store writes one byte after the other, wraps
round at the end of memory and drops whatever falls below `programStart`, so however far the index
has run, it changes bytes of the program alone:

    m.next? = some (.storeDigits x)     changes at most the places of index, index + 1, index + 2
    m.next? = some (.storeRegisters x)  changes at most those of index, …, index + x
    any other cycle changes no byte                                            (stored_of_cycle)

A program is loaded from `programStart` on.  So a machine that has ever been blank is `Guarded`: its
reserved bytes are those of blank memory, and a cycle, a load, a tick or a key keeps it so.
-/

namespace Chip8

namespace Memory

/-! ## Bytes that a store changes -/

theorem write?_changes {m m' : Memory} {address : UInt16} {byte : UInt8}
    (h : m.write? address byte = some m') {place : Nat}
    (changed : m'.bytes[place]? ≠ m.bytes[place]?) :
    programStart ≤ place ∧ place = address.toNat % size := by
  simp only [write?] at h
  split at h
  · cases h
    exact absurd rfl changed
  · next above =>
    split at h
    · next inside =>
      cases h
      by_cases same : address.toNat % size = place
      · exact ⟨by omega, same.symm⟩
      · exact absurd (Array.getElem?_set_ne inside same) changed
    · cases h

/-- The address wraps at 2 ^ 16, of which the size of memory is a divisor. -/
theorem place_succ (address : UInt16) (k : Nat) :
    ((address + 1).toNat + k) % size = (address.toNat + (k + 1)) % size := by
  rw [UInt16.toNat_add]
  show ((address.toNat + 1) % 65536 + k) % 4096 = (address.toNat + (k + 1)) % 4096
  omega

/-- Of so many bytes from an address on, each may change its own place, wrapping round. -/
theorem writeMany?_changes {m m' : Memory} {address : UInt16} {bytes : List UInt8}
    (h : m.writeMany? address bytes = some m') {place : Nat}
    (changed : m'.bytes[place]? ≠ m.bytes[place]?) :
    programStart ≤ place ∧ ∃ k, k < bytes.length ∧ place = (address.toNat + k) % size := by
  induction bytes generalizing m address with
  | nil =>
    cases h
    exact absurd rfl changed
  | cons byte later ih =>
    simp only [writeMany?, Option.bind_eq_bind, Option.bind_eq_some_iff] at h
    obtain ⟨m₁, hfirst, hlater⟩ := h
    by_cases kept : m'.bytes[place]? = m₁.bytes[place]?
    · rw [kept] at changed
      obtain ⟨above, hplace⟩ := write?_changes hfirst changed
      exact ⟨above, 0, Nat.succ_pos _, hplace⟩
    · obtain ⟨above, k, hk, hplace⟩ := ih hlater kept
      exact ⟨above, k + 1, Nat.succ_lt_succ hk, hplace.trans (place_succ address k)⟩

/-- Every byte below `programStart` is that of blank memory. -/
def Reserved (m : Memory) : Prop :=
  ∀ place, place < programStart → m.bytes[place]? = blank.bytes[place]?

theorem reserved_blank : blank.Reserved := fun _ _ => rfl

/-- The font, and zeros around it. -/
theorem Reserved.getElem? {m : Memory} (hm : m.Reserved) {place : Nat}
    (below : place < programStart) :
    m.bytes[place]? =
      if fontStart ≤ place ∧ place < fontStart + font.size then font[place - fontStart]?
      else some 0 := by
  have inside : place < size := Nat.lt_trans below (by decide)
  rw [hm place below]
  split
  · next hfont =>
    have h : place - fontStart < font.size := by omega
    rw [← getElem?_blank h, Nat.add_sub_cancel' hfont.1]
  · next outside => exact getElem?_blank_zero inside (by omega)

/-- A program takes no byte below where programs start. -/
theorem Reserved.load {m m' : Memory} {program : List UInt8} (hm : m.Reserved)
    (h : m.load program = some (.ok m')) : m'.Reserved := by
  intro place below
  rw [← hm place below, getElem?_load h, if_neg (by omega)]

end Memory

namespace Machine

/-- Where a cycle may have stored a byte. -/
def Stores (m : Machine) (place : Nat) : Prop :=
  ∃ x k, place = (m.index.toNat + k) % Memory.size ∧
    (m.next? = some (.storeDigits x) ∧ k < 3 ∨ m.next? = some (.storeRegisters x) ∧ k ≤ x.val)

/-- One case for each of the stores, and one for all that leaves memory alone. -/
theorem stored_of_cycle {m m' : Machine} {outcome : Except Fault Progress}
    (h : m.cycle = some (outcome, m')) {place : Nat}
    (changed : m'.memory.bytes[place]? ≠ m.memory.bytes[place]?) :
    Memory.programStart ≤ place ∧ outcome = .ok .executed ∧ m.Stores place := by
  cases hi : m.next? with
  | none =>
    obtain ⟨opcode, -, rfl⟩ := cycle_without_next? hi h
    exact absurd rfl changed
  | some i =>
    obtain ⟨opcode, hexecute⟩ := cycle_of_next? hi
    have hexecute := hexecute.symm.trans h
    cases i with
    | storeDigits x =>
      simp only [execute, Option.bind_eq_bind, Option.bind_eq_some_iff] at hexecute
      obtain ⟨memory, hwrite, hdone⟩ := hexecute
      obtain ⟨rfl, rfl⟩ := done_eq_some_iff.1 hdone
      obtain ⟨above, k, hk, hplace⟩ := Memory.writeMany?_changes hwrite changed
      exact ⟨above, rfl, x, k, hplace, .inl ⟨hi, hk⟩⟩
    | storeRegisters x =>
      simp only [execute, Option.bind_eq_bind, Option.bind_eq_some_iff] at hexecute
      obtain ⟨memory, hwrite, hdone⟩ := hexecute
      obtain ⟨rfl, rfl⟩ := done_eq_some_iff.1 hdone
      obtain ⟨above, k, hk, hplace⟩ := Memory.writeMany?_changes hwrite changed
      rw [List.length_take] at hk
      exact ⟨above, rfl, x, k, hplace, .inr ⟨hi, by omega⟩⟩
    | _ =>
      have kept := (frame_cycle hi h).memory (by simp) (by simp)
      rw [kept] at changed
      exact absurd rfl changed

/-- A well-formed machine with the font in its place. -/
structure Guarded (m : Machine) : Prop extends m.WellFormed where
  reserved : m.memory.Reserved

namespace Guarded

variable {m m' : Machine}

theorem ofSeed (mode : Mode) (seed : UInt64) : (Machine.ofSeed mode seed).Guarded :=
  { wellFormed_fresh mode (.ofSeed seed) with reserved := Memory.reserved_blank }

theorem cycle (hm : m.Guarded) {outcome : Except Fault Progress}
    (h : m.cycle = some (outcome, m')) : m'.Guarded := by
  refine { hm.toWellFormed.cycle h with reserved := fun place below => ?_ }
  rw [← hm.reserved place below]
  apply Classical.byContradiction
  intro changed
  have above := (stored_of_cycle h changed).1
  omega

theorem load (hm : m.Guarded) {program : List UInt8}
    (h : m.load program = some (.ok m')) : m'.Guarded := by
  obtain ⟨loaded, hload, h⟩ := Option.map_eq_some_iff.1 h
  cases loaded with
  | error problem => cases h
  | ok memory =>
    cases h
    exact { hm with
      memory := (Memory.size_load hload).trans hm.memory
      reserved := hm.reserved.load hload }

end Guarded

end Machine

end Chip8
