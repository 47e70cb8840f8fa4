import Chip8.Proofs.Machine.Reserved
import Chip8.Proofs.Machine.Words

/-!
# Bytes stored and read again

Two instructions store bytes from the index on and one reads them.  Byte `k` of a store goes to
place `(index + k) % 4096`, unless that is reserved, and since no store is as long as memory no byte
of it is written over by another:

    m.writeMany? address bytes = some m' → bytes.length ≤ size → bytes[k]? = some byte →
      programStart ≤ (address.toNat + k) % size →
        m'.bytes[(address.toNat + k) % size]? = some byte                     (writeMany?_stores)
    m.readMany? address count = some bytes → k < count →
      bytes[k]? = m.bytes[(address.toNat + k) % size]?                        (getElem?_readMany?)

So registers that are stored and loaded come back, also across the end of memory (`stores_exact`).
-/

namespace Chip8

namespace Memory

theorem write?_stores {m m' : Memory} {address : UInt16} {byte : UInt8}
    (h : m.write? address byte = some m') (above : programStart ≤ address.toNat % size) :
    m'.bytes[address.toNat % size]? = some byte := by
  simp only [write?] at h
  rw [if_neg (Nat.not_lt.2 above)] at h
  split at h
  · next inside =>
    cases h
    exact Array.getElem?_set_self inside
  · cases h

/-- By induction on the bytes, at any address: the first is written, and none of the later ones comes
back to its place. -/
theorem writeMany?_stores {m m' : Memory} {address : UInt16} {bytes : List UInt8}
    (h : m.writeMany? address bytes = some m') (short : bytes.length ≤ size) {k : Nat} {byte : UInt8}
    (hk : bytes[k]? = some byte) (above : programStart ≤ (address.toNat + k) % size) :
    m'.bytes[(address.toNat + k) % size]? = some byte := by
  induction bytes generalizing m address k with
  | nil => cases hk
  | cons first later ih =>
    simp only [writeMany?, Option.bind_eq_bind, Option.bind_eq_some_iff] at h
    obtain ⟨m₁, hfirst, hlater⟩ := h
    rw [List.length_cons] at short
    cases k with
    | zero =>
      obtain rfl : first = byte := Option.some.inj hk
      rw [Nat.add_zero] at above ⊢
      rw [← write?_stores hfirst above]
      apply Classical.byContradiction
      intro changed
      obtain ⟨-, k, hk, hplace⟩ := writeMany?_changes hlater changed
      rw [place_succ] at hplace
      unfold size at hplace short
      omega
    | succ k =>
      rw [← place_succ] at above ⊢
      exact ih hlater (by omega) hk above

theorem writeMany?_keeps {m m' : Memory} {address : UInt16} {bytes : List UInt8}
    (h : m.writeMany? address bytes = some m') {i : Nat}
    (outside : i < programStart ∨ ∀ k, k < bytes.length → i ≠ (address.toNat + k) % size) :
    m'.bytes[i]? = m.bytes[i]? := by
  apply Classical.byContradiction
  intro changed
  obtain ⟨above, k, hk, hplace⟩ := writeMany?_changes h changed
  rcases outside with reserved | other
  · exact Nat.not_lt.2 above reserved
  · exact other k hk hplace

theorem getElem?_readMany? {m : Memory} {address : UInt16} {count : Nat} {bytes : List UInt8}
    (h : m.readMany? address count = some bytes) {k : Nat} (hk : k < count) :
    bytes[k]? = m.bytes[(address.toNat + k) % size]? := by
  induction count generalizing address bytes k with
  | zero => exact absurd hk (Nat.not_lt_zero k)
  | succ count ih =>
    simp only [readMany?, Option.bind_eq_bind, Option.bind_eq_some_iff] at h
    obtain ⟨first, hfirst, later, hlater, h⟩ := h
    obtain rfl : first :: later = bytes := Option.some.inj h
    cases k with
    | zero => exact hfirst.symm
    | succ k =>
      rw [List.getElem?_cons_succ, ih hlater (by omega), place_succ]

end Memory

namespace Machine

/-! ## What is stored -/

/-- The three digits of a byte are decimal digits, and the byte is what they spell. -/
theorem digits_spell (value : UInt8) : ∃ h t u : UInt8, digits value = [h, t, u] ∧
    h.toNat ≤ 9 ∧ t.toNat ≤ 9 ∧ u.toNat ≤ 9 ∧
    100 * h.toNat + 10 * t.toNat + u.toNat = value.toNat := by
  have hvalue := value.toNat_lt
  have hundreds : (value / 100).toNat = value.toNat / 100 := UInt8.toNat_div value 100
  have tens : (value / 10 % 10).toNat = value.toNat / 10 % 10 := by
    rw [UInt8.toNat_mod, UInt8.toNat_div]
    rfl
  have units : (value % 10).toNat = value.toNat % 10 := UInt8.toNat_mod value 10
  refine ⟨_, _, _, rfl, ?_⟩
  rw [hundreds, tens, units]
  omega

theorem getElem?_firstRegisters (m : Machine) {x r : Register} (h : r ≤ x) :
    (m.registers.toList.take (x + 1))[r.val]? = some (m.registers.get r) := by
  have below : r.val < x.val + 1 := Nat.lt_succ_of_le h
  rw [List.getElem?_take_of_lt below]
  show m.registers.toList[r.val]? = some m.registers[r.val]
  simp

theorem get_fillRegisters (m : Machine) {values : List UInt8} {r : Register} {value : UInt8}
    (h : values[r.val]? = some value) : (m.fillRegisters values).registers.get r = value := by
  show Vector.get (Vector.ofFn _) r = value
  rw [Cells.get_ofFn, h, Option.getD_some]

/-! ## Cycles -/

section
variable {m : Machine} {x : Register} (full : m.memory.bytes.size = Memory.size)
include full

/-- A store writes its bytes from the index on and leaves the index where it was. -/
theorem exists_cycle_store {i : Instruction} (bytes : List UInt8) (fetched : m.Fetches i)
    (stores : ∀ opcode, ({ m with opcode } : Machine).execute i =
      (m.memory.writeMany? m.index bytes).bind fun memory =>
        some (.ok .executed, ({ m with opcode, memory } : Machine).advance)) :
    ∃ m', m.cycle = some (.ok .executed, m') ∧ m'.index = m.index ∧
      m.memory.writeMany? m.index bytes = some m'.memory := by
  obtain ⟨opcode, hcycle⟩ := cycle_of_next? (fetches_iff.1 fetched)
  obtain ⟨memory, hwrite⟩ :=
    Memory.exists_writeMany? (Nat.le_of_eq full.symm) m.index bytes
  rw [stores, hwrite, Option.bind_some] at hcycle
  exact ⟨_, hcycle, rfl, hwrite⟩

theorem exists_cycle_storeRegisters (fetched : m.Fetches (.storeRegisters x)) :
    ∃ m', m.cycle = some (.ok .executed, m') ∧ m'.index = m.index ∧
      m'.memory.bytes.size = Memory.size ∧
      (∀ r, r ≤ x → Memory.programStart ≤ (m.index.toNat + r.val) % Memory.size →
        m'.memory.bytes[(m.index.toNat + r.val) % Memory.size]? = some (m.registers.get r)) ∧
      ∀ i : Nat, (i < Memory.programStart ∨
          ∀ r, r ≤ x → i ≠ (m.index.toNat + r.val) % Memory.size) →
        m'.memory.bytes[i]? = m.memory.bytes[i]? := by
  let bytes := m.registers.toList.take (x.val + 1)
  obtain ⟨m', hcycle, hindex, hwrite⟩ := exists_cycle_store full bytes fetched fun _ => rfl
  have hx := x.isLt
  have hlength : bytes.length = x.val + 1 := by
    rw [List.length_take, Vector.length_toList]
    omega
  refine ⟨m', hcycle, hindex, (Memory.size_writeMany? hwrite).trans full, ?_, ?_⟩
  · intro r below above
    have short : bytes.length ≤ Memory.size := by
      unfold Memory.size
      omega
    exact Memory.writeMany?_stores hwrite short (getElem?_firstRegisters m below) above
  · intro i outside
    apply Memory.writeMany?_keeps hwrite
    rcases outside with reserved | other
    · exact .inl reserved
    · refine .inr fun k hk => ?_
      have below : k ≤ x.val := by omega
      exact other ⟨k, by omega⟩ below

theorem exists_cycle_storeDigits (fetched : m.Fetches (.storeDigits x)) :
    ∃ m' h t u, m.cycle = some (.ok .executed, m') ∧
      h.toNat ≤ 9 ∧ t.toNat ≤ 9 ∧ u.toNat ≤ 9 ∧
      100 * h.toNat + 10 * t.toNat + u.toNat = (m.registers.get x).toNat ∧
      (∀ k digit, [h, t, u][k]? = some digit →
        Memory.programStart ≤ (m.index.toNat + k) % Memory.size →
        m'.memory.bytes[(m.index.toNat + k) % Memory.size]? = some digit) ∧
      ∀ i : Nat, (i < Memory.programStart ∨
          ∀ k, k < 3 → i ≠ (m.index.toNat + k) % Memory.size) →
        m'.memory.bytes[i]? = m.memory.bytes[i]? := by
  obtain ⟨h, t, u, hdigits, hh, ht, hu, spell⟩ := digits_spell (m.registers.get x)
  obtain ⟨m', hcycle, -, hwrite⟩ :=
    exists_cycle_store full (digits (m.registers.get x)) fetched fun _ => rfl
  rw [hdigits] at hwrite
  refine ⟨m', h, t, u, hcycle, hh, ht, hu, spell, ?_, ?_⟩
  · intro k digit hk above
    have short : [h, t, u].length ≤ Memory.size := by
      show 3 ≤ Memory.size
      decide
    exact Memory.writeMany?_stores hwrite short hk above
  · intro i outside
    exact Memory.writeMany?_keeps hwrite outside

/-- A load fills the first registers with bytes from the index on and leaves the others alone. -/
theorem exists_cycle_load (fetched : m.Fetches (.loadRegisters x)) :
    ∃ m', m.cycle = some (.ok .executed, m') ∧
      (∀ r, r ≤ x → m.memory.bytes[(m.index.toNat + r.val) % Memory.size]? =
        some (m'.registers.get r)) ∧
      ∀ r, x < r → m'.registers.get r = m.registers.get r := by
  obtain ⟨opcode, hcycle⟩ := cycle_of_next? (fetches_iff.1 fetched)
  obtain ⟨values, hread, count⟩ :=
    Memory.exists_readMany? (Nat.le_of_eq full.symm) m.index (x.val + 1)
  have hexecute : ({ m with opcode } : Machine).execute (.loadRegisters x) =
      some (.ok .executed, (({ m with opcode } : Machine).fillRegisters values).advance) := by
    simp only [execute, hread, Option.bind_eq_bind, Option.bind_some]
    rfl
  refine ⟨_, hcycle.trans hexecute, fun r below => ?_, fun r above => ?_⟩
  · have place : r.val < x.val + 1 := Nat.lt_succ_of_le below
    have hvalue : values[r.val]? = some values[r.val] :=
      List.getElem?_eq_getElem (by omega)
    show _ = some ((({ m with opcode } : Machine).fillRegisters values).registers.get r)
    rw [get_fillRegisters _ hvalue, ← Memory.getElem?_readMany? hread place, hvalue]
  · show (({ m with opcode } : Machine).fillRegisters values).registers.get r = m.registers.get r
    apply Classical.byContradiction
    intro changed
    have below : r ≤ x := le_of_fillRegisters_changed (m := { m with opcode }) count changed
    exact Nat.not_le_of_lt above below

end

/-! ## Main statement -/

/-- On a machine with all its memory, at every index.  FX55 puts each of the first registers at its
place, wrapping round, unless that is reserved, and changes no other byte and not the index; FX65
then brings them back into any machine with that memory and that index, or what is in the reserved
place, and leaves the other registers alone.  FX33 does with three decimal digits as FX55 with
registers. -/
theorem stores_exact (m : Machine) (full : m.memory.bytes.size = Memory.size) (x : Register) :
    let place (k : Nat) := (m.index.toNat + k) % 0x1000
    (m.Fetches (.storeRegisters x) → ∃ m', m.cycle = some (.ok .executed, m') ∧
      m'.index = m.index ∧
      (∀ r, r ≤ x → 0x200 ≤ place r.val →
        m'.memory.bytes[place r.val]? = some (m.registers.get r)) ∧
      (∀ i : Nat, (i < 0x200 ∨ ∀ r, r ≤ x → i ≠ place r.val) →
        m'.memory.bytes[i]? = m.memory.bytes[i]?) ∧
      ∀ n : Machine, n.memory = m'.memory → n.index = m.index → n.Fetches (.loadRegisters x) →
        ∃ n', n.cycle = some (.ok .executed, n') ∧
          (∀ r, r ≤ x → some (n'.registers.get r) =
            if 0x200 ≤ place r.val then some (m.registers.get r)
            else m.memory.bytes[place r.val]?) ∧
          ∀ r, x < r → n'.registers.get r = n.registers.get r) ∧
    (m.Fetches (.storeDigits x) → ∃ m' h t u, m.cycle = some (.ok .executed, m') ∧
      h.toNat ≤ 9 ∧ t.toNat ≤ 9 ∧ u.toNat ≤ 9 ∧
      100 * h.toNat + 10 * t.toNat + u.toNat = (m.registers.get x).toNat ∧
      (∀ k digit, [h, t, u][k]? = some digit → 0x200 ≤ place k →
        m'.memory.bytes[place k]? = some digit) ∧
      ∀ i : Nat, (i < 0x200 ∨ i ≠ place 0 ∧ i ≠ place 1 ∧ i ≠ place 2) →
        m'.memory.bytes[i]? = m.memory.bytes[i]?) := by
  intro place
  constructor
  · intro fetched
    obtain ⟨m', hcycle, hindex, full', stored, kept⟩ := exists_cycle_storeRegisters full fetched
    refine ⟨m', hcycle, hindex, stored, kept, fun n hmemory hindex' loads => ?_⟩
    rw [← hmemory] at full'
    obtain ⟨n', hcycle', loaded, others⟩ := exists_cycle_load full' loads
    refine ⟨n', hcycle', fun r below => ?_, others⟩
    rw [← loaded r below, hmemory, hindex']
    by_cases above : 0x200 ≤ place r.val
    · rw [if_pos above]
      exact stored r below above
    · rw [if_neg above]
      exact kept (place r.val) (.inl (Nat.lt_of_not_le above))
  · intro fetched
    obtain ⟨m', h, t, u, hcycle, hh, ht, hu, spell, stored, kept⟩ :=
      exists_cycle_storeDigits full fetched
    refine ⟨m', h, t, u, hcycle, hh, ht, hu, spell, stored, fun i outside => kept i ?_⟩
    rcases outside with reserved | ⟨not0, not1, not2⟩
    · exact .inl reserved
    · refine .inr fun k hk => ?_
      have cases : k = 0 ∨ k = 1 ∨ k = 2 := by omega
      rcases cases with rfl | rfl | rfl
      · exact not0
      · exact not1
      · exact not2

/-- With an index of 0xFFFE, V0 and V1 go to the end of memory while V2 and V3 meet reserved bytes at
its start, and so do the digits of 201. -/
theorem stores_exact_top :
    let program : List UInt8 := [0xF3, 0x55, 0xF3, 0x65, 0xF3, 0x33]
    let x : Register := lastDigit 3
    ∃ memory, Memory.blank.load program = some (.ok memory) ∧
      let m : Machine := { fresh ⟨false, false⟩ (.ofSeed 3) with
        memory, registers := Vector.replicate 16 201, index := 0xFFFE }
      let d : Machine := { m with counter := 0x204 }
      m.memory.bytes.size = Memory.size ∧
      m.Fetches (.storeRegisters x) ∧ d.Fetches (.storeDigits x) ∧
      (∃ m', m.cycle = some (.ok .executed, m') ∧ m'.memory.bytes[0xFFE]? = some 201 ∧
        m'.memory.bytes[1]? = memory.bytes[1]? ∧
        let n : Machine := { m' with counter := 0x202, registers := Vector.replicate 16 0 }
        n.Fetches (.loadRegisters x) ∧ ∃ n', n.cycle = some (.ok .executed, n') ∧
          n'.registers.get (lastDigit 0) = 201 ∧ n'.registers.get (lastDigit 4) = 0 ∧
          some (n'.registers.get x) = memory.bytes[1]?) ∧
      ∃ (d' : Machine) (h t u : UInt8), d.cycle = some (.ok .executed, d') ∧
        100 * h.toNat + 10 * t.toNat + u.toNat = 201 ∧ d'.memory.bytes[0xFFE]? = some h ∧
        d'.memory.bytes[0]? = memory.bytes[0]? := by
  intro program x
  obtain ⟨memory, hload, full⟩ := Memory.exists_load_blank (by decide : program.length ≤ _)
  refine ⟨memory, hload, ?_⟩
  intro m d
  have stores : m.Fetches (.storeRegisters x) := ⟨trivial, 0xF355, Memory.word?_load hload, by decide⟩
  have splits : d.Fetches (.storeDigits x) :=
    ⟨trivial, 0xF333, Memory.word?_load_at hload (rfl : program[4]? = some 0xF3) rfl, by decide⟩
  have first : ((0xFFFE : UInt16).toNat + 0) % 0x1000 = 0xFFE := by decide
  have above : 0x200 ≤ ((0xFFFE : UInt16).toNat + 0) % 0x1000 := by decide
  have last : ((0xFFFE : UInt16).toNat + 3) % 0x1000 = 1 := by decide
  have below : ¬ 0x200 ≤ ((0xFFFE : UInt16).toNat + 3) % 0x1000 := by decide
  obtain ⟨m', hm', hindex, stored, kept, loads⟩ := (stores_exact m full x).1 stores
  obtain ⟨d', h, t, u, hd', -, -, -, spell, split, others⟩ := (stores_exact d full x).2 splits
  refine ⟨full, stores, splits, ⟨m', hm', ?_, ?_, ?_⟩, d', h, t, u, hd', spell, ?_, ?_⟩
  · rw [← first]
    exact stored (lastDigit 0) (by decide) above
  · exact kept 1 (.inl (by decide))
  · intro n
    have spared : ∀ i : Nat, i = 0x202 ∨ i = 0x203 → m'.memory.bytes[i]? = memory.bytes[i]? := by
      intro i hi
      refine kept i (.inr fun r below => ?_)
      have hr : r.val ≤ 3 := below
      show i ≠ (0xFFFE + r.val) % 0x1000
      omega
    have reads : n.Fetches (.loadRegisters x) := by
      refine ⟨trivial, 0xF365, ?_, by decide⟩
      show m'.memory.word? 0x202 = some 0xF365
      have same : m'.memory.word? 0x202 = memory.word? 0x202 := by
        have high : m'.memory.read? 0x202 = memory.read? 0x202 := spared 0x202 (.inl rfl)
        have low : m'.memory.read? 0x203 = memory.read? 0x203 := spared 0x203 (.inr rfl)
        have next : (0x202 : UInt16) + 1 = 0x203 := rfl
        rw [Memory.word?, Memory.word?, next, high, low]
      rw [same]
      exact Memory.word?_load_at hload (rfl : program[2]? = some 0xF3) rfl
    obtain ⟨n', hn', loaded, others⟩ := loads n rfl hindex reads
    refine ⟨reads, n', hn', ?_, ?_, ?_⟩
    · exact Option.some.inj ((loaded (lastDigit 0) (by decide)).trans (if_pos above))
    · exact others (lastDigit 4) (by decide)
    · rw [← last]
      exact (loaded x (by decide)).trans (if_neg below)
  · rw [← first]
    exact split 0 h rfl above
  · exact others 0 (.inl (by decide))

end Machine

end Chip8
