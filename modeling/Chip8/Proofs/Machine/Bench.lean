import Chip8.Proofs.Machine.WellFormed
import Chip8.Proofs.Play.History

/-!
# A machine on the bench

Everything that can be done to a machine from outside, in any order: programs loaded, cycles, ticks
and keys, the screen marked, a new machine put in its place, and snapshots taken of it, recorded in
a history and put back.

Whatever is done, it has an outcome, and the machine is well-formed after it; so the next cycle
finds every byte, pixel and stack cell that it asks for, and no sum of it wraps.

    ∃ b, (Bench.fresh mode seed capacity).run acts = some b ∧ b.machine.WellFormed ∧ …
                                                                        (exists_run_wellFormed)
-/

namespace Chip8

/-- Something done to a machine. -/
inductive Act where
  | load (program : List UInt8)
  /-- One cycle, which may fault. -/
  | cycle
  | tickTimers (ticks : Nat)
  | setKeypad (keypad : Keypad)
  | markShown
  | markStale
  /-- A machine without a program in place of this one. -/
  | reset (mode : Mode) (seed : UInt64)
  | capture
  /-- Puts back one of the snapshots, told by its place, newest first. -/
  | restore (place : Nat)
  /-- Puts one of the snapshots into the history. -/
  | record (place : Nat)
  /-- Puts back what the history hands out. -/
  | rewind
  | clearHistory
  deriving DecidableEq, Repr

/-- A machine, the snapshots taken of it, and a history. -/
structure Bench where
  machine : Machine
  snapshots : List Machine
  history : History Machine
  deriving DecidableEq, Repr

namespace Bench

def fresh (mode : Mode) (seed : UInt64) (capacity : Nat) : Bench where
  machine := .ofSeed mode seed
  snapshots := []
  history := .empty capacity

/-- Where there is no such snapshot, nothing happens. -/
def act (b : Bench) : Act → Option Bench
  | .load program => do
    match ← b.machine.load program with
    | .ok machine => return { b with machine }
    | .error _ => return b
  | .cycle => do
    let (_, machine) ← b.machine.cycle
    return { b with machine }
  | .tickTimers ticks => some { b with machine := b.machine.tickTimers ticks }
  | .setKeypad keypad => some { b with machine := b.machine.setKeypad keypad }
  | .markShown => some { b with machine := b.machine.markShown }
  | .markStale => some { b with machine := b.machine.markStale }
  | .reset mode seed => some { b with machine := .ofSeed mode seed }
  | .capture => some { b with snapshots := b.machine :: b.snapshots }
  | .restore place => some { b with machine := b.snapshots[place]?.getD b.machine }
  | .record place =>
    some { b with history := (b.snapshots[place]?).elim b.history b.history.record }
  | .rewind =>
    some { b with machine := b.history.rewind.1.getD b.machine, history := b.history.rewind.2 }
  | .clearHistory => some { b with history := b.history.clear }

/-- One thing after the other. -/
def run (b : Bench) : List Act → Option Bench
  | [] => some b
  | a :: later => do
    let b ← b.act a
    b.run later

end Bench

namespace Bench

/-! ## Properties that last -/

/-- A property that new machines have, and that nothing done on a bench takes from a machine. -/
structure Lasting (P : Machine → Prop) : Prop where
  ofSeed : ∀ mode seed, P (.ofSeed mode seed)
  load : ∀ {m m' program}, P m → m.load program = some (.ok m') → P m'
  cycle : ∀ {m m' outcome}, P m → m.cycle = some (outcome, m') → P m'
  tickTimers : ∀ {m} ticks, P m → P (m.tickTimers ticks)
  setKeypad : ∀ {m} keypad, P m → P (m.setKeypad keypad)
  markShown : ∀ {m}, P m → P m.markShown
  markStale : ∀ {m}, P m → P m.markStale

/-- The machine and everything that can be put back in its place have a property. -/
structure All (P : Machine → Prop) (b : Bench) : Prop where
  machine : P b.machine
  snapshots : ∀ snapshot ∈ b.snapshots, P snapshot
  history : b.history.All P

section
variable {P : Machine → Prop} (lasting : Lasting P) {b b' : Bench}
include lasting

theorem Lasting.all_fresh (mode : Mode) (seed : UInt64) (capacity : Nat) :
    (fresh mode seed capacity).All P where
  machine := lasting.ofSeed mode seed
  snapshots := by simp [fresh]
  history := History.all_empty capacity

theorem All.act (hb : b.All P) {a : Act} (h : b.act a = some b') : b'.All P := by
  have keep {machine : Machine} (hm : P machine) : ({ b with machine } : Bench).All P :=
    ⟨hm, hb.snapshots, hb.history⟩
  cases a with
  | load program =>
    simp only [Bench.act, Option.bind_eq_bind, Option.bind_eq_some_iff] at h
    obtain ⟨loaded, hload, h⟩ := h
    cases loaded with
    | error problem =>
      cases h
      exact hb
    | ok machine =>
      cases h
      exact keep (lasting.load hb.machine hload)
  | cycle =>
    simp only [Bench.act, Option.bind_eq_bind, Option.bind_eq_some_iff, Prod.exists] at h
    obtain ⟨outcome, machine, hcycle, h⟩ := h
    cases h
    exact keep (lasting.cycle hb.machine hcycle)
  | tickTimers ticks => cases h; exact keep (lasting.tickTimers ticks hb.machine)
  | setKeypad keypad => cases h; exact keep (lasting.setKeypad keypad hb.machine)
  | markShown => cases h; exact keep (lasting.markShown hb.machine)
  | markStale => cases h; exact keep (lasting.markStale hb.machine)
  | reset mode seed =>
    obtain rfl := Option.some.inj h
    exact keep (lasting.ofSeed mode seed)
  | capture =>
    cases h
    exact ⟨hb.machine, List.forall_mem_cons.2 ⟨hb.machine, hb.snapshots⟩, hb.history⟩
  | restore place =>
    cases h
    refine keep ?_
    cases hplace : b.snapshots[place]? with
    | none => exact hb.machine
    | some snapshot => exact hb.snapshots snapshot (List.mem_of_getElem? hplace)
  | record place =>
    cases h
    refine ⟨hb.machine, hb.snapshots, ?_⟩
    cases hplace : b.snapshots[place]? with
    | none => exact hb.history
    | some snapshot => exact hb.history.record (hb.snapshots snapshot (List.mem_of_getElem? hplace))
  | rewind =>
    cases h
    refine ⟨?_, hb.snapshots, hb.history.rewind⟩
    show P (b.history.rewind.1.getD b.machine)
    cases hhanded : b.history.rewind.1 with
    | none => exact hb.machine
    | some snapshot => exact hb.history.handed hhanded
  | clearHistory => cases h; exact ⟨hb.machine, hb.snapshots, History.all_empty _⟩

end

/-! ## The invariant -/

/-- The machine and everything that can be put back in its place. -/
structure WellFormed (b : Bench) : Prop where
  machine : b.machine.WellFormed
  snapshots : ∀ snapshot ∈ b.snapshots, snapshot.WellFormed
  history : b.history.All Machine.WellFormed

theorem wellFormed_fresh (mode : Mode) (seed : UInt64) (capacity : Nat) :
    (fresh mode seed capacity).WellFormed where
  machine := Machine.wellFormed_fresh mode (.ofSeed seed)
  snapshots := by simp [fresh]
  history := History.all_empty capacity

theorem lasting_wellFormed : Lasting Machine.WellFormed where
  ofSeed mode seed := Machine.wellFormed_fresh mode (.ofSeed seed)
  load hm h := by
    obtain ⟨loaded, hload, h⟩ := Option.map_eq_some_iff.1 h
    cases loaded with
    | error problem => cases h
    | ok memory =>
      cases h
      exact { hm with memory := (Memory.size_load hload).trans hm.memory }
  cycle hm h := hm.cycle h
  tickTimers _ hm := { hm with }
  setKeypad _ hm := { hm with }
  markShown hm := { hm with }
  markStale hm := { hm with }

/-- Whatever is done has an outcome and keeps the invariant. -/
theorem WellFormed.exists_act {b : Bench} (hb : b.WellFormed) (a : Act) :
    ∃ b', b.act a = some b' ∧ b'.WellFormed := by
  have done : ∃ b', b.act a = some b' := by
    cases a with
    | load program =>
      obtain ⟨loaded, hload⟩ := Memory.exists_load (Nat.le_of_eq hb.machine.memory.symm) program
      cases loaded <;> exact ⟨_, by simp only [act, Machine.load, hload]; rfl⟩
    | cycle =>
      obtain ⟨outcome, machine, hcycle, -⟩ := hb.machine.exists_cycle
      exact ⟨{ b with machine }, by simp [act, hcycle]⟩
    | _ => exact ⟨_, rfl⟩
  obtain ⟨b', h⟩ := done
  have all : b.All Machine.WellFormed := ⟨hb.machine, hb.snapshots, hb.history⟩
  obtain ⟨machine, snapshots, history⟩ := all.act lasting_wellFormed h
  exact ⟨b', h, machine, snapshots, history⟩

theorem WellFormed.exists_run {b : Bench} (hb : b.WellFormed) (acts : List Act) :
    ∃ b', b.run acts = some b' ∧ b'.WellFormed := by
  induction acts generalizing b with
  | nil => exact ⟨b, rfl, hb⟩
  | cons a later ih =>
    obtain ⟨b₁, h₁, hb₁⟩ := hb.exists_act a
    obtain ⟨b', h', hb'⟩ := ih hb₁
    exact ⟨b', by simp [run, h₁, h'], hb'⟩

/-! ## Main statement -/

/-- On a bench where a machine was started and never read from a file, everything has an outcome,
the machine is well-formed, the next cycle has an outcome, and its arithmetic does not wrap. -/
theorem exists_run_wellFormed (mode : Mode) (seed : UInt64) (capacity : Nat) (acts : List Act) :
    ∃ b, (fresh mode seed capacity).run acts = some b ∧ b.machine.WellFormed ∧
      (∃ outcome m', b.machine.cycle = some (outcome, m')) ∧
      ∀ i, b.machine.next? = some i → b.machine.Exact i := by
  obtain ⟨b, hrun, hb⟩ := (wellFormed_fresh mode seed capacity).exists_run acts
  obtain ⟨outcome, m', hcycle, -⟩ := hb.machine.exists_cycle
  exact ⟨b, hrun, hb.machine, ⟨outcome, m', hcycle⟩, fun _ hi => hb.machine.exact hi⟩

end Bench

end Chip8
