import Chip8.Proofs.Machine.Bench
import Chip8.Proofs.Machine.Reserved
import Chip8.Proofs.Storage.Disk
import Chip8.Proofs.Storage.SaveFile
import Chip8.Storage.Slots

/-!
# A bench with a disk

Beside all that can be done to a machine on a bench, it is saved into slots of any stores and loaded
from them, and written to texts and read back.  A save leaves on the disk what was there and the text
of its machine, wherever it fails.  So a property that lasts on a bench lasts here too, for all
machines on the bench and all that any file or text brings back:

    d.Keeps P → d.act a = some d' → d'.Keeps P                                     (Keeps.act)

`Guarded` is such a property.  However a machine came to be where it is, its reserved bytes are those
of blank memory, and its next cycle changes only bytes that a store is meant to change:

    ∃ d, (Desk.fresh mode seed capacity disk).run acts = some d ∧ …              (run_reserved)
-/

namespace Chip8

/-! ## Saves on a disk -/

namespace Slots

variable {Q : List UInt8 → Prop} {d : Disk} {s : Slots}

theorem files_replace (h : d.Files Q) (slot : UInt64) {bytes : List UInt8} (hbytes : Q bytes) :
    (s.replace d slot bytes).2.Files Q := by
  unfold replace
  split
  · cases hremove : d.remove (s.stagingPath slot) with
    | error problem => exact h
    | ok d' => exact h.remove hremove
  · next staged hwrite =>
    have written := h.write hbytes hwrite
    split
    · exact written
    · next d' hrename => exact written.rename hrename

/-- Whether it goes well or not, a save adds its own contents at most. -/
theorem files_save (h : d.Files Q) (slot : UInt64) {m : Machine} (hm : Q (s.contents m)) :
    (s.save d slot m).2.Files Q := by
  have grown := h.grows (Disk.grows_makeDirectories d s.directory)
  unfold save
  split
  · exact h
  · split
    · next problem d₁ hmade =>
      rw [hmade] at grown
      exact grown
    · next d₁ hmade =>
      rw [hmade] at grown
      exact files_replace grown slot hm

end Slots

namespace SaveFile

/-- If a machine is read from a text, it has a property. -/
def Brings (P : Machine → Prop) (text : List UInt8) : Prop :=
  ∀ file, read text = .ok file → P file.machine

theorem brings_write {P : Machine → Prop} (file : SaveFile) (h : P file.machine) :
    Brings P file.write := by
  intro other hread
  simp only [read, parse_write, if_true] at hread
  cases hread
  exact h

theorem Brings.imp {P R : Machine → Prop} {text : List UInt8} (h : Brings P text)
    (weaker : ∀ m, P m → R m) : Brings R text :=
  fun file hread => weaker file.machine (h file hread)

theorem Brings.of_map {P : Machine → Prop} {text : List UInt8} (h : Brings P text) {m : Machine}
    (hread : (read text).map (·.machine) = .ok m) : P m := by
  cases hfile : read text with
  | error failure =>
    rw [hfile] at hread
    cases hread
  | ok file =>
    rw [hfile] at hread
    cases hread
    exact h file hfile

end SaveFile

theorem Slots.of_load {P : Machine → Prop} {d : Disk} (h : d.Files (SaveFile.Brings P)) {s : Slots}
    {slot : UInt64} {m : Machine} (hload : s.load d slot = .ok m) : P m := by
  unfold load at hload
  split at hload
  · cases hload
  · split at hload
    · next bytes hbytes =>
      have brings := h.find? hbytes
      exact brings.of_map hload
    · cases hload

/-! ## The desk -/

/-- Something done on a bench, or with saves of its machine. -/
inductive DeskAct where
  | bench (a : Act)
  | save (store : Slots) (slot : UInt64)
  | load (store : Slots) (slot : UInt64)
  | write (program : String)
  /-- Reads one of the texts, told by its place, newest first. -/
  | read (place : Nat)
  deriving DecidableEq, Repr

/-- A bench, a disk, and the texts written. -/
structure Desk where
  bench : Bench
  disk : Disk
  texts : List (List UInt8)
  deriving DecidableEq, Repr

namespace Desk

def fresh (mode : Mode) (seed : UInt64) (capacity : Nat) (disk : Disk) : Desk where
  bench := .fresh mode seed capacity
  disk := disk
  texts := []

def machine (d : Desk) : Machine := d.bench.machine

/-- Another machine in place of this one, unless it could not be had. -/
def putBack (d : Desk) : Except Failure Machine → Desk
  | .ok machine => { d with bench := { d.bench with machine } }
  | .error _ => d

/-- Where nothing is saved or read, nothing happens. -/
def act (d : Desk) : DeskAct → Option Desk
  | .bench a => (d.bench.act a).map fun bench => { d with bench }
  | .save store slot => some { d with disk := (store.save d.disk slot d.machine).2 }
  | .load store slot => some (d.putBack (store.load d.disk slot))
  | .write program => some { d with texts := SaveFile.write ⟨program, d.machine⟩ :: d.texts }
  | .read place =>
    match d.texts[place]? with
    | some text => some (d.putBack ((SaveFile.read text).map (·.machine)))
    | none => some d

/-- One thing after the other. -/
def run (d : Desk) : List DeskAct → Option Desk
  | [] => some d
  | a :: later => do
    let d ← d.act a
    d.run later

theorem run_cons {d d' : Desk} {a : DeskAct} (hact : d.act a = some d') (later : List DeskAct) :
    d.run (a :: later) = d'.run later := by
  rw [run, hact]
  rfl

/-! ## Properties that last -/

/-- All machines on the bench have a property, and all that a file or a text brings back. -/
structure Keeps (P : Machine → Prop) (d : Desk) : Prop where
  bench : d.bench.All P
  disk : d.disk.Files (SaveFile.Brings P)
  texts : ∀ text ∈ d.texts, SaveFile.Brings P text

namespace Keeps

variable {P : Machine → Prop} {d d' : Desk}

theorem putBack (h : d.Keeps P) {found : Except Failure Machine}
    (hfound : ∀ m, found = .ok m → P m) : (d.putBack found).Keeps P := by
  cases found with
  | ok m => exact ⟨⟨hfound m rfl, h.bench.snapshots, h.bench.history⟩, h.disk, h.texts⟩
  | error failure => exact h

/-- One case for what is done on the bench, and one for each way to save a machine or bring it
back. -/
theorem act (lasting : Bench.Lasting P) (h : d.Keeps P) {a : DeskAct}
    (hact : d.act a = some d') : d'.Keeps P := by
  cases a with
  | bench a =>
    obtain ⟨bench, hbench, rfl⟩ := Option.map_eq_some_iff.1 hact
    exact ⟨h.bench.act lasting hbench, h.disk, h.texts⟩
  | save store slot =>
    cases hact
    have kept := SaveFile.brings_write ⟨store.program, d.machine⟩ h.bench.machine
    exact ⟨h.bench, Slots.files_save h.disk slot kept, h.texts⟩
  | load store slot =>
    cases hact
    exact h.putBack fun m hload => Slots.of_load h.disk hload
  | write program =>
    cases hact
    have written := SaveFile.brings_write ⟨program, d.machine⟩ h.bench.machine
    exact ⟨h.bench, h.disk, List.forall_mem_cons.2 ⟨written, h.texts⟩⟩
  | read place =>
    simp only [Desk.act] at hact
    split at hact
    · next text htext =>
      cases hact
      have brings := h.texts text (List.mem_of_getElem? htext)
      exact h.putBack fun m hread => brings.of_map hread
    · cases hact
      exact h

theorem fresh (lasting : Bench.Lasting P) {disk : Disk} (clean : disk.Files (SaveFile.Brings P))
    (mode : Mode) (seed : UInt64) (capacity : Nat) : (Desk.fresh mode seed capacity disk).Keeps P where
  bench := lasting.all_fresh mode seed capacity
  disk := clean
  texts := by simp [Desk.fresh]

end Keeps

/-! ## Guarded machines -/

theorem lasting_guarded : Bench.Lasting Machine.Guarded where
  ofSeed := .ofSeed
  load hm h := hm.load h
  cycle hm h := hm.cycle h
  tickTimers _ hm := { hm with }
  setKeypad _ hm := { hm with }
  markShown hm := { hm with }
  markStale hm := { hm with }

/-- Whatever is done has an outcome, and all machines stay guarded. -/
theorem exists_act {d : Desk} (h : d.Keeps Machine.Guarded) (a : DeskAct) :
    ∃ d', d.act a = some d' ∧ d'.Keeps Machine.Guarded := by
  have done : ∃ d', d.act a = some d' := by
    cases a with
    | bench a =>
      have fit : d.bench.WellFormed :=
        ⟨h.bench.machine.toWellFormed, fun m hm => (h.bench.snapshots m hm).toWellFormed,
          fun m hm => (h.bench.history m hm).toWellFormed⟩
      obtain ⟨bench, hbench, -⟩ := fit.exists_act a
      exact ⟨{ d with bench }, by simp [act, hbench]⟩
    | read place =>
      simp only [act]
      split <;> exact ⟨_, rfl⟩
    | _ => exact ⟨_, rfl⟩
  obtain ⟨d', hact⟩ := done
  exact ⟨d', hact, h.act lasting_guarded hact⟩

theorem exists_run {d : Desk} (h : d.Keeps Machine.Guarded) (acts : List DeskAct) :
    ∃ d', d.run acts = some d' ∧ d'.Keeps Machine.Guarded := by
  induction acts generalizing d with
  | nil => exact ⟨d, rfl, h⟩
  | cons a later ih =>
    obtain ⟨d₁, hact, h₁⟩ := exists_act h a
    obtain ⟨d', hrun, h'⟩ := ih h₁
    exact ⟨d', (run_cons hact later).trans hrun, h'⟩

/-! ## Main statement -/

/-- Whatever is done with a machine, in any order: programs loaded or refused, cycles, ticks, keys,
and snapshots put back from memory, from slots and from texts; the disk may bring guarded machines
of its own.  It all has an outcome, and after it the bytes below 0x200 are the font and zeros, as in
blank memory.  The next cycle changes a byte only if it executes one of the two stores, and only where
that stores. -/
theorem run_reserved (mode : Mode) (seed : UInt64) (capacity : Nat) (disk : Disk)
    (clean : disk.Files (SaveFile.Brings Machine.Guarded)) (acts : List DeskAct) :
    ∃ d, (fresh mode seed capacity disk).run acts = some d ∧
      d.machine.memory.bytes.size = Memory.size ∧
      (∀ place, place < 0x200 →
        d.machine.memory.bytes[place]? = Memory.blank.bytes[place]? ∧
        d.machine.memory.bytes[place]? =
          if 0x50 ≤ place ∧ place < 0xA0 then Memory.font[place - 0x50]? else some 0) ∧
      ∃ outcome m', d.machine.cycle = some (outcome, m') ∧
        ∀ place, m'.memory.bytes[place]? ≠ d.machine.memory.bytes[place]? →
          0x200 ≤ place ∧ outcome = .ok .executed ∧ d.machine.Stores place := by
  have start := Keeps.fresh lasting_guarded clean mode seed capacity
  obtain ⟨d, hrun, h⟩ := exists_run start acts
  have guarded : d.machine.Guarded := h.bench.machine
  obtain ⟨outcome, m', hcycle, -⟩ := guarded.exists_cycle
  refine ⟨d, hrun, guarded.memory, ?_, outcome, m', hcycle, ?_⟩
  · intro place below
    exact ⟨guarded.reserved place below, guarded.reserved.getElem? below⟩
  · intro place changed
    exact Machine.stored_of_cycle hcycle changed

/-- A store that begins at 0xFFF and wraps round, with a save before it that is put back after. -/
theorem run_reserved_wrapping :
    let store : Slots := ⟨⟨"saves"⟩, "pong", 6, 0⟩
    let acts : List DeskAct :=
      [.bench (.load [0xAF, 0xFF, 0xF1, 0x55]), .bench .cycle, .save store 2, .write "pong",
        .bench .cycle, .load store 2, .bench .cycle, .read 0]
    Disk.blank.Files (SaveFile.Brings Machine.Guarded) ∧
      ∃ d, (fresh ⟨false, false⟩ 3 8 .blank).run acts = some d ∧
        ∀ place, place < 0x200 →
          d.machine.memory.bytes[place]? = Memory.blank.bytes[place]? := by
  intro store acts
  have clean : Disk.blank.Files (SaveFile.Brings Machine.Guarded) := Disk.files_blank _
  obtain ⟨d, hrun, -, hreserved, -⟩ := run_reserved ⟨false, false⟩ 3 8 .blank clean acts
  exact ⟨clean, d, hrun, fun place below => (hreserved place below).1⟩

end Desk

end Chip8
