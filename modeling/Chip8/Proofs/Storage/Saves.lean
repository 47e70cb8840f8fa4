import Chip8.Proofs.Storage.Slots

/-!
# Many saves

Saves come in any order, through stores of any programs, and some of them fail, also because the
disk gives out in the middle of them.  Whatever their answers were, a slot gives back the machine of
the last save to it that went well:

    s.load d' slot = lastKept s.program slot (calls.zip answers), or empty        (load_performAll)
-/

namespace Chip8

/-- A save through one of the stores, perhaps with a hitch. -/
structure SaveCall where
  store : Slots
  slot : UInt64
  machine : Machine
  hitch : Option Hitch
  deriving DecidableEq, Repr

namespace SaveCall

def perform (c : SaveCall) (d : Disk) : Except Failure Unit × Disk :=
  c.store.saveWith c.hitch d c.slot c.machine

/-- Saves in order, each with its answer. -/
def performAll (d : Disk) : List SaveCall → List (Except Failure Unit) × Disk
  | [] => ([], d)
  | c :: later =>
    let (answer, d) := c.perform d
    let (answers, d) := performAll d later
    (answer :: answers, d)

/-- The machine that a save with this answer leaves in a slot. -/
def kept (c : SaveCall) (answer : Except Failure Unit) (program : String) (slot : UInt64) :
    Option Machine :=
  if answer.isOk ∧ c.store.program = program ∧ c.slot = slot then some c.machine else none

/-- The machine of the last save to a slot that went well. -/
def lastKept (program : String) (slot : UInt64) :
    List (SaveCall × Except Failure Unit) → Option Machine
  | [] => none
  | (c, answer) :: later => (lastKept program slot later).or (c.kept answer program slot)

open Slots

variable {directory : Path} {table : String → UInt64 → Option Machine} {d : Disk}

/-- A save that fails spares all slots. -/
theorem spares_perform {c : SaveCall} (hc : c.store.Over directory) {failure : Failure}
    (h : (c.perform d).1 = .error failure) : Spares directory d (c.perform d).2 := by
  unfold perform at h ⊢
  rcases saveWith_cases hc c.hitch d c.slot c.machine with
    ⟨_, d', hsave, spared⟩ | ⟨d', -, -, -, hsave⟩
  · rw [hsave]
    exact spared
  · rw [hsave] at h
    cases h

theorem holds_perform (hd : Holds directory table d) {c : SaveCall}
    (hc : c.store.Over directory) :
    Holds directory
      (fun program slot => (c.kept (c.perform d).1 program slot).or (table program slot))
      (c.perform d).2 := by
  unfold perform
  rcases saveWith_cases hc c.hitch d c.slot c.machine with
    ⟨failure, d', hsave, spared⟩ | ⟨d', spared, hlocate, hplace, hsave⟩
  · rw [hsave]
    simpa [kept, Except.isOk, Except.toBool] using hd.spares spared
  · rw [hsave]
    have hput := (hd.spares spared).put hc hlocate hplace c.machine
    refine cast (congrArg (Holds directory · _) ?_) hput
    funext program slot
    by_cases same : c.store.program = program ∧ c.slot = slot <;>
      simp [kept, Except.isOk, Except.toBool, same]

theorem holds_performAll (hd : Holds directory table d) {calls : List SaveCall}
    (hcalls : ∀ c ∈ calls, c.store.Over directory) :
    Holds directory
      (fun program slot =>
        (lastKept program slot (calls.zip (performAll d calls).1)).or (table program slot))
      (performAll d calls).2 := by
  induction calls generalizing d table with
  | nil => exact hd
  | cons c later ih =>
    rw [List.forall_mem_cons] at hcalls
    have hrest := ih (holds_perform hd hcalls.1) hcalls.2
    simp only [← Option.or_assoc] at hrest
    exact hrest

theorem length_performAll (d : Disk) (calls : List SaveCall) :
    (performAll d calls).1.length = calls.length := by
  induction calls generalizing d with
  | nil => rfl
  | cons c later ih => simp [performAll, ih]

end SaveCall

/-- No save files in a directory, which need not be there yet. -/
def Disk.NoSaves (d : Disk) (directory : Path) : Prop :=
  ∀ stem bytes, d.lookup? (directory.place ++ [stem ++ ".sav"]) ≠ some (.file bytes)

theorem Disk.noSaves_blank (directory : Path) : blank.NoSaves directory := by
  intro stem bytes h
  rw [lookup?, if_neg (by simp)] at h
  cases h

theorem Slots.holds_none {directory : Path} {d : Disk} (clean : d.NoSaves directory) :
    Slots.Holds directory (fun _ _ => none) d where
  full := by simp
  vacant s hs slot _ bytes := by
    rw [place, hs.directory]
    exact clean (s.program ++ "_" ++ toString slot) bytes

namespace SaveCall

open Slots

/-! ## Main statement -/

/-- Whatever was saved, through stores of any programs over one directory and on a disk that may give
out in any of the saves: a slot gives back the machine of the last save to it that went well, a save
that fails changes nothing for any slot, and one that is out of range changes nothing on the disk. -/
theorem load_performAll (directory : Path) (d : Disk) (clean : d.NoSaves directory)
    (calls : List SaveCall) (hcalls : ∀ c ∈ calls, c.store.Over directory) :
    ∃ answers d', performAll d calls = (answers, d') ∧ answers.length = calls.length ∧
      (∀ s : Slots, s.Over directory → ∀ slot,
        s.isEmpty d' slot = (lastKept s.program slot (calls.zip answers)).isNone ∧
        s.load d' slot =
          if s.count ≤ slot then .error (.slotOutOfRange slot s.count)
          else
            match lastKept s.program slot (calls.zip answers) with
            | some m => .ok m
            | none => .error (.slotEmpty slot)) ∧
      (∀ c : SaveCall, c.store.Over directory → ∀ failure, (c.perform d').1 = .error failure →
        ∀ s : Slots, s.Over directory → ∀ slot,
          s.load (c.perform d').2 slot = s.load d' slot ∧
          s.isEmpty (c.perform d').2 slot = s.isEmpty d' slot) ∧
      ∀ c : SaveCall, c.store.count ≤ c.slot →
        c.perform d' = (.error (.slotOutOfRange c.slot c.store.count), d') := by
  have holds := holds_performAll (holds_none clean) hcalls
  simp only [Option.or_none] at holds
  have outside (s : Slots) (d : Disk) {slot : UInt64} (h : s.count ≤ slot) :
      s.load d slot = .error (.slotOutOfRange slot s.count) := by
    rw [load, if_pos h]
  refine ⟨_, _, rfl, length_performAll d calls, ?_, ?_, ?_⟩
  · intro s hs slot
    refine ⟨holds.isEmpty_eq hs slot, ?_⟩
    split
    · next h => exact outside s _ h
    · next h => exact holds.load_eq hs (UInt64.not_le.1 h)
  · intro c hc failure hfailure s hs slot
    have holds' := holds.spares (spares_perform hc hfailure)
    refine ⟨?_, (holds'.isEmpty_eq hs slot).trans (holds.isEmpty_eq hs slot).symm⟩
    by_cases h : s.count ≤ slot
    · rw [outside s _ h, outside s _ h]
    · have inside := UInt64.not_le.1 h
      rw [holds'.load_eq hs inside, holds.load_eq hs inside]
  · intro c h
    rw [perform, saveWith, if_pos h]

/-- Two programs of which one's name is the start of the other's, a save that is cut off after seven
bytes, one that is not renamed, and one out of range. -/
theorem load_performAll_two :
    let directory : Path := ⟨"saves"⟩
    let a : Slots := ⟨directory, "a", 12, 0⟩
    let b : Slots := ⟨directory, "a_1", 12, 0⟩
    let m := Machine.ofSeed ⟨false, false⟩ 1
    let m' := Machine.ofSeed ⟨true, false⟩ 2
    let calls : List SaveCall := [⟨a, 1, m, none⟩, ⟨b, 1, m', none⟩, ⟨a, 11, m', none⟩,
      ⟨a, 1, m', some (.writing 7 .notFound)⟩, ⟨b, 1, m, some (.moving .notFound)⟩, ⟨a, 12, m, none⟩]
    Disk.blank.NoSaves directory ∧ (∀ c ∈ calls, c.store.Over directory) ∧
      ∃ answers d', performAll Disk.blank calls = (answers, d') ∧
        answers.map Except.isOk = [true, true, true, false, false, false] ∧
        a.load d' 1 = .ok m ∧ b.load d' 1 = .ok m' ∧ a.load d' 11 = .ok m' ∧
        b.load d' 11 = .error (.slotEmpty 11) := by
  intro directory a b m m' calls
  have clean : Disk.blank.NoSaves directory := Disk.noSaves_blank directory
  have overA : a.Over directory := ⟨rfl, by decide⟩
  have overB : b.Over directory := ⟨rfl, by decide⟩
  have hcalls : ∀ c ∈ calls, c.store.Over directory := by
    simp [calls, overA, overB]
  obtain ⟨answers, d', hrun, -, hload, -, -⟩ :=
    load_performAll directory Disk.blank clean calls hcalls
  have hok : answers.map Except.isOk = [true, true, true, false, false, false] := by
    rw [show answers = (performAll Disk.blank calls).1 by rw [hrun]]
    decide +kernel +zetaReduce
  refine ⟨clean, hcalls, answers, d', hrun, hok, ?_⟩
  match answers, hok, hload with
  | [.ok (), .ok (), .ok (), .error _, .error _, .error _], _, hload =>
    exact ⟨(hload a overA 1).2, (hload b overB 1).2, (hload a overA 11).2, (hload b overB 11).2⟩

end SaveCall

end Chip8
