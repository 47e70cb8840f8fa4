import Chip8.Play.History

/-!
# A history is a bounded undo stack

The ring of a history stands for a list, newest first: `back i` is the place of entry `i`, and once
the list is used up the cursor rests on the entry that was handed out last.  `Represents` says so,
and recording, rewinding and clearing keep it.  Over any calls on an empty history:

    the answers are those of `UndoStack`, and the counts agree
    the next rewind has no answer  ↔  nothing was recorded since the last clear
    a session is under way         ↔  the last call that was no rewind came before a rewind
                                                                            (run_empty_refines)
-/

namespace Chip8

/-- A stack that keeps what was pushed last, newest first. -/
structure UndoStack (α : Type) where
  capacity : Nat
  entries : List α
  /-- What was popped last. -/
  popped : Option α
  deriving DecidableEq, Repr

namespace UndoStack

variable {α : Type}

def empty (capacity : Nat) : UndoStack α := ⟨capacity, [], none⟩

/-- Pushes; the oldest entry is dropped where there is no room. -/
def record (s : UndoStack α) (a : α) : UndoStack α :=
  { s with entries := (a :: s.entries).take s.capacity }

/-- Pops, or answers again with what was popped last. -/
def rewind (s : UndoStack α) : Option α × UndoStack α :=
  match s.entries with
  | [] => (s.popped, s)
  | a :: older => (some a, { s with entries := older, popped := some a })

def clear (s : UndoStack α) : UndoStack α := empty s.capacity

end UndoStack

/-! ## Calls -/

/-- A call that changes a history. -/
inductive Recall (α : Type) where
  | record (a : α)
  | rewind
  | clear
  deriving DecidableEq, Repr

namespace Recall

variable {α : Type}

/-- Calls in order, each with its answer. -/
def runWith {σ : Type} (call : σ → Recall α → Option α × σ) (s : σ) :
    List (Recall α) → List (Option α) × σ
  | [] => ([], s)
  | c :: later =>
    let (answer, s) := call s c
    let (answers, s) := runWith call s later
    (answer :: answers, s)

/-- Something was recorded and not cleared since. -/
def Recorded (calls : List (Recall α)) : Prop :=
  ∃ before a after, calls = before ++ record a :: after ∧ clear ∉ after

/-- There was a rewind, and neither a recording nor a clear since. -/
def Rewound (calls : List (Recall α)) : Prop :=
  ∃ before after, calls = before ++ rewind :: after ∧ ∀ c ∈ after, c ≠ clear ∧ ∀ a, c ≠ record a

end Recall

namespace UndoStack

variable {α : Type}

def call (s : UndoStack α) : Recall α → Option α × UndoStack α
  | .record a => (none, s.record a)
  | .rewind => s.rewind
  | .clear => (none, s.clear)

def run (s : UndoStack α) (calls : List (Recall α)) : List (Option α) × UndoStack α :=
  Recall.runWith call s calls

end UndoStack

namespace History

variable {α : Type}

def call (h : History α) : Recall α → Option α × History α
  | .record a => (none, h.record a)
  | .rewind => h.rewind
  | .clear => (none, h.clear)

def run (h : History α) (calls : List (Recall α)) : List (Option α) × History α :=
  Recall.runWith call h calls

/-! ## Places in the ring -/

/-- Where entry `i` is, the newest being entry 0. -/
def back (h : History α) (i : Nat) : Nat := (h.cursor + h.capacity - 1 - i) % h.capacity

section
variable {cursor capacity i : Nat} (hcursor : cursor < capacity) (hi : i < capacity)
include hcursor hi

theorem back_eq :
    (cursor + capacity - 1 - i) % capacity =
      if i < cursor then cursor - 1 - i else cursor + capacity - 1 - i := by
  split
  · rw [show cursor + capacity - 1 - i = cursor - 1 - i + capacity by omega, Nat.add_mod_right,
      Nat.mod_eq_of_lt (by omega)]
  · exact Nat.mod_eq_of_lt (by omega)

theorem cursor_back (hlast : i + 1 < capacity) :
    (cursor + capacity - 1 - i) % capacity ≠ cursor := by
  rw [back_eq hcursor hi]
  split <;> omega

end

theorem next_eq {cursor capacity : Nat} (hcursor : cursor < capacity) :
    (cursor + 1) % capacity = if cursor + 1 = capacity then 0 else cursor + 1 := by
  split
  · next h => rw [h, Nat.mod_self]
  · exact Nat.mod_eq_of_lt (by omega)

/-- The cursor was at the newest entry before it was moved on. -/
theorem back_record_zero (h : History α) (a : α) (hcursor : h.cursor < h.capacity) :
    (h.record a).back 0 = h.cursor := by
  unfold back
  rw [capacity_record]
  show ((h.cursor + 1) % h.capacity + h.capacity - 1 - 0) % h.capacity = h.cursor
  rw [back_eq (Nat.mod_lt _ (by omega)) (by omega), next_eq hcursor]
  split <;> split <;> omega

/-- A recording makes every entry one older and leaves it in its place. -/
theorem back_record_succ (h : History α) (a : α) {i : Nat} (hcursor : h.cursor < h.capacity)
    (hi : i + 1 < h.capacity) : (h.record a).back (i + 1) = h.back i := by
  unfold back
  rw [capacity_record]
  show ((h.cursor + 1) % h.capacity + h.capacity - 1 - (i + 1)) % h.capacity = _
  rw [back_eq (Nat.mod_lt _ (by omega)) hi, back_eq hcursor (by omega), next_eq hcursor]
  split <;> split <;> split <;> omega

theorem cursor_rewind {h : History α} (hcount : h.count ≠ 0) : h.rewind.2.cursor = h.back 0 := by
  simp [rewind, hcount, back]

/-- A rewind makes every entry one newer and leaves it in its place. -/
theorem back_rewind {h : History α} {i : Nat} (hcursor : h.cursor < h.capacity)
    (hcount : h.count ≠ 0) (hi : i + 1 < h.capacity) : h.rewind.2.back i = h.back (i + 1) := by
  have hcap := capacity_rewind h
  unfold back
  rw [hcap, cursor_rewind hcount]
  unfold back
  rw [back_eq (Nat.mod_lt _ (by omega)) (by omega), back_eq hcursor hi,
    back_eq hcursor (by omega : 0 < h.capacity)]
  split <;> split <;> split <;> omega

/-! ## What the ring stands for -/

structure Represents (h : History α) (s : UndoStack α) : Prop where
  capacity : h.capacity = s.capacity
  cursor : h.cursor < h.capacity
  count : h.count = s.entries.length
  bounded : s.entries.length ≤ s.capacity
  recent : ∀ i a, s.entries[i]? = some a → h.ring[h.back i]? = some (some a)
  resting : s.entries = [] → h.ring[h.cursor]?.join = s.popped

theorem represents_empty {capacity : Nat} (hpos : 0 < capacity) :
    (empty capacity : History α).Represents (.empty capacity) where
  capacity := capacity_empty capacity
  cursor := by
    rw [capacity_empty]
    exact hpos
  count := rfl
  bounded := Nat.zero_le _
  recent := by simp [UndoStack.empty]
  resting := fun _ => by simp [empty, UndoStack.empty, hpos]

namespace Represents

variable {h : History α} {s : UndoStack α}

theorem record (hr : h.Represents s) (a : α) : (h.record a).Represents (s.record a) where
  capacity := (capacity_record h a).trans hr.capacity
  cursor := by
    rw [capacity_record]
    exact Nat.mod_lt _ (Nat.lt_of_le_of_lt (Nat.zero_le _) hr.cursor)
  count := by
    show min (h.count + 1) h.capacity = ((a :: s.entries).take s.capacity).length
    rw [List.length_take, List.length_cons, hr.count, hr.capacity, Nat.min_comm]
  bounded := List.length_take_le _ _
  recent := by
    intro i b hb
    have hentry : i < h.capacity ∧ (a :: s.entries)[i]? = some b := by
      have hlt := (List.getElem?_eq_some_iff.1 hb).1
      have hlt : i < s.capacity :=
        Nat.lt_of_lt_of_le hlt (List.length_take_le s.capacity (a :: s.entries))
      refine ⟨hr.capacity ▸ hlt, ?_⟩
      rw [← hb]
      exact (List.getElem?_take_of_lt hlt).symm
    obtain ⟨hi, hb⟩ := hentry
    show (h.ring.setIfInBounds h.cursor (some a))[(h.record a).back i]? = some (some b)
    cases i with
    | zero =>
      cases hb
      rw [back_record_zero h a hr.cursor]
      exact Array.getElem?_setIfInBounds_self_of_lt hr.cursor
    | succ i =>
      have hne : h.cursor ≠ h.back i := (cursor_back hr.cursor (by omega) hi).symm
      rw [back_record_succ h a hr.cursor hi, Array.getElem?_setIfInBounds_ne hne]
      exact hr.recent i b hb
  resting := by
    intro hnil
    have hcursor := hr.cursor
    have hzero : s.capacity ≠ 0 := by
      rw [← hr.capacity]
      omega
    simp [UndoStack.record, hzero] at hnil

theorem clear (hr : h.Represents s) : h.clear.Represents s.clear := by
  have hpos : 0 < s.capacity := by
    have := hr.cursor
    have := hr.capacity
    omega
  unfold History.clear UndoStack.clear
  rw [hr.capacity]
  exact represents_empty hpos

/-- Both hand out the same, and go on alike. -/
theorem rewind (hr : h.Represents s) :
    h.rewind.1 = s.rewind.1 ∧ h.rewind.2.Represents s.rewind.2 := by
  cases hs : s.entries with
  | nil =>
    have hcount : h.count = 0 := by rw [hr.count, hs]; rfl
    have same : h.rewind = (h.ring[h.cursor]?.join, { h with inSession := true }) := by
      simp [History.rewind, hcount]
    have stays : s.rewind = (s.popped, s) := by simp [UndoStack.rewind, hs]
    rw [same, stays]
    exact ⟨hr.resting hs, hr.capacity, hr.cursor, hr.count, hr.bounded, hr.recent, hr.resting⟩
  | cons a older =>
    have hlength : s.entries.length = older.length + 1 := by rw [hs]; rfl
    have hbounded := hr.bounded
    have hcapacity := hr.capacity
    have hcount : h.count ≠ 0 := by rw [hr.count, hlength]; exact Nat.succ_ne_zero _
    have pops : s.rewind = (some a, { s with entries := older, popped := some a }) := by
      simp [UndoStack.rewind, hs]
    have newest : h.ring[h.rewind.2.cursor]? = some (some a) := by
      rw [cursor_rewind hcount]
      exact hr.recent 0 a (by rw [hs]; rfl)
    have handed : h.rewind.1 = h.ring[h.rewind.2.cursor]?.join := by
      simp [History.rewind, hcount]
    have ring : h.rewind.2.ring = h.ring := by simp [History.rewind, hcount]
    rw [pops, handed, newest]
    refine ⟨rfl, (capacity_rewind h).trans hr.capacity, ?_, ?_, ?_, ?_, ?_⟩
    · rw [capacity_rewind, cursor_rewind hcount]
      exact Nat.mod_lt _ (Nat.lt_of_le_of_lt (Nat.zero_le _) hr.cursor)
    · have : h.rewind.2.count = h.count - 1 := by simp [History.rewind, hcount]
      rw [this, hr.count, hlength]
      rfl
    · show older.length ≤ s.capacity
      omega
    · intro i b hb
      have hi : i < older.length := (List.getElem?_eq_some_iff.1 hb).1
      rw [ring, back_rewind hr.cursor hcount (by omega)]
      exact hr.recent (i + 1) b (by rw [hs]; exact hb)
    · intro _
      rw [ring, newest]
      rfl

theorem call (hr : h.Represents s) (c : Recall α) :
    (h.call c).1 = (s.call c).1 ∧ (h.call c).2.Represents (s.call c).2 := by
  cases c with
  | record a => exact ⟨rfl, hr.record a⟩
  | rewind => exact hr.rewind
  | clear => exact ⟨rfl, hr.clear⟩

theorem run (hr : h.Represents s) (calls : List (Recall α)) :
    (h.run calls).1 = (s.run calls).1 ∧ (h.run calls).2.Represents (s.run calls).2 := by
  induction calls generalizing h s with
  | nil => exact ⟨rfl, hr⟩
  | cons c later ih =>
    obtain ⟨answer, hr'⟩ := hr.call c
    obtain ⟨answers, hr''⟩ := ih hr'
    exact ⟨congr (congrArg List.cons answer) answers, hr''⟩

end Represents

/-! ## What a history holds -/

variable {P : α → Prop}

/-- Everything in the ring has a property. -/
def All (P : α → Prop) (h : History α) : Prop := ∀ a, some a ∈ h.ring → P a

theorem all_empty (capacity : Nat) : (empty capacity).All P := by
  intro a ha
  simp [empty] at ha

theorem All.record {h : History α} (hh : h.All P) {a : α} (ha : P a) : (h.record a).All P := by
  intro b hb
  obtain ⟨i, hi, hget⟩ := Array.mem_iff_getElem.1 hb
  simp only [History.record, Array.size_setIfInBounds] at hi hget
  rw [Array.getElem_setIfInBounds hi] at hget
  split at hget
  · cases hget
    exact ha
  · exact hh b (hget ▸ Array.getElem_mem hi)

theorem ring_rewind (h : History α) : h.rewind.2.ring = h.ring := by
  unfold rewind
  split <;> rfl

theorem All.rewind {h : History α} (hh : h.All P) : h.rewind.2.All P := by
  intro a ha
  rw [ring_rewind] at ha
  exact hh a ha

/-- What is handed out comes from the ring. -/
theorem All.handed {h : History α} (hh : h.All P) {a : α} (ha : h.rewind.1 = some a) : P a := by
  have hring : h.rewind.2.ring[h.rewind.2.cursor]?.join = some a := ha
  rw [Option.join_eq_some_iff] at hring
  exact hh.rewind a (Array.mem_of_getElem? hring)

/-! ## Something told of the entries -/

section
variable {β : Type}

/-- Each entry replaced by something told of it, in its place. -/
def map (f : α → β) (h : History α) : History β where
  ring := h.ring.map (Option.map f)
  cursor := h.cursor
  count := h.count
  inSession := h.inSession

theorem map_empty (f : α → β) (capacity : Nat) : (empty capacity).map f = empty capacity := by
  simp [map, empty]

theorem capacity_map (f : α → β) (h : History α) : (h.map f).capacity = h.capacity := by
  simp [capacity, map]

theorem map_clear (f : α → β) (h : History α) : h.clear.map f = (h.map f).clear := by
  rw [clear, clear, map_empty, capacity_map]

theorem map_record (f : α → β) (h : History α) (a : α) :
    (h.record a).map f = (h.map f).record (f a) := by
  have sizes : (h.map f).capacity = h.capacity := capacity_map f h
  simp only [record, sizes]
  simp only [map, Array.map_setIfInBounds, Option.map_some]

/-- Going back never looks at an entry. -/
theorem map_rewind (f : α → β) (h : History α) :
    (h.map f).rewind = (h.rewind.1.map f, h.rewind.2.map f) := by
  have sizes : (h.map f).capacity = h.capacity := capacity_map f h
  have handed (place : Nat) :
      (h.ring.map (Option.map f))[place]?.join = h.ring[place]?.join.map f := by
    rw [Array.getElem?_map]
    cases h.ring[place]? <;> rfl
  unfold rewind
  rw [sizes]
  split
  · next none_left =>
    rw [if_pos (show h.count = 0 from none_left)]
    exact Prod.ext (handed h.cursor) rfl
  · next some_left =>
    rw [if_neg (show ¬h.count = 0 from some_left)]
    exact Prod.ext (handed ((h.cursor + h.capacity - 1) % h.capacity)) rfl

end

/-! ## Sessions -/

theorem inSession_call (h : History α) (c : Recall α) :
    (h.call c).2.inSession = true ↔ c = .rewind := by
  cases c with
  | record a => simp [call, History.record]
  | rewind =>
    show h.rewind.2.inSession = true ↔ _
    unfold History.rewind
    split <;> simp
  | clear => simp [call, History.clear, empty]

end History

namespace Recall

variable {α : Type}

theorem recorded_cons {c : Recall α} {later : List (Recall α)} :
    Recorded (c :: later) ↔ Recorded later ∨ (∃ a, c = record a) ∧ clear ∉ later := by
  constructor
  · rintro ⟨before, a, after, h, hclear⟩
    cases before with
    | nil =>
      obtain ⟨rfl, rfl⟩ := List.cons.inj h
      exact .inr ⟨⟨a, rfl⟩, hclear⟩
    | cons _ before =>
      obtain ⟨-, rfl⟩ := List.cons.inj h
      exact .inl ⟨before, a, after, rfl, hclear⟩
  · rintro (⟨before, a, after, rfl, hclear⟩ | ⟨⟨a, rfl⟩, hclear⟩)
    · exact ⟨c :: before, a, after, rfl, hclear⟩
    · exact ⟨[], a, later, rfl, hclear⟩

theorem rewound_cons {c : Recall α} {later : List (Recall α)} :
    Rewound (c :: later) ↔ Rewound later ∨
      c = rewind ∧ ∀ d ∈ later, d ≠ clear ∧ ∀ a, d ≠ record a := by
  constructor
  · rintro ⟨before, after, h, hafter⟩
    cases before with
    | nil =>
      obtain ⟨rfl, rfl⟩ := List.cons.inj h
      exact .inr ⟨rfl, hafter⟩
    | cons _ before =>
      obtain ⟨-, rfl⟩ := List.cons.inj h
      exact .inl ⟨before, after, rfl, hafter⟩
  · rintro (⟨before, after, rfl, hafter⟩ | ⟨rfl, hafter⟩)
    · exact ⟨c :: before, after, rfl, hafter⟩
    · exact ⟨[], later, rfl, hafter⟩

theorem not_recorded_nil : ¬Recorded ([] : List (Recall α)) := by
  rintro ⟨before, a, after, h, -⟩
  cases before <;> cases h

theorem not_rewound_nil : ¬Rewound ([] : List (Recall α)) := by
  rintro ⟨before, after, h, -⟩
  cases before <;> cases h

end Recall

namespace History

variable {α : Type}

/-- A session lasts as long as there are only rewinds. -/
theorem inSession_run (h : History α) (calls : List (Recall α)) :
    (h.run calls).2.inSession = true ↔ Recall.Rewound calls ∨
      h.inSession = true ∧ ∀ c ∈ calls, c ≠ .clear ∧ ∀ a, c ≠ .record a := by
  induction calls generalizing h with
  | nil => simp [run, Recall.runWith, Recall.not_rewound_nil]
  | cons c later ih =>
    show ((h.call c).2.run later).2.inSession = true ↔ _
    rw [ih, inSession_call, Recall.rewound_cons, List.forall_mem_cons, or_assoc]
    cases c with
    | record | clear => simp
    | rewind =>
      refine or_congr_right ⟨Or.inl, ?_⟩
      rintro (rewinds | ⟨-, -, rewinds⟩) <;> exact ⟨rfl, by simpa using rewinds⟩

end History

namespace UndoStack

variable {α : Type}

theorem capacity_call (s : UndoStack α) (c : Recall α) : (s.call c).2.capacity = s.capacity := by
  cases c with
  | record a => rfl
  | rewind =>
    show s.rewind.2.capacity = s.capacity
    unfold rewind
    split <;> rfl
  | clear => rfl

/-- After a call a rewind has an answer, if it is a recording, or if there was one before and
the call is no clear. -/
theorem rewind_call {s : UndoStack α} (hpos : 0 < s.capacity) (c : Recall α) :
    ((s.call c).2.rewind.1 ≠ none) ↔ (∃ a, c = .record a) ∨ s.rewind.1 ≠ none ∧ c ≠ .clear := by
  cases c with
  | record a =>
    obtain ⟨n, hn⟩ : ∃ n, s.capacity = n + 1 := ⟨s.capacity - 1, by omega⟩
    simp [call, record, rewind, hn]
  | rewind =>
    show s.rewind.2.rewind.1 ≠ none ↔ _
    cases hs : s.entries with
    | nil => simp [rewind, hs]
    | cons a older => cases older <;> simp [rewind, hs]
  | clear => simp [call, clear, empty, rewind]

theorem capacity_run (s : UndoStack α) (calls : List (Recall α)) :
    (s.run calls).2.capacity = s.capacity := by
  induction calls generalizing s with
  | nil => rfl
  | cons c later ih => exact (ih (s.call c).2).trans (capacity_call s c)

theorem rewind_run {s : UndoStack α} (hpos : 0 < s.capacity) (calls : List (Recall α)) :
    ((s.run calls).2.rewind.1 ≠ none) ↔
      Recall.Recorded calls ∨ s.rewind.1 ≠ none ∧ .clear ∉ calls := by
  induction calls generalizing s with
  | nil => simp [run, Recall.runWith, Recall.not_recorded_nil]
  | cons c later ih =>
    show (((s.call c).2.run later).2.rewind.1 ≠ none) ↔ _
    rw [ih (by rw [capacity_call]; exact hpos), rewind_call hpos, Recall.recorded_cons, or_assoc]
    refine or_congr_right ?_
    cases c with
    | record a =>
      constructor
      · rintro ⟨-, uncleared⟩
        exact .inl ⟨⟨a, rfl⟩, uncleared⟩
      · rintro (⟨-, uncleared⟩ | ⟨-, uncleared⟩)
        · exact ⟨.inl ⟨a, rfl⟩, uncleared⟩
        · exact ⟨.inl ⟨a, rfl⟩, fun h => uncleared (List.mem_cons_of_mem _ h)⟩
    | rewind | clear => simp

end UndoStack

namespace History

variable {α : Type}

/-! ## Main statement -/

/-- Whatever is called on an empty history, it answers like a bounded undo stack and counts what is
on it.  It has nothing to hand out only while nothing was recorded since the last clear, and it is
in session from a rewind up to the next recording or clear. -/
theorem run_empty_refines {capacity : Nat} (hpos : 0 < capacity) (calls : List (Recall α)) :
    ∃ answers h s, (empty capacity).run calls = (answers, h) ∧
      (UndoStack.empty capacity).run calls = (answers, s) ∧
      s.entries.length ≤ capacity ∧ h.count = s.entries.length ∧
      h.isEmpty = s.entries.isEmpty ∧ h.rewind.1 = s.rewind.1 ∧
      (h.rewind.1 = none ↔ ¬Recall.Recorded calls) ∧
      (h.inSession = true ↔ Recall.Rewound calls) := by
  obtain ⟨hanswers, hr⟩ := (represents_empty hpos).run calls
  have kept := UndoStack.capacity_run (.empty capacity : UndoStack α) calls
  have handed := UndoStack.rewind_run (s := (.empty capacity : UndoStack α)) hpos calls
  have session := inSession_run (empty capacity : History α) calls
  generalize (empty capacity : History α).run calls = left at *
  generalize (UndoStack.empty capacity : UndoStack α).run calls = right at *
  obtain ⟨answers, h⟩ := left
  obtain ⟨_, s⟩ := right
  cases hanswers
  refine ⟨answers, h, s, rfl, rfl, ?_, hr.count, ?_, hr.rewind.1, ?_, ?_⟩
  · exact Nat.le_trans hr.bounded (Nat.le_of_eq kept)
  · rw [isEmpty, hr.count]
    cases s.entries <;> rfl
  · have recorded : s.rewind.1 ≠ none ↔ Recall.Recorded calls := by
      simpa [UndoStack.rewind, UndoStack.empty] using handed
    rw [hr.rewind.1]
    exact ⟨fun none h => recorded.2 h none, fun h => Classical.byContradiction (h ∘ recorded.1)⟩
  · simpa [empty] using session

/-- Three recordings on a history of two: the first is lost, and the second is handed out for
ever. -/
theorem run_empty_two :
    let calls : List (Recall Nat) :=
      [.record 1, .record 2, .record 3, .rewind, .rewind, .rewind]
    0 < 2 ∧ ((empty 2).run calls).1 = [none, none, none, some 3, some 2, some 2] ∧
      ∃ answers h s, (empty 2).run calls = (answers, h) ∧
        (UndoStack.empty 2).run calls = (answers, s) ∧
        s.entries.length ≤ 2 ∧ h.count = s.entries.length ∧
        h.isEmpty = s.entries.isEmpty ∧ h.rewind.1 = s.rewind.1 ∧
        (h.rewind.1 = none ↔ ¬Recall.Recorded calls) ∧
        (h.inSession = true ↔ Recall.Rewound calls) :=
  ⟨by decide, by decide, run_empty_refines (by decide) _⟩

end History

end Chip8
