import Chip8.Play.Controls

/-!
# The window of a key

A poll that reads a key sets a count, and every poll lowers the counts, so a count tells how long ago
its key was read: `CountsDown` says how, and each poll keeps it.  Over any calls, where `t` is the
number of the poll that comes next,

    a key of the machine is held     ↔  one that stands for it was read at t - 7, …, or t  (held_reads)
    the machine is to go backwards   ↔  Backspace was read at t - 6, …, or t        (isRewinding_reads)

What is held is told from the counts before they are lowered, and whether to go backwards from the
count after it.  So Backspace is let go one poll before a key that was pressed with it.
-/

namespace Chip8

/-- The key of the machine that a key of the keyboard stands for. -/
def Key.hex? : Key → Option (Fin 16)
  | character c => hexKey? c
  | _ => none

/-- The keys of the machine as they lie on the keyboard, a row of it in each line. -/
def hexLayout : List (Char × Fin 16) :=
  [('1', 0x1), ('2', 0x2), ('3', 0x3), ('4', 0xC),
   ('q', 0x4), ('w', 0x5), ('e', 0x6), ('r', 0xD),
   ('a', 0x7), ('s', 0x8), ('d', 0x9), ('f', 0xE),
   ('z', 0xA), ('x', 0x0), ('c', 0xB), ('v', 0xF)]

/-- The keys that give commands. -/
def commandLayout : List (Key × Command) :=
  [(.escape, .quit), (.function 5, .save), (.function 6, .previousSlot), (.function 7, .nextSlot),
   (.function 8, .load)]

theorem Cells.get_map {α β : Type} {n : Nat} (f : α → β) (cells : Cells α n) (place : Fin n) :
    Vector.get (cells.map f) place = f (cells.get place) := by
  show (cells.map f)[place.val] = f cells[place.val]
  rw [Vector.getElem_map]

theorem toLower_toUpper (c : Char) : c.toUpper.toLower = c.toLower := by
  by_cases small : 'a'.val ≤ c.val ∧ c.val ≤ 'z'.val
  · have upper : c.toUpper = _ := dif_pos small
    have raised : c.toUpper.val = c.val + ('A'.val - 'a'.val) := by rw [upper]
    have big : 'A'.val ≤ c.toUpper.val ∧ c.toUpper.val ≤ 'Z'.val := by
      rw [raised]
      simp [UInt32.le_iff_toNat_le] at small ⊢
      omega
    have not_big : ¬('A'.val ≤ c.val ∧ c.val ≤ 'Z'.val) := by
      simp [UInt32.le_iff_toNat_le] at small ⊢
      omega
    have lower : c.toUpper.toLower = _ := dif_pos big
    have same : c.toLower = c := dif_neg not_big
    apply Char.ext
    calc
      c.toUpper.toLower.val = c.toUpper.val + ('a'.val - 'A'.val) := by rw [lower]
      _ = c.val + (('A'.val - 'a'.val) + ('a'.val - 'A'.val)) := by rw [raised, UInt32.add_assoc]
      _ = c.val := UInt32.add_zero _
      _ = c.toLower.val := by rw [same]
  · have same : c.toUpper = c := dif_neg small
    rw [same]

/-- A letter stands for the same key in either case. -/
theorem hexKey?_toUpper (c : Char) : hexKey? c.toUpper = hexKey? c := by
  rw [hexKey?, hexKey?, toLower_toUpper]

/-- Only characters of the layout stand for keys of the machine, and no two keys for one of them. -/
theorem Key.hex?_eq_some_iff {key : Key} {x : Fin 16} :
    key.hex? = some x ↔ ∃ c, key = .character c ∧ (c.toLower, x) ∈ hexLayout := by
  cases key with
  | character c =>
    simp only [Key.hex?, Key.character.injEq, exists_eq_left']
    constructor
    · intro h
      have stands := (List.finIdxOf?_eq_some_iff.1 h).1
      rw [← stands]
      clear stands h
      revert x
      decide
    · intro h
      have all : ∀ p ∈ hexLayout, p.1.toLower = p.1 ∧ hexKey? p.1 = some p.2 := by decide
      obtain ⟨small, stands⟩ := all _ h
      rwa [hexKey?, small] at stands
  | escape | backspace | function number | other => simp [Key.hex?]

theorem Key.command?_eq_some_iff {key : Key} {command : Command} :
    key.command? = some command ↔ (key, command) ∈ commandLayout := by
  constructor
  · intro h
    unfold Key.command? at h
    split at h <;> cases h <;> decide
  · intro h
    have all : ∀ p ∈ commandLayout, p.1.command? = some p.2 := by decide
    exact all _ h

namespace Keyboard

/-! ## Calls -/

inductive Call where
  /-- Keys are typed, and then there is a poll. -/
  | poll (typed : List Key)
  /-- Commands are taken. -/
  | take
  deriving DecidableEq, Repr

/-- What a poll reads. -/
def Call.read? : Call → Option (List Key)
  | poll typed => some typed
  | take => none

/-- What the polls read, one after the other. -/
def reads (calls : List Call) : List (List Key) := calls.filterMap Call.read?

/-- At poll number `u` a key of this sort was read. -/
def ReadAt (reads : List (List Key)) (sort : Key → Prop) (u : Nat) : Prop :=
  ∃ keys, reads[u]? = some keys ∧ ∃ key ∈ keys, sort key

instance (reads : List (List Key)) (sort : Key → Prop) [DecidablePred sort] (u : Nat) :
    Decidable (ReadAt reads sort u) :=
  decidable_of_iff (∃ keys ∈ reads[u]?, ∃ key ∈ keys, sort key) Iff.rfl

def call (k : Keyboard) : Call → Keyboard
  | .poll typed => (k.type typed).poll.2
  | .take => k.takeCommands.2

/-- The keyboard after these calls. -/
def after (k : Keyboard) (calls : List Call) : Keyboard := calls.foldl call k

/-- Whatever is taken in these calls, one after the other. -/
def taken (k : Keyboard) : List Call → List Command
  | [] => []
  | .poll typed :: later => (k.call (.poll typed)).taken later
  | .take :: later => k.takeCommands.1 ++ (k.call .take).taken later

/-! ## Reading -/

section
variable (k : Keyboard)

theorem held_press (key : Key) (x : Fin 16) :
    (k.press key).held.get x = if key.hex? = some x then holdPolls else k.held.get x := by
  cases key with
  | character c =>
    dsimp only [press, Key.hex?]
    split
    · next y hy => simp only [hy, Cells.get_put, Option.some.injEq]
    · next free => simp [free]
  | escape | backspace | function number | other =>
    dsimp only [press]
    simp [Key.hex?]

theorem rewind_press (key : Key) :
    (k.press key).rewind = if key = .backspace then holdPolls else k.rewind := by
  cases key with
  | character c =>
    dsimp only [press]
    cases hexKey? c <;> simp
  | escape | backspace | function number | other =>
    dsimp only [press]
    simp

theorem commands_press (key : Key) :
    (k.press key).commands = k.commands ++ key.command?.toList := by
  cases key with
  | character c =>
    dsimp only [press]
    cases hexKey? c <;> rfl
  | escape | backspace | function number | other => rfl

/-- A key of the right sort sets the count, whatever else is read before and after it. -/
theorem count_foldl_press (count : Keyboard → Nat) {sort : Key → Prop} [DecidablePred sort]
    (hpress : ∀ (k : Keyboard) key, count (k.press key) = if sort key then holdPolls else count k)
    (keys : List Key) :
    count (keys.foldl press k) = if ∃ key ∈ keys, sort key then holdPolls else count k := by
  induction keys generalizing k with
  | nil => simp
  | cons key later ih =>
    rw [List.foldl_cons, ih, hpress]
    by_cases first : sort key <;> simp [first]

theorem held_foldl_press (keys : List Key) (x : Fin 16) :
    (keys.foldl press k).held.get x =
      if ∃ key ∈ keys, key.hex? = some x then holdPolls else k.held.get x :=
  k.count_foldl_press (·.held.get x) (fun k key => k.held_press key x) keys

theorem rewind_foldl_press (keys : List Key) :
    (keys.foldl press k).rewind = if ∃ key ∈ keys, key = .backspace then holdPolls else k.rewind :=
  k.count_foldl_press (·.rewind) rewind_press keys

theorem typed_foldl_press (keys : List Key) : (keys.foldl press k).typed = k.typed := by
  induction keys generalizing k with
  | nil => rfl
  | cons key later ih =>
    rw [List.foldl_cons, ih]
    cases key with
    | character c =>
      dsimp only [press]
      cases hexKey? c <;> rfl
    | escape | backspace | function number | other => rfl

theorem commands_foldl_press (keys : List Key) :
    (keys.foldl press k).commands = k.commands ++ keys.filterMap Key.command? := by
  induction keys generalizing k with
  | nil => simp
  | cons key later ih =>
    rw [List.foldl_cons, ih, commands_press, List.append_assoc]
    cases h : key.command? <;> simp [h]

end

/-! ## Counts -/

section
variable {past : List (List Key)} {sort : Key → Prop}

theorem readAt_append {typed : List Key} {u : Nat} :
    ReadAt (past ++ [typed]) sort u ↔
      ReadAt past sort u ∨ u = past.length ∧ ∃ key ∈ typed, sort key := by
  unfold ReadAt
  rcases Nat.lt_trichotomy u past.length with before | rfl | beyond
  · rw [List.getElem?_append_left before]
    simp [Nat.ne_of_lt before]
  · simp
  · rw [List.getElem?_eq_none (by simp; omega), List.getElem?_eq_none (by omega)]
    simp [Nat.ne_of_gt beyond]

theorem lt_of_readAt {u : Nat} (h : ReadAt past sort u) : u < past.length := by
  obtain ⟨keys, hkeys, -⟩ := h
  exact (List.getElem?_eq_some_iff.1 hkeys).1

/-- After these polls, a count that was set at each that read a key of this sort. -/
def CountsDown (past : List (List Key)) (sort : Key → Prop) (count : Nat) : Prop :=
  ∀ n, n < count ↔ ∃ u, past.length + n < u + holdPolls ∧ ReadAt past sort u

/-- The count of one more poll, before that lowers it. -/
theorem CountsDown.set {count : Nat} [DecidablePred sort] (h : CountsDown past sort count)
    (typed : List Key) (n : Nat) :
    (n < if ∃ key ∈ typed, sort key then holdPolls else count) ↔
      ∃ u, past.length + n < u + holdPolls ∧ ReadAt (past ++ [typed]) sort u := by
  simp only [readAt_append]
  split
  · next now =>
    constructor
    · intro below
      exact ⟨past.length, by omega, .inr ⟨rfl, now⟩⟩
    · rintro ⟨u, recent, before | ⟨rfl, -⟩⟩
      · have := lt_of_readAt before
        omega
      · omega
  · next not_now =>
    rw [h n]
    constructor
    · rintro ⟨u, recent, before⟩
      exact ⟨u, recent, .inl before⟩
    · rintro ⟨u, recent, before | ⟨-, now⟩⟩
      · exact ⟨u, recent, before⟩
      · exact absurd now not_now

/-- A poll sets the count or not, and lowers it. -/
theorem CountsDown.poll {count : Nat} [DecidablePred sort] (h : CountsDown past sort count)
    (typed : List Key) :
    CountsDown (past ++ [typed]) sort
      ((if ∃ key ∈ typed, sort key then holdPolls else count) - 1) := by
  intro n
  have later := h.set typed (n + 1)
  rw [List.length_append, List.length_singleton, Nat.add_assoc, Nat.add_comm 1 n, ← later]
  omega

end

/-! ## What calls leave -/

/-- A keyboard all of whose counts tell of these polls. -/
structure Remembers (past : List (List Key)) (k : Keyboard) : Prop where
  typed : k.typed = []
  held : ∀ x, CountsDown past (·.hex? = some x) (k.held.get x)
  rewind : CountsDown past (· = .backspace) k.rewind

theorem remembers_idle : Remembers [] idle where
  typed := rfl
  held x n := by
    have zero : idle.held.get x = 0 := by
      show (Vector.replicate 16 0)[x.val] = 0
      simp
    simp [zero, ReadAt]
  rewind n := by simp [idle, ReadAt]

section
variable {past : List (List Key)} {k : Keyboard} (h : Remembers past k)
include h

/-- The keyboard of a poll that has read its keys. -/
theorem Remembers.readTyped (typed : List Key) : (k.type typed).readTyped = typed.foldl press k := by
  have unread : k = { k with typed := [] } := by rw [← h.typed]
  unfold Keyboard.readTyped type
  rw [h.typed, List.nil_append, ← unread]

theorem Remembers.held_poll (typed : List Key) (x : Fin 16) :
    (k.type typed).poll.1.get x = true ↔
      ∃ u, past.length < u + holdPolls ∧ ReadAt (past ++ [typed]) (·.hex? = some x) u := by
  have held := (h.held x).set typed 0
  rw [← k.held_foldl_press, ← h.readTyped] at held
  rw [Keyboard.poll, Cells.get_map, decide_eq_true_eq]
  exact held

theorem Remembers.poll (typed : List Key) : Remembers (past ++ [typed]) (k.type typed).poll.2 where
  typed := by
    show (k.type typed).readTyped.typed = []
    rw [h.readTyped, typed_foldl_press, h.typed]
  held x := by
    have lowered := (h.held x).poll typed
    rw [← k.held_foldl_press, ← h.readTyped] at lowered
    rw [Keyboard.poll, Cells.get_map]
    exact lowered
  rewind := by
    have lowered := h.rewind.poll typed
    rw [← k.rewind_foldl_press, ← h.readTyped] at lowered
    exact lowered

theorem Remembers.call (c : Call) : Remembers (past ++ reads [c]) (k.call c) := by
  cases c with
  | poll typed => exact h.poll typed
  | take =>
    have none_read : past ++ reads [Call.take] = past := List.append_nil past
    rw [none_read]
    exact ⟨h.typed, h.held, h.rewind⟩

theorem Remembers.after (calls : List Call) : Remembers (past ++ reads calls) (k.after calls) := by
  induction calls generalizing past k with
  | nil =>
    have none_read : past ++ reads [] = past := List.append_nil past
    rw [none_read]
    exact h
  | cons c later ih =>
    have first : reads ([c] ++ later) = reads [c] ++ reads later := List.filterMap_append
    rw [List.singleton_append] at first
    rw [first, ← List.append_assoc]
    exact ih (h.call c)

/-- What was taken and what is still there is what was there and what was read. -/
theorem Remembers.taken (calls : List Call) :
    k.taken calls ++ (k.after calls).commands =
      k.commands ++ (reads calls).flatten.filterMap Key.command? := by
  induction calls generalizing past k with
  | nil => simp [Keyboard.taken, Keyboard.after, reads]
  | cons c later ih =>
    have rest := ih (h.call c)
    cases c with
    | poll typed =>
      have read : (k.call (.poll typed)).commands = k.commands ++ typed.filterMap Key.command? := by
        show (k.type typed).readTyped.commands = _
        rw [h.readTyped, commands_foldl_press]
      rw [read, List.append_assoc, ← List.filterMap_append] at rest
      exact rest
    | take =>
      show k.commands ++ (k.call .take).taken later ++ ((k.call .take).after later).commands = _
      rw [List.append_assoc, rest]
      rfl

end

theorem remembers_after (calls : List Call) : Remembers (reads calls) (idle.after calls) :=
  remembers_idle.after calls

theorem reads_poll (calls : List Call) (typed : List Key) :
    reads (calls ++ [.poll typed]) = reads calls ++ [typed] :=
  List.filterMap_append

/-- A window of polls ends with the last of them. -/
theorem exists_upTo_iff {past : List (List Key)} {sort : Key → Prop} {typed : List Key}
    {inside : Nat → Prop} :
    (∃ u, u ≤ past.length ∧ inside u ∧ ReadAt (past ++ [typed]) sort u) ↔
      ∃ u, inside u ∧ ReadAt (past ++ [typed]) sort u := by
  constructor
  · rintro ⟨u, -, found⟩
    exact ⟨u, found⟩
  · rintro ⟨u, hu, found⟩
    have within := lt_of_readAt found
    rw [List.length_append, List.length_singleton] at within
    exact ⟨u, Nat.le_of_lt_succ within, hu, found⟩

/-! ## What is held -/

/-- At each poll just those keys of the machine are held that were read at it or at one of the seven
polls before.  So nothing else that is read matters, and of the keys of one poll neither their order
nor how often they come.  Commands are taken in the order in which they were read; none is lost, and
none is taken twice.  Which key stands for what is told by the two layouts. -/
theorem held_reads (calls : List Call) :
    let k := idle.after calls
    let t := (reads calls).length
    (∀ typed x, (k.type typed).poll.1.get x = true ↔
      ∃ u, u ≤ t ∧ t < u + 8 ∧
        ReadAt (reads (calls ++ [.poll typed])) (·.hex? = some x) u) ∧
    (∀ others typed typed' x, (reads others).length = t →
      (∀ u, ReadAt (reads (calls ++ [.poll typed])) (·.hex? = some x) u ↔
        ReadAt (reads (others ++ [.poll typed'])) (·.hex? = some x) u) →
      (k.type typed).poll.1.get x = ((idle.after others).type typed').poll.1.get x) ∧
    (∀ c, hexKey? c.toUpper = hexKey? c) ∧
    (∀ (key : Key) x,
      key.hex? = some x ↔ ∃ c, key = .character c ∧ (c.toLower, x) ∈ hexLayout) ∧
    idle.taken calls ++ k.commands = (reads calls).flatten.filterMap Key.command? ∧
    idle.taken (calls ++ [.take]) = (reads calls).flatten.filterMap Key.command? ∧
    ∀ (key : Key) command, key.command? = some command ↔ (key, command) ∈ commandLayout := by
  intro k t
  have known : Remembers (reads calls) k := remembers_after calls
  refine ⟨fun typed x => ?_, fun others typed typed' x as_many alike => ?_, hexKey?_toUpper,
    fun _ _ => Key.hex?_eq_some_iff, ?_, ?_, fun _ _ => Key.command?_eq_some_iff⟩
  · rw [reads_poll, exists_upTo_iff]
    exact known.held_poll typed x
  · rw [Bool.eq_iff_iff, known.held_poll, (remembers_after others).held_poll, as_many,
      ← reads_poll, ← reads_poll]
    simp only [alike, t]
  · exact remembers_idle.taken calls
  · have all := remembers_idle.taken (calls ++ [.take])
    have none_left : (idle.after (calls ++ [.take])).commands = [] := by
      rw [Keyboard.after, List.foldl_append]
      rfl
    have same_reads : reads (calls ++ [.take]) = reads calls := by simp [reads, Call.read?]
    rw [none_left, List.append_nil, same_reads] at all
    exact all

/-- X is read at poll 0, with Q at poll 3, and once more at poll 5.  At poll 11 it is still held for the
last of these, and Q no longer is. -/
theorem held_reads_overlapping :
    let calls := [.poll [.character 'x'], .poll [], .poll [.function 5],
      .poll [.character 'q', .character 'x'], .take, .poll [.escape], .poll [.character 'X']] ++
        List.replicate 5 (.poll [])
    let keypad := ((idle.after calls).type []).poll.1
    (reads calls).length = 11 ∧ keypad.get (0x0 : Fin 16) = true ∧
      keypad.get (0x4 : Fin 16) = false ∧
      idle.taken (calls ++ [.take]) = [.save, .quit] := by
  intro calls keypad
  obtain ⟨held, -, -, -, -, taken, -⟩ := held_reads calls
  refine ⟨by decide, (held [] 0x0).2 (by decide), ?_, taken.trans (by decide)⟩
  exact Bool.eq_false_iff.2 fun still => absurd ((held [] 0x4).1 still) (by decide)

/-! ## Going backwards -/

/-- A key of this sort was read at the first poll of the window that ends with poll `t`, and not
since. -/
def ReadFirst (past : List (List Key)) (sort : Key → Prop) (t : Nat) : Prop :=
  ∃ u, t + 1 = u + holdPolls ∧ ReadAt past sort u ∧ ∀ v, u < v → ¬ReadAt past sort v

/-- A window and one that begins a poll later differ by that poll. -/
theorem later_window_iff {past : List (List Key)} {sort : Key → Prop} {t : Nat} :
    ((∃ u, t + 1 < u + holdPolls ∧ ReadAt past sort u) ↔
      ∃ u, t < u + holdPolls ∧ ReadAt past sort u) ↔ ¬ReadFirst past sort t := by
  constructor
  · rintro same ⟨u, first, found, not_since⟩
    obtain ⟨v, later, found'⟩ := same.2 ⟨u, by omega, found⟩
    exact not_since v (by omega) found'
  · intro not_first
    constructor
    · rintro ⟨u, later, found⟩
      exact ⟨u, by omega, found⟩
    · rintro ⟨u, inside, found⟩
      by_cases later : t + 1 < u + holdPolls
      · exact ⟨u, later, found⟩
      · -- The key was read at the first poll of the window, so it was read again.
        refine Classical.byContradiction fun none_later => not_first ⟨u, by omega, found, ?_⟩
        exact fun v after found' => none_later ⟨v, by omega, found'⟩

/-- The machine goes backwards just if Backspace was read at a poll or at one of the six polls before
it.  That is what is said of a window of eight polls, and what is so of a key of the machine that is
pressed whenever Backspace is, unless Backspace was read at the first of the eight polls and not
since. -/
theorem isRewinding_reads (calls : List Call) (typed : List Key) :
    let p := ((idle.after calls).type typed).poll
    let t := (reads calls).length
    let past := reads (calls ++ [.poll typed])
    (p.2.isRewinding = true ↔
      ∃ u, u ≤ t ∧ t + 1 < u + holdPolls ∧ ReadAt past (· = .backspace) u) ∧
    ((p.2.isRewinding = true ↔ ∃ u, u ≤ t ∧ t < u + holdPolls ∧ ReadAt past (· = .backspace) u) ↔
      ¬ReadFirst past (· = .backspace) t) ∧
    ∀ x, (∀ u, ReadAt past (·.hex? = some x) u ↔ ReadAt past (· = .backspace) u) →
      (p.1.get x = p.2.isRewinding ↔ ¬ReadFirst past (· = .backspace) t) := by
  intro p t past
  have known := remembers_after calls
  have hpast : past = reads calls ++ [typed] := reads_poll calls typed
  have backwards : p.2.isRewinding = true ↔
      ∃ u, t + 1 < u + holdPolls ∧ ReadAt past (· = .backspace) u := by
    have count := (known.poll typed).rewind 0
    rw [List.length_append, List.length_singleton, Nat.add_zero, ← hpast] at count
    rw [isRewinding, decide_eq_true_eq]
    exact count
  refine ⟨?_, ?_, fun x together => ?_⟩
  · rw [backwards, hpast, exists_upTo_iff]
  · rw [backwards, ← later_window_iff, hpast, exists_upTo_iff]
  · rw [Bool.eq_iff_iff, backwards, ← later_window_iff, known.held_poll, ← hpast]
    simp only [together]
    exact Iff.comm

/-- A key of the machine and Backspace are pressed together, and neither of them again: seven polls
later the key is still held, and the machine no longer goes backwards. -/
theorem isRewinding_lets_go :
    let calls := Call.poll [.character 'x', .backspace] :: List.replicate 6 (.poll [])
    let p := ((idle.after calls).type []).poll
    (reads calls).length = 7 ∧ p.1.get (0 : Fin 16) = true ∧ p.2.isRewinding = false ∧
      ¬(p.2.isRewinding = true ↔ ∃ u, u ≤ 7 ∧ 7 < u + holdPolls ∧
        ReadAt (reads (calls ++ [.poll []])) (· = .backspace) u) := by
  intro calls p
  have let_go : p.2.isRewinding = false := by decide
  refine ⟨by decide, ?_, let_go, fun window => ?_⟩
  · have held := (remembers_after calls).held_poll [] 0
    exact held.2 ⟨0, by decide, _, rfl, .character 'x', List.mem_cons_self, by decide⟩
  · rw [let_go] at window
    cases window.2 ⟨0, by decide, by decide, _, rfl, .backspace, by decide, rfl⟩

end Keyboard

end Chip8
