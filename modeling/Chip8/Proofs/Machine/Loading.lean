import Chip8.Proofs.Machine.Memory

/-!
# Loading in place

A program is put into memory byte by byte, so a load that stopped half way would leave a piece of it
behind.  `loadInPlace` has the memory beside what came of the load, and it looks at the length
before it puts the first byte.  So a load that fails has changed nothing, and one that goes through
has changed the places of the program and no other:

    m.load program = some (.ok m') → m.fill? programStart program = some m'          (fill?_of_load)
    m.loadInPlace program = some (outcome, after) →
      before ++ pieces.flatten = program →
        m.collectInPlace before pieces = some (outcome.map fun _ => program.length, after)
                                                               (collectInPlace_of_loadInPlace)

`load_exact` has it for every program, in one piece or in many.
-/

namespace Chip8.Memory

/-- Bytes put at successive places from one on: `none` past the end. -/
def fill? (m : Memory) (place : Nat) : List UInt8 → Option Memory
  | [] => some m
  | byte :: later =>
    if h : place < m.bytes.size then fill? ⟨m.bytes.set place byte h⟩ (place + 1) later else none

/-- A load of a memory that is changed in place: what came of it, and the memory afterwards. -/
def loadInPlace (m : Memory) (program : List UInt8) : Option (Except LoadError Unit × Memory) :=
  if maxProgram < program.length then some (.error (.oversize program.length), m)
  else (m.fill? programStart program).map (.ok (), ·)

/-- The same of a program that comes in pieces: they are collected after the ones that have come, and
memory waits for the last of them. -/
def collectInPlace (m : Memory) (before : List UInt8) :
    List (List UInt8) → Option (Except LoadError Nat × Memory)
  | [] => (m.loadInPlace before).map fun (outcome, after) =>
    (outcome.map fun _ => before.length, after)
  | piece :: later => m.collectInPlace (before ++ piece) later

/-! ## Byte by byte -/

theorem exists_fill? {m : Memory} {place : Nat} {bytes : List UInt8}
    (room : place + bytes.length ≤ m.bytes.size) : ∃ m', m.fill? place bytes = some m' := by
  induction bytes generalizing m place with
  | nil => exact ⟨m, rfl⟩
  | cons byte later ih =>
    rw [List.length_cons] at room
    rw [fill?, dif_pos (by omega)]
    exact ih (by rw [Array.size_set]; omega)

/-- By induction on the bytes, from any place on: each is put at its own place, and the later ones
come after it. -/
theorem getElem?_fill? {m m' : Memory} {place : Nat} {bytes : List UInt8}
    (h : m.fill? place bytes = some m') (i : Nat) :
    m'.bytes[i]? =
      if place ≤ i ∧ i < place + bytes.length then bytes[i - place]? else m.bytes[i]? := by
  induction bytes generalizing m place with
  | nil =>
    cases h
    rw [List.length_nil, if_neg (by omega)]
  | cons byte later ih =>
    rw [fill?] at h
    split at h
    · next inside =>
      rw [ih h, List.length_cons]
      by_cases first : i = place
      · subst first
        rw [if_neg (by omega), if_pos (by omega), Nat.sub_self]
        exact Array.getElem?_set_self inside
      by_cases after : place < i ∧ i < place + (later.length + 1)
      · have step : i - place = i - (place + 1) + 1 := by omega
        rw [if_pos (by omega), if_pos (by omega), step, List.getElem?_cons_succ]
      · rw [if_neg (by omega), if_neg (by omega)]
        exact Array.getElem?_set_ne inside (Ne.symm first)
    · cases h

/-- A program that fits is loaded as if byte by byte. -/
theorem fill?_of_load {m m' : Memory} {program : List UInt8}
    (h : m.load program = some (.ok m')) : m.fill? programStart program = some m' := by
  obtain ⟨filled, hfill⟩ := exists_fill? (load_eq_ok_iff.1 h).2.1
  have same : filled.bytes = m'.bytes := Array.ext_getElem? fun i => by
    rw [getElem?_fill? hfill, getElem?_load h]
  rw [hfill, show filled = m' from congrArg Memory.mk same]

theorem loadInPlace_of_load {m m' : Memory} {program : List UInt8}
    (h : m.load program = some (.ok m')) : m.loadInPlace program = some (.ok (), m') := by
  rw [loadInPlace, if_neg (Nat.not_lt.2 (load_eq_ok_iff.1 h).1), fill?_of_load h, Option.map_some]

/-- By induction on the pieces, after any that have come: only the whole of them counts. -/
theorem collectInPlace_of_loadInPlace {m after : Memory} {program before : List UInt8}
    {outcome : Except LoadError Unit} (h : m.loadInPlace program = some (outcome, after))
    {pieces : List (List UInt8)} (whole : before ++ pieces.flatten = program) :
    m.collectInPlace before pieces = some (outcome.map fun _ => program.length, after) := by
  induction pieces generalizing before with
  | nil =>
    rw [List.flatten_nil, List.append_nil] at whole
    rw [collectInPlace, whole, h, Option.map_some]
  | cons piece later ih =>
    rw [List.flatten_cons, ← List.append_assoc] at whole
    exact ih whole

theorem loadPieces_of_load {m : Memory} {program : List UInt8} {loaded : Except LoadError Memory}
    (h : m.load program = some loaded) {pieces : List (List UInt8)}
    (whole : pieces.flatten = program) :
    m.loadPieces pieces = some (loaded.map (program.length, ·)) := by
  rw [loadPieces, whole, h, Option.map_some]

/-! ## Main statement -/

/-- A load into a memory with all its bytes goes through just if the program has at most 3584 bytes.
Then they stand in their order from 0x200 on, every other byte is as it was, and two that follow each
other are read as a word with the first of them high.  Otherwise memory is as it was.  A program that
comes in pieces has the same outcome and leaves the same memory. -/
theorem load_exact {m : Memory} (full : m.bytes.size = size) (program : List UInt8) :
    ∃ outcome after, m.loadInPlace program = some (outcome, after) ∧
      m.load program = some (outcome.map fun _ => after) ∧
      (outcome = .ok () ↔ program.length ≤ 3584) ∧
      (outcome = .ok () →
        (∀ k, k < program.length → after.bytes[0x200 + k]? = program[k]?) ∧
        (∀ place, place < 0x200 ∨ 0x200 + program.length ≤ place →
          after.bytes[place]? = m.bytes[place]?) ∧
        ∀ k high low, program[k]? = some high → program[k + 1]? = some low →
          ∃ word, after.word? (UInt16.ofNat (0x200 + k)) = some word ∧
            word.toNat = high.toNat * 0x100 + low.toNat) ∧
      (outcome ≠ .ok () → outcome = .error (.oversize program.length) ∧ after = m) ∧
      ∀ pieces, pieces.flatten = program →
        m.collectInPlace [] pieces = some (outcome.map fun _ => program.length, after) ∧
        m.loadPieces pieces = some (outcome.map fun _ => (program.length, after)) := by
  rcases Nat.lt_or_ge maxProgram program.length with big | fits
  · have hload : m.load program = some (.error (.oversize program.length)) := if_pos big
    have hplace : m.loadInPlace program = some (.error (.oversize program.length), m) := if_pos big
    refine ⟨.error (.oversize program.length), m, hplace, hload, ?_, ?_, fun _ => ⟨rfl, rfl⟩,
      fun pieces whole =>
        ⟨collectInPlace_of_loadInPlace hplace whole, loadPieces_of_load hload whole⟩⟩
    · exact ⟨nofun, fun fits => absurd fits (Nat.not_le.2 big)⟩
    · exact nofun
  · obtain ⟨after, hload⟩ := load_of_fits (Nat.le_of_eq full.symm) fits
    have hplace := loadInPlace_of_load hload
    refine ⟨.ok (), after, hplace, hload, ⟨fun _ => fits, fun _ => rfl⟩,
      fun _ => ⟨fun k hk => ?_, fun place outside => ?_, fun k high low hhigh hlow => ?_⟩,
      fun h => absurd rfl h, fun pieces whole =>
        ⟨collectInPlace_of_loadInPlace hplace whole, loadPieces_of_load hload whole⟩⟩
    · rw [getElem?_load hload, if_pos (by unfold programStart; omega)]
      exact congrArg (program[·]?) (Nat.add_sub_cancel_left ..)
    · rw [getElem?_load hload, if_neg (by unfold programStart; omega)]
    · exact ⟨_, word?_load_at hload hhigh hlow, toNat_word high low⟩

/-- The longest program fills memory to the end, and one byte more leaves it blank. -/
theorem load_exact_longest :
    blank.bytes.size = size ∧
      (∃ after, blank.loadInPlace (List.replicate 3584 0xAA) = some (.ok (), after) ∧
        after.bytes[0xFFF]? = some 0xAA ∧ after.bytes[0x1FF]? = blank.bytes[0x1FF]? ∧
        ∃ word, after.word? (UInt16.ofNat 0xFFE) = some word ∧ word.toNat = 0xAAAA) ∧
      blank.loadInPlace (List.replicate 3585 0xAA) = some (.error (.oversize 3585), blank) ∧
      blank.collectInPlace [] [List.replicate 3584 0xAA, [0xAA]] =
        some (.error (.oversize 3585), blank) := by
  refine ⟨size_blank, ?_, ?_⟩
  · obtain ⟨outcome, after, hplace, -, hfits, hloaded, -, -⟩ :=
      load_exact size_blank (List.replicate 3584 0xAA)
    obtain rfl := hfits.2 (Nat.le_of_eq List.length_replicate)
    obtain ⟨bytes, rest, words⟩ := hloaded rfl
    have byte (k : Nat) (hk : k < 3584) : (List.replicate 3584 (0xAA : UInt8))[k]? = some 0xAA := by
      rw [List.getElem?_replicate, if_pos hk]
    refine ⟨after, hplace, (bytes 3583 ?_).trans (byte _ (by decide)), rest _ (.inl (by decide)),
      words 3582 _ _ (byte _ (by decide)) (byte _ (by decide))⟩
    rw [List.length_replicate]
    decide
  · obtain ⟨outcome, after, hplace, -, hfits, -, hrefused, hpieces⟩ :=
      load_exact size_blank (List.replicate 3585 0xAA)
    have length : (List.replicate 3585 (0xAA : UInt8)).length = 3585 := List.length_replicate
    obtain ⟨rfl, rfl⟩ := hrefused fun h => by
      have := hfits.1 h
      omega
    rw [length] at hplace hpieces
    have whole : [List.replicate 3584 (0xAA : UInt8), [0xAA]].flatten = List.replicate 3585 0xAA :=
      (List.replicate_succ' (n := 3584)).symm
    exact ⟨hplace, (hpieces _ whole).1⟩

end Chip8.Memory
