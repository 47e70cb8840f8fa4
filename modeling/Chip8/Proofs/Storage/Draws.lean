import Chip8.Proofs.Storage.Desk

/-!
# Random numbers over a machine's life

A random number depends on two things only: the seed, and how many numbers were drawn before it.
`Draws` is the two of them.  A tally is kept beside a desk: a cycle that draws counts one on, a
snapshot, a save and a text are noted with what their machine had drawn, and a machine that is put
back goes on from what was noted of it.  Whatever is done, the generator of the machine on the desk
is where the tally says (`Desk.Fits`), and the next number is read off it:

    m'.registers.get x = n.word.toUInt8 &&& mask                                      (run_draws)
-/

namespace Chip8

/-! ## Counted numbers -/

/-- How many numbers were drawn from the stream of a seed. -/
structure Draws where
  seed : UInt64
  count : Nat
  deriving DecidableEq, Repr

namespace Draws

def next (n : Draws) : Draws := { n with count := n.count + 1 }

/-- The word to be drawn next: blocks of sixteen words one after the other, and after the last of
the 2^64 blocks the first again. -/
def word (n : Draws) : UInt32 :=
  (ChaCha.block (Random.keyOf n.seed) 0 (UInt64.ofNat (n.count / 16))).getD (n.count % 16) 0

/-- The generator after so many numbers. -/
def random (n : Draws) : Random := ⟨Random.keyOf n.seed, 0, BitVec.ofNat 68 n.count⟩

theorem toNat_position (n : Draws) : n.random.position.toNat = n.count % 0x100000000000000000 :=
  BitVec.toNat_ofNat n.count 68

theorem ofSeed_eq (seed : UInt64) : Random.ofSeed seed = (Draws.mk seed 0).random := rfl

/-- Positions and block numbers start over together. -/
theorem byte_random (n : Draws) : n.random.byte = (n.word.toUInt8, n.next.random) := by
  have block : UInt64.ofNat (n.random.position.toNat / 16) = UInt64.ofNat (n.count / 16) := by
    apply UInt64.toNat_inj.1
    rw [toNat_position, UInt64.toNat_ofNat', UInt64.toNat_ofNat']
    omega
  have place : n.random.position.toNat % 16 = n.count % 16 := by
    rw [toNat_position]
    omega
  have word : Random.wordAt n.random.seed n.random.stream n.random.position = n.word := by
    rw [Random.wordAt, block, place]
    rfl
  have next : n.random.position + 1 = n.next.random.position :=
    (BitVec.ofNat_add n.count 1).symm
  rw [Random.byte, word, next]
  rfl

end Draws

/-! ## What a cycle draws -/

namespace Machine

/-- The next cycle draws a number. -/
def draws (m : Machine) : Bool :=
  match m.next? with
  | some (.random ..) => true
  | _ => false

theorem draws_of_next? {m : Machine} {x : Register} {mask : UInt8}
    (hi : m.next? = some (.random x mask)) : m.draws = true := by
  simp only [draws, hi]

/-- There is always a number to draw. -/
theorem cycle_random {m : Machine} {x : Register} {mask : UInt8}
    (hi : m.next? = some (.random x mask)) :
    ∃ m', m.cycle = some (.ok .executed, m') ∧ m'.random = m.random.byte.2 ∧
      m'.registers.get x = m.random.byte.1 &&& mask := by
  obtain ⟨opcode, hcycle⟩ := cycle_of_next? hi
  rw [execute_random] at hcycle
  refine ⟨_, hcycle, rfl, ?_⟩
  exact (Cells.get_put _ _ _ _).trans (if_pos rfl)

/-- Nothing else uses the generator. -/
theorem random_cycle_other {m m' : Machine} {outcome : Except Fault Progress}
    (other : ∀ x mask, m.next? ≠ some (.random x mask)) (h : m.cycle = some (outcome, m')) :
    m'.random = m.random := by
  cases outcome with
  | error fault =>
    obtain ⟨opcode, rfl⟩ := eq_of_cycle_error h
    rfl
  | ok progress =>
    obtain ⟨i, hi⟩ := exists_next?_of_ok h
    obtain ⟨opcode, hcycle⟩ := cycle_of_next? hi
    have foot := footprint_execute (hcycle.symm.trans h)
    refine foot.parts .random fun draws => ?_
    cases i
    case random x mask => exact other x mask hi
    all_goals cases draws

/-- A cycle that draws moves the generator on by one number, and no other cycle moves it. -/
theorem random_cycle {m m' : Machine} {outcome : Except Fault Progress} {n : Draws}
    (counted : m.random = n.random) (h : m.cycle = some (outcome, m')) :
    m'.random = (if m.draws then n.next else n).random := by
  by_cases drawing : ∃ x mask, m.next? = some (.random x mask)
  · obtain ⟨x, mask, hi⟩ := drawing
    obtain ⟨_, hcycle, random, -⟩ := cycle_random hi
    obtain ⟨rfl, rfl⟩ := Prod.mk.inj (Option.some.inj (hcycle.symm.trans h))
    rw [if_pos (draws_of_next? hi), random, counted, Draws.byte_random]
  · have other : ∀ x mask, m.next? ≠ some (.random x mask) :=
      fun x mask hi => drawing ⟨x, mask, hi⟩
    have idle : ¬m.draws = true := by
      unfold draws
      split
      · next hi => exact absurd hi (other _ _)
      · exact Bool.false_ne_true
    rw [if_neg idle, random_cycle_other other h, counted]

theorem random_load {m m' : Machine} {program : List UInt8}
    (h : m.load program = some (.ok m')) : m'.random = m.random := by
  obtain ⟨loaded, -, hloaded⟩ := Option.map_eq_some_iff.1 h
  cases loaded with
  | error problem => cases hloaded
  | ok memory =>
    cases hloaded
    rfl

end Machine

/-! ## The tally of a bench -/

namespace Bench

/-- What the machine, the snapshots and the recordings of a bench had drawn when they were taken. -/
structure Tally where
  machine : Draws
  snapshots : List Draws
  history : History Draws
  deriving DecidableEq, Repr

namespace Tally

def fresh (seed : UInt64) (capacity : Nat) : Tally := ⟨⟨seed, 0⟩, [], .empty capacity⟩

/-- A snapshot has drawn what its machine had, and a machine put back goes on from there. -/
def act (t : Tally) (b : Bench) : Act → Tally
  | .cycle => { t with machine := if b.machine.draws then t.machine.next else t.machine }
  | .reset _ seed => { t with machine := ⟨seed, 0⟩ }
  | .capture => { t with snapshots := t.machine :: t.snapshots }
  | .restore place => { t with machine := t.snapshots[place]?.getD t.machine }
  | .record place =>
    { t with history := (t.snapshots[place]?).elim t.history t.history.record }
  | .rewind =>
    { t with machine := t.history.rewind.1.getD t.machine, history := t.history.rewind.2 }
  | .clearHistory => { t with history := t.history.clear }
  | .load _ | .tickTimers _ | .setKeypad _ | .markShown | .markStale => t

end Tally

/-- There is a machine where there is something noted, and it has the generator of that. -/
theorem none_or_some_of_same {machine? : Option Machine} {n? : Option Draws}
    (same : machine?.map (·.random) = n?.map (·.random)) :
    machine? = none ∧ n? = none ∨
      ∃ m n, machine? = some m ∧ n? = some n ∧ m.random = n.random := by
  cases machine? with
  | none =>
    cases n? with
    | none => exact .inl ⟨rfl, rfl⟩
    | some n => cases same
  | some m =>
    cases n? with
    | none => cases same
    | some n => exact .inr ⟨m, n, rfl, rfl, Option.some.inj same⟩

/-- Every generator on the bench is where the tally says. -/
structure Fits (t : Tally) (b : Bench) : Prop where
  machine : b.machine.random = t.machine.random
  snapshots : b.snapshots.map (·.random) = t.snapshots.map (·.random)
  history : b.history.map (·.random) = t.history.map (·.random)

namespace Fits

variable {t : Tally} {b b' : Bench}

theorem fresh (mode : Mode) (seed : UInt64) (capacity : Nat) :
    Fits (.fresh seed capacity) (.fresh mode seed capacity) where
  machine := Draws.ofSeed_eq seed
  snapshots := rfl
  history := (History.map_empty _ capacity).trans (History.map_empty _ capacity).symm

/-- A snapshot and what was noted of it have the same place. -/
theorem snapshot (h : Fits t b) (place : Nat) :
    b.snapshots[place]?.map (·.random) = t.snapshots[place]?.map (·.random) := by
  rw [← List.getElem?_map, ← List.getElem?_map, h.snapshots]

theorem putBack (h : Fits t b) {machine? : Option Machine} {n? : Option Draws}
    (same : machine?.map (·.random) = n?.map (·.random)) :
    (machine?.getD b.machine).random = (n?.getD t.machine).random := by
  rcases none_or_some_of_same same with ⟨rfl, rfl⟩ | ⟨m, n, rfl, rfl, random⟩
  · exact h.machine
  · exact random

theorem record (h : Fits t b) {machine? : Option Machine} {n? : Option Draws}
    (same : machine?.map (·.random) = n?.map (·.random)) :
    (machine?.elim b.history b.history.record).map (·.random) =
      (n?.elim t.history t.history.record).map (·.random) := by
  rcases none_or_some_of_same same with ⟨rfl, rfl⟩ | ⟨m, n, rfl, rfl, random⟩
  · exact h.history
  · rw [Option.elim_some, Option.elim_some, History.map_record, History.map_record, h.history]
    exact congrArg _ random

/-- One case for each thing done; a cycle is the only one that may draw. -/
theorem act (h : Fits t b) {a : Act} (hact : b.act a = some b') : Fits (t.act b a) b' := by
  cases a with
  | load program =>
    simp only [Bench.act, Option.bind_eq_bind, Option.bind_eq_some_iff] at hact
    obtain ⟨loaded, hload, hact⟩ := hact
    cases loaded with
    | error problem =>
      cases hact
      exact h
    | ok machine =>
      cases hact
      exact ⟨(Machine.random_load hload).trans h.machine, h.snapshots, h.history⟩
  | cycle =>
    simp only [Bench.act, Option.bind_eq_bind, Option.bind_eq_some_iff, Prod.exists] at hact
    obtain ⟨outcome, machine, hcycle, hact⟩ := hact
    cases hact
    exact ⟨Machine.random_cycle h.machine hcycle, h.snapshots, h.history⟩
  | reset mode seed =>
    obtain rfl := Option.some.inj hact
    exact ⟨Draws.ofSeed_eq seed, h.snapshots, h.history⟩
  | capture =>
    cases hact
    exact ⟨h.machine, congr (congrArg List.cons h.machine) h.snapshots, h.history⟩
  | restore place =>
    cases hact
    exact ⟨h.putBack (h.snapshot place), h.snapshots, h.history⟩
  | record place =>
    cases hact
    exact ⟨h.machine, h.snapshots, h.record (h.snapshot place)⟩
  | rewind =>
    cases hact
    have same := congrArg History.rewind h.history
    rw [History.map_rewind, History.map_rewind] at same
    obtain ⟨handed, history⟩ := Prod.mk.inj same
    exact ⟨h.putBack handed, h.snapshots, history⟩
  | clearHistory =>
    cases hact
    refine ⟨h.machine, h.snapshots, ?_⟩
    show History.map _ b.history.clear = History.map _ t.history.clear
    rw [History.map_clear, History.map_clear, h.history]
  | tickTimers _ | setKeypad _ | markShown | markStale =>
    cases hact
    exact ⟨h.machine, h.snapshots, h.history⟩

end Fits

end Bench

/-! ## The tally of a desk -/

namespace Desk

/-- What was drawn on the bench, and all machines that were saved or written, the last one first,
each with what it had drawn by then.  A machine kept twice has one generator, so its notes agree. -/
structure Tally where
  bench : Bench.Tally
  kept : List (Machine × Draws)
  deriving DecidableEq, Repr

namespace Tally

/-- The tally of a new machine, and of the machines that the disk may bring. -/
def fresh (seed : UInt64) (capacity : Nat) (kept : List (Machine × Draws)) : Tally :=
  ⟨.fresh seed capacity, kept⟩

/-- A machine that was found goes on from what it had drawn when it was kept. -/
def putBack (t : Tally) : Except Failure Machine → Tally
  | .ok m =>
    { t with bench := { t.bench with machine := (t.kept.lookup m).getD t.bench.machine } }
  | .error _ => t

def act (t : Tally) (d : Desk) : DeskAct → Tally
  | .bench a => { t with bench := t.bench.act d.bench a }
  | .save _ _ | .write _ => { t with kept := (d.machine, t.bench.machine) :: t.kept }
  | .load store slot => t.putBack (store.load d.disk slot)
  | .read place =>
    match d.texts[place]? with
    | some text => t.putBack ((SaveFile.read text).map (·.machine))
    | none => t

/-- The tally after all is done, as far as it has an outcome. -/
def run (t : Tally) (d : Desk) : List DeskAct → Tally
  | [] => t
  | a :: later =>
    match d.act a with
    | some d' => (t.act d a).run d' later
    | none => t

theorem run_cons {d d' : Desk} {a : DeskAct} (hact : d.act a = some d') (t : Tally)
    (later : List DeskAct) : t.run d (a :: later) = (t.act d a).run d' later := by
  rw [run, hact]

end Tally

/-- The machine was kept, and its generator is where it was noted to be. -/
def Noted (kept : List (Machine × Draws)) (m : Machine) : Prop :=
  ∃ n, kept.lookup m = some n ∧ m.random = n.random

theorem noted_cons_self {kept : List (Machine × Draws)} {m : Machine} {n : Draws}
    (counted : m.random = n.random) : Noted ((m, n) :: kept) m :=
  ⟨n, List.lookup_cons_self, counted⟩

/-- A machine that is noted stays so; if it is the very one kept now, with the new note. -/
theorem Noted.cons {kept : List (Machine × Draws)} {m m₁ : Machine} {n₁ : Draws}
    (counted : m₁.random = n₁.random) (h : Noted kept m) : Noted ((m₁, n₁) :: kept) m := by
  by_cases same : m = m₁
  · subst same
    exact noted_cons_self counted
  · obtain ⟨n, hn, random⟩ := h
    refine ⟨n, ?_, random⟩
    rw [List.lookup_cons, beq_false_of_ne same]
    exact hn

/-- Every generator on the desk is where the tally says, also of the machines that the files and
texts bring back. -/
structure Fits (t : Tally) (d : Desk) : Prop where
  bench : Bench.Fits t.bench d.bench
  disk : d.disk.Files (SaveFile.Brings (Noted t.kept))
  texts : ∀ text ∈ d.texts, SaveFile.Brings (Noted t.kept) text

namespace Fits

variable {t : Tally} {d d' : Desk}

theorem putBack (h : Fits t d) {found : Except Failure Machine}
    (hfound : ∀ m, found = .ok m → Noted t.kept m) : Fits (t.putBack found) (d.putBack found) := by
  cases found with
  | error failure => exact h
  | ok m =>
    obtain ⟨n, hn, random⟩ := hfound m rfl
    refine ⟨⟨?_, h.bench.snapshots, h.bench.history⟩, h.disk, h.texts⟩
    show m.random = ((t.kept.lookup m).getD t.bench.machine).random
    rw [hn, Option.getD_some, random]

/-- One case for what is done on the bench, and one for each way to keep a machine or bring it
back. -/
theorem act (h : Fits t d) {a : DeskAct} (hact : d.act a = some d') : Fits (t.act d a) d' := by
  have counted : d.machine.random = t.bench.machine.random := h.bench.machine
  have noted : Noted ((d.machine, t.bench.machine) :: t.kept) d.machine := noted_cons_self counted
  have disk : d.disk.Files (SaveFile.Brings (Noted ((d.machine, t.bench.machine) :: t.kept))) :=
    h.disk.imp fun text brings => brings.imp fun m => Noted.cons counted
  have texts : ∀ text ∈ d.texts,
      SaveFile.Brings (Noted ((d.machine, t.bench.machine) :: t.kept)) text :=
    fun text htext => (h.texts text htext).imp fun m => Noted.cons counted
  cases a with
  | bench a =>
    obtain ⟨bench, hbench, rfl⟩ := Option.map_eq_some_iff.1 hact
    exact ⟨h.bench.act hbench, h.disk, h.texts⟩
  | save store slot =>
    cases hact
    have kept := SaveFile.brings_write ⟨store.program, d.machine⟩ noted
    exact ⟨h.bench, Slots.files_save disk slot kept, texts⟩
  | load store slot =>
    cases hact
    exact h.putBack fun m hload => Slots.of_load h.disk hload
  | write program =>
    cases hact
    have written := SaveFile.brings_write ⟨program, d.machine⟩ noted
    exact ⟨h.bench, disk, List.forall_mem_cons.2 ⟨written, texts⟩⟩
  | read place =>
    cases found : d.texts[place]? with
    | some text =>
      simp only [Desk.act, found] at hact
      cases hact
      simp only [Tally.act, found]
      have brings := h.texts text (List.mem_of_getElem? found)
      exact h.putBack fun m hread => brings.of_map hread
    | none =>
      simp only [Desk.act, found] at hact
      cases hact
      simp only [Tally.act, found]
      exact h

/-- By induction on what is done. -/
theorem run (h : Fits t d) {acts : List DeskAct} (hrun : d.run acts = some d') :
    Fits (t.run d acts) d' := by
  induction acts generalizing t d with
  | nil =>
    cases hrun
    exact h
  | cons a later ih =>
    obtain ⟨d₁, hact, hlater⟩ := Option.bind_eq_some_iff.1 hrun
    rw [Tally.run_cons hact]
    exact ih (h.act hact) hlater

end Fits

/-! ## Main statement -/

/-- Whatever is done with a machine, in any order, it has an outcome, and with `n` the numbers drawn
by then, the generator has used up that many words of the stream of its seed, and an instruction that
draws a number next gets the low byte of the word after those.  Numbers are drawn by that
instruction only.  A snapshot put back, from memory, from the history, from a slot or from a text,
goes on from the numbers drawn when it was taken; the disk may bring machines noted before. -/
theorem run_draws (mode : Mode) (seed : UInt64) (capacity : Nat) (disk : Disk)
    (kept : List (Machine × Draws))
    (clean : disk.Files (SaveFile.Brings fun m => m.Guarded ∧ Noted kept m))
    (acts : List DeskAct) :
    ∃ d, (fresh mode seed capacity disk).run acts = some d ∧
      let start := fresh mode seed capacity disk
      let n := ((Tally.fresh seed capacity kept).run start acts).bench.machine
      d.machine.random.seed = Random.keyOf n.seed ∧ d.machine.random.stream = 0 ∧
      d.machine.random.position.toNat = n.count % 0x100000000000000000 ∧
      ∀ x mask, d.machine.next? = some (.random x mask) →
        ∃ m', d.machine.cycle = some (.ok .executed, m') ∧
          m'.registers.get x = n.word.toUInt8 &&& mask := by
  have guarded := clean.imp fun text brings => brings.imp fun m hm => hm.1
  have noted := clean.imp fun text brings => brings.imp fun m hm => hm.2
  have keeps := Keeps.fresh lasting_guarded guarded mode seed capacity
  obtain ⟨d, hrun, -⟩ := exists_run keeps acts
  refine ⟨d, hrun, ?_⟩
  intro start n
  have fits : Fits (.fresh seed capacity kept) start :=
    ⟨.fresh mode seed capacity, noted, fun text htext => by cases htext⟩
  have counted : d.machine.random = n.random := (fits.run hrun).bench.machine
  rw [counted]
  refine ⟨rfl, rfl, n.toNat_position, fun x mask hi => ?_⟩
  obtain ⟨m', hcycle, -, hvalue⟩ := Machine.cycle_random hi
  rw [counted, Draws.byte_random] at hvalue
  exact ⟨m', hcycle, hvalue⟩

/-- After a number was drawn and the machine from before put back, the first number comes again. -/
theorem run_draws_again :
    let program : List UInt8 := [0xC0, 0xFF]
    let acts : List DeskAct :=
      [.bench (.load program), .bench .capture, .bench .cycle, .bench (.restore 0)]
    Disk.blank.Files (SaveFile.Brings fun m => m.Guarded ∧ Noted [] m) ∧
      ∃ d m', (fresh ⟨false, false⟩ 3 8 .blank).run acts = some d ∧
        d.machine.next? = some (.random (lastDigit 0) 0xFF) ∧
        d.machine.random.position.toNat = 0 ∧ d.machine.cycle = some (.ok .executed, m') ∧
        m'.registers.get (lastDigit 0) = (Draws.mk 3 0).word.toUInt8 &&& 0xFF := by
  intro program acts
  have clean : Disk.blank.Files (SaveFile.Brings fun m => m.Guarded ∧ Noted [] m) :=
    Disk.files_blank _
  have room : Memory.size ≤ Memory.blank.bytes.size := Nat.le_of_eq Memory.size_blank.symm
  obtain ⟨memory, hload⟩ := Memory.load_of_fits room (show program.length ≤ _ by decide)
  let m : Machine := { Machine.ofSeed ⟨false, false⟩ 3 with memory }
  have loaded : (Machine.ofSeed ⟨false, false⟩ 3).load program = some (.ok m) := by
    show (Memory.blank.load program).map _ = _
    rw [hload]
    rfl
  have hi : m.next? = some (.random (lastDigit 0) 0xFF) :=
    Machine.next?_of_load hload 0 rfl rfl rfl (by decide)
  obtain ⟨m₁, hcycle, -⟩ := Machine.cycle_random hi
  obtain ⟨d, hrun, hdraws⟩ := run_draws ⟨false, false⟩ 3 8 .blank [] clean acts
  let before : Desk := ⟨⟨m, [], .empty 8⟩, .blank, []⟩
  let captured : Desk := ⟨⟨m, [m], .empty 8⟩, .blank, []⟩
  let drawn : Desk := ⟨⟨m₁, [m], .empty 8⟩, .blank, []⟩
  have h₁ : (fresh ⟨false, false⟩ 3 8 .blank).act (.bench (.load program)) = some before := by
    simp [act, fresh, Bench.act, Bench.fresh, loaded, before]
  have h₂ : before.act (.bench .capture) = some captured := rfl
  have h₃ : captured.act (.bench .cycle) = some drawn := by
    simp [act, Bench.act, hcycle, captured, drawn]
  have h₄ : drawn.act (.bench (.restore 0)) = some captured := rfl
  have back : d = captured := by
    rw [run_cons h₁, run_cons h₂, run_cons h₃, run_cons h₄] at hrun
    exact (Option.some.inj hrun).symm
  have recounted :
      ((Tally.fresh 3 8 []).run (fresh ⟨false, false⟩ 3 8 .blank) acts).bench.machine = ⟨3, 0⟩ := by
    rw [Tally.run_cons h₁, Tally.run_cons h₂, Tally.run_cons h₃, Tally.run_cons h₄]
    rfl
  simp only [recounted, back] at hdraws
  obtain ⟨-, -, hposition, hdraws⟩ := hdraws
  obtain ⟨m', hcycle', hvalue⟩ := hdraws (lastDigit 0) 0xFF hi
  refine ⟨clean, d, m', hrun, ?_⟩
  rw [back]
  exact ⟨hi, hposition.trans (Nat.zero_mod _), hcycle', hvalue⟩

end Desk

end Chip8
