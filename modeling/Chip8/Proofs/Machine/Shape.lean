import Chip8.Machine.Cycle

/-!
# Shape

A cycle changes what memory and screen hold and never how much they hold.  It works on any machine,
damaged or not:

    m.cycle = some (outcome, m') → m.SameShape m'                     (sameShape_cycle)
    m.depth ≤ 16 → m.cycle = some (outcome, m') → m'.depth ≤ 16       (depth_cycle_le)
    m.Confined → m.cycle = some (outcome, m') → m'.Confined           (Confined.cycle)

`Confined` says that the counter and every cell of the stack name an address below 0x1000.  The
cells above the depth are in it too, since a later call leaves those below it in place.
-/

namespace Chip8

namespace Screen

/-- A sprite changes pixels and never the shape of the screen. -/
theorem size_draw {s s' : Screen} {x y : UInt8} {rows : List UInt8} {hit : Bool}
    (h : s.draw x y rows = some (hit, s')) :
    s'.pixels.size = s.pixels.size ∧ s'.width = s.width ∧ s'.height = s.height := by
  unfold draw at h
  split at h
  · cases h
  · exact size_flipAll? h

end Screen

namespace Machine

/-! ## Parts of an instruction -/

theorem done_eq_some_iff {m m' : Machine} {outcome : Except Fault Progress} :
    execute.done m = some (outcome, m') ↔ outcome = .ok .executed ∧ m' = m := by
  simp [execute.done, eq_comm]

/-- A two-register operation changes registers alone. -/
theorem combine_eq (m : Machine) (operation : Operation) (x y : Register) :
    m.combine operation x y = { m with registers := (m.combine operation x y).registers } := by
  unfold combine
  split <;> rfl

/-- Filling registers changes registers alone. -/
theorem fillRegisters_eq (m : Machine) (values : List UInt8) :
    m.fillRegisters values = { m with registers := (m.fillRegisters values).registers } := by
  unfold fillRegisters
  rfl

/-- The random number is taken off the machine before the register is set. -/
theorem execute_random (m : Machine) (x : Register) (mask : UInt8) :
    m.execute (.random x mask) = execute.done
      ({ m with random := m.random.byte.2 }.setRegister x (m.random.byte.1 &&& mask)).advance :=
  rfl

theorem return?_eq_some_iff {m m' : Machine} :
    m.return? = some m' ↔ ∃ target, m.stack[(m.depth - 1).toNat]? = some target ∧
      m' = { m with depth := m.depth - 1, counter := target } := by
  simp only [return?, Option.map_eq_some_iff]
  exact exists_congr fun target => and_congr_right fun _ => eq_comm

theorem draw?_eq_some_iff {m m' : Machine} {x y : Register} {rows : Fin 16} :
    m.draw? x y rows = some m' ↔ ∃ sprite collision screen,
      m.memory.readMany? m.index rows = some sprite ∧
      m.screen.draw (m.registers.get x) (m.registers.get y) sprite = some (collision, screen) ∧
      m' = { m with screen, stale := true }.setRegister .flag (bit collision) := by
  simp only [draw?, Option.bind_eq_bind, Option.bind_eq_some_iff, Option.pure_def,
    Option.some.injEq, Prod.exists]
  constructor
  · rintro ⟨sprite, hsprite, collision, screen, hscreen, rfl⟩
    exact ⟨sprite, collision, screen, hsprite, hscreen, rfl⟩
  · rintro ⟨sprite, collision, screen, hsprite, hscreen, rfl⟩
    exact ⟨sprite, hsprite, collision, screen, hscreen, rfl⟩

/-! ## Shape -/

/-- As many bytes, as many pixels in as many rows, and the same mode. -/
structure SameShape (m m' : Machine) : Prop where
  memory : m'.memory.bytes.size = m.memory.bytes.size
  width : m'.screen.width = m.screen.width
  height : m'.screen.height = m.screen.height
  pixels : m'.screen.pixels.size = m.screen.pixels.size
  mode : m'.mode = m.mode

namespace SameShape

theorem refl (m : Machine) : m.SameShape m := ⟨rfl, rfl, rfl, rfl, rfl⟩

theorem trans {m m' m'' : Machine} (h : m.SameShape m') (h' : m'.SameShape m'') :
    m.SameShape m'' :=
  ⟨h'.memory.trans h.memory, h'.width.trans h.width, h'.height.trans h.height,
    h'.pixels.trans h.pixels, h'.mode.trans h.mode⟩

end SameShape

/-- Memory and screen are the same objects. -/
theorem sameShape_of_eq {m m' : Machine} (hmemory : m'.memory = m.memory)
    (hscreen : m'.screen = m.screen) (hmode : m'.mode = m.mode) : m.SameShape m' := by
  refine ⟨?_, ?_, ?_, ?_, hmode⟩
  · rw [hmemory]
  all_goals rw [hscreen]

theorem sameShape_advance (m : Machine) : m.SameShape m.advance := sameShape_of_eq rfl rfl rfl

theorem sameShape_registers (m : Machine) (registers : Cells UInt8 16) :
    m.SameShape { m with registers } := sameShape_of_eq rfl rfl rfl

theorem sameShape_writeMany {m : Machine} {address : UInt16} {bytes : List UInt8} {memory : Memory}
    (h : m.memory.writeMany? address bytes = some memory) :
    m.SameShape { m with memory } :=
  ⟨Memory.size_writeMany? h, rfl, rfl, rfl, rfl⟩

theorem sameShape_execute {m m' : Machine} {i : Instruction} {outcome : Except Fault Progress}
    (h : m.execute i = some (outcome, m')) : m.SameShape m' := by
  cases i
  case clear =>
    obtain ⟨-, rfl⟩ := done_eq_some_iff.1 h
    exact ⟨rfl, rfl, rfl, Screen.size_clear _, rfl⟩
  case ret =>
    simp only [execute] at h
    split at h
    · cases h
      exact .refl m
    · obtain ⟨_, hret, h⟩ := Option.bind_eq_some_iff.1 h
      obtain ⟨_, -, rfl⟩ := return?_eq_some_iff.1 hret
      obtain ⟨-, rfl⟩ := done_eq_some_iff.1 h
      exact sameShape_of_eq rfl rfl rfl
  case call target =>
    simp only [execute] at h
    split at h
    · obtain ⟨-, rfl⟩ := done_eq_some_iff.1 h
      exact sameShape_of_eq rfl rfl rfl
    · cases h
      exact .refl m
  case skipIf condition =>
    obtain ⟨-, rfl⟩ := done_eq_some_iff.1 h
    split <;> exact sameShape_of_eq rfl rfl rfl
  case combine operation x y =>
    obtain ⟨-, rfl⟩ := done_eq_some_iff.1 h
    rw [combine_eq]
    exact (sameShape_registers m _).trans (sameShape_advance _)
  case draw x y rows =>
    simp only [execute, Option.bind_eq_some_iff] at h
    obtain ⟨_, hdraw, h⟩ := h
    obtain ⟨sprite, collision, screen, -, hscreen, rfl⟩ := draw?_eq_some_iff.1 hdraw
    obtain ⟨-, rfl⟩ := done_eq_some_iff.1 h
    obtain ⟨hpixels, hwidth, hheight⟩ := Screen.size_draw hscreen
    exact ⟨rfl, hwidth, hheight, hpixels, rfl⟩
  case awaitKey x =>
    simp only [execute] at h
    split at h
    · obtain ⟨-, rfl⟩ := done_eq_some_iff.1 h
      exact sameShape_of_eq rfl rfl rfl
    · cases h
      exact .refl m
  case storeDigits | storeRegisters =>
    simp only [execute, Option.bind_eq_bind, Option.bind_eq_some_iff] at h
    obtain ⟨memory, hwrite, h⟩ := h
    obtain ⟨-, rfl⟩ := done_eq_some_iff.1 h
    exact (sameShape_writeMany hwrite).trans (sameShape_advance _)
  case loadRegisters x =>
    simp only [execute, Option.bind_eq_bind, Option.bind_eq_some_iff] at h
    obtain ⟨values, -, h⟩ := h
    obtain ⟨-, rfl⟩ := done_eq_some_iff.1 h
    rw [fillRegisters_eq]
    exact (sameShape_registers m _).trans (sameShape_advance _)
  case random x mask =>
    rw [execute_random] at h
    obtain ⟨-, rfl⟩ := done_eq_some_iff.1 h
    exact sameShape_of_eq rfl rfl rfl
  -- the other instructions touch neither memory nor screen
  all_goals
    simp only [execute] at h
    obtain ⟨-, rfl⟩ := done_eq_some_iff.1 h
    exact sameShape_of_eq rfl rfl rfl

/-- What a cycle does: a word that is no instruction faults, any other is executed. -/
theorem cycle_eq_some_iff {m m' : Machine} {outcome : Except Fault Progress} :
    m.cycle = some (outcome, m') ↔ ∃ opcode, m.memory.word? m.counter = some opcode ∧
      match Instruction.decode opcode with
      | none => outcome = .error (.unknownOpcode opcode m.counter) ∧ m' = { m with opcode }
      | some i => { m with opcode }.execute i = some (outcome, m') := by
  simp only [cycle, Option.bind_eq_bind, Option.bind_eq_some_iff]
  refine exists_congr fun opcode => and_congr_right fun _ => ?_
  cases Instruction.decode opcode with
  | none => simp [eq_comm]
  | some i => rfl

theorem sameShape_cycle {m m' : Machine} {outcome : Except Fault Progress}
    (h : m.cycle = some (outcome, m')) : m.SameShape m' := by
  obtain ⟨opcode, -, h⟩ := cycle_eq_some_iff.1 h
  split at h
  · obtain ⟨-, rfl⟩ := h
    exact sameShape_of_eq rfl rfl rfl
  · have fetched : m.SameShape { m with opcode } := sameShape_of_eq rfl rfl rfl
    exact fetched.trans (sameShape_execute h)

end Machine

/-! ## Flow of control -/

/-- Every address that the instruction itself names lies in memory. -/
def Instruction.Inside : Instruction → Prop
  | routine target | jump target | call target | setIndex target | jumpPast target =>
    target < 0x1000
  | _ => True

theorem Instruction.inside_decode {word : UInt16} {i : Instruction} (h : decode word = some i) :
    i.Inside := by
  have nnn : word % 0x1000 < 0x1000 := UInt16.mod_lt _ (by decide)
  unfold decode at h
  simp only at h
  split at h
  case h_1 =>
    cases h
    split
    · trivial
    · split
      · trivial
      · exact nnn
  case h_6 | h_10 =>
    split at h
    · cases h
      trivial
    · cases h
  case h_9 =>
    obtain ⟨_, -, rfl⟩ := Option.map_eq_some_iff.1 h
    trivial
  case h_15 =>
    split at h
    · cases h
      trivial
    · split at h <;> cases h
      trivial
  case h_16 =>
    unfold ofSelector? at h
    split at h <;> cases h <;> trivial
  all_goals
    cases h
    first | exact nnn | trivial

namespace Machine

/-- How an instruction leaves counter, depth and stack. -/
inductive Control (m m' : Machine) : Prop where
  /-- Neither a call nor a return. -/
  | flow (stack : m'.stack = m.stack) (depth : m'.depth = m.depth)
      (counter : m'.counter < 0x1000 ∨ m'.counter = m.counter)
  | call (target : UInt16) (room : m.depth.toNat < 16) (inside : target < 0x1000)
      (eq : m' = m.call target room)
  | ret (deep : m.depth ≠ 0) (eq : m.return? = some m')

theorem counter_advance_lt (m : Machine) : m.advance.counter < 0x1000 :=
  UInt16.mod_lt _ (by decide)

theorem Control.ofAdvance {m m' : Machine} (stack : m'.stack = m.stack)
    (depth : m'.depth = m.depth) :
    m.Control m'.advance :=
  .flow stack depth (.inl m'.counter_advance_lt)

theorem control_execute {m m' : Machine} {i : Instruction} {outcome : Except Fault Progress}
    (inside : i.Inside) (h : m.execute i = some (outcome, m')) : m.Control m' := by
  cases i
  case routine | jump =>
    obtain ⟨-, rfl⟩ := done_eq_some_iff.1 h
    exact .flow rfl rfl (.inl inside)
  case ret =>
    simp only [execute] at h
    split at h
    · cases h
      exact .flow rfl rfl (.inr rfl)
    · next deep =>
      obtain ⟨_, hret, h⟩ := Option.bind_eq_some_iff.1 h
      obtain ⟨-, rfl⟩ := done_eq_some_iff.1 h
      exact .ret deep hret
  case call target =>
    simp only [execute] at h
    split at h
    · next room =>
      obtain ⟨-, rfl⟩ := done_eq_some_iff.1 h
      exact .call target room inside rfl
    · cases h
      exact .flow rfl rfl (.inr rfl)
  case skipIf condition =>
    obtain ⟨-, rfl⟩ := done_eq_some_iff.1 h
    split
    · exact .flow rfl rfl (.inl m.advance.counter_advance_lt)
    · exact .flow rfl rfl (.inl m.counter_advance_lt)
  case combine operation x y =>
    obtain ⟨-, rfl⟩ := done_eq_some_iff.1 h
    rw [combine_eq]
    exact .ofAdvance rfl rfl
  case jumpPast base =>
    obtain ⟨-, rfl⟩ := done_eq_some_iff.1 h
    exact .flow rfl rfl (.inl (UInt16.mod_lt _ (by decide)))
  case random x mask =>
    rw [execute_random] at h
    obtain ⟨-, rfl⟩ := done_eq_some_iff.1 h
    exact .ofAdvance rfl rfl
  case draw x y rows =>
    simp only [execute, Option.bind_eq_some_iff] at h
    obtain ⟨_, hdraw, h⟩ := h
    obtain ⟨sprite, collision, screen, -, -, rfl⟩ := draw?_eq_some_iff.1 hdraw
    obtain ⟨-, rfl⟩ := done_eq_some_iff.1 h
    exact .ofAdvance rfl rfl
  case awaitKey x =>
    simp only [execute] at h
    split at h
    · obtain ⟨-, rfl⟩ := done_eq_some_iff.1 h
      exact .ofAdvance rfl rfl
    · cases h
      exact .flow rfl rfl (.inr rfl)
  case storeDigits | storeRegisters =>
    simp only [execute, Option.bind_eq_bind, Option.bind_eq_some_iff] at h
    obtain ⟨memory, -, h⟩ := h
    obtain ⟨-, rfl⟩ := done_eq_some_iff.1 h
    exact .ofAdvance rfl rfl
  case loadRegisters x =>
    simp only [execute, Option.bind_eq_bind, Option.bind_eq_some_iff] at h
    obtain ⟨values, -, h⟩ := h
    obtain ⟨-, rfl⟩ := done_eq_some_iff.1 h
    rw [fillRegisters_eq]
    exact .ofAdvance rfl rfl
  -- the other instructions only go on to the next one
  all_goals
    simp only [execute] at h
    obtain ⟨-, rfl⟩ := done_eq_some_iff.1 h
    exact .ofAdvance rfl rfl

/-- Fetching leaves the control of a machine alone, and so does a word that is no instruction. -/
theorem control_cycle {m m' : Machine} {outcome : Except Fault Progress}
    (h : m.cycle = some (outcome, m')) : ∃ opcode, { m with opcode }.Control m' := by
  obtain ⟨opcode, -, h⟩ := cycle_eq_some_iff.1 h
  refine ⟨opcode, ?_⟩
  split at h
  · obtain ⟨-, rfl⟩ := h
    exact .flow rfl rfl (.inr rfl)
  · next i hi => exact control_execute (Instruction.inside_decode hi) h

theorem depth_call {m : Machine} {target : UInt16} (room : m.depth.toNat < 16) :
    (m.call target room).depth.toNat = m.depth.toNat + 1 := by
  show (m.depth + 1).toNat = m.depth.toNat + 1
  rw [UInt8.toNat_add]
  show (m.depth.toNat + 1) % 256 = m.depth.toNat + 1
  omega

theorem toNat_depth_sub_one {m : Machine} (deep : m.depth ≠ 0) :
    (m.depth - 1).toNat = m.depth.toNat - 1 := by
  have pos : m.depth.toNat ≠ 0 := fun h => deep (UInt8.toNat_inj.1 h)
  rw [UInt8.toNat_sub_of_le _ _ (UInt8.le_iff_toNat_le.2 (by show 1 ≤ _; omega))]
  rfl

theorem depth_cycle_le {m m' : Machine} {outcome : Except Fault Progress}
    (hdepth : m.depth.toNat ≤ 16) (h : m.cycle = some (outcome, m')) : m'.depth.toNat ≤ 16 := by
  obtain ⟨opcode, hm⟩ := control_cycle h
  cases hm with
  | flow _ depth _ => rwa [depth]
  | call target room _ eq =>
    rw [eq, depth_call]
    exact room
  | ret deep eq =>
    obtain ⟨_, -, rfl⟩ := return?_eq_some_iff.1 eq
    show ({ m with opcode }.depth - 1).toNat ≤ 16
    rw [toNat_depth_sub_one deep]
    exact Nat.le_trans (Nat.sub_le _ _) hdepth

/-- The counter and all cells of the stack, in use or not, name addresses below 0x1000. -/
structure Confined (m : Machine) : Prop where
  counter : m.counter < 0x1000
  stack : ∀ place, m.stack.get place < 0x1000

theorem Confined.cycle {m m' : Machine} {outcome : Except Fault Progress} (hm : m.Confined)
    (h : m.cycle = some (outcome, m')) : m'.Confined := by
  obtain ⟨opcode, hcontrol⟩ := control_cycle h
  cases hcontrol with
  | flow stack _ counter =>
    refine ⟨?_, fun place => stack ▸ hm.stack place⟩
    rcases counter with below | same
    · exact below
    · exact same ▸ hm.counter
  | call target room inside eq =>
    subst eq
    refine ⟨inside, fun place => ?_⟩
    -- the new cell holds where the counter would have gone on
    show (m.stack.set m.depth.toNat _ room)[place.val] < 0x1000
    rw [Vector.getElem_set]
    split
    · exact counter_advance_lt _
    · exact hm.stack place
  | ret _ eq =>
    obtain ⟨target, htarget, rfl⟩ := return?_eq_some_iff.1 eq
    obtain ⟨hplace, rfl⟩ := Vector.getElem?_eq_some_iff.1 htarget
    exact ⟨hm.stack ⟨_, hplace⟩, hm.stack⟩

end Machine

end Chip8
