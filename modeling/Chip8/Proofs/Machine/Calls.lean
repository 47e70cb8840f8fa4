import Chip8.Proofs.Machine.Frame

/-!
# Calls nest

A cycle never touches a cell of the stack below the depth, whether it calls, returns or faults, and
timers and keys do not either.  So whatever runs between a call and the return that matches it, the
return address is still there:

    m.StaysDeep least attempts → m.attempt attempts = some (outcomes, m') →
      ∀ place < least, m'.stack[place]? = m.stack[place]?                (stack_attempt_below)

`pending` follows a run from outside: it puts down the address after each call and crosses it off at
the return.  The stack below the depth holds just these addresses, the newest on top (`Nested`).
-/

namespace Chip8

namespace Machine

/-! ## A call and a return -/

theorem cycle_call {m : Machine} {target : UInt16} (hi : m.next? = some (.call target))
    (room : m.depth.toNat < 16) :
    ∃ opcode, m.cycle = some (.ok .executed, { m with opcode }.call target room) := by
  obtain ⟨opcode, hcycle⟩ := cycle_of_next? hi
  refine ⟨opcode, hcycle.trans ?_⟩
  have room : ({ m with opcode } : Machine).depth.toNat < 16 := room
  simp only [execute, room, ↓reduceDIte]
  rfl

theorem depth_ne_zero {m : Machine} (deep : 0 < m.depth.toNat) : m.depth ≠ 0 := by
  intro empty
  rw [empty] at deep
  cases deep

theorem cycle_ret {m : Machine} {address : UInt16} (hi : m.next? = some .ret)
    (deep : 0 < m.depth.toNat) (htop : m.stack[m.depth.toNat - 1]? = some address) :
    ∃ opcode, m.cycle =
      some (.ok .executed, { m with opcode, depth := m.depth - 1, counter := address }) := by
  have deep := depth_ne_zero deep
  obtain ⟨opcode, hcycle⟩ := cycle_of_next? hi
  refine ⟨opcode, hcycle.trans ?_⟩
  have hreturn : ({ m with opcode } : Machine).return? =
      some { m with opcode, depth := m.depth - 1, counter := address } := by
    refine return?_eq_some_iff.2 ⟨address, ?_, rfl⟩
    show m.stack[(m.depth - 1).toNat]? = some address
    rw [toNat_depth_sub_one deep]
    exact htop
  simp only [execute, deep, if_false, hreturn, Option.bind_some]
  rfl

/-! ## The cells below -/

theorem stack_cycle_below {m m' : Machine} {outcome : Except Fault Progress}
    (h : m.cycle = some (outcome, m')) {place : Nat} (below : place < m.depth.toNat) :
    m'.stack[place]? = m.stack[place]? := by
  obtain ⟨opcode, hcontrol⟩ := control_cycle h
  cases hcontrol with
  | flow stack _ _ => rw [stack]
  | call target room _ eq =>
    subst eq
    show (m.stack.set m.depth.toNat _ room)[place]? = m.stack[place]?
    rw [Vector.getElem?_set_ne]
    omega
  | ret _ eq =>
    obtain ⟨_, -, rfl⟩ := return?_eq_some_iff.1 eq
    rfl

theorem attempt_cycle_eq_some_iff {m m' : Machine} {later : List Attempt}
    {outcomes : List (Except Fault Progress)} :
    m.attempt (.cycle :: later) = some (outcomes, m') ↔
      ∃ outcome m₁ after, m.cycle = some (outcome, m₁) ∧ m₁.attempt later = some (after, m') ∧
        outcomes = outcome :: after := by
  rw [attempt]
  simp only [Option.bind_eq_bind, Option.bind_eq_some_iff, Prod.exists]
  constructor
  · rintro ⟨outcome, m₁, hcycle, after, m₂, hlater, h⟩
    cases h
    exact ⟨outcome, m₁, after, hcycle, hlater, rfl⟩
  · rintro ⟨outcome, m₁, after, hcycle, hlater, rfl⟩
    exact ⟨outcome, m₁, hcycle, after, m', hlater, rfl⟩

/-- Attempts on a sturdy machine always have an outcome. -/
theorem Sturdy.exists_attempt {m : Machine} (hm : m.Sturdy) (attempts : List Attempt) :
    ∃ outcomes m', m.attempt attempts = some (outcomes, m') ∧ m'.Sturdy := by
  induction attempts generalizing m with
  | nil => exact ⟨[], m, rfl, hm⟩
  | cons a later ih =>
    cases a with
    | cycle =>
      obtain ⟨outcome, m₁, hcycle, hm₁⟩ := hm.exists_cycle
      obtain ⟨outcomes, m', hlater, hm'⟩ := ih hm₁
      exact ⟨outcome :: outcomes, m',
        attempt_cycle_eq_some_iff.2 ⟨outcome, m₁, outcomes, hcycle, hlater, rfl⟩, hm'⟩
    | tickTimers ticks => exact ih (m := m.tickTimers ticks) { hm with }
    | setKeypad keypad => exact ih (m := m.setKeypad keypad) { hm with }

/-- At no time do the attempts leave fewer return addresses on the stack. -/
def StaysDeep (m : Machine) (least : Nat) (attempts : List Attempt) : Prop :=
  ∀ before outcomes m', before <+: attempts → m.attempt before = some (outcomes, m') →
    least ≤ m'.depth.toNat

namespace StaysDeep

variable {m m₁ : Machine} {least : Nat} {later : List Attempt}

theorem now {attempts : List Attempt} (h : m.StaysDeep least attempts) :
    least ≤ m.depth.toNat :=
  h [] [] m List.nil_prefix rfl

theorem nil_iff : m.StaysDeep least [] ↔ least ≤ m.depth.toNat := by
  constructor
  · exact now
  · intro deep before outcomes m' hprefix hbefore
    obtain rfl := List.prefix_nil.1 hprefix
    cases hbefore
    exact deep

theorem cycle_iff {outcome : Except Fault Progress} (hcycle : m.cycle = some (outcome, m₁)) :
    m.StaysDeep least (.cycle :: later) ↔ least ≤ m.depth.toNat ∧ m₁.StaysDeep least later := by
  constructor
  · intro h
    refine ⟨h.now, fun before outcomes m' hprefix hbefore => ?_⟩
    refine h (.cycle :: before) (outcome :: outcomes) m' (List.prefix_cons_inj _ |>.2 hprefix) ?_
    exact attempt_cycle_eq_some_iff.2 ⟨outcome, m₁, outcomes, hcycle, hbefore, rfl⟩
  · rintro ⟨deep, h⟩ before outcomes m' hprefix hbefore
    rcases List.prefix_cons_iff.1 hprefix with rfl | ⟨rest, rfl, hrest⟩
    · cases hbefore
      exact deep
    · obtain ⟨_, _, after, hcycle', hlater, -⟩ := attempt_cycle_eq_some_iff.1 hbefore
      obtain ⟨rfl, rfl⟩ := Prod.mk.inj (Option.some.inj (hcycle'.symm.trans hcycle))
      exact h rest after m' hrest hlater

/-- Timers and keys leave the stack alone. -/
theorem other_iff {a : Attempt} (hdepth : m₁.depth = m.depth)
    (hattempt : ∀ later, m.attempt (a :: later) = m₁.attempt later) :
    m.StaysDeep least (a :: later) ↔ m₁.StaysDeep least later := by
  constructor
  · intro h before outcomes m' hprefix hbefore
    exact h (a :: before) outcomes m' (List.prefix_cons_inj _ |>.2 hprefix)
      ((hattempt before).trans hbefore)
  · intro h before outcomes m' hprefix hbefore
    rcases List.prefix_cons_iff.1 hprefix with rfl | ⟨rest, rfl, hrest⟩
    · cases hbefore
      rw [← hdepth]
      exact h.now
    · exact h rest outcomes m' hrest ((hattempt rest).symm.trans hbefore)

theorem tickTimers_iff {ticks : Nat} :
    m.StaysDeep least (.tickTimers ticks :: later) ↔ (m.tickTimers ticks).StaysDeep least later :=
  other_iff rfl fun _ => rfl

theorem setKeypad_iff {keypad : Keypad} :
    m.StaysDeep least (.setKeypad keypad :: later) ↔ (m.setKeypad keypad).StaysDeep least later :=
  other_iff rfl fun _ => rfl

end StaysDeep

/-- By induction on the attempts: while the depth stays above a cell, no cycle touches it. -/
theorem stack_attempt_below {m m' : Machine} {least : Nat} {attempts : List Attempt}
    (deep : m.StaysDeep least attempts) {outcomes : List (Except Fault Progress)}
    (h : m.attempt attempts = some (outcomes, m')) {place : Nat} (below : place < least) :
    m'.stack[place]? = m.stack[place]? := by
  induction attempts generalizing m outcomes with
  | nil =>
    cases h
    rfl
  | cons a later ih =>
    cases a with
    | cycle =>
      obtain ⟨outcome, m₁, after, hcycle, hlater, -⟩ := attempt_cycle_eq_some_iff.1 h
      rw [ih ((StaysDeep.cycle_iff hcycle).1 deep).2 hlater]
      exact stack_cycle_below hcycle (Nat.lt_of_lt_of_le below deep.now)
    | tickTimers ticks => exact ih (m := m.tickTimers ticks) (StaysDeep.tickTimers_iff.1 deep) h
    | setKeypad keypad => exact ih (m := m.setKeypad keypad) (StaysDeep.setKeypad_iff.1 deep) h

/-! ## The calls not yet returned from -/

/-- What a cycle does to the addresses where pending calls go on, newest first. -/
def follow (m : Machine) (outcome : Except Fault Progress) (calls : List UInt16) : List UInt16 :=
  match outcome, m.next? with
  | .ok _, some (.call _) => m.advance.counter :: calls
  | .ok _, some .ret => calls.tail
  | _, _ => calls

theorem follow_call {m : Machine} {target : UInt16} (hi : m.next? = some (.call target))
    (progress : Progress) (calls : List UInt16) :
    m.follow (.ok progress) calls = m.advance.counter :: calls := by
  unfold follow
  rw [hi]

theorem follow_ret {m : Machine} (hi : m.next? = some .ret) (progress : Progress)
    (calls : List UInt16) : m.follow (.ok progress) calls = calls.tail := by
  unfold follow
  rw [hi]

theorem follow_other {m : Machine} {i : Instruction} (hi : m.next? = some i)
    (noCall : ∀ target, i ≠ .call target) (noRet : i ≠ .ret) (outcome : Except Fault Progress)
    (calls : List UInt16) : m.follow outcome calls = calls := by
  unfold follow
  rw [hi]
  split
  · next eq => exact absurd (Option.some.inj eq) (noCall _)
  · next eq => exact absurd (Option.some.inj eq) noRet
  · rfl

/-- Where the calls go on that attempts leave pending, newest first. -/
def pending (m : Machine) (calls : List UInt16) : List Attempt → List UInt16
  | [] => calls
  | .cycle :: later =>
    match m.cycle with
    | some (outcome, m₁) => m₁.pending (m.follow outcome calls) later
    | none => calls
  | .tickTimers ticks :: later => (m.tickTimers ticks).pending calls later
  | .setKeypad keypad :: later => (m.setKeypad keypad).pending calls later

/-- The stack up to its depth is a list of addresses, the newest on top. -/
structure Nested (m : Machine) (calls : List UInt16) : Prop where
  depth : calls.length = m.depth.toNat
  stack : ∀ place, place < m.depth.toNat → m.stack[place]? = calls.reverse[place]?

namespace Nested

variable {m m' : Machine} {calls : List UInt16}

theorem take_eq (h : m.Nested calls) : m.stack.toList.take m.depth.toNat = calls.reverse := by
  apply List.ext_getElem?
  intro place
  by_cases below : place < m.depth.toNat
  · rw [List.getElem?_take_of_lt below, ← h.stack place below]
    exact Vector.getElem?_toList
  · rw [List.getElem?_eq_none (by rw [List.length_take]; omega),
      List.getElem?_eq_none (by rw [List.length_reverse, h.depth]; omega)]

theorem of_same (h : m.Nested calls) (stack : m'.stack = m.stack) (depth : m'.depth = m.depth) :
    m'.Nested calls := by
  constructor
  · rw [depth]
    exact h.depth
  · rw [depth, stack]
    exact h.stack

theorem call (h : m.Nested calls) (target : UInt16) (room : m.depth.toNat < 16) :
    (m.call target room).Nested (m.advance.counter :: calls) := by
  constructor
  · rw [depth_call, List.length_cons, h.depth]
  · intro place hplace
    rw [depth_call] at hplace
    rw [List.reverse_cons]
    show (m.stack.set m.depth.toNat m.advance.counter room)[place]? = _
    by_cases top : place = m.depth.toNat
    · subst top
      rw [Vector.getElem?_set_self, List.getElem?_append_right (by simp [h.depth])]
      simp [h.depth]
    · rw [Vector.getElem?_set_ne room (Ne.symm top), h.stack place (by omega),
        List.getElem?_append_left (by rw [List.length_reverse, h.depth]; omega)]

theorem ret (h : m.Nested calls) (deep : m.depth ≠ 0) (hreturn : m.return? = some m') :
    m'.Nested calls.tail := by
  obtain ⟨target, -, rfl⟩ := return?_eq_some_iff.1 hreturn
  have shallower : (m.depth - 1).toNat = m.depth.toNat - 1 := toNat_depth_sub_one deep
  constructor
  · show calls.tail.length = (m.depth - 1).toNat
    rw [List.length_tail, h.depth, shallower]
  · intro place hplace
    have hplace : place < m.depth.toNat - 1 := by
      rw [← shallower]
      exact hplace
    show m.stack[place]? = _
    rw [h.stack place (by omega)]
    cases calls with
    | nil => rfl
    | cons newest older =>
      have hlength := h.depth
      rw [List.length_cons] at hlength
      rw [List.reverse_cons, List.getElem?_append_left (by rw [List.length_reverse]; omega)]
      rfl

/-- One case for a call, one for a return, and one for all that leaves the stack alone. -/
theorem cycle (h : m.Nested calls) {outcome : Except Fault Progress}
    (hcycle : m.cycle = some (outcome, m')) : m'.Nested (m.follow outcome calls) := by
  cases outcome with
  | error f =>
    obtain ⟨opcode, rfl⟩ := eq_of_cycle_error hcycle
    exact h.of_same rfl rfl
  | ok progress =>
    obtain ⟨i, hi⟩ := exists_next?_of_ok hcycle
    obtain ⟨opcode, hexecute⟩ := cycle_of_next? hi
    have hexecute := hexecute.symm.trans hcycle
    have fetched : ({ m with opcode } : Machine).Nested calls := h.of_same rfl rfl
    cases i with
    | call target =>
      rw [follow_call hi]
      simp only [execute] at hexecute
      split at hexecute
      · next room =>
        obtain ⟨-, rfl⟩ := done_eq_some_iff.1 hexecute
        exact fetched.call target room
      · cases hexecute
    | ret =>
      rw [follow_ret hi]
      simp only [execute] at hexecute
      split at hexecute
      · cases hexecute
      · next deep =>
        obtain ⟨m₁, hreturn, hdone⟩ := Option.bind_eq_some_iff.1 hexecute
        obtain ⟨-, rfl⟩ := done_eq_some_iff.1 hdone
        exact fetched.ret deep hreturn
    | _ =>
      obtain ⟨stack, depth⟩ := (frame_cycle hi hcycle).stack (by simp) (by simp)
      rw [follow_other hi (by simp) (by simp)]
      exact h.of_same stack depth

/-- By induction on the attempts, for any calls pending at first. -/
theorem attempt (h : m.Nested calls) {attempts : List Attempt}
    {outcomes : List (Except Fault Progress)} (hattempt : m.attempt attempts = some (outcomes, m')) :
    m'.Nested (m.pending calls attempts) := by
  induction attempts generalizing m calls outcomes with
  | nil =>
    cases hattempt
    exact h
  | cons a later ih =>
    cases a with
    | cycle =>
      obtain ⟨outcome, m₁, after, hcycle, hlater, -⟩ := attempt_cycle_eq_some_iff.1 hattempt
      rw [pending, hcycle]
      exact ih (h.cycle hcycle) hlater
    | tickTimers ticks =>
      have ticked : (m.tickTimers ticks).Nested calls := h.of_same rfl rfl
      exact ih ticked hattempt
    | setKeypad keypad =>
      have keyed : (m.setKeypad keypad).Nested calls := h.of_same rfl rfl
      exact ih keyed hattempt

end Nested

/-! ## Main statement -/

/-- A call that has room comes to its target, one deeper.  Whatever is attempted then has an outcome,
and as long as it stays that deep, the cells below and the return address are what they were, and a
return from there goes on after the call, as deep as before it.

On a machine that starts with an empty stack, the cells up to the depth are at any time the return
addresses of the calls not yet returned from, the newest on top. -/
theorem calls_nest :
    (∀ (m : Machine) (target : UInt16), m.memory.bytes.size = Memory.size → m.screen.Whole →
      m.depth.toNat < 16 → m.next? = some (.call target) →
      ∃ m₁, m.cycle = some (.ok .executed, m₁) ∧ m₁.counter = target ∧
        m₁.depth.toNat = m.depth.toNat + 1 ∧
        ∀ attempts, ∃ outcomes m₂, m₁.attempt attempts = some (outcomes, m₂) ∧
          (m₁.StaysDeep (m.depth.toNat + 1) attempts →
            (∀ place, place < m.depth.toNat → m₂.stack[place]? = m.stack[place]?) ∧
            ∃ address, m₂.stack[m.depth.toNat]? = some address ∧
              address.toNat = (m.counter.toNat + 2) % 0x1000 ∧
              (m₂.depth.toNat = m.depth.toNat + 1 → m₂.next? = some .ret →
                ∃ m₃, m₂.cycle = some (.ok .executed, m₃) ∧ m₃.counter = address ∧
                  m₃.depth = m.depth))) ∧
    ∀ (mode : Mode) (random : Random) (memory : Memory), memory.bytes.size = Memory.size →
      ∀ attempts, ∃ outcomes m',
        ({ fresh mode random with memory } : Machine).attempt attempts = some (outcomes, m') ∧
        m'.depth.toNat ≤ 16 ∧
        m'.stack.toList.take m'.depth.toNat =
          (({ fresh mode random with memory } : Machine).pending [] attempts).reverse := by
  constructor
  · intro m target full whole room hi
    obtain ⟨opcode, hcycle⟩ := cycle_call hi room
    have sturdy : m.Sturdy := ⟨Nat.le_of_eq full.symm, Nat.le_of_lt room, whole.drawable⟩
    obtain ⟨_, m₁, hcycle₁, sturdy₁⟩ := sturdy.exists_cycle
    obtain ⟨rfl, rfl⟩ := Prod.mk.inj (Option.some.inj (hcycle₁.symm.trans hcycle))
    have room : ({ m with opcode } : Machine).depth.toNat < 16 := room
    refine ⟨_, hcycle, rfl, depth_call room, fun attempts => ?_⟩
    obtain ⟨outcomes, m₂, hattempt, -⟩ := sturdy₁.exists_attempt attempts
    refine ⟨outcomes, m₂, hattempt, fun deep => ?_⟩
    have pushed : m₂.stack[m.depth.toNat]? = some m.advance.counter := by
      rw [stack_attempt_below deep hattempt (Nat.lt_succ_self _)]
      exact Vector.getElem?_set_self room
    refine ⟨?_, m.advance.counter, pushed, toNat_counter_advance m, ?_⟩
    · intro place below
      rw [stack_attempt_below deep hattempt (Nat.lt_succ_of_lt below)]
      exact stack_cycle_below hcycle below
    · intro depth hret
      rw [show m.depth.toNat = m₂.depth.toNat - 1 by omega] at pushed
      obtain ⟨_, hcycle₂⟩ := cycle_ret hret (by omega) pushed
      refine ⟨_, hcycle₂, rfl, UInt8.toNat_inj.1 ?_⟩
      show (m₂.depth - 1).toNat = m.depth.toNat
      rw [toNat_depth_sub_one (depth_ne_zero (by omega))]
      omega
  · intro mode random memory full attempts
    have fit := wellFormed_fresh mode random
    have sturdy : ({ fresh mode random with memory } : Machine).Sturdy :=
      ⟨Nat.le_of_eq full.symm, fit.depth, fit.whole.drawable⟩
    have empty : ({ fresh mode random with memory } : Machine).Nested [] :=
      ⟨rfl, fun place below => absurd below (Nat.not_lt_zero place)⟩
    obtain ⟨outcomes, m', hattempt, hm'⟩ := sturdy.exists_attempt attempts
    exact ⟨outcomes, m', hattempt, hm'.depth, (empty.attempt hattempt).take_eq⟩

/-- A call of 0x204, which calls the return at 0x208 and then returns itself, with a key and ticks in
between, comes back to 0x202. -/
theorem calls_nest_twice :
    let program : List UInt8 := [0x22, 0x04, 0x12, 0x02, 0x22, 0x08, 0x00, 0xEE, 0x00, 0xEE]
    let between : List Attempt := [.cycle, .setKeypad (.ofKeys [5]), .cycle, .tickTimers 3]
    ∃ memory, Memory.blank.load program = some (.ok memory) ∧
      memory.bytes.size = Memory.size ∧
      let m : Machine := { fresh ⟨false, false⟩ (.ofSeed 3) with memory }
      m.screen.Whole ∧ m.next? = some (.call 0x204) ∧
      ∃ m₁ m₂ m₃, m.cycle = some (.ok .executed, m₁) ∧ m₁.next? = some (.call 0x208) ∧
        m₁.StaysDeep 1 between ∧
        m₁.attempt between = some ([.ok .executed, .ok .executed], m₂) ∧ m₂.next? = some .ret ∧
        m₂.cycle = some (.ok .executed, m₃) ∧ m₃.counter = 0x202 ∧ m₃.depth = 0 ∧
        ∃ outcomes m', m.attempt [.cycle, .cycle] = some (outcomes, m') ∧
          m'.stack.toList.take m'.depth.toNat = [0x202, 0x206] := by
  intro program between
  obtain ⟨memory, hload, full⟩ := Memory.exists_load_blank (by decide : program.length ≤ _)
  let m : Machine := { fresh ⟨false, false⟩ (.ofSeed 3) with memory }
  have fit : m.WellFormed := { wellFormed_fresh ⟨false, false⟩ (.ofSeed 3) with memory := full }
  have outer : m.next? = some (.call 0x204) := next?_of_load hload 0 rfl rfl rfl (by decide)
  have room : m.depth.toNat < 16 := Nat.zero_lt_succ 15
  obtain ⟨hnest, hpending⟩ := calls_nest
  obtain ⟨m₁, hcycle₁, counter₁, depth₁, hafter₁⟩ := hnest m 0x204 full fit.whole room outer
  have depth₁ : m₁.depth.toNat = 1 := depth₁
  have memory₁ : m₁.memory = memory := (frame_cycle outer hcycle₁).memory (by simp) (by simp)
  have fit₁ : m₁.WellFormed := fit.cycle hcycle₁
  have inner : m₁.next? = some (.call 0x208) :=
    next?_of_load (memory₁ ▸ hload) 4 counter₁ rfl rfl (by decide)
  -- The call inside is a case of the statement as well, with a key before its return.
  obtain ⟨m₂, hcycle₂, counter₂, depth₂, hafter₂⟩ :=
    hnest m₁ 0x208 fit₁.memory fit₁.whole (by rw [depth₁]; decide) inner
  have memory₂ : m₂.memory = memory :=
    ((frame_cycle inner hcycle₂).memory (by simp) (by simp)).trans memory₁
  obtain ⟨_, _, hkey, hdeep₂⟩ := hafter₂ [.setKeypad (.ofKeys [5])]
  cases hkey
  have innerReturn : (m₂.setKeypad (.ofKeys [5])).next? = some .ret :=
    next?_of_load (memory₂ ▸ hload) 8 counter₂ rfl rfl (by decide)
  have deep₂ : m₂.StaysDeep (m₁.depth.toNat + 1) [.setKeypad (.ofKeys [5])] :=
    StaysDeep.setKeypad_iff.2 (StaysDeep.nil_iff.2 (Nat.le_of_eq depth₂.symm))
  obtain ⟨-, address₂, -, haddress₂, hreturns₂⟩ := hdeep₂ deep₂
  obtain ⟨m₃, hcycle₃, counter₃, depth₃⟩ := hreturns₂ depth₂ innerReturn
  have memory₃ : m₃.memory = memory :=
    ((frame_cycle innerReturn hcycle₃).memory (by simp) (by simp)).trans memory₂
  have afterInner : m₁.advance.counter = 0x206 := by
    show (m₁.counter + 2) % 0x1000 = 0x206
    rw [counter₁]
    decide
  have back₃ : m₃.counter = 0x206 := by
    rw [counter₃, ← afterInner]
    exact UInt16.toNat_inj.1 (haddress₂.trans (toNat_counter_advance m₁).symm)
  have outerReturn : (m₃.tickTimers 3).next? = some .ret :=
    next?_of_load (memory₃ ▸ hload) 6 back₃ rfl rfl (by decide)
  have deep₁ : m₁.StaysDeep 1 between := by
    refine (StaysDeep.cycle_iff hcycle₂).2 ⟨Nat.le_of_eq depth₁.symm, StaysDeep.setKeypad_iff.2 ?_⟩
    refine (StaysDeep.cycle_iff hcycle₃).2 ⟨?_, StaysDeep.tickTimers_iff.2 (StaysDeep.nil_iff.2 ?_)⟩
    · show 1 ≤ m₂.depth.toNat
      omega
    · show 1 ≤ m₃.depth.toNat
      rw [depth₃]
      exact Nat.le_of_eq depth₁.symm
  have run₁ : m₁.attempt between =
      some ([.ok .executed, .ok .executed], m₃.tickTimers 3) := by
    refine attempt_cycle_eq_some_iff.2 ⟨_, m₂, [.ok .executed], hcycle₂, ?_, rfl⟩
    exact attempt_cycle_eq_some_iff.2 ⟨_, m₃, [], hcycle₃, rfl, rfl⟩
  obtain ⟨_, m₄, hattempt, hdeep₁⟩ := hafter₁ between
  obtain ⟨rfl, rfl⟩ := Prod.mk.inj (Option.some.inj (hattempt.symm.trans run₁))
  obtain ⟨-, address₁, -, haddress₁, hreturns₁⟩ := hdeep₁ deep₁
  have depth₄ : (m₃.tickTimers 3).depth.toNat = m.depth.toNat + 1 :=
    (congrArg UInt8.toNat depth₃).trans depth₁
  obtain ⟨m₅, hcycle₅, counter₅, depth₅⟩ := hreturns₁ depth₄ outerReturn
  obtain ⟨outcomes, m', hrun, -, hstack⟩ :=
    hpending ⟨false, false⟩ (.ofSeed 3) memory full [.cycle, .cycle]
  have calls : m.pending [] [.cycle, .cycle] = [0x206, 0x202] := by
    simp only [pending, hcycle₁, hcycle₂, follow_call outer, follow_call inner, afterInner]
    rfl
  refine ⟨memory, hload, full, fit.whole, outer, m₁, _, m₅, hcycle₁, inner, deep₁, run₁, outerReturn,
    hcycle₅, ?_, depth₅, outcomes, m', hrun, ?_⟩
  · rw [counter₅]
    exact UInt16.toNat_inj.1 haddress₁
  · exact hstack.trans (congrArg List.reverse calls)

end Machine

end Chip8
