import Mathlib.Data.List.Induction
import Chip8.Proofs.Play.Refinement

/-!
# Selecting slots

The slots lie in a circle: the first comes after the last, and the last before the first.  A step
turns it by one, and commands turn it as far as the steps forward exceed the steps back:

    s.browse commands = some s' → s.Turns s' (turned commands)                    (turns_browse)

A step back adds the number of slots before it takes one off, and that sum has to fit 64 bits.
Nothing else keeps commands from selecting a slot (`isSome_browse_iff`), so with up to 2⁶³ slots
every command goes through, and with more of them two steps back do not (`browse_cyclic`).
-/

namespace Chip8.Slots

/-- Slots with another selection, so many steps on in the circle. -/
structure Turns (s s' : Slots) (steps : Int) : Prop where
  same : s' = { s with selected := s'.selected }
  inside : s'.selected < s.count
  selected : (s'.selected.toNat : Int) = (s.selected.toNat + steps) % s.count.toNat

/-- How far commands turn the circle: steps forward less steps back. -/
def turned (commands : List Command) : Int :=
  commands.count .nextSlot - commands.count .previousSlot

section
variable {s s' s₁ s₂ : Slots}

/-! ## Turns -/

namespace Turns

theorem count {steps : Int} (h : s.Turns s' steps) : s'.count = s.count := by rw [h.same]

theorem trans {a b : Int} (ha : s.Turns s₁ a) (hb : s₁.Turns s₂ b) : s.Turns s₂ (a + b) where
  same := by rw [hb.same, ha.same]
  inside := ha.count ▸ hb.inside
  selected := by
    rw [hb.selected, ha.selected, ha.count, Int.emod_add_emod, Int.add_assoc]

end Turns

theorem turns_refl (hselected : s.selected < s.count) : s.Turns s 0 where
  same := rfl
  inside := hselected
  selected := by
    have small : (s.selected.toNat : Int) < s.count.toNat :=
      Int.ofNat_lt.2 (UInt64.lt_iff_toNat_lt.1 hselected)
    rw [Int.add_zero, Int.emod_eq_of_lt (Int.natCast_nonneg _) small]

/-- Where the steps cancel out, nothing has changed. -/
theorem Turns.eq_of_zero (h : s.Turns s' 0) (hselected : s.selected < s.count) : s' = s := by
  have back : (s'.selected.toNat : Int) = s.selected.toNat :=
    h.selected.trans (turns_refl hselected).selected.symm
  rw [h.same, UInt64.toNat_inj.1 (Int.ofNat_inj.1 back)]

/-! ## One step -/

/-- The first of the slots is selected, and it is one of them. -/
theorem first_of_open? {directory : Path} {program : String} {count : UInt64}
    (h : open? directory program count = some s) :
    s.selected = 0 ∧ count = s.count ∧ s.selected < s.count := by
  unfold open? at h
  split at h
  · cases h
  · next hzero =>
    cases h
    have hpos : 0 < count.toNat := Nat.pos_of_ne_zero fun h => hzero (UInt64.toNat_inj.1 h)
    exact ⟨rfl, rfl, UInt64.lt_iff_toNat_lt.2 hpos⟩

theorem count_pos (hselected : s.selected < s.count) : 0 < s.count.toNat :=
  Nat.zero_lt_of_lt (UInt64.lt_iff_toNat_lt.1 hselected)

/-- The selection is below the number of slots, so there is room for one more. -/
theorem selected_succ_lt (hselected : s.selected < s.count) :
    s.selected.toNat + 1 < UInt64.size :=
  Nat.lt_of_le_of_lt (UInt64.lt_iff_toNat_lt.1 hselected) s.count.toNat_lt

theorem turns_selectNext (hselected : s.selected < s.count) : s.Turns s.selectNext 1 where
  same := rfl
  inside := mod_count_lt hselected _
  selected := by
    have hsum : (s.selected + 1).toNat = s.selected.toNat + 1 := by
      rw [UInt64.toNat_add]
      exact Nat.mod_eq_of_lt (selected_succ_lt hselected)
    show (((s.selected + 1) % s.count).toNat : Int) = _
    rw [UInt64.toNat_mod, hsum]
    push_cast
    rfl

theorem isSome_selectPrevious?_iff :
    s.selectPrevious?.isSome ↔ s.selected.toNat + s.count.toNat < UInt64.size := by
  unfold selectPrevious?
  split <;> simp_all

theorem turns_selectPrevious? (hselected : s.selected < s.count)
    (h : s.selectPrevious? = some s') : s.Turns s' (-1) := by
  unfold selectPrevious? at h
  split at h
  · next fits =>
    cases h
    refine ⟨rfl, mod_count_lt hselected _, ?_⟩
    have hpos := count_pos hselected
    have hsum : (s.selected + s.count).toNat = s.selected.toNat + s.count.toNat := by
      rw [UInt64.toNat_add]
      exact Nat.mod_eq_of_lt fits
    have hone : (1 : UInt64) ≤ s.selected + s.count := by
      rw [UInt64.le_iff_toNat_le, hsum]
      show 1 ≤ _
      omega
    have hback : ((s.selected.toNat + s.count.toNat - 1 : Nat) : Int) =
        (s.selected.toNat + -1 : Int) + s.count.toNat := by omega
    show (((s.selected + s.count - 1) % s.count).toNat : Int) = _
    rw [UInt64.toNat_mod, UInt64.toNat_sub_of_le _ _ hone, hsum]
    show (((s.selected.toNat + s.count.toNat - 1) % s.count.toNat : Nat) : Int) = _
    rw [Int.natCast_emod, hback, Int.add_emod_right]
  · cases h

/-! ## Many steps -/

/-- By induction on the commands, from any selection. -/
theorem turns_browse {commands : List Command} (hselected : s.selected < s.count)
    (h : s.browse commands = some s') : s.Turns s' (turned commands) := by
  induction commands generalizing s with
  | nil =>
    cases h
    exact turns_refl hselected
  | cons c later ih =>
    cases c with
    | quit | save | load =>
      have rest := ih hselected h
      simpa [turned] using rest
    | nextSlot =>
      have first := turns_selectNext hselected
      have rest := ih (s := s.selectNext) first.inside h
      have hturned : turned (.nextSlot :: later) = 1 + turned later := by
        simp [turned]
        omega
      exact hturned ▸ first.trans rest
    | previousSlot =>
      obtain ⟨s₁, hprevious, hrest⟩ := Option.bind_eq_some_iff.1 h
      have first := turns_selectPrevious? hselected hprevious
      have rest := ih (s := s₁) (first.count ▸ first.inside) hrest
      have hturned : turned (.previousSlot :: later) = -1 + turned later := by
        simp [turned]
        omega
      exact hturned ▸ first.trans rest

/-- There is room for a step back after some commands. -/
def Fits (s : Slots) (commands : List Command) : Prop :=
  (s.selected.toNat + turned commands) % s.count.toNat + s.count.toNat < (UInt64.size : Int)

theorem Turns.fits_iff {commands : List Command} (h : s.Turns s' (turned commands)) :
    s.Fits commands ↔ s'.selectPrevious?.isSome := by
  rw [isSome_selectPrevious?_iff, Fits, ← h.selected, h.count]
  omega

/-- By induction on the commands from the last one back: all that is asked is room for each step back
after the commands before it. -/
theorem isSome_browse_iff (hselected : s.selected < s.count) (commands : List Command) :
    (s.browse commands).isSome ↔
      ∀ before, before ++ [.previousSlot] <+: commands → s.Fits before := by
  induction commands using List.reverseRecOn with
  | nil => simp [browse]
  | append_singleton commands c ih =>
    have steps : (∀ before, before ++ [.previousSlot] <+: commands ++ [c] → s.Fits before) ↔
        (c = .previousSlot → s.Fits commands) ∧
          ∀ before, before ++ [.previousSlot] <+: commands → s.Fits before := by
      simp only [List.prefix_concat_iff, or_imp, forall_and]
      refine and_congr_left fun _ => ?_
      constructor
      · rintro last rfl
        exact last commands rfl
      · intro last before same
        obtain ⟨rfl, hc⟩ := List.append_inj' same rfl
        exact last (List.singleton_inj.1 hc).symm
    rw [steps, ← ih, browse_append]
    cases hbrowse : s.browse commands with
    | none => simp
    | some s₁ =>
      have hturns := turns_browse hselected hbrowse
      rw [hturns.fits_iff, Option.bind_some]
      cases c with
      | quit | save | load | nextSlot => simp [browse]
      | previousSlot => simp [browse]

/-- A step back and one forward, in either order, lead to where they began. -/
theorem selectNext_of_selectPrevious? (hselected : s.selected < s.count)
    (h : s.selectPrevious? = some s') : s'.selectNext = s := by
  have back := turns_selectPrevious? hselected h
  have forth := turns_selectNext (s := s') (back.count ▸ back.inside)
  exact (back.trans forth).eq_of_zero hselected

theorem selectPrevious?_of_selectNext (hselected : s.selected < s.count)
    (h : s.selectNext.selectPrevious? = some s') : s' = s := by
  have forth := turns_selectNext hselected
  have back := turns_selectPrevious? (s := s.selectNext) forth.inside h
  exact (forth.trans back).eq_of_zero hselected

/-! ## Main statement -/

/-- From new slots every selection is below their number, with room for a step forward, and as far
round as the commands have turned; a step back and one forward undo each other in either order.  A
step back needs room for the selection and the number of slots together.  Commands go through just
if each of their steps back has it, and all commands do just with up to 2⁶³ slots. -/
theorem browse_cyclic {directory : Path} {program : String} {count : UInt64}
    (hopen : open? directory program count = some s) :
    (∀ commands s', s.browse commands = some s' →
      s' = { s with selected := s'.selected } ∧ s'.selected < count ∧
      s'.selected.toNat + 1 < UInt64.size ∧
      (s'.selected.toNat : Int) = turned commands % count.toNat ∧
      (∀ later, s'.selectPrevious? = some later → later.selectNext = s') ∧
      ∀ later, s'.selectNext.selectPrevious? = some later → later = s') ∧
    (∀ commands, (s.browse commands).isSome ↔ ∀ before, before ++ [.previousSlot] <+: commands →
      turned before % count.toNat + count.toNat < (UInt64.size : Int)) ∧
    ((∀ commands, (s.browse commands).isSome) ↔ 2 * count.toNat ≤ UInt64.size) := by
  obtain ⟨hfirst, rfl, hselected⟩ := first_of_open? hopen
  have fits (commands : List Command) : s.Fits commands ↔
      turned commands % s.count.toNat + s.count.toNat < (UInt64.size : Int) := by
    rw [Fits, hfirst]
    simp
  refine ⟨?_, ?_, ?_, ?_⟩
  · intro commands s' h
    have hturns := turns_browse hselected h
    have inside : s'.selected < s'.count := hturns.count ▸ hturns.inside
    have position : (s'.selected.toNat : Int) = turned commands % s.count.toNat := by
      simpa [hfirst] using hturns.selected
    exact ⟨hturns.same, hturns.inside, selected_succ_lt inside, position,
      fun later => selectNext_of_selectPrevious? inside,
      fun later => selectPrevious?_of_selectNext inside⟩
  · intro commands
    rw [isSome_browse_iff hselected]
    exact forall₂_congr fun before _ => fits before
  · intro all
    -- Two steps back: the second starts from the last slot.
    have room := (isSome_browse_iff hselected _).1 (all [.previousSlot, .previousSlot])
      [.previousSlot] List.prefix_rfl
    rw [fits] at room
    have hpos := count_pos hselected
    have last : turned [.previousSlot] % s.count.toNat = s.count.toNat - 1 := by
      show (-1 : Int) % s.count.toNat = _
      rw [← Int.add_emod_right, Int.emod_eq_of_lt (by omega) (by omega)]
      omega
    omega
  · intro half commands
    exact Option.isSome_iff_exists.2 (exists_browse hselected half commands)

end

/-- As many slots as there can be while every command goes through: round to the last, one further
back, and on again. -/
theorem browse_cyclic_half :
    let s : Slots := ⟨⟨"saves"⟩, "pong", 0x8000000000000000, 0⟩
    let commands : List Command := [.previousSlot, .previousSlot, .nextSlot]
    open? ⟨"saves"⟩ "pong" 0x8000000000000000 = some s ∧
      ∃ s', s.browse commands = some s' ∧ s'.selected = 0x7FFFFFFFFFFFFFFF ∧
        (s'.selected.toNat : Int) = turned commands % (0x8000000000000000 : UInt64).toNat ∧
        ∀ later, s'.selectPrevious? = some later → later.selectNext = s' := by
  intro s commands
  have hopen : open? ⟨"saves"⟩ "pong" 0x8000000000000000 = some s := by decide
  obtain ⟨spec, -, -⟩ := browse_cyclic hopen
  have hbrowse : s.browse commands =
    some { s with selected := 0x7FFFFFFFFFFFFFFF } := by decide +kernel
  obtain ⟨-, -, -, hturned, hback, -⟩ := spec commands _ hbrowse
  exact ⟨hopen, _, hbrowse, rfl, hturned, hback⟩

/-- With one slot more than that there is no room for the second step back. -/
theorem browse_eq_none_past_half :
    ∃ s : Slots, open? ⟨"saves"⟩ "pong" 0x8000000000000001 = some s ∧
      s.browse [.previousSlot, .previousSlot] = none :=
  ⟨⟨⟨"saves"⟩, "pong", 0x8000000000000001, 0⟩, by decide, by decide +kernel⟩

end Chip8.Slots
