import Mathlib.Algebra.GroupWithZero.Nat
import Chip8.Play.Settings
import Chip8.Proofs.Play.Cadence

/-!
# Ticks over a long time

A cadence loses no time between two calls.  Over many calls its ticks come to the multiples of the
period in all the time that has passed, however it was cut into calls, and the rest of that time is
what is left (`advanceAll_chopped`).

Time is lost where the cadence is made.  A period is a whole number of nanoseconds, so a second cut
by the rate leaves `second % rate` of them over, and a cadence that starts is too fast by as much in
every second.  After `n` seconds, with times cut in any way,

    ticks.sum = n * rate + n * (second % rate) / (second / rate)               (advanceAll_seconds)

which is `n * rate` as long as all that was left over does not make a period, and for ever just where
the rate divides a second.  At sixty ticks a second the first tick too many comes in the fifth day
(`default_gains_tick`).
-/

namespace Chip8

namespace Cadence

/-! ## However time is cut -/

/-- The multiples of a period that each of some times passes. -/
def dueEach (period : Nat) : Nat → List Nat → List Nat
  | _, [] => []
  | before, elapsed :: later => due period before elapsed :: dueEach period (before + elapsed) later

/-- No multiple is passed twice, and none is left out. -/
theorem div_add_sum_dueEach (period before : Nat) (times : List Nat) :
    before / period + (dueEach period before times).sum = (before + times.sum) / period := by
  induction times generalizing before with
  | nil => rfl
  | cons elapsed later ih =>
    have grows : before / period ≤ (before + elapsed) / period :=
      Nat.div_le_div_right (Nat.le_add_right _ _)
    have rest := ih (before + elapsed)
    rw [dueEach, due, List.sum_cons, List.sum_cons, ← Nat.add_assoc before]
    omega

theorem sum_dueEach (period : Nat) (times : List Nat) :
    (dueEach period 0 times).sum = times.sum / period := by
  have all := div_add_sum_dueEach period 0 times
  rwa [Nat.zero_div, Nat.zero_add, Nat.zero_add] at all

theorem dueEach_append (period before : Nat) (times later : List Nat) :
    dueEach period before (times ++ later) =
      dueEach period before times ++ dueEach period (before + times.sum) later := by
  induction times generalizing before with
  | nil => rfl
  | cons elapsed times ih =>
    rw [List.cons_append, dueEach, dueEach, ih, List.sum_cons, Nat.add_assoc, List.cons_append]

/-- By induction on the times, for any time before: what is left is the remainder of it all. -/
theorem advanceAll_of_due {period before : Nat} (hperiod : 0 < period) {times : List Nat}
    (small : ∀ ticks ∈ dueEach period before times, ticks < UInt32.size) :
    (⟨period, before % period⟩ : Cadence).advanceAll times =
      some (dueEach period before times, ⟨period, (before + times.sum) % period⟩) := by
  induction times generalizing before with
  | nil => rfl
  | cons elapsed later ih =>
    rw [dueEach, List.forall_mem_cons] at small
    rw [List.sum_cons, ← Nat.add_assoc, advanceAll_cons_eq_some_iff]
    exact ⟨_, _, _, advance_of_due hperiod small.1, ih small.2, rfl⟩

/-- The same from the start of a cadence. -/
theorem exists_advanceAll {period : Nat} (hperiod : 0 < period) {times : List Nat}
    (small : ∀ ticks ∈ dueEach period 0 times, ticks < UInt32.size) :
    ∃ ticks, (⟨period, 0⟩ : Cadence).advanceAll times = some (ticks, ⟨period, times.sum % period⟩) ∧
      ticks.sum = times.sum / period := by
  refine ⟨dueEach period 0 times, ?_, sum_dueEach period times⟩
  have hall := advanceAll_of_due hperiod small
  rwa [Nat.zero_mod, Nat.zero_add] at hall

/-- A cadence that has just begun, given times of which none passes 2³² multiples of its period: after
each of them the ticks so far are the quotient of all the time so far by the period, and what is left
is its remainder.  So times with the same sum come to as many ticks and leave the same cadence. -/
theorem advanceAll_chopped {period : Nat} (hperiod : 0 < period) {times : List Nat}
    (small : ∀ ticks ∈ dueEach period 0 times, ticks < UInt32.size) :
    (∀ done later, times = done ++ later →
      ∃ ticks c, (⟨period, 0⟩ : Cadence).advanceAll done = some (ticks, c) ∧
        ticks.sum = done.sum / period ∧ c = ⟨period, done.sum % period⟩ ∧
        c.accumulated < c.period) ∧
    ∀ others, others.sum = times.sum →
      (∀ ticks ∈ dueEach period 0 others, ticks < UInt32.size) →
      ∃ ticks more c, (⟨period, 0⟩ : Cadence).advanceAll times = some (ticks, c) ∧
        (⟨period, 0⟩ : Cadence).advanceAll others = some (more, c) ∧ more.sum = ticks.sum := by
  constructor
  · rintro done later rfl
    have small : ∀ ticks ∈ dueEach period 0 done, ticks < UInt32.size := by
      intro ticks hticks
      rw [dueEach_append] at small
      exact small ticks (List.mem_append_left _ hticks)
    obtain ⟨ticks, hdone, hticks⟩ := exists_advanceAll hperiod small
    exact ⟨ticks, _, hdone, hticks, rfl, Nat.mod_lt _ hperiod⟩
  · intro others same smallOthers
    obtain ⟨ticks, htimes, hticks⟩ := exists_advanceAll hperiod small
    obtain ⟨more, hothers, hmore⟩ := exists_advanceAll hperiod smallOthers
    rw [same] at hothers hmore
    exact ⟨ticks, more, _, htimes, hothers, hmore.trans hticks.symm⟩

/-- Ten at once, or in five uneven calls, two of them with no time at all. -/
theorem advanceAll_chopped_ten :
    (∀ ticks ∈ dueEach 3 0 [10], ticks < UInt32.size) ∧
    (∀ ticks ∈ dueEach 3 0 [2, 0, 5, 0, 3], ticks < UInt32.size) ∧
    ∃ ticks more c, (⟨3, 0⟩ : Cadence).advanceAll [10] = some (ticks, c) ∧
      (⟨3, 0⟩ : Cadence).advanceAll [2, 0, 5, 0, 3] = some (more, c) ∧ more.sum = ticks.sum := by
  have small : ∀ ticks ∈ dueEach 3 0 [10], ticks < UInt32.size := by decide
  have smallOthers : ∀ ticks ∈ dueEach 3 0 [2, 0, 5, 0, 3], ticks < UInt32.size := by decide
  exact ⟨small, smallOthers,
    (advanceAll_chopped (by decide) small).2 [2, 0, 5, 0, 3] rfl smallOthers⟩

/-! ## Seconds -/

/-- A second is as many periods as there are ticks in it, and what the period was cut by. -/
theorem seconds_div_period {rate : Nat} (hperiod : 0 < second / rate) (n : Nat) :
    n * second / (second / rate) = n * rate + n * (second % rate) / (second / rate) := by
  have cut : n * second = n * (second % rate) + n * rate * (second / rate) := by
    rw [Nat.mul_assoc, ← Nat.mul_add, Nat.mod_add_div]
  rw [cut, Nat.add_mul_div_right _ _ hperiod, Nat.add_comm]

/-- Without a period there is no answer to any time. -/
theorem advanceAll_eq_none {c : Cadence} (still : c.period = 0) {times : List Nat}
    (some_time : times ≠ []) : c.advanceAll times = none := by
  cases times with
  | nil => exact absurd rfl some_time
  | cons elapsed later => simp [advanceAll, advance, still]

/-- What is left over in each second stays below a period for ever only if it is nothing. -/
theorem never_gains_iff {rate : Nat} (hperiod : 0 < second / rate) :
    (∀ m, m * (second % rate) < second / rate) ↔ rate ∣ second := by
  rw [Nat.dvd_iff_mod_eq_zero]
  constructor
  · intro below
    apply Nat.eq_zero_of_not_pos
    intro uneven
    have long := below (second / rate)
    have enough : second / rate * 1 ≤ second / rate * (second % rate) :=
      Nat.mul_le_mul_left _ uneven
    omega
  · intro even m
    rw [even, Nat.mul_zero]
    exact hperiod

/-- A rate that passes for a setting is above zero.  Over whole seconds, cut in any way, a cadence made
for it ticks at that rate and besides once for each period that its seconds have been cut by.  So it
keeps the rate over `n` seconds just if they have been cut by less than a period, and over any number
of them just if the rate divides a second.  Above a tick each nanosecond it has no period, and there is
no answer at all. -/
theorem advanceAll_seconds {rate : UInt32} (accepted : rate.toNat ≠ 0) {n : Nat} (hn : 0 < n)
    {times : List Nat} (htotal : times.sum = n * second) :
    (rate.toNat ≤ second →
      (∀ ticks ∈ dueEach (perSecond rate).period 0 times, ticks < UInt32.size) →
      ∃ ticks c, (perSecond rate).advanceAll times = some (ticks, c) ∧
        ticks.sum = n * rate.toNat + n * (second % rate.toNat) / (second / rate.toNat) ∧
        (ticks.sum = n * rate.toNat ↔ n * (second % rate.toNat) < second / rate.toNat)) ∧
    (rate.toNat ≤ second →
      ((∀ m, m * (second % rate.toNat) < second / rate.toNat) ↔ rate.toNat ∣ second)) ∧
    (second < rate.toNat → (perSecond rate).advanceAll times = none) := by
  have hperiod := period_perSecond_pos_iff accepted
  refine ⟨fun slow small => ?_, fun slow => never_gains_iff (hperiod.2 slow), fun fast => ?_⟩
  · obtain ⟨ticks, htimes, hticks⟩ := exists_advanceAll (hperiod.2 slow) small
    have count : ticks.sum = n * rate.toNat + n * (second % rate.toNat) / (second / rate.toNat) := by
      rw [hticks, htotal]
      exact seconds_div_period (hperiod.2 slow) n
    refine ⟨ticks, _, htimes, count, ?_⟩
    rw [count, Nat.add_eq_left]
    exact Nat.div_eq_zero_iff_lt (hperiod.2 slow)
  · have some_time : times ≠ [] := by
      rintro rfl
      have : 0 < n * second := Nat.mul_pos hn (by decide)
      rw [← htotal] at this
      cases this
    exact advanceAll_eq_none (by omega) some_time

/-- Two seconds at sixty ticks a second, cut unevenly: the rate is still kept. -/
theorem advanceAll_seconds_two :
    let times := [1, second, second - 1]
    times.sum = 2 * second ∧
      (∀ ticks ∈ dueEach (perSecond 60).period 0 times, ticks < UInt32.size) ∧
      ∃ ticks c, (perSecond 60).advanceAll times = some (ticks, c) ∧ ticks.sum = 2 * 60 := by
  intro times
  have htotal : times.sum = 2 * second := by decide
  have small : ∀ ticks ∈ dueEach (perSecond 60).period 0 times, ticks < UInt32.size := by decide
  obtain ⟨ticks, c, htimes, -, kept⟩ :=
    (advanceAll_seconds (by decide) (by decide) htotal).1 (by decide) small
  exact ⟨htotal, small, ticks, c, htimes, kept.2 (by decide)⟩

/-- The settings that a player begins with: after 416666 seconds that were cut by too little to
show, the next one has a tick too many. -/
theorem default_gains_tick :
    let rate := Settings.default.timerUpdatesPerSecond
    let times := [416666 * second, second]
    Settings.default.firstZero? = none ∧ times.sum = 416667 * second ∧
      (∀ ticks ∈ dueEach (perSecond rate).period 0 times, ticks < UInt32.size) ∧
      ∃ ticks c, (perSecond rate).advanceAll times = some (ticks, c) ∧
        ticks.sum = 416667 * rate.toNat + 1 := by
  exact ⟨by decide, by decide, by decide, [24999960, 61], _, rfl, by decide⟩

end Cadence

end Chip8
