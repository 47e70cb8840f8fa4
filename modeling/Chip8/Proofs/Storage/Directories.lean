import Chip8.Proofs.Storage.Paths
import Chip8.Proofs.Storage.Ways

/-!
# Directories that are made

Whether all directories of a path can be made is settled the first time:

    d.makeDirectories path = (.ok (), d') → d'.isDirectory path
                                                              (isDirectory_makeDirectories)
    d.isDirectory path → d.makeDirectories path = (.ok (), d)
                                                              (makeDirectories_of_isDirectory)
    d.makeDirectories path = (.error problem, d') →
      ∃ problem', d'.makeDirectories path = (.error problem', d')
                                                              (makeDirectories_error_again)

The last would fail if what is above a directory could be out of reach when the directory itself
is not.  It cannot: the path of what is above is told anew from its names and is no longer
(`Path.namesOn_above`), and the way there is the same up to its last name (`isDirectory_above`).
-/

namespace Chip8

namespace Disk

/-! ## One directory -/

theorem makeDirectory_eq_ok_iff {d d' : Disk} {path : Path} :
    d.makeDirectory path = .ok d' ↔ ∃ place, d.locateDirectory path = .ok place ∧
      d.lookup? place = none ∧ d' = d.put place .directory := by
  unfold makeDirectory
  cases d.locateDirectory path with
  | error problem => simp [bind, Except.bind]
  | ok place =>
    cases hplace : d.lookup? place with
    | none => simp [bind, Except.bind, hplace, eq_comm]
    | some entry => simp [bind, Except.bind, hplace]

/-- A directory that was there or was made: the way to it was open before. -/
theorem ensureDirectory_eq_ok {d d' : Disk} {path : Path}
    (h : d.ensureDirectory path = (.ok (), d')) :
    d'.isDirectory path = true ∧ namesOn path = .ok path.names ∧
      ∃ place, d.follow [] path.names = .ok place := by
  unfold ensureDirectory at h
  split at h
  · next d₁ hmake =>
    cases h
    obtain ⟨place, hlocate, hplace, rfl⟩ := makeDirectory_eq_ok_iff.1 hmake
    obtain ⟨hnames, hfollow⟩ := locateDirectory_eq_ok_iff.1 hlocate
    have hroot : place ≠ [] := by
      rintro rfl
      cases (lookup?_root d).symm.trans hplace
    have made : ∀ other, d.lookup? other = some .directory ∨ other = place →
        (d.put place .directory).lookup? other = some .directory := by
      intro other hother
      rw [lookup?_put _ _ _ _ hroot]
      split
      · rfl
      · next differs => exact hother.resolve_right differs
    have there := follow_mono (fun other hother => made other (.inl hother)) hfollow
    have hdot := follow_dot_eq_ok_iff.2 ⟨there, made place (.inr rfl)⟩
    exact ⟨isDirectory_iff.2 ⟨hnames, place, hdot⟩, hnames, place, hfollow⟩
  · next problem hmake =>
    by_cases there : d.isDirectory path = true
    · rw [if_pos there] at h
      cases h
      obtain ⟨hnames, place, hfollow⟩ := isDirectory_iff.1 there
      exact ⟨there, hnames, place, (follow_dot_eq_ok_iff.1 hfollow).1⟩
    · rw [if_neg there] at h
      cases h

theorem ensureDirectory_of_isDirectory {d : Disk} {path : Path} (h : d.isDirectory path = true) :
    d.ensureDirectory path = (.ok (), d) := by
  unfold ensureDirectory
  split
  · next d' hmake =>
    obtain ⟨place, hlocate, hplace, -⟩ := makeDirectory_eq_ok_iff.1 hmake
    obtain ⟨-, there, hthere⟩ := isDirectory_iff.1 h
    obtain ⟨hfollow, hdirectory⟩ := follow_dot_eq_ok_iff.1 hthere
    rw [(locateDirectory_eq_ok_iff.1 hlocate).2] at hfollow
    cases hfollow
    rw [hplace] at hdirectory
    cases hdirectory
  · rw [if_pos h]

theorem ensureDirectory_eq_error {d d' : Disk} {path : Path} {problem : DiskError}
    (h : d.ensureDirectory path = (.error problem, d')) : d' = d := by
  unfold ensureDirectory at h
  split at h
  · cases h
  · exact (congrArg Prod.snd h).symm

/-! ## Directories above it -/

/-- What is above a directory is on the way to it. -/
theorem isDirectory_above {d : Disk} {path : Path} {name : String} {others : List String}
    (h : path.above = name :: others) (hnames : namesOn path = .ok path.names) {place : Place}
    (hfollow : d.follow [] path.names = .ok place) :
    d.isDirectory (.ofNames (name :: others).reverse) = true := by
  obtain ⟨last, hlast⟩ := Path.exists_names_of_above h
  have hway := follow_without_dots hfollow
  rw [hlast, follow_append_eq_ok_iff] at hway
  obtain ⟨mid, hmid, hstep⟩ := hway
  have hdot := follow_dot_eq_ok_iff.2 ⟨hmid, (follow_cons_eq_ok_iff.1 hstep).1⟩
  rw [isDirectory_iff, Path.names_above h]
  exact ⟨Path.namesOn_above h hnames, mid, hdot⟩

theorem ensureWith_of_isDirectory {d : Disk} {path : Path} (h : d.isDirectory path = true)
    (above : List String) : d.ensureWith path above = (.ok (), d) := by
  have there := ensureDirectory_of_isDirectory h
  cases above with
  | nil => exact there
  | cons name above => rw [ensureWith, there]

/-- Only a directory whose way is missing has the one above it made. -/
theorem ensureWith_settled {d : Disk} {path : Path}
    (h : d.ensureDirectory path ≠ (.error .notFound, d)) (above : List String) :
    d.ensureWith path above = d.ensureDirectory path := by
  cases above with
  | nil => rfl
  | cons name above =>
    rw [ensureWith]
    split
    · next d₁ hfirst =>
      obtain rfl := ensureDirectory_eq_error hfirst
      exact absurd hfirst h
    · rfl

theorem ensureWith_missing {d : Disk} {path : Path}
    (h : d.ensureDirectory path = (.error .notFound, d)) (name : String) (above : List String) :
    d.ensureWith path (name :: above) =
      match d.ensureWith (.ofNames (name :: above).reverse) above with
      | (.ok (), d) => d.ensureDirectory path
      | (.error problem, d) => (.error problem, d) := by
  rw [ensureWith, h]
  simp only
  rcases d.ensureWith (.ofNames (name :: above).reverse) above with ⟨problem | ⟨⟩, d₁⟩ <;> rfl

theorem isDirectory_ensureWith {d d' : Disk} {path : Path} {above : List String}
    (h : d.ensureWith path above = (.ok (), d')) : d'.isDirectory path = true := by
  by_cases missing : d.ensureDirectory path = (.error .notFound, d)
  · cases above with
    | nil => exact (ensureDirectory_eq_ok h).1
    | cons name above =>
      rw [ensureWith_missing missing] at h
      split at h
      · exact (ensureDirectory_eq_ok h).1
      · cases h
  · rw [ensureWith_settled missing] at h
    exact (ensureDirectory_eq_ok h).1

/-- Where not all directories can be made, they cannot be made with those that were. -/
theorem ensureWith_error_again {above : List String} {d d' : Disk} {path : Path}
    {problem : DiskError} (habove : path.above = above)
    (h : d.ensureWith path above = (.error problem, d')) :
    ∃ problem', d'.ensureWith path above = (.error problem', d') := by
  induction above generalizing d d' path problem with
  | nil =>
    obtain rfl := ensureDirectory_eq_error h
    exact ⟨problem, h⟩
  | cons name above ih =>
    by_cases missing : d.ensureDirectory path = (.error .notFound, d)
    · rw [ensureWith_missing missing] at h
      split at h
      · next d₁ hrest =>
        -- what is above it is there now, so the second time is no different
        obtain rfl := ensureDirectory_eq_error h
        have there := ensureWith_of_isDirectory (isDirectory_ensureWith hrest) above
        by_cases still : d'.ensureDirectory path = (.error .notFound, d')
        · rw [ensureWith_missing still, there]
          exact ⟨problem, h⟩
        · rw [ensureWith_settled still]
          exact ⟨problem, h⟩
      · next problem₁ d₁ hrest =>
        cases h
        obtain ⟨problem', again⟩ := ih (Path.above_above habove) hrest
        rcases hdirect : d'.ensureDirectory path with ⟨problem₂ | ⟨⟩, d₂⟩
        · obtain rfl := ensureDirectory_eq_error hdirect
          by_cases still : d₂.ensureDirectory path = (.error .notFound, d₂)
          · rw [ensureWith_missing still, again]
            exact ⟨problem', rfl⟩
          · rw [ensureWith_settled still]
            exact ⟨problem₂, hdirect⟩
        · -- the way to it would lead through what is above it
          obtain ⟨-, hnames, place, hfollow⟩ := ensureDirectory_eq_ok hdirect
          have above_there := isDirectory_above habove hnames hfollow
          rw [ensureWith_of_isDirectory above_there] at again
          cases again
    · rw [ensureWith_settled missing] at h
      obtain rfl := ensureDirectory_eq_error h
      rw [ensureWith_settled missing]
      exact ⟨problem, h⟩

/-! ## All of them -/

section
variable {d d' : Disk} {path : Path}

theorem makeDirectories_of_isDirectory (h : d.isDirectory path = true) :
    d.makeDirectories path = (.ok (), d) :=
  ensureWith_of_isDirectory h _

theorem isDirectory_makeDirectories (h : d.makeDirectories path = (.ok (), d')) :
    d'.isDirectory path = true :=
  isDirectory_ensureWith h

theorem makeDirectories_error_again {problem : DiskError}
    (h : d.makeDirectories path = (.error problem, d')) :
    ∃ problem', d'.makeDirectories path = (.error problem', d') :=
  ensureWith_error_again rfl h

end

end Disk

end Chip8
