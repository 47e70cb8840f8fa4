import Chip8.Proofs.Storage.Disk

/-!
# Ways

A way is open to its end and a step on the spot further just if it ends in a directory.  That makes
the directories of a disk a matter of its open ways (`isDirectory_iff`), and two disks with the same
open ways (`SameWays`) have the same directories on them.  Files may be put and erased:

    d.lookup? target ≠ some .directory → d.SameWays (d.put target (.file bytes))       (putFile)
    d.lookup? target ≠ some .directory → d.SameWays (d.erase target)                     (erase)

More directories keep the files that are within reach (`Grows.find?`), and on a tree bring none
within reach, but for steps upwards (`IsTree.follow`).
-/

namespace Chip8

namespace Disk

/-! ## Open ways -/

theorem follow_append_eq_ok_iff {d : Disk} {here place : Place} {front back : List String} :
    d.follow here (front ++ back) = .ok place ↔
      ∃ mid, d.follow here front = .ok mid ∧ d.follow mid back = .ok place := by
  induction front generalizing here with
  | nil => simp [follow]
  | cons name front ih =>
    simp only [List.cons_append, follow_cons_eq_ok_iff, ih]
    constructor
    · rintro ⟨hhere, hname, mid, hfront, hback⟩
      exact ⟨mid, ⟨hhere, hname, hfront⟩, hback⟩
    · rintro ⟨mid, ⟨hhere, hname, hfront⟩, hback⟩
      exact ⟨hhere, hname, mid, hfront, hback⟩

/-- A step on the spot is open where a directory is. -/
theorem follow_dot_eq_ok_iff {d : Disk} {here place : Place} {names : List String} :
    d.follow here (names ++ ["."]) = .ok place ↔
      d.follow here names = .ok place ∧ d.lookup? place = some .directory := by
  rw [follow_append_eq_ok_iff]
  constructor
  · rintro ⟨mid, hnames, hdot⟩
    obtain ⟨hmid, -, hplace⟩ := follow_cons_eq_ok_iff.1 hdot
    cases hplace
    exact ⟨hnames, hmid⟩
  · rintro ⟨hnames, hplace⟩
    exact ⟨place, hnames, follow_cons_eq_ok_iff.2 ⟨hplace, .inl rfl, rfl⟩⟩

/-- Steps on the spot may be left out. -/
theorem follow_without_dots {d : Disk} {here place : Place} {names : List String}
    (h : d.follow here names = .ok place) :
    d.follow here (names.filter (· ≠ ".")) = .ok place := by
  induction names generalizing here with
  | nil => exact h
  | cons name later ih =>
    obtain ⟨hhere, hname, hlater⟩ := follow_cons_eq_ok_iff.1 h
    by_cases dot : name = "."
    · subst dot
      rw [List.filter_cons_of_neg (by simp)]
      exact ih hlater
    · rw [List.filter_cons_of_pos (by simpa using dot)]
      exact follow_cons_eq_ok_iff.2 ⟨hhere, hname, ih hlater⟩

theorem namesOn_eq_ok {path : Path} {names : List String} (h : namesOn path = .ok names) :
    names = path.names := by
  unfold namesOn at h
  split at h
  · cases h
  · split at h <;> cases h
    rfl

theorem locateDirectory_eq_ok_iff {d : Disk} {path : Path} {place : Place} :
    d.locateDirectory path = .ok place ↔
      namesOn path = .ok path.names ∧ d.follow [] path.names = .ok place := by
  unfold locateDirectory
  cases hnames : namesOn path with
  | error problem => simp [bind, Except.bind]
  | ok names =>
    rw [namesOn_eq_ok hnames]
    simp [bind, Except.bind]

/-- Whether or not the path ends in a slash. -/
theorem isDirectory_iff {d : Disk} {path : Path} :
    d.isDirectory path = true ↔ namesOn path = .ok path.names ∧
      ∃ place, d.follow [] (path.names ++ ["."]) = .ok place := by
  unfold isDirectory find? locate
  cases hnames : namesOn path with
  | error problem => simp [bind, Except.bind]
  | ok names =>
    rw [namesOn_eq_ok hnames]
    simp only [bind, Except.bind, true_and]
    cases path.endsInSlash with
    | true =>
      rw [if_pos rfl]
      cases hfollow : d.follow [] (path.names ++ ["."]) with
      | error problem => simp
      | ok place => simp [(follow_dot_eq_ok_iff.1 hfollow).2]
    | false =>
      rw [if_neg (by simp)]
      simp only [follow_dot_eq_ok_iff]
      cases d.follow [] path.names with
      | error problem => simp
      | ok place => simp

/-! ## The same ways -/

/-- The same ways are open on two disks, and lead to directories on both. -/
def SameWays (d d' : Disk) : Prop :=
  ∀ names place, d.follow [] names = .ok place ↔ d'.follow [] names = .ok place

theorem find?_of_locate {d : Disk} {path : Path} {place : Place}
    (h : d.locate path = .ok place) : d.find? path = d.lookup? place := by
  rw [find?, h]

namespace SameWays

variable {d d' : Disk}

theorem refl (d : Disk) : d.SameWays d := fun _ _ => Iff.rfl

theorem symm (h : d.SameWays d') : d'.SameWays d := fun names place => (h names place).symm

theorem trans {d'' : Disk} (h : d.SameWays d') (h' : d'.SameWays d'') : d.SameWays d'' :=
  fun names place => (h names place).trans (h' names place)

theorem locate (h : d.SameWays d') {path : Path} {place : Place} :
    d.locate path = .ok place ↔ d'.locate path = .ok place := by
  unfold Disk.locate
  cases namesOn path with
  | error problem => simp [bind, Except.bind]
  | ok names => exact h _ place

theorem isDirectory (h : d.SameWays d') {path : Path} (hpath : d.isDirectory path = true) :
    d'.isDirectory path = true := by
  obtain ⟨hnames, place, hplace⟩ := isDirectory_iff.1 hpath
  exact isDirectory_iff.2 ⟨hnames, place, (h _ place).1 hplace⟩

/-- Whether a way ends in a directory shows at one more step on the spot. -/
theorem lookup?_directory (h : d.SameWays d') {names : List String} {place : Place}
    (hplace : d.follow [] names = .ok place) :
    d.lookup? place = some .directory ↔ d'.lookup? place = some .directory := by
  have hplace' := (h names place).1 hplace
  constructor
  · intro hdirectory
    have hdot := (h _ place).1 (follow_dot_eq_ok_iff.2 ⟨hplace, hdirectory⟩)
    exact (follow_dot_eq_ok_iff.1 hdot).2
  · intro hdirectory
    have hdot := (h _ place).2 (follow_dot_eq_ok_iff.2 ⟨hplace', hdirectory⟩)
    exact (follow_dot_eq_ok_iff.1 hdot).2

theorem find?_congr (h : d.SameWays d') {path : Path}
    (same : ∀ place, d.locate path = .ok place → d.lookup? place = d'.lookup? place) :
    d.find? path = d'.find? path := by
  unfold Disk.find?
  cases hlocate : d.locate path with
  | ok place =>
    rw [h.locate.1 hlocate]
    exact same place hlocate
  | error problem =>
    cases hlocate' : d'.locate path with
    | ok place =>
      rw [h.locate.2 hlocate'] at hlocate
      cases hlocate
    | error problem' => rfl

variable {target : Place} (htarget : d.lookup? target ≠ some .directory)
include htarget

theorem putFile (bytes : List UInt8) : d.SameWays (d.put target (.file bytes)) := by
  intro names place
  constructor
  · exact follow_putFile htarget bytes
  · refine follow_mono fun other hother => ?_
    rw [lookup?_put _ _ _ _ (ne_root_of_lookup? htarget)] at hother
    split at hother
    · cases hother
    · exact hother

theorem erase : d.SameWays (d.erase target) := by
  intro names place
  constructor
  · refine follow_erase htarget fun above => ?_
    exact ne_root_of_lookup? htarget (List.prefix_nil.1 above)
  · exact follow_mono fun other hother => lookup?_of_erase hother

end SameWays

/-! ## More directories -/

/-- A file stays within reach where directories are made. -/
theorem Grows.find? {d d' : Disk} (h : d.Grows d') {path : Path} {bytes : List UInt8}
    (hfind : d.find? path = some (.file bytes)) : d'.find? path = some (.file bytes) := by
  have keep : ∀ place, d.lookup? place = some .directory → d'.lookup? place = some .directory := by
    intro place hplace
    rcases h place with same | ⟨free, -⟩
    · rw [same, hplace]
    · rw [hplace] at free
      cases free
  unfold Disk.find? Disk.locate at hfind ⊢
  cases hnames : namesOn path with
  | error problem =>
    rw [hnames] at hfind
    cases hfind
  | ok names =>
    rw [hnames] at hfind
    simp only [bind, Except.bind] at hfind ⊢
    split at hfind
    · next place hfollow =>
      rw [follow_mono keep hfollow]
      rcases h place with same | ⟨free, -⟩
      · exact same.trans hfind
      · rw [hfind] at free
        cases free
    · cases hfind

/-- What is above an entry is a directory. -/
def IsTree (d : Disk) : Prop :=
  ∀ place entry, d.lookup? place = some entry → ∀ above, above <+: place → above ≠ place →
    d.lookup? above = some .directory

theorem prefix_descend_all {names : List String} (straight : ".." ∉ names) (here : Place) :
    here <+: names.foldl Path.descend here := by
  induction names generalizing here with
  | nil => exact List.prefix_rfl
  | cons name later ih =>
    rw [List.mem_cons, not_or] at straight
    refine List.IsPrefix.trans ?_ (ih straight.2 (Path.descend here name))
    unfold Path.descend
    split
    · exact List.prefix_rfl
    · rw [if_neg fun e => straight.1 e.symm]
      exact List.prefix_append here [name]

/-- On a tree, a way to a file that is open once more directories are made was open before. -/
theorem IsTree.follow {d d' : Disk} (tree : d.IsTree) {place here : Place} {bytes : List UInt8}
    (hplace : d.lookup? place = some (.file bytes))
    (hplace' : d'.lookup? place = some (.file bytes)) {names : List String}
    (straight : ".." ∉ names) (h : d'.follow here names = .ok place) :
    d.follow here names = .ok place := by
  induction names generalizing here with
  | nil => exact h
  | cons name later ih =>
    have above : here <+: place := by
      rw [follow_eq h]
      exact prefix_descend_all straight here
    obtain ⟨hhere, hname, hlater⟩ := follow_cons_eq_ok_iff.1 h
    have differs : here ≠ place := by
      rintro rfl
      rw [hplace'] at hhere
      cases hhere
    refine follow_cons_eq_ok_iff.2 ⟨tree place _ hplace here above differs, hname, ?_⟩
    exact ih (fun dots => straight (List.mem_cons_of_mem name dots)) hlater

end Disk

end Chip8
