import Chip8.Proofs.Storage.Directories
import Chip8.Proofs.Storage.Slots

/-!
# What a failed save leaves behind

A save makes the directory of its store, stages a file there and renames it.  Where it fails it may
leave directories, and the staging file.  None of it is told from a disk without it by the store:

    s.save d slot m = (.error failure, d') → s.Shadows d e → s.Shadows d' e     (Shadows.save_error)
    s.save d slot m = (.ok (), d') → s.Shadows d e →
      ∃ e', s.save e slot m = (.ok (), e') ∧ s.Shadows d' e'                       (Shadows.save_ok)
    s.load d slot = .ok m → s.Shadows d e → s.load e slot = .ok m                     (Shadows.load)

`Level` is for disks on which the directory is made, `Shadows` for those on which it may still be
missing.  A disk shadows itself where making the directory brings no file within reach of a slot
(`Reached`), and is shadowed by the disk with the directory made in any case.
-/

namespace Chip8

namespace Slots

/-! ## Staging files -/

/-- The same ways are open, and the same is found in every slot. -/
structure Level (s : Slots) (d d' : Disk) : Prop where
  ways : d.SameWays d'
  find? : ∀ slot, d.find? (s.path slot) = d'.find? (s.path slot)

namespace Level

variable {directory : Path} {s : Slots} {d d' : Disk}

theorem refl (s : Slots) (d : Disk) : s.Level d d := ⟨.refl d, fun _ => rfl⟩

theorem symm (h : s.Level d d') : s.Level d' d := ⟨h.ways.symm, fun slot => (h.find? slot).symm⟩

theorem trans {d'' : Disk} (h : s.Level d d') (h' : s.Level d' d'') : s.Level d d'' :=
  ⟨h.ways.trans h'.ways, fun slot => (h.find? slot).trans (h'.find? slot)⟩

section
variable (hs : s.Over directory) {slot : UInt64}
  (hstaging : d.lookup? (s.stagingPlace slot) ≠ some .directory)
include hs hstaging

/-- No slot is where a save is staged. -/
theorem putStaging (bytes : List UInt8) :
    s.Level d (d.put (s.stagingPlace slot) (.file bytes)) where
  ways := .putFile hstaging bytes
  find? slot' := by
    refine (Disk.SameWays.putFile hstaging bytes).find?_congr fun place hplace => ?_
    obtain rfl := hs.locate_path slot' hplace
    rw [Disk.lookup?_put _ _ _ _ (Disk.ne_root_of_lookup? hstaging), if_neg]
    intro same
    exact stagingPlace_not_above hs hs slot slot' (same ▸ List.prefix_rfl)

theorem eraseStaging : s.Level d (d.erase (s.stagingPlace slot)) where
  ways := .erase hstaging
  find? slot' := by
    refine (Disk.SameWays.erase hstaging).find?_congr fun place hplace => ?_
    obtain rfl := hs.locate_path slot' hplace
    rw [Disk.lookup?_erase (stagingPlace_not_above hs hs slot slot')]

end

/-- Once it is renamed, nothing of a staging file is left. -/
theorem staged (hs : s.Over directory) {slot : UInt64}
    (hstaging : d.lookup? (s.stagingPlace slot) ≠ some .directory) (bytes : List UInt8) :
    s.Level d ((d.put (s.stagingPlace slot) (.file bytes)).erase (s.stagingPlace slot)) := by
  have hput := Disk.lookup?_put d (s.stagingPlace slot) (s.stagingPlace slot) (.file bytes)
    (Disk.ne_root_of_lookup? hstaging)
  rw [if_pos rfl] at hput
  exact (putStaging hs hstaging bytes).trans (eraseStaging hs (by simp [hput]))

/-- A file put into the same slot on both disks. -/
theorem put (h : s.Level d d') {slot : UInt64}
    (hplace : d.lookup? (s.place slot) ≠ some .directory)
    (hplace' : d'.lookup? (s.place slot) ≠ some .directory) (bytes : List UInt8) :
    s.Level (d.put (s.place slot) (.file bytes)) (d'.put (s.place slot) (.file bytes)) where
  ways := (Disk.SameWays.putFile hplace bytes).symm.trans
    (h.ways.trans (.putFile hplace' bytes))
  find? slot' := by
    have before := Disk.SameWays.putFile hplace bytes
    have ways := before.symm.trans (h.ways.trans (.putFile hplace' bytes))
    refine ways.find?_congr fun place hlocate => ?_
    have there := before.locate.2 hlocate
    have same := h.find? slot'
    rw [Disk.find?_of_locate there, Disk.find?_of_locate (h.ways.locate.1 there)] at same
    rw [Disk.lookup?_put _ _ _ _ (Disk.ne_root_of_lookup? hplace),
      Disk.lookup?_put _ _ _ _ (Disk.ne_root_of_lookup? hplace'), same]

end Level

/-! ## One save on two disks -/

section
variable {directory : Path} {s : Slots} (hs : s.Over directory) {slot : UInt64} {d d' : Disk}
  {bytes : List UInt8}
include hs

/-- Staging and renaming go well where both paths are open and no directory is at their ends. -/
theorem replace_eq_ok_iff :
    s.replace d slot bytes = (.ok (), d') ↔
      d.locate (s.stagingPath slot) = .ok (s.stagingPlace slot) ∧
      d.lookup? (s.stagingPlace slot) ≠ some .directory ∧
      d.locate (s.path slot) = .ok (s.place slot) ∧
      d.lookup? (s.place slot) ≠ some .directory ∧
      d' = ((d.put (s.stagingPlace slot) (.file bytes)).erase (s.stagingPlace slot)).put
        (s.place slot) (.file bytes) := by
  have other : s.place slot ≠ s.stagingPlace slot := fun same =>
    stagingPlace_not_above hs hs slot slot (same ▸ List.prefix_rfl)
  constructor
  · intro h
    unfold replace at h
    cases hwrite : d.write (s.stagingPath slot) bytes with
    | error problem =>
      rw [hwrite] at h
      cases h
    | ok staged =>
      obtain ⟨hstaging, rfl⟩ := write_stagingPath hs hwrite
      obtain ⟨place, hstage, -, -⟩ := Disk.write_eq_ok_iff.1 hwrite
      rw [Disk.locateFile_eq_locate (hs.endsInSlash_stagingPath slot)] at hstage
      obtain rfl := hs.locate_stagingPath slot hstage
      have hput (place : Place) := Disk.lookup?_put d (s.stagingPlace slot) place (.file bytes)
        (Disk.ne_root_of_lookup? hstaging)
      rw [hwrite] at h
      simp only at h
      split at h
      · cases h
      · next renamed hrename =>
        cases h
        obtain ⟨hlocate, hplace, rfl⟩ :=
          rename_stagingPath hs ((hput _).trans (if_pos rfl)) hrename
        rw [hput, if_neg other] at hplace
        exact ⟨hstage, hstaging, (Disk.SameWays.putFile hstaging bytes).locate.2 hlocate, hplace,
          rfl⟩
  · rintro ⟨hstage, hstaging, hlocate, hplace, rfl⟩
    have hput (place : Place) := Disk.lookup?_put d (s.stagingPlace slot) place (.file bytes)
      (Disk.ne_root_of_lookup? hstaging)
    have ways := Disk.SameWays.putFile hstaging bytes
    have hwrite : d.write (s.stagingPath slot) bytes =
        .ok (d.put (s.stagingPlace slot) (.file bytes)) := by
      refine Disk.write_eq_ok_iff.2 ⟨_, ?_, hstaging, rfl⟩
      rw [Disk.locateFile_eq_locate (hs.endsInSlash_stagingPath slot)]
      exact hstage
    have hrename : (d.put (s.stagingPlace slot) (.file bytes)).rename (s.stagingPath slot)
        (s.path slot) = .ok (((d.put (s.stagingPlace slot) (.file bytes)).erase
          (s.stagingPlace slot)).put (s.place slot) (.file bytes)) := by
      refine Disk.rename_eq_ok_iff.2 ⟨_, _, bytes, ways.locate.1 hstage, ?_,
        (hput _).trans (if_pos rfl), ?_, rfl⟩
      · rw [Disk.locateFile_eq_locate (hs.endsInSlash_path slot)]
        exact ways.locate.1 hlocate
      · rw [hput, if_neg other]
        exact hplace
    unfold replace
    rw [hwrite]
    simp only
    rw [hrename]

theorem level_replace_error {problem : DiskError}
    (h : s.replace d slot bytes = (.error problem, d')) : s.Level d d' := by
  unfold replace at h
  cases hwrite : d.write (s.stagingPath slot) bytes with
  | error problem' =>
    rw [hwrite] at h
    cases hremove : d.remove (s.stagingPath slot) with
    | error problem' =>
      rw [hremove] at h
      cases h
      exact .refl s d
    | ok d' =>
      rw [hremove] at h
      cases h
      obtain ⟨hstaging, rfl⟩ := remove_stagingPath hs hremove
      exact .eraseStaging hs hstaging
  | ok staged =>
    obtain ⟨hstaging, rfl⟩ := write_stagingPath hs hwrite
    rw [hwrite] at h
    simp only at h
    split at h <;> cases h
    exact .putStaging hs hstaging bytes

/-- Where a save goes well it does so on a disk of the same level. -/
theorem replace_ok_level {e : Disk} (level : s.Level d e)
    (h : s.replace d slot bytes = (.ok (), d')) :
    ∃ e', s.replace e slot bytes = (.ok (), e') ∧ s.Level d' e' ∧ d.SameWays d' := by
  obtain ⟨hstage, hstaging, hlocate, hplace, rfl⟩ := (replace_eq_ok_iff hs).1 h
  obtain ⟨-, stageWay⟩ := (Disk.locate_eq_ok_iff (hs.endsInSlash_stagingPath slot)).1 hstage
  obtain ⟨-, way⟩ := (Disk.locate_eq_ok_iff (hs.endsInSlash_path slot)).1 hlocate
  have hstaging' : e.lookup? (s.stagingPlace slot) ≠ some .directory := by
    rw [Ne, ← level.ways.lookup?_directory stageWay]
    exact hstaging
  have hplace' : e.lookup? (s.place slot) ≠ some .directory := by
    rwa [Ne, ← level.ways.lookup?_directory way]
  have staged := Level.staged hs hstaging bytes
  have staged' := level.trans (Level.staged hs hstaging' bytes)
  rw [Ne, staged.ways.lookup?_directory way] at hplace
  have hplace'' := hplace'
  rw [Ne, ← level.ways.lookup?_directory way, staged'.ways.lookup?_directory way] at hplace''
  refine ⟨_, (replace_eq_ok_iff hs).2 ⟨level.ways.locate.1 hstage, hstaging',
    level.ways.locate.1 hlocate, hplace', rfl⟩, ?_, ?_⟩
  · exact (staged.symm.trans staged').put hplace hplace'' bytes
  · exact staged.ways.trans (.putFile hplace bytes)

end

/-! ## Stores of any program -/

/-- A slash in the name of a program is one in the path of its directory. -/
theorem exists_over (s : Slots) : ∃ t : Slots, t.Over t.directory ∧
    ∀ slot, t.path slot = s.path slot ∧ t.stagingPath slot = s.stagingPath slot := by
  by_cases plain : '/' ∉ s.program.toList
  · exact ⟨s, ⟨rfl, plain⟩, fun _ => ⟨rfl, rfl⟩⟩
  · have slash : '/' ∈ s.program.toList.reverse := by simpa using plain
    obtain ⟨back, front, hrev, hback⟩ := List.eq_append_cons_of_mem slash
    let root := String.ofList front.reverse ++ "/"
    let t : Slots :=
      { s with directory := s.directory.join root, program := String.ofList back.reverse }
    have hprogram : s.program = root ++ t.program := by
      rw [← String.toList_inj, ← List.reverse_inj, hrev]
      simp [root, t]
    have ht : t.Over t.directory := ⟨rfl, by simpa [t] using hback⟩
    have hname (slot : UInt64) : s.fileName slot = root ++ t.fileName slot := by
      show s.program ++ "_" ++ toString slot ++ ".sav" =
        root ++ (t.program ++ "_" ++ toString slot ++ ".sav")
      rw [hprogram]
      simp only [String.append_assoc]
    refine ⟨t, ht, fun slot => ⟨?_, ?_⟩⟩
    · rw [path, path, hname]
      exact Path.join_join s.directory (String.ofList front.reverse) (ht.isName_fileName slot).slash
    · rw [stagingPath, stagingPath, hname, String.append_assoc]
      exact Path.join_join s.directory (String.ofList front.reverse)
        (ht.isName_stagingName slot).slash

variable {s : Slots} {d d' : Disk} {slot : UInt64} {bytes : List UInt8}

/-- Only the paths of a store have a part in its saves. -/
theorem replace_congr {t : Slots} (hpath : t.path slot = s.path slot)
    (hstaging : t.stagingPath slot = s.stagingPath slot) :
    t.replace d slot bytes = s.replace d slot bytes := by
  unfold replace
  rw [hpath, hstaging]

theorem Level.congr {t : Slots} (hpath : ∀ slot, t.path slot = s.path slot) (h : t.Level d d') :
    s.Level d d' :=
  ⟨h.ways, fun slot => by rw [← hpath slot]; exact h.find? slot⟩

theorem level_of_replace_error {problem : DiskError}
    (h : s.replace d slot bytes = (.error problem, d')) : s.Level d d' := by
  obtain ⟨t, ht, hpaths⟩ := s.exists_over
  rw [← replace_congr (hpaths slot).1 (hpaths slot).2] at h
  exact (level_replace_error ht h).congr fun slot => (hpaths slot).1

theorem replace_of_level {e : Disk} (level : s.Level d e)
    (h : s.replace d slot bytes = (.ok (), d')) :
    ∃ e', s.replace e slot bytes = (.ok (), e') ∧ s.Level d' e' ∧ d.SameWays d' := by
  obtain ⟨t, ht, hpaths⟩ := s.exists_over
  have level' : t.Level d e := level.congr fun slot => (hpaths slot).1.symm
  rw [← replace_congr (hpaths slot).1 (hpaths slot).2] at h ⊢
  obtain ⟨e', he, hlevel, ways⟩ := replace_ok_level ht level' h
  exact ⟨e', he, hlevel.congr fun slot => (hpaths slot).1, ways⟩

/-! ## One disk behind another -/

/-- Making the directory of the slots brings no file into a slot that was out of reach. -/
def Reached (s : Slots) (d : Disk) : Prop :=
  ∀ slot, (d.makeDirectories s.directory).2.isFile (s.path slot) = true →
    d.isFile (s.path slot) = true

/-- Once its directory is made, all that is in slots on the one disk is there on the other, and
where the directory can be made on the one, it can on the other, and is level with it. -/
structure Shadows (s : Slots) (d e : Disk) : Prop where
  file : ∀ slot bytes,
    (d.makeDirectories s.directory).2.find? (s.path slot) = some (.file bytes) →
      e.find? (s.path slot) = some (.file bytes)
  made : ∀ d', d.makeDirectories s.directory = (.ok (), d') →
    ∃ e', e.makeDirectories s.directory = (.ok (), e') ∧ s.Level d' e'

theorem reached_of_isDirectory {s : Slots} {d : Disk} (h : d.isDirectory s.directory = true) :
    s.Reached d := by
  intro slot hfile
  rwa [Disk.makeDirectories_of_isDirectory h] at hfile

/-- Without steps upwards, a way to a file leads through what is above the file. -/
theorem reached_of_isTree {s : Slots} {d : Disk} (tree : d.IsTree)
    (straight : ∀ slot, ".." ∉ (s.path slot).names) : s.Reached d := by
  obtain ⟨t, ht, hpaths⟩ := s.exists_over
  intro slot hfile
  have grown := Disk.grows_makeDirectories d s.directory
  have ending : (s.path slot).endsInSlash = false := by
    rw [← (hpaths slot).1]
    exact ht.endsInSlash_path slot
  generalize (d.makeDirectories s.directory).2 = d' at hfile grown
  unfold Disk.isFile at hfile
  split at hfile
  · next bytes hfind =>
    cases hlocate : d'.locate (s.path slot) with
    | error problem =>
      rw [Disk.find?, hlocate] at hfind
      cases hfind
    | ok place =>
      rw [Disk.find?_of_locate hlocate] at hfind
      have there : d.lookup? place = some (.file bytes) := by
        rcases grown place with same | ⟨-, made⟩
        · rw [← same, hfind]
        · rw [made] at hfind
          cases hfind
      obtain ⟨hnames, way⟩ := (Disk.locate_eq_ok_iff ending).1 hlocate
      have open_before := tree.follow there hfind (straight slot) way
      have found := Disk.find?_of_locate ((Disk.locate_eq_ok_iff ending).2 ⟨hnames, open_before⟩)
      rw [Disk.isFile, found, there]
  · cases hfile

namespace Shadows

variable {s : Slots} {d d' e : Disk}

/-- Neither the number of slots nor the one that is selected has a part in it. -/
theorem congr {t : Slots} (hdirectory : t.directory = s.directory)
    (hprogram : t.program = s.program) (h : s.Shadows d e) : t.Shadows d e := by
  have hpath (slot : UInt64) : t.path slot = s.path slot := by
    rw [path, path, fileName, fileName, hdirectory, hprogram]
  constructor
  · intro slot bytes
    rw [hdirectory, hpath]
    exact h.file slot bytes
  · intro d' hmade
    rw [hdirectory] at hmade ⊢
    obtain ⟨e', hmade', level⟩ := h.made d' hmade
    exact ⟨e', hmade', level.congr fun slot => (hpath slot).symm⟩

theorem of_makeDirectories (s : Slots) (d : Disk) :
    s.Shadows d (d.makeDirectories s.directory).2 where
  file slot bytes h := h
  made d' h := by
    rw [h]
    exact ⟨d', Disk.makeDirectories_of_isDirectory (Disk.isDirectory_makeDirectories h), .refl s d'⟩

theorem of_reached (h : s.Reached d) : s.Shadows d d where
  file slot bytes hfile := by
    have reach := h slot (by rw [Disk.isFile, hfile])
    unfold Disk.isFile at reach
    split at reach
    · next bytes' hfile' =>
      rw [(Disk.grows_makeDirectories d s.directory).find? hfile'] at hfile
      rwa [hfile']
    · cases reach
  made d' h := ⟨d', h, .refl s d'⟩

/-- A disk on which the directory was made already. -/
theorem of_level (hd : d.isDirectory s.directory = true) (level : s.Level d e) : s.Shadows d e where
  file slot bytes h := by
    rw [Disk.makeDirectories_of_isDirectory hd] at h
    rwa [← level.find? slot]
  made d' h := by
    rw [Disk.makeDirectories_of_isDirectory hd] at h
    cases h
    exact ⟨e, Disk.makeDirectories_of_isDirectory (level.ways.isDirectory hd), level⟩

theorem load (h : s.Shadows d e) {slot : UInt64} {m : Machine} (hload : s.load d slot = .ok m) :
    s.load e slot = .ok m := by
  unfold Slots.load at hload ⊢
  split at hload
  · cases hload
  · next inside =>
    rw [if_neg inside]
    split at hload
    · next bytes hbytes =>
      have grown := (Disk.grows_makeDirectories d s.directory).find? hbytes
      rw [h.file slot bytes grown]
      exact hload
    · cases hload

/-- A save that fails leaves at most directories and a staging file. -/
theorem save_error (h : s.Shadows d e) {slot : UInt64} {m : Machine} {failure : Failure}
    (hsave : s.save d slot m = (.error failure, d')) : s.Shadows d' e := by
  unfold save at hsave
  split at hsave
  · cases hsave
    exact h
  · split at hsave
    · next problem d₁ hmade =>
      cases hsave
      obtain ⟨problem', again⟩ := Disk.makeDirectories_error_again hmade
      constructor
      · intro slot bytes hfile
        rw [again] at hfile
        apply h.file
        rwa [hmade]
      · intro d₂ hmade₂
        rw [again] at hmade₂
        cases hmade₂
    · next d₁ hmade =>
      rcases hreplace : s.replace d₁ slot (s.contents m) with ⟨problem | ⟨⟩, d₂⟩
      · rw [hreplace] at hsave
        cases hsave
        have level := level_of_replace_error hreplace
        have there := level.ways.isDirectory (Disk.isDirectory_makeDirectories hmade)
        obtain ⟨e', hmade', level'⟩ := h.made d₁ hmade
        constructor
        · intro slot bytes hfile
          rw [Disk.makeDirectories_of_isDirectory there, ← level.find? slot] at hfile
          apply h.file
          rwa [hmade]
        · intro d₃ hmade₃
          rw [Disk.makeDirectories_of_isDirectory there] at hmade₃
          cases hmade₃
          exact ⟨e', hmade', level.symm.trans level'⟩
      · rw [hreplace] at hsave
        cases hsave

theorem save_ok (h : s.Shadows d e) {slot : UInt64} {m : Machine}
    (hsave : s.save d slot m = (.ok (), d')) :
    ∃ e', s.save e slot m = (.ok (), e') ∧ s.Shadows d' e' := by
  unfold save at hsave ⊢
  split at hsave
  · cases hsave
  · next inside =>
    split at hsave
    · cases hsave
    · next d₁ hmade =>
      rcases hreplace : s.replace d₁ slot (s.contents m) with ⟨problem | ⟨⟩, d₂⟩
      · rw [hreplace] at hsave
        cases hsave
      · rw [hreplace] at hsave
        cases hsave
        obtain ⟨e₁, hmade', level⟩ := h.made d₁ hmade
        obtain ⟨e₂, hreplace', level', ways⟩ := replace_of_level level hreplace
        have there := ways.isDirectory (Disk.isDirectory_makeDirectories hmade)
        refine ⟨e₂, ?_, of_level there level'⟩
        rw [if_neg inside, hmade']
        simp only [hreplace']
        rfl

end Shadows

end Slots

end Chip8
