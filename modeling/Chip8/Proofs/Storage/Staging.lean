import Chip8.Proofs.Storage.Litter

/-!
# Staging files

What a save leaves at the staging path where nothing was before, on a disk that may give out in the
middle of it (`Hitch`).  After a save, nothing is at that path, but in two cases (`staging_save`).  A staging file
that is written and not taken into its slot stays (`Strands`); that is so where a directory is in
the slot.  And the directory of the slots may bring something along when it is made (`Exposes`).
Where a save fails, the files that were there are still there.
-/

namespace Chip8

namespace Disk

/-! ## Erased entries -/

theorem lookup?_erase_self {d : Disk} {place : Place} (h : place ≠ []) :
    (d.erase place).lookup? place = none := by
  rw [lookup?, if_neg h, erase, List.lookup_eq_none_iff]
  intro entry hentry
  have kept : !place.isPrefixOf entry.1 := (List.mem_filter.1 hentry).2
  rw [bne_iff_ne]
  rintro rfl
  rw [List.isPrefixOf_iff_prefix.2 List.prefix_rfl] at kept
  cases kept

/-- A way below something that is no directory ends there. -/
theorem eq_of_follow_below {d : Disk} {target here place : Place} {names : List String}
    (htarget : d.lookup? target ≠ some .directory) (above : ¬target <+: here)
    (h : d.follow here names = .ok place) (below : target <+: place) : place = target := by
  induction names generalizing here with
  | nil =>
    cases h
    exact absurd below above
  | cons name later ih =>
    obtain ⟨-, -, h⟩ := follow_cons_eq_ok_iff.1 h
    by_cases reached : target <+: Path.descend here name
    · obtain rfl := Path.eq_descend_of_prefix reached above
      cases later with
      | nil =>
        cases h
        rfl
      | cons next later => exact absurd (follow_cons_eq_ok_iff.1 h).1 htarget
    · exact ih reached h

theorem exists_follow_of_locate {d : Disk} {path : Path} {place : Place}
    (h : d.locate path = .ok place) : ∃ names, d.follow [] names = .ok place := by
  unfold locate at h
  cases hnames : namesOn path with
  | error problem =>
    rw [hnames] at h
    cases h
  | ok names =>
    rw [hnames] at h
    exact ⟨_, h⟩

theorem locate_of_toOption {d : Disk} {path : Path} {place : Place}
    (h : (d.locate path).toOption = some place) : d.locate path = .ok place := by
  cases hlocate : d.locate path with
  | error problem =>
    rw [hlocate] at h
    cases h
  | ok _ =>
    rw [hlocate] at h
    cases h
    rfl

/-- No file takes the place of a directory. -/
theorem rename_onto_directory {d : Disk} {path target : Path} {source place : Place}
    {bytes : List UInt8} (hpath : d.locate path = .ok source)
    (hsource : d.lookup? source = some (.file bytes))
    (htarget : d.locateFile target = .ok place) (hplace : d.lookup? place = some .directory) :
    d.rename path target = .error .isADirectory := by
  simp [rename, bind, Except.bind, hpath, hsource, htarget, hplace]

end Disk

namespace Slots

variable {s : Slots} {d d' : Disk} {slot : UInt64}

/-! ## The two paths of a slot -/

theorem text_stagingPath (s : Slots) (slot : UInt64) :
    (s.stagingPath slot).text = (s.path slot).text ++ ".tmp" := by
  have head : (s.fileName slot ++ ".tmp").toList.head? = (s.fileName slot).toList.head? := by
    rw [String.toList_append, toList_fileName]
    cases s.program.toList <;> rfl
  rw [stagingPath, path, Path.join, Path.join, head]
  split
  · rfl
  · split <;> simp only [String.append_assoc]

/-- Where a save can be staged, its slot is within reach, and not below the staging file. -/
theorem exists_locate_path {place : Place} (h : d.locate (s.stagingPath slot) = .ok place) :
    ∃ target, d.locate (s.path slot) = .ok target ∧ ¬place <+: target := by
  obtain ⟨t, ht, hpaths⟩ := s.exists_over
  rw [← (hpaths slot).1]
  rw [← (hpaths slot).2] at h
  obtain rfl := ht.locate_stagingPath slot h
  obtain ⟨hnames, hfollow⟩ := (Disk.locate_eq_ok_iff (ht.endsInSlash_stagingPath slot)).1 h
  have names : Disk.namesOn (t.path slot) = .ok (t.path slot).names := by
    unfold Disk.namesOn at hnames ⊢
    rw [text_stagingPath, String.utf8ByteSize_append, String.toList_append] at hnames
    split at hnames
    · cases hnames
    next nul =>
    split at hnames
    · cases hnames
    next long =>
    rw [if_neg fun found => nul (by simp_all), if_neg (by omega)]
  have follow : d.follow [] (t.path slot).names = .ok (t.place slot) := by
    rw [stagingPath, Path.names_join (ht.isName_stagingName slot),
      Disk.follow_append_eq_ok_iff] at hfollow
    obtain ⟨mid, hmid, hlast⟩ := hfollow
    obtain ⟨hdirectory, hsize, -⟩ := Disk.follow_cons_eq_ok_iff.1 hlast
    have hsize := (hsize.resolve_left (ht.isName_stagingName slot).dot).resolve_left
      (ht.isName_stagingName slot).dots
    rw [String.utf8ByteSize_append] at hsize
    have open_to : d.follow [] (t.path slot).names =
        .ok (Path.descend mid (t.fileName slot)) := by
      rw [path, Path.names_join (ht.isName_fileName slot), Disk.follow_append_eq_ok_iff]
      exact ⟨mid, hmid, Disk.follow_cons_eq_ok_iff.2 ⟨hdirectory, .inr (.inr (by omega)), rfl⟩⟩
    rw [open_to, ← ht.place_path slot]
    exact congrArg Except.ok (Disk.follow_eq open_to)
  exact ⟨t.place slot, (Disk.locate_eq_ok_iff (ht.endsInSlash_path slot)).2 ⟨names, follow⟩,
    stagingPlace_not_above ht ht slot slot⟩

theorem endsInSlash_paths (s : Slots) (slot : UInt64) :
    (s.stagingPath slot).endsInSlash = false ∧ (s.path slot).endsInSlash = false := by
  obtain ⟨t, ht, hpaths⟩ := s.exists_over
  rw [← (hpaths slot).1, ← (hpaths slot).2]
  exact ⟨ht.endsInSlash_stagingPath slot, ht.endsInSlash_path slot⟩

/-! ## Saves into a directory -/

/-- Into one that is there. -/
theorem saveWith_of_isDirectory {hitch : Option Hitch} {m : Machine}
    {outcome : Except DiskError Unit} (within : ¬s.count ≤ slot)
    (hd : d.isDirectory s.directory = true)
    (h : s.replaceWith hitch d slot (s.contents m) = (outcome, d')) :
    s.saveWith hitch d slot m = (outcome.mapError .disk, d') := by
  rw [saveWith, if_neg within, Disk.makeDirectories_of_isDirectory hd]
  simp only [h]

/-! ## Staging and renaming -/

/-- A file can be written at the staging path. -/
def Stages (s : Slots) (d : Disk) (slot : UInt64) : Prop :=
  ∃ place, d.locate (s.stagingPath slot) = .ok place ∧ d.lookup? place ≠ some .directory

/-- The staging file is not taken into its slot: a directory is there, or the disk gives out. -/
def Refuses (s : Slots) (hitch : Option Hitch) (d : Disk) (slot : UInt64) : Prop :=
  hitch = none ∧ d.find? (s.path slot) = some .directory ∨
    ∃ problem, hitch = some (.moving problem)

theorem write_stagingPath_eq_ok_iff {bytes : List UInt8} :
    d.write (s.stagingPath slot) bytes = .ok d' ↔
      ∃ place, d.locate (s.stagingPath slot) = .ok place ∧ d.lookup? place ≠ some .directory ∧
        d' = d.put place (.file bytes) := by
  rw [Disk.write_eq_ok_iff, Disk.locateFile_eq_locate (s.endsInSlash_paths slot).1]

theorem replaceWith_of_not_stages (h : ¬s.Stages d slot) (hitch : Option Hitch)
    (bytes : List UInt8) : ∃ problem, s.replaceWith hitch d slot bytes = (.error problem, d) := by
  have unwritten (bytes : List UInt8) :
      ∃ problem, d.write (s.stagingPath slot) bytes = .error problem := by
    cases hwrite : d.write (s.stagingPath slot) bytes with
    | error problem => exact ⟨problem, rfl⟩
    | ok d' =>
      obtain ⟨place, hlocate, hplace, -⟩ := write_stagingPath_eq_ok_iff.1 hwrite
      exact absurd ⟨place, hlocate, hplace⟩ h
  have same : cleared d (s.stagingPath slot) = d := by
    unfold cleared
    cases hremove : d.remove (s.stagingPath slot) with
    | error problem => rfl
    | ok d' =>
      obtain ⟨place, bytes, hlocate, hplace, -⟩ := Disk.remove_eq_ok_iff.1 hremove
      exact absurd ⟨place, hlocate, by simp [hplace]⟩ h
  unfold replaceWith replace
  unfold cleared at same ⊢
  obtain ⟨problem, whole⟩ := unwritten bytes
  cases hitch with
  | none =>
    rw [whole]
    exact ⟨problem, congrArg (_, ·) same⟩
  | some hitch =>
    cases hitch with
    | moving =>
      simp only [whole]
      exact ⟨problem, congrArg (_, ·) same⟩
    | writing taken =>
      obtain ⟨problem, part⟩ := unwritten (bytes.take taken)
      simp only [part]
      exact ⟨problem, congrArg (_, ·) same⟩

section
variable {place : Place} (hlocate : d.locate (s.stagingPath slot) = .ok place)
  (hplace : d.lookup? place ≠ some .directory)
include hlocate hplace

theorem locate_staged (bytes : List UInt8) :
    (d.put place (.file bytes)).locate (s.stagingPath slot) = .ok place :=
  (Disk.SameWays.putFile hplace bytes).locate.1 hlocate

omit hlocate in
theorem lookup?_staged (bytes : List UInt8) :
    (d.put place (.file bytes)).lookup? place = some (.file bytes) := by
  rw [Disk.lookup?_put _ _ _ _ (Disk.ne_root_of_lookup? hplace), if_pos rfl]

theorem find?_staged (bytes : List UInt8) :
    (d.put place (.file bytes)).find? (s.stagingPath slot) = some (.file bytes) := by
  rw [Disk.find?_of_locate (locate_staged hlocate hplace bytes), lookup?_staged hplace]

theorem cleared_staged (bytes : List UInt8) :
    cleared (d.put place (.file bytes)) (s.stagingPath slot) =
      (d.put place (.file bytes)).erase place := by
  have hremove := Disk.remove_eq_ok_iff.2
    ⟨place, bytes, locate_staged hlocate hplace bytes, lookup?_staged hplace bytes, rfl⟩
  rw [cleared, hremove]
  rfl

/-- The staging file is written whatever its bytes. -/
theorem write_staged (bytes : List UInt8) :
    d.write (s.stagingPath slot) bytes = .ok (d.put place (.file bytes)) :=
  write_stagingPath_eq_ok_iff.2 ⟨place, hlocate, hplace, rfl⟩

theorem replaceWith_writing (bytes : List UInt8) (taken : Nat) (problem : DiskError) :
    s.replaceWith (some (.writing taken problem)) d slot bytes =
      (.error problem, (d.put place (.file (bytes.take taken))).erase place) := by
  unfold replaceWith
  simp only [write_staged hlocate hplace, cleared_staged hlocate hplace]

/-- A slot is not the place of the staging file, nor below it. -/
theorem exists_slot (bytes : List UInt8) :
    ∃ target, d.find? (s.path slot) = d.lookup? target ∧ ¬place <+: target ∧
      (d.put place (.file bytes)).locateFile (s.path slot) = .ok target ∧
      (d.put place (.file bytes)).lookup? target = d.lookup? target := by
  obtain ⟨target, htarget, other⟩ := exists_locate_path hlocate
  refine ⟨target, Disk.find?_of_locate htarget, other, ?_, ?_⟩
  · rw [Disk.locateFile_eq_locate (s.endsInSlash_paths slot).2]
    exact (Disk.SameWays.putFile hplace bytes).locate.1 htarget
  · rw [Disk.lookup?_put _ _ _ _ (Disk.ne_root_of_lookup? hplace), if_neg]
    rintro rfl
    exact other List.prefix_rfl

theorem replace_of_directory (taken : d.find? (s.path slot) = some .directory)
    (bytes : List UInt8) :
    s.replace d slot bytes = (.error .isADirectory, d.put place (.file bytes)) := by
  obtain ⟨target, hfind, -, htarget, hput⟩ := exists_slot hlocate hplace bytes
  have hrename := Disk.rename_onto_directory (locate_staged hlocate hplace bytes)
    (lookup?_staged hplace bytes) htarget (hput.trans (hfind.symm.trans taken))
  unfold replace
  simp only [write_staged hlocate hplace, hrename]

theorem replaceWith_of_refuses {hitch : Option Hitch} (refuses : s.Refuses hitch d slot)
    (bytes : List UInt8) :
    ∃ problem, s.replaceWith hitch d slot bytes = (.error problem, d.put place (.file bytes)) := by
  rcases refuses with ⟨rfl, taken⟩ | ⟨problem, rfl⟩
  · exact ⟨_, replace_of_directory hlocate hplace taken bytes⟩
  · refine ⟨problem, ?_⟩
    unfold replaceWith
    simp only [write_staged hlocate hplace]

theorem replaceWith_none_of_free (bytes : List UInt8)
    (free : d.find? (s.path slot) ≠ some .directory) :
    ∃ target, ¬place <+: target ∧ d.lookup? target ≠ some .directory ∧
      s.replaceWith none d slot bytes =
        (.ok (), ((d.put place (.file bytes)).erase place).put target (.file bytes)) := by
  obtain ⟨target, hfind, other, htarget, hput⟩ := exists_slot hlocate hplace bytes
  rw [hfind] at free
  have hrename := Disk.rename_eq_ok_iff.2 ⟨place, target, bytes,
    locate_staged hlocate hplace bytes, htarget, lookup?_staged hplace bytes, hput ▸ free, rfl⟩
  refine ⟨target, other, free, ?_⟩
  unfold replaceWith replace
  simp only [write_staged hlocate hplace, hrename]

omit hlocate in
theorem sameWays_erased (bytes : List UInt8) :
    (d.put place (.file bytes)).SameWays ((d.put place (.file bytes)).erase place) :=
  .erase (by simp [lookup?_staged hplace])

/-- Nothing is left where the staging file was. -/
theorem find?_erased (bytes : List UInt8) :
    ((d.put place (.file bytes)).erase place).find? (s.stagingPath slot) = none := by
  have ways := sameWays_erased hplace bytes
  rw [Disk.find?_of_locate (ways.locate.1 (locate_staged hlocate hplace bytes)),
    Disk.lookup?_erase_self (Disk.ne_root_of_lookup? hplace)]

/-- Nor is anything once the slot has the file. -/
theorem find?_renamed {target : Place} (bytes : List UInt8) (other : ¬place <+: target)
    (htarget : d.lookup? target ≠ some .directory) :
    (((d.put place (.file bytes)).erase place).put target (.file bytes)).find?
      (s.stagingPath slot) = none := by
  have free : ((d.put place (.file bytes)).erase place).lookup? target ≠ some .directory := by
    rw [Disk.lookup?_erase other, Disk.lookup?_put _ _ _ _ (Disk.ne_root_of_lookup? hplace)]
    split
    · simp
    · exact htarget
  have ways := (Disk.SameWays.putFile hplace bytes).trans
    ((sameWays_erased hplace bytes).trans (.putFile free bytes))
  have differs : place ≠ target := fun same => other (same ▸ List.prefix_rfl)
  rw [Disk.find?_of_locate (ways.locate.1 hlocate),
    Disk.lookup?_put _ _ _ _ (Disk.ne_root_of_lookup? free), if_neg differs,
    Disk.lookup?_erase_self (Disk.ne_root_of_lookup? hplace)]

end

section
variable {place : Place} {path : Path} {held : List UInt8}
  (hlocate : d.locate (s.stagingPath slot) = .ok place)
  (free : d.find? (s.stagingPath slot) = none) (hpath : d.find? path = some (.file held))
include hlocate free hpath

/-- Other files are neither at the place of the staging file nor below it. -/
theorem not_below_staged {other : Place} (hother : d.locate path = .ok other) :
    ¬place <+: other := by
  rw [Disk.find?_of_locate hlocate] at free
  rw [Disk.find?_of_locate hother] at hpath
  intro below
  obtain ⟨names, hnames⟩ := Disk.exists_follow_of_locate hother
  have root : place ≠ [] := Disk.ne_root_of_lookup? (d := d) (by simp [free])
  have same := Disk.eq_of_follow_below (by simp [free])
    (fun above => root (List.prefix_nil.1 above)) hnames below
  rw [same, free] at hpath
  cases hpath

theorem find?_path_staged (bytes : List UInt8) :
    (d.put place (.file bytes)).find? path = some (.file held) := by
  have hplace : d.lookup? place ≠ some .directory := by
    simp [← Disk.find?_of_locate hlocate, free]
  rw [← (Disk.SameWays.putFile hplace bytes).find?_congr fun other hother => ?_]
  · exact hpath
  · have below := not_below_staged hlocate free hpath hother
    rw [Disk.lookup?_put _ _ _ _ (Disk.ne_root_of_lookup? hplace), if_neg]
    rintro rfl
    exact below List.prefix_rfl

theorem find?_path_erased (bytes : List UInt8) :
    ((d.put place (.file bytes)).erase place).find? path = some (.file held) := by
  have hplace : d.lookup? place ≠ some .directory := by
    simp [← Disk.find?_of_locate hlocate, free]
  have staged := find?_path_staged hlocate free hpath bytes
  rw [← (sameWays_erased hplace bytes).find?_congr fun other hother => ?_]
  · exact staged
  · have below := not_below_staged hlocate free hpath
      ((Disk.SameWays.putFile hplace bytes).locate.2 hother)
    rw [Disk.lookup?_erase below]

end

/-- What staging and renaming leave at the staging path, and what of the files elsewhere. -/
theorem replaceWith_spec (s : Slots) (hitch : Option Hitch) (d : Disk) (slot : UInt64)
    (bytes : List UInt8) :
    ∃ outcome d', s.replaceWith hitch d slot bytes = (outcome, d') ∧
      (d'.find? (s.stagingPath slot) = none ↔
        s.Stages d slot ∧ ¬s.Refuses hitch d slot ∨
          ¬s.Stages d slot ∧ d.find? (s.stagingPath slot) = none) ∧
      (outcome = .ok () → d'.find? (s.stagingPath slot) = none) ∧
      ∀ problem, outcome = .error problem → d.find? (s.stagingPath slot) = none →
        ∀ path held, d.find? path = some (.file held) → d'.find? path = some (.file held) := by
  by_cases stages : s.Stages d slot
  case neg =>
    obtain ⟨problem, h⟩ := replaceWith_of_not_stages stages hitch bytes
    exact ⟨_, d, h, by simp [stages], by simp, fun _ _ _ _ _ hfind => hfind⟩
  simp only [stages, true_and, not_true, false_and, or_false]
  obtain ⟨place, hlocate, hplace⟩ := stages
  by_cases refuses : s.Refuses hitch d slot
  case pos =>
    obtain ⟨problem, h⟩ := replaceWith_of_refuses hlocate hplace refuses bytes
    refine ⟨_, _, h, ?_, by simp, fun _ _ free path held hpath => ?_⟩
    · simp [find?_staged hlocate hplace, refuses]
    · exact find?_path_staged hlocate free hpath bytes
  rcases hitch with _ | ⟨taken, problem⟩ | problem
  case none =>
    have free : d.find? (s.path slot) ≠ some .directory := fun taken => refuses (.inl ⟨rfl, taken⟩)
    obtain ⟨target, other, htarget, h⟩ := replaceWith_none_of_free hlocate hplace bytes free
    have gone := find?_renamed hlocate hplace bytes other htarget
    exact ⟨_, _, h, by simp [gone, refuses], fun _ => gone, by simp⟩
  case writing =>
    refine ⟨_, _, replaceWith_writing hlocate hplace bytes taken problem, ?_, by simp,
      fun _ _ free path held hpath => ?_⟩
    · simp [find?_erased hlocate hplace, refuses]
    · exact find?_path_erased hlocate free hpath _
  case moving => exact absurd (.inr ⟨problem, rfl⟩) refuses

/-! ## Saves -/

/-- The staging file of a save is written and not taken into its slot. -/
def Strands (s : Slots) (hitch : Option Hitch) (d : Disk) (slot : UInt64) : Prop :=
  ∃ made, d.makeDirectories s.directory = (.ok (), made) ∧
    s.Stages made slot ∧ s.Refuses hitch made slot

/-- Making the directory of the slots has brought something to the staging path, as it may where
that path goes on from the staging file itself or leads upwards, and no file is written there. -/
def Exposes (s : Slots) (d : Disk) (slot : UInt64) : Prop :=
  ∃ answer made, d.makeDirectories s.directory = (answer, made) ∧
    made.find? (s.stagingPath slot) ≠ none ∧ ¬(answer = .ok () ∧ s.Stages made slot)

theorem strands_iff {hitch : Option Hitch} {made : Disk}
    (h : d.makeDirectories s.directory = (.ok (), made)) :
    s.Strands hitch d slot ↔ s.Stages made slot ∧ s.Refuses hitch made slot := by
  simp [Strands, h]

theorem exposes_iff {made : Disk} {answer : Except DiskError Unit}
    (h : d.makeDirectories s.directory = (answer, made)) :
    s.Exposes d slot ↔
      made.find? (s.stagingPath slot) ≠ none ∧ ¬(answer = .ok () ∧ s.Stages made slot) := by
  simp only [Exposes, h, Prod.mk.injEq]
  constructor
  · rintro ⟨_, _, ⟨rfl, rfl⟩, found⟩
    exact found
  · exact fun found => ⟨answer, made, ⟨rfl, rfl⟩, found⟩

theorem not_exposes_of_isDirectory (h : d.isDirectory s.directory = true)
    (free : d.find? (s.stagingPath slot) = none) : ¬s.Exposes d slot := by
  rintro ⟨answer, made, hmake, found, -⟩
  rw [Disk.makeDirectories_of_isDirectory h] at hmake
  cases hmake
  exact found free

/-- What a save leaves behind where nothing was at the staging path.  Nothing is there after it,
but for a staging file that is not taken into its slot and what comes with the directory.  Where it
fails, the files that were there are still there, if nothing came with the directory; with the
directory there from the start, nothing does. -/
theorem staging_save (s : Slots) (hitch : Option Hitch) (d : Disk) (slot : UInt64) (m : Machine)
    (free : d.find? (s.stagingPath slot) = none) :
    ∃ outcome d', s.saveWith hitch d slot m = (outcome, d') ∧
      (hitch = none → s.save d slot m = (outcome, d')) ∧
      (d'.find? (s.stagingPath slot) = none ↔
        s.count ≤ slot ∨ ¬s.Strands hitch d slot ∧ ¬s.Exposes d slot) ∧
      (outcome = .ok () → d'.find? (s.stagingPath slot) = none) ∧
      (∀ failure, outcome = .error failure →
        (d.makeDirectories s.directory).2.find? (s.stagingPath slot) = none →
        ∀ path held, d.find? path = some (.file held) → d'.find? path = some (.file held)) ∧
      (d.isDirectory s.directory = true →
        (d.makeDirectories s.directory).2.find? (s.stagingPath slot) = none ∧
        ¬s.Exposes d slot) := by
  obtain ⟨outcome, d', h⟩ : ∃ outcome d', s.saveWith hitch d slot m = (outcome, d') := ⟨_, _, rfl⟩
  have settled (hd : d.isDirectory s.directory = true) :
      (d.makeDirectories s.directory).2.find? (s.stagingPath slot) = none ∧
        ¬s.Exposes d slot := by
    rw [Disk.makeDirectories_of_isDirectory hd]
    exact ⟨free, not_exposes_of_isDirectory hd free⟩
  suffices left : (d'.find? (s.stagingPath slot) = none ↔
        s.count ≤ slot ∨ ¬s.Strands hitch d slot ∧ ¬s.Exposes d slot) ∧
      (outcome = .ok () → d'.find? (s.stagingPath slot) = none) ∧
      ∀ failure, outcome = .error failure →
        (d.makeDirectories s.directory).2.find? (s.stagingPath slot) = none →
        ∀ path held, d.find? path = some (.file held) → d'.find? path = some (.file held) by
    refine ⟨outcome, d', h, ?_, left.1, left.2.1, left.2.2, settled⟩
    rintro rfl
    rw [← saveWith_none, h]
  have grown := Disk.grows_makeDirectories d s.directory
  unfold saveWith at h
  split at h
  · next out =>
    cases h
    exact ⟨by simp [out, free], fun _ => free, fun _ _ _ _ _ hpath => hpath⟩
  next within =>
  cases hmake : d.makeDirectories s.directory with
  | mk answer made =>
  rw [hmake] at h grown
  cases answer with
  | error problem =>
    cases h
    refine ⟨?_, by simp, fun _ _ _ path held hpath => grown.find? hpath⟩
    simp [within, exposes_iff hmake, Strands, hmake]
  | ok _ =>
    obtain ⟨answer, after, hreplace, here, stored, kept⟩ :=
      s.replaceWith_spec hitch made slot (s.contents m)
    simp only [hreplace] at h
    cases h
    refine ⟨?_, ?_, ?_⟩
    · rw [here, strands_iff hmake, exposes_iff hmake]
      by_cases stages : s.Stages made slot <;> simp [within, stages]
    · intro done
      exact stored (by cases answer <;> cases done; rfl)
    · intro failure failed free path held hpath
      cases answer with
      | ok _ => cases failed
      | error problem => exact kept problem rfl free path held (grown.find? hpath)

/-- A disk that takes three bytes of the new save: the old one is still there, and nothing else. -/
theorem staging_save_cut :
    let s : Slots := ⟨⟨"saves"⟩, "game", 6, 0⟩
    let d : Disk := ⟨[(["saves", "game_0.sav"], .file [0]), (["saves"], .directory)]⟩
    let m := Machine.ofSeed ⟨false, false⟩ 1
    d.find? (s.stagingPath 0) = none ∧
      ∃ d', s.saveWith (some (.writing 3 .notFound)) d 0 m = (.error (.disk .notFound), d') ∧
        d'.find? (s.stagingPath 0) = none ∧ d'.find? (s.path 0) = some (.file [0]) := by
  intro s d m
  have free : d.find? (s.stagingPath 0) = none := by decide +kernel +zetaReduce
  have held : d.find? (s.path 0) = some (.file [0]) := by decide +kernel +zetaReduce
  have hd : d.isDirectory s.directory = true := by decide +kernel +zetaReduce
  obtain ⟨outcome, d', hsave, -, here, -, kept, settled⟩ :=
    staging_save s (some (.writing 3 .notFound)) d 0 m free
  obtain ⟨still, hidden⟩ := settled hd
  have hlocate : d.locate (s.stagingPath 0) = .ok ["saves", "game_0.sav.tmp"] :=
    Disk.locate_of_toOption (by decide +kernel +zetaReduce)
  have no_directory : d.lookup? ["saves", "game_0.sav.tmp"] ≠ some .directory := by
    rw [← Disk.find?_of_locate hlocate, free]
    simp
  have failed : outcome = .error (.disk .notFound) :=
    congrArg Prod.fst (hsave.symm.trans (saveWith_of_isDirectory (by decide +zetaReduce) hd
      (replaceWith_writing hlocate no_directory (s.contents m) 3 .notFound)))
  have whole : ¬s.Strands (some (.writing 3 .notFound)) d 0 := by
    rintro ⟨made, -, -, ⟨⟨⟩, -⟩ | ⟨_, ⟨⟩⟩⟩
  subst failed
  exact ⟨free, d', hsave, here.2 (.inr ⟨whole, hidden⟩), kept _ rfl still _ _ held⟩

/-- A directory in the slot: the staging file stays. -/
theorem not_staging_save_directory :
    let s : Slots := ⟨⟨"saves"⟩, "game", 6, 0⟩
    let d : Disk := ⟨[(["saves", "game_0.sav"], .directory), (["saves"], .directory)]⟩
    let m := Machine.ofSeed ⟨false, false⟩ 1
    d.find? (s.stagingPath 0) = none ∧
      ∃ d', s.save d 0 m = (.error (.disk .isADirectory), d') ∧
        d'.find? (s.stagingPath 0) = some (.file (s.contents m)) := by
  intro s d m
  have hd : d.isDirectory s.directory = true := by decide +kernel +zetaReduce
  have hlocate : d.locate (s.stagingPath 0) = .ok ["saves", "game_0.sav.tmp"] :=
    Disk.locate_of_toOption (by decide +kernel +zetaReduce)
  have hplace : d.lookup? ["saves", "game_0.sav.tmp"] = none := by decide +kernel +zetaReduce
  have taken : d.find? (s.path 0) = some .directory := by decide +kernel +zetaReduce
  have no_directory : d.lookup? ["saves", "game_0.sav.tmp"] ≠ some .directory := by simp [hplace]
  have refused := replace_of_directory hlocate no_directory taken (s.contents m)
  refine ⟨(Disk.find?_of_locate hlocate).trans hplace, _, ?_,
    find?_staged hlocate no_directory (s.contents m)⟩
  rw [save, if_neg (by decide +zetaReduce), Disk.makeDirectories_of_isDirectory hd]
  simp only [refused]
  rfl

end Slots

end Chip8
