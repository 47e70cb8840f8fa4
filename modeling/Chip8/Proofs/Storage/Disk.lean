import Chip8.Storage.Disk

/-!
# Places and what changes them

A path leads to one place, which its text alone tells; the disk only decides whether the way there
is open.

    d.locate path = .ok place → place = path.place                      (locate_eq)
    (directory.join name).place = directory.place ++ [name]              (place_join)

The way stays open when a file is written and when a file is removed, since every name on it but the
last is a directory:

    d.follow here names = .ok place → (d.put target (.file bytes)).follow here names = .ok place
    d.follow here names = .ok place → (d.erase target).follow here names = .ok place
                                                                    (follow_putFile, follow_erase)

and directories that are made stand where nothing was (`Grows`, `grows_makeDirectories`).  So what
the bytes of all files have in common (`Files`) is lost only where other bytes are written.
-/

namespace Chip8

/-! ## Names on a path -/

namespace Path

theorem pieces_ne_nil (cs : List Char) : pieces cs ≠ [] := by
  induction cs with
  | nil => simp [pieces]
  | cons c later ih =>
    unfold pieces
    split
    · simp
    · split <;> simp

/-- A slash divides what is before it from what is after it. -/
theorem pieces_append_slash (front back : List Char) :
    pieces (front ++ '/' :: back) = pieces front ++ pieces back := by
  induction front with
  | nil => simp [pieces]
  | cons c later ih =>
    rw [List.cons_append, pieces, ih, pieces]
    split
    · rfl
    · obtain ⟨piece, others, h⟩ := List.exists_cons_of_ne_nil (pieces_ne_nil later)
      simp [h]

theorem pieces_of_not_mem {cs : List Char} (h : '/' ∉ cs) : pieces cs = [cs] := by
  induction cs with
  | nil => rfl
  | cons c later ih =>
    rw [List.mem_cons, not_or] at h
    rw [pieces, if_neg fun hc => h.1 hc.symm, ih h.2]

/-- A text that names one thing in a directory. -/
structure IsName (name : String) : Prop where
  slash : '/' ∉ name.toList
  empty : name ≠ ""
  dot : name ≠ "."
  dots : name ≠ ".."

/-- One name further. -/
def descend (here : Place) (name : String) : Place :=
  if name = "." then here else if name = ".." then here.dropLast else here ++ [name]

/-- Where a path leads, whatever is on the disk. -/
def place (p : Path) : Place := p.names.foldl descend []

/-- One name leads to one place that was not yet passed. -/
theorem eq_descend_of_prefix {target here : Place} {name : String}
    (below : target <+: descend here name) (above : ¬target <+: here) :
    target = descend here name := by
  unfold descend at below ⊢
  split at below
  · exact absurd below above
  · split at below
    · exact absurd (below.trans (List.dropLast_prefix here)) above
    · next dot dots =>
      rw [if_neg dot, if_neg dots]
      exact (List.prefix_concat_iff.1 below).resolve_right above

section
variable {name : String} (hname : IsName name)
include hname

theorem descend_name (here : Place) : descend here name = here ++ [name] := by
  rw [descend, if_neg hname.dot, if_neg hname.dots]

theorem toList_ne_nil : name.toList ≠ [] := by
  intro h
  exact hname.empty (String.toList_eq_nil_iff.1 h)

theorem text_join (directory : Path) :
    (directory.join name).text.toList =
      (if directory.endsInSlash then directory.text.toList else directory.text.toList ++ ['/']) ++
        name.toList := by
  have start : name.toList.head? ≠ some '/' := by
    intro h
    exact hname.slash (List.mem_of_mem_head? h)
  unfold join
  rw [if_neg start]
  split <;> simp

theorem names_join (directory : Path) :
    (directory.join name).names = directory.names ++ [name] := by
  have single : pieces name.toList = [name.toList] := pieces_of_not_mem hname.slash
  have named : String.ofList name.toList = name := String.ofList_toList
  unfold names
  rw [text_join hname]
  split
  · next slash =>
    obtain ⟨front, hfront⟩ := List.getLast?_eq_some_iff.1 (beq_iff_eq.1 slash)
    rw [hfront, List.append_assoc, List.singleton_append, pieces_append_slash,
      pieces_append_slash, single]
    simp [pieces, toList_ne_nil hname, named]
  · rw [List.append_assoc, List.singleton_append, pieces_append_slash, single]
    simp [toList_ne_nil hname, named]

theorem place_join (directory : Path) :
    (directory.join name).place = directory.place ++ [name] := by
  rw [place, names_join hname, List.foldl_append, List.foldl_cons, List.foldl_nil,
    descend_name hname]
  rfl

theorem endsInSlash_join (directory : Path) : (directory.join name).endsInSlash = false := by
  obtain ⟨last, hlast⟩ := Option.ne_none_iff_exists'.1 fun h =>
    toList_ne_nil hname (List.getLast?_eq_none_iff.1 h)
  have other : last ≠ '/' := by
    rintro rfl
    exact hname.slash (List.mem_of_getLast? hlast)
  unfold endsInSlash
  rw [text_join hname, List.getLast?_append, hlast]
  simpa using other

end

end Path

namespace Disk

/-! ## Looking up -/

theorem lookup?_root (d : Disk) : d.lookup? [] = some .directory := rfl

theorem ne_root_of_lookup? {d : Disk} {target : Place} (h : d.lookup? target ≠ some .directory) :
    target ≠ [] := by
  rintro rfl
  exact h (lookup?_root d)

/-- Nothing goes with an entry but what is below it. -/
theorem lookup?_erase {d : Disk} {target other : Place} (h : ¬target <+: other) :
    (d.erase target).lookup? other = d.lookup? other := by
  unfold lookup? erase
  split
  · rfl
  · induction d.entries with
    | nil => rfl
    | cons e es ih =>
      obtain ⟨place, entry⟩ := e
      by_cases below : target <+: place
      · have differs : (other == place) = false := by
          rw [beq_eq_false_iff_ne]
          rintro rfl
          exact h below
        have gone : (!target.isPrefixOf place) = false := by
          simpa [List.isPrefixOf_iff_prefix] using below
        rw [List.filter_cons, if_neg (by simp [gone]), List.lookup_cons, differs]
        exact ih
      · have kept : (!target.isPrefixOf place) = true := by
          rw [Bool.not_eq_true', ← Bool.not_eq_true, List.isPrefixOf_iff_prefix]
          exact below
        rw [List.filter_cons, if_pos kept, List.lookup_cons, List.lookup_cons, ih]

/-! ## Following a path -/

theorem follow_cons_eq_ok_iff {d : Disk} {here place : Place} {name : String}
    {later : List String} :
    d.follow here (name :: later) = .ok place ↔
      d.lookup? here = some .directory ∧
        (name = "." ∨ name = ".." ∨ name.utf8ByteSize ≤ maxName) ∧
        d.follow (Path.descend here name) later = .ok place := by
  rw [follow, Path.descend]
  cases hhere : d.lookup? here with
  | none => simp
  | some entry =>
    cases entry with
    | file bytes => simp
    | directory =>
      by_cases dot : name = "."
      · simp [dot]
      · by_cases dots : name = ".."
        · simp [dots]
        · by_cases long : maxName < name.utf8ByteSize
          · simp [dot, dots, long, Nat.not_le.2 long]
          · simp [dot, dots, long, Nat.le_of_not_lt long]

/-- The disk has no part in where a way leads. -/
theorem follow_eq {d : Disk} {here place : Place} {names : List String}
    (h : d.follow here names = .ok place) : place = names.foldl Path.descend here := by
  induction names generalizing here with
  | nil =>
    rw [follow, Except.ok.injEq] at h
    exact h.symm
  | cons name later ih =>
    obtain ⟨-, -, h⟩ := follow_cons_eq_ok_iff.1 h
    exact ih h

/-- A way that is open stays open where directories stay directories. -/
theorem follow_mono {d d' : Disk}
    (keep : ∀ place, d.lookup? place = some .directory → d'.lookup? place = some .directory)
    {here place : Place} {names : List String} (h : d.follow here names = .ok place) :
    d'.follow here names = .ok place := by
  induction names generalizing here with
  | nil => exact h
  | cons name later ih =>
    obtain ⟨hhere, hname, h⟩ := follow_cons_eq_ok_iff.1 h
    exact follow_cons_eq_ok_iff.2 ⟨keep here hhere, hname, ih h⟩

/-- A file is on no way, except at its end. -/
theorem follow_putFile {d : Disk} {target here place : Place} {names : List String}
    (htarget : d.lookup? target ≠ some .directory) (bytes : List UInt8)
    (h : d.follow here names = .ok place) :
    (d.put target (.file bytes)).follow here names = .ok place := by
  refine follow_mono (fun other hother => ?_) h
  rw [lookup?_put _ _ _ _ (ne_root_of_lookup? htarget), if_neg, hother]
  rintro rfl
  exact htarget hother

/-- Nor is what is below it: the way there would pass through the file. -/
theorem follow_erase {d : Disk} {target here place : Place} {names : List String}
    (htarget : d.lookup? target ≠ some .directory) (above : ¬target <+: here)
    (h : d.follow here names = .ok place) : (d.erase target).follow here names = .ok place := by
  induction names generalizing here with
  | nil => exact h
  | cons name later ih =>
    obtain ⟨hhere, hname, h⟩ := follow_cons_eq_ok_iff.1 h
    rw [← lookup?_erase above] at hhere
    refine follow_cons_eq_ok_iff.2 ⟨hhere, hname, ?_⟩
    by_cases below : target <+: Path.descend here name
    · -- the way has come to the file itself, so it has to end there
      cases later with
      | nil => exact h
      | cons next later =>
        obtain ⟨hnext, -, -⟩ := follow_cons_eq_ok_iff.1 h
        rw [← Path.eq_descend_of_prefix below above] at hnext
        exact absurd hnext htarget
    · exact ih below h

/-! ## Paths into a directory -/

theorem locate_eq_ok_iff {d : Disk} {path : Path} {place : Place}
    (hpath : path.endsInSlash = false) :
    d.locate path = .ok place ↔
      namesOn path = .ok path.names ∧ d.follow [] path.names = .ok place := by
  unfold locate namesOn
  rw [hpath]
  split
  · simp [bind, Except.bind]
  · split <;> simp [bind, Except.bind]

theorem locateFile_eq_locate {d : Disk} {path : Path} (hpath : path.endsInSlash = false) :
    d.locateFile path = d.locate path := by
  rw [locateFile, hpath, if_neg (by simp)]

/-- What is located is found at the place that the path tells. -/
theorem locate_eq {d : Disk} {path : Path} {place : Place} (hpath : path.endsInSlash = false)
    (h : d.locate path = .ok place) : place = path.place :=
  follow_eq ((locate_eq_ok_iff hpath).1 h).2

/-! ## Files -/

theorem write_eq_ok_iff {d d' : Disk} {path : Path} {bytes : List UInt8} :
    d.write path bytes = .ok d' ↔ ∃ place, d.locateFile path = .ok place ∧
      d.lookup? place ≠ some .directory ∧ d' = d.put place (.file bytes) := by
  unfold write
  cases d.locateFile path with
  | error problem => simp [bind, Except.bind]
  | ok place =>
    by_cases taken : d.lookup? place = some .directory
    · simp [bind, Except.bind, taken]
    · simp only [bind, Except.bind, taken, if_false, Except.ok.injEq]
      constructor
      · rintro rfl
        exact ⟨place, rfl, taken, rfl⟩
      · rintro ⟨_, rfl, -, rfl⟩
        rfl

theorem remove_eq_ok_iff {d d' : Disk} {path : Path} :
    d.remove path = .ok d' ↔ ∃ place bytes, d.locate path = .ok place ∧
      d.lookup? place = some (.file bytes) ∧ d' = d.erase place := by
  unfold remove
  cases d.locate path with
  | error problem => simp [bind, Except.bind]
  | ok place =>
    cases hplace : d.lookup? place with
    | none => simp [bind, Except.bind, hplace]
    | some entry => cases entry <;> simp [bind, Except.bind, hplace, eq_comm]

theorem rename_eq_ok_iff {d d' : Disk} {path target : Path} :
    d.rename path target = .ok d' ↔ ∃ source place bytes, d.locate path = .ok source ∧
      d.locateFile target = .ok place ∧ d.lookup? source = some (.file bytes) ∧
      d.lookup? place ≠ some .directory ∧ d' = (d.erase source).put place (.file bytes) := by
  unfold rename
  cases d.locate path with
  | error problem => simp [bind, Except.bind]
  | ok source =>
    cases d.locateFile target with
    | error problem => simp [bind, Except.bind]
    | ok place =>
      cases hsource : d.lookup? source with
      | none => simp [bind, Except.bind, hsource]
      | some entry =>
        cases entry with
        | directory => simp [bind, Except.bind, hsource]
        | file bytes =>
          by_cases taken : d.lookup? place = some .directory
          · simp [bind, Except.bind, hsource, taken]
          · simp only [bind, Except.bind, hsource, taken, if_false, Except.ok.injEq]
            constructor
            · rintro rfl
              exact ⟨source, place, bytes, rfl, rfl, hsource, taken, rfl⟩
            · rintro ⟨_, _, _, rfl, rfl, hfile, -, rfl⟩
              obtain rfl : bytes = _ := by simpa [hsource] using hfile
              rfl

/-! ## Directories that are made -/

/-- Directories where nothing was, and no other change. -/
def Grows (d d' : Disk) : Prop :=
  ∀ place, d'.lookup? place = d.lookup? place ∨
    d.lookup? place = none ∧ d'.lookup? place = some .directory

theorem Grows.refl (d : Disk) : d.Grows d := fun _ => .inl rfl

theorem Grows.trans {d d' d'' : Disk} (h : d.Grows d') (h' : d'.Grows d'') : d.Grows d'' := by
  intro place
  rcases h place with same | ⟨free, made⟩ <;> rcases h' place with same' | ⟨free', made'⟩
  · exact .inl (same'.trans same)
  · exact .inr ⟨same ▸ free', made'⟩
  · exact .inr ⟨free, same'.trans made⟩
  · exact absurd (made.symm.trans free') (by simp)

theorem grows_ensureDirectory (d : Disk) (path : Path) : d.Grows (d.ensureDirectory path).2 := by
  unfold ensureDirectory makeDirectory
  cases hplace : d.locateDirectory path with
  | error problem => exact .refl d
  | ok place =>
    by_cases taken : (d.lookup? place).isSome
    · simp [bind, Except.bind, taken, Grows.refl]
    · have free : d.lookup? place = none := by simpa using taken
      simp only [bind, Except.bind, taken]
      intro other
      have hroot : place ≠ [] := by
        rintro rfl
        cases (lookup?_root d).symm.trans free
      show (d.put place .directory).lookup? other = _ ∨
        _ ∧ (d.put place .directory).lookup? other = _
      rw [lookup?_put _ _ _ _ hroot]
      split
      · next same => exact .inr ⟨same ▸ free, rfl⟩
      · exact .inl rfl

theorem grows_ensureWith (d : Disk) (path : Path) (above : List String) :
    d.Grows (d.ensureWith path above).2 := by
  induction above generalizing d path with
  | nil => exact grows_ensureDirectory d path
  | cons name above ih =>
    unfold ensureWith
    have first := grows_ensureDirectory d path
    split
    · next d' hfirst =>
      rw [hfirst] at first
      have rest := ih d' (.ofNames (name :: above).reverse)
      split
      · next d'' hrest =>
        rw [hrest] at rest
        exact first.trans (rest.trans (grows_ensureDirectory d'' path))
      · exact first.trans rest
    · exact first

theorem grows_makeDirectories (d : Disk) (path : Path) : d.Grows (d.makeDirectories path).2 :=
  grows_ensureWith d path _

/-! ## What the files hold -/

/-- The bytes of every file have a property. -/
def Files (Q : List UInt8 → Prop) (d : Disk) : Prop :=
  ∀ place bytes, d.lookup? place = some (.file bytes) → Q bytes

theorem files_blank (Q : List UInt8 → Prop) : blank.Files Q := by
  intro place bytes h
  unfold lookup? at h
  split at h <;> cases h

/-- Erasing brings nothing up. -/
theorem lookup?_of_erase {d : Disk} {target place : Place} {entry : Entry}
    (h : (d.erase target).lookup? place = some entry) : d.lookup? place = some entry := by
  by_cases below : target <+: place
  · by_cases root : place = []
    · subst root
      exact h
    · rw [lookup?, if_neg root] at h
      obtain ⟨front, back, hentries, -⟩ := List.lookup_eq_some_iff.1 h
      have kept : (place, entry) ∈ (d.erase target).entries := by
        rw [hentries]
        exact List.mem_append_right front List.mem_cons_self
      have above : !target.isPrefixOf place := (List.mem_filter.1 kept).2
      rw [List.isPrefixOf_iff_prefix.2 below] at above
      cases above
  · rwa [lookup?_erase below] at h

namespace Files

variable {Q : List UInt8 → Prop} {d d' : Disk}

theorem imp {R : List UInt8 → Prop} (h : d.Files Q) (weaker : ∀ bytes, Q bytes → R bytes) :
    d.Files R :=
  fun place bytes hplace => weaker bytes (h place bytes hplace)

theorem erase (h : d.Files Q) (target : Place) : (d.erase target).Files Q :=
  fun place bytes hplace => h place bytes (lookup?_of_erase hplace)

theorem putFile (h : d.Files Q) {target : Place} (htarget : d.lookup? target ≠ some .directory)
    {bytes : List UInt8} (hbytes : Q bytes) : (d.put target (.file bytes)).Files Q := by
  intro place bytes' hplace
  rw [lookup?_put _ _ _ _ (ne_root_of_lookup? htarget)] at hplace
  split at hplace
  · cases hplace
    exact hbytes
  · exact h place bytes' hplace

theorem grows (h : d.Files Q) (grown : d.Grows d') : d'.Files Q := by
  intro place bytes hplace
  rcases grown place with same | ⟨-, made⟩
  · rw [same] at hplace
    exact h place bytes hplace
  · rw [made] at hplace
    cases hplace

theorem write (h : d.Files Q) {path : Path} {bytes : List UInt8} (hbytes : Q bytes)
    (hwrite : d.write path bytes = .ok d') : d'.Files Q := by
  obtain ⟨place, -, hplace, rfl⟩ := write_eq_ok_iff.1 hwrite
  exact h.putFile hplace hbytes

theorem remove (h : d.Files Q) {path : Path} (hremove : d.remove path = .ok d') : d'.Files Q := by
  obtain ⟨place, bytes, -, -, rfl⟩ := remove_eq_ok_iff.1 hremove
  exact h.erase place

theorem rename (h : d.Files Q) {path target : Path} (hrename : d.rename path target = .ok d') :
    d'.Files Q := by
  obtain ⟨source, place, bytes, -, -, hsource, hplace, rfl⟩ := rename_eq_ok_iff.1 hrename
  refine (h.erase source).putFile ?_ (h source bytes hsource)
  intro hdirectory
  exact hplace (lookup?_of_erase hdirectory)

theorem find? (h : d.Files Q) {path : Path} {bytes : List UInt8}
    (hfind : d.find? path = some (.file bytes)) : Q bytes := by
  unfold Disk.find? at hfind
  split at hfind
  · exact h _ bytes hfind
  · cases hfind

end Files

end Disk

end Chip8
