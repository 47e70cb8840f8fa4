import Chip8.Proofs.Storage.Disk
import Chip8.Proofs.Storage.SaveFile
import Chip8.Storage.Slots

/-!
# Save slots are a table

The name of a slot's file tells program and number, and no slot is the staging file of another:

    s.fileName slot = s'.fileName slot' → s.program = s'.program ∧ slot = slot'     (fileName_inj)
    s.fileName slot ++ ".tmp" ≠ s'.fileName slot'                                 (stagingName_ne)

A disk may give out in the middle of a save (`Hitch`), before the staging file has all its bytes or
when it is to be renamed:

    s.saveWith none d slot m = s.save d slot m                                  (saveWith_none)

Either way a save ends in one of two ways: it spares what is in all slots, or it puts one file into
its own slot on a disk on which all was spared (`saveWith_cases`).  So the slots over a directory hold
the machines of a table (`Holds`), of which a save that goes well changes one entry and any other
none:

    Holds directory table d → s.load d slot = table entry, or empty                (Holds.load_eq)
    Holds directory table d → Spares directory d d' → Holds directory table d'      (Holds.spares)
-/

namespace Chip8

namespace Slots

/-! ## Names of slots -/

theorem toList_fileName (s : Slots) (slot : UInt64) :
    (s.fileName slot).toList =
      s.program.toList ++ '_' :: Nat.toDigits 10 slot.toNat ++ ['.', 's', 'a', 'v'] := by
  have digits : (toString slot).toList = Nat.toDigits 10 slot.toNat := String.toList_ofList
  show (s.program ++ "_" ++ toString slot ++ ".sav").toList = _
  simp only [String.toList_append, digits]
  simp

theorem not_mem_digits {c : Char} (hc : c.isDigit = false) (n : Nat) :
    c ∉ Nat.toDigits 10 n := by
  intro h
  rw [Nat.isDigit_of_mem_toDigits (by decide) (by decide) h] at hc
  cases hc

/-- The last of a letter in a text divides it in one way. -/
theorem append_cons_inj {α : Type} {a : α} {front front' back back' : List α}
    (hback : a ∉ back) (hback' : a ∉ back') (h : front ++ a :: back = front' ++ a :: back') :
    front = front' ∧ back = back' := by
  rcases List.append_eq_append_iff.1 h with ⟨more, hfront, htail⟩ | ⟨more, hfront, htail⟩
  · cases more with
    | nil => simp_all
    | cons b more =>
      rw [List.cons_append, List.cons.injEq] at htail
      exact absurd (htail.2 ▸ by simp) hback
  · cases more with
    | nil => simp_all
    | cons b more =>
      rw [List.cons_append, List.cons.injEq] at htail
      exact absurd (htail.2 ▸ by simp) hback'

/-- The number starts after the last underscore. -/
theorem fileName_inj {s s' : Slots} {slot slot' : UInt64}
    (h : s.fileName slot = s'.fileName slot') : s.program = s'.program ∧ slot = slot' := by
  have hlist := congrArg String.toList h
  rw [toList_fileName, toList_fileName] at hlist
  obtain ⟨hprogram, hdigits⟩ := append_cons_inj (not_mem_digits (by decide) _)
    (not_mem_digits (by decide) _) (List.append_cancel_right hlist)
  have value (n : Nat) : Nat.ofDigitChars 10 (Nat.toDigits 10 n) 0 = n :=
    Nat.ofDigitChars_toDigits (by decide) (by decide)
  refine ⟨String.toList_inj.1 hprogram, UInt64.toNat_inj.1 ?_⟩
  rw [← value slot.toNat, hdigits, value]

/-- A save is never staged in a slot. -/
theorem stagingName_ne (s s' : Slots) (slot slot' : UInt64) :
    s.fileName slot ++ ".tmp" ≠ s'.fileName slot' := by
  intro h
  have hlist := congrArg String.toList h
  rw [String.toList_append, toList_fileName s'] at hlist
  exact absurd (List.append_inj_right' hlist rfl) (by decide)

theorem isName_of_underscore {name : String} (hslash : '/' ∉ name.toList)
    (h : '_' ∈ name.toList) : Path.IsName name where
  slash := hslash
  empty := by rintro rfl; exact absurd h (by decide)
  dot := by rintro rfl; exact absurd h (by decide)
  dots := by rintro rfl; exact absurd h (by decide)

/-- A store over a directory, for a program whose name can stand in the name of a file. -/
structure Over (directory : Path) (s : Slots) : Prop where
  directory : s.directory = directory
  program : '/' ∉ s.program.toList

/-- Where the file of a slot is. -/
def place (s : Slots) (slot : UInt64) : Place := s.directory.place ++ [s.fileName slot]

def stagingPlace (s : Slots) (slot : UInt64) : Place :=
  s.directory.place ++ [s.fileName slot ++ ".tmp"]

theorem place_inj {directory : Path} {s s' : Slots} (hs : s.Over directory)
    (hs' : s'.Over directory) {slot slot' : UInt64} (h : s.place slot = s'.place slot') :
    s.program = s'.program ∧ slot = slot' := by
  unfold place at h
  rw [hs.directory, hs'.directory] at h
  exact fileName_inj (List.singleton_inj.1 (List.append_cancel_left h))

theorem stagingPlace_not_above {directory : Path} {s s' : Slots} (hs : s.Over directory)
    (hs' : s'.Over directory) (slot slot' : UInt64) :
    ¬s.stagingPlace slot <+: s'.place slot' := by
  intro h
  have same := h.eq_of_length (by simp [stagingPlace, place, hs.directory, hs'.directory])
  unfold stagingPlace place at same
  rw [hs.directory, hs'.directory] at same
  exact stagingName_ne _ _ _ _ (List.singleton_inj.1 (List.append_cancel_left same))

section
variable {directory : Path} {s : Slots} (hs : s.Over directory) (slot : UInt64)
include hs

theorem Over.isName_fileName : Path.IsName (s.fileName slot) := by
  refine isName_of_underscore ?_ ?_ <;> rw [toList_fileName]
  · simp [hs.program, not_mem_digits (by decide : '/'.isDigit = false)]
  · simp

theorem Over.isName_stagingName : Path.IsName (s.fileName slot ++ ".tmp") := by
  refine isName_of_underscore ?_ ?_ <;> rw [String.toList_append, toList_fileName]
  · simp [hs.program, not_mem_digits (by decide : '/'.isDigit = false)]
  · simp

/-! ## Places of slots -/

theorem Over.place_path : (s.path slot).place = s.place slot :=
  Path.place_join (hs.isName_fileName slot) _

theorem Over.place_stagingPath : (s.stagingPath slot).place = s.stagingPlace slot :=
  Path.place_join (hs.isName_stagingName slot) _

theorem Over.endsInSlash_path : (s.path slot).endsInSlash = false :=
  Path.endsInSlash_join (hs.isName_fileName slot) _

theorem Over.endsInSlash_stagingPath : (s.stagingPath slot).endsInSlash = false :=
  Path.endsInSlash_join (hs.isName_stagingName slot) _

theorem Over.locate_path {d : Disk} {place : Place} (h : d.locate (s.path slot) = .ok place) :
    place = s.place slot :=
  (Disk.locate_eq (hs.endsInSlash_path slot) h).trans (hs.place_path slot)

theorem Over.locate_stagingPath {d : Disk} {place : Place}
    (h : d.locate (s.stagingPath slot) = .ok place) : place = s.stagingPlace slot :=
  (Disk.locate_eq (hs.endsInSlash_stagingPath slot) h).trans (hs.place_stagingPath slot)

end

/-! ## Saves on a disk that gives out -/

end Slots

/-- Where a disk gives out in a save. -/
inductive Hitch where
  /-- The staging file is made and takes only so many bytes. -/
  | writing (taken : Nat) (problem : DiskError)
  /-- The staging file is made and not renamed. -/
  | moving (problem : DiskError)
  deriving DecidableEq, Repr

namespace Slots

/-- A file removed, if it is there and can be. -/
def cleared (d : Disk) (path : Path) : Disk := (d.remove path).toOption.getD d

/-- Staging and renaming, perhaps with a hitch. -/
def replaceWith (s : Slots) (hitch : Option Hitch) (d : Disk) (slot : UInt64)
    (bytes : List UInt8) : Except DiskError Unit × Disk :=
  match hitch with
  | none => s.replace d slot bytes
  | some (.writing taken problem) =>
    match d.write (s.stagingPath slot) (bytes.take taken) with
    | .error problem => (.error problem, cleared d (s.stagingPath slot))
    | .ok staged => (.error problem, cleared staged (s.stagingPath slot))
  | some (.moving problem) =>
    match d.write (s.stagingPath slot) bytes with
    | .error problem => (.error problem, cleared d (s.stagingPath slot))
    | .ok staged => (.error problem, staged)

/-- A save, perhaps with a hitch. -/
def saveWith (s : Slots) (hitch : Option Hitch) (d : Disk) (slot : UInt64) (m : Machine) :
    Except Failure Unit × Disk :=
  if s.count ≤ slot then (.error (.slotOutOfRange slot s.count), d)
  else
    match d.makeDirectories s.directory with
    | (.error problem, d) => (.error (.disk problem), d)
    | (.ok (), d) =>
      let (outcome, d) := s.replaceWith hitch d slot (s.contents m)
      (outcome.mapError .disk, d)

theorem saveWith_none (s : Slots) (d : Disk) (slot : UInt64) (m : Machine) :
    s.saveWith none d slot m = s.save d slot m := rfl

/-! ## What a save leaves alone -/

/-- What is in the slots stays there, and what is not does not get there. -/
structure Spares (directory : Path) (d d' : Disk) : Prop where
  locate : ∀ s : Slots, s.Over directory → ∀ slot,
    d.locate (s.path slot) = .ok (s.place slot) → d'.locate (s.path slot) = .ok (s.place slot)
  file : ∀ s : Slots, s.Over directory → ∀ slot bytes,
    d'.lookup? (s.place slot) = some (.file bytes) ↔ d.lookup? (s.place slot) = some (.file bytes)

namespace Spares

variable {directory : Path} {d d' : Disk}

theorem refl (directory : Path) (d : Disk) : Spares directory d d :=
  ⟨fun _ _ _ h => h, fun _ _ _ _ => Iff.rfl⟩

theorem trans {d'' : Disk} (h : Spares directory d d') (h' : Spares directory d' d'') :
    Spares directory d d'' :=
  ⟨fun s hs slot hlocate => h'.locate s hs slot (h.locate s hs slot hlocate),
    fun s hs slot bytes => (h'.file s hs slot bytes).trans (h.file s hs slot bytes)⟩

/-- Only the way matters, once the text of a path is fit to be followed. -/
theorem locate_of_follow {s : Slots} (hs : s.Over directory) {slot : UInt64} {place : Place}
    (hfollow : d.follow [] (s.path slot).names = .ok place →
      d'.follow [] (s.path slot).names = .ok place)
    (h : d.locate (s.path slot) = .ok place) : d'.locate (s.path slot) = .ok place := by
  rw [Disk.locate_eq_ok_iff (hs.endsInSlash_path slot)] at h ⊢
  exact ⟨h.1, hfollow h.2⟩

theorem of_grows (h : d.Grows d') : Spares directory d d' where
  locate s hs slot := locate_of_follow hs (Disk.follow_mono fun place hplace => by
    rcases h place with same | ⟨free, -⟩
    · rw [same, hplace]
    · rw [hplace] at free
      cases free)
  file s hs slot bytes := by
    rcases h (s.place slot) with same | ⟨free, made⟩
    · rw [same]
    · simp [free, made]

section
variable {s : Slots} (hs : s.Over directory) {slot : UInt64}
  (hstaging : d.lookup? (s.stagingPlace slot) ≠ some .directory)
include hs hstaging

theorem putFile (bytes : List UInt8) :
    Spares directory d (d.put (s.stagingPlace slot) (.file bytes)) where
  locate _ hs' _ := locate_of_follow hs' (Disk.follow_putFile hstaging bytes)
  file s' hs' slot' bytes' := by
    rw [Disk.lookup?_put _ _ _ _ (Disk.ne_root_of_lookup? hstaging), if_neg]
    intro same
    exact stagingPlace_not_above hs hs' slot slot' (same ▸ List.prefix_rfl)

theorem erase : Spares directory d (d.erase (s.stagingPlace slot)) where
  locate _ hs' _ := locate_of_follow hs' (Disk.follow_erase hstaging fun h =>
    Disk.ne_root_of_lookup? hstaging (List.prefix_nil.1 h))
  file s' hs' slot' bytes := by
    rw [Disk.lookup?_erase (stagingPlace_not_above hs hs' slot slot')]

end

end Spares

section
variable {directory : Path} {s : Slots} (hs : s.Over directory) {slot : UInt64} {d d' : Disk}
include hs

theorem write_stagingPath {bytes : List UInt8} (h : d.write (s.stagingPath slot) bytes = .ok d') :
    d.lookup? (s.stagingPlace slot) ≠ some .directory ∧
      d' = d.put (s.stagingPlace slot) (.file bytes) := by
  obtain ⟨place, hlocate, hplace, rfl⟩ := Disk.write_eq_ok_iff.1 h
  rw [Disk.locateFile_eq_locate (hs.endsInSlash_stagingPath slot)] at hlocate
  obtain rfl := hs.locate_stagingPath slot hlocate
  exact ⟨hplace, rfl⟩

theorem remove_stagingPath (h : d.remove (s.stagingPath slot) = .ok d') :
    d.lookup? (s.stagingPlace slot) ≠ some .directory ∧ d' = d.erase (s.stagingPlace slot) := by
  obtain ⟨place, bytes, hlocate, hplace, rfl⟩ := Disk.remove_eq_ok_iff.1 h
  obtain rfl := hs.locate_stagingPath slot hlocate
  exact ⟨by simp [hplace], rfl⟩

theorem rename_stagingPath {bytes : List UInt8}
    (hstaged : d.lookup? (s.stagingPlace slot) = some (.file bytes))
    (h : d.rename (s.stagingPath slot) (s.path slot) = .ok d') :
    d.locate (s.path slot) = .ok (s.place slot) ∧
      d.lookup? (s.place slot) ≠ some .directory ∧
      d' = (d.erase (s.stagingPlace slot)).put (s.place slot) (.file bytes) := by
  obtain ⟨source, place, bytes', hsource, hlocate, hfile, hplace, rfl⟩ :=
    Disk.rename_eq_ok_iff.1 h
  rw [Disk.locateFile_eq_locate (hs.endsInSlash_path slot)] at hlocate
  obtain rfl := hs.locate_stagingPath slot hsource
  obtain rfl := hs.locate_path slot hlocate
  obtain rfl : bytes = bytes' := by simpa [hstaged] using hfile
  exact ⟨hlocate, hplace, rfl⟩

end

/-- A staging file removed, if there is one. -/
theorem Spares.cleared {directory : Path} {s : Slots} (hs : s.Over directory) (d : Disk)
    (slot : UInt64) : Spares directory d (Slots.cleared d (s.stagingPath slot)) := by
  unfold Slots.cleared
  cases hremove : d.remove (s.stagingPath slot) with
  | error problem => exact .refl directory d
  | ok d' =>
    obtain ⟨hstaging, rfl⟩ := remove_stagingPath hs hremove
    exact .erase hs hstaging

theorem Spares.written {directory : Path} {s : Slots} (hs : s.Over directory) {d staged : Disk}
    {slot : UInt64} {bytes : List UInt8} (h : d.write (s.stagingPath slot) bytes = .ok staged) :
    Spares directory d staged := by
  obtain ⟨hstaging, rfl⟩ := write_stagingPath hs h
  exact .putFile hs hstaging bytes

/-- A disk that gives out spares all slots: only the staging file was touched. -/
theorem replaceWith_hitch {directory : Path} {s : Slots} (hs : s.Over directory) (hitch : Hitch)
    (d : Disk) (slot : UInt64) (bytes : List UInt8) :
    ∃ problem d', s.replaceWith (some hitch) d slot bytes = (.error problem, d') ∧
      Spares directory d d' := by
  unfold replaceWith
  cases hitch with
  | writing taken problem =>
    simp only
    cases hwrite : d.write (s.stagingPath slot) (bytes.take taken) with
    | error problem => exact ⟨problem, _, rfl, .cleared hs d slot⟩
    | ok staged => exact ⟨problem, _, rfl, (Spares.written hs hwrite).trans (.cleared hs staged slot)⟩
  | moving problem =>
    simp only
    cases hwrite : d.write (s.stagingPath slot) bytes with
    | error problem => exact ⟨problem, _, rfl, .cleared hs d slot⟩
    | ok staged => exact ⟨problem, staged, rfl, .written hs hwrite⟩

/-- Staging and renaming either spare all slots, or put a file into one and spare the others. -/
theorem replace_cases {directory : Path} {s : Slots} (hs : s.Over directory) (d : Disk)
    (slot : UInt64) (bytes : List UInt8) :
    (∃ problem d', s.replace d slot bytes = (.error problem, d') ∧ Spares directory d d') ∨
      ∃ d', Spares directory d d' ∧ d'.locate (s.path slot) = .ok (s.place slot) ∧
        d'.lookup? (s.place slot) ≠ some .directory ∧
        s.replace d slot bytes = (.ok (), d'.put (s.place slot) (.file bytes)) := by
  unfold replace
  cases hwrite : d.write (s.stagingPath slot) bytes with
  | error problem => exact .inl ⟨problem, _, rfl, .cleared hs d slot⟩
  | ok staged =>
    have spared := Spares.written hs hwrite
    obtain ⟨hstaging, rfl⟩ := write_stagingPath hs hwrite
    have hput := Disk.lookup?_put d (s.stagingPlace slot) (s.stagingPlace slot) (.file bytes)
      (Disk.ne_root_of_lookup? hstaging)
    rw [if_pos rfl] at hput
    generalize d.put (s.stagingPlace slot) (.file bytes) = staged at hput spared
    simp only
    cases hrename : staged.rename (s.stagingPath slot) (s.path slot) with
    | error problem => exact .inl ⟨problem, staged, rfl, spared⟩
    | ok d' =>
      obtain ⟨hlocate, hplace, rfl⟩ := rename_stagingPath hs hput hrename
      have erased : Spares directory staged (staged.erase (s.stagingPlace slot)) :=
        .erase hs (by simp [hput])
      refine .inr ⟨_, spared.trans erased, erased.locate s hs slot hlocate, ?_, rfl⟩
      rwa [Disk.lookup?_erase (stagingPlace_not_above hs hs slot slot)]

theorem replaceWith_cases {directory : Path} {s : Slots} (hs : s.Over directory)
    (hitch : Option Hitch) (d : Disk) (slot : UInt64) (bytes : List UInt8) :
    (∃ problem d', s.replaceWith hitch d slot bytes = (.error problem, d') ∧
      Spares directory d d') ∨
      ∃ d', Spares directory d d' ∧ d'.locate (s.path slot) = .ok (s.place slot) ∧
        d'.lookup? (s.place slot) ≠ some .directory ∧
        s.replaceWith hitch d slot bytes = (.ok (), d'.put (s.place slot) (.file bytes)) := by
  cases hitch with
  | none => exact replace_cases hs d slot bytes
  | some hitch => exact .inl (replaceWith_hitch hs hitch d slot bytes)

/-- A save either spares all slots, or puts a file into its own and spares the others. -/
theorem saveWith_cases {directory : Path} {s : Slots} (hs : s.Over directory)
    (hitch : Option Hitch) (d : Disk) (slot : UInt64) (m : Machine) :
    (∃ failure d', s.saveWith hitch d slot m = (.error failure, d') ∧ Spares directory d d') ∨
      ∃ d', Spares directory d d' ∧ d'.locate (s.path slot) = .ok (s.place slot) ∧
        d'.lookup? (s.place slot) ≠ some .directory ∧
        s.saveWith hitch d slot m = (.ok (), d'.put (s.place slot) (.file (s.contents m))) := by
  unfold saveWith
  by_cases outside : s.count ≤ slot
  · rw [if_pos outside]
    exact .inl ⟨_, d, rfl, .refl directory d⟩
  · rw [if_neg outside]
    have grown := Disk.grows_makeDirectories d s.directory
    split
    · next problem d₁ hmade =>
      rw [hmade] at grown
      exact .inl ⟨_, d₁, rfl, .of_grows grown⟩
    · next d₁ hmade =>
      rw [hmade] at grown
      have spared : Spares directory d d₁ := .of_grows grown
      rcases replaceWith_cases hs hitch d₁ slot (s.contents m) with
        ⟨problem, d', hreplace, spared'⟩ | ⟨d', spared', hlocate, hplace, hreplace⟩
      · exact .inl ⟨_, d', by rw [hreplace]; rfl, spared.trans spared'⟩
      · exact .inr ⟨d', spared.trans spared', hlocate, hplace, by rw [hreplace]; rfl⟩

/-! ## The table -/

/-- The slots over a directory hold the machines of a table and nothing else. -/
structure Holds (directory : Path) (table : String → UInt64 → Option Machine) (d : Disk) :
    Prop where
  full : ∀ s : Slots, s.Over directory → ∀ slot m, table s.program slot = some m →
    d.locate (s.path slot) = .ok (s.place slot) ∧
      d.lookup? (s.place slot) = some (.file (s.contents m))
  vacant : ∀ s : Slots, s.Over directory → ∀ slot, table s.program slot = none →
    ∀ bytes, d.lookup? (s.place slot) ≠ some (.file bytes)

/-- The program alone tells two stores over a directory apart. -/
theorem same_files {directory : Path} {s s' : Slots} (hs : s.Over directory)
    (hs' : s'.Over directory) (hprogram : s.program = s'.program) (slot : UInt64) (m : Machine) :
    s'.path slot = s.path slot ∧ s'.place slot = s.place slot ∧ s'.contents m = s.contents m := by
  have hname : s'.fileName slot = s.fileName slot := by
    rw [fileName, fileName, hprogram]
  refine ⟨?_, ?_, ?_⟩
  · rw [path, path, hname, hs.directory, hs'.directory]
  · rw [place, place, hname, hs.directory, hs'.directory]
  · rw [contents, contents, hprogram]

namespace Holds

variable {directory : Path} {table : String → UInt64 → Option Machine} {d d' : Disk}

theorem spares (h : Holds directory table d) (spared : Spares directory d d') :
    Holds directory table d' where
  full s hs slot m hm :=
    ⟨spared.locate s hs slot (h.full s hs slot m hm).1,
      (spared.file s hs slot _).2 (h.full s hs slot m hm).2⟩
  vacant s hs slot hnone bytes hbytes :=
    h.vacant s hs slot hnone bytes ((spared.file s hs slot bytes).1 hbytes)

/-- A slot that is filled is found and read, and any other is not. -/
theorem find?_path (h : Holds directory table d) {s : Slots} (hs : s.Over directory)
    (slot : UInt64) :
    match table s.program slot with
    | some m => d.find? (s.path slot) = some (.file (s.contents m))
    | none => ∀ bytes, d.find? (s.path slot) ≠ some (.file bytes) := by
  unfold Disk.find?
  split
  · next m hm =>
    obtain ⟨hlocate, hfile⟩ := h.full s hs slot m hm
    rw [hlocate]
    exact hfile
  · next hnone =>
    intro bytes
    split
    · next place hlocate =>
      obtain rfl := hs.locate_path slot hlocate
      exact h.vacant s hs slot hnone bytes
    · simp

theorem load_eq (h : Holds directory table d) {s : Slots} (hs : s.Over directory) {slot : UInt64}
    (inside : slot < s.count) :
    s.load d slot =
      match table s.program slot with
      | some m => .ok m
      | none => .error (.slotEmpty slot) := by
  have hfind := h.find?_path hs slot
  rw [load, if_neg (UInt64.not_le.2 inside)]
  cases hm : table s.program slot with
  | some m =>
    simp only [hm] at hfind
    simp only [hfind, contents, SaveFile.read, SaveFile.parse_write, if_true]
    rfl
  | none =>
    simp only [hm] at hfind
    split
    · next bytes hbytes => exact absurd hbytes (hfind bytes)
    · rfl

theorem isEmpty_eq (h : Holds directory table d) {s : Slots} (hs : s.Over directory)
    (slot : UInt64) : s.isEmpty d slot = (table s.program slot).isNone := by
  have hfind := h.find?_path hs slot
  unfold isEmpty Disk.isFile
  cases hm : table s.program slot with
  | some m =>
    simp only [hm] at hfind
    simp [hfind]
  | none =>
    simp only [hm] at hfind
    split
    · next bytes hbytes => exact absurd hbytes (hfind bytes)
    · rfl

/-- A file put into a slot is the machine of that slot, and no other slot's. -/
theorem put (h : Holds directory table d) {s : Slots} (hs : s.Over directory) {slot : UInt64}
    (hlocate : d.locate (s.path slot) = .ok (s.place slot))
    (hplace : d.lookup? (s.place slot) ≠ some .directory) (m : Machine) :
    Holds directory
      (fun program slot' =>
        if s.program = program ∧ slot = slot' then some m else table program slot')
      (d.put (s.place slot) (.file (s.contents m))) := by
  have hlookup (other : Place) := Disk.lookup?_put d (s.place slot) other (.file (s.contents m))
    (Disk.ne_root_of_lookup? hplace)
  have other {s' : Slots} (hs' : s'.Over directory) {slot' : UInt64}
      (differs : ¬(s.program = s'.program ∧ slot = slot')) : s'.place slot' ≠ s.place slot :=
    fun same => differs (place_inj hs hs' same.symm)
  constructor
  · intro s' hs' slot' m' hm'
    split at hm'
    · next same =>
      obtain ⟨hprogram, rfl⟩ := same
      obtain rfl := Option.some.inj hm'
      obtain ⟨hpath, hplace', hcontents⟩ := same_files hs hs' hprogram slot m
      rw [hpath, hplace', hcontents, hlookup, if_pos rfl]
      exact ⟨Spares.locate_of_follow hs (Disk.follow_putFile hplace _) hlocate, rfl⟩
    · next differs =>
      obtain ⟨hlocate', hfile⟩ := h.full s' hs' slot' m' hm'
      rw [hlookup, if_neg (other hs' differs)]
      exact ⟨Spares.locate_of_follow hs' (Disk.follow_putFile hplace _) hlocate', hfile⟩
  · intro s' hs' slot' hnone bytes
    split at hnone
    · cases hnone
    · next differs =>
      rw [hlookup, if_neg (other hs' differs)]
      exact h.vacant s' hs' slot' hnone bytes

end Holds

end Slots

end Chip8
