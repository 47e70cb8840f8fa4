import Chip8.Proofs.Json.Utf8
import Chip8.Proofs.Play.Settings
import Chip8.Proofs.Play.Turn
import Chip8.Proofs.Storage.Ways
import Chip8.Storage.SettingsFile

/-!
# Settings kept in files

Written settings are read back as they are, zeros and all, and are text:

    parse s.write = .ok s                                                         (parse_write)
    Json.IsText s.write                                                          (isText_write)

So a file brings back what was saved into it, unless one of the settings that have to be above zero
is not (`firstZero?_eq_some`), and a file made with the defaults is read as the defaults.
-/

namespace Chip8

namespace Disk

variable {d d' : Disk} {path : Path} {bytes : List UInt8}

theorem read_of_find? (h : d.find? path = some (.file bytes)) : d.read path = .ok bytes := by
  unfold find? at h
  split at h
  · next place hlocate => simp [read, bind, Except.bind, hlocate, h]
  · cases h

/-- No file is written at a path that ends in a slash. -/
theorem endsInSlash_of_locateFile {place : Place} (h : d.locateFile path = .ok place) :
    path.endsInSlash = false := by
  unfold locateFile at h
  split at h
  · cases hnames : namesOn path with
    | error problem => simp [bind, Except.bind, hnames] at h
    | ok names =>
      cases hfollow : d.follow [] (names.dropLast ++ ["."]) with
      | error problem => simp [bind, Except.bind, hnames, hfollow] at h
      | ok above => simp [bind, Except.bind, hnames, hfollow] at h
  · next plain => exact Bool.eq_false_iff.2 plain

theorem find?_of_write (h : d.write path bytes = .ok d') :
    d'.find? path = some (.file bytes) := by
  obtain ⟨place, hlocate, hplace, rfl⟩ := write_eq_ok_iff.1 h
  rw [locateFile_eq_locate (endsInSlash_of_locateFile hlocate)] at hlocate
  rw [find?_of_locate ((SameWays.putFile hplace bytes).locate.1 hlocate),
    lookup?_put _ _ _ _ (ne_root_of_lookup? hplace), if_pos rfl]

/-- Where a file can be written, any other can. -/
theorem exists_write (h : d.write path bytes = .ok d') (other : List UInt8) :
    ∃ d'', d.write path other = .ok d'' := by
  obtain ⟨place, hlocate, hplace, -⟩ := write_eq_ok_iff.1 h
  exact ⟨_, write_eq_ok_iff.2 ⟨place, hlocate, hplace, rfl⟩⟩

end Disk

namespace Settings

/-! ## Written form -/

theorem faithful_fields : fields.Faithful :=
  ⟨Json.Codec.faithful_uint32, Json.Codec.faithful_uint32, Json.Codec.faithful_uint32,
    Json.Codec.faithful_uint64, Json.Codec.faithful_uint64, Json.Codec.faithful_text,
    Json.Codec.faithful_bool, Json.Codec.faithful_bool, trivial⟩

theorem parse_write (s : Settings) : parse s.write = .ok s := by
  have hread := Json.Fields.read_writeLines faithful_fields nodup_names
    (s.cyclesPerSecond, s.timerUpdatesPerSecond, s.rewindFrequency, s.rewindBufferSize,
      s.slotCount, s.slotDirectory, s.hiRes, s.superChip, ()) []
  rw [List.append_nil] at hread
  simp only [parse, Json.parse, write, hread]
  rfl

theorem textual_fields : fields.Textual := by
  have uint32 (n : UInt32) : Json.IsText (Json.Codec.uint32.write n) := .decimal n.toNat
  have uint64 (n : UInt64) : Json.IsText (Json.Codec.uint64.write n) := .decimal n.toNat
  have bool (b : Bool) : Json.IsText (Json.Codec.bool.write b) := by
    cases b <;> exact .of_small (by decide)
  exact ⟨uint32, uint32, uint32, uint64, uint64, .write, bool, bool, trivial⟩

theorem isText_write (s : Settings) : Json.IsText s.write :=
  Json.Fields.isText_writeLines textual_fields _

/-! ## Files -/

variable {d d' : Disk} {path : Path} {s : Settings}

theorem save_of_write (h : d.write path s.write = .ok d') : s.save d path = .ok d' := by
  rw [save, h]
  rfl

theorem load_of_find? (h : d.find? path = some (.file s.write)) :
    load d path = match s.firstZero? with
      | some setting => .error (.settings setting)
      | none => .ok s := by
  have text : (String.fromUTF8? ⟨s.write.toArray⟩).isNone = false := by
    simp [← Option.not_isSome, (isText_write s).isSome]
  cases hzero : s.firstZero? <;> simp [load, Disk.read_of_find? h, text, parse_write, hzero]

/-- What is read has no zeros, whatever is in the file. -/
theorem firstZero?_of_load (h : load d path = .ok s) : s.firstZero? = none := by
  unfold load at h
  split at h
  · cases h
  · split at h
    · cases h
    · split at h
      · cases h
      · split at h
        · cases h
        · next hzero =>
          cases h
          exact hzero

theorem load_congr {e : Disk} (h : e.find? path = d.find? path) {bytes : List UInt8}
    (hfile : d.find? path = some (.file bytes)) : load e path = load d path := by
  rw [load, load, Disk.read_of_find? (h.trans hfile), Disk.read_of_find? hfile]

theorem readOrCreate_of_find? (h : (d.find? path).isSome = true) :
    readOrCreate d path = (load d path, d) := by
  rw [readOrCreate, if_pos h]

/-- The settings that have to be above zero, in the order in which they are checked. -/
def checked : List Setting :=
  [.cyclesPerSecond, .timerUpdatesPerSecond, .rewindFrequency, .rewindBufferSize, .slotCount]

theorem firstZero?_eq_none_iff : s.firstZero? = none ↔ ∀ setting, 0 < s.valueOf setting := by
  have all (setting : Setting) : setting ∈ checked := by cases setting <;> decide
  rw [show s.firstZero? = checked.find? (s.valueOf · == 0) from rfl, List.find?_eq_none]
  simp only [all, forall_const, beq_iff_eq, Nat.pos_iff_ne_zero, ne_eq]

theorem firstZero?_eq_some {before after : List Setting} {setting : Setting}
    (h : checked = before ++ setting :: after) (hzero : s.valueOf setting = 0)
    (hbefore : ∀ earlier ∈ before, 0 < s.valueOf earlier) :
    s.firstZero? = some setting := by
  rw [show s.firstZero? = checked.find? (s.valueOf · == 0) from rfl, h,
    List.find?_eq_some_iff_append]
  refine ⟨by simp [hzero], before, after, rfl, fun earlier hearlier => ?_⟩
  have := hbefore earlier hearlier
  simp only [Bool.not_eq_true', beq_eq_false_iff_ne]
  omega

/-- A file with settings: what is saved is read back, or refused for its first zero; nothing with
a zero is ever read; and a file that is made where none was is read as the defaults from then on,
while one that was there stays as it is. -/
theorem files_round_trip (d : Disk) (path : Path)
    (writable : ∃ bytes d', d.write path bytes = .ok d') :
    (∀ s : Settings, ∃ d', s.save d path = .ok d' ∧
      ((∀ setting, 0 < s.valueOf setting) → load d' path = .ok s) ∧
      ∀ before setting after, checked = before ++ setting :: after → s.valueOf setting = 0 →
        (∀ earlier ∈ before, 0 < s.valueOf earlier) →
        load d' path = .error (.settings setting) ∧
          (Failure.settings setting).message =
            "invalid configuration: " ++ setting.name ++ " must be above zero") ∧
    (∀ e path s, load e path = .ok s → ∀ setting, 0 < s.valueOf setting) ∧
    (d.find? path = none → ∃ d', readOrCreate d path = (.ok default, d') ∧ d'.isFile path = true ∧
      ∀ e, e.find? path = d'.find? path → readOrCreate e path = (.ok default, e)) ∧
    ∀ e path, (e.find? path).isSome = true → readOrCreate e path = (load e path, e) := by
  obtain ⟨bytes, d', hwrite⟩ := writable
  refine ⟨fun s => ?_, ?_, fun missing => ?_, fun e path => readOrCreate_of_find?⟩
  · obtain ⟨d', hsave⟩ := Disk.exists_write hwrite s.write
    have hload := load_of_find? (Disk.find?_of_write hsave)
    refine ⟨d', save_of_write hsave, fun above => ?_, ?_⟩
    · rw [hload, firstZero?_eq_none_iff.2 above]
    · intro before setting after order hzero hbefore
      rw [hload, firstZero?_eq_some order hzero hbefore]
      exact ⟨rfl, rfl⟩
  · exact fun e path s hload => firstZero?_eq_none_iff.1 (firstZero?_of_load hload)
  · obtain ⟨d', hsave⟩ := Disk.exists_write hwrite default.write
    have hfind := Disk.find?_of_write hsave
    have hload := load_of_find? hfind
    rw [firstZero?_default] at hload
    refine ⟨d', ?_, by rw [Disk.isFile, hfind], fun e same => ?_⟩
    · simp only [readOrCreate, missing, Option.isSome_none, Bool.false_eq_true, if_false,
        save_of_write hsave, hload]
    · rw [readOrCreate_of_find? (by rw [same, hfind]; rfl), load_congr same hfind, hload]

/-- A new file on a blank disk, settings with quotes and a backslash in them, and settings of which two
are zero. -/
theorem files_round_trip_blank :
    let path : Path := ⟨"config.json"⟩
    let quoted : Settings := { default with slotDirectory := "a \x22b\x22 \x5c c" }
    let zeros : Settings := { default with rewindFrequency := 0, slotCount := 0 }
    (∃ bytes d', Disk.blank.write path bytes = .ok d') ∧
      (∃ d', quoted.save .blank path = .ok d' ∧ load d' path = .ok quoted) ∧
      (∃ d', zeros.save .blank path = .ok d' ∧
        load d' path = .error (.settings .rewindFrequency) ∧
        (Failure.settings .rewindFrequency).message =
          "invalid configuration: rewind_frequency must be above zero") ∧
      ∃ d', readOrCreate .blank path = (.ok default, d') ∧
        readOrCreate d' path = (.ok default, d') := by
  intro path quoted zeros
  have missing : Disk.blank.find? path = none := by decide +kernel +zetaReduce
  have writable : ∃ bytes d', Disk.blank.write path bytes = .ok d' := by
    have written : (Disk.blank.write path []).toOption.isSome = true := by
      decide +kernel +zetaReduce
    cases hwrite : Disk.blank.write path [] with
    | error problem =>
      rw [hwrite] at written
      cases written
    | ok d' => exact ⟨[], d', hwrite⟩
  obtain ⟨saved, -, made, -⟩ := files_round_trip .blank path writable
  obtain ⟨d₁, hsave₁, hload₁, -⟩ := saved quoted
  obtain ⟨d₂, hsave₂, -, hzero⟩ := saved zeros
  obtain ⟨hload₂, hmessage⟩ := hzero [.cyclesPerSecond, .timerUpdatesPerSecond] .rewindFrequency
    [.rewindBufferSize, .slotCount] rfl rfl (by decide +zetaReduce)
  obtain ⟨d₃, hmade, -, again⟩ := made missing
  refine ⟨writable, ⟨d₁, hsave₁, hload₁ fun setting => ?_⟩, ⟨d₂, hsave₂, hload₂, hmessage⟩, d₃, hmade,
    again d₃ rfl⟩
  cases setting <;> decide +zetaReduce

end Settings

end Chip8
