import Chip8.Play.Settings
import Chip8.Proofs.Json.Objects

/-!
# Settings in any object

Settings are read from any object: those that its members give have the values given, the others
their defaults (`Sketch.settings`).  Members of other names do not matter, whatever their values; a
setting that is given twice, or with a value that it cannot have, is an error:

    g.In members → parse (front ++ openRecord :: (inner ++ back)) = .ok g.settings   (parse_of_in)
    fields.Spoiled members →
      ∃ problem, parse (front ++ openRecord :: (inner ++ back)) = .error problem (parse_of_spoiled)
-/

namespace Chip8.Settings

open Json

/-- Some of the settings. -/
structure Sketch where
  cyclesPerSecond : Option UInt32 := none
  timerUpdatesPerSecond : Option UInt32 := none
  rewindFrequency : Option UInt32 := none
  rewindBufferSize : Option UInt64 := none
  slotCount : Option UInt64 := none
  slotDirectory : Option String := none
  hiRes : Option Bool := none
  superChip : Option Bool := none
  deriving DecidableEq, Repr

namespace Sketch

/-- The defaults for all others. -/
def settings (g : Sketch) : Settings where
  cyclesPerSecond := g.cyclesPerSecond.getD default.cyclesPerSecond
  timerUpdatesPerSecond := g.timerUpdatesPerSecond.getD default.timerUpdatesPerSecond
  rewindFrequency := g.rewindFrequency.getD default.rewindFrequency
  rewindBufferSize := g.rewindBufferSize.getD default.rewindBufferSize
  slotCount := g.slotCount.getD default.slotCount
  slotDirectory := g.slotDirectory.getD default.slotDirectory
  hiRes := g.hiRes.getD default.hiRes
  superChip := g.superChip.getD default.superChip

end Sketch

/-! ## Forms of values -/

/-- What kind of value a setting has. -/
inductive Kind where
  /-- A natural number below a bound. -/
  | number (bound : Nat)
  | text
  | truth
  deriving DecidableEq, Repr

/-- Digits without leading zeros. -/
def IsNatural (n : Nat) (value : List UInt8) : Prop := value = Numeral.decimal n

/-- A text between quotes, spelled in any way. -/
def IsString (s : String) (value : List UInt8) : Prop :=
  ∃ body, value = quote :: (body ++ [quote]) ∧ Spells body (Text.utf8 s)

def IsTruth (b : Bool) (value : List UInt8) : Prop := value = ascii (if b then "true" else "false")

def Kind.Fits : Kind → List UInt8 → Prop
  | .number bound, value => ∃ n, n < bound ∧ IsNatural n value
  | .text, value => ∃ s, IsString s value
  | .truth, value => ∃ b, IsTruth b value

/-- The names of all settings, each with its kind. -/
def kinds : List (String × Kind) :=
  [("cycles_per_second", .number 0x100000000), ("timer_updates_per_second", .number 0x100000000),
    ("rewind_frequency", .number 0x100000000), ("rewind_buffer_size", .number 0x10000000000000000),
    ("savestate_slots", .number 0x10000000000000000), ("savestate_dir", .text), ("hi_res", .truth),
    ("super_chip", .truth)]

/-- The members give just these settings, each once. -/
structure Sketch.In (g : Sketch) (members : List (String × List UInt8)) : Prop where
  cyclesPerSecond : GivenAs (fun n => IsNatural n.toNat) (valuesOf "cycles_per_second" members)
    g.cyclesPerSecond
  timerUpdatesPerSecond : GivenAs (fun n => IsNatural n.toNat)
    (valuesOf "timer_updates_per_second" members) g.timerUpdatesPerSecond
  rewindFrequency : GivenAs (fun n => IsNatural n.toNat) (valuesOf "rewind_frequency" members)
    g.rewindFrequency
  rewindBufferSize : GivenAs (fun n => IsNatural n.toNat) (valuesOf "rewind_buffer_size" members)
    g.rewindBufferSize
  slotCount : GivenAs (fun n => IsNatural n.toNat) (valuesOf "savestate_slots" members) g.slotCount
  slotDirectory : GivenAs IsString (valuesOf "savestate_dir" members) g.slotDirectory
  hiRes : GivenAs IsTruth (valuesOf "hi_res" members) g.hiRes
  superChip : GivenAs IsTruth (valuesOf "super_chip" members) g.superChip

theorem decides_fields : fields.Decides :=
  ⟨Codec.exact_uint32.decides, Codec.exact_uint32.decides, Codec.exact_uint32.decides,
    Codec.exact_uint64.decides, Codec.exact_uint64.decides, Codec.exact_text.decides,
    Codec.exact_bool.decides, Codec.exact_bool.decides, trivial⟩

theorem nodup_names : fields.names.Nodup := by
  simp [fields, Fields.names, Setting.name]

/-- The draft of a sketch. -/
def Sketch.draft (g : Sketch) :
    Draft [UInt32, UInt32, UInt32, UInt64, UInt64, String, Bool, Bool] :=
  (g.cyclesPerSecond, g.timerUpdatesPerSecond, g.rewindFrequency, g.rewindBufferSize, g.slotCount,
    g.slotDirectory, g.hiRes, g.superChip, ())

theorem Sketch.In.given {g : Sketch} {members : List (String × List UInt8)} (h : g.In members) :
    fields.Given members g.draft :=
  ⟨h.cyclesPerSecond.takes Codec.exact_uint32, h.timerUpdatesPerSecond.takes Codec.exact_uint32,
    h.rewindFrequency.takes Codec.exact_uint32, h.rewindBufferSize.takes Codec.exact_uint64,
    h.slotCount.takes Codec.exact_uint64, h.slotDirectory.takes Codec.exact_text,
    h.hiRes.takes Codec.exact_bool, h.superChip.takes Codec.exact_bool, trivial⟩

theorem orElse_some {α : Type} (a : Option α) (b : α) : (a <|> some b) = some (a.getD b) := by
  cases a <;> rfl

theorem complete_draft (g : Sketch) : fields.complete g.draft =
    some (g.settings.cyclesPerSecond, g.settings.timerUpdatesPerSecond,
      g.settings.rewindFrequency, g.settings.rewindBufferSize, g.settings.slotCount,
      g.settings.slotDirectory, g.settings.hiRes, g.settings.superChip, ()) := by
  simp only [fields, Sketch.draft, Fields.complete, orElse_some]
  rfl

/-! ## Settings of an object -/

section
variable {members : List (String × List UInt8)} {front inner back : List UInt8}
  (hfront : Blank front) (h : Lays true members inner)
include hfront h

theorem parse_of_in (hback : Blank back) {g : Sketch} (given : g.In members) :
    parse (front ++ openRecord :: (inner ++ back)) = .ok g.settings := by
  have hread := Fields.read_given decides_fields nodup_names hfront h given.given
    (complete_draft g) back
  have blanks : back.all isBlank = true := List.all_eq_true.2 hback
  simp only [parse, Json.parse, hread, blanks, if_true]
  rfl

theorem parse_of_spoiled (spoiled : fields.Spoiled members) :
    ∃ problem, parse (front ++ openRecord :: (inner ++ back)) = .error problem := by
  obtain ⟨problem, hread⟩ :=
    Fields.read_spoiled decides_fields nodup_names hfront h spoiled back
  refine ⟨problem, ?_⟩
  simp only [parse, Json.parse, hread]
  rfl

end

/-! ## Values that do not fit -/

/-- The names of the fields are those given, and each field refuses what is not of its kind. -/
def Suits {αs : List Type} : Fields αs → List (String × Kind) → Prop
  | .nil, kinds => kinds = []
  | .cons name codec _ later, kinds => ∃ kind others, kinds = (name, kind) :: others ∧
    (∀ value, Derives .value value → ¬kind.Fits value → codec.Refuses value) ∧ Suits later others

theorem suits_fields : Suits fields kinds := by
  have uint32 value (h : Derives .value value) (misfit : ¬(Kind.number 0x100000000).Fits value) :
      Codec.uint32.Refuses value :=
    Codec.exact_uint32.refuses h fun n hn => misfit ⟨n.toNat, n.toNat_lt, hn⟩
  have uint64 value (h : Derives .value value)
      (misfit : ¬(Kind.number 0x10000000000000000).Fits value) : Codec.uint64.Refuses value :=
    Codec.exact_uint64.refuses h fun n hn => misfit ⟨n.toNat, n.toNat_lt, hn⟩
  have text value (h : Derives .value value) (misfit : ¬Kind.text.Fits value) :
      Codec.text.Refuses value :=
    Codec.exact_text.refuses h fun s hs => misfit ⟨s, hs⟩
  have truth value (h : Derives .value value) (misfit : ¬Kind.truth.Fits value) :
      Codec.bool.Refuses value :=
    Codec.exact_bool.refuses h fun b hb => misfit ⟨b, hb⟩
  exact ⟨_, _, rfl, uint32, _, _, rfl, uint32, _, _, rfl, uint32, _, _, rfl, uint64, _, _, rfl,
    uint64, _, _, rfl, text, _, _, rfl, truth, _, _, rfl, truth, rfl⟩

section
variable {αs : List Type} {fields : Fields αs} {kinds : List (String × Kind)} {name : String}
  {kind : Kind} (suits : Suits fields kinds) (hkind : (name, kind) ∈ kinds)
include suits hkind

theorem Suits.mem_names : name ∈ fields.names := by
  induction fields generalizing kinds with
  | nil =>
    rw [suits] at hkind
    cases hkind
  | cons _ codec fallback later ih =>
    obtain ⟨_, others, rfl, -, hlater⟩ := suits
    rcases List.mem_cons.1 hkind with same | there
    · cases same
      exact List.mem_cons_self
    · exact List.mem_cons_of_mem _ (ih hlater there)

theorem Suits.spoiled {members : List (String × List UInt8)} {value : List UInt8}
    (hvalue : Derives .value value) (given : value ∈ valuesOf name members)
    (misfit : ¬kind.Fits value) : fields.Spoiled members := by
  induction fields generalizing kinds with
  | nil =>
    rw [suits] at hkind
    cases hkind
  | cons _ codec fallback later ih =>
    obtain ⟨_, others, rfl, refuses, hlater⟩ := suits
    rcases List.mem_cons.1 hkind with same | there
    · cases same
      exact .inl (.inr ⟨value, given, refuses value hvalue misfit⟩)
    · exact .inr (ih hlater there)

end

/-- An object, in whatever order and with whatever members besides, is read as the settings that it
gives.  It is refused if it gives one twice, or with a value that does not fit. -/
theorem parse_object {members : List (String × List UInt8)} {front inner back : List UInt8}
    (hfront : Blank front) (hback : Blank back) (h : Lays true members inner) :
    (∀ g : Sketch, g.In members →
      parse (front ++ openRecord :: (inner ++ back)) = .ok g.settings) ∧
    ∀ name kind, (name, kind) ∈ kinds →
      2 ≤ (valuesOf name members).length ∨
        (∃ value, (name, value) ∈ members ∧ ¬kind.Fits value) →
      ∃ problem, parse (front ++ openRecord :: (inner ++ back)) = .error problem := by
  refine ⟨fun g given => parse_of_in hfront h hback given, fun name kind hkind spoiling => ?_⟩
  refine parse_of_spoiled hfront h ?_
  rcases spoiling with twice | ⟨value, given, misfit⟩
  · exact Fields.spoiled_of_twice (suits_fields.mem_names hkind) twice
  · exact suits_fields.spoiled hkind (h.derives_value given) (mem_valuesOf.2 given) misfit

/-- A setting behind a member that is none, an array in an array. -/
theorem parse_object_nested :
    let members := [("x", ascii "[[]]"), ("hi_res", ascii "true")]
    let inner := ascii "\"x\":[[]], \"hi_res\":true\x7d"
    Lays true members inner ∧ ({ hiRes := some true } : Sketch).In members ∧
      parse (openRecord :: inner) = .ok { default with hiRes := true } := by
  intro members inner
  have none : Blank [] := by decide
  have blank : Blank [0x20] := by decide
  have x : Spells (Text.utf8 "x") (Text.utf8 "x") := .plain_all (by decide +kernel)
  have hi_res : Spells (Text.utf8 "hi_res") (Text.utf8 "hi_res") := .plain_all (by decide +kernel)
  have empty : Derives .value (ascii "[]") := .container .array (.close .array true none)
  have rest : Derives (.rest .array true) (ascii "[]]") :=
    .item ⟨[], none, rfl⟩ .array none empty (.close .array false none)
  have array : Derives .value (ascii "[[]]") := .container .array rest
  have last : Lays false [("hi_res", ascii "true")] (ascii ", \"hi_res\":true\x7d") :=
    .member ⟨[], none, rfl⟩ blank hi_res none none (.word (by simp)) (.close false none)
  have lays : Lays true members inner := .member ⟨[], none, rfl⟩ none x none none array last
  have given : ({ hiRes := some true } : Sketch).In members :=
    ⟨rfl, rfl, rfl, rfl, rfl, rfl, ⟨_, rfl, rfl⟩, rfl⟩
  refine ⟨lays, given, ?_⟩
  have whole := (parse_object none none lays).1 _ given
  rw [List.nil_append, List.append_nil] at whole
  exact whole

end Chip8.Settings
