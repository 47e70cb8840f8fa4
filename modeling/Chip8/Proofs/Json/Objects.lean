import Chip8.Proofs.Json.Forms
import Chip8.Proofs.Json.Record

/-!
# Objects with any members

An object holds members in any order, of names that a record has and of others, and its names are
spelled in any way (`Lays`).  Read as a record it brings just what its members give
(`Fields.Given`), or else it is refused because one of them spoils it (`Fields.Spoiled`):

    fields.Given members draft → fields.complete draft = some values →
      fields.read (front ++ openRecord :: (text ++ rest)) = .ok (values, rest)      (read_given)
    fields.Spoiled members →
      ∃ problem, fields.read (front ++ openRecord :: (text ++ rest)) = .error problem (read_spoiled)
-/

namespace Chip8.Json

open Reader

/-! ## Objects -/

/-- The members of an object from some point on, and the text from there up to its end. -/
inductive Lays : Bool → List (String × List UInt8) → List UInt8 → Prop
  | close (first : Bool) {blanks : List UInt8} (hblanks : Blank blanks) :
      Lays first [] (blanks ++ [closeRecord])
  | member {first : Bool} {name : String}
      {separator front body between blanks value text : List UInt8}
      {members : List (String × List UInt8)} (hseparator : Separator first separator)
      (hfront : Blank front) (hname : Spells body (Text.utf8 name)) (hbetween : Blank between)
      (hblanks : Blank blanks) (hvalue : Derives .value value) (hlater : Lays false members text) :
      Lays first ((name, value) :: members) (separator ++
        (front ++ quote :: (body ++ quote :: (between ++ colon :: (blanks ++ (value ++ text))))))

/-- Such a text is one of JSON. -/
theorem Lays.derives {first : Bool} {members : List (String × List UInt8)} {text : List UInt8}
    (h : Lays first members text) : Derives (.rest .record first) text := by
  induction h with
  | close first hblanks => exact .close .record first hblanks
  | member hseparator hfront hname hbetween hblanks hvalue _ ih =>
    have := Derives.item hseparator (.record hname.quoted hfront hbetween) hblanks hvalue ih
    simpa using this

theorem Lays.stops {members : List (String × List UInt8)} {text : List UInt8}
    (h : Lays false members text) (rest : List UInt8) : Stops (text ++ rest) :=
  Skip.stops_rest h.derives rfl

theorem Lays.derives_value {first : Bool} {members : List (String × List UInt8)}
    {text : List UInt8} (h : Lays first members text) {name : String} {value : List UInt8}
    (hmem : (name, value) ∈ members) : Derives .value value := by
  induction h with
  | close => cases hmem
  | member _ _ _ _ _ hvalue _ ih =>
    rcases List.mem_cons.1 hmem with same | later
    · cases same
      exact hvalue
    · exact ih later

theorem Lays.length_le {first : Bool} {members : List (String × List UInt8)} {text : List UInt8}
    (h : Lays first members text) : members.length ≤ text.length := by
  induction h with
  | close => simp
  | member _ _ _ _ _ _ _ ih =>
    simp only [List.length_append, List.length_cons]
    omega

/-- The values that a name has among members, first to last. -/
def valuesOf (name : String) (members : List (String × List UInt8)) : List (List UInt8) :=
  (members.filter (·.1 = name)).map (·.2)

theorem valuesOf_append (name : String) (front back : List (String × List UInt8)) :
    valuesOf name (front ++ back) = valuesOf name front ++ valuesOf name back := by
  simp [valuesOf]

theorem valuesOf_self (name : String) (value : List UInt8) :
    valuesOf name [(name, value)] = [value] := by
  simp [valuesOf]

theorem valuesOf_other {name key : String} (h : name ≠ key) (value : List UInt8) :
    valuesOf name [(key, value)] = [] := by
  simp [valuesOf, h.symm]

theorem mem_valuesOf {name : String} {value : List UInt8} {members : List (String × List UInt8)} :
    value ∈ valuesOf name members ↔ (name, value) ∈ members := by
  simp only [valuesOf, List.mem_map, List.mem_filter, decide_eq_true_eq]
  constructor
  · rintro ⟨⟨_, _⟩, ⟨hmem, rfl⟩, rfl⟩
    exact hmem
  · exact fun hmem => ⟨_, ⟨hmem, rfl⟩, rfl⟩

/-! ## Values that are taken or refused -/

namespace Codec

variable {α : Type}

/-- A text is read as a value, wherever it stands. -/
def Takes (c : Codec α) (a : α) (text : List UInt8) : Prop :=
  ∀ blanks rest, Blank blanks → Stops rest → c.read (blanks ++ (text ++ rest)) = .ok (a, rest)

/-- A text is refused, wherever it stands. -/
def Refuses (c : Codec α) (text : List UInt8) : Prop :=
  ∀ blanks rest, Blank blanks → Stops rest →
    ∃ problem, c.read (blanks ++ (text ++ rest)) = .error problem

/-- Every value of JSON is taken or refused. -/
def Decides (c : Codec α) : Prop :=
  ∀ text, Derives .value text → (∃ a, c.Takes a text) ∨ c.Refuses text

theorem Takes.eq {c : Codec α} {a b : α} {text : List UInt8} (h : c.Takes a text)
    (h' : c.Takes b text) : a = b := by
  have hread := h [] [] (by simp [Blank]) stops_nil
  rw [h' [] [] (by simp [Blank]) stops_nil] at hread
  cases hread
  rfl

theorem Takes.not_refuses {c : Codec α} {a : α} {text : List UInt8} (h : c.Takes a text) :
    ¬c.Refuses text := by
  intro h'
  obtain ⟨problem, hread⟩ := h' [] [] (by simp [Blank]) stops_nil
  rw [h [] [] (by simp [Blank]) stops_nil] at hread
  cases hread

variable {c : Codec α} {Form : α → List UInt8 → Prop} (hc : c.Exact Form)
include hc

theorem Exact.takes {a : α} {text : List UInt8} (h : Form a text) : c.Takes a text :=
  fun blanks rest hblanks hrest => hc.read_of_form a text blanks rest h hblanks hrest

theorem Exact.refuses {text : List UInt8} (value : Derives .value text)
    (h : ∀ a, ¬Form a text) : c.Refuses text := by
  intro blanks rest hblanks hrest
  cases hread : c.read (blanks ++ (text ++ rest)) with
  | error problem => exact ⟨problem, rfl⟩
  | ok r =>
    exact absurd (hc.form_of_read r.1 text blanks rest r.2 value hblanks hrest hread) (h r.1)

theorem Exact.decides : c.Decides := by
  intro text value
  by_cases h : ∃ a, Form a text
  · obtain ⟨a, ha⟩ := h
    exact .inl ⟨a, hc.takes ha⟩
  · exact .inr (hc.refuses value fun a ha => h ⟨a, ha⟩)

end Codec

/-- A value given once in a form of its own, or not at all. -/
def GivenAs {α : Type} (Form : α → List UInt8 → Prop) (texts : List (List UInt8)) :
    Option α → Prop
  | none => texts = []
  | some a => ∃ text, texts = [text] ∧ Form a text

namespace GivenAs

variable {α : Type} {c : Codec α} {texts : List (List UInt8)} {a b : Option α}

theorem eq (h : GivenAs c.Takes texts a) (h' : GivenAs c.Takes texts b) : a = b := by
  cases a with
  | none =>
    cases b with
    | none => rfl
    | some b =>
      obtain ⟨text, rfl, -⟩ := h'
      cases h
  | some a =>
    obtain ⟨text, rfl, ha⟩ := h
    cases b with
    | none => cases h'
    | some b =>
      obtain ⟨_, ⟨⟩, hb⟩ := h'
      rw [ha.eq hb]

theorem takes {Form : α → List UInt8 → Prop} (h : GivenAs Form texts a) (hc : c.Exact Form) :
    GivenAs c.Takes texts a := by
  cases a with
  | none => exact h
  | some a =>
    obtain ⟨text, htexts, ha⟩ := h
    exact ⟨text, htexts, hc.takes ha⟩

theorem not_spoiled (h : GivenAs c.Takes texts a) :
    ¬(2 ≤ texts.length ∨ ∃ text ∈ texts, c.Refuses text) := by
  cases a with
  | none =>
    obtain rfl := h
    simp
  | some a =>
    obtain ⟨text, rfl, ha⟩ := h
    simpa using ha.not_refuses

end GivenAs

namespace Fields

variable {αs : List Type}

/-- Every codec of the record takes or refuses each value. -/
def Decides {αs : List Type} : Fields αs → Prop
  | nil => True
  | cons _ codec _ later => codec.Decides ∧ later.Decides

/-- The members give each field of the draft once, and no field that is not in the draft. -/
def Given {αs : List Type} : Fields αs → List (String × List UInt8) → Draft αs → Prop
  | nil, _, _ => True
  | cons name codec _ later, members, (a, as) =>
    GivenAs codec.Takes (valuesOf name members) a ∧ later.Given members as

/-- The members give some field more than once, or with a value that is refused. -/
def Spoiled {αs : List Type} : Fields αs → List (String × List UInt8) → Prop
  | nil, _ => False
  | cons name codec _ later, members =>
    (2 ≤ (valuesOf name members).length ∨ ∃ text ∈ valuesOf name members, codec.Refuses text) ∨
      later.Spoiled members

theorem given_blank (fields : Fields αs) : fields.Given [] (Draft.blank αs) := by
  induction fields with
  | nil => trivial
  | cons name codec fallback later ih => exact ⟨rfl, ih⟩

theorem Given.eq {fields : Fields αs} {members : List (String × List UInt8)}
    {draft other : Draft αs} (h : fields.Given members draft)
    (h' : fields.Given members other) : draft = other := by
  induction fields with
  | nil => rfl
  | cons name codec fallback later ih => exact Prod.ext (h.1.eq h'.1) (ih h.2 h'.2)

theorem Given.not_spoiled {fields : Fields αs} {members : List (String × List UInt8)}
    {draft : Draft αs} (h : fields.Given members draft) : ¬fields.Spoiled members := by
  induction fields with
  | nil => exact id
  | cons name codec fallback later ih =>
    rintro (here | there)
    · exact h.1.not_spoiled here
    · exact ih h.2 there

theorem Spoiled.append {fields : Fields αs} {members : List (String × List UInt8)}
    (h : fields.Spoiled members) (more : List (String × List UInt8)) :
    fields.Spoiled (members ++ more) := by
  induction fields with
  | nil => exact h
  | cons name codec fallback later ih =>
    unfold Spoiled
    rw [valuesOf_append, List.length_append]
    rcases h with (twice | ⟨text, htext, refused⟩) | there
    · exact .inl (.inl (by omega))
    · exact .inl (.inr ⟨text, List.mem_append_left _ htext, refused⟩)
    · exact .inr (ih there)

theorem spoiled_of_twice {fields : Fields αs} {members : List (String × List UInt8)} {name : String}
    (hname : name ∈ fields.names) (twice : 2 ≤ (valuesOf name members).length) :
    fields.Spoiled members := by
  induction fields with
  | nil => cases hname
  | cons _ codec fallback later ih =>
    rcases List.mem_cons.1 hname with rfl | there
    · exact .inl (.inl twice)
    · exact .inr (ih there)

/-- A member of another name is none of the record's. -/
theorem Given.other {fields : Fields αs} {members : List (String × List UInt8)} {draft : Draft αs}
    (h : fields.Given members draft) {key : String} (hkey : key ∉ fields.names)
    (value : List UInt8) : fields.Given (members ++ [(key, value)]) draft := by
  induction fields with
  | nil => trivial
  | cons name codec fallback later ih =>
    obtain ⟨a, as⟩ := draft
    rw [names, List.mem_cons, not_or] at hkey
    rw [Given, valuesOf_append, valuesOf_other (Ne.symm hkey.1), List.append_nil]
    exact ⟨h.1, ih h.2 hkey.2⟩

theorem not_mem_names_of_readNamed {fields : Fields αs} {key : String} {draft : Draft αs}
    (h : fields.readNamed key draft = none) : key ∉ fields.names := by
  induction fields with
  | nil => simp [names]
  | cons name codec fallback later ih =>
    obtain ⟨a, as⟩ := draft
    rw [readNamed] at h
    split at h
    · cases h
    · next other =>
      rw [Option.map_eq_none_iff] at h
      rw [names, List.mem_cons, not_or]
      exact ⟨Ne.symm other, ih h⟩

/-! ## One member -/

/-- A member of a name that the record has brings its value into the draft, or spoils it all. -/
theorem readNamed_cases {fields : Fields αs} (hfields : fields.Decides)
    (hnames : fields.names.Nodup) {before : List (String × List UInt8)} {draft : Draft αs}
    (h : fields.Given before draft) {key : String} {reader : Reader (Draft αs)}
    (hreader : fields.readNamed key draft = some reader) {between blanks value : List UInt8}
    (hbetween : Blank between) (hblanks : Blank blanks) (hvalue : Derives .value value) :
    (∃ next, fields.Given (before ++ [(key, value)]) next ∧ ∀ rest, Stops rest →
        reader (between ++ colon :: (blanks ++ (value ++ rest))) = .ok (next, rest)) ∨
      (fields.Spoiled (before ++ [(key, value)]) ∧ ∀ rest, Stops rest →
        ∃ problem, reader (between ++ colon :: (blanks ++ (value ++ rest))) = .error problem) := by
  induction fields with
  | nil => cases hreader
  | cons name codec fallback later ih =>
    obtain ⟨a, as⟩ := draft
    rw [names, List.nodup_cons] at hnames
    obtain ⟨ha, has⟩ := h
    obtain ⟨hcodec, hlater⟩ := hfields
    rw [readNamed] at hreader
    rw [Spoiled, valuesOf_append]
    split at hreader
    · next same =>
      subst same
      cases hreader
      rw [valuesOf_self]
      cases a with
      | some a =>
        right
        obtain ⟨text, once, -⟩ := ha
        rw [once]
        exact ⟨.inl (.inl (by simp)), fun rest _ => ⟨_, rfl⟩⟩
      | none =>
        have none : valuesOf name before = [] := ha
        have start := expect_blanks hbetween (show isBlank colon = false by decide)
        rcases hcodec value hvalue with ⟨a, taken⟩ | refused
        · left
          refine ⟨(some a, as), ⟨⟨value, ?_, taken⟩, has.other hnames.1 value⟩, ?_⟩
          · rw [valuesOf_append, none, valuesOf_self, List.nil_append]
          · intro rest hrest
            show (expect colon >>= _) _ = _
            rw [bind_of_ok (start _), bind_of_ok (taken blanks rest hblanks hrest)]
            rfl
        · right
          refine ⟨.inl (.inr ⟨value, by simp, refused⟩), fun rest hrest => ?_⟩
          obtain ⟨problem, hread⟩ := refused blanks rest hblanks hrest
          refine ⟨problem, ?_⟩
          show (expect colon >>= _) _ = _
          rw [bind_of_ok (start _)]
          exact bind_of_error hread
    · next other =>
      rw [Option.map_eq_some_iff] at hreader
      obtain ⟨inner, hinner, rfl⟩ := hreader
      rcases ih hlater hnames.2 has hinner with ⟨next, hnext, hread⟩ | ⟨spoiled, hread⟩
      · left
        refine ⟨(a, next), ⟨?_, hnext⟩, fun rest hrest => map_of_ok (a, ·) (hread rest hrest)⟩
        rw [valuesOf_append, valuesOf_other other, List.append_nil]
        exact ha
      · right
        refine ⟨.inr spoiled, fun rest hrest => ?_⟩
        obtain ⟨problem, hread⟩ := hread rest hrest
        exact ⟨problem, map_of_error (a, ·) hread⟩

/-- A member of any name goes by, into the draft or past it, or it spoils all. -/
theorem readField_cases {fields : Fields αs} (hfields : fields.Decides)
    (hnames : fields.names.Nodup) {before : List (String × List UInt8)} {draft : Draft αs}
    (h : fields.Given before draft) {name : String} {body between blanks value : List UInt8}
    (hname : Spells body (Text.utf8 name)) (hbetween : Blank between) (hblanks : Blank blanks)
    (hvalue : Derives .value value) :
    (∃ next, fields.Given (before ++ [(name, value)]) next ∧ ∀ rest, Stops rest →
        fields.readField draft
          (quote :: (body ++ quote :: (between ++ colon :: (blanks ++ (value ++ rest))))) =
            .ok (next, rest)) ∨
      (fields.Spoiled (before ++ [(name, value)]) ∧ ∀ rest, Stops rest →
        ∃ problem, fields.readField draft
          (quote :: (body ++ quote :: (between ++ colon :: (blanks ++ (value ++ rest))))) =
            .error problem) := by
  have key (text : List UInt8) : Text.read (body ++ quote :: text) = .ok (name, text) := by
    simp only [Text.read, Text.content_spells hname, Text.fromUTF8?_utf8]
  have colon_next := expect_blanks hbetween (show isBlank colon = false by decide)
  have start (text : List UInt8) : fields.readField draft (quote :: (body ++ quote :: text)) =
      (fields.readNamed name draft).getD (do expect colon; skipValue; return draft) text := by
    rw [readField, bind_of_ok (expect_cons (by decide) _)]
    refine (bind_of_ok (key text)).trans ?_
    cases fields.readNamed name draft <;> rfl
  simp only [start]
  cases hreader : fields.readNamed name draft with
  | some reader => exact readNamed_cases hfields hnames h hreader hbetween hblanks hvalue
  | none =>
    left
    refine ⟨draft, h.other (not_mem_names_of_readNamed hreader) value, fun rest hrest => ?_⟩
    simp only [Option.getD_none]
    rw [bind_of_ok (colon_next _), bind_of_ok (skipValue_of_derives hvalue hblanks hrest)]
    rfl

/-! ## All members -/

theorem another_blanks {close : UInt8} {first : Bool} {blanks : List UInt8}
    (hblanks : Blank blanks) (text : List UInt8) :
    another close first (blanks ++ text) = another close first text := by
  unfold another
  exact peek_bind_blanks hblanks _ text

theorem another_member {first : Bool} {separator front : List UInt8}
    (hseparator : Separator first separator) (hfront : Blank front) (text : List UInt8) :
    another closeRecord first (separator ++ (front ++ quote :: text)) =
      .ok (true, quote :: text) := by
  obtain ⟨blanks, hblanks, rfl⟩ := hseparator
  have hskip : skipBlanks (front ++ [quote]) = quote :: [] := by
    rw [skipBlanks_append hfront, skipBlanks_cons (by decide)]
  have part := another_part first hskip (by decide) (show isStop closeRecord = true by decide)
    (by decide) text
  cases first with
  | true =>
    rw [if_pos rfl, another_blanks hblanks]
    simpa using part
  | false =>
    rw [if_neg (by decide), List.append_assoc, another_blanks hblanks]
    simpa using part

theorem readObject_cases {fields : Fields αs} (hfields : fields.Decides)
    (hnames : fields.names.Nodup) {first : Bool} {members : List (String × List UInt8)}
    {text : List UInt8} (h : Lays first members text) (rest : List UInt8) :
    ∀ fuel before draft, members.length < fuel → fields.Given before draft →
      (∃ last, fields.Given (before ++ members) last ∧
          fields.readObject fuel first draft (text ++ rest) = .ok (last, closeRecord :: rest)) ∨
        (fields.Spoiled (before ++ members) ∧
          ∃ problem, fields.readObject fuel first draft (text ++ rest) = .error problem) := by
  induction h with
  | @close first blanks hblanks =>
    intro fuel before draft hfuel hdraft
    obtain ⟨fuel, rfl⟩ := Nat.exists_eq_add_one_of_ne_zero (Nat.ne_zero_of_lt hfuel)
    have hend : skipBlanks (blanks ++ [closeRecord] ++ rest) = closeRecord :: rest := by
      rw [List.append_assoc, skipBlanks_append hblanks]
      exact skipBlanks_cons (by decide)
    left
    refine ⟨draft, by rwa [List.append_nil], ?_⟩
    rw [readObject, bind_of_ok (another_close first hend)]
    rfl
  | @member first name separator front body between blanks value text members hseparator hfront
      hname hbetween hblanks hvalue hlater ih =>
    intro fuel before draft hfuel hdraft
    obtain ⟨fuel, rfl⟩ := Nat.exists_eq_add_one_of_ne_zero (Nat.ne_zero_of_lt hfuel)
    rw [List.length_cons, Nat.add_lt_add_iff_right] at hfuel
    have split : before ++ (name, value) :: members = before ++ [(name, value)] ++ members := by
      simp
    simp only [List.append_assoc, List.cons_append]
    rw [readObject_succ, bind_of_ok (another_member hseparator hfront _), if_pos rfl, split]
    rcases readField_cases hfields hnames hdraft hname hbetween hblanks hvalue with
      ⟨next, hnext, hread⟩ | ⟨spoiled, hread⟩
    · rw [bind_of_ok (hread _ (hlater.stops rest))]
      exact ih fuel _ next hfuel hnext
    · right
      obtain ⟨problem, hread⟩ := hread _ (hlater.stops rest)
      exact ⟨spoiled.append members, problem, bind_of_error hread⟩

/-! ## Records -/

section
variable {fields : Fields αs} (hfields : fields.Decides) (hnames : fields.names.Nodup)
  {members : List (String × List UInt8)} {front text : List UInt8} (hfront : Blank front)
  (h : Lays true members text)
include hfields hnames hfront h

theorem read_cases (rest : List UInt8) :
    (∃ last, fields.Given members last ∧
      fields.read (front ++ openRecord :: (text ++ rest)) = match fields.complete last with
        | some values => .ok (values, rest)
        | none => .error .unfit) ∨
      (fields.Spoiled members ∧
        ∃ problem, fields.read (front ++ openRecord :: (text ++ rest)) = .error problem) := by
  have fuel : members.length < (text ++ rest).length + 1 := by
    have := h.length_le
    rw [List.length_append]
    omega
  have start {β : Type} (f : UInt8 → Reader β) :
      (peek >>= f) (front ++ openRecord :: (text ++ rest)) =
        f openRecord (openRecord :: (text ++ rest)) := by
    rw [peek_bind_blanks hfront, bind_of_ok (peek_cons (by decide) _)]
  unfold read
  rw [start, if_pos rfl, bind_of_ok (drop_cons openRecord _), bind_of_ok (get_apply _)]
  rcases readObject_cases hfields hnames h rest _ [] _ fuel (given_blank fields) with
    ⟨last, hlast, hread⟩ | ⟨spoiled, problem, hread⟩
  · left
    refine ⟨last, hlast, ?_⟩
    rw [bind_of_ok hread]
    cases fields.complete last with
    | some values => rfl
    | none => rfl
  · right
    exact ⟨spoiled, problem, bind_of_error hread⟩

/-- Members that give each field once at most, and well, are read as what they give. -/
theorem read_given {draft : Draft αs} {values : Values αs} (given : fields.Given members draft)
    (hvalues : fields.complete draft = some values) (rest : List UInt8) :
    fields.read (front ++ openRecord :: (text ++ rest)) = .ok (values, rest) := by
  rcases read_cases hfields hnames hfront h rest with ⟨last, hlast, hread⟩ | ⟨spoiled, -⟩
  · rw [hread, ← given.eq hlast, hvalues]
  · exact absurd spoiled given.not_spoiled

/-- Where a member spoils the record, all of it is refused. -/
theorem read_spoiled (spoiled : fields.Spoiled members) (rest : List UInt8) :
    ∃ problem, fields.read (front ++ openRecord :: (text ++ rest)) = .error problem := by
  rcases read_cases hfields hnames hfront h rest with ⟨last, hlast, -⟩ | ⟨-, refused⟩
  · exact absurd spoiled hlast.not_spoiled
  · exact refused

end

end Fields

end Chip8.Json
