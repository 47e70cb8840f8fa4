import Chip8.Json.Record
import Chip8.Proofs.Json.Sequence

/-!
# Records read back

The fields of an object take a draft from one state to the next (`Fields.Fills`), whatever blanks
stand in front of them.  Names that differ fill different places, so the fields of a record that
are written in order fill the whole draft, and the record is read back.

    readObject_fills : fields.Fills draft parts last → parts.length < fuel →
        fields.readObject fuel first draft (chained first parts ++ closeRecord :: rest) =
          .ok (last, closeRecord :: rest)
    readObject_torn  : fields.Fills draft parts last → front.length < fuel → back ≠ [] →
        chained first parts ++ (blanks ++ [closeRecord]) = front ++ back →
          fields.readObject fuel first draft front = .error .truncated
    faithful_codec   : fields.Faithful → fields.names.Nodup → fields.codec.Faithful
-/

namespace Chip8.Json

open Reader

/-- Every field read. -/
def Draft.full : {αs : List Type} → Values αs → Draft αs
  | [], _ => ()
  | _ :: _, (a, as) => (some a, full as)

namespace Fields

variable {α : Type} {αs : List Type}

/-- Every codec of the record reads back what it writes. -/
def Faithful {αs : List Type} : Fields αs → Prop
  | nil => True
  | cons _ codec _ later => codec.Faithful ∧ later.Faithful

def names {αs : List Type} : Fields αs → List String
  | nil => []
  | cons name _ _ later => name :: later.names

theorem complete_full (fields : Fields αs) (values : Values αs) :
    fields.complete (Draft.full values) = some values := by
  induction fields with
  | nil => rfl
  | cons name codec fallback later ih =>
    obtain ⟨a, as⟩ := values
    simp only [Draft.full, complete, ih as]
    rfl

/-! ## One field -/

/-- One field of an object, wanted or not. -/
def readField (fields : Fields αs) (draft : Draft αs) : Reader (Draft αs) := do
  expect quote
  let key ← Text.read
  match fields.readNamed key draft with
  | some reader => reader
  | none =>
    expect colon
    skipValue
    return draft

theorem readObject_succ (fields : Fields αs) (fuel : Nat) (first : Bool) (draft : Draft αs) :
    fields.readObject (fuel + 1) first draft = (do
      if ← another closeRecord first then
        let draft ← fields.readField draft
        fields.readObject fuel false draft
      else return draft) := by
  rw [readObject]
  congr 1
  funext found
  cases found with
  | false => rfl
  | true =>
    simp only [if_true, readField, bind_assoc]
    congr 1
    funext _
    congr 1
    funext key
    cases fields.readNamed key draft with
    | some reader => rfl
    | none => simp only [bind_assoc, pure_bind]

theorem mem_names_of_readNamed {fields : Fields αs} {key : String} {draft : Draft αs}
    {reader : Reader (Draft αs)} (h : fields.readNamed key draft = some reader) :
    key ∈ fields.names := by
  induction fields with
  | nil => exact absurd h (by simp [readNamed])
  | cons name codec fallback later ih =>
    obtain ⟨a, as⟩ := draft
    by_cases hname : name = key
    · simp [names, hname]
    · rw [readNamed, if_neg hname, Option.map_eq_some_iff] at h
      obtain ⟨inner, hinner, -⟩ := h
      exact List.mem_cons_of_mem name (ih hinner)

/-- Past its name, a field that is wanted is read by the reader of that name. -/
theorem readField_key {fields : Fields αs} {key : String} {draft : Draft αs}
    {reader : Reader (Draft αs)} (h : fields.readNamed key draft = some reader)
    (text : List UInt8) :
    fields.readField draft (quote :: ((Text.utf8 key).flatMap Text.escape ++ quote :: text)) =
      reader text := by
  unfold readField
  rw [bind_of_ok (expect_cons (by decide) _), bind_of_ok (Text.read_escape key _)]
  simp only [h]

/-- Where the text ends in a field, its name is cut short or its reader runs out. -/
theorem readField_torn {fields : Fields αs} {key : String} {draft : Draft αs}
    {reader : Reader (Draft αs)} {value : List UInt8}
    (h : fields.readNamed key draft = some reader)
    (hruns : ∀ front lost, value = front ++ lost → lost ≠ [] → reader.RunsOut front)
    {front lost : List UInt8} (hfield : Text.write key ++ value = front ++ lost) (torn : lost ≠ []) :
    (fields.readField draft).RunsOut front := by
  rcases torn_append hfield with ⟨lost, some_lost, hkey⟩ | ⟨more, rfl, hmore⟩
  · left
    obtain ⟨rfl, -⟩ | ⟨front, rfl, hfront⟩ := List.cons_eq_append_iff.1 hkey
    · exact bind_of_truncated (expect_nil quote)
    · unfold readField
      rw [bind_of_ok (expect_cons (by decide) front)]
      exact bind_of_truncated (Text.read_torn key hfront some_lost)
  · have hkey : Text.write key ++ more =
        quote :: ((Text.utf8 key).flatMap Text.escape ++ quote :: more) := by
      simp [Text.write]
    rw [RunsOut, hkey, readField_key h]
    exact hruns more lost hmore torn

/-- The field of a name that has not been read yet. -/
theorem readNamed_head (name : String) (codec : Codec α) (fallback : Option α)
    (later : Fields αs) (draft : Draft αs) :
    (cons name codec fallback later).readNamed name (none, draft) =
      some (do
        expect colon
        let a ← codec.read
        return (some a, draft)) := by
  rw [readNamed, if_pos rfl]
  rfl

/-! ## Many fields -/

/-- Fields that are read one after the other take the draft from one state to the next. -/
inductive Fills (fields : Fields αs) : Draft αs → List (List UInt8) → Draft αs → Prop
  | nil (draft : Draft αs) : Fills fields draft [] draft
  | cons {draft next last : Draft αs} {blanks value : List UInt8} {parts : List (List UInt8)}
      {key : String} {reader : Reader (Draft αs)} (hblanks : ∀ b ∈ blanks, isBlank b = true)
      (hreader : fields.readNamed key draft = some reader)
      (hread : ∀ rest, Stops rest → reader (value ++ rest) = .ok (next, rest))
      (hruns : ∀ front lost, value = front ++ lost → lost ≠ [] → reader.RunsOut front)
      (later : Fills fields next parts last) :
      Fills fields draft ((blanks ++ Text.write key ++ value) :: parts) last

/-- A field in front whose name is another keeps its place in the draft. -/
theorem Fills.behind {name : String} {codec : Codec α} {fallback : Option α} {later : Fields αs}
    {draft last : Draft αs} {parts : List (List UInt8)} (h : later.Fills draft parts last)
    (hname : name ∉ later.names) (a : Option α) :
    (Fields.cons name codec fallback later).Fills (a, draft) parts (a, last) := by
  induction h with
  | nil draft => exact Fills.nil _
  | cons hblanks hreader hread hruns _ ih =>
    have hne : name ≠ _ := fun e => hname (e ▸ mem_names_of_readNamed hreader)
    refine .cons hblanks ?_ (fun rest hrest => map_of_ok (a, ·) (hread rest hrest))
      (fun front lost h torn => (hruns front lost h torn).map (a, ·)) ih
    rw [readNamed, if_neg hne, hreader]
    rfl

/-- A record's own fields in order fill all of the draft. -/
theorem fills_write {fields : Fields αs} {indent between : List UInt8}
    (hindent : ∀ b ∈ indent, isBlank b = true) (hbetween : ∀ b ∈ between, isBlank b = true)
    (hfields : fields.Faithful) (hnames : fields.names.Nodup) (values : Values αs) :
    fields.Fills (Draft.blank αs) ((fields.write (colon :: between) values).map (indent ++ ·))
      (Draft.full values) := by
  induction fields with
  | nil => exact Fills.nil _
  | cons name codec fallback later ih =>
    obtain ⟨a, as⟩ := values
    obtain ⟨hcodec, hlater⟩ := hfields
    obtain ⟨hname, hnames⟩ := List.nodup_cons.mp hnames
    rw [write, List.map_cons, List.append_assoc, ← List.append_assoc indent]
    have hreader := readNamed_head name codec fallback later (Draft.blank _)
    refine Fills.cons hindent hreader (fun rest hrest => ?_) (fun front lost h torn => ?_)
      ((ih hlater hnames as).behind hname _)
    · rw [List.cons_append, List.cons_append, bind_of_ok (expect_cons (by decide) _),
        bind_of_ok (hcodec.read_blanks a hbetween hrest)]
      rfl
    · obtain ⟨rfl, -⟩ | ⟨front, rfl, hfront⟩ := List.cons_eq_append_iff.1 h
      · exact .inl (bind_of_truncated (expect_nil colon))
      · have value := hcodec.runs_out_blanks hbetween a hfront torn
        exact .after (expect_cons (by decide) front) (value.map (some ·, Draft.blank _))

/-- A field with blanks in front starts with the quote of its name. -/
theorem skipBlanks_field {blanks : List UInt8} (hblanks : ∀ b ∈ blanks, isBlank b = true)
    (key : String) (value : List UInt8) : skipBlanks (blanks ++ Text.write key ++ value) =
      quote :: ((Text.utf8 key).flatMap Text.escape ++ quote :: value) := by
  rw [List.append_assoc, skipBlanks_append hblanks, Text.write, List.cons_append,
    skipBlanks_cons (by decide)]
  simp

theorem readField_append {fields : Fields αs} {key : String} {draft next : Draft αs}
    {reader : Reader (Draft αs)} {value rest : List UInt8}
    (hreader : fields.readNamed key draft = some reader)
    (hread : reader (value ++ rest) = .ok (next, rest)) :
    fields.readField draft
        (quote :: ((Text.utf8 key).flatMap Text.escape ++ quote :: value ++ rest)) =
      .ok (next, rest) := by
  rw [List.append_assoc, List.cons_append, readField_key hreader]
  exact hread

/-- Fields up to the end of the object, past blanks. -/
theorem readObject_fills {fields : Fields αs} {blanks rest : List UInt8}
    (hblanks : ∀ b ∈ blanks, isBlank b = true) {draft last : Draft αs} {parts : List (List UInt8)}
    (h : fields.Fills draft parts last) :
    ∀ fuel first, parts.length < fuel →
      fields.readObject fuel first draft (chained first parts ++ (blanks ++ closeRecord :: rest)) =
        .ok (last, closeRecord :: rest) := by
  have hend : skipBlanks (blanks ++ closeRecord :: rest) = closeRecord :: rest := by
    rw [skipBlanks_append hblanks, skipBlanks_cons (by decide)]
  have hstops : Stops (blanks ++ closeRecord :: rest) := stops_blanks hblanks (by decide)
  induction h with
  | nil draft =>
    intro fuel first hfuel
    obtain ⟨fuel, rfl⟩ := Nat.exists_eq_add_one_of_ne_zero (Nat.ne_zero_of_lt hfuel)
    rw [chained, List.nil_append, readObject, bind_of_ok (another_close first hend)]
    rfl
  | @cons draft next last before value parts key reader hbefore hreader hread _ _ ih =>
    intro fuel first hfuel
    obtain ⟨fuel, rfl⟩ := Nat.exists_eq_add_one_of_ne_zero (Nat.ne_zero_of_lt hfuel)
    rw [List.length_cons, Nat.add_lt_add_iff_right] at hfuel
    have hnext := another_part first (skipBlanks_field hbefore key value) (by decide)
      (show isStop closeRecord = true by decide) (by decide)
      (chained false parts ++ (blanks ++ closeRecord :: rest))
    have hfield := readField_append hreader (hread _ (stops_chained hstops parts))
    rw [chained, List.append_assoc, readObject_succ, bind_of_ok hnext, if_pos rfl,
      bind_of_ok hfield]
    exact ih fuel false hfuel

/-- Where the text ends before the end of the object, it is cut short. -/
theorem readObject_torn {fields : Fields αs} {blanks back : List UInt8}
    (hblanks : ∀ b ∈ blanks, isBlank b = true) (torn : back ≠ []) {draft last : Draft αs}
    {parts : List (List UInt8)} (h : fields.Fills draft parts last) :
    ∀ fuel first front, front.length < fuel →
      chained first parts ++ (blanks ++ [closeRecord]) = front ++ back →
        fields.readObject fuel first draft front = .error .truncated := by
  have hstops : Stops (blanks ++ [closeRecord]) := stops_blanks hblanks (by decide)
  have ended : ∀ fuel first draft front, front.length < fuel → (∀ b ∈ front, isBlank b = true) →
      fields.readObject fuel first draft front = .error .truncated := by
    intro fuel first draft front hfuel hfront
    obtain ⟨fuel, rfl⟩ := Nat.exists_eq_add_one_of_ne_zero (Nat.ne_zero_of_lt hfuel)
    exact bind_of_truncated (bind_of_truncated (peek_blanks hfront))
  induction h with
  | nil draft =>
    intro fuel first front hfuel hfront
    apply ended fuel first draft front hfuel
    rw [chained, List.nil_append] at hfront
    rcases torn_append hfront with ⟨lost, -, rfl⟩ | ⟨more, rfl, hmore⟩
    · exact fun b hb => hblanks b (List.mem_append_left lost hb)
    · rw [torn_singleton hmore torn, List.append_nil]
      exact hblanks
  | @cons draft next last before value parts key reader hbefore hreader hread hruns _ ih =>
    intro fuel first front hfuel hfront
    obtain ⟨fuel, rfl⟩ := Nat.exists_eq_add_one_of_ne_zero (Nat.ne_zero_of_lt hfuel)
    rw [chained, List.append_assoc] at hfront
    rw [readObject_succ]
    have hfield := fun more hmore => readField_append hreader (hread more hmore)
    have hfield_torn : ∀ more lost,
        quote :: ((Text.utf8 key).flatMap Text.escape ++ quote :: value) = more ++ lost →
          lost ≠ [] → (fields.readField draft).RunsOut more := by
      intro more lost hmore
      apply readField_torn hreader hruns
      rw [← hmore]
      simp [Text.write]
    apply next_torn first (skipBlanks_field hbefore key value) (by decide) (by decide) (by decide)
      hfield hfield_torn (stops_chained hstops parts) hfront
    · intro some_front draft
      have := List.length_pos_iff.2 some_front
      exact ended fuel false draft [] (by simp only [List.length_nil]; omega) (by simp)
    · intro more hmore shorter
      exact ih fuel false more (by omega) hmore

theorem Fills.ne_nil {fields : Fields αs} {draft last : Draft αs} {parts : List (List UInt8)}
    (h : fields.Fills draft parts last) : ∀ part ∈ parts, part ≠ [] := by
  induction h with
  | nil draft => simp
  | cons _ _ _ _ _ ih =>
    rw [List.forall_mem_cons]
    exact ⟨by simp [Text.write], ih⟩

/-! ## Records -/

/-- An object whose fields fill the draft is read as the values of the draft. -/
theorem read_object {fields : Fields αs} {blanks : List UInt8} (rest : List UInt8)
    (hblanks : ∀ b ∈ blanks, isBlank b = true) {last : Draft αs} {parts : List (List UInt8)}
    {values : Values αs} (h : fields.Fills (Draft.blank αs) parts last)
    (hvalues : fields.complete last = some values) :
    fields.read (openRecord :: (chained true parts ++ (blanks ++ closeRecord :: rest))) =
      .ok (values, rest) := by
  have hfuel :
      parts.length < (chained true parts ++ (blanks ++ closeRecord :: rest)).length + 1 := by
    have hle := length_le_chained h.ne_nil true
    rw [List.length_append]
    omega
  unfold read
  rw [bind_of_ok (peek_cons (by decide) _), if_pos rfl, bind_of_ok (drop_cons openRecord _),
    bind_of_ok (get_apply _), bind_of_ok (readObject_fills hblanks h _ true hfuel)]
  simp only [hvalues]
  rfl

theorem codec_write (fields : Fields αs) (values : Values αs) : fields.codec.write values =
    openRecord :: (chained true (fields.write [colon] values) ++ [closeRecord]) := by
  simp [codec, writeCompact, separated_eq_chained]

theorem closed_codec {fields : Fields αs} (hfields : fields.Faithful)
    (hnames : fields.names.Nodup) : fields.codec.Closed := by
  have hnone : ∀ b ∈ ([] : List UInt8), isBlank b = true := by simp
  have hfills : ∀ values, fields.Fills (Draft.blank αs) (fields.write [colon] values)
      (Draft.full values) := by
    intro values
    simpa using fills_write hnone hnone hfields hnames values
  constructor
  case read_append =>
    intro values rest
    rw [codec_write, List.cons_append, List.append_assoc]
    exact read_object rest hnone (hfills values) (complete_full fields values)
  case torn =>
    intro values front back h torn
    rw [codec_write] at h
    obtain ⟨rfl, -⟩ | ⟨front, rfl, hfront⟩ := List.cons_eq_append_iff.1 h
    · exact bind_of_truncated peek_nil
    · show fields.read _ = _
      unfold read
      rw [bind_of_ok (peek_cons (by decide) _), if_pos rfl, bind_of_ok (drop_cons openRecord _),
        bind_of_ok (get_apply _)]
      exact bind_of_truncated
        (readObject_torn hnone torn (hfills values) _ true front (Nat.lt_succ_self _) hfront)

/-- A record with a line for each field is read back. -/
theorem read_writeLines {fields : Fields αs} (hfields : fields.Faithful)
    (hnames : fields.names.Nodup) (values : Values αs) (rest : List UInt8) :
    fields.read (fields.writeLines values ++ rest) = .ok (values, rest) := by
  have hindent : ∀ b ∈ [0x0A, 0x20, 0x20], isBlank b = true := List.all_eq_true.1 rfl
  have hbetween : ∀ b ∈ [0x20], isBlank b = true := List.all_eq_true.1 rfl
  have hend : ∀ b ∈ [0x0A], isBlank b = true := List.all_eq_true.1 rfl
  have hfills := fills_write hindent hbetween hfields hnames values
  have hread := read_object rest hend hfills (complete_full fields values)
  rw [← separated_eq_chained] at hread
  rw [writeLines, List.cons_append, List.cons_append, List.append_assoc]
  exact hread

theorem faithful_codec {fields : Fields αs} (hfields : fields.Faithful)
    (hnames : fields.names.Nodup) : fields.codec.Faithful :=
  (closed_codec hfields hnames).faithful (fun _ => ⟨openRecord, _, rfl, by decide⟩)
    fun _ _ hb => peek_bind_blank hb _

end Fields

end Chip8.Json
