import Chip8.Json.Codec

/-!
# Records

A record is written as an object with its fields in order.  It is read from an object with its
fields in any order, between fields of other names, which are skipped; or from an array with its
fields in order and without names.

A field given twice is refused when its name comes up again.  A field that is missing takes its
fallback, or else is refused at the end of the record.
-/

namespace Chip8.Json

/-- Named fields of a record, each with its codec and perhaps a fallback. -/
inductive Fields : List Type → Type 1 where
  | nil : Fields []
  | cons {α : Type} {αs : List Type} (name : String) (codec : Codec α) (fallback : Option α)
      (later : Fields αs) : Fields (α :: αs)

/-- The values of a record's fields. -/
def Values : List Type → Type
  | [] => Unit
  | α :: αs => α × Values αs

/-- The values read so far. -/
def Draft : List Type → Type
  | [] => Unit
  | α :: αs => Option α × Draft αs

/-- Nothing read yet. -/
def Draft.blank : (αs : List Type) → Draft αs
  | [] => ()
  | _ :: αs => (none, blank αs)

namespace Fields

/-- A field without fallback in front of others. -/
abbrev required {α : Type} {αs : List Type} (name : String) (codec : Codec α)
    (later : Fields αs) : Fields (α :: αs) :=
  cons name codec none later

/-- The name and the colon in front of a value, the value, field by field. -/
def write {αs : List Type} (between : List UInt8) : Fields αs → Values αs → List (List UInt8)
  | nil, _ => []
  | cons name codec _ later, (a, as) =>
    (Text.write name ++ between ++ codec.write a) :: later.write between as

/-- The value of the field of a name put into the draft; `none` where no field has the name. -/
def readNamed {αs : List Type} (key : String) : Fields αs → Draft αs → Option (Reader (Draft αs))
  | nil, _ => none
  | cons name codec _ later, (a, as) =>
    if name = key then
      some (if a.isSome then Reader.fail .unfit else do
        Reader.expect colon
        let a ← codec.read
        return (some a, as))
    else (later.readNamed key as).map fun reader => (a, ·) <$> reader

/-- The draft's values, fallbacks in the gaps. -/
def complete {αs : List Type} : Fields αs → Draft αs → Option (Values αs)
  | nil, _ => some ()
  | cons _ _ fallback later, (a, as) => do
    let a ← a <|> fallback
    let as ← later.complete as
    return (a, as)

/-- Fields by name up to the end of the object, which is left in the text. -/
def readObject {αs : List Type} (fields : Fields αs) : Nat → Bool → Draft αs → Reader (Draft αs)
  | 0, _, _ => Reader.fail .malformed
  | fuel + 1, first, draft => do
    if ← Reader.another closeRecord first then
      Reader.expect quote
      let key ← Text.read
      match fields.readNamed key draft with
      | some reader =>
        let draft ← reader
        fields.readObject fuel false draft
      | none =>
        Reader.expect colon
        skipValue
        fields.readObject fuel false draft
    else return draft

/-- Fields in order up to the end of the array or of the fields.  An end that comes early is left
in the text. -/
def readArray {αs : List Type} : Fields αs → Bool → Reader (Draft αs)
  | nil, _ => pure ()
  | cons _ codec _ later, first => do
    if ← Reader.another closeArray first then
      let a ← codec.read
      let as ← later.readArray false
      return (some a, as)
    else return (none, Draft.blank _)

/-- A record in either form. -/
def read {αs : List Type} (fields : Fields αs) : Reader (Values αs) := do
  let b ← Reader.peek
  if b = openRecord then
    Reader.drop
    let text ← get
    let draft ← fields.readObject (text.length + 1) true (Draft.blank αs)
    match fields.complete draft with
    | some values =>
      Reader.drop
      return values
    | none => Reader.fail .unfit
  else if b = openArray then
    Reader.drop
    let draft ← fields.readArray true
    match fields.complete draft with
    | some values =>
      Reader.endArray
      return values
    | none => Reader.fail .unfit
  else Reader.mismatch

/-- The record on one line without blanks. -/
def writeCompact {αs : List Type} (fields : Fields αs) (values : Values αs) : List UInt8 :=
  openRecord :: separated (fields.write [colon] values) ++ [closeRecord]

/-- The record with a line for each field, indented by two blanks. -/
def writeLines {αs : List Type} (fields : Fields αs) (values : Values αs) : List UInt8 :=
  let lines := (fields.write [colon, 0x20] values).map fun field => [0x0A, 0x20, 0x20] ++ field
  openRecord :: separated lines ++ [0x0A, closeRecord]

/-- The codec of a record that is written on one line. -/
def codec {αs : List Type} (fields : Fields αs) : Codec (Values αs) where
  write := fields.writeCompact
  read := fields.read

end Fields

end Chip8.Json
