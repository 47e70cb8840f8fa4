/-!
# Disk

A tree of files and directories, kept as a table from places to entries.  A place is the list of
names on the way from the root.  A path is a text, in which slashes separate names and `.` and `..`
stand for a directory itself and the one above; `Disk.locate` follows it to its place.

Names have at most 255 bytes, paths at most 4095, and neither has a NUL.  Every name but the last
on a path has to be a directory, also the one before a `..`.  A path that ends in a slash names a
directory: no file is found there, and none can be made there.
-/

namespace Chip8

abbrev Place := List String

structure Path where
  text : String
  deriving DecidableEq, Repr

inductive Entry where
  | file (bytes : List UInt8)
  | directory
  deriving DecidableEq, Repr

/-- The root is a directory and not in the table. -/
structure Disk where
  entries : List (Place × Entry)
  deriving DecidableEq, Repr

/-- Why the disk refuses. -/
inductive DiskError where
  | notFound
  | isADirectory
  | notADirectory
  | alreadyExists
  | nameTooLong
  | nulInName
  /-- The bytes of a text file are no UTF-8. -/
  | notText
  deriving DecidableEq, Repr

def DiskError.message : DiskError → String
  | notFound => "no such file or directory"
  | isADirectory => "this is a directory"
  | notADirectory => "this is not a directory"
  | alreadyExists => "this exists already"
  | nameTooLong => "the name is too long"
  | nulInName => "the name holds a NUL"
  | notText => "the file is not text"

/-! ## Paths -/

namespace Path

/-- The pieces between slashes. -/
def pieces : List Char → List (List Char)
  | [] => [[]]
  | c :: later =>
    if c = '/' then [] :: pieces later
    else
      match pieces later with
      | [] => [[c]]
      | piece :: others => (c :: piece) :: others

/-- The names on a path.  Empty ones do not count. -/
def names (p : Path) : List String :=
  ((pieces p.text.toList).filter (· ≠ [])).map String.ofList

/-- The path with the given names. -/
def ofNames (names : List String) : Path := ⟨"/" ++ String.intercalate "/" names⟩

/-- Whether a path can only name a directory. -/
def endsInSlash (p : Path) : Bool := p.text.toList.getLast? == some '/'

/-- A path below a directory.  One that starts with a slash starts at the root instead. -/
def join (directory : Path) (s : String) : Path :=
  if s.toList.head? = some '/' then ⟨s⟩
  else if directory.endsInSlash then ⟨directory.text ++ s⟩
  else ⟨directory.text ++ "/" ++ s⟩

end Path

namespace Disk

/-- A disk with nothing on it. -/
def blank : Disk := ⟨[]⟩

/-! ## The table -/

def lookup? (d : Disk) (place : Place) : Option Entry :=
  if place = [] then some .directory else d.entries.lookup place

def put (d : Disk) (place : Place) (entry : Entry) : Disk :=
  ⟨(place, entry) :: d.entries.filter (·.1 ≠ place)⟩

/-- Without an entry and all below it. -/
def erase (d : Disk) (place : Place) : Disk :=
  ⟨d.entries.filter fun (other, _) => !place.isPrefixOf other⟩

/-! ## Paths to places -/

/-- The most bytes of a name. -/
def maxName : Nat := 255

/-- The most bytes of a path. -/
def maxPath : Nat := 4095

/-- Follows the names from a place on. -/
def follow (d : Disk) (here : Place) : List String → Except DiskError Place
  | [] => .ok here
  | name :: later =>
    match d.lookup? here with
    | none => .error .notFound
    | some (.file _) => .error .notADirectory
    | some .directory =>
      if name = "." then d.follow here later
      else if name = ".." then d.follow here.dropLast later
      else if maxName < name.utf8ByteSize then .error .nameTooLong
      else d.follow (here ++ [name]) later

/-- The names on a path that may be followed. -/
def namesOn (path : Path) : Except DiskError (List String) :=
  if path.text.toList.contains (Char.ofNat 0) then .error .nulInName
  else if maxPath < path.text.utf8ByteSize then .error .nameTooLong
  else .ok path.names

/-- The place that a path leads to, whether or not there is an entry.  At a slash at the end there
has to be a directory. -/
def locate (d : Disk) (path : Path) : Except DiskError Place := do
  let names ← namesOn path
  d.follow [] (if path.endsInSlash then names ++ ["."] else names)

/-- The place of a directory that is to be made.  A slash at the end makes no difference. -/
def locateDirectory (d : Disk) (path : Path) : Except DiskError Place := do
  d.follow [] (← namesOn path)

/-- The place of a file that is to be written. -/
def locateFile (d : Disk) (path : Path) : Except DiskError Place := do
  if path.endsInSlash then
    let names ← namesOn path
    let _ ← d.follow [] (names.dropLast ++ ["."])
    .error .isADirectory
  else d.locate path

/-- The entry that a path leads to. -/
def find? (d : Disk) (path : Path) : Option Entry :=
  match d.locate path with
  | .ok place => d.lookup? place
  | .error _ => none

def isFile (d : Disk) (path : Path) : Bool :=
  match d.find? path with
  | some (.file _) => true
  | _ => false

def isDirectory (d : Disk) (path : Path) : Bool := d.find? path == some .directory

/-! ## Files -/

def read (d : Disk) (path : Path) : Except DiskError (List UInt8) := do
  match d.lookup? (← d.locate path) with
  | some (.file bytes) => .ok bytes
  | some .directory => .error .isADirectory
  | none => .error .notFound

/-- A file with new contents, made if there is none. -/
def write (d : Disk) (path : Path) (bytes : List UInt8) : Except DiskError Disk := do
  let place ← d.locateFile path
  if d.lookup? place = some .directory then .error .isADirectory
  else .ok (d.put place (.file bytes))

def remove (d : Disk) (path : Path) : Except DiskError Disk := do
  let place ← d.locate path
  match d.lookup? place with
  | some (.file _) => .ok (d.erase place)
  | some .directory => .error .isADirectory
  | none => .error .notFound

/-- A file under a new path, in place of the file there. -/
def rename (d : Disk) (path target : Path) : Except DiskError Disk := do
  let source ← d.locate path
  let place ← d.locateFile target
  match d.lookup? source with
  | some (.file bytes) =>
    if d.lookup? place = some .directory then .error .isADirectory
    else .ok ((d.erase source).put place (.file bytes))
  | some .directory => .error .isADirectory
  | none => .error .notFound

/-! ## Directories -/

def makeDirectory (d : Disk) (path : Path) : Except DiskError Disk := do
  let place ← d.locateDirectory path
  if (d.lookup? place).isSome then .error .alreadyExists else .ok (d.put place .directory)

/-- A new directory, or the one that is there. -/
def ensureDirectory (d : Disk) (path : Path) : Except DiskError Unit × Disk :=
  match d.makeDirectory path with
  | .ok d => (.ok (), d)
  | .error problem => (if d.isDirectory path then .ok () else .error problem, d)

/-- A directory, and before it the directory of the names above it, the nearest first, if that is
missing. -/
def ensureWith (d : Disk) (path : Path) : List String → Except DiskError Unit × Disk
  | [] => d.ensureDirectory path
  | name :: above =>
    match d.ensureDirectory path with
    | (.error .notFound, d) =>
      match d.ensureWith (.ofNames (name :: above).reverse) above with
      | (.ok (), d) => d.ensureDirectory path
      | failed => failed
    | done => done

/-- A directory and those above it that are missing.  Those made before a failure stay.  What is
above a path is told without its dots, so a missing directory with a dot after it is not made. -/
def makeDirectories (d : Disk) (path : Path) : Except DiskError Unit × Disk :=
  d.ensureWith path (path.names.filter (· ≠ ".")).reverse.tail

/-- Everything below a place, written with slashes from there, directories with a slash at the
end, in the order of the text. -/
def listing (d : Disk) (place : Place) : List String :=
  let below := d.entries.filterMap fun (other, entry) =>
    if place.isPrefixOf other ∧ other ≠ place then
      let name := String.intercalate "/" (other.drop place.length)
      some (if entry = .directory then name ++ "/" else name)
    else none
  below.mergeSort fun a b => !decide (b < a)

/-! ## Lemmas -/

/-- A put changes its own place and no other. -/
theorem lookup?_put (d : Disk) (place other : Place) (entry : Entry) (h : place ≠ []) :
    (d.put place entry).lookup? other = if other = place then some entry else d.lookup? other := by
  unfold lookup? put
  by_cases root : other = []
  · subst root
    simp [h.symm]
  · simp only [root, ↓reduceIte, List.lookup_cons]
    by_cases same : other = place
    · simp [same]
    · simp only [same, ↓reduceIte, beq_eq_false_iff_ne.2 same]
      induction d.entries with
      | nil => rfl
      | cons e es ih =>
        obtain ⟨p, _⟩ := e
        by_cases hp : p = place
        · subst hp
          simpa [List.lookup_cons, beq_eq_false_iff_ne.2 same] using ih
        · simp only [List.filter_cons, ne_eq, hp, not_false_eq_true, decide_true, ↓reduceIte,
            List.lookup_cons]
          split <;> simp_all

end Disk

end Chip8
