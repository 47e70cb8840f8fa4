import Chip8.Failure

/-!
# Settings files

Settings read from a file are never zero where they must not be.  A missing file can be written
with the defaults first.
-/

namespace Chip8.Settings

/-- The settings of a file, which has to be text. -/
def load (d : Disk) (path : Path) : Except Failure Settings :=
  match d.read path with
  | .error problem => .error (.disk problem)
  | .ok bytes =>
    if (String.fromUTF8? ⟨bytes.toArray⟩).isNone then .error (.disk .notText)
    else
      match parse bytes with
      | .error problem => .error (.json problem)
      | .ok settings =>
        match settings.firstZero? with
        | some setting => .error (.settings setting)
        | none => .ok settings

/-- The settings put into a file, zero or not. -/
def save (s : Settings) (d : Disk) (path : Path) : Except Failure Disk :=
  (d.write path s.write).mapError .disk

/-- The settings of a file, which is made with the defaults where nothing is at its path. -/
def readOrCreate (d : Disk) (path : Path) : Except Failure Settings × Disk :=
  if (d.find? path).isSome then (load d path, d)
  else
    match default.save d path with
    | .error failure => (.error failure, d)
    | .ok d => (load d path, d)

end Chip8.Settings
