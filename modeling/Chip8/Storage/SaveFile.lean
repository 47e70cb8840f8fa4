import Chip8.Failure
import Chip8.Json.Record

/-!
# Save files

A machine with the name of its program as one line of JSON: every byte, register and pixel, and the
place in the stream of random numbers, so that a machine read back goes on exactly like the one
that was written.
-/

namespace Chip8

open Json

/-! ## Parts of a machine -/

def Memory.codec : Codec Memory :=
  (Fields.required "bytes" (.array .uint8) .nil).codec.transport
    (fun (bytes, ()) => ⟨bytes⟩) (fun m => (m.bytes, ()))

def Timers.codec : Codec Timers :=
  (Fields.required "delay" .uint8 <| .required "sound" .uint8 .nil).codec.transport
    (fun (delay, sound, ()) => ⟨delay, sound⟩) (fun t => (t.delay, t.sound, ()))

def Screen.codec : Codec Screen :=
  (Fields.required "width" .uint64 <|
    .required "height" .uint64 <|
    .required "pixels" (.array .bool) .nil)
    |>.codec.transport
      (fun (width, height, pixels, ()) => ⟨width, height, pixels⟩)
      (fun s => (s.width, s.height, s.pixels, ()))

def Mode.codec : Codec Mode :=
  (Fields.required "hi_res" .bool <| .required "super_chip" .bool .nil).codec.transport
    (fun (hiRes, superChip, ()) => ⟨hiRes, superChip⟩) (fun m => (m.hiRes, m.superChip, ()))

/-- Of a position all but the low 68 bits is dropped. -/
def Random.codec : Codec Random :=
  (Fields.required "seed" (.vector .uint8 32) <|
    .required "stream" .uint64 <|
    .required "word_pos" (.wide 68) .nil)
    |>.codec.transport
      (fun (seed, stream, position, ()) => ⟨seed, stream, position⟩)
      (fun r => (r.seed, r.stream, r.position, ()))

def Machine.codec : Codec Machine :=
  (Fields.required "memory" Memory.codec <|
    .required "registers" (.vector .uint8 16) <|
    .required "program_counter" .uint16 <|
    .required "index_register" .uint16 <|
    .required "stack" (.vector .uint16 16) <|
    .required "stack_pointer" .uint8 <|
    .required "keypad" (.vector .bool 16) <|
    .required "timers" Timers.codec <|
    .required "framebuffer" Screen.codec <|
    .required "mode" Mode.codec <|
    .required "draw_flag" .bool <|
    .required "opcode" .uint16 <|
    .required "random" Random.codec .nil)
    |>.codec.transport
      (fun (memory, registers, counter, index, stack, depth, keypad, timers, screen, mode, stale,
          opcode, random, ()) =>
        { memory, registers, counter, index, stack, depth, keypad, timers, screen, mode, stale,
          opcode, random })
      (fun m => (m.memory, m.registers, m.counter, m.index, m.stack, m.depth, m.keypad, m.timers,
        m.screen, m.mode, m.stale, m.opcode, m.random, ()))

/-! ## Files -/

structure SaveFile where
  program : String
  machine : Machine
  deriving DecidableEq, Repr

namespace SaveFile

/-- Version, program and machine. -/
def codec : Codec (UInt32 × String × Machine) :=
  (Fields.required "version" .uint32 <|
    .required "program" .text <|
    .required "snapshot" (Fields.required "state" Machine.codec .nil).codec .nil)
    |>.codec.transport
      (fun (version, program, (machine, ()), ()) => (version, program, machine))
      (fun (version, program, machine) => (version, program, (machine, ()), ()))

/-- The bytes of a save file. -/
def write (file : SaveFile) : List UInt8 :=
  codec.write (saveVersion, file.program, file.machine)

/-- What a text keeps.  The version is looked at last, when all else has been read. -/
def read (text : List UInt8) : Except Failure SaveFile :=
  match parse codec.read text with
  | .error problem => .error (.json problem)
  | .ok (version, program, machine) =>
    if version = saveVersion then .ok ⟨program, machine⟩ else .error (.incompatibleSave version)

end SaveFile

end Chip8
