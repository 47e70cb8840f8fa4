import Chip8.Json.Reader

/-!
# Numbers

The only numbers wanted are unsigned integers, written as digits alone.  All other numbers are
recognised, since a well-formed number in the wrong place is `unfit`, but one too large for a
double is `malformed`, as are leading zeros and a point without digits after it.
-/

namespace Chip8.Json

/-- A number that has been read. -/
inductive Number where
  | natural (n : Nat)
  /-- A negative number, or one with a fraction or an exponent, or one of more than 64 bits. -/
  | other
  deriving DecidableEq, Repr

/-- The value of a digit. -/
def digitValue (b : UInt8) : Nat := b.toNat - 0x30

/-- The number that digits denote, in front of which `n` was already read. -/
def valueOf (n : Nat) (digits : List UInt8) : Nat :=
  digits.foldl (fun n b => 10 * n + digitValue b) n

namespace Number

/-- Digits taken up as long as the number fits 64 bits, and the digits left over. -/
def accumulate (n : Nat) : List UInt8 → Nat × List UInt8
  | [] => (n, [])
  | b :: later =>
    if UInt64.size ≤ 10 * n + digitValue b then (n, b :: later)
    else accumulate (10 * n + digitValue b) later

/-- Whether `significand * 10 ^ exponent` is too large for a double. -/
def overflows (significand : Nat) (exponent : Int) : Bool :=
  if significand = 0 ∨ exponent < 0 then false
  else if 308 < exponent then true
  else ((UInt64.ofNat significand).toFloat * Float.ofScientific 1 false exponent.toNat).isInf

/-- The end of a number that is no natural one. -/
def finish (significand : Nat) (exponent : Int) : Reader Number :=
  if overflows significand exponent then Reader.fail .malformed else pure other

/-- The largest exponent that is told from infinity. -/
def maxExponent : Nat := 2147483647

/-- The exponent after its mark, counted on top of `start`. -/
def exponent (significand : Nat) (start : Int) : Reader Number := fun text =>
  let (negative, text) :=
    match text with
    | b :: rest =>
      if b = plus then (false, rest) else if b = minus then (true, rest) else (false, text)
    | [] => (false, [])
  match text with
  | [] => .error .truncated
  | b :: _ =>
    if isDigit b then
      let size := valueOf 0 (text.takeWhile isDigit)
      let rest := text.dropWhile isDigit
      if maxExponent < size then
        if significand ≠ 0 ∧ ¬negative then .error .malformed else .ok (other, rest)
      else finish significand (if negative then start - size else start + size) rest
    else .error .malformed

/-- The digits after a point. -/
def fraction (significand : Nat) (start : Int) : Reader Number := fun text =>
  let digits := text.takeWhile isDigit
  let rest := text.dropWhile isDigit
  if digits.isEmpty then
    if rest.isEmpty then .error .truncated else .error .malformed
  else
    let (significand, left) := accumulate significand digits
    let scale := start - (digits.length - left.length : Nat)
    match rest with
    | b :: later =>
      if isExponentMark b then exponent significand scale later else finish significand scale rest
    | [] => finish significand scale []

/-- A number after its sign. -/
def read (negative : Bool) : Reader Number := fun text =>
  match text with
  | [] => .error .truncated
  | first :: _ =>
    let digits := text.takeWhile isDigit
    let rest := text.dropWhile isDigit
    if digits.isEmpty then .error .malformed
    else if first = 0x30 ∧ 1 < digits.length then .error .malformed
    else
      let (significand, left) := accumulate 0 digits
      let whole : Reader Number :=
        if left.isEmpty then pure (if negative then other else natural significand)
        else finish significand left.length
      match rest with
      | b :: later =>
        if b = point then fraction significand left.length later
        else if isExponentMark b then exponent significand left.length later
        else whole rest
      | [] => whole []

end Number

/-- A natural number of at most 128 bits, with no sign, point or exponent. -/
def wideNatural : Reader Nat := do
  let first ← Reader.peek
  let text ← get
  let digits := text.takeWhile isDigit
  if digits.isEmpty ∨ (first = 0x30 ∧ 1 < digits.length) then Reader.fail .malformed
  let n := valueOf 0 digits
  if UInt64.size * UInt64.size ≤ n then Reader.fail .malformed
  set (text.dropWhile isDigit)
  return n

end Chip8.Json
