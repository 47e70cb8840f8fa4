import Chip8.Json.Text

/-!
# Values that are not wanted

`skipValue` goes past one value of any shape and depth.  The containers still open are kept in a
list, innermost first, so depth costs no recursion.  Numbers are checked for their form and not
for their size.
-/

namespace Chip8.Json

/-- A container that is still open. -/
inductive Nest where
  | array
  | record
  deriving DecidableEq, Repr

/-- The byte that ends a container. -/
def Nest.close : Nest → UInt8
  | array => closeArray
  | record => closeRecord

/-- What has to come next. -/
inductive Phase where
  | value
  /-- In a container: its end, or an item.  `first` says that it has just been opened. -/
  | item (first : Bool)
  deriving DecidableEq, Repr

namespace Skip

/-- An exponent after its mark. -/
def exponent (text : List UInt8) : Except Problem (List UInt8) :=
  let text :=
    match text with
    | b :: rest => if b = plus ∨ b = minus then rest else text
    | [] => []
  if (text.takeWhile isDigit).isEmpty then .error .malformed else .ok (text.dropWhile isDigit)

/-- The exponent, if there is one. -/
def optionalExponent : List UInt8 → Except Problem (List UInt8)
  | [] => .ok []
  | b :: rest => if isExponentMark b then exponent rest else .ok (b :: rest)

/-- A number after its sign. -/
def number (text : List UInt8) : Except Problem (List UInt8) :=
  let digits := text.takeWhile isDigit
  let rest := text.dropWhile isDigit
  if digits.isEmpty ∨ (digits.head? = some 0x30 ∧ 1 < digits.length) then .error .malformed
  else
    match rest with
    | b :: later =>
      if b = point then
        if (later.takeWhile isDigit).isEmpty then .error .malformed
        else optionalExponent (later.dropWhile isDigit)
      else optionalExponent rest
    | [] => .ok []

/-- The letters that finish a literal which starts with a byte. -/
def literal? (first : UInt8) : Option (List UInt8) :=
  if first = 0x6E then some (ascii "ull")
  else if first = 0x74 then some (ascii "rue")
  else if first = 0x66 then some (ascii "alse")
  else none

/-- A value that is no container, from its first byte on. -/
def scalar (first : UInt8) (rest : List UInt8) : Except Problem (List UInt8) :=
  match literal? first with
  | some letters => (Reader.word letters rest).map (·.2)
  | none =>
    if first = minus then number rest
    else if isDigit first then number (first :: rest)
    else if first = quote then Text.skip rest
    else .error .malformed

/-- The name and the colon in front of a field's value. -/
def fieldName (text : List UInt8) : Except Problem (List UInt8) :=
  match Reader.skipBlanks text with
  | [] => .error .truncated
  | b :: rest =>
    if b = quote then
      match Text.skip rest with
      | .error problem => .error problem
      | .ok rest => (Reader.expect colon rest).map (·.2)
    else .error .malformed

/-- What stands in front of an item's value: nothing in an array, a name in a record. -/
def itemStart : Nest → List UInt8 → Except Problem (List UInt8)
  | .array, text => .ok text
  | .record, text => fieldName text

/-- Goes on until the containers that are open have ended. -/
def go : Nat → Phase → List Nest → List UInt8 → Except Problem (List UInt8)
  | 0, _, _, _ => .error .malformed
  | fuel + 1, .value, nests, text =>
    match Reader.skipBlanks text with
    | [] => .error .truncated
    | b :: rest =>
      if b = openArray then go fuel (.item true) (.array :: nests) rest
      else if b = openRecord then go fuel (.item true) (.record :: nests) rest
      else
        match scalar b rest with
        | .error problem => .error problem
        | .ok rest => go fuel (.item false) nests rest
  | _ + 1, .item _, [], text => .ok text
  | fuel + 1, .item first, nest :: outer, text =>
    match Reader.skipBlanks text with
    | [] => .error .truncated
    | b :: rest =>
      if b = nest.close then go fuel (.item false) outer rest
      else if first then
        match itemStart nest (b :: rest) with
        | .error problem => .error problem
        | .ok rest => go fuel .value (nest :: outer) rest
      else if b = comma then
        match itemStart nest rest with
        | .error problem => .error problem
        | .ok rest => go fuel .value (nest :: outer) rest
      else .error .malformed

end Skip

/-- Goes past one value.  Every second step takes a byte, so twice the length of the text bounds
the steps. -/
def skipValue : Reader Unit := fun text =>
  match Skip.go (2 * text.length + 2) .value [] text with
  | .error problem => .error problem
  | .ok rest => .ok ((), rest)

end Chip8.Json
