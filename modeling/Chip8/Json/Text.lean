import Chip8.Json.Reader

/-!
# Strings

Between quotes stand bytes of UTF-8 and escapes.  `Text.write` escapes quotes, backslashes and
control characters, in the short form where there is one; `Text.read` takes every escape, and
refuses bare control characters, unpaired surrogates and bytes that are no UTF-8.
-/

namespace Chip8.Json.Text

/-! ## Writing -/

/-- The letter `u`, which starts an escape by code. -/
abbrev codeMark : UInt8 := 0x75

/-- Control characters with an escape of one letter, each with its letter. -/
def letters : List (UInt8 × UInt8) :=
  [(0x08, 0x62), (0x09, 0x74), (0x0A, 0x6E), (0x0C, 0x66), (0x0D, 0x72)]

/-- A lower-case hexadecimal digit. -/
def hexDigit (n : Nat) : UInt8 := (Nat.digitChar n).toUInt8

/-- How a byte stands between quotes. -/
def escape (b : UInt8) : List UInt8 :=
  if b = quote ∨ b = backslash then [backslash, b]
  else if b < 0x20 then
    match letters.lookup b with
    | some letter => [backslash, letter]
    | none => [backslash, codeMark, 0x30, 0x30, hexDigit (b.toNat / 16), hexDigit (b.toNat % 16)]
  else [b]

/-- The bytes of a string in UTF-8. -/
def utf8 (s : String) : List UInt8 := s.toUTF8.data.toList

/-- A string with its quotes. -/
def write (s : String) : List UInt8 := quote :: ((utf8 s).flatMap escape ++ [quote])

/-! ## Reading -/

/-- The value of a hexadecimal digit of either case. -/
def hexValue? (b : UInt8) : Option Nat :=
  if isDigit b then some (b.toNat - 0x30)
  else if 0x61 ≤ b ∧ b ≤ 0x66 then some (b.toNat - 0x57)
  else if 0x41 ≤ b ∧ b ≤ 0x46 then some (b.toNat - 0x37)
  else none

/-- The code that four hexadecimal digits give. -/
def code? (a b c d : UInt8) : Option Nat := do
  let a ← hexValue? a
  let b ← hexValue? b
  let c ← hexValue? c
  let d ← hexValue? d
  return ((a * 16 + b) * 16 + c) * 16 + d

/-- The byte that an escape of one letter stands for. -/
def unescape? (b : UInt8) : Option UInt8 :=
  if b = quote ∨ b = backslash ∨ b = 0x2F then some b
  else (letters.find? (·.2 == b)).map (·.1)

def isLeading (code : Nat) : Bool := 0xD800 ≤ code && code ≤ 0xDBFF

def isTrailing (code : Nat) : Bool := 0xDC00 ≤ code && code ≤ 0xDFFF

/-- The bytes of a code point in UTF-8. -/
def codeBytes (code : Nat) : List UInt8 := String.utf8EncodeChar (Char.ofNat code)

/-- The code point of a pair of surrogates. -/
def paired (leading trailing : Nat) : Nat :=
  0x10000 + (leading - 0xD800) * 0x400 + (trailing - 0xDC00)

/-- More bytes in front of what is read further on. -/
def before (bytes : List UInt8) :
    Except Problem (List UInt8 × List UInt8) → Except Problem (List UInt8 × List UInt8)
  | .ok (later, rest) => .ok (bytes ++ later, rest)
  | .error problem => .error problem

/-- The bytes up to the closing quote, escapes resolved, and the text after the quote. -/
def content : List UInt8 → Except Problem (List UInt8 × List UInt8)
  | [] => .error .truncated
  | b :: text =>
    if b = quote then .ok ([], text)
    else if b = backslash then
      match text with
      | [] => .error .truncated
      | letter :: text =>
        if letter = codeMark then
          match text with
          | b₁ :: b₂ :: b₃ :: b₄ :: text =>
            match code? b₁ b₂ b₃ b₄ with
            | none => .error .malformed
            | some code =>
              if isTrailing code then .error .malformed
              else if isLeading code then
                match text with
                | [] => .error .truncated
                | slash :: text =>
                  if slash = backslash then
                    match text with
                    | [] => .error .truncated
                    | mark :: text =>
                      if mark = codeMark then
                        match text with
                        | c₁ :: c₂ :: c₃ :: c₄ :: text =>
                          match code? c₁ c₂ c₃ c₄ with
                          | none => .error .malformed
                          | some second =>
                            if isTrailing second then
                              before (codeBytes (paired code second)) (content text)
                            else .error .malformed
                        | _ => .error .truncated
                      else .error .malformed
                  else .error .malformed
              else before (codeBytes code) (content text)
          | _ => .error .truncated
        else
          match unescape? letter with
          | some byte => before [byte] (content text)
          | none => .error .malformed
    else if b < 0x20 then .error .malformed
    else before [b] (content text)

/-- A string whose opening quote has been read. -/
def read : Reader String := fun text =>
  match content text with
  | .error problem => .error problem
  | .ok (bytes, rest) =>
    match String.fromUTF8? ⟨bytes.toArray⟩ with
    | some s => .ok (s, rest)
    | none => .error .malformed

/-- The text after the closing quote of a string that is not wanted.  Escapes have to be complete,
but neither surrogates nor UTF-8 are checked. -/
def skip : List UInt8 → Except Problem (List UInt8)
  | [] => .error .truncated
  | b :: text =>
    if b = quote then .ok text
    else if b = backslash then
      match text with
      | [] => .error .truncated
      | letter :: text =>
        if letter = codeMark then
          match text with
          | b₁ :: b₂ :: b₃ :: b₄ :: text =>
            match code? b₁ b₂ b₃ b₄ with
            | none => .error .malformed
            | some _ => skip text
          | _ => .error .truncated
        else
          match unescape? letter with
          | some _ => skip text
          | none => .error .malformed
    else if b < 0x20 then .error .malformed
    else skip text

end Chip8.Json.Text
