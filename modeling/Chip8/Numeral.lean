/-!
# Written numbers

Hexadecimal with a least width, for mnemonics and messages, and decimal as bytes, for files.
-/

namespace Chip8.Numeral

/-- Upper-case hexadecimal, padded with zeros to at least `width` digits. -/
def hex (width n : Nat) : String :=
  let digits := (Nat.toDigits 16 n).map Char.toUpper
  String.ofList (List.replicate (width - digits.length) '0' ++ digits)

/-- Decimal digits without leading zeros, most significant first. -/
def decimal (n : Nat) : List UInt8 :=
  (Nat.toDigits 10 n).map Char.toUInt8

end Chip8.Numeral
