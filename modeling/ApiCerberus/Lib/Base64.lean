import ApiCerberus.Lib.Text

/-!
# Bytes that are written as text, and texts that are written as bytes

`base64.RawURLEncoding` without its errors, and the way a Go program reads bytes as UTF-8.
-/

namespace Base64

/-- Six bits. -/
def digit (c : Char) : Option Nat :=
  if 'A' ≤ c && c ≤ 'Z' then some (c.toNat - 'A'.toNat)
  else if 'a' ≤ c && c ≤ 'z' then some (c.toNat - 'a'.toNat + 26)
  else if '0' ≤ c && c ≤ '9' then some (c.toNat - '0'.toNat + 52)
  else if c = '-' then some 62
  else if c = '_' then some 63
  else none

/-- Four digits make three bytes. Bits that do not make a byte at the end are dropped. -/
def bytes : List Nat → Option (List UInt8)
  | a :: b :: c :: d :: rest =>
    let n := ((a * 64 + b) * 64 + c) * 64 + d
    (bytes rest).map fun r => UInt8.ofNat (n / 65536) :: UInt8.ofNat (n / 256 % 256) :: UInt8.ofNat (n % 256) :: r
  | [a, b, c] => some [UInt8.ofNat ((a * 64 + b) / 16), UInt8.ofNat (((a * 64 + b) * 64 + c) / 4 % 256)]
  | [a, b] => some [UInt8.ofNat ((a * 64 + b) / 16)]
  | [_] => none
  | [] => some []

/-- `RawURLEncoding.DecodeString`, which passes over line breaks. -/
def decodeRawURL (t : Text) : Option (List UInt8) := ((t.filter fun c => c ≠ '\r' ∧ c ≠ '\n').mapM digit).bind bytes

end Base64

namespace Utf8

def isTail (b : UInt8) : Bool := 0x80 ≤ b && b ≤ 0xbf

def bits (b : UInt8) : Nat := b.toNat % 64

/-- `utf8.DecodeRune`: the code point that starts with the byte `a`, and the number of further bytes it takes. A byte
that starts none is U+FFFD. -/
def rune (a : UInt8) (rest : List UInt8) : Char × Nat :=
  if a < 0x80 then (Char.ofNat a.toNat, 0)
  else
    match rest with
    | b :: c :: d :: _ =>
      if 0xf0 ≤ a && a ≤ 0xf4 && isTail b && isTail c && isTail d && (a ≠ 0xf0 || 0x90 ≤ b) &&
        (a ≠ 0xf4 || b ≤ 0x8f) then
        (Char.ofNat (((a.toNat % 8 * 64 + bits b) * 64 + bits c) * 64 + bits d), 3)
      else short
    | _ => short
where
  short : Char × Nat :=
    match rest with
    | b :: c :: _ =>
      if 0xe0 ≤ a && a ≤ 0xef && isTail b && isTail c && (a ≠ 0xe0 || 0xa0 ≤ b) && (a ≠ 0xed || b ≤ 0x9f) then
        (Char.ofNat ((a.toNat % 16 * 64 + bits b) * 64 + bits c), 2)
      else pair b
    | [b] => pair b
    | [] => ('�', 0)
  pair (b : UInt8) : Char × Nat :=
    if 0xc2 ≤ a && a ≤ 0xdf && isTail b then (Char.ofNat (a.toNat % 32 * 64 + bits b), 1) else ('�', 0)

/-- The code points, after the first `skip` bytes. -/
def decode : (skip : Nat) → List UInt8 → Text
  | _, [] => []
  | skip + 1, _ :: rest => decode skip rest
  | 0, a :: rest => (rune a rest).1 :: decode (rune a rest).2 rest

end Utf8

example : (Base64.decodeRawURL "eyJzdWIiOiJhIn0".toList).map (Utf8.decode 0) = some "\x7b\"sub\":\"a\"\x7d".toList ∧
    (Base64.decodeRawURL "w6TigqzwnZSw_w".toList).map (Utf8.decode 0) = some "ä€𝔰�".toList := by
  decide +kernel
