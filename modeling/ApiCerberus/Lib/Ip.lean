import Mathlib.Algebra.Order.Ring.Nat
import ApiCerberus.Lib.Text

/-!
# Internet addresses

`net.ParseIP`, `net.ParseCIDR` and `IPNet.Contains`. A `net.IP` is the number that its 16 bytes make; `a.b.c.d` is the
address `::ffff:a.b.c.d`, and counts as an IPv4 address in either spelling.
-/

namespace Ip

/-! ## Addresses -/

/-- `To4`. -/
def to4 (ip : Nat) : Option Nat := if ip / 2 ^ 32 = 0xffff then some (ip % 2 ^ 32) else none

/-- A decimal number up to 255, without a superfluous zero. -/
def octet (t : Text) : Option Nat :=
  if t = [] || !t.all Char.isDigit || (t.head? = some '0' && t.length ≠ 1) then none
  else if Nat.ofDigitChars 10 t 0 ≤ 255 then some (Nat.ofDigitChars 10 t 0)
  else none

/-- Four decimal numbers between dots. -/
def parse4 (t : Text) : Option Nat :=
  match Text.split '.' t with
  | [a, b, c, d] => do return (((← octet a) * 256 + (← octet b)) * 256 + (← octet c)) * 256 + (← octet d)
  | _ => none

def hexVal (c : Char) : Option Nat :=
  if '0' ≤ c && c ≤ '9' then some (c.toNat - '0'.toNat)
  else if 'a' ≤ c && c ≤ 'f' then some (c.toNat - 'a'.toNat + 10)
  else if 'A' ≤ c && c ≤ 'F' then some (c.toNat - 'A'.toNat + 10)
  else none

/-- The groups of an IPv6 address, of which `left` can still come, and the place of `::` among them. -/
def groups : (left : Nat) → Text → List Nat → Option Nat → Option (List Nat × Option Nat)
  | 0, s, read, ellipsis => if s = [] then some (read, ellipsis) else none
  | left + 1, s, read, ellipsis =>
    let digits := s.takeWhile fun c => (hexVal c).isSome
    if digits = [] || 4 < digits.length then none
    else if (s.drop digits.length).head? = some '.' then
      -- the last two groups are written like an IPv4 address
      if (ellipsis.isNone && read.length ≠ 6) || 6 < read.length then none
      else (parse4 s).map fun v => (read ++ [v / 65536, v % 65536], ellipsis)
    else
      let read := read ++ [digits.foldl (fun n c => 16 * n + (hexVal c).getD 0) 0]
      match s.drop digits.length with
      | [] => some (read, ellipsis)
      | [':'] => none
      | ':' :: ':' :: rest =>
        if ellipsis.isSome then none
        else if rest = [] then some (read, some read.length)
        else groups left rest read (some read.length)
      | ':' :: rest => groups left rest read ellipsis
      | _ => none

/-- `::` stands for at least one group of zeros. -/
def expand (read : List Nat) : Option Nat → Option (List Nat)
  | none => if read.length = 8 then some read else none
  | some k => if read.length < 8 then some (read.take k ++ List.replicate (8 - read.length) 0 ++ read.drop k) else none

/-- Groups of hexadecimal digits, of which `::` leaves some out. -/
def parse6 (t : Text) : Option Nat :=
  let read :=
    match t with
    | [':', ':'] => some ([], some 0)
    | ':' :: ':' :: rest => groups 8 rest [] (some 0)
    | _ => groups 8 t [] none
  (read.bind fun r => expand r.1 r.2).map fun gs => gs.foldl (fun n g => 65536 * n + g) 0

/-- `netip.Addr`, without a zone. -/
inductive Parsed
  | v4 (ip : Nat)
  | v6 (ip : Nat)

/-- `netip.ParseAddr`; an address with a zone is of no use to its callers here. -/
def parseAddr (t : Text) : Option Parsed :=
  match t.find? fun c => c = '.' || c = ':' with
  | some '.' => (parse4 t).map .v4
  | some _ => (parse6 t).map .v6
  | none => none

/-- IPv4 addresses are mapped into IPv6. -/
def parseIP (t : Text) : Option Nat :=
  (parseAddr t).map fun
    | .v4 ip => 0xffff * 2 ^ 32 + ip
    | .v6 ip => ip

/-! ## Networks -/

/-- The addresses of `bits` bits that agree with `base` in the first `ones`. -/
structure Network where
  bits : Nat
  ones : Nat
  base : Nat
  deriving DecidableEq

/-- Addresses of the other family are not in it. -/
def Network.contains (n : Network) (ip : Nat) : Bool :=
  let x := (to4 ip).getD ip
  n.bits = (if (to4 ip).isSome then 32 else 128) && x / 2 ^ (n.bits - n.ones) = n.base / 2 ^ (n.bits - n.ones)

/-- An IPv6 network inside `::ffff:0:0/96` is a network of IPv4 addresses, a larger one has none of them. -/
def network6 (ones ip : Nat) : Network :=
  let base := ip / 2 ^ (128 - ones) * 2 ^ (128 - ones)
  match to4 base with
  | some base => ⟨32, ones - 96, base⟩
  | none => ⟨128, ones, base⟩

/-- An address and the length of its mask. -/
def parseCIDR (t : Text) : Option Network :=
  match t.dropWhile (· ≠ '/') with
  | [] => none
  | _ :: mask =>
    if mask = [] || !mask.all Char.isDigit then none
    else
      let n := Nat.ofDigitChars 10 mask 0
      match parseAddr (t.takeWhile (· ≠ '/')) with
      | none => none
      | some (.v4 ip) => if n ≤ 32 then some ⟨32, n, ip⟩ else none
      | some (.v6 ip) => if n ≤ 128 then some (network6 n ip) else none

example : (parseCIDR "10.1.0.0/16".toList).map (fun n => (parseIP "10.1.2.3".toList).map n.contains) =
    some (some true) := by
  decide +kernel

example : parseIP "::ffff:10.0.0.1".toList = parseIP "10.0.0.1".toList ∧ parseIP "10.0.0.01".toList = none ∧
    parseIP "1:2:3:4:5:6:7:8::".toList = none ∧ parseIP "fe80::1%eth0".toList = none := by
  decide +kernel

end Ip
