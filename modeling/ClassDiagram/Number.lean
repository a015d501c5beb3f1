/-! Double-precision numbers as exact data: a sign and a natural significand scaled by a power of two. -/

namespace ClassDiagram

/-- A finite number is `± significand * 2 ^ exponent`. -/
inductive Number where
  | nan
  | infinite (negative : Bool)
  | finite (negative : Bool) (significand : Nat) (exponent : Int)
  deriving DecidableEq, Repr, Inhabited

namespace Number

/-- Reads the interchange form: a sign bit, eleven exponent bits and fifty-two fraction bits. -/
def ofBits (bits : UInt64) : Number :=
  let negative := bits.toNat.testBit 63
  let biased : Nat := bits.toNat / Nat.pow 2 52 % Nat.pow 2 11
  let fraction : Nat := bits.toNat % Nat.pow 2 52
  if biased = 2047 then
    if fraction = 0 then infinite negative else nan
  else if biased = 0 then
    finite negative fraction (-1074)
  else
    finite negative (Nat.pow 2 52 + fraction) (biased - 1075)

/-- The number with a significand of fifty-three bits; exact for every natural that has such a form. -/
def ofNat (n : Nat) : Number :=
  if n = 0 then finite false 0 (-1074)
  else if n.log2 ≤ 52 then finite false (n * Nat.pow 2 (52 - n.log2)) (n.log2 - 52)
  else finite false (n / Nat.pow 2 (n.log2 - 52)) (n.log2 - 52)

/-- The natural number that `x` is, if it is one; both zeros are zero. -/
def natural? (x : Number) : Option Nat :=
  match x with
  | nan | infinite _ => none
  | finite negative m e =>
    if m = 0 then some 0
    else if negative then none
    else if 0 ≤ e then some (m * Nat.pow 2 e.toNat)
    else if m % Nat.pow 2 (-e).toNat = 0 then some (m / Nat.pow 2 (-e).toNat)
    else none

/-- Every number but the zeros and the undefined number counts as true. -/
def truthy (x : Number) : Bool :=
  match x with
  | nan => false
  | infinite _ => true
  | finite _ m _ => m != 0

end Number

end ClassDiagram
