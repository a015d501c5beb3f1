/-! Universally unique identifiers of version 4 and their canonical text. -/

namespace ClassDiagram

/-- The bits that the version leaves free. -/
structure Uuid where
  payload : Fin (Nat.pow 2 122)
  deriving DecidableEq

namespace Uuid

def hexDigit (n : Nat) : Char := "0123456789abcdef".toList.getD (n % 16) '0'

/-- The `count` digits of `n` from the one at place `i` down. -/
def hexDigits (n i : Nat) : (count : Nat) → List Char
  | 0 => []
  | count + 1 => hexDigit (n / Nat.pow 16 i) :: hexDigits n (i - 1) count

/-- Groups of 8, 4, 4, 4 and 12 digits; the third opens with the version, the fourth with the variant. -/
def toChars (u : Uuid) : List Char :=
  let n := u.payload.val
  hexDigits n 29 8 ++ '-' :: hexDigits n 21 4 ++ '-' :: '4' :: hexDigits n 17 3 ++
    '-' :: hexDigit (8 + n / Nat.pow 16 30) :: hexDigits n 14 3 ++ '-' :: hexDigits n 11 12

def text (u : Uuid) : String := String.ofList u.toChars

def isHex (c : Char) : Bool := c.isDigit || ('a' ≤ c && c ≤ 'f') || ('A' ≤ c && c ≤ 'F')

def isVariant (c : Char) : Bool := ['8', '9', 'a', 'b', 'A', 'B'].contains c

/-- What each character of a version 4 text has to be; case does not matter. -/
def shape : List (Char → Bool) :=
  .replicate 8 isHex ++ (· == '-') :: .replicate 4 isHex ++ (· == '-') :: (· == '4') :: .replicate 3 isHex ++
    (· == '-') :: isVariant :: .replicate 3 isHex ++ (· == '-') :: .replicate 12 isHex

def fits : List (Char → Bool) → List Char → Bool
  | [], [] => true
  | p :: ps, c :: cs => p c && fits ps cs
  | _, _ => false

def isVersion4 (s : String) : Bool := fits shape s.toList

/-- Canonical text is in lower case. -/
def isCanonical (s : String) : Bool := isVersion4 s && s.toList.all fun c => !c.isUpper

/-- A fixed sequence without repetition whose terms have no pattern to them. -/
def spread (n : Nat) : Uuid :=
  ⟨Fin.ofNat _ (n * 0x1d872b41a2c95f3e7b96d04e8f35a17 + 0x2545f4914f6cdd1d9e3779b97f4a7c1)⟩

end Uuid

end ClassDiagram
