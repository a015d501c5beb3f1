import ClassDiagram.Number

/-! The shortest decimal that reads back as a given number, and how numbers are written in messages. -/

namespace ClassDiagram

/-- The number `digits * 10 ^ exponent`. -/
structure Decimal where
  digits : Nat
  exponent : Int
  deriving DecidableEq, Repr, Inhabited

namespace Decimal

/--
The multiple of `10 ^ k` nearest to `m * 2 ^ e` among those that round to it; of two equally near ones the even.

In quarters of the last place the reals that round to `m * 2 ^ e` reach from `4 * m - 2` to `4 * m + 2`, at the
start of a binade only from `4 * m - 1`, and include their ends when `m` is even.
-/
def onGrid? (m : Nat) (e k : Int) : Option Decimal :=
  let quarter := Nat.pow 2 (e - 2).toNat * Nat.pow 10 (-k).toNat
  let unit := Nat.pow 10 k.toNat * Nat.pow 2 (2 - e).toNat
  let value := 4 * m * quarter
  let low := (4 * m - if m = Nat.pow 2 52 ∧ e ≠ -1074 then 1 else 2) * quarter
  let high := (4 * m + 2) * quarter
  let rounds (d : Nat) : Bool :=
    if m % 2 = 0 then low ≤ d * unit ∧ d * unit ≤ high else low < d * unit ∧ d * unit < high
  let below := value / unit
  let above := below + 1
  match decide (below ≠ 0) && rounds below, rounds above with
  | false, false => none
  | true, false => some ⟨below, k⟩
  | false, true => some ⟨above, k⟩
  | true, true =>
    let down := value - below * unit
    let up := above * unit - value
    if down < up ∨ down = up ∧ below % 2 = 0 then some ⟨below, k⟩ else some ⟨above, k⟩

/-- Tries the grids `10 ^ k`, `10 ^ (k - 1)`, … in turn, `n` of them. -/
def onCoarsestGrid (m : Nat) (e : Int) : (n : Nat) → (k : Int) → Decimal
  | 0, k => ⟨0, k⟩
  | n + 1, k =>
    match onGrid? m e k with
    | some d => d
    | none => onCoarsestGrid m e n (k - 1)

/--
The decimal with the fewest digits that rounds to `m * 2 ^ e`: it lies on the coarsest grid that has one.
The grid one above the integer part is too coarse for all but a carry, and `10 ^ (-324)` is fine enough for all.
-/
def shortest (m : Nat) (e : Int) : Decimal :=
  let top := (Nat.toDigits 10 (m * Nat.pow 2 e.toNat / Nat.pow 2 (-e).toNat)).length
  onCoarsestGrid m e (top + 325) top

/-- Positional notation has at most `widest` digits before the point and `deepest` zeros right after it. -/
structure Layout where
  widest : Int
  deepest : Int

/-- Outside positional notation one digit stands before the point and the exponent bears its sign. -/
def text (l : Layout) (d : Decimal) : String :=
  let digits := Nat.toDigits 10 d.digits
  let point : Int := digits.length + d.exponent
  String.ofList <|
    if 0 ≤ d.exponent ∧ point ≤ l.widest then
      digits ++ List.replicate d.exponent.toNat '0'
    else if 0 < point ∧ point ≤ l.widest then
      digits.take point.toNat ++ '.' :: digits.drop point.toNat
    else if -l.deepest ≤ point ∧ point ≤ 0 then
      '0' :: '.' :: List.replicate (-point).toNat '0' ++ digits
    else
      let fraction := if digits.length = 1 then [] else '.' :: digits.drop 1
      let sign := if point < 1 then '-' else '+'
      digits.take 1 ++ fraction ++ 'e' :: sign :: Nat.toDigits 10 (point - 1).natAbs

end Decimal

namespace Number

/-- Numbers from `10 ^ (-6)` up to `10 ^ 21` are written positionally. -/
def layout : Decimal.Layout := ⟨21, 5⟩

def text : Number → String
  | nan => "NaN"
  | infinite negative => if negative then "-Infinity" else "Infinity"
  | finite negative m e =>
    if m = 0 then "0" else (if negative then "-" else "") ++ (Decimal.shortest m e).text layout

end Number

end ClassDiagram
