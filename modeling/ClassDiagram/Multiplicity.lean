import ClassDiagram.Fault

/-! How many values a property takes. -/

namespace ClassDiagram

structure Multiplicity where
  lower : Nat
  upper : Nat
  deriving DecidableEq, Repr, Inhabited

namespace Multiplicity

/-- The upper bound that stands for none. -/
def unlimited : Nat := 9999

/-- Bounds are natural numbers. -/
def bound? : Value → Option Nat
  | .number x => x.natural?
  | _ => none

def setLower (m : Multiplicity) (v : Value) : Except Fault Multiplicity :=
  match bound? v with
  | some n => if n ≤ m.upper then .ok { m with lower := n } else .error (.invalidLower v)
  | none => .error (.invalidLower v)

/-- A star lifts the bound, whatever the lower one is. -/
def setUpper (m : Multiplicity) (v : Value) : Except Fault Multiplicity :=
  match v with
  | .text "*" => .ok { m with upper := unlimited }
  | v =>
    match bound? v with
    | some n => if m.lower ≤ n then .ok { m with upper := n } else .error (.invalidUpper v)
    | none => .error (.invalidUpper v)

def ofBounds (lower upper : Value) : Except Fault Multiplicity :=
  match bound? lower with
  | some n => setUpper ⟨n, 0⟩ upper
  | none => .error (.invalidLower lower)

def one : Multiplicity := ⟨1, 1⟩

def isUnbounded (m : Multiplicity) : Bool := m.upper == unlimited

def text (m : Multiplicity) : String :=
  (Number.ofNat m.lower).text ++ ".." ++ if m.isUnbounded then "*" else (Number.ofNat m.upper).text

end Multiplicity

end ClassDiagram
