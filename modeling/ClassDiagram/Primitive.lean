import ClassDiagram.Element

/-! The built-in scalar types and the names that resolve to them. -/

namespace ClassDiagram

inductive Primitive where
  | str
  | int
  | float
  | bool
  | time
  | date
  | datetime
  | timedelta
  deriving DecidableEq, Repr, Inhabited

namespace Primitive

/-- In the order of their creation, which precedes that of every other element. -/
def all : List Primitive := [str, int, float, bool, time, date, datetime, timedelta]

def name : Primitive → String
  | str => "str"
  | int => "int"
  | float => "float"
  | bool => "bool"
  | time => "time"
  | date => "date"
  | datetime => "datetime"
  | timedelta => "timedelta"

def order : Primitive → Nat
  | str => 1
  | int => 2
  | float => 3
  | bool => 4
  | time => 5
  | date => 6
  | datetime => 7
  | timedelta => 8

def ref (p : Primitive) : PrimitiveRef := ⟨p.order⟩

def type (p : Primitive) : TypeRef := .primitive p.ref

/-- The only names that a primitive type may bear. -/
def names : List String := [int, float, str, bool, time, date, datetime, timedelta].map name

/-- Text has a second name; every other primitive goes by its own alone. -/
def ofAlias? (s : String) : Option Primitive :=
  if s = "string" then some str else all.find? fun p => p.name == s

@[simp] theorem mem_all (p : Primitive) : p ∈ all := by cases p <;> simp [all]

theorem mem_names {s : String} : s ∈ names ↔ ∃ p, name p = s := by
  constructor
  · intro h
    obtain ⟨p, _, hp⟩ := List.mem_map.1 h
    exact ⟨p, hp⟩
  · rintro ⟨p, rfl⟩
    cases p <;> simp [names]

theorem ofAlias?_name (p : Primitive) : ofAlias? p.name = some p := by cases p <;> decide

end Primitive

end ClassDiagram
