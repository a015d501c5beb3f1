import ClassDiagram.Fault

/-! Who may see a named element. -/

namespace ClassDiagram

inductive Visibility where
  | everyone
  | owner
  | descendants
  | package
  deriving DecidableEq, Repr

namespace Visibility

instance : Inhabited Visibility := ⟨everyone⟩

def all : List Visibility := [everyone, owner, descendants, package]

def name : Visibility → String
  | everyone => "public"
  | owner => "private"
  | descendants => "protected"
  | package => "package"

def ofName? (s : String) : Option Visibility := all.find? fun v => v.name == s

def ofValue (v : Value) : Except Fault Visibility :=
  match v with
  | .text s => (ofName? s).elim (.error (.unknownVisibility v (all.map name))) .ok
  | v => .error (.unknownVisibility v (all.map name))

end Visibility

end ClassDiagram
