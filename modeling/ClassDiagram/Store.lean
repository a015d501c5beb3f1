import ClassDiagram.Element
import ClassDiagram.Multiplicity
import ClassDiagram.OrderedSet
import ClassDiagram.Primitive
import ClassDiagram.Table
import ClassDiagram.Uuid
import ClassDiagram.Visibility

/-! The elements of all diagrams, one table of records for each kind. -/

namespace ClassDiagram

/-- Multiplicities are shared between properties but are no elements. -/
structure MultiplicityRef where
  index : Nat
  deriving DecidableEq, Repr, Inhabited

instance {kind : Kind} : Key (Ref kind) := ⟨Ref.order, Ref.mk, fun _ => rfl, fun _ => rfl⟩

instance : Key MultiplicityRef :=
  ⟨MultiplicityRef.index, MultiplicityRef.mk, fun _ => rfl, fun _ => rfl⟩

instance : Key Nat := ⟨id, id, fun _ => rfl, fun _ => rfl⟩

/-- The moment of creation in milliseconds is kept only if it was supplied. -/
structure Header where
  kind : Kind
  timestamp : Option Int
  deriving Inhabited

/-- What every element but a generalization has. -/
structure Label where
  name : String
  synonyms : Value
  visibility : Visibility
  deriving Inhabited

/-- Only an association class has an `association`, the one that it describes; it gets it last of all. -/
structure ClassRecord where
  attributes : OrderedSet PropertyRef
  methods : OrderedSet MethodRef
  associations : OrderedSet AssociationRef
  generalizations : OrderedSet GeneralizationRef
  isAbstract : Value
  isReadOnly : Value
  isAssociationClass : Bool
  association : Option AssociationRef
  deriving Inhabited

structure EnumerationRecord where
  literals : OrderedSet LiteralRef
  deriving Inhabited

structure LiteralRecord where
  owner : Option TypeRef
  deriving Inhabited

structure PropertyRecord where
  type : TypeRef
  owner : Option Owner
  multiplicity : MultiplicityRef
  isComposite : Value
  isNavigable : Value
  isId : Value
  isReadOnly : Value
  deriving Inhabited

structure ParameterRecord where
  type : TypeRef
  defaultValue : Value
  deriving Inhabited

structure MethodRecord where
  type : TypeRef
  owner : Option TypeRef
  parameters : OrderedSet ParameterRef
  isAbstract : Value
  code : Value
  deriving Inhabited

structure AssociationRecord where
  isBinary : Bool
  ends : OrderedSet PropertyRef
  deriving Inhabited

structure GeneralizationRecord where
  general : ClassRef
  specific : ClassRef
  deriving Inhabited

structure GeneralizationSetRecord where
  generalizations : OrderedSet GeneralizationRef
  isDisjoint : Value
  isComplete : Value
  deriving Inhabited

structure PackageRecord where
  classes : OrderedSet ClassRef
  deriving Inhabited

structure ConstraintRecord where
  context : ClassRef
  expression : Value
  language : Value
  deriving Inhabited

structure ModelRecord where
  types : OrderedSet TypeRef
  associations : OrderedSet AssociationRef
  generalizations : OrderedSet GeneralizationRef
  packages : OrderedSet PackageRef
  constraints : OrderedSet ConstraintRef
  deriving Inhabited

inductive Channel where
  | model
  | error
  deriving DecidableEq, Repr, Inhabited

structure Entry where
  channel : Channel
  message : String
  deriving DecidableEq, Repr, Inhabited

/-- `created` counts all numbers given out, also those of elements that came to nothing. -/
structure Store where
  created : Nat
  ids : Nat → Uuid
  headers : Table Nat Header
  labels : Table Nat Label
  classes : Table ClassRef ClassRecord
  enumerations : Table EnumerationRef EnumerationRecord
  literals : Table LiteralRef LiteralRecord
  properties : Table PropertyRef PropertyRecord
  parameters : Table ParameterRef ParameterRecord
  methods : Table MethodRef MethodRecord
  associations : Table AssociationRef AssociationRecord
  generalizations : Table GeneralizationRef GeneralizationRecord
  generalizationSets : Table GeneralizationSetRef GeneralizationSetRecord
  packages : Table PackageRef PackageRecord
  constraints : Table ConstraintRef ConstraintRecord
  models : Table ModelRef ModelRecord
  multiplicityCount : Nat
  multiplicities : Table MultiplicityRef Multiplicity
  ownerRelease : Bool
  listening : Bool
  log : List Entry

namespace Store

def nameAt (s : Store) (order : Nat) : String := (s.labels.get order).name

def idAt (s : Store) (order : Nat) : Uuid := s.ids order

/-- Whether an element has come to be. -/
def contains (s : Store) (e : Element) : Bool := (s.headers.get? e.order).any fun h => h.kind == e.kind

def enter (s : Store) (e : Element) (timestamp : Option Int) : Store :=
  { s with headers := s.headers.set e.order ⟨e.kind, timestamp⟩ }

def setLabel (s : Store) (order : Nat) (l : Label) : Store := { s with labels := s.labels.set order l }

def enterPrimitive (s : Store) (p : Primitive) : Store :=
  (s.enter p.ref.element none).setLabel p.order ⟨p.name, .null, .everyone⟩

/-- The store with the primitive types and nothing else. -/
def initial (ids : Nat → Uuid) : Store :=
  let empty : Store := {
    created := Primitive.all.length
    ids
    headers := ∅
    labels := ∅
    classes := ∅
    enumerations := ∅
    literals := ∅
    properties := ∅
    parameters := ∅
    methods := ∅
    associations := ∅
    generalizations := ∅
    generalizationSets := ∅
    packages := ∅
    constraints := ∅
    models := ∅
    multiplicityCount := 0
    multiplicities := ∅
    ownerRelease := false
    listening := true
    log := [] }
  Primitive.all.foldl enterPrimitive empty

end Store

def Ref.name {kind : Kind} (r : Ref kind) (s : Store) : String := s.nameAt r.order

def TypeRef.name (t : TypeRef) (s : Store) : String := s.nameAt t.order

def Element.name (e : Element) (s : Store) : String := s.nameAt e.order

end ClassDiagram
