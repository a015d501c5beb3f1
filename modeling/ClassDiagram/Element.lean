/-! The kinds of elements that a diagram is made of, and references to elements. -/

namespace ClassDiagram

inductive Kind where
  | plainType
  | dataType
  | primitiveType
  | enumeration
  | classType
  | literal
  | property
  | parameter
  | method
  | association
  | generalization
  | generalizationSet
  | package
  | constraint
  | model
  deriving DecidableEq, Repr, Inhabited

/-- An element is known by its place in the order of creation, which starts at one. -/
structure Ref (kind : Kind) where
  order : Nat
  deriving DecidableEq, Repr, Inhabited

abbrev PrimitiveRef := Ref .primitiveType
abbrev EnumerationRef := Ref .enumeration
abbrev ClassRef := Ref .classType
abbrev LiteralRef := Ref .literal
abbrev PropertyRef := Ref .property
abbrev ParameterRef := Ref .parameter
abbrev MethodRef := Ref .method
abbrev AssociationRef := Ref .association
abbrev GeneralizationRef := Ref .generalization
abbrev GeneralizationSetRef := Ref .generalizationSet
abbrev PackageRef := Ref .package
abbrev ConstraintRef := Ref .constraint
abbrev ModelRef := Ref .model

/-- A reference to an element of any kind. -/
structure Element where
  kind : Kind
  order : Nat
  deriving DecidableEq, Repr, Inhabited

/-- A reference to anything that can be the type of something. -/
inductive TypeRef where
  | plain (r : Ref .plainType)
  | data (r : Ref .dataType)
  | primitive (r : PrimitiveRef)
  | ofEnumeration (r : EnumerationRef)
  | ofClass (r : ClassRef)
  deriving DecidableEq, Repr, Inhabited

/-- What a property can be owned by, as far as its kind goes. -/
inductive Owner where
  | type (t : TypeRef)
  | association (r : AssociationRef)
  deriving DecidableEq, Repr, Inhabited

def Ref.element {kind : Kind} (r : Ref kind) : Element := ⟨kind, r.order⟩

namespace TypeRef

def element : TypeRef → Element
  | plain r => r.element
  | data r => r.element
  | primitive r => r.element
  | ofEnumeration r => r.element
  | ofClass r => r.element

def order (t : TypeRef) : Nat := t.element.order

/-- Primitive types and enumerations are data types too. -/
def isData : TypeRef → Bool
  | plain _ | ofClass _ => false
  | data _ | primitive _ | ofEnumeration _ => true

def isPrimitive : TypeRef → Bool
  | primitive _ => true
  | _ => false

def class? : TypeRef → Option ClassRef
  | ofClass r => some r
  | _ => none

def enumeration? : TypeRef → Option EnumerationRef
  | ofEnumeration r => some r
  | _ => none

theorem class?_eq_some_iff {t : TypeRef} {c : ClassRef} : t.class? = some c ↔ t = ofClass c := by
  cases t <;> simp [class?]

end TypeRef

def Owner.element : Owner → Element
  | type t => t.element
  | association r => r.element

namespace Element

def as? (kind : Kind) (e : Element) : Option (Ref kind) :=
  if e.kind = kind then some ⟨e.order⟩ else none

def type? (e : Element) : Option TypeRef :=
  match e.kind with
  | .plainType => some (.plain ⟨e.order⟩)
  | .dataType => some (.data ⟨e.order⟩)
  | .primitiveType => some (.primitive ⟨e.order⟩)
  | .enumeration => some (.ofEnumeration ⟨e.order⟩)
  | .classType => some (.ofClass ⟨e.order⟩)
  | _ => none

def owner? (e : Element) : Option Owner :=
  match e.type? with
  | some t => some (.type t)
  | none => (e.as? .association).map .association

@[simp] theorem as?_element {kind : Kind} (r : Ref kind) : r.element.as? kind = some r := by
  simp [as?, Ref.element]

end Element

end ClassDiagram
