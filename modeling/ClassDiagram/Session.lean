import ClassDiagram.Command

/-! Runs of commands by a user who holds on to elements and multiplicities by handles. -/

namespace ClassDiagram

namespace Item

def ref {kind : Kind} (r : Ref kind) : Item := element r.element

def type (t : TypeRef) : Item := element t.element

def refs {kind : Kind} (rs : List (Ref kind)) : List Item := rs.map ref

def types (ts : List TypeRef) : List Item := ts.map type

def owners (o : Option Owner) : List Item := o.toList.map fun o => element o.element

end Item

/-! A command mentions the items that it needs to exist. -/

def TypeSource.mentions : TypeSource → List Item
  | known t => [.type t]
  | named _ => []

def Construction.mentions : Construction → List Item
  | multiplicity .. | plainType .. | dataType .. | primitiveType .. => []
  | enumeration _ o => Item.refs o.literals
  | literal _ o => Item.types o.owner.toList
  | classType _ o => Item.refs o.attributes ++ Item.refs o.methods
  | associationClass _ attributes a o => .ref a :: Item.refs attributes ++ Item.refs o.methods
  | property _ type o =>
    type.mentions ++ Item.owners o.owner ++ o.multiplicity.toList.map Item.multiplicity
  | parameter _ type _ => type.mentions
  | method _ o => o.type.mentions ++ Item.refs o.parameters ++ Item.types o.owner.toList
  | association _ _ ends _ => Item.refs ends
  | generalization general specific _ => [.ref general, .ref specific]
  | generalizationSet _ generalizations _ => Item.refs generalizations
  | package _ classes _ => Item.refs classes
  | constraint _ context _ _ => [.ref context]
  | model _ o =>
    Item.types o.types ++ Item.refs o.associations ++ Item.refs o.generalizations ++
      Item.refs o.packages ++ Item.refs o.constraints

def Assignment.mentions : Assignment → List Item
  | name e _ | visibility e _ | synonyms e _ | timestamp e _ => [.element e]
  | attributes c l => .ref c :: Item.refs l
  | methods c l => .ref c :: Item.refs l
  | isAbstractClass c _ | isReadOnlyClass c _ => [.ref c]
  | describedAssociation c a => [.ref c, .ref a]
  | literals e l => .ref e :: Item.refs l
  | literalOwner l o => .ref l :: Item.types o.toList
  | propertyType p t => [.ref p, .type t]
  | propertyOwner p o => .ref p :: Item.owners o
  | propertyMultiplicity p m => [.ref p, .multiplicity m]
  | isComposite p _ | isNavigable p _ | isId p _ | isReadOnlyProperty p _ => [.ref p]
  | parameterType p t => [.ref p, .type t]
  | defaultValue p _ => [.ref p]
  | methodType m t => [.ref m, .type t]
  | methodOwner m o => .ref m :: Item.types o.toList
  | parameters m l => .ref m :: Item.refs l
  | isAbstractMethod m _ | code m _ => [.ref m]
  | ends a l => .ref a :: Item.refs l
  | general g c | specific g c => [.ref g, .ref c]
  | groupedGeneralizations g l => .ref g :: Item.refs l
  | isDisjoint g _ | isComplete g _ => [.ref g]
  | packagedClasses p l => .ref p :: Item.refs l
  | context k c => [.ref k, .ref c]
  | expression k _ | language k _ => [.ref k]
  | types m l => .ref m :: Item.types l
  | associations m l => .ref m :: Item.refs l
  | generalizations m l => .ref m :: Item.refs l
  | packages m l => .ref m :: Item.refs l
  | constraints m l => .ref m :: Item.refs l
  | lower m _ | upper m _ => [.multiplicity m]

def Call.mentions : Call → List Item
  | typeText t => [.type t]
  | multiplicityText m | isUnbounded m => [.multiplicity m]
  | addAttribute c p => [.ref c, .ref p]
  | addMethod c m => [.ref c, .ref m]
  | attributeNamed c _ | methodNamed c _ | idAttribute c | parents c | allParents c | specializations c
  | allSpecializations c | inheritedAttributes c | allAttributes c | associationEnds c
  | allAssociationEnds c => [.ref c]
  | addLiteral e l => [.ref e, .ref l]
  | literalNamed e _ => [.ref e]
  | addParameter m p => [.ref m, .ref p]
  | parameterNamed m _ => [.ref m]
  | otherEnd a p => [.ref a, .ref p]
  | addClass p c => [.ref p, .ref c]
  | addType m t => [.ref m, .type t]
  | addAssociation m a => [.ref m, .ref a]
  | addGeneralization m g => [.ref m, .ref g]
  | addPackage m p => [.ref m, .ref p]
  | addConstraint m k => [.ref m, .ref k]
  | typeNamed m _ | classNamed m _ | associationNamed m _ | classes m | enumerations m
  | sortedClasses m | elements m | elementById m _ => [.ref m]

namespace Command

def mentions : Command → List Item
  | create _ c => c.mentions
  | assign a => a.mentions
  | call c => c.mentions
  | read on _ _ => [on]
  | configure .. => []
  | resolve source _ => source.mentions
  | sort es => es.map Item.element

def handle? : Command → Option String
  | create handle _ => some handle
  | read _ _ handle | resolve _ handle => handle
  | assign _ | call _ | configure .. | sort _ => none

end Command

def Datum.item? : Datum → Option Item
  | element (some e) => some (.element e)
  | multiplicity m => some (.multiplicity m)
  | _ => none

/-- Handles are listed with what they name, in the order in which they were bound. -/
structure Session where
  store : Store
  bindings : List (String × Item)

inductive Outcome where
  | answer (d : Datum)
  | fault (f : Fault)
  | unbound

namespace Session

/-- At the start the primitive types are bound, each to its name after a dollar sign. -/
def initial (ids : Nat → Uuid) : Session :=
  ⟨.initial ids, Primitive.all.map fun p => ("$" ++ p.name, .ref p.ref)⟩

def find? (s : Session) (handle : String) : Option Item := s.bindings.lookup handle

def handleOf? (s : Session) (i : Item) : Option String :=
  (s.bindings.find? fun b => b.2 == i).map Prod.fst

def binds (s : Session) (i : Item) : Bool := s.bindings.any fun b => b.2 == i

/-- An item that has a handle keeps it as its only one. -/
def bind (s : Session) (handle : Option String) (d : Datum) : Session :=
  match handle, d.item? with
  | some handle, some i =>
    if s.binds i then s else { s with bindings := s.bindings ++ [(handle, i)] }
  | _, _ => s

/-- The log of a command starts empty; nothing happens if an item that it mentions is not bound. -/
def perform (c : Command) (s : Session) : Session × Outcome :=
  if c.mentions.all s.binds then
    match c.edit { s.store with log := [] } with
    | .ok d store => ({ s with store }.bind c.handle? d, .answer d)
    | .error f store => ({ s with store }, .fault f)
  else (s, .unbound)

def run (cs : List Command) (s : Session) : Session := cs.foldl (fun s c => (s.perform c).1) s

/-- A multiplicity is no element, hence an instance of no classifier. -/
def classifiers (s : Session) : Item → List String
  | .element e => s.store.classifiers e
  | .multiplicity _ => []

def elementIds (s : Session) : List String :=
  s.bindings.filterMap fun b =>
    match b.2 with
    | .element e => some (s.store.idAt e.order).text
    | .multiplicity _ => none

def idsCanonical (s : Session) : Bool := s.elementIds.all Uuid.isCanonical

def idsDistinct (s : Session) : Bool := s.elementIds.Nodup

end Session

end ClassDiagram
