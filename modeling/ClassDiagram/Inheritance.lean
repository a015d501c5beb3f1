import ClassDiagram.Graph
import ClassDiagram.Links

/-! What a class inherits along generalizations, and the association ends that it sees. -/

namespace ClassDiagram.Store

/-- The general ends of the generalizations that a class refers back to, itself apart. -/
def parents (s : Store) (c : ClassRef) : OrderedSet ClassRef :=
  .ofList <| ((s.classes.get c).generalizations.toList.map fun g =>
    (s.generalizations.get g).general).filter (· ≠ c)

/-- The specific ends of the generalizations that a class refers back to, itself apart. -/
def specializations (s : Store) (c : ClassRef) : OrderedSet ClassRef :=
  .ofList <| ((s.classes.get c).generalizations.toList.map fun g =>
    (s.generalizations.get g).specific).filter (· ≠ c)

def ancestry (s : Store) : Graph ClassRef := ⟨s.classes.keys, fun c => (s.parents c).toList⟩

def descent (s : Store) : Graph ClassRef := ⟨s.classes.keys, fun c => (s.specializations c).toList⟩

/-- A cycle is told by the names of its classes. -/
def orCycle {α : Type} (s : Store) : Except (List ClassRef) α → Except Fault α
  | .ok a => .ok a
  | .error cycle => .error (.cyclicGeneralization (cycle.map (·.name s)))

def allParents (s : Store) (c : ClassRef) : Except (List ClassRef) (List ClassRef) :=
  s.ancestry.closure c

def allSpecializations (s : Store) (c : ClassRef) : Except (List ClassRef) (List ClassRef) :=
  s.descent.closure c

def attributesOf (s : Store) (cs : List ClassRef) : List PropertyRef :=
  cs.flatMap fun c => (s.classes.get c).attributes.toList

def inheritedAttributes (s : Store) (c : ClassRef) :
    Except (List ClassRef) (OrderedSet PropertyRef) :=
  (s.allParents c).map fun cs => .ofList (s.attributesOf cs)

/-- Attributes of one name from different classes are all kept. -/
def allAttributes (s : Store) (c : ClassRef) : Except (List ClassRef) (OrderedSet PropertyRef) :=
  (s.inheritedAttributes c).map fun xs => (s.classes.get c).attributes.insertAll xs.toList

/-- Whether an association has two ends that are typed alike. -/
def isReflexive (s : Store) (a : AssociationRef) : Bool :=
  match (s.associations.get a).ends.toList with
  | [p, q] => s.typeOf p == s.typeOf q
  | _ => false

/-- Of a reflexive association both ends are seen, of any other those typed by something else. -/
def endsSeen (s : Store) (c : ClassRef) (a : AssociationRef) : List PropertyRef :=
  (s.associations.get a).ends.toList.filter fun p => s.isReflexive a || s.typeOf p != .ofClass c

def associationEnds (s : Store) (c : ClassRef) : OrderedSet PropertyRef :=
  .ofList <| (s.classes.get c).associations.toList.flatMap (s.endsSeen c)

def allAssociationEnds (s : Store) (c : ClassRef) : Except (List ClassRef) (OrderedSet PropertyRef) :=
  (s.allParents c).map fun cs =>
    (s.associationEnds c).insertAll (cs.flatMap fun p => (s.associationEnds p).toList)

end ClassDiagram.Store
