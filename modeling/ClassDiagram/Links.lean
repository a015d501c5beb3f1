import ClassDiagram.Naming

/-! Associations and generalizations, and the back-references that classes keep to them. -/

namespace ClassDiagram

namespace ClassRecord

def link (r : ClassRecord) (a : AssociationRef) : ClassRecord :=
  { r with associations := r.associations.insert a }

def unlink (r : ClassRecord) (a : AssociationRef) : ClassRecord :=
  { r with associations := r.associations.erase a }

def register (r : ClassRecord) (g : GeneralizationRef) : ClassRecord :=
  { r with generalizations := r.generalizations.insert g }

def unregister (r : ClassRecord) (g : GeneralizationRef) : ClassRecord :=
  { r with generalizations := r.generalizations.erase g }

end ClassRecord

namespace Store

def typeOf (s : Store) (p : PropertyRef) : TypeRef := (s.properties.get p).type

def isComposite (s : Store) (p : PropertyRef) : Bool := (s.properties.get p).isComposite.truthy

def endClass (s : Store) (p : PropertyRef) : Except Fault ClassRef :=
  match (s.typeOf p).class? with
  | some c => .ok c
  | none => .error (.endNotClass (p.name s) ((s.typeOf p).name s))

def checkArity (s : Store) (name : String) (isBinary : Bool) (xs : OrderedSet PropertyRef) :
    Except Fault Unit :=
  if isBinary then
    if xs.size ≠ 2 then .error (.notTwoEnds name)
    else if xs.toList.all s.isComposite then .error (.compositeOnBothEnds name)
    else .ok ()
  else if xs.size ≤ 1 then .error (.tooFewEnds name)
  else .ok ()

/-- The classes of acceptable ends; arity comes before types. -/
def checkEnds (s : Store) (name : String) (isBinary : Bool) (xs : OrderedSet PropertyRef) :
    Except Fault (List ClassRef) := do
  s.checkArity name isBinary xs
  xs.toList.mapM s.endClass

/-- The classes that type some of the properties now. -/
def classesOf (s : Store) (xs : OrderedSet PropertyRef) : List ClassRef :=
  xs.toList.filterMap fun p => (s.typeOf p).class?

/-- The association leaves the classes of its old ends before it is linked to those of the new. -/
def setEnds (s : Store) (a : AssociationRef) (xs : OrderedSet PropertyRef) (classes : List ClassRef) :
    Store :=
  let unlinked := s.classes.modifyAll (s.classesOf (s.associations.get a).ends) (·.unlink a)
  { s with
    properties := s.properties.modifyAll xs.toList fun p => { p with owner := some (.association a) }
    classes := unlinked.modifyAll classes (·.link a)
    associations := s.associations.modify a fun r => { r with ends := xs } }

/-- The end of an association that is not `p`, if `p` is one. -/
def otherEnd? (s : Store) (a : AssociationRef) (p : PropertyRef) : Option PropertyRef :=
  let ends := (s.associations.get a).ends
  if p ∈ ends then ends.toList.find? (· ≠ p) else none

def setGeneral (s : Store) (g : GeneralizationRef) (c : ClassRef) : Store :=
  let old := (s.generalizations.get g).general
  { s with
    classes := (s.classes.modify old (·.unregister g)).modify c (·.register g)
    generalizations := s.generalizations.modify g fun r => { r with general := c } }

def setSpecific (s : Store) (g : GeneralizationRef) (c : ClassRef) : Store :=
  let old := (s.generalizations.get g).specific
  { s with
    classes := (s.classes.modify old (·.unregister g)).modify c (·.register g)
    generalizations := s.generalizations.modify g fun r => { r with specific := c } }

def checkGeneral (s : Store) (g : GeneralizationRef) (c : ClassRef) : Except Fault Unit :=
  if c = (s.generalizations.get g).specific then .error (.selfGeneralization (c.name s)) else .ok ()

def checkSpecific (s : Store) (g : GeneralizationRef) (c : ClassRef) : Except Fault Unit :=
  if c = (s.generalizations.get g).general then .error (.selfGeneralization (c.name s)) else .ok ()

def linkMessage (s : Store) (a : AssociationRef) (classes : List ClassRef) : String :=
  "Association '" ++ a.name s ++ "' linked to " ++
    ", ".intercalate (classes.map fun c => "'" ++ c.name s ++ "'")

end Store

namespace Edit

/-- Ends that have passed the check are put into place. -/
def linkEnds (a : AssociationRef) (xs : OrderedSet PropertyRef) (classes : List ClassRef) : Edit Unit := do
  modify (·.setEnds a xs classes)
  note .model ((← get).linkMessage a classes)

def replaceEnds (a : AssociationRef) (l : List PropertyRef) : Edit Unit := do
  let classes ← check fun s => s.checkEnds (a.name s) (s.associations.get a).isBinary (.ofList l)
  linkEnds a (.ofList l) classes

def setGeneral (g : GeneralizationRef) (c : ClassRef) : Edit Unit := do
  check (·.checkGeneral g c)
  modify (·.setGeneral g c)
  note .model ("Generalization general set to '" ++ c.name (← get) ++ "'")

def setSpecific (g : GeneralizationRef) (c : ClassRef) : Edit Unit := do
  check (·.checkSpecific g c)
  modify (·.setSpecific g c)
  note .model ("Generalization specific set to '" ++ c.name (← get) ++ "'")

end Edit

end ClassDiagram
