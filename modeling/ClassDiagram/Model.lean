import ClassDiagram.Graph
import ClassDiagram.Members

/-! Models: their collections, the order of their classes and the search for their elements. -/

namespace ClassDiagram

namespace Store

def typeNames (s : Store) (xs : OrderedSet TypeRef) : List String := xs.toList.map (·.name s)

/-- Every model holds the primitive types, after the types it is given unless it is given them. -/
def withPrimitives (l : List TypeRef) : OrderedSet TypeRef :=
  .ofList (l ++ Primitive.all.map Primitive.type)

def setTypes (s : Store) (m : ModelRef) (types : OrderedSet TypeRef) : Store :=
  { s with models := s.models.modify m fun r => { r with types } }

def setAssociations (s : Store) (m : ModelRef) (associations : OrderedSet AssociationRef) : Store :=
  { s with models := s.models.modify m fun r => { r with associations } }

def setGeneralizations (s : Store) (m : ModelRef) (generalizations : OrderedSet GeneralizationRef) :
    Store :=
  { s with models := s.models.modify m fun r => { r with generalizations } }

def setPackages (s : Store) (m : ModelRef) (packages : OrderedSet PackageRef) : Store :=
  { s with models := s.models.modify m fun r => { r with packages } }

def setConstraints (s : Store) (m : ModelRef) (constraints : OrderedSet ConstraintRef) : Store :=
  { s with models := s.models.modify m fun r => { r with constraints } }

def typeNamed? (s : Store) (m : ModelRef) (name : Value) : Option TypeRef :=
  (s.models.get m).types.toList.find? fun t => name.isText (t.name s)

def classesIn (s : Store) (m : ModelRef) : List ClassRef :=
  (s.models.get m).types.toList.filterMap TypeRef.class?

def enumerationsIn (s : Store) (m : ModelRef) : List EnumerationRef :=
  (s.models.get m).types.toList.filterMap TypeRef.enumeration?

def classNamed? (s : Store) (m : ModelRef) (name : Value) : Option ClassRef :=
  (s.classesIn m).find? fun c => name.isText (c.name s)

def associationNamed? (s : Store) (m : ModelRef) (name : Value) : Option AssociationRef :=
  s.named? (s.models.get m).associations name

/-- Elements in the order of their creation; of one element twice, the first stays first. -/
def byCreation (es : List Element) : List Element := es.mergeSort fun e f => e.order ≤ f.order

def classesByCreation (s : Store) (m : ModelRef) : List ClassRef :=
  (s.classesIn m).mergeSort fun c d => c.order ≤ d.order

/-- The generalizations that the specific class refers back to and that lead from it to the general one. -/
def generalizationsBetween (s : Store) (general specific : ClassRef) : List GeneralizationRef :=
  (s.classes.get specific).generalizations.toList.filter fun g =>
    (s.generalizations.get g).specific == specific && (s.generalizations.get g).general == general

/-- The specializations of a class among others, as often as there are generalizations. -/
def specializationsAmong (s : Store) (classes : List ClassRef) (general : ClassRef) : List ClassRef :=
  classes.flatMap fun specific => (s.generalizationsBetween general specific).map fun _ => specific

/-- Arrows lead from each class of a model to those that specialize it, earlier ones first. -/
def hierarchy (s : Store) (m : ModelRef) : Graph ClassRef :=
  let classes := s.classesByCreation m
  ⟨classes, s.specializationsAmong classes⟩

/-- General classes before their specializations. -/
def sortedClasses (s : Store) (m : ModelRef) : Except (List ClassRef) (List ClassRef) :=
  (s.hierarchy m).order

def membersOfClass (s : Store) (c : ClassRef) : List Element :=
  let r := s.classes.get c
  r.attributes.toList.map Ref.element ++ r.methods.toList.flatMap fun m =>
    m.element :: (s.methods.get m).parameters.toList.map Ref.element

/-- A type followed by its members. -/
def withMembers (s : Store) (t : TypeRef) : List Element :=
  t.element ::
    match t with
    | .ofClass c => s.membersOfClass c
    | .ofEnumeration e => (s.enumerations.get e).literals.toList.map Ref.element
    | _ => []

/-- Everything that belongs to a model, the model first; what belongs to it twice comes twice. -/
def elementsOf (s : Store) (m : ModelRef) : List Element :=
  let r := s.models.get m
  m.element :: r.types.toList.flatMap s.withMembers ++
    (r.associations.toList.flatMap fun a =>
      a.element :: (s.associations.get a).ends.toList.map Ref.element) ++
    r.generalizations.toList.map Ref.element ++ r.packages.toList.map Ref.element ++
    r.constraints.toList.map Ref.element

/-- An identifier is well formed by its text, but only a text identifies anything. -/
def elementWithId (s : Store) (m : ModelRef) (id : Value) : Except Fault (Option Element) :=
  if Uuid.isVersion4 id.toText then
    .ok ((s.elementsOf m).find? fun e => id.isText (s.idAt e.order).text)
  else .error (.malformedId id)

def holdingMessage (model : String) (size : Nat) (collection : String) : String :=
  "Model '" ++ model ++ "' holds " ++ toString size ++ " " ++ collection

def orderMessage (s : Store) (m : ModelRef) (classes : List ClassRef) : String :=
  "Model '" ++ m.name s ++ "' inheritance order: " ++ ", ".intercalate (classes.map (·.name s))

def cycleMessage (s : Store) (m : ModelRef) (cycle : List ClassRef) : String :=
  "Model '" ++ m.name s ++ "' has a generalization cycle: " ++ " -> ".intercalate (cycle.map (·.name s))

end Store

namespace Edit

def acceptTypes (model : String) (types : OrderedSet TypeRef) : Edit Unit := do
  check fun s => uniqueNames "The model" "types" (s.typeNames types)
  note .model (Store.holdingMessage model types.size "types")

def acceptAssociations (model : String) (associations : OrderedSet AssociationRef) : Edit Unit := do
  check fun s => uniqueNames "The model" "associations" (s.namesOf associations)
  note .model (Store.holdingMessage model associations.size "associations")

def acceptPackages (packages : OrderedSet PackageRef) : Edit Unit :=
  check fun s => uniqueNames "The model" "packages" (s.namesOf packages)

def acceptConstraints (constraints : OrderedSet ConstraintRef) : Edit Unit :=
  check fun s => uniqueNames "The model" "constraints" (s.namesOf constraints)

def replaceTypes (m : ModelRef) (l : List TypeRef) : Edit Unit := do
  acceptTypes (m.name (← get)) (Store.withPrimitives l)
  modify (·.setTypes m (Store.withPrimitives l))

def replaceAssociations (m : ModelRef) (l : List AssociationRef) : Edit Unit := do
  acceptAssociations (m.name (← get)) (.ofList l)
  modify (·.setAssociations m (.ofList l))

def replaceGeneralizations (m : ModelRef) (l : List GeneralizationRef) : Edit Unit :=
  modify (·.setGeneralizations m (.ofList l))

def replacePackages (m : ModelRef) (l : List PackageRef) : Edit Unit := do
  acceptPackages (.ofList l)
  modify (·.setPackages m (.ofList l))

def replaceConstraints (m : ModelRef) (l : List ConstraintRef) : Edit Unit := do
  acceptConstraints (.ofList l)
  modify (·.setConstraints m (.ofList l))

/-! An addition stands for a replacement by the collection with one more at its end. -/

def addType (m : ModelRef) (t : TypeRef) : Edit Unit := do
  replaceTypes m (((← get).models.get m).types.toList ++ [t])

def addAssociation (m : ModelRef) (a : AssociationRef) : Edit Unit := do
  replaceAssociations m (((← get).models.get m).associations.toList ++ [a])

def addGeneralization (m : ModelRef) (g : GeneralizationRef) : Edit Unit := do
  replaceGeneralizations m (((← get).models.get m).generalizations.toList ++ [g])

def addPackage (m : ModelRef) (p : PackageRef) : Edit Unit := do
  replacePackages m (((← get).models.get m).packages.toList ++ [p])

def addConstraint (m : ModelRef) (c : ConstraintRef) : Edit Unit := do
  replaceConstraints m (((← get).models.get m).constraints.toList ++ [c])

/-- A cycle is noted with the model's name and raised without. -/
def sortClasses (m : ModelRef) : Edit (List ClassRef) := fun s =>
  match s.sortedClasses m with
  | .ok classes => .ok classes (s.noted .model (s.orderMessage m classes))
  | .error cycle =>
    .error (.cyclicGeneralization (cycle.map (·.name s))) (s.noted .error (s.cycleMessage m cycle))

end Edit

end ClassDiagram
