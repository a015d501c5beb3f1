import ClassDiagram.Links
import ClassDiagram.Model

/-! How elements come to be: whatever can be refused is checked first, then the element is entered. -/

namespace ClassDiagram

/-- A type is given as such or by something that ought to be its name. -/
inductive TypeSource where
  | known (t : TypeRef)
  | named (v : Value)
  deriving Inhabited

structure EnumerationOptions extends NamedOptions where
  literals : List LiteralRef := []

structure LiteralOptions extends NamedOptions where
  owner : Option TypeRef := none

structure ClassOptions extends NamedOptions where
  attributes : List PropertyRef := []
  methods : List MethodRef := []
  isAbstract : Value := .missing
  isReadOnly : Value := .missing

structure PropertyOptions extends NamedOptions where
  owner : Option Owner := none
  multiplicity : Option MultiplicityRef := none
  isComposite : Value := .missing
  isNavigable : Value := .missing
  isId : Value := .missing
  isReadOnly : Value := .missing

structure ParameterOptions extends NamedOptions where
  defaultValue : Value := .missing

structure MethodOptions extends NamedOptions where
  type : TypeSource := .named .missing
  parameters : List ParameterRef := []
  owner : Option TypeRef := none
  isAbstract : Value := .missing
  code : Value := .missing

structure GeneralizationSetOptions extends NamedOptions where
  isDisjoint : Value := .missing
  isComplete : Value := .missing

structure ConstraintOptions extends NamedOptions where
  language : Value := .missing

structure ModelOptions extends NamedOptions where
  types : List TypeRef := []
  associations : List AssociationRef := []
  generalizations : List GeneralizationRef := []
  packages : List PackageRef := []
  constraints : List ConstraintRef := []

/-- The name of the type of methods that are declared without one. -/
def voidTypeName : String := "OclVoid"

def TypeSource.orVoid (source : TypeSource) : TypeSource :=
  match source with
  | known t => known t
  | named v => named (v.getD (.text voidTypeName))

namespace Edit

def enterMultiplicity (m : Multiplicity) : Edit MultiplicityRef := fun s =>
  .ok ⟨s.multiplicityCount⟩
    { s with
      multiplicityCount := s.multiplicityCount + 1
      multiplicities := s.multiplicities.set ⟨s.multiplicityCount⟩ m }

def createMultiplicity (lower upper : Value) : Edit MultiplicityRef := do
  enterMultiplicity (← check fun _ => Multiplicity.ofBounds lower upper)

def setLower (m : MultiplicityRef) (v : Value) : Edit Unit := do
  let bounds ← check fun s => (s.multiplicities.get m).setLower v
  modify fun s => { s with multiplicities := s.multiplicities.set m bounds }

def setUpper (m : MultiplicityRef) (v : Value) : Edit Unit := do
  let bounds ← check fun s => (s.multiplicities.get m).setUpper v
  modify fun s => { s with multiplicities := s.multiplicities.set m bounds }

/-- Creates an element of which nothing is known but what all named elements have. -/
def createBare (kind : Kind) (name : Value) (o : NamedOptions) : Edit (Ref kind) := do
  let (r, l) ← beginElement kind name o
  modify (·.enroll r.element l o.timestamp)
  return r

/-- A name that is not that of a primitive type makes a type of its own. -/
def resolve : TypeSource → Edit TypeRef
  | .known t => pure t
  | .named v =>
    match v.text?.bind Primitive.ofAlias? with
    | some p => pure p.type
    | none => .plain <$> createBare .plainType v {}

def createEnumeration (name : Value) (o : EnumerationOptions) : Edit EnumerationRef := do
  let (r, l) ← beginElement .enumeration name o.toNamedOptions
  check (·.checkLiterals (.ofList o.literals))
  modify fun s =>
    ({ s.enroll r.element l o.timestamp with
      enumerations := s.enumerations.set r default } : Store).setLiterals r (.ofList o.literals)
  return r

def createLiteral (name : Value) (o : LiteralOptions) : Edit LiteralRef := do
  let (r, l) ← beginElement .literal name o.toNamedOptions
  check (·.checkLiteralOwner l.name o.owner)
  modify fun s => { s.enroll r.element l o.timestamp with literals := s.literals.set r ⟨o.owner⟩ }
  return r

/--
A class comes to be once its attributes are accepted; if its methods are then refused, the attributes have
gone over to a class that nobody gets to see otherwise.
-/
def createClassOf (isAssociationClass : Bool) (name : Value) (o : ClassOptions) : Edit ClassRef := do
  let (r, l) ← beginElement .classType name o.toNamedOptions
  check (·.checkAttributes l.name (.ofList o.attributes))
  modify fun s =>
    ({ s.enroll r.element l o.timestamp with
      classes := s.classes.set r
        { (default : ClassRecord) with
          isAbstract := o.isAbstract.getD (.bool false)
          isReadOnly := o.isReadOnly.getD (.bool false)
          isAssociationClass } } : Store).setAttributes r (.ofList o.attributes)
  replaceMethods r o.methods
  return r

def createClass (name : Value) (o : ClassOptions) : Edit ClassRef := createClassOf false name o

def describeAssociation (c : ClassRef) (a : AssociationRef) : Edit Unit :=
  modify fun s => { s with classes := s.classes.modify c fun r => { r with association := some a } }

/-- The attributes come first, and the association last. -/
def createAssociationClass (name : Value) (attributes : List PropertyRef) (a : AssociationRef)
    (o : ClassOptions) : Edit ClassRef := do
  let r ← createClassOf true name { o with attributes }
  describeAssociation r a
  return r

/-- Without a multiplicity of its own, a property gets a fresh one of exactly one. -/
def multiplicityOrOne : Option MultiplicityRef → Edit MultiplicityRef
  | some m => pure m
  | none => enterMultiplicity .one

def createProperty (name : Value) (type : TypeSource) (o : PropertyOptions) : Edit PropertyRef := do
  let (r, l) ← beginElement .property name o.toNamedOptions
  let type ← resolve type
  check (·.checkPropertyOwner l.name o.owner)
  let multiplicity ← multiplicityOrOne o.multiplicity
  modify fun s =>
    { s.enroll r.element l o.timestamp with
      properties := s.properties.set r {
        type
        owner := o.owner
        multiplicity
        isComposite := o.isComposite.getD (.bool false)
        isNavigable := o.isNavigable.getD (.bool true)
        isId := o.isId.getD (.bool false)
        isReadOnly := o.isReadOnly.getD (.bool false) } }
  return r

def createParameter (name : Value) (type : TypeSource) (o : ParameterOptions) : Edit ParameterRef := do
  let (r, l) ← beginElement .parameter name o.toNamedOptions
  let type ← resolve type
  modify fun s =>
    { s.enroll r.element l o.timestamp with parameters := s.parameters.set r ⟨type, o.defaultValue⟩ }
  return r

def createMethod (name : Value) (o : MethodOptions) : Edit MethodRef := do
  let (r, l) ← beginElement .method name o.toNamedOptions
  let type ← resolve o.type.orVoid
  check (·.checkParameters (.ofList o.parameters))
  check (·.checkMethodOwner l.name o.owner)
  modify fun s =>
    { s.enroll r.element l o.timestamp with
      methods := s.methods.set r {
        type
        owner := o.owner
        parameters := .ofList o.parameters
        isAbstract := o.isAbstract.getD (.bool false)
        code := o.code.getD (.text "") } }
  return r

def createAssociation (isBinary : Bool) (name : Value) (ends : List PropertyRef) (o : NamedOptions) :
    Edit AssociationRef := do
  let (r, l) ← beginElement .association name o
  let classes ← check fun s => s.checkEnds l.name isBinary (.ofList ends)
  modify fun s =>
    { s.enroll r.element l o.timestamp with associations := s.associations.set r ⟨isBinary, ∅⟩ }
  linkEnds r (.ofList ends) classes
  return r

def createGeneralization (general specific : ClassRef) (timestamp : Option Int) :
    Edit GeneralizationRef := do
  let r : GeneralizationRef := ⟨← draw⟩
  check fun s =>
    if general = specific then .error (.selfGeneralization (specific.name s)) else .ok ()
  modify fun s =>
    { s.enter r.element timestamp with
      generalizations := s.generalizations.set r ⟨general, specific⟩
      classes := (s.classes.modify general (·.register r)).modify specific (·.register r) }
  return r

def createGeneralizationSet (name : Value) (generalizations : List GeneralizationRef)
    (o : GeneralizationSetOptions) : Edit GeneralizationSetRef := do
  let (r, l) ← beginElement .generalizationSet name o.toNamedOptions
  modify fun s =>
    { s.enroll r.element l o.timestamp with
      generalizationSets := s.generalizationSets.set r
        ⟨.ofList generalizations, o.isDisjoint, o.isComplete⟩ }
  return r

def createPackage (name : Value) (classes : List ClassRef) (o : NamedOptions) : Edit PackageRef := do
  let (r, l) ← beginElement .package name o
  modify fun s =>
    { s.enroll r.element l o.timestamp with packages := s.packages.set r ⟨.ofList classes⟩ }
  return r

def createConstraint (name : Value) (context : ClassRef) (expression : Value) (o : ConstraintOptions) :
    Edit ConstraintRef := do
  let (r, l) ← beginElement .constraint name o.toNamedOptions
  modify fun s =>
    { s.enroll r.element l o.timestamp with
      constraints := s.constraints.set r ⟨context, expression, o.language.getD (.text "OCL")⟩ }
  return r

def createModel (name : Value) (o : ModelOptions) : Edit ModelRef := do
  let (r, l) ← beginElement .model name o.toNamedOptions
  let types := Store.withPrimitives o.types
  let associations := OrderedSet.ofList o.associations
  let generalizations := OrderedSet.ofList o.generalizations
  let packages := OrderedSet.ofList o.packages
  let constraints := OrderedSet.ofList o.constraints
  acceptTypes l.name types
  acceptPackages packages
  acceptConstraints constraints
  acceptAssociations l.name associations
  modify fun s =>
    { s.enroll r.element l o.timestamp with
      models := s.models.set r { types, associations, generalizations, packages, constraints } }
  return r

end Edit

end ClassDiagram
