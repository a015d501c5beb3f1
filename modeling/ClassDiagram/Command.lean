import ClassDiagram.Description
import ClassDiagram.Inheritance

/-! The commands that a user can give, and the edit that each stands for. -/

namespace ClassDiagram

/-- What a user can hold on to. -/
inductive Item where
  | element (e : Element)
  | multiplicity (m : MultiplicityRef)
  deriving DecidableEq, Repr, Inhabited

inductive Construction where
  | multiplicity (lower upper : Value)
  | plainType (name : Value) (o : NamedOptions)
  | dataType (name : Value) (o : NamedOptions)
  | primitiveType (name : Value) (o : NamedOptions)
  | enumeration (name : Value) (o : EnumerationOptions)
  | literal (name : Value) (o : LiteralOptions)
  | classType (name : Value) (o : ClassOptions)
  | associationClass (name : Value) (attributes : List PropertyRef) (association : AssociationRef)
    (o : ClassOptions)
  | property (name : Value) (type : TypeSource) (o : PropertyOptions)
  | parameter (name : Value) (type : TypeSource) (o : ParameterOptions)
  | method (name : Value) (o : MethodOptions)
  | association (isBinary : Bool) (name : Value) (ends : List PropertyRef) (o : NamedOptions)
  | generalization (general specific : ClassRef) (timestamp : Option Int)
  | generalizationSet (name : Value) (generalizations : List GeneralizationRef)
    (o : GeneralizationSetOptions)
  | package (name : Value) (classes : List ClassRef) (o : NamedOptions)
  | constraint (name : Value) (context : ClassRef) (expression : Value) (o : ConstraintOptions)
  | model (name : Value) (o : ModelOptions)

inductive Assignment where
  | name (e : Element) (v : Value)
  | visibility (e : Element) (v : Value)
  | synonyms (e : Element) (v : Value)
  | timestamp (e : Element) (t : Int)
  | attributes (c : ClassRef) (l : List PropertyRef)
  | methods (c : ClassRef) (l : List MethodRef)
  | isAbstractClass (c : ClassRef) (v : Value)
  | isReadOnlyClass (c : ClassRef) (v : Value)
  | describedAssociation (c : ClassRef) (a : AssociationRef)
  | literals (e : EnumerationRef) (l : List LiteralRef)
  | literalOwner (l : LiteralRef) (o : Option TypeRef)
  | propertyType (p : PropertyRef) (t : TypeRef)
  | propertyOwner (p : PropertyRef) (o : Option Owner)
  | propertyMultiplicity (p : PropertyRef) (m : MultiplicityRef)
  | isComposite (p : PropertyRef) (v : Value)
  | isNavigable (p : PropertyRef) (v : Value)
  | isId (p : PropertyRef) (v : Value)
  | isReadOnlyProperty (p : PropertyRef) (v : Value)
  | parameterType (p : ParameterRef) (t : TypeRef)
  | defaultValue (p : ParameterRef) (v : Value)
  | methodType (m : MethodRef) (t : TypeRef)
  | methodOwner (m : MethodRef) (o : Option TypeRef)
  | parameters (m : MethodRef) (l : List ParameterRef)
  | isAbstractMethod (m : MethodRef) (v : Value)
  | code (m : MethodRef) (v : Value)
  | ends (a : AssociationRef) (l : List PropertyRef)
  | general (g : GeneralizationRef) (c : ClassRef)
  | specific (g : GeneralizationRef) (c : ClassRef)
  | groupedGeneralizations (g : GeneralizationSetRef) (l : List GeneralizationRef)
  | isDisjoint (g : GeneralizationSetRef) (v : Value)
  | isComplete (g : GeneralizationSetRef) (v : Value)
  | packagedClasses (p : PackageRef) (l : List ClassRef)
  | context (k : ConstraintRef) (c : ClassRef)
  | expression (k : ConstraintRef) (v : Value)
  | language (k : ConstraintRef) (v : Value)
  | types (m : ModelRef) (l : List TypeRef)
  | associations (m : ModelRef) (l : List AssociationRef)
  | generalizations (m : ModelRef) (l : List GeneralizationRef)
  | packages (m : ModelRef) (l : List PackageRef)
  | constraints (m : ModelRef) (l : List ConstraintRef)
  | lower (m : MultiplicityRef) (v : Value)
  | upper (m : MultiplicityRef) (v : Value)

inductive Call where
  | typeText (t : TypeRef)
  | multiplicityText (m : MultiplicityRef)
  | isUnbounded (m : MultiplicityRef)
  | addAttribute (c : ClassRef) (p : PropertyRef)
  | addMethod (c : ClassRef) (m : MethodRef)
  | attributeNamed (c : ClassRef) (name : Value)
  | methodNamed (c : ClassRef) (name : Value)
  | idAttribute (c : ClassRef)
  | parents (c : ClassRef)
  | allParents (c : ClassRef)
  | specializations (c : ClassRef)
  | allSpecializations (c : ClassRef)
  | inheritedAttributes (c : ClassRef)
  | allAttributes (c : ClassRef)
  | associationEnds (c : ClassRef)
  | allAssociationEnds (c : ClassRef)
  | addLiteral (e : EnumerationRef) (l : LiteralRef)
  | literalNamed (e : EnumerationRef) (name : Value)
  | addParameter (m : MethodRef) (p : ParameterRef)
  | parameterNamed (m : MethodRef) (name : Value)
  | otherEnd (a : AssociationRef) (p : PropertyRef)
  | addClass (p : PackageRef) (c : ClassRef)
  | addType (m : ModelRef) (t : TypeRef)
  | addAssociation (m : ModelRef) (a : AssociationRef)
  | addGeneralization (m : ModelRef) (g : GeneralizationRef)
  | addPackage (m : ModelRef) (p : PackageRef)
  | addConstraint (m : ModelRef) (k : ConstraintRef)
  | typeNamed (m : ModelRef) (name : Value)
  | classNamed (m : ModelRef) (name : Value)
  | associationNamed (m : ModelRef) (name : Value)
  | classes (m : ModelRef)
  | enumerations (m : ModelRef)
  | sortedClasses (m : ModelRef)
  | elements (m : ModelRef)
  | elementById (m : ModelRef) (id : Value)

/-- A handle given along is bound to the answer. -/
inductive Command where
  | create (handle : String) (c : Construction)
  | assign (a : Assignment)
  | call (c : Call)
  | read (on : Item) (field : String) (handle : Option String)
  | configure (ownerRelease listening : Option Bool)
  | resolve (source : TypeSource) (handle : Option String)
  | sort (es : List Element)

namespace Construction

def created {kind : Kind} (r : Ref kind) : Datum := .ref (some r)

def edit : Construction → Edit Datum
  | multiplicity lower upper => .multiplicity <$> Edit.createMultiplicity lower upper
  | plainType name o => created <$> Edit.createBare .plainType name o
  | dataType name o => created <$> Edit.createBare .dataType name o
  | primitiveType name o => created <$> Edit.createBare .primitiveType name o
  | enumeration name o => created <$> Edit.createEnumeration name o
  | literal name o => created <$> Edit.createLiteral name o
  | classType name o => created <$> Edit.createClass name o
  | associationClass name attributes a o =>
    created <$> Edit.createAssociationClass name attributes a o
  | property name type o => created <$> Edit.createProperty name type o
  | parameter name type o => created <$> Edit.createParameter name type o
  | method name o => created <$> Edit.createMethod name o
  | association isBinary name ends o => created <$> Edit.createAssociation isBinary name ends o
  | generalization general specific timestamp =>
    created <$> Edit.createGeneralization general specific timestamp
  | generalizationSet name generalizations o =>
    created <$> Edit.createGeneralizationSet name generalizations o
  | package name classes o => created <$> Edit.createPackage name classes o
  | constraint name context expression o => created <$> Edit.createConstraint name context expression o
  | model name o => created <$> Edit.createModel name o

end Construction

namespace Edit

def onClass (c : ClassRef) (f : ClassRecord → ClassRecord) : Edit Unit :=
  modify fun s => { s with classes := s.classes.modify c f }

def onProperty (p : PropertyRef) (f : PropertyRecord → PropertyRecord) : Edit Unit :=
  modify fun s => { s with properties := s.properties.modify p f }

def onParameter (p : ParameterRef) (f : ParameterRecord → ParameterRecord) : Edit Unit :=
  modify fun s => { s with parameters := s.parameters.modify p f }

def onMethod (m : MethodRef) (f : MethodRecord → MethodRecord) : Edit Unit :=
  modify fun s => { s with methods := s.methods.modify m f }

def onGeneralizationSet (g : GeneralizationSetRef)
    (f : GeneralizationSetRecord → GeneralizationSetRecord) : Edit Unit :=
  modify fun s => { s with generalizationSets := s.generalizationSets.modify g f }

def onPackage (p : PackageRef) (f : PackageRecord → PackageRecord) : Edit Unit :=
  modify fun s => { s with packages := s.packages.modify p f }

def onConstraint (k : ConstraintRef) (f : ConstraintRecord → ConstraintRecord) : Edit Unit :=
  modify fun s => { s with constraints := s.constraints.modify k f }

end Edit

def Assignment.edit : Assignment → Edit Unit
  | name e v => Edit.rename e v
  | visibility e v => Edit.setVisibility e v
  | synonyms e v => Edit.setSynonyms e v
  | timestamp e t => Edit.setTimestamp e t
  | attributes c l => Edit.replaceAttributes c l
  | methods c l => Edit.replaceMethods c l
  | isAbstractClass c v => Edit.onClass c fun r => { r with isAbstract := v }
  | isReadOnlyClass c v => Edit.onClass c fun r => { r with isReadOnly := v }
  | describedAssociation c a => Edit.describeAssociation c a
  | literals e l => Edit.replaceLiterals e l
  | literalOwner l o => Edit.setLiteralOwner l o
  | propertyType p t => Edit.onProperty p fun r => { r with type := t }
  | propertyOwner p o => Edit.setPropertyOwner p o
  | propertyMultiplicity p m => Edit.onProperty p fun r => { r with multiplicity := m }
  | isComposite p v => Edit.onProperty p fun r => { r with isComposite := v }
  | isNavigable p v => Edit.onProperty p fun r => { r with isNavigable := v }
  | isId p v => Edit.onProperty p fun r => { r with isId := v }
  | isReadOnlyProperty p v => Edit.onProperty p fun r => { r with isReadOnly := v }
  | parameterType p t => Edit.onParameter p fun r => { r with type := t }
  | defaultValue p v => Edit.onParameter p fun r => { r with defaultValue := v }
  | methodType m t => Edit.onMethod m fun r => { r with type := t }
  | methodOwner m o => Edit.setMethodOwner m o
  | parameters m l => Edit.replaceParameters m l
  | isAbstractMethod m v => Edit.onMethod m fun r => { r with isAbstract := v }
  | code m v => Edit.onMethod m fun r => { r with code := v }
  | ends a l => Edit.replaceEnds a l
  | general g c => Edit.setGeneral g c
  | specific g c => Edit.setSpecific g c
  | groupedGeneralizations g l =>
    Edit.onGeneralizationSet g fun r => { r with generalizations := .ofList l }
  | isDisjoint g v => Edit.onGeneralizationSet g fun r => { r with isDisjoint := v }
  | isComplete g v => Edit.onGeneralizationSet g fun r => { r with isComplete := v }
  | packagedClasses p l => Edit.onPackage p fun r => { r with classes := .ofList l }
  | context k c => Edit.onConstraint k fun r => { r with context := c }
  | expression k v => Edit.onConstraint k fun r => { r with expression := v }
  | language k v => Edit.onConstraint k fun r => { r with language := v }
  | types m l => Edit.replaceTypes m l
  | associations m l => Edit.replaceAssociations m l
  | generalizations m l => Edit.replaceGeneralizations m l
  | packages m l => Edit.replacePackages m l
  | constraints m l => Edit.replaceConstraints m l
  | lower m v => Edit.setLower m v
  | upper m v => Edit.setUpper m v

namespace Call

def done (x : Edit Unit) : Edit Datum := (fun _ => .nothing) <$> x

/-- Reads along generalizations, where a cycle is a fault. -/
def following {α : Type} (f : Store → Except (List ClassRef) α) (toDatum : α → Datum) : Edit Datum :=
  toDatum <$> Edit.check fun s => s.orCycle (f s)

def edit : Call → Edit Datum
  | typeText t => Edit.reading fun s => .text (s.caption t.element)
  | multiplicityText m => Edit.reading fun s => .text (s.multiplicities.get m).text
  | isUnbounded m => Edit.reading fun s => .value (.bool (s.multiplicities.get m).isUnbounded)
  | addAttribute c p => done (Edit.addAttribute c p)
  | addMethod c m => done (Edit.addMethod c m)
  | attributeNamed c name => Edit.reading fun s => .ref (s.named? (s.classes.get c).attributes name)
  | methodNamed c name => Edit.reading fun s => .ref (s.named? (s.classes.get c).methods name)
  | idAttribute c => Edit.reading fun s => .ref (s.idAttribute? c)
  | parents c => Edit.reading fun s => .refs (s.parents c).toList
  | allParents c => following (·.allParents c) .refs
  | specializations c => Edit.reading fun s => .refs (s.specializations c).toList
  | allSpecializations c => following (·.allSpecializations c) .refs
  | inheritedAttributes c => following (·.inheritedAttributes c) fun xs => .refs xs.toList
  | allAttributes c => following (·.allAttributes c) fun xs => .refs xs.toList
  | associationEnds c => Edit.reading fun s => .refs (s.associationEnds c).toList
  | allAssociationEnds c => following (·.allAssociationEnds c) fun xs => .refs xs.toList
  | addLiteral e l => done (Edit.addLiteral e l)
  | literalNamed e name => Edit.reading fun s => .ref (s.named? (s.enumerations.get e).literals name)
  | addParameter m p => done (Edit.addParameter m p)
  | parameterNamed m name => Edit.reading fun s => .ref (s.named? (s.methods.get m).parameters name)
  | otherEnd a p => Edit.reading fun s => .ref (s.otherEnd? a p)
  | addClass p c => done (Edit.onPackage p fun r => { r with classes := r.classes.insert c })
  | addType m t => done (Edit.addType m t)
  | addAssociation m a => done (Edit.addAssociation m a)
  | addGeneralization m g => done (Edit.addGeneralization m g)
  | addPackage m p => done (Edit.addPackage m p)
  | addConstraint m k => done (Edit.addConstraint m k)
  | typeNamed m name => Edit.reading fun s => .element ((s.typeNamed? m name).map TypeRef.element)
  | classNamed m name => Edit.reading fun s => .ref (s.classNamed? m name)
  | associationNamed m name => Edit.reading fun s => .ref (s.associationNamed? m name)
  | classes m => Edit.reading fun s => .refs (s.classesIn m)
  | enumerations m => Edit.reading fun s => .refs (s.enumerationsIn m)
  | sortedClasses m => .refs <$> Edit.sortClasses m
  | elements m => Edit.reading fun s => .elements (s.elementsOf m)
  | elementById m id => .element <$> Edit.check fun s => s.elementWithId m id

end Call

namespace Command

def fieldOf (s : Store) (field : String) : Item → Datum
  | .element e => ((s.fields e).lookup field).getD (.value .missing)
  | .multiplicity m => ((s.multiplicities.get m).fields.lookup field).getD (.value .missing)

/-- The answer to a change of settings is whether owner release is on. -/
def edit : Command → Edit Datum
  | create _ c => c.edit
  | assign a => (fun _ => .nothing) <$> a.edit
  | call c => c.edit
  | read on field _ => Edit.reading fun s => fieldOf s field on
  | configure ownerRelease listening => do
    modify fun s =>
      { s with
        ownerRelease := ownerRelease.getD s.ownerRelease
        listening := listening.getD s.listening }
    return .value (.bool (← get).ownerRelease)
  | resolve source _ => .type <$> Edit.resolve source
  | sort es => pure (.elements (Store.byCreation es))

end Command

end ClassDiagram
