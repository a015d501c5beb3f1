import ClassDiagram.Naming

/-! Attributes and methods of classes, literals of enumerations, parameters of methods, and who owns them. -/

namespace ClassDiagram

def PropertyRecord.release (p : PropertyRecord) (o : Owner) : PropertyRecord :=
  if p.owner = some o then { p with owner := none } else p

def MethodRecord.release (m : MethodRecord) (t : TypeRef) : MethodRecord :=
  if m.owner = some t then { m with owner := none } else m

def LiteralRecord.release (l : LiteralRecord) (t : TypeRef) : LiteralRecord :=
  if l.owner = some t then { l with owner := none } else l

namespace Store

def isId (s : Store) (p : PropertyRef) : Bool := (s.properties.get p).isId.truthy

def idAttribute? (s : Store) (c : ClassRef) : Option PropertyRef :=
  (s.classes.get c).attributes.toList.find? s.isId

/-- With owner release, members that are dropped lose the owner that drops them. -/
def setAttributes (s : Store) (c : ClassRef) (xs : OrderedSet PropertyRef) : Store :=
  let owner := Owner.type (.ofClass c)
  let dropped := (s.classes.get c).attributes.toList.filter (· ∉ xs)
  let released :=
    if s.ownerRelease then s.properties.modifyAll dropped (·.release owner) else s.properties
  { s with
    properties := released.modifyAll xs.toList fun p => { p with owner := some owner }
    classes := s.classes.modify c fun r => { r with attributes := xs } }

def setMethods (s : Store) (c : ClassRef) (xs : OrderedSet MethodRef) : Store :=
  let owner := TypeRef.ofClass c
  let dropped := (s.classes.get c).methods.toList.filter (· ∉ xs)
  let released := if s.ownerRelease then s.methods.modifyAll dropped (·.release owner) else s.methods
  { s with
    methods := released.modifyAll xs.toList fun m => { m with owner := some owner }
    classes := s.classes.modify c fun r => { r with methods := xs } }

def setLiterals (s : Store) (e : EnumerationRef) (xs : OrderedSet LiteralRef) : Store :=
  let owner := TypeRef.ofEnumeration e
  let dropped := (s.enumerations.get e).literals.toList.filter (· ∉ xs)
  let released := if s.ownerRelease then s.literals.modifyAll dropped (·.release owner) else s.literals
  { s with
    literals := released.modifyAll xs.toList fun l => { l with owner := some owner }
    enumerations := s.enumerations.modify e fun r => { r with literals := xs } }

def setParameters (s : Store) (m : MethodRef) (xs : OrderedSet ParameterRef) : Store :=
  { s with methods := s.methods.modify m fun r => { r with parameters := xs } }

def insertAttribute (s : Store) (c : ClassRef) (p : PropertyRef) : Store :=
  { s with
    properties := s.properties.modify p fun r => { r with owner := some (.type (.ofClass c)) }
    classes := s.classes.modify c fun r => { r with attributes := r.attributes.insert p } }

def insertMethod (s : Store) (c : ClassRef) (m : MethodRef) : Store :=
  { s with
    methods := s.methods.modify m fun r => { r with owner := some (.ofClass c) }
    classes := s.classes.modify c fun r => { r with methods := r.methods.insert m } }

def insertLiteral (s : Store) (e : EnumerationRef) (l : LiteralRef) : Store :=
  { s with
    literals := s.literals.modify l fun r => { r with owner := some (.ofEnumeration e) }
    enumerations := s.enumerations.modify e fun r => { r with literals := r.literals.insert l } }

def insertParameter (s : Store) (m : MethodRef) (p : ParameterRef) : Store :=
  { s with methods := s.methods.modify m fun r => { r with parameters := r.parameters.insert p } }

def namesOf {kind : Kind} (s : Store) (xs : OrderedSet (Ref kind)) : List String :=
  xs.toList.map (·.name s)

/-- The names in a collection that an element to be added must not bear. -/
def namesBeside {kind : Kind} (s : Store) (xs : OrderedSet (Ref kind)) (r : Ref kind) : List String :=
  (xs.toList.filter (· ≠ r)).map (·.name s)

def named? {kind : Kind} (s : Store) (xs : OrderedSet (Ref kind)) (name : Value) : Option (Ref kind) :=
  xs.toList.find? fun r => name.isText (r.name s)

/-- Names come before identifiers: a collection at fault in both is refused for its names. -/
def checkAttributes (s : Store) (className : String) (xs : OrderedSet PropertyRef) :
    Except Fault Unit := do
  uniqueNames "A class" "attributes" (s.namesOf xs)
  if 1 < xs.toList.countP s.isId then .error (.multipleIdentifiers className) else .ok ()

def checkMethods (s : Store) (xs : OrderedSet MethodRef) : Except Fault Unit :=
  uniqueNames "A class" "methods" (s.namesOf xs)

def checkLiterals (s : Store) (xs : OrderedSet LiteralRef) : Except Fault Unit :=
  uniqueNames "An enumeration" "literals" (s.namesOf xs)

def checkParameters (s : Store) (xs : OrderedSet ParameterRef) : Except Fault Unit :=
  uniqueNames "A method" "parameters" (s.namesOf xs)

/-- A second identifier is refused, a member that is the identifier already is not. -/
def checkNewAttribute (s : Store) (c : ClassRef) (p : PropertyRef) : Except Fault Unit := do
  let xs := (s.classes.get c).attributes
  freeName "A class" "attribute" (s.namesBeside xs p) (p.name s)
  if s.isId p ∧ p ∉ xs ∧ (s.idAttribute? c).isSome then .error (.multipleIdentifiers (c.name s))
  else .ok ()

def checkNewMethod (s : Store) (c : ClassRef) (m : MethodRef) : Except Fault Unit :=
  freeName "A class" "method" (s.namesBeside (s.classes.get c).methods m) (m.name s)

def checkNewLiteral (s : Store) (e : EnumerationRef) (l : LiteralRef) : Except Fault Unit :=
  freeName "An enumeration" "literal" (s.namesBeside (s.enumerations.get e).literals l) (l.name s)

def checkNewParameter (s : Store) (m : MethodRef) (p : ParameterRef) : Except Fault Unit :=
  freeName "A method" "parameter" (s.namesBeside (s.methods.get m).parameters p) (p.name s)

/-- Data types own no properties. -/
def checkPropertyOwner (s : Store) (property : String) (o : Option Owner) : Except Fault Unit :=
  match o with
  | some (.type t) => if t.isData then .error (.propertyOwner property (t.name s)) else .ok ()
  | _ => .ok ()

/-- Data types own no methods. -/
def checkMethodOwner (s : Store) (method : String) (o : Option TypeRef) : Except Fault Unit :=
  match o with
  | some t => if t.isData then .error (.methodOwner method (t.name s)) else .ok ()
  | none => .ok ()

/-- Primitive types own no literals. -/
def checkLiteralOwner (s : Store) (literal : String) (o : Option TypeRef) : Except Fault Unit :=
  match o with
  | some t => if t.isPrimitive then .error (.literalOwner literal (t.name s)) else .ok ()
  | none => .ok ()

end Store

namespace Edit

def replaceAttributes (c : ClassRef) (l : List PropertyRef) : Edit Unit := do
  check fun s => s.checkAttributes (c.name s) (.ofList l)
  modify (·.setAttributes c (.ofList l))

def replaceMethods (c : ClassRef) (l : List MethodRef) : Edit Unit := do
  check (·.checkMethods (.ofList l))
  modify (·.setMethods c (.ofList l))

def replaceLiterals (e : EnumerationRef) (l : List LiteralRef) : Edit Unit := do
  check (·.checkLiterals (.ofList l))
  modify (·.setLiterals e (.ofList l))

def replaceParameters (m : MethodRef) (l : List ParameterRef) : Edit Unit := do
  check (·.checkParameters (.ofList l))
  modify (·.setParameters m (.ofList l))

def addAttribute (c : ClassRef) (p : PropertyRef) : Edit Unit := do
  check (·.checkNewAttribute c p)
  modify (·.insertAttribute c p)

def addMethod (c : ClassRef) (m : MethodRef) : Edit Unit := do
  check (·.checkNewMethod c m)
  modify (·.insertMethod c m)

def addLiteral (e : EnumerationRef) (l : LiteralRef) : Edit Unit := do
  check (·.checkNewLiteral e l)
  modify (·.insertLiteral e l)

def addParameter (m : MethodRef) (p : ParameterRef) : Edit Unit := do
  check (·.checkNewParameter m p)
  modify (·.insertParameter m p)

def setPropertyOwner (p : PropertyRef) (owner : Option Owner) : Edit Unit := do
  check fun s => s.checkPropertyOwner (p.name s) owner
  modify fun s => { s with properties := s.properties.modify p fun r => { r with owner } }

def setMethodOwner (m : MethodRef) (owner : Option TypeRef) : Edit Unit := do
  check fun s => s.checkMethodOwner (m.name s) owner
  modify fun s => { s with methods := s.methods.modify m fun r => { r with owner } }

def setLiteralOwner (l : LiteralRef) (owner : Option TypeRef) : Edit Unit := do
  check fun s => s.checkLiteralOwner (l.name s) owner
  modify fun s => { s with literals := s.literals.modify l fun r => { r with owner } }

end Edit

end ClassDiagram
