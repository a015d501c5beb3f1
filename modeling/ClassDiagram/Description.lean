import ClassDiagram.Creation

/-! What an element shows of itself. -/

namespace ClassDiagram

inductive Datum where
  | nothing
  | value (v : Value)
  | element (e : Option Element)
  | elements (es : List Element)
  | multiplicity (m : MultiplicityRef)
  | timestamp (t : Option Int)
  deriving Inhabited

namespace Datum

def ref {kind : Kind} (r : Option (Ref kind)) : Datum := element (r.map Ref.element)

/-- A reference that was never made is missing, where one that was cleared is null. -/
def refOrMissing {kind : Kind} (r : Option (Ref kind)) : Datum :=
  match r with
  | some r => element (some r.element)
  | none => value .missing

def refs {kind : Kind} (rs : List (Ref kind)) : Datum := elements (rs.map Ref.element)

def type (t : TypeRef) : Datum := element (some t.element)

def text (s : String) : Datum := value (.text s)

end Datum

namespace Store

/-- The classifiers that an element is an instance of, from the most general to its own. -/
def classifiers (s : Store) (e : Element) : List String :=
  match e.kind with
  | .plainType => named ["Type"]
  | .dataType => named ["Type", "DataType"]
  | .primitiveType => named ["Type", "DataType", "PrimitiveDataType"]
  | .enumeration => named ["Type", "DataType", "Enumeration"]
  | .classType =>
    let isAssociationClass := (s.classes.get ⟨e.order⟩).isAssociationClass
    named (["Type", "Class"] ++ if isAssociationClass then ["AssociationClass"] else [])
  | .literal => named ["EnumerationLiteral"]
  | .property => named ["TypedElement", "Property"]
  | .parameter => named ["TypedElement", "Parameter"]
  | .method => named ["TypedElement", "Method"]
  | .association =>
    let isBinary := (s.associations.get ⟨e.order⟩).isBinary
    named ("Association" :: if isBinary then ["BinaryAssociation"] else [])
  | .generalization => ["Element", "Generalization"]
  | .generalizationSet => named ["GeneralizationSet"]
  | .package => named ["Package"]
  | .constraint => named ["Constraint"]
  | .model => named ["Model", "DomainModel"]
where
  named (own : List String) : List String := "Element" :: "NamedElement" :: own

def classifier (s : Store) (e : Element) : String := (s.classifiers e).getLastD "Element"

/-- The classifier of an element and its name. -/
def caption (s : Store) (e : Element) : String := s.classifier e ++ "(" ++ e.name s ++ ")"

def labelFields (s : Store) (order : Nat) : List (String × Datum) :=
  let l := s.labels.get order
  [("name", .text l.name), ("synonyms", .value l.synonyms), ("visibility", .text l.visibility.name)]

/-- The fields that only elements of one kind have. -/
def ownFields (s : Store) (e : Element) : List (String × Datum) :=
  match e.kind with
  | .plainType | .dataType | .primitiveType => []
  | .enumeration => [("literals", .refs (s.enumerations.get ⟨e.order⟩).literals.toList)]
  | .classType =>
    let r := s.classes.get ⟨e.order⟩
    [("isAbstract", .value r.isAbstract), ("isReadOnly", .value r.isReadOnly),
      ("attributes", .refs r.attributes.toList), ("methods", .refs r.methods.toList),
      ("associations", .refs r.associations.toList),
      ("generalizations", .refs r.generalizations.toList)] ++
      if r.isAssociationClass then [("association", .refOrMissing r.association)] else []
  | .literal => [("owner", .element ((s.literals.get ⟨e.order⟩).owner.map TypeRef.element))]
  | .property =>
    let r := s.properties.get ⟨e.order⟩
    [("type", .type r.type), ("owner", .element (r.owner.map Owner.element)),
      ("multiplicity", .multiplicity r.multiplicity), ("isComposite", .value r.isComposite),
      ("isNavigable", .value r.isNavigable), ("isId", .value r.isId), ("isReadOnly", .value r.isReadOnly)]
  | .parameter =>
    let r := s.parameters.get ⟨e.order⟩
    [("type", .type r.type), ("defaultValue", .value r.defaultValue)]
  | .method =>
    let r := s.methods.get ⟨e.order⟩
    [("type", .type r.type), ("owner", .element (r.owner.map TypeRef.element)),
      ("isAbstract", .value r.isAbstract), ("code", .value r.code),
      ("parameters", .refs r.parameters.toList)]
  | .association => [("ends", .refs (s.associations.get ⟨e.order⟩).ends.toList)]
  | .generalization =>
    let r := s.generalizations.get ⟨e.order⟩
    [("general", .ref (some r.general)), ("specific", .ref (some r.specific))]
  | .generalizationSet =>
    let r := s.generalizationSets.get ⟨e.order⟩
    [("generalizations", .refs r.generalizations.toList), ("isDisjoint", .value r.isDisjoint),
      ("isComplete", .value r.isComplete)]
  | .package => [("classes", .refs (s.packages.get ⟨e.order⟩).classes.toList)]
  | .constraint =>
    let r := s.constraints.get ⟨e.order⟩
    [("context", .ref (some r.context)), ("expression", .value r.expression),
      ("language", .value r.language)]
  | .model =>
    let r := s.models.get ⟨e.order⟩
    [("types", .elements (r.types.toList.map TypeRef.element)),
      ("associations", .refs r.associations.toList),
      ("generalizations", .refs r.generalizations.toList),
      ("packages", .refs r.packages.toList), ("constraints", .refs r.constraints.toList)]

def fields (s : Store) (e : Element) : List (String × Datum) :=
  ("timestamp", .timestamp (s.headers.get e.order).timestamp) ::
    ((if e.kind = .generalization then [] else s.labelFields e.order) ++ s.ownFields e)

end Store

def Multiplicity.fields (m : Multiplicity) : List (String × Datum) :=
  [("min", .value (.number (.ofNat m.lower))), ("max", .value (.number (.ofNat m.upper))),
    ("text", .text m.text), ("unbounded", .value (.bool m.isUnbounded))]

end ClassDiagram
