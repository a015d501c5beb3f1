import ClassDiagram.Edit

/-! Names, synonyms and visibilities of elements. -/

namespace ClassDiagram

/-- What can be said of any element besides its name. -/
structure NamedOptions where
  synonyms : Value := .missing
  visibility : Value := .missing
  timestamp : Option Int := none
  deriving Inhabited

/-- Any text is a name, but a primitive type has to bear one of the built-in names. -/
def Kind.checkName (kind : Kind) (name : Value) : Except Fault String :=
  match kind, name with
  | .primitiveType, .text s => if s ∈ Primitive.names then .ok s else .error (.unknownPrimitive name)
  | .primitiveType, _ => .error (.unknownPrimitive name)
  | _, .text s => .ok s
  | _, _ => .error .nameNotText

def Label.check (kind : Kind) (name : Value) (o : NamedOptions) : Except Fault Label := do
  let name ← kind.checkName name
  let visibility ← Visibility.ofValue (o.visibility.getD (.text Visibility.everyone.name))
  return ⟨name, o.synonyms.getD .null, visibility⟩

def Store.enroll (s : Store) (e : Element) (l : Label) (timestamp : Option Int) : Store :=
  (s.enter e timestamp).setLabel e.order l

namespace Edit

/-- The number goes first, so that an element refused for its name has used one up too. -/
def beginElement (kind : Kind) (name : Value) (o : NamedOptions) : Edit (Ref kind × Label) := do
  let n ← draw
  let l ← check fun _ => Label.check kind name o
  return (⟨n⟩, l)

def rename (e : Element) (name : Value) : Edit Unit := do
  let name ← check fun _ => e.kind.checkName name
  modify fun s => { s with labels := s.labels.modify e.order fun l => { l with name } }

def setVisibility (e : Element) (v : Value) : Edit Unit := do
  let visibility ← check fun _ => Visibility.ofValue v
  modify fun s => { s with labels := s.labels.modify e.order fun l => { l with visibility } }

def setSynonyms (e : Element) (synonyms : Value) : Edit Unit :=
  modify fun s => { s with labels := s.labels.modify e.order fun l => { l with synonyms } }

def setTimestamp (e : Element) (timestamp : Int) : Edit Unit :=
  modify fun s =>
    { s with headers := s.headers.modify e.order fun h => { h with timestamp := some timestamp } }

end Edit

end ClassDiagram
