import ClassDiagram.Proofs.Existence
import Mathlib.Logic.Relation

/-! All that a step can do to a store, together with what has been checked before it is done. -/

namespace ClassDiagram
open Relation Roster

/-- What a collection can ask something of: the name of an element, or what a property is. -/
inductive Facet where
  | name (e : Element)
  | type (p : PropertyRef)
  | isComposite (p : PropertyRef)
  | isId (p : PropertyRef)

def Assignment.facet? : Assignment → Option Facet
  | name e _ => some (.name e)
  | propertyType p _ => some (.type p)
  | isComposite p _ => some (.isComposite p)
  | isId p _ => some (.isId p)
  | _ => none

def Command.facet? : Command → Option Facet
  | assign a => a.facet?
  | _ => none

def Construction.givesOwner : Construction → Bool
  | literal _ o => o.owner.isSome
  | property _ _ o => o.owner.isSome
  | method _ o => o.owner.isSome
  | _ => false

def Assignment.givesOwner : Assignment → Bool
  | propertyOwner _ o => o.isSome
  | literalOwner _ o | methodOwner _ o => o.isSome
  | _ => false

/-- Whether a command names an owner that a member is to have. -/
def Command.givesOwner : Command → Bool
  | create _ c => c.givesOwner
  | assign a => a.givesOwner
  | _ => false

/-- What only some steps do, and when they may. -/
structure Leave where
  assign : Store → Facet → Prop
  giveOwner : Prop
  configure : Prop
  draw : Prop

def Leave.assigning (may : Store → Facet → Prop) : Leave := ⟨may, True, True, True⟩

def Leave.any : Leave := .assigning fun _ _ => True

def Label.Fits (l : Label) (kind : Kind) : Prop := ∃ name o, Label.check kind name o = .ok l

def Roster.enroll {kind : Kind} {ρ : Type} (k : Roster kind ρ) (s : Store) (r : Ref kind) (a : ρ) (l : Label)
    (timestamp : Option Int) : Store :=
  (k.put s ((k.table s).set r a)).enroll r.element l timestamp

namespace Store

structure Fresh {kind : Kind} (s : Store) (r : Ref kind) (l : Label) : Prop where
  spare : s.Spare r.order
  fits : l.Fits kind

/-- What leaves all elements alone that are there: to note, to give out a number, and to enter what stands by itself. -/
inductive Quiet (may : Leave) (s : Store) : Store → Prop where
  | noted (channel : Channel) (message : String) : s.Quiet may (s.noted channel message)
  | drawn (hmay : may.draw) : s.Quiet may { s with created := s.created + 1 }
  | bare {kind : Kind} {r : Ref kind} {l : Label} (timestamp : Option Int)
    (hkind : kind ∈ [.plainType, .dataType, .primitiveType]) (hr : s.Fresh r l) (hmay : may.draw) :
    s.Quiet may (s.enroll r.element l timestamp)
  | multiplicity {m : Multiplicity} (hm : m = .one ∨ ∃ lower upper, Multiplicity.ofBounds lower upper = .ok m)
    (hmay : may.draw) :
    s.Quiet may { s with
      multiplicityCount := s.multiplicityCount + 1
      multiplicities := s.multiplicities.set ⟨s.multiplicityCount⟩ m }

/--
One step of an edit: what it writes exists, it has passed the checks that come before it, and it does only what it may.
-/
inductive Change (may : Leave) (s : Store) : Store → Prop where
  | quiet {s' : Store} (h : s.Quiet may s') : s.Change may s'
  | configure (ownerRelease listening : Bool) (hmay : may.configure) : s.Change may { s with ownerRelease, listening }
  -- labels, timestamps and bounds
  | name {e : Element} {v : Value} {name : String} (he : s.contains e) (h : e.kind.checkName v = .ok name)
    (hmay : may.assign s (.name e)) :
    s.Change may { s with labels := s.labels.modify e.order fun l => { l with name } }
  | visibility {e : Element} {v : Value} {visibility : Visibility} (he : s.contains e)
    (h : Visibility.ofValue v = .ok visibility) :
    s.Change may { s with labels := s.labels.modify e.order fun l => { l with visibility } }
  | synonyms {e : Element} (synonyms : Value) (he : s.contains e) :
    s.Change may { s with labels := s.labels.modify e.order fun l => { l with synonyms } }
  | timestamp {e : Element} (t : Int) (he : s.contains e) :
    s.Change may { s with headers := s.headers.modify e.order fun h => { h with timestamp := some t } }
  | lower {m : MultiplicityRef} {v : Value} {bounds : Multiplicity}
    (h : (s.multiplicities.get m).setLower v = .ok bounds) :
    s.Change may { s with multiplicities := s.multiplicities.set m bounds }
  | upper {m : MultiplicityRef} {v : Value} {bounds : Multiplicity}
    (h : (s.multiplicities.get m).setUpper v = .ok bounds) :
    s.Change may { s with multiplicities := s.multiplicities.set m bounds }
  -- members
  | attributes {c : ClassRef} {xs : OrderedSet PropertyRef} (hc : s.holds (.ref c))
    (hx : ∀ i ∈ Item.refs xs.toList, s.holds i) (h : s.checkAttributes (c.name s) xs = .ok ()) :
    s.Change may (s.setAttributes c xs)
  | methods {c : ClassRef} {xs : OrderedSet MethodRef} (hc : s.holds (.ref c))
    (hx : ∀ i ∈ Item.refs xs.toList, s.holds i) (h : s.checkMethods xs = .ok ()) : s.Change may (s.setMethods c xs)
  | literals {e : EnumerationRef} {xs : OrderedSet LiteralRef} (he : s.holds (.ref e))
    (hx : ∀ i ∈ Item.refs xs.toList, s.holds i) (h : s.checkLiterals xs = .ok ()) : s.Change may (s.setLiterals e xs)
  | parameters {m : MethodRef} {xs : OrderedSet ParameterRef} (hm : s.holds (.ref m))
    (hx : ∀ i ∈ Item.refs xs.toList, s.holds i) (h : s.checkParameters xs = .ok ()) :
    s.Change may (s.setParameters m xs)
  | insertAttribute {c : ClassRef} {p : PropertyRef} (hc : s.holds (.ref c)) (hp : s.holds (.ref p))
    (h : s.checkNewAttribute c p = .ok ()) : s.Change may (s.insertAttribute c p)
  | insertMethod {c : ClassRef} {m : MethodRef} (hc : s.holds (.ref c)) (hm : s.holds (.ref m))
    (h : s.checkNewMethod c m = .ok ()) : s.Change may (s.insertMethod c m)
  | insertLiteral {e : EnumerationRef} {l : LiteralRef} (he : s.holds (.ref e)) (hl : s.holds (.ref l))
    (h : s.checkNewLiteral e l = .ok ()) : s.Change may (s.insertLiteral e l)
  | insertParameter {m : MethodRef} {p : ParameterRef} (hm : s.holds (.ref m)) (hp : s.holds (.ref p))
    (h : s.checkNewParameter m p = .ok ()) : s.Change may (s.insertParameter m p)
  | propertyOwner {p : PropertyRef} {owner : Option Owner} (hp : s.holds (.ref p))
    (ho : ∀ i ∈ Item.owners owner, s.holds i) (h : s.checkPropertyOwner (p.name s) owner = .ok ())
    (hmay : owner.isSome → may.giveOwner) :
    s.Change may { s with properties := s.properties.modify p fun r => { r with owner } }
  | methodOwner {m : MethodRef} {owner : Option TypeRef} (hm : s.holds (.ref m))
    (ho : ∀ i ∈ Item.types owner.toList, s.holds i) (h : s.checkMethodOwner (m.name s) owner = .ok ())
    (hmay : owner.isSome → may.giveOwner) :
    s.Change may { s with methods := s.methods.modify m fun r => { r with owner } }
  | literalOwner {l : LiteralRef} {owner : Option TypeRef} (hl : s.holds (.ref l))
    (ho : ∀ i ∈ Item.types owner.toList, s.holds i) (h : s.checkLiteralOwner (l.name s) owner = .ok ())
    (hmay : owner.isSome → may.giveOwner) :
    s.Change may { s with literals := s.literals.modify l fun r => { r with owner } }
  -- single fields
  | abstractClass (c : ClassRef) (v : Value) :
    s.Change may { s with classes := s.classes.modify c fun r => { r with isAbstract := v } }
  | readOnlyClass (c : ClassRef) (v : Value) :
    s.Change may { s with classes := s.classes.modify c fun r => { r with isReadOnly := v } }
  | describedAssociation {c : ClassRef} {a : AssociationRef} (hc : s.holds (.ref c)) (ha : s.holds (.ref a)) :
    s.Change may { s with classes := s.classes.modify c fun r => { r with association := some a } }
  | propertyType {p : PropertyRef} {t : TypeRef} (hp : s.holds (.ref p)) (ht : s.holds (.type t))
    (hmay : may.assign s (.type p)) :
    s.Change may { s with properties := s.properties.modify p fun r => { r with type := t } }
  | propertyMultiplicity {p : PropertyRef} {m : MultiplicityRef} (hp : s.holds (.ref p))
    (hm : s.holds (.multiplicity m)) :
    s.Change may { s with properties := s.properties.modify p fun r => { r with multiplicity := m } }
  | composite (p : PropertyRef) (v : Value) (hmay : may.assign s (.isComposite p)) :
    s.Change may { s with properties := s.properties.modify p fun r => { r with isComposite := v } }
  | navigable (p : PropertyRef) (v : Value) :
    s.Change may { s with properties := s.properties.modify p fun r => { r with isNavigable := v } }
  | identifying (p : PropertyRef) (v : Value) (hmay : may.assign s (.isId p)) :
    s.Change may { s with properties := s.properties.modify p fun r => { r with isId := v } }
  | readOnlyProperty (p : PropertyRef) (v : Value) :
    s.Change may { s with properties := s.properties.modify p fun r => { r with isReadOnly := v } }
  | parameterType {p : ParameterRef} {t : TypeRef} (hp : s.holds (.ref p)) (ht : s.holds (.type t)) :
    s.Change may { s with parameters := s.parameters.modify p fun r => { r with type := t } }
  | defaultValue (p : ParameterRef) (v : Value) :
    s.Change may { s with parameters := s.parameters.modify p fun r => { r with defaultValue := v } }
  | methodType {m : MethodRef} {t : TypeRef} (hm : s.holds (.ref m)) (ht : s.holds (.type t)) :
    s.Change may { s with methods := s.methods.modify m fun r => { r with type := t } }
  | abstractMethod (m : MethodRef) (v : Value) :
    s.Change may { s with methods := s.methods.modify m fun r => { r with isAbstract := v } }
  | code (m : MethodRef) (v : Value) :
    s.Change may { s with methods := s.methods.modify m fun r => { r with code := v } }
  | context {k : ConstraintRef} {c : ClassRef} (hk : s.holds (.ref k)) (hc : s.holds (.ref c)) :
    s.Change may { s with constraints := s.constraints.modify k fun r => { r with context := c } }
  | expression (k : ConstraintRef) (v : Value) :
    s.Change may { s with constraints := s.constraints.modify k fun r => { r with expression := v } }
  | language (k : ConstraintRef) (v : Value) :
    s.Change may { s with constraints := s.constraints.modify k fun r => { r with language := v } }
  -- links
  | ends {a : AssociationRef} {xs : OrderedSet PropertyRef} {cs : List ClassRef} (ha : s.holds (.ref a))
    (hx : ∀ i ∈ Item.refs xs.toList, s.holds i)
    (h : s.checkEnds (a.name s) (s.associations.get a).isBinary xs = .ok cs) : s.Change may (s.setEnds a xs cs)
  | general {g : GeneralizationRef} {c : ClassRef} (hg : s.holds (.ref g)) (hc : s.holds (.ref c))
    (h : s.checkGeneral g c = .ok ()) : s.Change may (s.setGeneral g c)
  | specific {g : GeneralizationRef} {c : ClassRef} (hg : s.holds (.ref g)) (hc : s.holds (.ref c))
    (h : s.checkSpecific g c = .ok ()) : s.Change may (s.setSpecific g c)
  | grouped {g : GeneralizationSetRef} {xs : OrderedSet GeneralizationRef} (hg : s.holds (.ref g))
    (hx : ∀ i ∈ Item.refs xs.toList, s.holds i) :
    s.Change may { s with
      generalizationSets := s.generalizationSets.modify g fun r => { r with generalizations := xs } }
  | disjoint (g : GeneralizationSetRef) (v : Value) :
    s.Change may { s with generalizationSets := s.generalizationSets.modify g fun r => { r with isDisjoint := v } }
  | complete (g : GeneralizationSetRef) (v : Value) :
    s.Change may { s with generalizationSets := s.generalizationSets.modify g fun r => { r with isComplete := v } }
  -- packages and models
  | packaged {p : PackageRef} {xs : OrderedSet ClassRef} (hp : s.holds (.ref p))
    (hx : ∀ i ∈ Item.refs xs.toList, s.holds i) :
    s.Change may { s with packages := s.packages.modify p fun r => { r with classes := xs } }
  | insertPackaged {p : PackageRef} {c : ClassRef} (hp : s.holds (.ref p)) (hc : s.holds (.ref c)) :
    s.Change may { s with packages := s.packages.modify p fun r => { r with classes := r.classes.insert c } }
  | types {m : ModelRef} {l : List TypeRef} (hm : s.holds (.ref m)) (hl : ∀ i ∈ Item.types l, s.holds i)
    (h : uniqueNames "The model" "types" (s.typeNames (withPrimitives l)) = .ok ()) :
    s.Change may (s.setTypes m (withPrimitives l))
  | associations {m : ModelRef} {xs : OrderedSet AssociationRef} (hm : s.holds (.ref m))
    (hx : ∀ i ∈ Item.refs xs.toList, s.holds i)
    (h : uniqueNames "The model" "associations" (s.namesOf xs) = .ok ()) : s.Change may (s.setAssociations m xs)
  | generalizations {m : ModelRef} {xs : OrderedSet GeneralizationRef} (hm : s.holds (.ref m))
    (hx : ∀ i ∈ Item.refs xs.toList, s.holds i) : s.Change may (s.setGeneralizations m xs)
  | packages {m : ModelRef} {xs : OrderedSet PackageRef} (hm : s.holds (.ref m))
    (hx : ∀ i ∈ Item.refs xs.toList, s.holds i)
    (h : uniqueNames "The model" "packages" (s.namesOf xs) = .ok ()) : s.Change may (s.setPackages m xs)
  | constraints {m : ModelRef} {xs : OrderedSet ConstraintRef} (hm : s.holds (.ref m))
    (hx : ∀ i ∈ Item.refs xs.toList, s.holds i)
    (h : uniqueNames "The model" "constraints" (s.namesOf xs) = .ok ()) : s.Change may (s.setConstraints m xs)
  -- new elements
  | newEnumeration {r : EnumerationRef} {xs : OrderedSet LiteralRef} (l : Label) (timestamp : Option Int)
    (hr : s.Fresh r l) (hx : ∀ i ∈ Item.refs xs.toList, s.holds i) (h : s.checkLiterals xs = .ok ())
    (hmay : may.draw) :
    s.Change may ((Roster.enumerations.enroll s r default l timestamp).setLiterals r xs)
  | newLiteral {r : LiteralRef} {owner : Option TypeRef} (l : Label) (timestamp : Option Int) (hr : s.Fresh r l)
    (ho : ∀ i ∈ Item.types owner.toList, s.holds i) (h : s.checkLiteralOwner l.name owner = .ok ())
    (hmay : may.draw) (hgive : owner.isSome → may.giveOwner) :
    s.Change may (Roster.literals.enroll s r ⟨owner⟩ l timestamp)
  | newClass {r : ClassRef} {xs : OrderedSet PropertyRef} (l : Label) (timestamp : Option Int)
    (isAbstract isReadOnly : Value) (isAssociationClass : Bool) (hr : s.Fresh r l)
    (hx : ∀ i ∈ Item.refs xs.toList, s.holds i) (h : s.checkAttributes l.name xs = .ok ()) (hmay : may.draw) :
    s.Change may ((Roster.classes.enroll s r
      { (default : ClassRecord) with isAbstract, isReadOnly, isAssociationClass } l timestamp).setAttributes r xs)
  | newProperty {r : PropertyRef} {record : PropertyRecord} (l : Label) (timestamp : Option Int)
    (hr : s.Fresh r l) (ha : ∀ i ∈ record.items, s.holds i)
    (h : s.checkPropertyOwner l.name record.owner = .ok ()) (hmay : may.draw)
    (hgive : record.owner.isSome → may.giveOwner) :
    s.Change may (Roster.properties.enroll s r record l timestamp)
  | newParameter {r : ParameterRef} {record : ParameterRecord} (l : Label) (timestamp : Option Int)
    (hr : s.Fresh r l) (ha : ∀ i ∈ record.items, s.holds i) (hmay : may.draw) :
    s.Change may (Roster.parameters.enroll s r record l timestamp)
  | newMethod {r : MethodRef} {record : MethodRecord} (l : Label) (timestamp : Option Int)
    (hr : s.Fresh r l) (ha : ∀ i ∈ record.items, s.holds i) (hp : s.checkParameters record.parameters = .ok ())
    (ho : s.checkMethodOwner l.name record.owner = .ok ()) (hmay : may.draw)
    (hgive : record.owner.isSome → may.giveOwner) :
    s.Change may (Roster.methods.enroll s r record l timestamp)
  | newAssociation {r : AssociationRef} {xs : OrderedSet PropertyRef} {cs : List ClassRef} (isBinary : Bool)
    (l : Label) (timestamp : Option Int) (hr : s.Fresh r l) (hx : ∀ i ∈ Item.refs xs.toList, s.holds i)
    (h : s.checkEnds l.name isBinary xs = .ok cs) (hmay : may.draw) :
    s.Change may ((Roster.associations.enroll s r ⟨isBinary, ∅⟩ l timestamp).setEnds r xs cs)
  | newGeneralization {r : GeneralizationRef} {general specific : ClassRef} (timestamp : Option Int)
    (hr : s.Spare r.order) (hg : s.holds (.ref general)) (hs : s.holds (.ref specific)) (h : general ≠ specific)
    (hmay : may.draw) :
    s.Change may { s.enter r.element timestamp with
      generalizations := s.generalizations.set r ⟨general, specific⟩
      classes := (s.classes.modify general (·.register r)).modify specific (·.register r) }
  | newGeneralizationSet {r : GeneralizationSetRef} {record : GeneralizationSetRecord} (l : Label)
    (timestamp : Option Int) (hr : s.Fresh r l) (ha : ∀ i ∈ record.items, s.holds i) (hmay : may.draw) :
    s.Change may (Roster.generalizationSets.enroll s r record l timestamp)
  | newPackage {r : PackageRef} {record : PackageRecord} (l : Label) (timestamp : Option Int) (hr : s.Fresh r l)
    (ha : ∀ i ∈ record.items, s.holds i) (hmay : may.draw) :
    s.Change may (Roster.packages.enroll s r record l timestamp)
  | newConstraint {r : ConstraintRef} {record : ConstraintRecord} (l : Label) (timestamp : Option Int)
    (hr : s.Fresh r l) (ha : ∀ i ∈ record.items, s.holds i) (hmay : may.draw) :
    s.Change may (Roster.constraints.enroll s r record l timestamp)
  | newModel {r : ModelRef} {record : ModelRecord} (l : Label) (timestamp : Option Int) (hr : s.Fresh r l)
    (ha : ∀ i ∈ record.items, s.holds i) (hprimitive : ∀ p : Primitive, p.type ∈ record.types)
    (ht : uniqueNames "The model" "types" (s.typeNames record.types) = .ok ())
    (has : uniqueNames "The model" "associations" (s.namesOf record.associations) = .ok ())
    (hp : uniqueNames "The model" "packages" (s.namesOf record.packages) = .ok ())
    (hc : uniqueNames "The model" "constraints" (s.namesOf record.constraints) = .ok ()) (hmay : may.draw) :
    s.Change may (Roster.models.enroll s r record l timestamp)

variable {may : Leave} {s s' s'' : Store}

theorem itemsOf_bare {e : Element} (he : e.kind ∈ [.plainType, .dataType, .primitiveType]) : s.itemsOf e = [] := by
  obtain ⟨kind, n⟩ := e
  cases kind <;> first | rfl | simp at he

theorem Sound.enrollBare (h : s.Sound) {e : Element} (he : s.Spare e.order) (hi : s.itemsOf e = []) (l : Label)
    (timestamp : Option Int) : s.Grows (s.enroll e l timestamp) := by
  have henter := h.enter he (fun i hm => by rw [hi] at hm; cases hm) timestamp
  exact henter.trans (henter.sound.labels _)

theorem Sound.newGeneralization (h : s.Sound) {r : GeneralizationRef} {general specific : ClassRef}
    (hr : s.Spare r.order) (hg : s.holds (.ref general)) (hs : s.holds (.ref specific)) (timestamp : Option Int) :
    s.Grows { s.enter r.element timestamp with
      generalizations := s.generalizations.set r ⟨general, specific⟩
      classes := (s.classes.modify general (·.register r)).modify specific (·.register r) } := by
  have hends : ∀ i ∈ [Item.ref general, .ref specific], s.holds i :=
    List.forall_mem_cons.2 ⟨hg, fun i hi => List.mem_singleton.1 hi ▸ hs⟩
  have henter := grows_enter (k := Roster.generalizations) h hr (a := ⟨general, specific⟩) hends timestamp
  refine henter.trans (grows_put (k := Roster.classes) henter.sound
    (Extends.trans (Adds.modify ?_ _) (Adds.modify ?_ _)))
  · exact adds_register contains_enter_self
  · exact adds_register contains_enter_self

theorem Quiet.grows (h : s.Sound) (hs : s.Quiet may s') : s.Grows s' := by
  cases hs with
  | noted channel message => exact h.noted channel message
  | drawn => exact h.draw
  | bare timestamp hkind hr => exact h.enrollBare hr.spare (itemsOf_bare hkind) _ timestamp
  | multiplicity hm => exact h.enterMultiplicity _

theorem Change.grows (h : s.Sound) (hs : s.Change may s') : s.Grows s' := by
  have hnone : ∀ i ∈ ([] : List Item), s.holds i := fun i hi => nomatch hi
  cases hs with
  | quiet hs => exact hs.grows h
  | configure ownerRelease listening => exact h.configure ownerRelease listening
  | name | visibility | synonyms => exact h.labels _
  | timestamp t he => exact h.setTimestamp he t
  | lower | upper => exact h.setMultiplicities _
  | attributes hc hx => exact h.setAttributes hc hx
  | methods hc hx => exact h.setMethods hc hx
  | literals he hx => exact h.setLiterals he hx
  | parameters hm hx => exact grows_modify h (adds_parameters hx) _
  | insertAttribute hc hp => exact h.insertAttribute hc hp
  | insertMethod hc hm => exact h.insertMethod hc hm
  | insertLiteral he hl => exact h.insertLiteral he hl
  | insertParameter hm hp => exact grows_modify h (adds_parameter hp) _
  | propertyOwner hp ho => exact grows_modify h (adds_propertyOwner ho) _
  | methodOwner hm ho => exact grows_modify h (adds_methodOwner ho) _
  | literalOwner hl ho => exact grows_modify h (adds_literalOwner ho) _
  | abstractClass c v | readOnlyClass c v => exact grows_flag Roster.classes _ (by intro r; rfl) h c
  | describedAssociation hc ha => exact grows_modify h (adds_association ha) _
  | propertyType hp ht => exact grows_modify h (adds_propertyType ht) _
  | propertyMultiplicity hp hm => exact grows_modify h (adds_propertyMultiplicity hm) _
  | composite p v | navigable p v | identifying p v | readOnlyProperty p v =>
    exact grows_flag Roster.properties _ (by intro r; rfl) h p
  | parameterType hp ht => exact grows_modify h (adds_parameterType ht) _
  | defaultValue p v => exact grows_flag Roster.parameters _ (by intro r; rfl) h p
  | methodType hm ht => exact grows_modify h (adds_methodType ht) _
  | abstractMethod m v | code m v => exact grows_flag Roster.methods _ (by intro r; rfl) h m
  | context hk hc => exact grows_modify h (adds_context hc) _
  | expression k v | language k v => exact grows_flag Roster.constraints _ (by intro r; rfl) h k
  | ends ha hx => exact h.setEnds _ ha hx
  | general hg hc => exact h.setGeneral hg hc
  | specific hg hc => exact h.setSpecific hg hc
  | grouped hg hx => exact grows_modify h (adds_grouped hx) _
  | disjoint g v | complete g v => exact grows_flag Roster.generalizationSets _ (by intro r; rfl) h g
  | packaged hp hx => exact grows_modify h (adds_packaged hx) _
  | insertPackaged hp hc => exact grows_modify h (adds_packagedClass hc) _
  | types hm hl => exact grows_modify h (adds_modelTypes (h.holds_withPrimitives hl)) _
  | associations hm hx => exact grows_modify h (adds_modelAssociations hx) _
  | generalizations hm hx => exact grows_modify h (adds_modelGeneralizations hx) _
  | packages hm hx => exact grows_modify h (adds_modelPackages hx) _
  | constraints hm hx => exact grows_modify h (adds_modelConstraints hx) _
  | newEnumeration l timestamp hr hx =>
    have henroll := h.enroll Roster.enumerations hr.spare (a := default) hnone l timestamp
    exact henroll.trans (henroll.sound.setLiterals contains_enter_self (henroll.all hx))
  | newLiteral l timestamp hr ho => exact h.enroll Roster.literals hr.spare ho l timestamp
  | newClass l timestamp isAbstract isReadOnly isAssociationClass hr hx =>
    have henroll := h.enroll Roster.classes hr.spare
      (a := { (default : ClassRecord) with isAbstract, isReadOnly, isAssociationClass }) hnone l timestamp
    exact henroll.trans (henroll.sound.setAttributes contains_enter_self (henroll.all hx))
  | newProperty l timestamp hr ha => exact h.enroll Roster.properties hr.spare ha l timestamp
  | newParameter l timestamp hr ha => exact h.enroll Roster.parameters hr.spare ha l timestamp
  | newMethod l timestamp hr ha => exact h.enroll Roster.methods hr.spare ha l timestamp
  | newAssociation isBinary l timestamp hr hx =>
    have henroll := h.enroll Roster.associations hr.spare (a := ⟨isBinary, ∅⟩) hnone l timestamp
    exact henroll.trans (henroll.sound.setEnds _ contains_enter_self (henroll.all hx))
  | newGeneralization timestamp hr hg hs => exact h.newGeneralization hr hg hs timestamp
  | newGeneralizationSet l timestamp hr ha => exact h.enroll Roster.generalizationSets hr.spare ha l timestamp
  | newPackage l timestamp hr ha => exact h.enroll Roster.packages hr.spare ha l timestamp
  | newConstraint l timestamp hr ha => exact h.enroll Roster.constraints hr.spare ha l timestamp
  | newModel l timestamp hr ha => exact h.enroll Roster.models hr.spare ha l timestamp

def Reaches (may : Leave) (s s' : Store) : Prop := ReflTransGen (Change may) s s'

def Stays (may : Leave) (s s' : Store) : Prop := ReflTransGen (Quiet may) s s'

theorem Reaches.trans (h : s.Reaches may s') (h' : s'.Reaches may s'') : s.Reaches may s'' := ReflTransGen.trans h h'

theorem Stays.trans (h : s.Stays may s') (h' : s'.Stays may s'') : s.Stays may s'' := ReflTransGen.trans h h'

theorem Change.reaches (h : s.Change may s') : s.Reaches may s' := ReflTransGen.single h

theorem Quiet.stays (h : s.Quiet may s') : s.Stays may s' := ReflTransGen.single h

theorem Stays.refl : s.Stays may s := ReflTransGen.refl

theorem Reaches.refl : s.Reaches may s := ReflTransGen.refl

theorem Stays.reaches (h : s.Stays may s') : s.Reaches may s' := ReflTransGen.mono (fun _ _ => Change.quiet) _ _ h

theorem Reaches.grows (h : s.Reaches may s') (hs : s.Sound) : s.Grows s' := by
  induction h with
  | refl => exact hs.refl
  | tail _ hc ih => exact ih.trans (hc.grows ih.sound)

theorem Stays.grows (h : s.Stays may s') (hs : s.Sound) : s.Grows s' := by
  have hr : s.Reaches may s' := h.reaches
  exact hr.grows hs

theorem Reaches.induction {P : Store → Prop} (h : s.Reaches may s') (hs : s.Sound)
    (hchange : ∀ s s' : Store, s.Sound → s.Change may s' → P s → P s') (hP : P s) : P s' := by
  induction h with
  | refl => exact hP
  | tail hr hc ih => exact hchange _ _ (Reaches.grows hr hs).sound hc ih

end Store

end ClassDiagram
