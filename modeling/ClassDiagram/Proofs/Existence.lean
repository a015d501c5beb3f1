import ClassDiagram.Proofs.Roster

/-! Commands that mention only what exists leave a store in which whatever is referred to exists. -/

namespace ClassDiagram

namespace Item

theorem mem_refs {kind : Kind} {i : Item} {l : List (Ref kind)} : i ∈ refs l ↔ ∃ r ∈ l, ref r = i := List.mem_map

theorem mem_types {i : Item} {l : List TypeRef} : i ∈ types l ↔ ∃ t ∈ l, type t = i := List.mem_map

theorem mem_refs_ofList {kind : Kind} {i : Item} {l : List (Ref kind)} :
    i ∈ refs (OrderedSet.ofList l).toList ↔ i ∈ refs l := by
  simp only [mem_refs, ← OrderedSet.mem_def, OrderedSet.mem_ofList]

theorem mem_refs_insert {kind : Kind} {i : Item} {r : Ref kind} {xs : OrderedSet (Ref kind)} :
    i ∈ refs (xs.insert r).toList ↔ i ∈ refs xs.toList ∨ i = ref r := by
  simp only [mem_refs, ← OrderedSet.mem_def, OrderedSet.mem_insert]
  constructor
  · intro h
    obtain ⟨x, hx, rfl⟩ := h
    rcases hx with hx | rfl
    · exact Or.inl ⟨x, hx, rfl⟩
    · exact Or.inr rfl
  · intro h
    rcases h with ⟨x, hx, rfl⟩ | rfl
    · exact ⟨x, Or.inl hx, rfl⟩
    · exact ⟨r, Or.inr rfl, rfl⟩

theorem mem_refs_of_erase {kind : Kind} {i : Item} {r : Ref kind} {xs : OrderedSet (Ref kind)}
    (h : i ∈ refs (xs.erase r).toList) : i ∈ refs xs.toList := by
  simp only [mem_refs, ← OrderedSet.mem_def, OrderedSet.mem_erase] at h ⊢
  obtain ⟨x, ⟨_, hx⟩, rfl⟩ := h
  exact ⟨x, hx, rfl⟩

end Item

namespace Store
variable {s : Store} {kind : Kind} {r : Ref kind} {xs : OrderedSet (Ref kind)}

theorem gains_insert (h : s.holds (.ref r)) :
    s.Gains (Item.refs xs.toList) (Item.refs (xs.insert r).toList) := by
  intro i hi
  rcases Item.mem_refs_insert.1 hi with hi | hi
  · exact Or.inl hi
  · rw [hi]
    exact Or.inr h

theorem gains_erase : s.Gains (Item.refs xs.toList) (Item.refs (xs.erase r).toList) :=
  fun _ hi => Or.inl (Item.mem_refs_of_erase hi)

theorem gains_ref {l : List Item} (h : s.holds (.ref r)) : s.Gains l (Item.refs (some r).toList) :=
  gains_of_holds (List.forall_mem_singleton.2 h)

theorem gains_nil {l : List Item} : s.Gains l [] := gains_of_holds fun _ hi => nomatch hi

end Store

namespace Roster
open Store (Gains gains_of_holds gains_insert gains_erase gains_ref gains_nil)
variable {s : Store}

theorem grows_flag {kind : Kind} {ρ : Type} [Inhabited ρ] (k : Roster kind ρ) [k.Lawful] (f : ρ → ρ)
    (hf : ∀ a, k.items (f a) = k.items a) (h : s.Sound) (r : Ref kind) :
    s.Grows (k.put s ((k.table s).modify r f)) := by
  have hadds : k.Adds s f := by
    intro a
    rw [hf a]
    exact .refl
  exact grows_modify h hadds r

theorem adds_attributes {xs : OrderedSet PropertyRef} (h : ∀ i ∈ Item.refs xs.toList, s.holds i) :
    classes.Adds s fun r => { r with attributes := xs } := by
  intro r
  exact ((((gains_of_holds h).append .refl).append .refl).append .refl).append .refl

theorem adds_methods {xs : OrderedSet MethodRef} (h : ∀ i ∈ Item.refs xs.toList, s.holds i) :
    classes.Adds s fun r => { r with methods := xs } := by
  intro r
  exact (((Gains.refl.append (gains_of_holds h)).append .refl).append .refl).append .refl

theorem adds_attribute {p : PropertyRef} (h : s.holds (.ref p)) :
    classes.Adds s fun r => { r with attributes := r.attributes.insert p } := by
  intro r
  exact ((((gains_insert h).append .refl).append .refl).append .refl).append .refl

theorem adds_method {m : MethodRef} (h : s.holds (.ref m)) :
    classes.Adds s fun r => { r with methods := r.methods.insert m } := by
  intro r
  exact (((Gains.refl.append (gains_insert h)).append .refl).append .refl).append .refl

theorem adds_link {a : AssociationRef} (h : s.holds (.ref a)) : classes.Adds s (·.link a) := by
  intro r
  exact ((Gains.refl.append (gains_insert h)).append .refl).append .refl

theorem adds_unlink (a : AssociationRef) : classes.Adds s (·.unlink a) := by
  intro r
  exact ((Gains.refl.append gains_erase).append .refl).append .refl

theorem adds_register {g : GeneralizationRef} (h : s.holds (.ref g)) : classes.Adds s (·.register g) := by
  intro r
  exact (Gains.refl.append (gains_insert h)).append .refl

theorem adds_unregister (g : GeneralizationRef) : classes.Adds s (·.unregister g) := by
  intro r
  exact (Gains.refl.append gains_erase).append .refl

theorem extends_relink {a : AssociationRef} (h : s.holds (.ref a)) (old new : List ClassRef)
    (t : Table ClassRef ClassRecord) :
    classes.Extends s t ((t.modifyAll old (·.unlink a)).modifyAll new (·.link a)) := by
  have hunlink := (adds_unlink (s := s) a).modifyAll (t := t) old
  exact hunlink.trans ((adds_link h).modifyAll new)

theorem extends_rewire {g : GeneralizationRef} (h : s.holds (.ref g)) (old new : ClassRef)
    (t : Table ClassRef ClassRecord) :
    classes.Extends s t ((t.modify old (·.unregister g)).modify new (·.register g)) := by
  have hunregister := (adds_unregister (s := s) g).modify (t := t) old
  exact hunregister.trans ((adds_register h).modify new)

theorem adds_association {a : AssociationRef} (h : s.holds (.ref a)) :
    classes.Adds s fun r => { r with association := some a } := by
  intro r
  exact Gains.refl.append (gains_ref h)

theorem adds_literals {xs : OrderedSet LiteralRef} (h : ∀ i ∈ Item.refs xs.toList, s.holds i) :
    enumerations.Adds s fun r => { r with literals := xs } := fun _ => gains_of_holds h

theorem adds_literal {l : LiteralRef} (h : s.holds (.ref l)) :
    enumerations.Adds s fun r => { r with literals := r.literals.insert l } := fun _ => gains_insert h

theorem adds_literalOwner {o : Option TypeRef} (h : ∀ i ∈ Item.types o.toList, s.holds i) :
    literals.Adds s fun r => { r with owner := o } := fun _ => gains_of_holds h

theorem adds_propertyType {t : TypeRef} (h : s.holds (.type t)) :
    properties.Adds s fun r => { r with type := t } := fun r => Gains.refl.cons_of_holds (.type r.type) h

theorem adds_propertyMultiplicity {m : MultiplicityRef} (h : s.holds (.multiplicity m)) :
    properties.Adds s fun r => { r with multiplicity := m } := by
  intro r
  exact (Gains.refl.cons_of_holds (.multiplicity r.multiplicity) h).cons (.type r.type)

theorem adds_propertyOwner {o : Option Owner} (h : ∀ i ∈ Item.owners o, s.holds i) :
    properties.Adds s fun r => { r with owner := o } := by
  intro r
  exact ((gains_of_holds h).cons (.multiplicity r.multiplicity)).cons (.type r.type)

theorem adds_parameterType {t : TypeRef} (h : s.holds (.type t)) :
    parameters.Adds s fun r => { r with type := t } := fun r => Gains.refl.cons_of_holds (.type r.type) h

theorem adds_methodType {t : TypeRef} (h : s.holds (.type t)) :
    methods.Adds s fun r => { r with type := t } := by
  intro r
  exact (Gains.refl.cons_of_holds (.type r.type) h).append .refl

theorem adds_methodOwner {o : Option TypeRef} (h : ∀ i ∈ Item.types o.toList, s.holds i) :
    methods.Adds s fun r => { r with owner := o } := by
  intro r
  exact ((gains_of_holds h).cons (.type r.type)).append .refl

theorem adds_parameters {xs : OrderedSet ParameterRef} (h : ∀ i ∈ Item.refs xs.toList, s.holds i) :
    methods.Adds s fun r => { r with parameters := xs } := fun _ => Gains.refl.append (gains_of_holds h)

theorem adds_parameter {p : ParameterRef} (h : s.holds (.ref p)) :
    methods.Adds s fun r => { r with parameters := r.parameters.insert p } :=
  fun _ => Gains.refl.append (gains_insert h)

theorem adds_ends {xs : OrderedSet PropertyRef} (h : ∀ i ∈ Item.refs xs.toList, s.holds i) :
    associations.Adds s fun r => { r with ends := xs } := fun _ => gains_of_holds h

theorem adds_general {c : ClassRef} (h : s.holds (.ref c)) :
    generalizations.Adds s fun r => { r with general := c } := fun r => Gains.refl.cons_of_holds (.ref r.general) h

theorem adds_specific {c : ClassRef} (h : s.holds (.ref c)) :
    generalizations.Adds s fun r => { r with specific := c } := by
  intro r
  exact (Gains.refl.cons_of_holds (.ref r.specific) h).cons (.ref r.general)

theorem adds_grouped {xs : OrderedSet GeneralizationRef} (h : ∀ i ∈ Item.refs xs.toList, s.holds i) :
    generalizationSets.Adds s fun r => { r with generalizations := xs } := fun _ => gains_of_holds h

theorem adds_packaged {xs : OrderedSet ClassRef} (h : ∀ i ∈ Item.refs xs.toList, s.holds i) :
    packages.Adds s fun r => { r with classes := xs } := fun _ => gains_of_holds h

theorem adds_packagedClass {c : ClassRef} (h : s.holds (.ref c)) :
    packages.Adds s fun r => { r with classes := r.classes.insert c } := fun _ => gains_insert h

theorem adds_context {c : ClassRef} (h : s.holds (.ref c)) :
    constraints.Adds s fun r => { r with context := c } := fun r => Gains.refl.cons_of_holds (.ref r.context) h

theorem adds_modelTypes {xs : OrderedSet TypeRef} (h : ∀ i ∈ Item.types xs.toList, s.holds i) :
    models.Adds s fun r => { r with types := xs } := by
  intro r
  exact ((((gains_of_holds h).append .refl).append .refl).append .refl).append .refl

theorem adds_modelAssociations {xs : OrderedSet AssociationRef} (h : ∀ i ∈ Item.refs xs.toList, s.holds i) :
    models.Adds s fun r => { r with associations := xs } := by
  intro r
  exact (((Gains.refl.append (gains_of_holds h)).append .refl).append .refl).append .refl

theorem adds_modelGeneralizations {xs : OrderedSet GeneralizationRef}
    (h : ∀ i ∈ Item.refs xs.toList, s.holds i) :
    models.Adds s fun r => { r with generalizations := xs } := by
  intro r
  exact ((Gains.refl.append (gains_of_holds h)).append .refl).append .refl

theorem adds_modelPackages {xs : OrderedSet PackageRef} (h : ∀ i ∈ Item.refs xs.toList, s.holds i) :
    models.Adds s fun r => { r with packages := xs } := by
  intro r
  exact (Gains.refl.append (gains_of_holds h)).append .refl

theorem adds_modelConstraints {xs : OrderedSet ConstraintRef} (h : ∀ i ∈ Item.refs xs.toList, s.holds i) :
    models.Adds s fun r => { r with constraints := xs } := by
  intro r
  exact Gains.refl.append (gains_of_holds h)

theorem adds_releaseProperty (o : Owner) : properties.Adds s (·.release o) := by
  intro r
  show s.Gains r.items (r.release o).items
  rw [PropertyRecord.release]
  split_ifs
  · exact (gains_nil.cons (.multiplicity r.multiplicity)).cons (.type r.type)
  · exact .refl

theorem adds_releaseMethod (t : TypeRef) : methods.Adds s (·.release t) := by
  intro r
  show s.Gains r.items (r.release t).items
  rw [MethodRecord.release]
  split_ifs
  · exact (gains_nil.cons (.type r.type)).append .refl
  · exact .refl

theorem adds_releaseLiteral (t : TypeRef) : literals.Adds s (·.release t) := by
  intro r
  show s.Gains r.items (r.release t).items
  rw [LiteralRecord.release]
  split_ifs
  · exact gains_nil
  · exact .refl

theorem Adds.reown {kind : Kind} {ρ : Type} [Inhabited ρ] {k : Roster kind ρ} {release own : ρ → ρ}
    (hr : k.Adds s release) (ho : k.Adds s own) (released : Bool) (dropped taken : List (Ref kind))
    (t : Table (Ref kind) ρ) :
    k.Extends s t ((if released then t.modifyAll dropped release else t).modifyAll taken own) := by
  refine Extends.trans ?_ (ho.modifyAll taken)
  split_ifs
  · exact hr.modifyAll dropped
  · exact .refl

end Roster

namespace Store
open Roster
variable {s : Store}

theorem Sound.noted (h : s.Sound) (channel : Channel) (message : String) : s.Grows (s.noted channel message) := by
  unfold Store.noted
  split_ifs
  · exact h.unchanged rfl (Nat.le_refl _) (Nat.le_refl _) fun _ => rfl
  · exact h.refl

theorem Sound.draw (h : s.Sound) : s.Grows { s with created := s.created + 1 } :=
  h.unchanged rfl (Nat.le_succ _) (Nat.le_refl _) fun _ => rfl

theorem Sound.labels (h : s.Sound) (t : Table Nat Label) : s.Grows { s with labels := t } :=
  h.unchanged rfl (Nat.le_refl _) (Nat.le_refl _) fun _ => rfl

theorem Sound.setMultiplicities (h : s.Sound) (t : Table MultiplicityRef Multiplicity) :
    s.Grows { s with multiplicities := t } :=
  h.unchanged rfl (Nat.le_refl _) (Nat.le_refl _) fun _ => rfl

theorem Sound.enterMultiplicity (h : s.Sound) (t : Table MultiplicityRef Multiplicity) :
    s.Grows { s with multiplicityCount := s.multiplicityCount + 1, multiplicities := t } :=
  h.unchanged rfl (Nat.le_refl _) (Nat.le_succ _) fun _ => rfl

theorem Sound.configure (h : s.Sound) (ownerRelease listening : Bool) :
    s.Grows { s with ownerRelease, listening } :=
  h.unchanged rfl (Nat.le_refl _) (Nat.le_refl _) fun _ => rfl

theorem contains_setTimestamp {e : Element} (he : s.contains e) (t : Int) (e' : Element) :
    contains { s with headers := s.headers.modify e.order fun h => { h with timestamp := some t } } e' =
      s.contains e' := by
  simp only [contains, Table.modify, Table.get, Table.get?_set]
  split_ifs with ho
  · obtain ⟨kind, n⟩ := e
    cases ho
    cases hg : s.headers.get? e'.order with
    | none => simp [contains, hg] at he
    | some header => rfl
  · rfl

theorem Sound.setTimestamp (h : s.Sound) {e : Element} (he : s.contains e) (t : Int) :
    s.Grows { s with headers := s.headers.modify e.order fun h => { h with timestamp := some t } } := by
  have hcontains := contains_setTimestamp he t
  have hholds : ∀ i, s.holds i → Store.holds { s with headers := s.headers.modify e.order fun h =>
      { h with timestamp := some t } } i := by
    intro i hi
    cases i with
    | element e' => exact (hcontains e').trans hi
    | multiplicity m => exact hi
  refine ⟨⟨?_, ?_, ?_⟩, hholds, Nat.le_refl _⟩
  · intro e' he'
    rw [hcontains] at he'
    exact h.bounded e' he'
  · intro p
    exact hholds (.element _) (h.primitive p)
  · intro e' he' i hi
    rw [hcontains] at he'
    exact hholds i (h.closed e' he' i hi)

theorem Sound.setAttributes (h : s.Sound) {c : ClassRef} {xs : OrderedSet PropertyRef}
    (hc : s.holds (.ref c)) (hx : ∀ i ∈ Item.refs xs.toList, s.holds i) : s.Grows (s.setAttributes c xs) := by
  have howner : ∀ i ∈ Item.owners (some (.type (.ofClass c))), s.holds i := List.forall_mem_singleton.2 hc
  have hreown := (adds_releaseProperty (.type (.ofClass c))).reown (adds_propertyOwner howner) s.ownerRelease
    ((s.classes.get c).attributes.toList.filter (· ∉ xs)) xs.toList s.properties
  exact grows_put_modify h hreown (fun hs => adds_attributes (hs.all hx)) c

theorem Sound.setMethods (h : s.Sound) {c : ClassRef} {xs : OrderedSet MethodRef}
    (hc : s.holds (.ref c)) (hx : ∀ i ∈ Item.refs xs.toList, s.holds i) : s.Grows (s.setMethods c xs) := by
  have howner : ∀ i ∈ Item.types (some (.ofClass c)).toList, s.holds i := List.forall_mem_singleton.2 hc
  have hreown := (adds_releaseMethod (.ofClass c)).reown (adds_methodOwner howner) s.ownerRelease
    ((s.classes.get c).methods.toList.filter (· ∉ xs)) xs.toList s.methods
  exact grows_put_modify h hreown (fun hs => adds_methods (hs.all hx)) c

theorem Sound.setLiterals (h : s.Sound) {e : EnumerationRef} {xs : OrderedSet LiteralRef}
    (he : s.holds (.ref e)) (hx : ∀ i ∈ Item.refs xs.toList, s.holds i) : s.Grows (s.setLiterals e xs) := by
  have howner : ∀ i ∈ Item.types (some (.ofEnumeration e)).toList, s.holds i := List.forall_mem_singleton.2 he
  have hreown := (adds_releaseLiteral (.ofEnumeration e)).reown (adds_literalOwner howner) s.ownerRelease
    ((s.enumerations.get e).literals.toList.filter (· ∉ xs)) xs.toList s.literals
  exact grows_put_modify h hreown (fun hs => adds_literals (hs.all hx)) e

theorem Sound.insertAttribute (h : s.Sound) {c : ClassRef} {p : PropertyRef} (hc : s.holds (.ref c))
    (hp : s.holds (.ref p)) : s.Grows (s.insertAttribute c p) := by
  have howner : ∀ i ∈ Item.owners (some (.type (.ofClass c))), s.holds i := List.forall_mem_singleton.2 hc
  exact grows_put_modify h ((adds_propertyOwner howner).modify p) (fun hs => adds_attribute (hs.holds _ hp)) c

theorem Sound.insertMethod (h : s.Sound) {c : ClassRef} {m : MethodRef} (hc : s.holds (.ref c))
    (hm : s.holds (.ref m)) : s.Grows (s.insertMethod c m) := by
  have howner : ∀ i ∈ Item.types (some (.ofClass c)).toList, s.holds i := List.forall_mem_singleton.2 hc
  exact grows_put_modify h ((adds_methodOwner howner).modify m) (fun hs => adds_method (hs.holds _ hm)) c

theorem Sound.insertLiteral (h : s.Sound) {e : EnumerationRef} {l : LiteralRef} (he : s.holds (.ref e))
    (hl : s.holds (.ref l)) : s.Grows (s.insertLiteral e l) := by
  have howner : ∀ i ∈ Item.types (some (.ofEnumeration e)).toList, s.holds i := List.forall_mem_singleton.2 he
  exact grows_put_modify h ((adds_literalOwner howner).modify l) (fun hs => adds_literal (hs.holds _ hl)) e

theorem Sound.setEnds (h : s.Sound) {a : AssociationRef} {xs : OrderedSet PropertyRef}
    (cs : List ClassRef) (ha : s.holds (.ref a)) (hx : ∀ i ∈ Item.refs xs.toList, s.holds i) :
    s.Grows (s.setEnds a xs cs) := by
  have howner : ∀ i ∈ Item.owners (some (.association a)), s.holds i := List.forall_mem_singleton.2 ha
  have hp := grows_put h ((adds_propertyOwner howner).modifyAll xs.toList)
  have hrelink := extends_relink (hp.holds _ ha) (s.classesOf (s.associations.get a).ends) cs s.classes
  exact hp.trans (grows_put_modify hp.sound hrelink (fun hs => adds_ends (hs.all (hp.all hx))) a)

theorem Sound.setGeneral (h : s.Sound) {g : GeneralizationRef} {c : ClassRef} (hg : s.holds (.ref g))
    (hc : s.holds (.ref c)) : s.Grows (s.setGeneral g c) := by
  have hrewire := extends_rewire hg (s.generalizations.get g).general c s.classes
  exact grows_put_modify h hrewire (fun hs => adds_general (hs.holds _ hc)) g

theorem Sound.setSpecific (h : s.Sound) {g : GeneralizationRef} {c : ClassRef} (hg : s.holds (.ref g))
    (hc : s.holds (.ref c)) : s.Grows (s.setSpecific g c) := by
  have hrewire := extends_rewire hg (s.generalizations.get g).specific c s.classes
  exact grows_put_modify h hrewire (fun hs => adds_specific (hs.holds _ hc)) g

theorem Sound.enroll (h : s.Sound) {kind : Kind} {ρ : Type} [Inhabited ρ] (k : Roster kind ρ) [k.Lawful]
    {r : Ref kind} (hr : s.Spare r.order) {a : ρ} (ha : ∀ i ∈ k.items a, s.holds i) (l : Label)
    (timestamp : Option Int) : s.Grows ((k.put s ((k.table s).set r a)).enroll r.element l timestamp) :=
  have he := grows_enter h hr ha timestamp
  he.trans (he.sound.labels _)

theorem Sound.holds_withPrimitives (h : s.Sound) {l : List TypeRef} (hl : ∀ i ∈ Item.types l, s.holds i) :
    ∀ i ∈ Item.types (withPrimitives l).toList, s.holds i := by
  intro i hi
  obtain ⟨t, ht, rfl⟩ := Item.mem_types.1 hi
  rw [withPrimitives, ← OrderedSet.mem_def, OrderedSet.mem_ofList, List.mem_append] at ht
  rcases ht with ht | ht
  · exact hl _ (Item.mem_types.2 ⟨t, ht, rfl⟩)
  · obtain ⟨p, _, rfl⟩ := List.mem_map.1 ht
    exact h.primitive p

end Store
end ClassDiagram
