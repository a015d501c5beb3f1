import ClassDiagram.Proofs.Checks
import ClassDiagram.Proofs.Facets

/-! What collections ask of their members stays true as long as members are left alone. -/

namespace ClassDiagram
open Roster

inductive Collections where
  | free
  | ofClass (attributes : OrderedSet PropertyRef) (methods : OrderedSet MethodRef)
  | ofEnumeration (literals : OrderedSet LiteralRef)
  | ofMethod (parameters : OrderedSet ParameterRef)
  | ofAssociation (isBinary : Bool) (ends : OrderedSet PropertyRef)
  | ofModel (types : OrderedSet TypeRef) (associations : OrderedSet AssociationRef)
    (packages : OrderedSet PackageRef) (constraints : OrderedSet ConstraintRef)

namespace Collections

def members : Collections → List Element
  | free => []
  | ofClass attributes methods => attributes.toList.map Ref.element ++ methods.toList.map Ref.element
  | ofEnumeration literals => literals.toList.map Ref.element
  | ofMethod parameters => parameters.toList.map Ref.element
  | ofAssociation _ ends => ends.toList.map Ref.element
  | ofModel types associations packages constraints =>
    types.toList.map TypeRef.element ++ associations.toList.map Ref.element ++
      packages.toList.map Ref.element ++ constraints.toList.map Ref.element

/-- Names are distinct, a class has at most one identifier, ends are typed by classes, and not both are composite. -/
def Fit (s : Store) : Collections → Prop
  | free => True
  | ofClass attributes methods =>
    (s.namesOf attributes).Nodup ∧ (s.namesOf methods).Nodup ∧ attributes.toList.countP s.isId ≤ 1
  | ofEnumeration literals => (s.namesOf literals).Nodup
  | ofMethod parameters => (s.namesOf parameters).Nodup
  | ofAssociation isBinary ends =>
    (∀ p ∈ ends, ∃ c, s.typeOf p = .ofClass c) ∧ (isBinary → ∃ p ∈ ends, ¬ s.isComposite p)
  | ofModel types associations packages constraints =>
    (s.typeNames types).Nodup ∧ (s.namesOf associations).Nodup ∧ (s.namesOf packages).Nodup ∧
      (s.namesOf constraints).Nodup

end Collections

def ClassRecord.collections (r : ClassRecord) : Collections := .ofClass r.attributes r.methods

def EnumerationRecord.collections (r : EnumerationRecord) : Collections := .ofEnumeration r.literals

def MethodRecord.collections (r : MethodRecord) : Collections := .ofMethod r.parameters

def AssociationRecord.collections (r : AssociationRecord) : Collections := .ofAssociation r.isBinary r.ends

def ModelRecord.collections (r : ModelRecord) : Collections :=
  .ofModel r.types r.associations r.packages r.constraints

theorem ModelRecord.forall_members {r : ModelRecord} {P : Element → Prop} :
    (∀ m ∈ r.collections.members, P m) ↔ (∀ m ∈ r.types.toList.map TypeRef.element, P m) ∧
      (∀ m ∈ r.associations.toList.map Ref.element, P m) ∧ (∀ m ∈ r.packages.toList.map Ref.element, P m) ∧
      ∀ m ∈ r.constraints.toList.map Ref.element, P m := by
  simp only [collections, Collections.members, List.forall_mem_append, and_assoc]

namespace Store

def collections (s : Store) (e : Element) : Collections :=
  match e.kind with
  | .classType => (s.classes.get ⟨e.order⟩).collections
  | .enumeration => (s.enumerations.get ⟨e.order⟩).collections
  | .method => (s.methods.get ⟨e.order⟩).collections
  | .association => (s.associations.get ⟨e.order⟩).collections
  | .model => (s.models.get ⟨e.order⟩).collections
  | _ => .free

/-- All collections have what they ask for. -/
def Regular (s : Store) : Prop := ∀ e, s.contains e → (s.collections e).Fit s

def IsMember (s : Store) (m : Element) : Prop := ∃ e, s.contains e ∧ m ∈ (s.collections e).members

/-- To assign to a facet is not to assign to a member. -/
def SparesMembers (s : Store) (f : Facet) : Prop := ¬ s.IsMember f.element

variable {s s' : Store}

def elements (s : Store) : List Element := s.headers.keys.map fun n => ⟨(s.headers.get n).kind, n⟩

theorem mem_elements {e : Element} (h : s.contains e) : e ∈ s.elements := by
  obtain ⟨kind, n⟩ := e
  have hkey : n ∈ s.headers.keys := by
    refine Table.mem_keys.2 (Decidable.byContradiction fun hnot => ?_)
    rw [contains, Table.get?_of_not_contains hnot] at h
    exact Bool.false_ne_true h
  refine List.mem_map.2 ⟨n, hkey, ?_⟩
  unfold contains at h
  cases hget : s.headers.get? n with
  | none => simp [hget] at h
  | some header =>
    have hkind : header.kind = kind := by simpa [hget] using h
    rw [Table.get, hget, Option.getD_some, hkind]

instance (m : Element) : Decidable (s.IsMember m) :=
  decidable_of_iff (∃ e ∈ s.elements, s.contains e ∧ m ∈ (s.collections e).members) <|
    exists_congr fun _ => and_iff_right_of_imp fun h => mem_elements h.1

instance : DecidablePred s.SparesMembers := fun f => inferInstanceAs (Decidable (¬ s.IsMember f.element))

def SameOf (s s' : Store) (m : Element) : Prop := ∀ f : Facet, f.element = m → f.Same s s'

theorem namesOf_of_same {kind : Kind} {xs : OrderedSet (Ref kind)}
    (h : ∀ m ∈ xs.toList.map Ref.element, s.SameOf s' m) : s'.namesOf xs = s.namesOf xs :=
  List.map_congr_left fun r hr => h r.element (List.mem_map_of_mem hr) (.name r.element) rfl

theorem typeNames_of_same {xs : OrderedSet TypeRef} (h : ∀ m ∈ xs.toList.map TypeRef.element, s.SameOf s' m) :
    s'.typeNames xs = s.typeNames xs :=
  List.map_congr_left fun t ht => h t.element (List.mem_map_of_mem ht) (.name t.element) rfl

end Store

theorem Collections.Fit.congr {s s' : Store} {k : Collections} (hk : k.Fit s)
    (h : ∀ m ∈ k.members, s.SameOf s' m) : k.Fit s' := by
  cases k with
  | free => trivial
  | ofClass attributes methods =>
    obtain ⟨hattributes, hmethods⟩ := List.forall_mem_append.1 h
    obtain ⟨hnames, hnames', hid⟩ := hk
    have hcount : attributes.toList.countP s'.isId = attributes.toList.countP s.isId := by
      refine List.countP_congr fun p hp => ?_
      have hsame : s'.isId p = s.isId p := hattributes p.element (List.mem_map_of_mem hp) (.isId p) rfl
      rw [hsame]
    refine ⟨?_, ?_, ?_⟩
    · rwa [Store.namesOf_of_same hattributes]
    · rwa [Store.namesOf_of_same hmethods]
    · rwa [hcount]
  | ofEnumeration literals =>
    show (s'.namesOf literals).Nodup
    rwa [Store.namesOf_of_same h]
  | ofMethod parameters =>
    show (s'.namesOf parameters).Nodup
    rwa [Store.namesOf_of_same h]
  | ofAssociation isBinary ends =>
    have htypes : ∀ p ∈ ends, s'.typeOf p = s.typeOf p := fun p hp =>
      h p.element (List.mem_map_of_mem hp) (.type p) rfl
    have hcomposite : ∀ p ∈ ends, s'.isComposite p = s.isComposite p := fun p hp =>
      h p.element (List.mem_map_of_mem hp) (.isComposite p) rfl
    refine ⟨fun p hp => ?_, fun hbinary => ?_⟩
    · rw [htypes p hp]
      exact hk.1 p hp
    · obtain ⟨p, hp, hnot⟩ := hk.2 hbinary
      exact ⟨p, hp, by rwa [hcomposite p hp]⟩
  | ofModel types associations packages constraints =>
    obtain ⟨hrest, hconstraints⟩ := List.forall_mem_append.1 h
    obtain ⟨hrest, hpackages⟩ := List.forall_mem_append.1 hrest
    obtain ⟨htypes, hassociations⟩ := List.forall_mem_append.1 hrest
    obtain ⟨ht, ha, hp, hc⟩ := hk
    refine ⟨?_, ?_, ?_, ?_⟩
    · rwa [Store.typeNames_of_same htypes]
    · rwa [Store.namesOf_of_same hassociations]
    · rwa [Store.namesOf_of_same hpackages]
    · rwa [Store.namesOf_of_same hconstraints]

namespace Roster

variable {kind : Kind} {ρ : Type} [Inhabited ρ]

class Collects (k : Roster kind ρ) (shown : outParam (ρ → Collections)) : Prop where
  collections_element : ∀ s (r : Ref kind), s.collections r.element = shown ((k.table s).get r) := by
    intros; rfl
  collections_put : ∀ s t n kind', kind' ≠ kind → (k.put s t).collections ⟨kind', n⟩ = s.collections ⟨kind', n⟩ := by
    intro s t n kind' h
    cases kind' <;> first | rfl | exact absurd rfl h

instance : classes.Collects ClassRecord.collections := {}

instance : enumerations.Collects EnumerationRecord.collections := {}

instance : methods.Collects MethodRecord.collections := {}

instance : associations.Collects AssociationRecord.collections := {}

instance : models.Collects ModelRecord.collections := {}

instance : literals.Collects fun _ => .free := {}

instance : properties.Collects fun _ => .free := {}

instance : parameters.Collects fun _ => .free := {}

instance : generalizationSets.Collects fun _ => .free := {}

instance : packages.Collects fun _ => .free := {}

instance : constraints.Collects fun _ => .free := {}

variable (k : Roster kind ρ) {shown : ρ → Collections} [k.Lawful] [hk : k.Collects shown] {s : Store}

theorem collections_put_of_shown {t : Table (Ref kind) ρ} {e : Element}
    (ht : ∀ r : Ref kind, r.element = e → shown (t.get r) = shown ((k.table s).get r)) :
    (k.put s t).collections e = s.collections e := by
  obtain ⟨kind', n⟩ := e
  by_cases hkind : kind' = kind
  · subst hkind
    have hself : ∀ s : Store, s.collections ⟨kind', n⟩ = shown ((k.table s).get ⟨n⟩) := fun s =>
      hk.collections_element s ⟨n⟩
    rw [hself, hself, Lawful.table_put]
    exact ht ⟨n⟩ rfl
  · exact hk.collections_put s t n kind' hkind

theorem collections_set {r : Ref kind} {a : ρ} {e : Element} :
    (k.put s ((k.table s).set r a)).collections e = if e = r.element then shown a else s.collections e := by
  split_ifs with he
  · rw [he, hk.collections_element, Lawful.table_put, Table.get_set, if_pos rfl]
  · refine collections_put_of_shown k fun r' hr' => ?_
    have hne : r' ≠ r := fun heq => he (heq ▸ hr'.symm)
    rw [Table.get_set, if_neg hne]

theorem collections_modify {r : Ref kind} {f : ρ → ρ} {e : Element} :
    (k.put s ((k.table s).modify r f)).collections e =
      if e = r.element then shown (f ((k.table s).get r)) else s.collections e := collections_set k

theorem collections_modify_of_shown {r : Ref kind} {f : ρ → ρ} (hf : ∀ a, shown (f a) = shown a) {e : Element} :
    (k.put s ((k.table s).modify r f)).collections e = s.collections e :=
  collections_put_of_shown k fun r' _ => Table.map_get_modify hf (k.table s) r r'

theorem collections_enroll {r : Ref kind} {a : ρ} {l : Label} {timestamp : Option Int} {e : Element} :
    (k.enroll s r a l timestamp).collections e = if e = r.element then shown a else s.collections e :=
  collections_set k

end Roster

namespace Store
variable {s s' : Store} {e : Element}

theorem classes_enroll {c : ClassRef} {r : ClassRecord} {l : Label} {timestamp : Option Int} :
    (Roster.classes.enroll s c r l timestamp).classes.get c = r := by
  show (s.classes.set c r).get c = r
  rw [Table.get_set, if_pos rfl]

theorem associations_enroll {a : AssociationRef} {r : AssociationRecord} {l : Label} {timestamp : Option Int} :
    (Roster.associations.enroll s a r l timestamp).associations.get a = r := by
  show (s.associations.set a r).get a = r
  rw [Table.get_set, if_pos rfl]

theorem collections_setAttributes {c : ClassRef} {xs : OrderedSet PropertyRef} :
    (s.setAttributes c xs).collections e =
      if e = c.element then .ofClass xs (s.classes.get c).methods else s.collections e :=
  collections_modify Roster.classes (s := { s with properties := (s.setAttributes c xs).properties })

theorem collections_insertAttribute {c : ClassRef} {p : PropertyRef} :
    (s.insertAttribute c p).collections e =
      if e = c.element then .ofClass ((s.classes.get c).attributes.insert p) (s.classes.get c).methods
      else s.collections e :=
  collections_modify Roster.classes (s := { s with properties := (s.insertAttribute c p).properties })

theorem collections_release (r : MethodRecord) (t : TypeRef) : (r.release t).collections = r.collections := by
  unfold MethodRecord.release
  split_ifs <;> rfl

theorem collections_ownMethods {c : ClassRef} {xs : OrderedSet MethodRef} :
    collections { s with methods := (s.setMethods c xs).methods } e = s.collections e := by
  refine collections_put_of_shown Roster.methods fun r _ => ?_
  have hown : ∀ r : MethodRecord,
      MethodRecord.collections { r with owner := some (TypeRef.ofClass c) } = r.collections := fun _ => rfl
  refine (Table.map_get_modifyAll hown _ xs.toList r).trans ?_
  split_ifs
  · exact Table.map_get_modifyAll (collections_release · _) s.methods _ r
  · rfl

theorem collections_setMethods {c : ClassRef} {xs : OrderedSet MethodRef} :
    (s.setMethods c xs).collections e =
      if e = c.element then .ofClass (s.classes.get c).attributes xs else s.collections e := by
  have hown : collections { s with methods := (s.setMethods c xs).methods } e = s.collections e :=
    collections_ownMethods
  rw [← hown]
  exact collections_modify Roster.classes (s := { s with methods := (s.setMethods c xs).methods })

theorem collections_insertMethod {c : ClassRef} {m : MethodRef} :
    (s.insertMethod c m).collections e =
      if e = c.element then .ofClass (s.classes.get c).attributes ((s.classes.get c).methods.insert m)
      else s.collections e := by
  have hshown : ∀ r : MethodRecord,
      MethodRecord.collections { r with owner := some (TypeRef.ofClass c) } = r.collections := fun _ => rfl
  have hown : collections { s with methods := (s.insertMethod c m).methods } e = s.collections e :=
    collections_modify_of_shown Roster.methods hshown
  rw [← hown]
  exact collections_modify Roster.classes (s := { s with methods := (s.insertMethod c m).methods })

theorem collections_setLiterals {r : EnumerationRef} {xs : OrderedSet LiteralRef} :
    (s.setLiterals r xs).collections e = if e = r.element then .ofEnumeration xs else s.collections e :=
  collections_modify Roster.enumerations (s := { s with literals := (s.setLiterals r xs).literals })

theorem collections_insertLiteral {r : EnumerationRef} {l : LiteralRef} :
    (s.insertLiteral r l).collections e =
      if e = r.element then .ofEnumeration ((s.enumerations.get r).literals.insert l) else s.collections e :=
  collections_modify Roster.enumerations (s := { s with literals := (s.insertLiteral r l).literals })

theorem collections_setEnds {a : AssociationRef} {xs : OrderedSet PropertyRef} {cs : List ClassRef} :
    (s.setEnds a xs cs).collections e =
      if e = a.element then .ofAssociation (s.associations.get a).isBinary xs else s.collections e := by
  let linked : Store := { s with
    properties := (s.setEnds a xs cs).properties, classes := (s.setEnds a xs cs).classes }
  have hlinked : linked.collections e = s.collections e := by
    refine collections_put_of_shown Roster.classes fun r _ => ?_
    have hlink : ∀ r : ClassRecord, (r.link a).collections = r.collections := fun _ => rfl
    have hunlink : ∀ r : ClassRecord, (r.unlink a).collections = r.collections := fun _ => rfl
    exact (Table.map_get_modifyAll hlink _ cs r).trans (Table.map_get_modifyAll hunlink s.classes _ r)
  rw [← hlinked]
  exact collections_modify Roster.associations (s := linked)

theorem collections_register {t : Table ClassRef ClassRecord} {c : ClassRef} {g : GeneralizationRef} :
    collections { s with classes := t.modify c (·.register g) } e = collections { s with classes := t } e := by
  apply collections_modify_of_shown Roster.classes (s := { s with classes := t })
  exact fun _ => rfl

theorem collections_unregister {t : Table ClassRef ClassRecord} {c : ClassRef} {g : GeneralizationRef} :
    collections { s with classes := t.modify c (·.unregister g) } e = collections { s with classes := t } e := by
  apply collections_modify_of_shown Roster.classes (s := { s with classes := t })
  exact fun _ => rfl

theorem contains_refs {kind : Kind} {l : List (Ref kind)} (h : ∀ i ∈ Item.refs l, s.holds i) :
    ∀ m ∈ l.map Ref.element, s.contains m := by
  intro m hm
  obtain ⟨r, hr, rfl⟩ := List.mem_map.1 hm
  exact h (.ref r) (List.mem_map_of_mem hr)

theorem contains_types {l : List TypeRef} (h : ∀ i ∈ Item.types l, s.holds i) :
    ∀ m ∈ l.map TypeRef.element, s.contains m := by
  intro m hm
  obtain ⟨t, ht, rfl⟩ := List.mem_map.1 hm
  exact h (.type t) (List.mem_map_of_mem ht)

theorem contains_insert {kind : Kind} {xs : OrderedSet (Ref kind)} {r : Ref kind}
    (h : ∀ m ∈ xs.toList.map Ref.element, s.contains m) (hr : s.contains r.element) :
    ∀ m ∈ (xs.insert r).toList.map Ref.element, s.contains m := by
  intro m hm
  obtain ⟨x, hx, rfl⟩ := List.mem_map.1 hm
  rcases OrderedSet.mem_insert.1 hx with hx | rfl
  · exact h x.element (List.mem_map_of_mem hx)
  · exact hr

theorem Sound.contains_members (hs : s.Sound) {e : Element} (he : s.contains e) :
    ∀ m ∈ (s.collections e).members, s.contains m := by
  have hclosed := hs.closed e he
  obtain ⟨kind, n⟩ := e
  cases kind with
  | classType =>
    have hitems : ∀ i ∈ (s.classes.get ⟨n⟩).items, s.holds i := hclosed
    simp only [ClassRecord.items, List.forall_mem_append, and_assoc] at hitems
    obtain ⟨hattributes, hmethods, _⟩ := hitems
    exact List.forall_mem_append.2 ⟨contains_refs hattributes, contains_refs hmethods⟩
  | enumeration => exact contains_refs hclosed
  | method => exact contains_refs (List.forall_mem_append.1 hclosed).2
  | association => exact contains_refs hclosed
  | model =>
    obtain ⟨htypes, hassociations, _, hpackages, hconstraints⟩ := ModelRecord.forall_items.1 hclosed
    exact ModelRecord.forall_members.2 ⟨contains_types htypes, contains_refs hassociations, contains_refs hpackages,
      contains_refs hconstraints⟩
  | _ => exact fun m hm => nomatch hm

theorem regular_initial (ids : Nat → Uuid) : (initial ids).Regular := by
  intro e he
  obtain ⟨p, rfl⟩ := contains_initial he
  trivial

theorem Regular.congr (h : s.Regular) (hcontains : ∀ e, s'.contains e → s.contains e)
    (hcollections : ∀ e, s'.collections e = s.collections e) (hsame : ∀ m, s.IsMember m → s.SameOf s' m) :
    s'.Regular := by
  intro e he
  have hold := hcontains e he
  rw [hcollections]
  exact (h e hold).congr fun m hm => hsame m ⟨e, hold, hm⟩

theorem Regular.touch {e₀ : Element} {k : Collections} (h : s.Regular) (hs : s.Sound)
    (hc : s.Change (.assigning fun _ _ => False) s') (hcontains : ∀ e, s'.contains e → e = e₀ ∨ s.contains e)
    (hcollections : ∀ e, s'.collections e = if e = e₀ then k else s.collections e)
    (hmembers : ∀ m ∈ k.members, s.contains m) (hfit : k.Fit s) : s'.Regular := by
  have hsame : ∀ m, s.contains m → s.SameOf s' m := fun m hm f hf => hc.same (hf ▸ hm) id
  intro e he
  rw [hcollections]
  split_ifs with heq
  · exact hfit.congr fun m hm => hsame m (hmembers m hm)
  · have hold := (hcontains e he).resolve_left heq
    exact (h e hold).congr fun m hm => hsame m (hs.contains_members hold m hm)

theorem Regular.classFit (h : s.Regular) {c : ClassRef} (hc : s.contains c.element) :
    (s.namesOf (s.classes.get c).attributes).Nodup ∧ (s.namesOf (s.classes.get c).methods).Nodup ∧
      (s.classes.get c).attributes.toList.countP s.isId ≤ 1 := h c.element hc

theorem Regular.modelFit (h : s.Regular) {m : ModelRef} (hm : s.contains m.element) :
    (s.typeNames (s.models.get m).types).Nodup ∧ (s.namesOf (s.models.get m).associations).Nodup ∧
      (s.namesOf (s.models.get m).packages).Nodup ∧ (s.namesOf (s.models.get m).constraints).Nodup := h m.element hm

theorem checkEnds_fit {name : String} {isBinary : Bool} {xs : OrderedSet PropertyRef} {cs : List ClassRef}
    (h : s.checkEnds name isBinary xs = .ok cs) : (Collections.ofAssociation isBinary xs).Fit s := by
  obtain ⟨harity, htypes⟩ := checkEnds_eq_ok h
  refine ⟨fun p hp => ?_, ?_⟩
  · have hmem : s.typeOf p ∈ cs.map TypeRef.ofClass := htypes ▸ List.mem_map_of_mem hp
    obtain ⟨c, _, hc⟩ := List.mem_map.1 hmem
    exact ⟨c, hc.symm⟩
  · rintro rfl
    exact exists_not_isComposite harity

theorem Quiet.regular {may : Leave} (h : s.Regular) (hs : s.Sound) (hq : s.Quiet may s') : s'.Regular := by
  have hsame : ∀ m, s.IsMember m → s.SameOf s' m := by
    rintro m ⟨e, he, hm⟩ f hf
    exact hq.agrees.same (hf ▸ hs.contains_members he m hm)
  cases hq with
  | noted channel message =>
    unfold Store.noted at hsame ⊢
    split_ifs at hsame ⊢
    · exact h.congr (fun _ => id) (fun _ => rfl) hsame
    · exact h
  | drawn | multiplicity => exact h.congr (fun _ => id) (fun _ => rfl) hsame
  | @bare kind r l timestamp hkind hr =>
    refine h.touch hs (.quiet (.bare timestamp hkind hr trivial)) (fun e => eq_or_contains_of_enter) (k := .free)
      (fun e => ?_) (fun m hm => nomatch hm) trivial
    split_ifs with he
    · rw [he]
      cases kind <;> first | rfl | simp at hkind
    · rfl

theorem Change.regular {may : Leave} (hs : s.Sound) (hc : s.Change may s')
    (hmay : ∀ f, may.assign s f → s.SparesMembers f) (h : s.Regular) : s'.Regular := by
  have hsame : ∀ m, s.IsMember m → s.SameOf s' m := by
    rintro m hm f rfl
    obtain ⟨e, he, hmem⟩ := id hm
    exact hc.same (hs.contains_members he _ hmem) fun hf => hmay f hf hm
  cases hc with
  | quiet hq => exact hq.regular h hs
  | timestamp t he => exact h.congr (fun e => (contains_setTimestamp he t e).symm ▸ id) (fun _ => rfl) hsame
  | @attributes c xs hc hx hcheck =>
    obtain ⟨hnames, hid⟩ := checkAttributes_eq_ok hcheck
    have hold := List.forall_mem_append.1 (hs.contains_members hc)
    exact h.touch hs (.attributes hc hx hcheck) (fun _ => Or.inr) (fun _ => collections_setAttributes)
      (List.forall_mem_append.2 ⟨contains_refs hx, hold.2⟩) ⟨hnames, (h.classFit hc).2.1, hid⟩
  | methods hc hx hcheck =>
    have hold := List.forall_mem_append.1 (hs.contains_members hc)
    exact h.touch hs (.methods hc hx hcheck) (fun _ => Or.inr) (fun _ => collections_setMethods)
      (List.forall_mem_append.2 ⟨hold.1, contains_refs hx⟩)
      ⟨(h.classFit hc).1, uniqueNames_eq_ok hcheck, (h.classFit hc).2.2⟩
  | insertAttribute hc hp hcheck =>
    obtain ⟨hname, hid⟩ := checkNewAttribute_eq_ok hcheck
    have hold := List.forall_mem_append.1 (hs.contains_members hc)
    obtain ⟨hattributes, hmethods, hcount⟩ := h.classFit hc
    exact h.touch hs (.insertAttribute hc hp hcheck) (fun _ => Or.inr) (fun _ => collections_insertAttribute)
      (List.forall_mem_append.2 ⟨contains_insert hold.1 hp, hold.2⟩)
      ⟨nodup_namesOf_insert hattributes hname, hmethods, countP_isId_insert hcount hid⟩
  | insertMethod hc hm hcheck =>
    have hold := List.forall_mem_append.1 (hs.contains_members hc)
    obtain ⟨hattributes, hmethods, hcount⟩ := h.classFit hc
    exact h.touch hs (.insertMethod hc hm hcheck) (fun _ => Or.inr) (fun _ => collections_insertMethod)
      (List.forall_mem_append.2 ⟨hold.1, contains_insert hold.2 hm⟩)
      ⟨hattributes, nodup_namesOf_insert hmethods (freeName_eq_ok hcheck), hcount⟩
  | literals he hx hcheck =>
    exact h.touch hs (.literals he hx hcheck) (fun _ => Or.inr) (fun _ => collections_setLiterals)
      (contains_refs hx) (uniqueNames_eq_ok hcheck)
  | insertLiteral he hl hcheck =>
    have hold := hs.contains_members he
    have hfit := h _ he
    exact h.touch hs (.insertLiteral he hl hcheck) (fun _ => Or.inr) (fun _ => collections_insertLiteral)
      (contains_insert hold hl) (nodup_namesOf_insert hfit (freeName_eq_ok hcheck))
  | parameters hm hx hcheck =>
    exact h.touch hs (.parameters hm hx hcheck) (fun _ => Or.inr) (fun _ => collections_modify Roster.methods)
      (contains_refs hx) (uniqueNames_eq_ok hcheck)
  | insertParameter hm hp hcheck =>
    exact h.touch hs (.insertParameter hm hp hcheck) (fun _ => Or.inr) (fun _ => collections_modify Roster.methods)
      (contains_insert (hs.contains_members hm) hp) (nodup_namesOf_insert (h _ hm) (freeName_eq_ok hcheck))
  | ends ha hx hcheck =>
    exact h.touch hs (.ends ha hx hcheck) (fun _ => Or.inr) (fun _ => collections_setEnds) (contains_refs hx)
      (checkEnds_fit hcheck)
  | abstractClass | readOnlyClass | describedAssociation =>
    refine h.congr (fun _ => id) (fun e => ?_) hsame
    apply collections_modify_of_shown Roster.classes
    exact fun _ => rfl
  | methodOwner | methodType | abstractMethod | code =>
    refine h.congr (fun _ => id) (fun e => ?_) hsame
    apply collections_modify_of_shown Roster.methods
    exact fun _ => rfl
  | general | specific =>
    exact h.congr (fun _ => id) (fun _ => collections_register.trans collections_unregister) hsame
  | generalizations =>
    refine h.congr (fun _ => id) (fun e => ?_) hsame
    apply collections_modify_of_shown Roster.models
    exact fun _ => rfl
  | types hm hl hcheck =>
    have hold := ModelRecord.forall_members.1 (hs.contains_members hm)
    obtain ⟨_, hrest⟩ := h.modelFit hm
    exact h.touch hs (.types hm hl hcheck) (fun _ => Or.inr) (fun _ => collections_modify Roster.models)
      (ModelRecord.forall_members.2 ⟨contains_types (hs.holds_withPrimitives hl), hold.2⟩)
      ⟨uniqueNames_eq_ok hcheck, hrest⟩
  | associations hm hx hcheck =>
    have hold := ModelRecord.forall_members.1 (hs.contains_members hm)
    obtain ⟨htypes, _, hrest⟩ := h.modelFit hm
    exact h.touch hs (.associations hm hx hcheck) (fun _ => Or.inr) (fun _ => collections_modify Roster.models)
      (ModelRecord.forall_members.2 ⟨hold.1, contains_refs hx, hold.2.2⟩)
      ⟨htypes, uniqueNames_eq_ok hcheck, hrest⟩
  | packages hm hx hcheck =>
    have hold := ModelRecord.forall_members.1 (hs.contains_members hm)
    obtain ⟨htypes, hassociations, _, hconstraints⟩ := h.modelFit hm
    exact h.touch hs (.packages hm hx hcheck) (fun _ => Or.inr) (fun _ => collections_modify Roster.models)
      (ModelRecord.forall_members.2 ⟨hold.1, hold.2.1, contains_refs hx, hold.2.2.2⟩)
      ⟨htypes, hassociations, uniqueNames_eq_ok hcheck, hconstraints⟩
  | constraints hm hx hcheck =>
    have hold := ModelRecord.forall_members.1 (hs.contains_members hm)
    obtain ⟨htypes, hassociations, hpackages, _⟩ := h.modelFit hm
    exact h.touch hs (.constraints hm hx hcheck) (fun _ => Or.inr) (fun _ => collections_modify Roster.models)
      (ModelRecord.forall_members.2 ⟨hold.1, hold.2.1, hold.2.2.1, contains_refs hx⟩)
      ⟨htypes, hassociations, hpackages, uniqueNames_eq_ok hcheck⟩
  | @newEnumeration r xs l timestamp hr hx hcheck =>
    refine h.touch hs (.newEnumeration l timestamp hr hx hcheck trivial) (k := .ofEnumeration xs)
      (fun _ => eq_or_contains_of_enter) (fun e => ?_) (contains_refs hx) (uniqueNames_eq_ok hcheck)
    rw [collections_setLiterals, collections_enroll]
    split_ifs <;> rfl
  | @newClass r xs l timestamp isAbstract isReadOnly isAssociationClass hr hx hcheck =>
    obtain ⟨hnames, hid⟩ := checkAttributes_eq_ok hcheck
    refine h.touch hs (.newClass l timestamp isAbstract isReadOnly isAssociationClass hr hx hcheck trivial)
      (k := .ofClass xs ∅) (fun _ => eq_or_contains_of_enter) (fun e => ?_)
      (List.forall_mem_append.2 ⟨contains_refs hx, fun m hm => nomatch hm⟩) ⟨hnames, List.nodup_nil, hid⟩
    rw [collections_setAttributes, collections_enroll, classes_enroll]
    split_ifs <;> rfl
  | @newAssociation r xs cs isBinary l timestamp hr hx hcheck =>
    refine h.touch hs (.newAssociation isBinary l timestamp hr hx hcheck trivial) (k := .ofAssociation isBinary xs)
      (fun _ => eq_or_contains_of_enter) (fun e => ?_) (contains_refs hx) (checkEnds_fit hcheck)
    rw [collections_setEnds, collections_enroll, associations_enroll]
    split_ifs <;> rfl
  | newMethod l timestamp hr ha hp ho =>
    exact h.touch hs (.newMethod l timestamp hr ha hp ho trivial fun _ => trivial) (fun _ => eq_or_contains_of_enter)
      (fun _ => collections_enroll Roster.methods) (contains_refs (List.forall_mem_append.1 ha).2)
      (uniqueNames_eq_ok hp)
  | newModel l timestamp hr ha hprimitive ht has hp hc =>
    obtain ⟨htypes, hassociations, _, hpackages, hconstraints⟩ := ModelRecord.forall_items.1 ha
    exact h.touch hs (.newModel l timestamp hr ha hprimitive ht has hp hc trivial) (fun _ => eq_or_contains_of_enter)
      (fun _ => collections_enroll Roster.models)
      (ModelRecord.forall_members.2 ⟨contains_types htypes, contains_refs hassociations, contains_refs hpackages,
        contains_refs hconstraints⟩)
      ⟨uniqueNames_eq_ok ht, uniqueNames_eq_ok has, uniqueNames_eq_ok hp, uniqueNames_eq_ok hc⟩
  | newLiteral l timestamp hr ho hcheck =>
    exact h.touch hs (.newLiteral l timestamp hr ho hcheck trivial fun _ => trivial) (fun _ => eq_or_contains_of_enter)
      (fun _ => collections_enroll Roster.literals) (fun m hm => nomatch hm) trivial
  | newProperty l timestamp hr ha hcheck =>
    exact h.touch hs (.newProperty l timestamp hr ha hcheck trivial fun _ => trivial) (fun _ => eq_or_contains_of_enter)
      (fun _ => collections_enroll Roster.properties) (fun m hm => nomatch hm) trivial
  | newParameter l timestamp hr ha =>
    exact h.touch hs (.newParameter l timestamp hr ha trivial) (fun _ => eq_or_contains_of_enter)
      (fun _ => collections_enroll Roster.parameters) (fun m hm => nomatch hm) trivial
  | newGeneralizationSet l timestamp hr ha =>
    exact h.touch hs (.newGeneralizationSet l timestamp hr ha trivial) (fun _ => eq_or_contains_of_enter)
      (fun _ => collections_enroll Roster.generalizationSets) (fun m hm => nomatch hm) trivial
  | newPackage l timestamp hr ha =>
    exact h.touch hs (.newPackage l timestamp hr ha trivial) (fun _ => eq_or_contains_of_enter)
      (fun _ => collections_enroll Roster.packages) (fun m hm => nomatch hm) trivial
  | newConstraint l timestamp hr ha =>
    exact h.touch hs (.newConstraint l timestamp hr ha trivial) (fun _ => eq_or_contains_of_enter)
      (fun _ => collections_enroll Roster.constraints) (fun m hm => nomatch hm) trivial
  | @newGeneralization r general specific timestamp hr hg hspecific hne =>
    refine h.touch hs (.newGeneralization timestamp hr hg hspecific hne trivial) (fun _ => eq_or_contains_of_enter)
      (k := .free) (fun e => ?_) (fun m hm => nomatch hm) trivial
    split_ifs with he
    · rw [he]
      rfl
    · exact collections_register.trans collections_register
  | _ => exact h.congr (fun _ => id) (fun _ => rfl) hsame

end Store

/--
A command that does not assign to a member's name, type, identity or compositeness leaves collections regular that
were so before, whether it is accepted or rejected and also where it leaves a class without its methods behind. So runs
of such commands keep all collections regular.
-/
theorem regular_preserved (ids : Nat → Uuid) (cs : List Command) :
    let s := (Session.initial ids).run cs
    (s.store.Regular → ∀ c : Command, (∀ f ∈ c.facet?, s.store.SparesMembers f) → (s.perform c).1.store.Regular) ∧
    ((Session.initial ids).Allows Store.SparesMembers cs → s.store.Regular) := by
  have hinitial := Session.sound_initial ids
  have hlog : ∀ s : Store, s.Regular → Store.Regular { s with log := [] } := fun _ h => h
  have hchange : ∀ s s' : Store, s.Sound → s.Change (.assigning Store.SparesMembers) s' → s.Regular → s'.Regular :=
    fun _ _ hs hc h => hc.regular hs (fun _ => id) h
  refine ⟨fun h c hf => ?_, fun hcs => ?_⟩
  · exact (hinitial.run cs).perform_induction h hlog hchange c fun _ => .of_facet hf
  · exact hinitial.run_induction_of_allows (Store.regular_initial ids) hlog (fun _ _ hf => hf) hchange hcs

theorem regular_preserved_of_equal_names :
    let cs : List Command :=
      [.create "p" (.property (.text "x") (.named (.text "int")) {}),
        .create "q" (.property (.text "x") (.named (.text "int")) {}),
        .create "m" (.method (.text "m") {}), .create "n" (.method (.text "m") {}),
        .create "c" (.classType (.text "C") { attributes := [⟨9⟩] }),
        .assign (.name ⟨.property, 10⟩ (.text "y")), .call (.addAttribute ⟨15⟩ ⟨10⟩)]
    let c : Command := .create "d" (.classType (.text "D") { attributes := [⟨10⟩], methods := [⟨11⟩, ⟨13⟩] })
    let s := (Session.initial fun _ => ⟨0⟩).run cs
    (Session.initial fun _ => ⟨0⟩).Allows Store.SparesMembers cs ∧ s.store.Regular ∧
      (s.perform c).2 = .fault (.duplicateNames "A class" "methods" ["m"]) ∧ (s.perform c).1.store.Regular := by
  intro cs c s
  have hallows : (Session.initial fun _ => ⟨0⟩).Allows Store.SparesMembers cs := by decide
  obtain ⟨hperform, hrun⟩ := regular_preserved (fun _ => ⟨0⟩) cs
  exact ⟨hallows, hrun hallows, rfl, hperform (hrun hallows) c fun f hf => nomatch hf⟩

end ClassDiagram
