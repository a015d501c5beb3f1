import ClassDiagram.Proofs.Transitions

/-! What a construction answers with exists. One that is rejected has left alone what was there, unless it is that of a
class whose attributes have been taken before its methods are refused. -/

namespace ClassDiagram
open Roster

namespace Store

theorem checkPropertyOwner_of_ok {s s' : Store} {property : String} {o : Option Owner}
    (h : s.checkPropertyOwner property o = .ok ()) : s'.checkPropertyOwner property o = .ok () := by
  unfold checkPropertyOwner at h ⊢
  split at h
  · split_ifs at h ⊢
    rfl
  · rfl

theorem mem_withPrimitives {l : List TypeRef} (p : Primitive) : p.type ∈ withPrimitives l := by
  rw [withPrimitives, OrderedSet.mem_ofList]
  exact List.mem_append_right _ (List.mem_map.2 ⟨p, Primitive.mem_all p, rfl⟩)

end Store

namespace Edit
section
variable {may : Leave} {s s₁ : Store}

theorem ensures_linkEnds (may : Leave) {a : AssociationRef} {xs : OrderedSet PropertyRef} {cs : List ClassRef}
    {E : Fault → Store → Prop} :
    Ensures (linkEnds a xs cs) s (fun _ s' => (s.setEnds a xs cs).Stays may s') E :=
  Store.stays_noted .model _

theorem ensures_enter {kind : Kind} {r : Ref kind} {f : Store → Store} (hs : s.Stays may s₁)
    (hc : s₁.Change may (f s₁)) (hr : (f s₁).holds (.ref r)) :
    Ensures (do modify f; return r) s₁ (fun r s' => s.Reaches may s' ∧ s'.holds (.ref r)) fun _ s' => s.Stays may s' :=
  ensures_modify_return ⟨hs.reaches.trans hc.reaches, hr⟩

variable (hmay : may.draw)
include hmay

theorem ensures_beginElement (h : s.Sound) (kind : Kind) (name : Value) (o : NamedOptions) :
    Ensures (beginElement kind name o) s (fun r s' => s.Stays may s' ∧ s'.Fresh r.1 r.2)
      fun _ s' => s.Stays may s' := by
  have hdrawn := (Store.aside_drawn (s := s) hmay).stays
  refine ensures_bind.2 (ensures_draw.2 (ensures_check_bind hdrawn fun l hl => ensures_pure.2 ?_))
  exact ⟨hdrawn, h.spare_draw, name, o, hl⟩

theorem ensures_createBare {kind : Kind} (h : s.Sound) (hkind : kind ∈ [.plainType, .dataType, .primitiveType])
    (name : Value) (o : NamedOptions) :
    Ensures (createBare kind name o) s (fun r s' => s.Aside may s' ∧ s'.holds (.ref r)) fun _ s' => s.Stays may s' := by
  simp only [createBare, beginElement, ensures_bind, ensures_draw, ensures_check, ensures_pure, ensures_modify]
  have hdrawn := (Store.aside_drawn (s := s) hmay).stays
  constructor
  · intro l hl
    refine ⟨⟨hdrawn.trans (Store.Quiet.stays ?_), ?_⟩, Store.contains_enter_self⟩
    · exact .bare (r := ⟨s.created + 1⟩) o.timestamp hkind ⟨h.spare_draw, name, o, hl⟩ hmay
    · intro n hn
      have hne : n ≠ s.created + 1 := Nat.ne_of_lt (Nat.lt_succ_of_le hn.drawn)
      refine ⟨Nat.le_succ_of_le hn.drawn, ?_⟩
      show (s.headers.set (s.created + 1) _).get? n = none
      rw [Table.get?_set, if_neg hne, hn.untaken]
  · intro f _
    exact hdrawn.trans (Store.stays_blamed f)

theorem ensures_resolve (h : s.Sound) (source : TypeSource) (hm : ∀ i ∈ source.mentions, s.holds i) :
    Ensures (resolve source) s (fun t s' => s.Aside may s' ∧ s'.holds (.type t)) fun _ s' => s.Stays may s' := by
  cases source with
  | known t => exact ensures_pure.2 ⟨.refl, hm _ List.mem_cons_self⟩
  | named v =>
    unfold resolve
    dsimp only
    split
    · exact ensures_pure.2 ⟨.refl, h.primitive _⟩
    · exact ensures_map.2 (ensures_createBare hmay h List.mem_cons_self v {})

theorem ensures_enterMultiplicity {m : Multiplicity}
    (hm : m = .one ∨ ∃ lower upper, Multiplicity.ofBounds lower upper = .ok m) :
    Ensures (enterMultiplicity m) s (fun m s' => s.Aside may s' ∧ s'.holds (.multiplicity m))
      fun _ s' => s.Stays may s' :=
  ⟨⟨(Store.Quiet.multiplicity hm hmay).stays, fun _ hn => ⟨hn.drawn, hn.untaken⟩⟩, Nat.lt_succ_self _⟩

theorem ensures_multiplicityOrOne (m : Option MultiplicityRef)
    (hm : ∀ i ∈ m.toList.map Item.multiplicity, s.holds i) :
    Ensures (multiplicityOrOne m) s (fun m s' => s.Aside may s' ∧ s'.holds (.multiplicity m))
      fun _ s' => s.Stays may s' := by
  cases m with
  | some m => exact ensures_pure.2 ⟨.refl, hm _ List.mem_cons_self⟩
  | none => exact ensures_enterMultiplicity hmay (Or.inl rfl)

theorem creates_createBare {kind : Kind} (h : s.Sound) (hkind : kind ∈ [.plainType, .dataType, .primitiveType])
    (name : Value) (o : NamedOptions) : Creates may (createBare kind name o) s :=
  (ensures_createBare hmay h hkind name o).mono (fun _ _ hs => ⟨hs.1.stays.reaches, hs.2⟩) fun _ _ => id

theorem creates_createEnumeration (h : s.Sound) (name : Value) (o : EnumerationOptions)
    (hm : ∀ i ∈ Item.refs o.literals, s.holds i) : Creates may (createEnumeration name o) s := by
  refine (ensures_beginElement hmay h _ name o.toNamedOptions).bind fun (r, l) s₁ ⟨h₁, hr⟩ => ?_
  have hs₁ := h₁.grows h
  refine ensures_check_bind h₁ fun _ hcheck => ?_
  have hnew : s₁.Change may _ := .newEnumeration l o.timestamp hr (holds_ofList (hs₁.all hm)) hcheck hmay
  exact ensures_enter h₁ hnew Store.contains_enter_self

theorem creates_createLiteral (h : s.Sound) (name : Value) (o : LiteralOptions)
    (hm : ∀ i ∈ Item.types o.owner.toList, s.holds i) (hgive : o.owner.isSome → may.giveOwner) :
    Creates may (createLiteral name o) s := by
  refine (ensures_beginElement hmay h _ name o.toNamedOptions).bind fun (r, l) s₁ ⟨h₁, hr⟩ => ?_
  have hs₁ := h₁.grows h
  refine ensures_check_bind h₁ fun _ hcheck => ?_
  have hnew : s₁.Change may _ := .newLiteral l o.timestamp hr (hs₁.all hm) hcheck hmay hgive
  exact ensures_enter h₁ hnew Store.contains_enter_self

theorem creates_createProperty (h : s.Sound) (name : Value) (type : TypeSource) (o : PropertyOptions)
    (hm : ∀ i ∈ (Construction.property name type o).mentions, s.holds i)
    (hgive : o.owner.isSome → may.giveOwner) :
    Creates may (createProperty name type o) s := by
  obtain ⟨hl, hmultiplicity⟩ := List.forall_mem_append.1 hm
  obtain ⟨htype, howner⟩ := List.forall_mem_append.1 hl
  refine (ensures_beginElement hmay h _ name o.toNamedOptions).bind fun (r, l) s₁ ⟨h₁, hr₁⟩ => ?_
  have hs₁ := h₁.grows h
  refine ensures_after h₁ (ensures_resolve hmay hs₁.sound type (hs₁.all htype)) fun t s₂ ⟨h₁₂, ht⟩ => ?_
  have h₂ := h₁.trans h₁₂.stays
  have hs₂ := h₂.grows h
  refine ensures_check_bind h₂ fun _ hcheck => ?_
  refine ensures_after h₂ (ensures_multiplicityOrOne hmay o.multiplicity (hs₂.all hmultiplicity))
    fun m s₃ ⟨h₂₃, hmult⟩ => ?_
  have h₃ := h₂.trans h₂₃.stays
  have ht₃ := (h₂₃.stays.grows hs₂.sound).holds _ ht
  have hitems := List.forall_mem_cons.2 ⟨ht₃, List.forall_mem_cons.2 ⟨hmult, (h₃.grows h).all howner⟩⟩
  have hfresh := (h₁₂.trans h₂₃).fresh hr₁
  refine ensures_enter h₃ (.newProperty l o.timestamp hfresh hitems ?_ hmay hgive) Store.contains_enter_self
  exact Store.checkPropertyOwner_of_ok hcheck

theorem creates_createParameter (h : s.Sound) (name : Value) (type : TypeSource) (o : ParameterOptions)
    (hm : ∀ i ∈ type.mentions, s.holds i) : Creates may (createParameter name type o) s := by
  refine (ensures_beginElement hmay h _ name o.toNamedOptions).bind fun (r, l) s₁ ⟨h₁, hr⟩ => ?_
  have hs₁ := h₁.grows h
  refine ensures_after h₁ (ensures_resolve hmay hs₁.sound type (hs₁.all hm)) fun t s₂ ⟨h₁₂, ht⟩ => ?_
  have hitems := List.forall_mem_singleton.2 ht
  have hfresh := h₁₂.fresh hr
  exact ensures_enter (h₁.trans h₁₂.stays) (.newParameter l o.timestamp hfresh hitems hmay) Store.contains_enter_self

theorem creates_createMethod (h : s.Sound) (name : Value) (o : MethodOptions)
    (hm : ∀ i ∈ (Construction.method name o).mentions, s.holds i) (hgive : o.owner.isSome → may.giveOwner) :
    Creates may (createMethod name o) s := by
  obtain ⟨hl, howner⟩ := List.forall_mem_append.1 hm
  obtain ⟨htype, hparameters⟩ := List.forall_mem_append.1 hl
  have hvoid : ∀ i ∈ o.type.orVoid.mentions, s.holds i := by
    cases ht : o.type with
    | known t => exact fun i hi => htype i (ht ▸ hi)
    | named v => exact fun i hi => nomatch hi
  refine (ensures_beginElement hmay h _ name o.toNamedOptions).bind fun (r, l) s₁ ⟨h₁, hr⟩ => ?_
  have hs₁ := h₁.grows h
  refine ensures_after h₁ (ensures_resolve hmay hs₁.sound _ (hs₁.all hvoid)) fun t s₂ ⟨h₁₂, ht⟩ => ?_
  have h₂ := h₁.trans h₁₂.stays
  have hs₂ := h₂.grows h
  refine ensures_check_bind h₂ fun _ hp => ensures_check_bind h₂ fun _ ho => ?_
  have hmembers := List.forall_mem_append.2 ⟨hs₂.all howner, holds_ofList (hs₂.all hparameters)⟩
  have hitems := List.forall_mem_cons.2 ⟨ht, hmembers⟩
  exact ensures_enter h₂ (.newMethod l o.timestamp (h₁₂.fresh hr) hitems hp ho hmay hgive) Store.contains_enter_self

theorem creates_createAssociation (h : s.Sound) (isBinary : Bool) (name : Value) (ends : List PropertyRef)
    (o : NamedOptions) (hm : ∀ i ∈ Item.refs ends, s.holds i) :
    Creates may (createAssociation isBinary name ends o) s := by
  refine (ensures_beginElement hmay h _ name o).bind fun (r, l) s₁ ⟨h₁, hr⟩ => ?_
  have hs₁ := h₁.grows h
  refine ensures_check_bind h₁ fun cs hcheck => ensures_bind.2 (ensures_modify.2 ?_)
  have hnew : s₁.Change may _ := .newAssociation isBinary l o.timestamp hr (holds_ofList (hs₁.all hm)) hcheck hmay
  have hs₂ := (hnew.grows hs₁.sound).sound
  refine (ensures_linkEnds may).bind fun _ s₃ h₂₃ => ensures_pure.2 ?_
  have hreaches := h₁.reaches.trans (hnew.reaches.trans h₂₃.reaches)
  exact ⟨hreaches, (h₂₃.grows hs₂).holds (.ref r) Store.contains_enter_self⟩

theorem creates_createGeneralization (h : s.Sound) (general specific : ClassRef) (timestamp : Option Int)
    (hm : ∀ i ∈ [Item.ref general, .ref specific], s.holds i) :
    Creates may (createGeneralization general specific timestamp) s := by
  have hdrawn := (Store.aside_drawn (s := s) hmay).stays
  obtain ⟨hg, hs⟩ := holds_pair ((hdrawn.grows h).all hm)
  refine ensures_bind.2 (ensures_draw.2 (ensures_check_bind hdrawn fun _ hcheck => ?_))
  have hne : general ≠ specific := by
    intro heq
    rw [if_pos heq] at hcheck
    cases hcheck
  exact ensures_enter hdrawn (.newGeneralization timestamp h.spare_draw hg hs hne hmay) Store.contains_enter_self

theorem creates_createGeneralizationSet (h : s.Sound) (name : Value) (members : List GeneralizationRef)
    (o : GeneralizationSetOptions) (hm : ∀ i ∈ Item.refs members, s.holds i) :
    Creates may (createGeneralizationSet name members o) s := by
  refine (ensures_beginElement hmay h _ name o.toNamedOptions).bind fun (r, l) s₁ ⟨h₁, hr⟩ => ?_
  have hmembers := holds_ofList ((h₁.grows h).all hm)
  exact ensures_enter h₁ (.newGeneralizationSet l o.timestamp hr hmembers hmay) Store.contains_enter_self

theorem creates_createPackage (h : s.Sound) (name : Value) (members : List ClassRef) (o : NamedOptions)
    (hm : ∀ i ∈ Item.refs members, s.holds i) : Creates may (createPackage name members o) s := by
  refine (ensures_beginElement hmay h _ name o).bind fun (r, l) s₁ ⟨h₁, hr⟩ => ?_
  have hmembers := holds_ofList ((h₁.grows h).all hm)
  exact ensures_enter h₁ (.newPackage l o.timestamp hr hmembers hmay) Store.contains_enter_self

theorem creates_createConstraint (h : s.Sound) (name : Value) (context : ClassRef) (expression : Value)
    (o : ConstraintOptions) (hm : ∀ i ∈ [Item.ref context], s.holds i) :
    Creates may (createConstraint name context expression o) s := by
  refine (ensures_beginElement hmay h _ name o.toNamedOptions).bind fun (r, l) s₁ ⟨h₁, hr⟩ => ?_
  exact ensures_enter h₁ (.newConstraint l o.timestamp hr ((h₁.grows h).all hm) hmay) Store.contains_enter_self

theorem creates_createModel (h : s.Sound) (name : Value) (o : ModelOptions)
    (hm : ∀ i ∈ (Construction.model name o).mentions, s.holds i) : Creates may (createModel name o) s := by
  obtain ⟨hm, hconstraints⟩ := List.forall_mem_append.1 hm
  obtain ⟨hm, hpackages⟩ := List.forall_mem_append.1 hm
  obtain ⟨hm, hgeneralizations⟩ := List.forall_mem_append.1 hm
  obtain ⟨htypes, hassociations⟩ := List.forall_mem_append.1 hm
  refine (ensures_beginElement hmay h _ name o.toNamedOptions).bind fun (r, l) s₁ ⟨h₁, hr⟩ => ?_
  refine ensures_after h₁ ensures_check_note fun _ s₂ ⟨ht, h₁₂, hl₁₂⟩ => ?_
  have h₂ := h₁.trans h₁₂.stays
  refine ensures_check_bind h₂ fun _ hp => ensures_check_bind h₂ fun _ hc => ?_
  refine ensures_after h₂ ensures_check_note fun _ s₃ ⟨ha, h₂₃, hl₂₃⟩ => ?_
  have h₃ := h₂.trans h₂₃.stays
  have hs₃ := h₃.grows h
  refine ensures_enter h₃ (.newModel l o.timestamp ((h₁₂.trans h₂₃).fresh hr) ?_ ?_ ?_ ?_ ?_ ?_ hmay)
    Store.contains_enter_self
  · rw [ModelRecord.forall_items]
    refine ⟨hs₃.sound.holds_withPrimitives (hs₃.all htypes), ?_, ?_, ?_, ?_⟩
    · exact holds_ofList (hs₃.all hassociations)
    · exact holds_ofList (hs₃.all hgeneralizations)
    · exact holds_ofList (hs₃.all hpackages)
    · exact holds_ofList (hs₃.all hconstraints)
  · exact Store.mem_withPrimitives
  · rwa [Store.typeNames_congr (hl₂₃.trans hl₁₂)]
  · rwa [Store.namesOf_congr hl₂₃]
  · rwa [Store.namesOf_congr hl₂₃]
  · rwa [Store.namesOf_congr hl₂₃]

end

end Edit

/-- All but the methods of a class is accepted. -/
def ClassOptions.MethodsRefused (name : Value) (o : ClassOptions) (s : Store) : Prop :=
  ∃ l, Label.check .classType name o.toNamedOptions = .ok l ∧
    s.checkAttributes l.name (.ofList o.attributes) = .ok () ∧ ∃ f, s.checkMethods (.ofList o.methods) = .error f

namespace Store

theorem checkMethods_enroll {s : Store} {r : ClassRef} {record : ClassRecord} {l : Label} {timestamp : Option Int}
    {xs : OrderedSet PropertyRef} {ms : OrderedSet MethodRef} (hr : s.Spare r.order)
    (hm : ∀ i ∈ Item.refs ms.toList, s.holds i) :
    ((Roster.classes.enroll s r record l timestamp).setAttributes r xs).checkMethods ms = s.checkMethods ms := by
  unfold checkMethods
  congr 1
  refine List.map_congr_left fun m hmem => ?_
  have hne := hr.ne_of_holds (hm _ (Item.mem_refs.2 ⟨m, hmem, rfl⟩))
  show ((s.labels.set r.order l).get m.order).name = (s.labels.get m.order).name
  rw [Table.get_set, if_neg hne]

/-- A class has taken attributes and is left at that. -/
inductive Strands (may : Leave) (s : Store) (xs : OrderedSet PropertyRef) : Store → Prop where
  | intro {s₁ s' : Store} {r : ClassRef} {l : Label} (timestamp : Option Int) (isAbstract isReadOnly : Value)
    (isAssociationClass : Bool) (hs : s.Stays may s₁) (hr : s₁.Fresh r l)
    (hx : ∀ i ∈ Item.refs xs.toList, s₁.holds i) (hcheck : s₁.checkAttributes l.name xs = .ok ()) (hmay : may.draw)
    (hs' : ((Roster.classes.enroll s₁ r { (default : ClassRecord) with isAbstract, isReadOnly, isAssociationClass } l
      timestamp).setAttributes r xs).Stays may s') :
    Strands may s xs s'

/-- The later store is what a rejected edit leaves, given the attributes of a class that only its methods prevent. -/
def Rejects (may : Leave) (s : Store) (refused : List PropertyRef → Prop) (s' : Store) : Prop :=
  (∀ attributes, ¬ refused attributes) ∧ s.Stays may s' ∨
    ∃ attributes, refused attributes ∧ s.Strands may (.ofList attributes) s'

theorem Strands.reaches {may : Leave} {s s' : Store} {xs : OrderedSet PropertyRef}
    (h : s.Strands may xs s') : s.Reaches may s' := by
  obtain ⟨timestamp, isAbstract, isReadOnly, isAssociationClass, hs, hr, hx, hcheck, hmay, hs'⟩ := h
  have hnew : Store.Change may _ _ := .newClass _ timestamp isAbstract isReadOnly isAssociationClass hr hx hcheck hmay
  exact hs.reaches.trans (hnew.reaches.trans hs'.reaches)

theorem Rejects.reaches {may : Leave} {s s' : Store} {refused : List PropertyRef → Prop}
    (h : s.Rejects may refused s') : s.Reaches may s' := by
  rcases h with ⟨_, hs⟩ | ⟨_, _, hs⟩
  · exact hs.reaches
  · exact hs.reaches

end Store

namespace Edit
variable {may : Leave} {s : Store}

theorem ensures_createClassOf (hmay : may.draw) (h : s.Sound) (isAssociationClass : Bool) (name : Value)
    (o : ClassOptions) (ha : ∀ i ∈ Item.refs o.attributes, s.holds i) (hm : ∀ i ∈ Item.refs o.methods, s.holds i) :
    Ensures (createClassOf isAssociationClass name o) s (fun r s' => s.Reaches may s' ∧ s'.holds (.ref r)) fun _ s' =>
      ¬ o.MethodsRefused name s ∧ s.Stays may s' ∨
        o.MethodsRefused name s ∧ s.Strands may (.ofList o.attributes) s' := by
  have hdrawn := (Store.aside_drawn (s := s) hmay).stays
  have hs₁ := hdrawn.grows h
  simp only [createClassOf, beginElement, replaceMethods, ensures_bind, ensures_draw, ensures_check, ensures_pure,
    ensures_modify]
  -- the label, the attributes and the methods are checked in this order, the last after the attributes are taken
  refine ⟨fun l hl => ⟨fun _ hcheck => ?_, fun f hf => ?_⟩, fun f hf => ?_⟩
  · have hr : Store.Fresh { s with created := s.created + 1 } (⟨s.created + 1⟩ : ClassRef) l :=
      ⟨h.spare_draw, name, o.toNamedOptions, hl⟩
    have hnew : Store.Change may _ _ := .newClass l o.timestamp (o.isAbstract.getD (.bool false))
      (o.isReadOnly.getD (.bool false)) isAssociationClass hr (holds_ofList (hs₁.all ha)) hcheck hmay
    have hs₃ := hnew.grows hs₁.sound
    constructor
    · intro _ hmethods
      have hmembers := holds_ofList (hs₃.all (hs₁.all hm))
      refine ⟨hdrawn.reaches.trans (hnew.reaches.trans (Store.Change.methods ?_ hmembers hmethods).reaches), ?_⟩
      · exact Store.contains_enter_self
      · exact Store.contains_enter_self
    · intro f hf
      have hrefused : o.MethodsRefused name s := by
        refine ⟨l, hl, hcheck, f, ?_⟩
        rw [← hf]
        exact (Store.checkMethods_enroll h.spare_draw (holds_ofList (hs₁.all hm))).symm
      have hattributes := holds_ofList (hs₁.all ha)
      exact Or.inr ⟨hrefused, .intro _ _ _ _ hdrawn hr hattributes hcheck hmay (Store.stays_blamed f)⟩
  · refine Or.inl ⟨?_, hdrawn.trans (Store.stays_blamed f)⟩
    intro hrefused
    obtain ⟨l', hl', hcheck, _⟩ := hrefused
    cases hl.symm.trans hl'
    cases hf.symm.trans hcheck
  · refine Or.inl ⟨?_, hdrawn.trans (Store.stays_blamed f)⟩
    intro hrefused
    obtain ⟨l, hl, _⟩ := hrefused
    cases hf.symm.trans hl

theorem ensures_createAssociationClass (hmay : may.draw) (h : s.Sound) (name : Value) (attributes : List PropertyRef)
    (a : AssociationRef) (o : ClassOptions)
    (hm : ∀ i ∈ (Construction.associationClass name attributes a o).mentions, s.holds i) :
    Ensures (createAssociationClass name attributes a o) s (fun r s' => s.Reaches may s' ∧ s'.holds (.ref r))
      fun _ s' =>
        ¬ { o with attributes }.MethodsRefused name s ∧ s.Stays may s' ∨
          { o with attributes }.MethodsRefused name s ∧ s.Strands may (.ofList attributes) s' := by
  obtain ⟨hl, hmethods⟩ := List.forall_mem_append.1 hm
  obtain ⟨ha, hattributes⟩ := holds_cons hl
  have hclass : Ensures _ s (fun r s' => s.Reaches may s' ∧ s'.holds (.ref r)) _ :=
    ensures_createClassOf hmay h true name { o with attributes } hattributes hmethods
  refine hclass.bind fun r s₁ ⟨h₁, hr⟩ => ensures_modify_return ?_
  have hdescribe : s₁.Change may _ := .describedAssociation hr ((h₁.grows h).holds _ ha)
  exact ⟨h₁.trans hdescribe.reaches, hr⟩

end Edit

open Edit

inductive Construction.MethodsRefused (s : Store) : Construction → List PropertyRef → Prop where
  | classType {name : Value} {o : ClassOptions} (h : o.MethodsRefused name s) :
    MethodsRefused s (.classType name o) o.attributes
  | associationClass {name : Value} {attributes : List PropertyRef} (a : AssociationRef) {o : ClassOptions}
    (h : { o with attributes }.MethodsRefused name s) :
    MethodsRefused s (.associationClass name attributes a o) attributes

theorem Construction.methodsRefused_classType {s : Store} {name : Value} {o : ClassOptions} {l : List PropertyRef} :
    (Construction.classType name o).MethodsRefused s l ↔ l = o.attributes ∧ o.MethodsRefused name s := by
  constructor
  · intro h
    cases h with
    | classType h => exact ⟨rfl, h⟩
  · intro h
    rw [h.1]
    exact .classType h.2

theorem Construction.methodsRefused_associationClass {s : Store} {name : Value} {attributes l : List PropertyRef}
    {a : AssociationRef} {o : ClassOptions} :
    (Construction.associationClass name attributes a o).MethodsRefused s l ↔
      l = attributes ∧ { o with attributes }.MethodsRefused name s := by
  constructor
  · intro h
    cases h with
    | associationClass a h => exact ⟨rfl, h⟩
  · intro h
    rw [h.1]
    exact .associationClass a h.2

theorem Store.rejects_of_iff {s s' : Store} {refused : List PropertyRef → Prop} {attributes : List PropertyRef}
    {p : Prop} (hrefused : ∀ l, refused l ↔ l = attributes ∧ p)
    (h : ¬ p ∧ s.Stays may s' ∨ p ∧ s.Strands may (.ofList attributes) s') : s.Rejects may refused s' := by
  rcases h with ⟨hp, hs⟩ | ⟨hp, hs⟩
  · exact Or.inl ⟨fun l hl => hp ((hrefused l).1 hl).2, hs⟩
  · exact Or.inr ⟨attributes, (hrefused attributes).2 ⟨rfl, hp⟩, hs⟩

theorem Construction.ensures {may : Leave} {s : Store} (hmay : may.draw) (h : s.Sound) (c : Construction)
    (hm : ∀ i ∈ c.mentions, s.holds i) (hgive : c.givesOwner → may.giveOwner) :
    c.edit.Ensures s (fun d s' => s.Reaches may s' ∧ ∀ i ∈ d.item?, s'.holds i)
      fun _ s' => s.Rejects may (c.MethodsRefused s) s' := by
  have hcreated : ∀ {kind : Kind} {x : Edit (Ref kind)} {E : Fault → Store → Prop},
      x.Ensures s (fun r s' => s.Reaches may s' ∧ s'.holds (.ref r)) E →
      (created <$> x).Ensures s (fun d s' => s.Reaches may s' ∧ ∀ i ∈ d.item?, s'.holds i) E :=
    fun hx => ensures_map.2 (hx.mono (fun _ _ hr => ⟨hr.1, fun _ hi => Option.mem_some.1 hi ▸ hr.2⟩) fun _ _ => id)
  -- whatever is no class leaves nothing behind when it is refused
  have hplain : ∀ {kind : Kind} {x : Edit (Ref kind)}, Creates may x s →
      (∀ attributes, ¬ c.MethodsRefused s attributes) →
      (created <$> x).Ensures s (fun d s' => s.Reaches may s' ∧ ∀ i ∈ d.item?, s'.holds i)
        fun _ s' => s.Rejects may (c.MethodsRefused s) s' :=
    fun hx hc => (hcreated hx).mono (fun _ _ => id) fun _ _ hs => Or.inl ⟨hc, hs⟩
  cases c with
  | multiplicity lower upper =>
    have henter : (createMultiplicity lower upper).Ensures s
        (fun m s' => s.Aside may s' ∧ s'.holds (.multiplicity m)) fun _ s' => s.Stays may s' :=
      ensures_check_bind .refl fun m hm => ensures_enterMultiplicity hmay (Or.inr ⟨lower, upper, hm⟩)
    refine ensures_map.2 (henter.mono (fun m _ hs => ?_) fun _ _ hs => Or.inl ⟨nofun, hs⟩)
    exact ⟨hs.1.stays.reaches, fun _ hi => Option.mem_some.1 hi ▸ hs.2⟩
  | plainType name o => exact hplain (creates_createBare hmay h (by decide) name o) nofun
  | dataType name o => exact hplain (creates_createBare hmay h (by decide) name o) nofun
  | primitiveType name o => exact hplain (creates_createBare hmay h (by decide) name o) nofun
  | enumeration name o => exact hplain (creates_createEnumeration hmay h name o hm) nofun
  | literal name o => exact hplain (creates_createLiteral hmay h name o hm hgive) nofun
  | classType name o =>
    obtain ⟨ha, hm⟩ := List.forall_mem_append.1 hm
    apply (hcreated (ensures_createClassOf hmay h false name o ha hm)).mono fun _ _ => id
    exact fun _ _ => Store.rejects_of_iff fun _ => methodsRefused_classType
  | associationClass name attributes a o =>
    apply (hcreated (ensures_createAssociationClass hmay h name attributes a o hm)).mono fun _ _ => id
    exact fun _ _ => Store.rejects_of_iff fun _ => methodsRefused_associationClass
  | property name type o => exact hplain (creates_createProperty hmay h name type o hm hgive) nofun
  | parameter name type o => exact hplain (creates_createParameter hmay h name type o hm) nofun
  | method name o => exact hplain (creates_createMethod hmay h name o hm hgive) nofun
  | association isBinary name ends o =>
    exact hplain (creates_createAssociation hmay h isBinary name ends o hm) nofun
  | generalization general specific timestamp =>
    exact hplain (creates_createGeneralization hmay h general specific timestamp hm) nofun
  | generalizationSet name members o =>
    exact hplain (creates_createGeneralizationSet hmay h name members o hm) nofun
  | package name members o => exact hplain (creates_createPackage hmay h name members o hm) nofun
  | constraint name context expression o =>
    exact hplain (creates_createConstraint hmay h name context expression o hm) nofun
  | model name o => exact hplain (creates_createModel hmay h name o hm) nofun

end ClassDiagram
