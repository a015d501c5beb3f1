import ClassDiagram.Proofs.Changes

/-! An edit that mentions only what exists is a course of changes, and one that is rejected has left alone what was
there. Only a class can be refused after its attributes have been taken. -/

namespace ClassDiagram
open Roster

namespace Store
variable {may : Leave} {s s' s'' : Store}

theorem labels_noted (channel : Channel) (message : String) : (s.noted channel message).labels = s.labels := by
  unfold noted
  split_ifs <;> rfl

theorem namesOf_congr {kind : Kind} (h : s'.labels = s.labels) (xs : OrderedSet (Ref kind)) :
    s'.namesOf xs = s.namesOf xs := by
  simp only [namesOf, Ref.name, nameAt, h]

theorem typeNames_congr (h : s'.labels = s.labels) (xs : OrderedSet TypeRef) :
    s'.typeNames xs = s.typeNames xs := by
  simp only [typeNames, TypeRef.name, nameAt, h]

theorem stays_noted (channel : Channel) (message : String) : s.Stays may (s.noted channel message) :=
  (Quiet.noted channel message).stays

theorem stays_blamed (f : Fault) : s.Stays may (s.blamed f) := by
  unfold blamed
  split_ifs
  · exact stays_noted .error f.message
  · exact .refl

/-- The later store has come about without taking a number that was spare. -/
structure Aside (may : Leave) (s s' : Store) : Prop where
  stays : s.Stays may s'
  spare : ∀ n, s.Spare n → s'.Spare n

theorem Aside.refl : s.Aside may s := ⟨.refl, fun _ => id⟩

theorem Aside.trans (h : s.Aside may s') (h' : s'.Aside may s'') : s.Aside may s'' :=
  ⟨h.stays.trans h'.stays, fun n hn => h'.spare n (h.spare n hn)⟩

theorem Aside.fresh {kind : Kind} {r : Ref kind} {l : Label} (h : s.Aside may s') (hr : s.Fresh r l) : s'.Fresh r l :=
  ⟨h.spare _ hr.spare, hr.fits⟩

theorem aside_noted (channel : Channel) (message : String) : s.Aside may (s.noted channel message) := by
  refine ⟨stays_noted channel message, fun n hn => ?_⟩
  unfold noted
  split_ifs
  · exact ⟨hn.drawn, hn.untaken⟩
  · exact hn

theorem aside_drawn (hmay : may.draw) : s.Aside may { s with created := s.created + 1 } :=
  ⟨(Quiet.drawn hmay).stays, fun _ hn => ⟨Nat.le_succ_of_le hn.drawn, hn.untaken⟩⟩

end Store

namespace Edit
variable {α β : Type} {may : Leave} {s s₁ : Store}

/-- An accepted edit comes to changes of the store, a rejected one to none of what is there. -/
def Changes (may : Leave) (x : Edit α) (s : Store) : Prop :=
  x.Ensures s (fun _ s' => s.Reaches may s') fun _ s' => s.Stays may s'

def Creates {kind : Kind} (may : Leave) (x : Edit (Ref kind)) (s : Store) : Prop :=
  x.Ensures s (fun r s' => s.Reaches may s' ∧ s'.holds (.ref r)) fun _ s' => s.Stays may s'

theorem Changes.map {x : Edit α} {f : α → β} (h : Changes may x s) : Changes may (f <$> x) s := ensures_map.2 h

theorem changes_modify {f : Store → Store} (h : s.Change may (f s)) : Changes may (modify f) s := h.reaches

theorem changes_check {q : Store → Except Fault α} : Changes may (check q) s :=
  ensures_check.2 ⟨fun _ _ => Store.Reaches.refl, fun f _ => Store.stays_blamed f⟩

theorem changes_reading {q : Store → α} : Changes may (reading q) s := Store.Reaches.refl

theorem ensures_after {x : Edit α} {k : α → Edit β} {P : α → Store → Prop} {Q : β → Store → Prop}
    (h : s.Stays may s₁) (hx : Ensures x s₁ P fun _ s' => s₁.Stays may s')
    (hk : ∀ a s', P a s' → Ensures (k a) s' Q fun _ s' => s.Stays may s') :
    Ensures (x >>= k) s₁ Q fun _ s' => s.Stays may s' :=
  ensures_bind.2 (hx.mono hk fun _ _ => h.trans)

theorem ensures_check_bind {q : Store → Except Fault α} {k : α → Edit β} {Q : β → Store → Prop} (h : s.Stays may s₁)
    (hk : ∀ a, q s₁ = .ok a → Ensures (k a) s₁ Q fun _ s' => s.Stays may s') :
    Ensures (check q >>= k) s₁ Q fun _ s' => s.Stays may s' :=
  ensures_bind.2 (ensures_check.2 ⟨hk, fun f _ => h.trans (Store.stays_blamed f)⟩)

theorem changes_check_modify {q : Store → Except Fault α} {f : α → Store → Store}
    (hf : ∀ a, q s = .ok a → s.Change may (f a s)) : Changes may (check q >>= fun a => modify (f a)) s :=
  ensures_check_bind .refl fun a ha => (hf a ha).reaches

theorem ensures_check_note {q : Store → Except Fault Unit} {channel : Channel} {message : String} :
    Ensures (do check q; note channel message) s
      (fun _ s' => q s = .ok () ∧ s.Aside may s' ∧ s'.labels = s.labels) fun _ s' => s.Stays may s' :=
  ensures_check_bind .refl fun _ h => ensures_note.2 ⟨h, Store.aside_noted _ _, Store.labels_noted _ _⟩

theorem ensures_modify_return {a : α} {f : Store → Store} {Q : α → Store → Prop} {E : Fault → Store → Prop}
    (h : Q a (f s)) : Ensures (do modify f; return a) s Q E := h

theorem holds_cons {i : Item} {l : List Item} (h : ∀ x ∈ i :: l, s.holds x) : s.holds i ∧ ∀ x ∈ l, s.holds x :=
  List.forall_mem_cons.1 h

theorem holds_pair {i j : Item} (h : ∀ x ∈ [i, j], s.holds x) : s.holds i ∧ s.holds j :=
  ⟨(holds_cons h).1, (holds_cons (holds_cons h).2).1⟩

theorem holds_ofList {kind : Kind} {l : List (Ref kind)} (h : ∀ i ∈ Item.refs l, s.holds i) :
    ∀ i ∈ Item.refs (OrderedSet.ofList l).toList, s.holds i :=
  fun i hi => h i (Item.mem_refs_ofList.1 hi)

theorem changes_replaceAttributes {c : ClassRef} {l : List PropertyRef} (hc : s.holds (.ref c))
    (hl : ∀ i ∈ Item.refs l, s.holds i) : Changes may (replaceAttributes c l) s :=
  changes_check_modify fun _ => .attributes hc (holds_ofList hl)

theorem changes_replaceMethods {c : ClassRef} {l : List MethodRef} (hc : s.holds (.ref c))
    (hl : ∀ i ∈ Item.refs l, s.holds i) : Changes may (replaceMethods c l) s :=
  changes_check_modify fun _ => .methods hc (holds_ofList hl)

theorem changes_replaceLiterals {e : EnumerationRef} {l : List LiteralRef} (he : s.holds (.ref e))
    (hl : ∀ i ∈ Item.refs l, s.holds i) : Changes may (replaceLiterals e l) s :=
  changes_check_modify fun _ => .literals he (holds_ofList hl)

theorem changes_replaceParameters {m : MethodRef} {l : List ParameterRef} (hm : s.holds (.ref m))
    (hl : ∀ i ∈ Item.refs l, s.holds i) : Changes may (replaceParameters m l) s :=
  changes_check_modify fun _ => .parameters hm (holds_ofList hl)

theorem changes_replaceEnds {a : AssociationRef} {l : List PropertyRef} (ha : s.holds (.ref a))
    (hl : ∀ i ∈ Item.refs l, s.holds i) : Changes may (replaceEnds a l) s := by
  refine ensures_check_bind .refl fun cs hcs => ?_
  have hset : s.Reaches may _ := Store.Change.reaches (.ends ha (holds_ofList hl) hcs)
  exact hset.trans (Store.stays_noted _ _).reaches

theorem changes_setGeneral {g : GeneralizationRef} {c : ClassRef} (hg : s.holds (.ref g))
    (hc : s.holds (.ref c)) : Changes may (setGeneral g c) s := by
  refine ensures_check_bind .refl fun _ hcheck => ?_
  have hset : s.Reaches may _ := Store.Change.reaches (.general hg hc hcheck)
  exact hset.trans (Store.stays_noted _ _).reaches

theorem changes_setSpecific {g : GeneralizationRef} {c : ClassRef} (hg : s.holds (.ref g))
    (hc : s.holds (.ref c)) : Changes may (setSpecific g c) s := by
  refine ensures_check_bind .refl fun _ hcheck => ?_
  have hset : s.Reaches may _ := Store.Change.reaches (.specific hg hc hcheck)
  exact hset.trans (Store.stays_noted _ _).reaches

theorem changes_accept_modify {q : Store → Except Fault Unit} {channel : Channel} {message : String}
    {f : Store → Store} (hf : ∀ s', q s = .ok () → s.Aside may s' → s'.labels = s.labels → s'.Change may (f s')) :
    Changes may (do (do check q; note channel message); modify f) s :=
  ensures_after .refl ensures_check_note fun _ s' ⟨hq, haside, hlabels⟩ =>
    haside.stays.reaches.trans (hf s' hq haside hlabels).reaches

theorem changes_replaceTypes (h : s.Sound) {m : ModelRef} {l : List TypeRef} (hm : s.holds (.ref m))
    (hl : ∀ i ∈ Item.types l, s.holds i) : Changes may (replaceTypes m l) s := by
  refine ensures_bind.2 (ensures_get.2 (changes_accept_modify fun s' hq haside hlabels => ?_))
  have hs := haside.stays.grows h
  exact .types (hs.holds _ hm) (hs.all hl) (by rwa [Store.typeNames_congr hlabels])

theorem changes_replaceAssociations (h : s.Sound) {m : ModelRef} {l : List AssociationRef} (hm : s.holds (.ref m))
    (hl : ∀ i ∈ Item.refs l, s.holds i) : Changes may (replaceAssociations m l) s := by
  refine ensures_bind.2 (ensures_get.2 (changes_accept_modify fun s' hq haside hlabels => ?_))
  have hs := haside.stays.grows h
  exact .associations (hs.holds _ hm) (holds_ofList (hs.all hl)) (by rwa [Store.namesOf_congr hlabels])

theorem changes_replaceGeneralizations {m : ModelRef} {l : List GeneralizationRef} (hm : s.holds (.ref m))
    (hl : ∀ i ∈ Item.refs l, s.holds i) : Changes may (replaceGeneralizations m l) s :=
  changes_modify (.generalizations hm (holds_ofList hl))

theorem changes_replacePackages {m : ModelRef} {l : List PackageRef} (hm : s.holds (.ref m))
    (hl : ∀ i ∈ Item.refs l, s.holds i) : Changes may (replacePackages m l) s :=
  changes_check_modify fun _ => .packages hm (holds_ofList hl)

theorem changes_replaceConstraints {m : ModelRef} {l : List ConstraintRef} (hm : s.holds (.ref m))
    (hl : ∀ i ∈ Item.refs l, s.holds i) : Changes may (replaceConstraints m l) s :=
  changes_check_modify fun _ => .constraints hm (holds_ofList hl)

end Edit

open Edit

theorem Assignment.changes {may : Leave} {s : Store} (h : s.Sound) (a : Assignment)
    (hm : ∀ i ∈ a.mentions, s.holds i) (hf : ∀ f ∈ a.facet?, may.assign s f)
    (hgive : a.givesOwner → may.giveOwner) : a.edit.Changes may s := by
  cases a with
  | name e v => exact changes_check_modify fun _ hv => .name (hm _ List.mem_cons_self) hv (hf _ rfl)
  | visibility e v => exact changes_check_modify fun _ => .visibility (hm _ List.mem_cons_self)
  | synonyms e v => exact changes_modify (.synonyms v (hm _ List.mem_cons_self))
  | timestamp e t => exact changes_modify (.timestamp t (hm _ List.mem_cons_self))
  | attributes c l =>
    exact changes_replaceAttributes (holds_cons hm).1 (holds_cons hm).2
  | methods c l => exact changes_replaceMethods (holds_cons hm).1 (holds_cons hm).2
  | isAbstractClass c v => exact changes_modify (.abstractClass c v)
  | isReadOnlyClass c v => exact changes_modify (.readOnlyClass c v)
  | describedAssociation c a =>
    exact changes_modify (.describedAssociation (holds_pair hm).1 (holds_pair hm).2)
  | literals e l => exact changes_replaceLiterals (holds_cons hm).1 (holds_cons hm).2
  | literalOwner l o =>
    exact changes_check_modify fun _ hcheck =>
      .literalOwner (holds_cons hm).1 (holds_cons hm).2 hcheck hgive
  | propertyType p t => exact changes_modify (.propertyType (holds_pair hm).1 (holds_pair hm).2 (hf _ rfl))
  | propertyOwner p o =>
    exact changes_check_modify fun _ hcheck =>
      .propertyOwner (holds_cons hm).1 (holds_cons hm).2 hcheck hgive
  | propertyMultiplicity p m => exact changes_modify (.propertyMultiplicity (holds_pair hm).1 (holds_pair hm).2)
  | isComposite p v => exact changes_modify (.composite p v (hf _ rfl))
  | isNavigable p v => exact changes_modify (.navigable p v)
  | isId p v => exact changes_modify (.identifying p v (hf _ rfl))
  | isReadOnlyProperty p v => exact changes_modify (.readOnlyProperty p v)
  | parameterType p t => exact changes_modify (.parameterType (holds_pair hm).1 (holds_pair hm).2)
  | defaultValue p v => exact changes_modify (.defaultValue p v)
  | methodType m t => exact changes_modify (.methodType (holds_pair hm).1 (holds_pair hm).2)
  | methodOwner m o =>
    exact changes_check_modify fun _ hcheck =>
      .methodOwner (holds_cons hm).1 (holds_cons hm).2 hcheck hgive
  | parameters m l => exact changes_replaceParameters (holds_cons hm).1 (holds_cons hm).2
  | isAbstractMethod m v => exact changes_modify (.abstractMethod m v)
  | code m v => exact changes_modify (.code m v)
  | ends a l => exact changes_replaceEnds (holds_cons hm).1 (holds_cons hm).2
  | general g c => exact changes_setGeneral (holds_pair hm).1 (holds_pair hm).2
  | specific g c => exact changes_setSpecific (holds_pair hm).1 (holds_pair hm).2
  | groupedGeneralizations g l =>
    exact changes_modify (.grouped (holds_cons hm).1 (holds_ofList (holds_cons hm).2))
  | isDisjoint g v => exact changes_modify (.disjoint g v)
  | isComplete g v => exact changes_modify (.complete g v)
  | packagedClasses p l =>
    exact changes_modify (.packaged (holds_cons hm).1 (holds_ofList (holds_cons hm).2))
  | context k c => exact changes_modify (.context (holds_pair hm).1 (holds_pair hm).2)
  | expression k v => exact changes_modify (.expression k v)
  | language k v => exact changes_modify (.language k v)
  | types m l => exact changes_replaceTypes h (holds_cons hm).1 (holds_cons hm).2
  | associations m l =>
    exact changes_replaceAssociations h (holds_cons hm).1 (holds_cons hm).2
  | generalizations m l =>
    exact changes_replaceGeneralizations (holds_cons hm).1 (holds_cons hm).2
  | packages m l => exact changes_replacePackages (holds_cons hm).1 (holds_cons hm).2
  | constraints m l => exact changes_replaceConstraints (holds_cons hm).1 (holds_cons hm).2
  | lower m v => exact changes_check_modify fun _ => .lower
  | upper m v => exact changes_check_modify fun _ => .upper

namespace Edit
variable {α : Type} {may : Leave} {s s₁ : Store}

theorem holds_append {kind : Kind} {l : List (Ref kind)} {r : Ref kind} (hl : ∀ i ∈ Item.refs l, s.holds i)
    (hr : s.holds (.ref r)) : ∀ i ∈ Item.refs (l ++ [r]), s.holds i := by
  intro i hi
  obtain ⟨x, hx, rfl⟩ := Item.mem_refs.1 hi
  rcases List.mem_append.1 hx with hx | hx
  · exact hl _ (Item.mem_refs.2 ⟨x, hx, rfl⟩)
  · exact List.mem_singleton.1 hx ▸ hr

theorem changes_addType (h : s.Sound) {m : ModelRef} {t : TypeRef} (hm : s.holds (.ref m))
    (ht : s.holds (.type t)) : Changes may (addType m t) s := by
  obtain ⟨htypes, _⟩ := ModelRecord.forall_items.1 (h.closed m.element hm)
  apply ensures_bind.2
  apply changes_replaceTypes h hm
  intro i hi
  obtain ⟨u, hu, rfl⟩ := Item.mem_types.1 hi
  rcases List.mem_append.1 hu with hu | hu
  · exact htypes _ (Item.mem_types.2 ⟨u, hu, rfl⟩)
  · rw [List.mem_singleton.1 hu]
    exact ht

theorem changes_addAssociation (h : s.Sound) {m : ModelRef} {a : AssociationRef} (hm : s.holds (.ref m))
    (ha : s.holds (.ref a)) : Changes may (addAssociation m a) s := by
  obtain ⟨_, hassociations, _⟩ := ModelRecord.forall_items.1 (h.closed m.element hm)
  apply ensures_bind.2
  exact changes_replaceAssociations h hm (holds_append hassociations ha)

theorem changes_addGeneralization (h : s.Sound) {m : ModelRef} {g : GeneralizationRef} (hm : s.holds (.ref m))
    (hg : s.holds (.ref g)) : Changes may (addGeneralization m g) s := by
  obtain ⟨_, _, hgeneralizations, _⟩ := ModelRecord.forall_items.1 (h.closed m.element hm)
  apply ensures_bind.2
  exact changes_replaceGeneralizations hm (holds_append hgeneralizations hg)

theorem changes_addPackage (h : s.Sound) {m : ModelRef} {p : PackageRef} (hm : s.holds (.ref m))
    (hp : s.holds (.ref p)) : Changes may (addPackage m p) s := by
  obtain ⟨_, _, _, hpackages, _⟩ := ModelRecord.forall_items.1 (h.closed m.element hm)
  apply ensures_bind.2
  exact changes_replacePackages hm (holds_append hpackages hp)

theorem changes_addConstraint (h : s.Sound) {m : ModelRef} {k : ConstraintRef} (hm : s.holds (.ref m))
    (hk : s.holds (.ref k)) : Changes may (addConstraint m k) s := by
  obtain ⟨_, _, _, _, hconstraints⟩ := ModelRecord.forall_items.1 (h.closed m.element hm)
  apply ensures_bind.2
  exact changes_replaceConstraints hm (holds_append hconstraints hk)

theorem changes_sortClasses (m : ModelRef) : Changes may (sortClasses m) s := by
  unfold Changes Ensures sortClasses
  cases s.sortedClasses m with
  | ok classes => exact (Store.stays_noted _ _).reaches
  | error cycle => exact Store.stays_noted _ _

end Edit

open Edit

theorem Call.changes {may : Leave} {s : Store} (h : s.Sound) (c : Call)
    (hm : ∀ i ∈ c.mentions, s.holds i) : c.edit.Changes may s := by
  have hfollow : ∀ {α : Type} (f : Store → Except (List ClassRef) α) (toDatum : α → Datum),
      (Call.following f toDatum).Changes may s := fun _ _ => changes_check.map
  cases c with
  | addAttribute c p =>
    refine Changes.map (changes_check_modify fun _ => ?_)
    exact .insertAttribute (holds_pair hm).1 (holds_pair hm).2
  | addMethod c m =>
    refine Changes.map (changes_check_modify fun _ => ?_)
    exact .insertMethod (holds_pair hm).1 (holds_pair hm).2
  | addLiteral e l =>
    refine Changes.map (changes_check_modify fun _ => ?_)
    exact .insertLiteral (holds_pair hm).1 (holds_pair hm).2
  | addParameter m p =>
    refine Changes.map (changes_check_modify fun _ => ?_)
    exact .insertParameter (holds_pair hm).1 (holds_pair hm).2
  | addClass p c => exact Changes.map (changes_modify (.insertPackaged (holds_pair hm).1 (holds_pair hm).2))
  | addType m t => exact (changes_addType h (holds_pair hm).1 (holds_pair hm).2).map
  | addAssociation m a => exact (changes_addAssociation h (holds_pair hm).1 (holds_pair hm).2).map
  | addGeneralization m g => exact (changes_addGeneralization h (holds_pair hm).1 (holds_pair hm).2).map
  | addPackage m p => exact (changes_addPackage h (holds_pair hm).1 (holds_pair hm).2).map
  | addConstraint m k => exact (changes_addConstraint h (holds_pair hm).1 (holds_pair hm).2).map
  | allParents c => exact hfollow _ _
  | allSpecializations c => exact hfollow _ _
  | inheritedAttributes c => exact hfollow _ _
  | allAttributes c => exact hfollow _ _
  | allAssociationEnds c => exact hfollow _ _
  | sortedClasses m => exact (changes_sortClasses m).map
  | elementById m id => exact changes_check.map
  | _ => exact changes_reading

end ClassDiagram
