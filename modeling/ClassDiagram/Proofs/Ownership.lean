import ClassDiagram.Proofs.Reachable
import Mathlib.Logic.Function.Basic

/-! Who owns what and what is a member of what, seen apart from all else in a store. -/

namespace ClassDiagram

@[ext] structure Ownership where
  propertyOwner : PropertyRef → Option Owner
  methodOwner : MethodRef → Option TypeRef
  literalOwner : LiteralRef → Option TypeRef
  attributes : ClassRef → OrderedSet PropertyRef
  methods : ClassRef → OrderedSet MethodRef
  literals : EnumerationRef → OrderedSet LiteralRef

def Store.ownership (s : Store) : Ownership where
  propertyOwner p := (s.properties.get p).owner
  methodOwner m := (s.methods.get m).owner
  literalOwner l := (s.literals.get l).owner
  attributes c := (s.classes.get c).attributes
  methods c := (s.classes.get c).methods
  literals e := (s.enumerations.get e).literals

namespace Ownership
variable {μ ο : Type} [DecidableEq μ]

/--
The owners of members after a holder has exchanged old members for new ones: the new ones are its own, and with owner
release an old one that is dropped is nobody's, unless somebody else owns it.
-/
def exchange [DecidableEq ο] (release : Bool) (holder : ο) (old new : OrderedSet μ) (owner : μ → Option ο) (m : μ) :
    Option ο :=
  if m ∈ new then some holder
  else if release ∧ m ∈ old ∧ owner m = some holder then none
  else owner m

variable {owner : μ → Option ο} {m : μ} {x : ο}

theorem eq_some_of_exchange [DecidableEq ο] {release : Bool} {holder : ο} {old new : OrderedSet μ}
    (h : exchange release holder old new owner m = some x) : owner m = some x ∨ x = holder := by
  unfold exchange at h
  split_ifs at h
  · exact Or.inr (Option.some.inj h).symm
  · exact Or.inl h

theorem eq_some_of_update {m' : μ} {o : Option ο} (h : Function.update owner m' o m = some x) :
    owner m = some x ∨ o = some x := by
  rw [Function.update_apply] at h
  split_ifs at h
  · exact Or.inr h
  · exact Or.inl h

end Ownership

namespace Table
variable {κ α β : Type} [Key κ] [DecidableEq κ] [Inhabited α]

theorem map_get_set (φ : α → β) (t : Table κ α) (k : κ) (a : α) :
    (fun j => φ ((t.set k a).get j)) = Function.update (fun j => φ (t.get j)) k (φ a) := by
  funext j
  rw [get_set, Function.update_apply]
  split_ifs <;> rfl

theorem map_get_modify_eq {φ : α → β} {f : α → α} (hf : ∀ a, φ (f a) = φ a) (t : Table κ α) (k : κ) :
    (fun j => φ ((t.modify k f).get j)) = fun j => φ (t.get j) :=
  funext fun j => map_get_modify hf t k j

theorem get_exchange {release own : α → α} (released : Bool) (old new : OrderedSet κ) (t : Table κ α) (k : κ) :
    ((if released then t.modifyAll (old.toList.filter (· ∉ new)) release else t).modifyAll new.toList own).get k =
      if k ∈ new then own (t.get k) else if released ∧ k ∈ old then release (t.get k) else t.get k := by
  have hdropped : k ∈ old.toList.filter (· ∉ new) ↔ k ∈ old ∧ k ∉ new := by
    rw [List.mem_filter, decide_eq_true_iff]
    rfl
  rw [get_modifyAll _ new.nodup]
  simp only [← OrderedSet.mem_def]
  cases released with
  | false => simp only [Bool.false_eq_true, if_false, false_and]
  | true =>
    simp only [if_true, true_and, get_modifyAll _ (old.nodup.filter _), hdropped]
    -- a new member is not among the dropped ones, so it is taken over as it was
    by_cases hnew : k ∈ new
    · simp only [hnew, not_true_eq_false, and_false, if_true, if_false]
    · simp only [hnew, not_false_eq_true, and_true, if_false]

theorem owner_exchange {ο : Type} [DecidableEq ο] {owner : α → Option ο} {release own : α → α} {holder : ο}
    (hrelease : ∀ a, owner (release a) = if owner a = some holder then none else owner a)
    (hown : ∀ a, owner (own a) = some holder) (released : Bool) (old new : OrderedSet κ) (t : Table κ α) :
    (fun k => owner (((if released then t.modifyAll (old.toList.filter (· ∉ new)) release else t).modifyAll
      new.toList own).get k)) = Ownership.exchange released holder old new fun k => owner (t.get k) := by
  funext k
  rw [get_exchange, Ownership.exchange]
  by_cases hnew : k ∈ new
  · rw [if_pos hnew, if_pos hnew, hown]
  · rw [if_neg hnew, if_neg hnew]
    by_cases hdropped : released ∧ k ∈ old
    · rw [if_pos hdropped, hrelease]
      simp only [hdropped.1, hdropped.2, true_and]
    · rw [if_neg hdropped, if_neg fun h => hdropped ⟨h.1, h.2.1⟩]

end Table

namespace Store
variable {s s' : Store}

theorem owner_release_property (o : Owner) (r : PropertyRecord) :
    (r.release o).owner = if r.owner = some o then none else r.owner := by
  unfold PropertyRecord.release
  split_ifs <;> rfl

theorem owner_release_method (t : TypeRef) (r : MethodRecord) :
    (r.release t).owner = if r.owner = some t then none else r.owner := by
  unfold MethodRecord.release
  split_ifs <;> rfl

theorem owner_release_literal (t : TypeRef) (r : LiteralRecord) :
    (r.release t).owner = if r.owner = some t then none else r.owner := by
  unfold LiteralRecord.release
  split_ifs <;> rfl

theorem attributes_modify {f : ClassRecord → ClassRecord} (hf : ∀ r, (f r).attributes = r.attributes) (c : ClassRef) :
    (fun d => ((s.classes.modify c f).get d).attributes) = fun d => (s.classes.get d).attributes :=
  Table.map_get_modify_eq hf s.classes c

theorem methods_modify {f : ClassRecord → ClassRecord} (hf : ∀ r, (f r).methods = r.methods) (c : ClassRef) :
    (fun d => ((s.classes.modify c f).get d).methods) = fun d => (s.classes.get d).methods :=
  Table.map_get_modify_eq hf s.classes c

theorem ownership_setAttributes (c : ClassRef) (xs : OrderedSet PropertyRef) :
    (s.setAttributes c xs).ownership = { s.ownership with
      propertyOwner := Ownership.exchange s.ownerRelease (.type (.ofClass c)) (s.ownership.attributes c) xs
        s.ownership.propertyOwner
      attributes := Function.update s.ownership.attributes c xs } := by
  refine Ownership.ext ?_ rfl rfl ?_ ?_ rfl
  · exact Table.owner_exchange (owner_release_property _) (fun _ => rfl) _ _ _ _
  · exact Table.map_get_set ClassRecord.attributes s.classes c _
  · exact methods_modify (s := s) (f := fun r => { r with attributes := xs }) (fun _ => rfl) c

theorem ownership_setMethods (c : ClassRef) (xs : OrderedSet MethodRef) :
    (s.setMethods c xs).ownership = { s.ownership with
      methodOwner := Ownership.exchange s.ownerRelease (.ofClass c) (s.ownership.methods c) xs s.ownership.methodOwner
      methods := Function.update s.ownership.methods c xs } := by
  refine Ownership.ext rfl ?_ rfl ?_ ?_ rfl
  · exact Table.owner_exchange (owner_release_method _) (fun _ => rfl) _ _ _ _
  · exact attributes_modify (s := s) (f := fun r => { r with methods := xs }) (fun _ => rfl) c
  · exact Table.map_get_set ClassRecord.methods s.classes c _

theorem ownership_setLiterals (e : EnumerationRef) (xs : OrderedSet LiteralRef) :
    (s.setLiterals e xs).ownership = { s.ownership with
      literalOwner := Ownership.exchange s.ownerRelease (.ofEnumeration e) (s.ownership.literals e) xs
        s.ownership.literalOwner
      literals := Function.update s.ownership.literals e xs } := by
  refine Ownership.ext rfl rfl ?_ rfl rfl ?_
  · exact Table.owner_exchange (owner_release_literal _) (fun _ => rfl) _ _ _ _
  · exact Table.map_get_set EnumerationRecord.literals s.enumerations e _

theorem ownership_insertAttribute (c : ClassRef) (p : PropertyRef) :
    (s.insertAttribute c p).ownership = { s.ownership with
      propertyOwner := Function.update s.ownership.propertyOwner p (some (.type (.ofClass c)))
      attributes := Function.update s.ownership.attributes c ((s.ownership.attributes c).insert p) } := by
  refine Ownership.ext ?_ rfl rfl ?_ ?_ rfl
  · exact Table.map_get_set PropertyRecord.owner s.properties p _
  · exact Table.map_get_set ClassRecord.attributes s.classes c _
  · exact methods_modify (s := s) (f := fun r => { r with attributes := r.attributes.insert p }) (fun _ => rfl) c

theorem ownership_insertMethod (c : ClassRef) (m : MethodRef) :
    (s.insertMethod c m).ownership = { s.ownership with
      methodOwner := Function.update s.ownership.methodOwner m (some (.ofClass c))
      methods := Function.update s.ownership.methods c ((s.ownership.methods c).insert m) } := by
  refine Ownership.ext rfl ?_ rfl ?_ ?_ rfl
  · exact Table.map_get_set MethodRecord.owner s.methods m _
  · exact attributes_modify (s := s) (f := fun r => { r with methods := r.methods.insert m }) (fun _ => rfl) c
  · exact Table.map_get_set ClassRecord.methods s.classes c _

theorem ownership_insertLiteral (e : EnumerationRef) (l : LiteralRef) :
    (s.insertLiteral e l).ownership = { s.ownership with
      literalOwner := Function.update s.ownership.literalOwner l (some (.ofEnumeration e))
      literals := Function.update s.ownership.literals e ((s.ownership.literals e).insert l) } := by
  refine Ownership.ext rfl rfl ?_ rfl rfl ?_
  · exact Table.map_get_set LiteralRecord.owner s.literals l _
  · exact Table.map_get_set EnumerationRecord.literals s.enumerations e _

theorem ownership_setEnds (a : AssociationRef) (xs : OrderedSet PropertyRef) (cs : List ClassRef) :
    (s.setEnds a xs cs).ownership = { s.ownership with
      propertyOwner := fun p => if p ∈ xs then some (.association a) else s.ownership.propertyOwner p } := by
  have hkeeps : ∀ {β : Type} (φ : ClassRecord → β), (∀ r : ClassRecord, φ (r.unlink a) = φ r) →
      (∀ r : ClassRecord, φ (r.link a) = φ r) →
      (fun c => φ ((s.setEnds a xs cs).classes.get c)) = fun c => φ (s.classes.get c) := by
    intro β φ hunlink hlink
    funext c
    exact (Table.map_get_modifyAll hlink _ cs c).trans (Table.map_get_modifyAll hunlink s.classes _ c)
  refine Ownership.ext (funext fun p => ?_) rfl rfl ?_ ?_ rfl
  · show ((s.properties.modifyAll xs.toList _).get p).owner = _
    rw [Table.get_modifyAll _ xs.nodup]
    simp only [← OrderedSet.mem_def]
    split_ifs <;> rfl
  · exact hkeeps ClassRecord.attributes (fun _ => rfl) fun _ => rfl
  · exact hkeeps ClassRecord.methods (fun _ => rfl) fun _ => rfl

theorem ownership_setProperty (p : PropertyRef) (r : PropertyRecord) :
    ownership { s with properties := s.properties.set p r } =
      { s.ownership with propertyOwner := Function.update s.ownership.propertyOwner p r.owner } :=
  Ownership.ext (Table.map_get_set PropertyRecord.owner s.properties p r) rfl rfl rfl rfl rfl

theorem ownership_setMethod (m : MethodRef) (r : MethodRecord) :
    ownership { s with methods := s.methods.set m r } =
      { s.ownership with methodOwner := Function.update s.ownership.methodOwner m r.owner } :=
  Ownership.ext rfl (Table.map_get_set MethodRecord.owner s.methods m r) rfl rfl rfl rfl

theorem ownership_setLiteral (l : LiteralRef) (r : LiteralRecord) :
    ownership { s with literals := s.literals.set l r } =
      { s.ownership with literalOwner := Function.update s.ownership.literalOwner l r.owner } :=
  Ownership.ext rfl rfl (Table.map_get_set LiteralRecord.owner s.literals l r) rfl rfl rfl

theorem ownership_newClass (c : ClassRef) (r : ClassRecord) (l : Label) (timestamp : Option Int) :
    (Roster.classes.enroll s c r l timestamp).ownership = { s.ownership with
      attributes := Function.update s.ownership.attributes c r.attributes
      methods := Function.update s.ownership.methods c r.methods } :=
  Ownership.ext rfl rfl rfl (Table.map_get_set ClassRecord.attributes s.classes c r)
    (Table.map_get_set ClassRecord.methods s.classes c r) rfl

theorem ownership_newEnumeration (e : EnumerationRef) (r : EnumerationRecord) (l : Label) (timestamp : Option Int) :
    (Roster.enumerations.enroll s e r l timestamp).ownership =
      { s.ownership with literals := Function.update s.ownership.literals e r.literals } :=
  Ownership.ext rfl rfl rfl rfl rfl (Table.map_get_set EnumerationRecord.literals s.enumerations e r)

theorem ownership_newProperty (r : PropertyRef) (record : PropertyRecord) (l : Label) (timestamp : Option Int) :
    (Roster.properties.enroll s r record l timestamp).ownership =
      { s.ownership with propertyOwner := Function.update s.ownership.propertyOwner r record.owner } :=
  ownership_setProperty (s := s) r record

theorem ownership_newMethod (r : MethodRef) (record : MethodRecord) (l : Label) (timestamp : Option Int) :
    (Roster.methods.enroll s r record l timestamp).ownership =
      { s.ownership with methodOwner := Function.update s.ownership.methodOwner r record.owner } :=
  ownership_setMethod (s := s) r record

theorem ownership_newLiteral (r : LiteralRef) (record : LiteralRecord) (l : Label) (timestamp : Option Int) :
    (Roster.literals.enroll s r record l timestamp).ownership =
      { s.ownership with literalOwner := Function.update s.ownership.literalOwner r record.owner } :=
  ownership_setLiteral (s := s) r record

theorem ownership_modifyProperty {p : PropertyRef} {f : PropertyRecord → PropertyRecord}
    (hf : ∀ r, (f r).owner = r.owner) :
    ownership { s with properties := s.properties.modify p f } = s.ownership :=
  Ownership.ext (Table.map_get_modify_eq hf s.properties p) rfl rfl rfl rfl rfl

theorem ownership_modifyMethod {m : MethodRef} {f : MethodRecord → MethodRecord} (hf : ∀ r, (f r).owner = r.owner) :
    ownership { s with methods := s.methods.modify m f } = s.ownership :=
  Ownership.ext rfl (Table.map_get_modify_eq hf s.methods m) rfl rfl rfl rfl

theorem ownership_modifyClass {c : ClassRef} {f : ClassRecord → ClassRecord}
    (hattributes : ∀ r, (f r).attributes = r.attributes) (hmethods : ∀ r, (f r).methods = r.methods) :
    ownership { s with classes := s.classes.modify c f } = s.ownership :=
  Ownership.ext rfl rfl rfl (attributes_modify hattributes c) (methods_modify hmethods c) rfl

theorem ownership_register (c : ClassRef) (g : GeneralizationRef) :
    ownership { s with classes := s.classes.modify c (·.register g) } = s.ownership :=
  ownership_modifyClass (fun _ => rfl) fun _ => rfl

theorem ownership_unregister (c : ClassRef) (g : GeneralizationRef) :
    ownership { s with classes := s.classes.modify c (·.unregister g) } = s.ownership :=
  ownership_modifyClass (fun _ => rfl) fun _ => rfl

theorem ownership_setGeneral (g : GeneralizationRef) (c : ClassRef) :
    (s.setGeneral g c).ownership = s.ownership :=
  (ownership_register (s := { s with classes := _ }) c g).trans (ownership_unregister _ g)

theorem ownership_setSpecific (g : GeneralizationRef) (c : ClassRef) :
    (s.setSpecific g c).ownership = s.ownership :=
  (ownership_register (s := { s with classes := _ }) c g).trans (ownership_unregister _ g)

theorem ownership_noted (channel : Channel) (message : String) :
    (s.noted channel message).ownership = s.ownership := by
  unfold noted
  split_ifs <;> rfl

theorem Quiet.ownership {may : Leave} (h : s.Quiet may s') : s'.ownership = s.ownership := by
  cases h with
  | noted channel message => exact ownership_noted channel message
  | drawn | bare | multiplicity => rfl

end Store

def Owner.isData : Owner → Bool
  | type t => t.isData
  | association _ => false

namespace Store
open Ownership
variable {s s' : Store}

theorem checkPropertyOwner_eq_ok {property : String} {o : Option Owner} {x : Owner}
    (h : s.checkPropertyOwner property o = .ok ()) (hx : o = some x) : ¬ x.isData := by
  subst hx
  cases x with
  | association a => exact Bool.false_ne_true
  | type t =>
    unfold checkPropertyOwner at h
    dsimp only at h
    split_ifs at h with hdata
    exact hdata

theorem checkMethodOwner_eq_ok {method : String} {o : Option TypeRef} {t : TypeRef}
    (h : s.checkMethodOwner method o = .ok ()) (ht : o = some t) : ¬ t.isData := by
  subst ht
  unfold checkMethodOwner at h
  dsimp only at h
  split_ifs at h with hdata
  exact hdata

theorem checkLiteralOwner_eq_ok {literal : String} {o : Option TypeRef} {t : TypeRef}
    (h : s.checkLiteralOwner literal o = .ok ()) (ht : o = some t) : ¬ t.isPrimitive := by
  subst ht
  unfold checkLiteralOwner at h
  dsimp only at h
  split_ifs at h with hprimitive
  exact hprimitive

/-- Data types own neither properties nor methods, primitive types own no literals, and owners are there. -/
structure Owned (s : Store) : Prop where
  property : ∀ p x, s.ownership.propertyOwner p = some x → ¬ x.isData ∧ s.contains x.element
  method : ∀ m t, s.ownership.methodOwner m = some t → ¬ t.isData ∧ s.contains t.element
  literal : ∀ l t, s.ownership.literalOwner l = some t → ¬ t.isPrimitive ∧ s.contains t.element

theorem owned_initial (ids : Nat → Uuid) : (initial ids).Owned := ⟨nofun, nofun, nofun⟩

theorem Owned.congr (h : s.Owned) (hcontains : ∀ e, s.contains e → s'.contains e)
    (hproperty : ∀ p x, s'.ownership.propertyOwner p = some x →
      s.ownership.propertyOwner p = some x ∨ ¬ x.isData ∧ s'.contains x.element)
    (hmethod : ∀ m t, s'.ownership.methodOwner m = some t →
      s.ownership.methodOwner m = some t ∨ ¬ t.isData ∧ s'.contains t.element)
    (hliteral : ∀ l t, s'.ownership.literalOwner l = some t →
      s.ownership.literalOwner l = some t ∨ ¬ t.isPrimitive ∧ s'.contains t.element) : s'.Owned := by
  refine ⟨fun p x hx => ?_, fun m t ht => ?_, fun l t ht => ?_⟩
  · exact (hproperty p x hx).elim (fun hold => (h.property p x hold).imp_right (hcontains _)) id
  · exact (hmethod m t ht).elim (fun hold => (h.method m t hold).imp_right (hcontains _)) id
  · exact (hliteral l t ht).elim (fun hold => (h.literal l t hold).imp_right (hcontains _)) id

theorem Owned.of_eq (h : s.Owned) (hcontains : ∀ e, s.contains e → s'.contains e)
    (heq : s'.ownership = s.ownership) : s'.Owned := by
  apply h.congr hcontains
  · exact fun _ _ hx => Or.inl (heq ▸ hx)
  · exact fun _ _ hx => Or.inl (heq ▸ hx)
  · exact fun _ _ hx => Or.inl (heq ▸ hx)

theorem Owned.properties (h : s.Owned) (hcontains : ∀ e, s.contains e → s'.contains e)
    (hproperty : ∀ p x, s'.ownership.propertyOwner p = some x →
      s.ownership.propertyOwner p = some x ∨ ¬ x.isData ∧ s'.contains x.element)
    (hmethod : s'.ownership.methodOwner = s.ownership.methodOwner)
    (hliteral : s'.ownership.literalOwner = s.ownership.literalOwner) : s'.Owned :=
  h.congr hcontains hproperty (fun _ _ ht => Or.inl (hmethod ▸ ht)) fun _ _ ht => Or.inl (hliteral ▸ ht)

theorem Owned.methods (h : s.Owned) (hcontains : ∀ e, s.contains e → s'.contains e)
    (hproperty : s'.ownership.propertyOwner = s.ownership.propertyOwner)
    (hmethod : ∀ m t, s'.ownership.methodOwner m = some t →
      s.ownership.methodOwner m = some t ∨ ¬ t.isData ∧ s'.contains t.element)
    (hliteral : s'.ownership.literalOwner = s.ownership.literalOwner) : s'.Owned :=
  h.congr hcontains (fun _ _ hx => Or.inl (hproperty ▸ hx)) hmethod fun _ _ ht => Or.inl (hliteral ▸ ht)

theorem Owned.literals (h : s.Owned) (hcontains : ∀ e, s.contains e → s'.contains e)
    (hproperty : s'.ownership.propertyOwner = s.ownership.propertyOwner)
    (hmethod : s'.ownership.methodOwner = s.ownership.methodOwner)
    (hliteral : ∀ l t, s'.ownership.literalOwner l = some t →
      s.ownership.literalOwner l = some t ∨ ¬ t.isPrimitive ∧ s'.contains t.element) : s'.Owned :=
  h.congr hcontains (fun _ _ hx => Or.inl (hproperty ▸ hx)) (fun _ _ ht => Or.inl (hmethod ▸ ht)) hliteral

theorem owned_setAttributes (h : s.Owned) {c : ClassRef} (hc : s.contains c.element) (xs : OrderedSet PropertyRef) :
    (s.setAttributes c xs).Owned := by
  refine h.properties (fun _ => id) (fun p x hx => ?_) rfl rfl
  rw [ownership_setAttributes] at hx
  rcases eq_some_of_exchange hx with hold | rfl
  · exact Or.inl hold
  · exact Or.inr ⟨Bool.false_ne_true, hc⟩

theorem owned_setLiterals (h : s.Owned) {e : EnumerationRef} (he : s.contains e.element)
    (xs : OrderedSet LiteralRef) : (s.setLiterals e xs).Owned := by
  refine h.literals (fun _ => id) rfl rfl fun l t ht => ?_
  rw [ownership_setLiterals] at ht
  rcases eq_some_of_exchange ht with hold | rfl
  · exact Or.inl hold
  · exact Or.inr ⟨Bool.false_ne_true, he⟩

theorem owned_setEnds (h : s.Owned) {a : AssociationRef} (ha : s.contains a.element) (xs : OrderedSet PropertyRef)
    (cs : List ClassRef) : (s.setEnds a xs cs).Owned := by
  refine h.properties (fun _ => id) (fun p x hx => ?_) rfl rfl
  rw [ownership_setEnds] at hx
  dsimp only at hx
  split_ifs at hx
  · cases hx
    exact Or.inr ⟨Bool.false_ne_true, ha⟩
  · exact Or.inl hx

theorem Change.owned {may : Leave} (hs : s.Sound) (hc : s.Change may s') (h : s.Owned) :
    s'.Owned := by
  have hcontains : ∀ e, s.contains e → s'.contains e := fun e => (hc.grows hs).holds (.element e)
  cases hc with
  | quiet hq => exact h.of_eq hcontains hq.ownership
  | attributes hc => exact owned_setAttributes h hc _
  | methods hc =>
    refine h.methods hcontains rfl (fun m t ht => ?_) rfl
    rw [ownership_setMethods] at ht
    rcases eq_some_of_exchange ht with hold | rfl
    · exact Or.inl hold
    · exact Or.inr ⟨Bool.false_ne_true, hc⟩
  | literals he => exact owned_setLiterals h he _
  | insertAttribute hc =>
    refine h.properties hcontains (fun p x hx => ?_) rfl rfl
    rw [ownership_insertAttribute] at hx
    refine (eq_some_of_update hx).imp_right fun hx => ?_
    cases hx
    exact ⟨Bool.false_ne_true, hc⟩
  | insertMethod hc =>
    refine h.methods hcontains rfl (fun m t ht => ?_) rfl
    rw [ownership_insertMethod] at ht
    refine (eq_some_of_update ht).imp_right fun ht => ?_
    cases ht
    exact ⟨Bool.false_ne_true, hc⟩
  | insertLiteral he =>
    refine h.literals hcontains rfl rfl fun l t ht => ?_
    rw [ownership_insertLiteral] at ht
    refine (eq_some_of_update ht).imp_right fun ht => ?_
    cases ht
    exact ⟨Bool.false_ne_true, he⟩
  | propertyOwner hp ho hcheck =>
    refine h.properties hcontains (fun p x hx => ?_) rfl rfl
    rw [Table.modify, ownership_setProperty] at hx
    refine (eq_some_of_update hx).imp_right fun hx => ?_
    cases hx
    exact ⟨checkPropertyOwner_eq_ok hcheck rfl, ho _ List.mem_cons_self⟩
  | methodOwner hm ho hcheck =>
    refine h.methods hcontains rfl (fun m t ht => ?_) rfl
    rw [Table.modify, ownership_setMethod] at ht
    refine (eq_some_of_update ht).imp_right fun ht => ?_
    cases ht
    exact ⟨checkMethodOwner_eq_ok hcheck rfl, ho _ List.mem_cons_self⟩
  | literalOwner hl ho hcheck =>
    refine h.literals hcontains rfl rfl fun l t ht => ?_
    rw [Table.modify, ownership_setLiteral] at ht
    refine (eq_some_of_update ht).imp_right fun ht => ?_
    cases ht
    exact ⟨checkLiteralOwner_eq_ok hcheck rfl, ho _ List.mem_cons_self⟩
  | propertyType | propertyMultiplicity | composite | navigable | identifying | readOnlyProperty =>
    apply h.of_eq hcontains
    apply ownership_modifyProperty
    exact fun _ => rfl
  | parameters | insertParameter | methodType | abstractMethod | code =>
    apply h.of_eq hcontains
    apply ownership_modifyMethod
    exact fun _ => rfl
  | ends ha => exact owned_setEnds h ha _ _
  | @newEnumeration r xs l timestamp hr =>
    have henroll : (Roster.enumerations.enroll s r default l timestamp).Owned :=
      h.literals (fun _ => contains_enter_of_contains hr.spare) rfl rfl fun _ _ => Or.inl
    exact owned_setLiterals henroll contains_enter_self xs
  | newLiteral l timestamp hr ho hcheck =>
    refine h.literals hcontains rfl rfl fun m t ht => ?_
    rw [ownership_newLiteral] at ht
    refine (eq_some_of_update ht).imp_right fun ht => ?_
    dsimp only at ht
    subst ht
    exact ⟨checkLiteralOwner_eq_ok hcheck rfl, hcontains _ (ho _ List.mem_cons_self)⟩
  | @newClass r xs l timestamp isAbstract isReadOnly isAssociationClass hr =>
    have henroll : (Roster.classes.enroll s r
        { (default : ClassRecord) with isAbstract, isReadOnly, isAssociationClass } l timestamp).Owned :=
      h.properties (fun _ => contains_enter_of_contains hr.spare) (fun _ _ => Or.inl) rfl rfl
    exact owned_setAttributes henroll contains_enter_self xs
  | @newProperty r record l timestamp hr ha hcheck =>
    refine h.properties hcontains (fun p x hx => ?_) rfl rfl
    rw [ownership_newProperty] at hx
    refine (eq_some_of_update hx).imp_right fun hx => ⟨checkPropertyOwner_eq_ok hcheck hx, hcontains _ ?_⟩
    refine ha (.element x.element) (List.mem_cons_of_mem _ (List.mem_cons_of_mem _ ?_))
    rw [hx]
    exact List.mem_cons_self
  | @newMethod r record l timestamp hr ha hp hcheck =>
    refine h.methods hcontains rfl (fun m t ht => ?_) rfl
    rw [ownership_newMethod] at ht
    refine (eq_some_of_update ht).imp_right fun ht => ⟨checkMethodOwner_eq_ok hcheck ht, hcontains _ ?_⟩
    refine ha (.type t) (List.mem_append_left _ (List.mem_cons_of_mem _ ?_))
    rw [ht]
    exact List.mem_cons_self
  | @newAssociation r xs cs isBinary l timestamp hr =>
    have henroll : (Roster.associations.enroll s r ⟨isBinary, ∅⟩ l timestamp).Owned :=
      h.properties (fun _ => contains_enter_of_contains hr.spare) (fun _ _ => Or.inl) rfl rfl
    exact owned_setEnds henroll contains_enter_self xs cs
  | _ => exact h.congr hcontains (fun _ _ => Or.inl) (fun _ _ => Or.inl) fun _ _ => Or.inl

end Store

theorem Session.owned_run (ids : Nat → Uuid) (cs : List Command) : ((initial ids).run cs).store.Owned :=
  (sound_initial ids).run_induction (Store.owned_initial ids) (fun _ h => h.of_eq (fun _ => id) rfl)
    (fun _ _ hs hc h => hc.owned hs h) cs

end ClassDiagram
