import ClassDiagram.Proofs.BackReferences
import ClassDiagram.Proofs.Checks
import ClassDiagram.Proofs.Facets
import ClassDiagram.Proofs.Ownership

/-! Whatever a user can get at is well formed, no matter what has been tried before. -/

namespace ClassDiagram

theorem Kind.checkName_eq_ok {kind : Kind} {v : Value} {name : String} (h : kind.checkName v = .ok name) :
    v = .text name := by
  unfold Kind.checkName at h
  split at h
  · split_ifs at h
    cases h
    rfl
  · cases h
  · cases h
    rfl
  · cases h

theorem Kind.checkName_text {kind : Kind} {v : Value} {name : String} (h : kind.checkName v = .ok name) :
    kind.checkName (.text name) = .ok name := Kind.checkName_eq_ok h ▸ h

theorem Kind.checkName_primitiveType {name : String} (h : Kind.primitiveType.checkName (.text name) = .ok name) :
    name ∈ Primitive.names := by
  unfold Kind.checkName at h
  dsimp only at h
  split_ifs at h with hname
  exact hname

theorem Label.Fits.checkName {l : Label} {kind : Kind} (h : l.Fits kind) :
    kind.checkName (.text l.name) = .ok l.name := by
  obtain ⟨v, o, h⟩ := h
  obtain ⟨name, hname, h⟩ := bind_eq_ok.1 h
  obtain ⟨_, _, h⟩ := bind_eq_ok.1 h
  cases h
  exact Kind.checkName_text hname

/-- The ends of an association are two at least, and two exactly if it is binary. -/
def AssociationRecord.Ample (r : AssociationRecord) : Prop := 2 ≤ r.ends.size ∧ (r.isBinary → r.ends.size = 2)

def ModelRecord.HoldsPrimitives (r : ModelRecord) : Prop := ∀ p : Primitive, p.type ∈ r.types

namespace Store
variable {may : Leave} {s s' : Store}

theorem checkArity_eq_ok {name : String} {isBinary : Bool} {xs : OrderedSet PropertyRef}
    (h : s.checkArity name isBinary xs = .ok ()) : AssociationRecord.Ample ⟨isBinary, xs⟩ := by
  unfold checkArity at h
  split_ifs at h with hbinary hsize _ hsize
  · have htwo : xs.size = 2 := Decidable.not_not.1 hsize
    exact ⟨Nat.le_of_eq htwo.symm, fun _ => htwo⟩
  · exact ⟨Nat.lt_of_not_le hsize, fun h => absurd h hbinary⟩

def Named (s : Store) : Prop :=
  ∀ e, s.contains e → e.kind ≠ .generalization →
    ∃ l, s.labels.get? e.order = some l ∧ e.kind.checkName (.text l.name) = .ok l.name

theorem label_initial (ids : Nat → Uuid) (p : Primitive) :
    (initial ids).labels.get? p.order = some ⟨p.name, .null, .everyone⟩ := by
  cases p <;> rfl

theorem named_initial (ids : Nat → Uuid) : (initial ids).Named := by
  intro e he _
  obtain ⟨p, rfl⟩ := contains_initial he
  have hname : p.name ∈ Primitive.names := Primitive.mem_names.2 ⟨p, rfl⟩
  exact ⟨_, label_initial ids p, if_pos hname⟩

theorem Named.primitive (h : s.Named) {r : PrimitiveRef} (hr : s.contains r.element) : r.name s ∈ Primitive.names := by
  obtain ⟨l, hl, hcheck⟩ := h r.element hr (by decide : Kind.primitiveType ≠ .generalization)
  have hget : s.labels.get r.order = l := by
    show (s.labels.get? r.element.order).getD default = l
    rw [hl, Option.getD_some]
  rw [Ref.name, nameAt, hget]
  exact Kind.checkName_primitiveType hcheck

theorem Named.congr (h : s.Named) (hcontains : ∀ e, s'.contains e → s.contains e) (hlabels : s'.labels = s.labels) :
    s'.Named := by
  intro e he hkind
  rw [hlabels]
  exact h e (hcontains e he) hkind

theorem Named.relabel {e : Element} {f : Label → Label} (h : s.Named) (he : s.contains e)
    (hf : ∀ l : Label, e.kind.checkName (.text l.name) = .ok l.name →
      e.kind.checkName (.text (f l).name) = .ok (f l).name) :
    Named { s with labels := s.labels.modify e.order f } := by
  intro e' he' hkind
  obtain ⟨l, hl, hname⟩ := h e' he' hkind
  rw [Table.modify, Table.get?_set]
  -- labels are kept by number, and no two elements that are there share one
  split_ifs with horder
  · have heq : e' = e := eq_of_contains he' he horder
    subst heq
    have hget : s.labels.get e'.order = l := by rw [Table.get, hl, Option.getD_some]
    exact ⟨_, rfl, hget ▸ hf l hname⟩
  · exact ⟨l, hl, hname⟩

theorem Named.enroll {kind : Kind} {r : Ref kind} {l : Label} {timestamp : Option Int} (h : s.Named) (hr : s.Fresh r l)
    (hheaders : s'.headers = (s.enter r.element timestamp).headers) (hlabels : s'.labels = s.labels.set r.order l) :
    s'.Named := by
  intro e he hkind
  have henter : (s.enter r.element timestamp).contains e := by rwa [contains, ← hheaders]
  rw [hlabels, Table.get?_set]
  rcases eq_or_contains_of_enter henter with rfl | hold
  · exact ⟨l, if_pos rfl, hr.fits.checkName⟩
  · have hne : e.order ≠ r.order := hr.spare.ne_of_holds (r := ⟨e.order⟩) hold
    rw [if_neg hne]
    exact h e hold hkind

theorem Quiet.named (hq : s.Quiet may s') (h : s.Named) : s'.Named := by
  cases hq with
  | noted channel message =>
    unfold Store.noted
    split_ifs <;> exact h
  | drawn | multiplicity => exact h
  | bare timestamp hkind hr => exact h.enroll hr rfl rfl

theorem Change.named (hc : s.Change may s') (h : s.Named) : s'.Named := by
  cases hc with
  | quiet hq => exact hq.named h
  | name he hcheck => exact h.relabel he fun _ _ => Kind.checkName_text hcheck
  | visibility he | synonyms _ he => exact h.relabel he fun _ => id
  | timestamp t he => exact h.congr (fun e => (contains_setTimestamp he t e).symm ▸ id) rfl
  | newEnumeration l timestamp hr | newLiteral l timestamp hr | newClass l timestamp _ _ _ hr
  | newProperty l timestamp hr | newParameter l timestamp hr | newMethod l timestamp hr
  | newAssociation _ l timestamp hr | newGeneralizationSet l timestamp hr | newPackage l timestamp hr
  | newConstraint l timestamp hr | newModel l timestamp hr => exact h.enroll hr rfl rfl
  | newGeneralization timestamp hr =>
    intro e he hkind
    rcases eq_or_contains_of_enter he with rfl | hold
    · exact absurd rfl hkind
    · exact h e hold hkind
  | _ => exact h

end Store

namespace Roster
variable {kind : Kind} {ρ : Type} [Inhabited ρ] {k : Roster kind ρ} {P : ρ → Prop} {s s' : Store}

def All (k : Roster kind ρ) (P : ρ → Prop) (s : Store) : Prop :=
  ∀ r : Ref kind, s.contains r.element → P ((k.table s).get r)

theorem all_initial (hkind : kind ≠ .primitiveType) (ids : Nat → Uuid) : k.All P (.initial ids) := by
  intro r hr
  obtain ⟨p, hp⟩ := Store.contains_initial hr
  exact absurd (congrArg Element.kind hp) hkind

theorem All.enter {kind' : Kind} {r' : Ref kind'} {timestamp : Option Int} (h : k.All P s) (hr : s.Spare r'.order)
    (hkind : kind' ≠ kind) (htable : k.table s' = k.table s)
    (hheaders : s'.headers = (s.enter r'.element timestamp).headers) : k.All P s' := by
  intro r hcontains
  have hsame : (s.enter r'.element timestamp).contains r.element = s.contains r.element :=
    Store.contains_enter_of_kind_ne (e := r'.element) hr hkind
  rw [Store.contains, hheaders] at hcontains
  rw [htable]
  exact h r (hsame ▸ hcontains)

theorem All.write {r : Ref kind} {a : ρ} (h : k.All P s)
    (hcontains : ∀ e, s'.contains e → e = r.element ∨ s.contains e)
    (hget : ∀ j, (k.table s').get j = if j = r then a else (k.table s).get j) (ha : P a) : k.All P s' := by
  intro j hj
  rw [hget]
  split_ifs with heq
  · exact ha
  · have hne : j.element ≠ r.element := fun he => heq (by simpa using congrArg (Element.as? kind) he)
    exact h j ((hcontains _ hj).resolve_left hne)

end Roster

namespace Store
variable {may : Leave} {s s' : Store}

structure Furnished (s : Store) : Prop where
  ends : Roster.associations.All AssociationRecord.Ample s
  types : Roster.models.All ModelRecord.HoldsPrimitives s

theorem furnished_initial (ids : Nat → Uuid) : (initial ids).Furnished :=
  ⟨Roster.all_initial (by decide) ids, Roster.all_initial (by decide) ids⟩

theorem Furnished.enter {kind : Kind} {r : Ref kind} {timestamp : Option Int} (h : s.Furnished)
    (hr : s.Spare r.order) (hassociation : kind ≠ .association) (hmodel : kind ≠ .model)
    (hassociations : s'.associations = s.associations) (hmodels : s'.models = s.models)
    (hheaders : s'.headers = (s.enter r.element timestamp).headers) : s'.Furnished :=
  ⟨h.ends.enter hr hassociation hassociations hheaders, h.types.enter hr hmodel hmodels hheaders⟩

theorem Furnished.setModel {m : ModelRef} {record : ModelRecord} (h : s.Furnished) (hm : s.contains m.element)
    (hrecord : (s.models.get m).HoldsPrimitives → record.HoldsPrimitives) :
    Furnished { s with models := s.models.set m record } :=
  ⟨h.ends, h.types.write (fun _ => Or.inr) (fun _ => Table.get_set _ _ _ _) (hrecord (h.types m hm))⟩

theorem Quiet.furnished (hq : s.Quiet may s') (h : s.Furnished) : s'.Furnished := by
  cases hq with
  | noted channel message =>
    unfold Store.noted
    split_ifs
    · exact ⟨h.ends, h.types⟩
    · exact h
  | drawn | multiplicity => exact ⟨h.ends, h.types⟩
  | @bare kind r l timestamp hkind hr =>
    refine h.enter hr.spare ?_ ?_ rfl rfl rfl
    · rintro rfl
      simp at hkind
    · rintro rfl
      simp at hkind

theorem Change.furnished (hc : s.Change may s') (h : s.Furnished) : s'.Furnished := by
  cases hc with
  | quiet hq => exact hq.furnished h
  | timestamp t he =>
    have hcontains := contains_setTimestamp he t
    refine ⟨fun a ha => h.ends a ?_, fun m hm => h.types m ?_⟩
    · rwa [hcontains] at ha
    · rwa [hcontains] at hm
  | ends ha hx hcheck =>
    refine ⟨h.ends.write (fun _ => Or.inr) (fun _ => Table.get_set _ _ _ _) ?_, h.types⟩
    exact checkArity_eq_ok (checkEnds_eq_ok hcheck).1
  | types hm => exact h.setModel hm fun _ => mem_withPrimitives
  | associations hm | generalizations hm | packages hm | constraints hm => exact h.setModel hm id
  | @newAssociation r xs cs isBinary l timestamp hr hx hcheck =>
    have harity := checkArity_eq_ok (checkEnds_eq_ok hcheck).1
    refine ⟨h.ends.write (r := r) (fun _ => eq_or_contains_of_enter) (fun a => ?_) harity, ?_⟩
    · -- it is entered without ends, which are linked at once
      show ((s.associations.set r ⟨isBinary, ∅⟩).modify r _).get a = _
      rw [Table.get_modify, Table.get_set]
      split_ifs <;> rfl
    · exact h.types.enter hr.spare (by decide) rfl rfl
  | newModel l timestamp hr ha hprimitive =>
    refine ⟨h.ends.enter hr.spare (by decide) rfl rfl, ?_⟩
    exact h.types.write (fun _ => eq_or_contains_of_enter) (fun _ => Table.get_set _ _ _ _) hprimitive
  | newEnumeration l timestamp hr | newLiteral l timestamp hr | newClass l timestamp _ _ _ hr
  | newProperty l timestamp hr | newParameter l timestamp hr | newMethod l timestamp hr
  | newGeneralizationSet l timestamp hr | newPackage l timestamp hr | newConstraint l timestamp hr =>
    exact h.enter hr.spare (by decide) (by decide) rfl rfl rfl
  | newGeneralization timestamp hr => exact h.enter hr (by decide) (by decide) rfl rfl rfl
  | _ => exact ⟨h.ends, h.types⟩

/-- What is true of all elements, half-constructed ones too. -/
structure WellFormed (s : Store) : Prop where
  name : ∀ e, s.contains e → e.kind ≠ .generalization → ∃ l, s.labels.get? e.order = some l ∧
    e.kind.checkName (.text l.name) = .ok l.name ∧ Command.fieldOf s "name" (.element e) = .text l.name
  visibility : ∀ e, s.contains e → e.kind ≠ .generalization →
    ∃ v ∈ ["public", "private", "protected", "package"], Command.fieldOf s "visibility" (.element e) = .text v
  primitive : ∀ r : PrimitiveRef, s.contains r.element → r.name s ∈ Primitive.names
  property : ∀ (p : PropertyRef) (t : TypeRef), (s.properties.get p).owner = some (.type t) → ¬ t.isData
  method : ∀ (m : MethodRef) (t : TypeRef), (s.methods.get m).owner = some t → ¬ t.isData
  literal : ∀ (l : LiteralRef) (t : TypeRef), (s.literals.get l).owner = some t → ¬ t.isPrimitive
  ends : ∀ a : AssociationRef, s.contains a.element → 2 ≤ (s.associations.get a).ends.size
  binaryEnds : ∀ a : AssociationRef, s.contains a.element → (s.associations.get a).isBinary →
    (s.associations.get a).ends.size = 2
  types : ∀ m : ModelRef, s.contains m.element → ∀ p : Primitive, p.type ∈ (s.models.get m).types
  generalization : ∀ g : GeneralizationRef, s.contains g.element →
    (s.generalizations.get g).general ≠ (s.generalizations.get g).specific

theorem fieldOf_name {e : Element} (he : e.kind ≠ .generalization) :
    Command.fieldOf s "name" (.element e) = .text (e.name s) := by
  unfold Command.fieldOf fields
  dsimp only
  rw [if_neg he]
  rfl

theorem fieldOf_visibility {e : Element} (he : e.kind ≠ .generalization) :
    Command.fieldOf s "visibility" (.element e) = .text (s.labels.get e.order).visibility.name := by
  unfold Command.fieldOf fields
  dsimp only
  rw [if_neg he]
  rfl

theorem wellFormed_of_linked (hnamed : s.Named) (howned : s.Owned) (hfurnished : s.Furnished)
    (hlinked : s.Linked) : s.WellFormed where
  name e he hkind := by
    obtain ⟨l, hl, hcheck⟩ := hnamed e he hkind
    refine ⟨l, hl, hcheck, ?_⟩
    rw [fieldOf_name hkind, Element.name, nameAt, Table.get, hl, Option.getD_some]
  visibility e he hkind := by
    refine ⟨_, ?_, fieldOf_visibility hkind⟩
    cases (s.labels.get e.order).visibility <;> decide
  primitive _ hr := hnamed.primitive hr
  property p t ht := (howned.property p (.type t) ht).1
  method m t ht := (howned.method m t ht).1
  literal l t ht := (howned.literal l t ht).1
  ends a ha := (hfurnished.ends a ha).1
  binaryEnds a ha := (hfurnished.ends a ha).2
  types m hm := hfurnished.types m hm
  generalization g hg := hlinked.irreflexive g hg

end Store

namespace Session

/-- An item has a handle, or an element that is accessible refers to it. -/
inductive Accessible (s : Session) : Item → Prop where
  | bound {b : String × Item} (hb : b ∈ s.bindings) : s.Accessible b.2
  | referred {e : Element} {i : Item} (he : s.Accessible (.element e)) (hi : i ∈ s.store.itemsOf e) : s.Accessible i

theorem Sound.holds_of_accessible {s : Session} (h : s.Sound) {i : Item} (hi : s.Accessible i) : s.store.holds i := by
  induction hi with
  | bound hb => exact h.bound _ hb
  | referred _ hi ih => exact h.store.closed _ ih _ hi

theorem furnished_run (ids : Nat → Uuid) (cs : List Command) : ((initial ids).run cs).store.Furnished :=
  (sound_initial ids).run_induction (Store.furnished_initial ids) (fun _ h => ⟨h.ends, h.types⟩)
    (fun _ _ _ hc h => hc.furnished h) cs

end Session

/--
Whatever values a user supplies, and whichever commands are rejected: in every state of a run, whatever can be got at
from the handles is there, and what is there is well formed.
-/
theorem wellFormed_run (ids : Nat → Uuid) (cs : List Command) :
    let s := (Session.initial ids).run cs
    (∀ e, s.Accessible (.element e) → s.store.contains e) ∧ s.store.WellFormed := by
  intro s
  have hinitial := Session.sound_initial ids
  have hnamed : s.store.Named := by
    refine hinitial.run_induction (P := Store.Named) (Store.named_initial ids) (fun _ h => h) ?_ cs
    exact fun _ _ _ hc h => hc.named h
  have hfurnished : s.store.Furnished := Session.furnished_run ids cs
  refine ⟨fun e he => (hinitial.run cs).holds_of_accessible he, ?_⟩
  exact Store.wellFormed_of_linked hnamed (Session.owned_run ids cs) hfurnished (Session.linked_run ids cs)

end ClassDiagram
