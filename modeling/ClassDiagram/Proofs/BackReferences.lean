import ClassDiagram.Proofs.Reachable

/-! Classes refer back to exactly those generalizations that they are an end of. -/

namespace ClassDiagram
open Roster

namespace Store

/-- Back-references and ends agree, and no class generalizes itself. -/
structure Linked (s : Store) : Prop where
  registered : ∀ (c : ClassRef) (g : GeneralizationRef), g ∈ (s.classes.get c).generalizations ↔
    s.contains g.element ∧ ((s.generalizations.get g).general = c ∨ (s.generalizations.get g).specific = c)
  irreflexive : ∀ g : GeneralizationRef, s.contains g.element →
    (s.generalizations.get g).general ≠ (s.generalizations.get g).specific

def Generalizes (s : Store) (general specific : ClassRef) : Prop :=
  ∃ g : GeneralizationRef, s.contains g.element ∧ (s.generalizations.get g).general = general ∧
    (s.generalizations.get g).specific = specific

variable {may : Leave} {s s' : Store}

theorem linked_initial (ids : Nat → Uuid) : (initial ids).Linked := by
  have hnone : ∀ g : GeneralizationRef, ¬ (initial ids).contains g.element := by
    intro g hg
    obtain ⟨p, hp⟩ := contains_initial hg
    cases congrArg Element.kind hp
  refine ⟨?_, fun g hg => absurd hg (hnone g)⟩
  intro c g
  constructor
  · intro hg
    cases hg
  · intro hg
    exact absurd hg.1 (hnone g)

theorem Linked.congr (h : s.Linked)
    (hclasses : ∀ c, (s'.classes.get c).generalizations = (s.classes.get c).generalizations)
    (hgeneralizations : s'.generalizations = s.generalizations)
    (hcontains : ∀ g : GeneralizationRef, s'.contains g.element = s.contains g.element) : s'.Linked where
  registered c g := by
    rw [hclasses, hgeneralizations, hcontains]
    exact h.registered c g
  irreflexive g hg := by
    rw [hcontains] at hg
    rw [hgeneralizations]
    exact h.irreflexive g hg

theorem Linked.modifyClass {c : ClassRef} {f : ClassRecord → ClassRecord} (h : s.Linked)
    (hclasses : s'.classes = s.classes.modify c f) (hf : ∀ r, (f r).generalizations = r.generalizations)
    (hgeneralizations : s'.generalizations = s.generalizations) (hheaders : s'.headers = s.headers) : s'.Linked := by
  apply h.congr _ hgeneralizations
  · intro g
    rw [contains, contains, hheaders]
  · intro d
    rw [hclasses]
    exact Table.map_get_modify hf s.classes c d

theorem Linked.enter {kind : Kind} {r : Ref kind} {timestamp : Option Int} (h : s.Linked) (hr : s.Spare r.order)
    (hkind : kind ≠ .generalization)
    (hclasses : ∀ c, (s'.classes.get c).generalizations = (s.classes.get c).generalizations)
    (hgeneralizations : s'.generalizations = s.generalizations)
    (hheaders : s'.headers = (s.enter r.element timestamp).headers) : s'.Linked := by
  apply h.congr hclasses hgeneralizations
  intro g
  have hsame : (s.enter r.element timestamp).contains g.element = s.contains g.element :=
    contains_enter_of_kind_ne (e := r.element) hr hkind
  rw [← hsame, contains, contains, hheaders]

theorem Linked.setEnds (h : s.Linked) (a : AssociationRef) (xs : OrderedSet PropertyRef) (cs : List ClassRef) :
    (s.setEnds a xs cs).Linked := by
  have hlink : ∀ r : ClassRecord, (r.link a).generalizations = r.generalizations := fun _ => rfl
  have hunlink : ∀ r : ClassRecord, (r.unlink a).generalizations = r.generalizations := fun _ => rfl
  refine h.congr (fun c => ?_) rfl fun _ => rfl
  have hunlinked := Table.map_get_modifyAll hunlink s.classes (s.classesOf (s.associations.get a).ends) c
  exact (Table.map_get_modifyAll hlink _ cs c).trans hunlinked

theorem Linked.generalizations_of_spare {c : ClassRef} (h : s.Linked) (hs : s.Sound) (hc : s.Spare c.order) :
    (s.classes.get c).generalizations = ∅ := by
  apply OrderedSet.ext
  apply List.eq_nil_iff_forall_not_mem.2
  intro g hg
  obtain ⟨hcontains, hends⟩ := (h.registered c g).1 hg
  have hclosed := hs.closed g.element hcontains
  rcases hends with rfl | rfl
  · exact hc.not_contains (hclosed (.ref _) List.mem_cons_self)
  · exact hc.not_contains (hclosed (.ref _) (List.mem_cons_of_mem _ List.mem_cons_self))

theorem Linked.enterClass {r : ClassRef} {record : ClassRecord} (h : s.Linked) (hs : s.Sound)
    (hr : s.Spare r.order) (hrecord : record.generalizations = ∅) (l : Label) (timestamp : Option Int) :
    (Roster.classes.enroll s r record l timestamp).Linked := by
  refine h.enter hr (by decide) (fun c => ?_) rfl rfl
  show ((s.classes.set r record).get c).generalizations = _
  rw [Table.get_set]
  -- the record that is replaced had none either
  split_ifs with hc
  · rw [hc, hrecord, h.generalizations_of_spare hs hr]
  · rfl

theorem mem_register {r : ClassRecord} {g g' : GeneralizationRef} :
    g' ∈ (r.register g).generalizations ↔ g' ∈ r.generalizations ∨ g' = g := OrderedSet.mem_insert

theorem mem_unregister {r : ClassRecord} {g g' : GeneralizationRef} :
    g' ∈ (r.unregister g).generalizations ↔ g' ≠ g ∧ g' ∈ r.generalizations := OrderedSet.mem_erase

theorem mem_modify_register {t : Table ClassRef ClassRecord} {c d : ClassRef} {g g' : GeneralizationRef} :
    g' ∈ ((t.modify c (·.register g)).get d).generalizations ↔
      g' ∈ (t.get d).generalizations ∨ g' = g ∧ d = c := by
  rw [Table.get_modify]
  split_ifs with hd
  · rw [mem_register]
    simp [hd]
  · simp [hd]

theorem mem_modify_unregister {t : Table ClassRef ClassRecord} {c d : ClassRef} {g g' : GeneralizationRef} :
    g' ∈ ((t.modify c (·.unregister g)).get d).generalizations ↔
      g' ∈ (t.get d).generalizations ∧ (g' ≠ g ∨ d ≠ c) := by
  rw [Table.get_modify]
  split_ifs with hd
  · rw [mem_unregister, and_comm]
    simp [hd]
  · simp [hd]

theorem Linked.rewire {g : GeneralizationRef} {old new : ClassRef} {ends : GeneralizationRecord} (h : s.Linked)
    (hg : s.contains g.element)
    (hclasses : s'.classes = (s.classes.modify old (·.unregister g)).modify new (·.register g))
    (hgeneralizations : s'.generalizations = s.generalizations.set g ends) (hheaders : s'.headers = s.headers)
    (hirreflexive : ends.general ≠ ends.specific)
    (hends : ∀ d, ends.general = d ∨ ends.specific = d ↔
      ((s.generalizations.get g).general = d ∨ (s.generalizations.get g).specific = d) ∧ d ≠ old ∨ d = new) :
    s'.Linked := by
  have hcontains : ∀ e, s'.contains e = s.contains e := by
    intro e
    rw [contains, contains, hheaders]
  constructor
  · intro d g'
    -- the class at the old end forgets the generalization before the one at the new end takes it up
    rw [hclasses, mem_modify_register, mem_modify_unregister, h.registered, hcontains, hgeneralizations,
      Table.get_set]
    split_ifs with he
    · subst he
      simp [hg, hends]
    · simp [he]
  · intro g' hg'
    rw [hgeneralizations, Table.get_set]
    rw [hcontains] at hg'
    split_ifs with he
    · exact hirreflexive
    · exact h.irreflexive g' hg'

theorem Linked.setGeneral (h : s.Linked) {g : GeneralizationRef} {c : ClassRef} (hg : s.contains g.element)
    (hc : c ≠ (s.generalizations.get g).specific) : (s.setGeneral g c).Linked := by
  have hirreflexive := h.irreflexive g hg
  refine h.rewire hg rfl rfl rfl hc fun d => ?_
  show c = d ∨ _ ↔ _
  grind

theorem Linked.setSpecific (h : s.Linked) {g : GeneralizationRef} {c : ClassRef} (hg : s.contains g.element)
    (hc : c ≠ (s.generalizations.get g).general) : (s.setSpecific g c).Linked := by
  have hirreflexive := h.irreflexive g hg
  refine h.rewire hg rfl rfl rfl hc.symm fun d => ?_
  show _ ∨ c = d ↔ _
  grind

theorem Linked.newGeneralization {r : GeneralizationRef} {general specific : ClassRef} (h : s.Linked)
    (hr : s.Spare r.order) (hne : general ≠ specific) (timestamp : Option Int) :
    Linked { s.enter r.element timestamp with
      generalizations := s.generalizations.set r ⟨general, specific⟩
      classes := (s.classes.modify general (·.register r)).modify specific (·.register r) } := by
  have hself : (s.enter r.element timestamp).contains r.element := contains_enter_self
  have hother : ∀ g : GeneralizationRef, g ≠ r →
      (s.enter r.element timestamp).contains g.element = s.contains g.element := by
    intro g he
    have horder : g.order ≠ r.order := fun ho => he (Table.key_inj.1 ho)
    rw [contains_enter]
    exact if_neg horder
  constructor
  · intro d g
    rw [mem_modify_register, mem_modify_register, h.registered, Table.get_set]
    show _ ↔ (s.enter r.element timestamp).contains g.element ∧ _
    split_ifs with he
    · have hnot : ¬ s.contains r.element := hr.not_contains
      subst he
      simp [hself, hnot, eq_comm]
    · rw [hother g he]
      simp [he]
  · intro g hg
    rw [Table.get_set]
    split_ifs with he
    · exact hne
    · exact h.irreflexive g ((hother g he).symm.trans hg)

theorem Quiet.linked (h : s.Linked) (hs : s.Quiet may s') : s'.Linked := by
  cases hs with
  | noted channel message =>
    unfold Store.noted
    split_ifs
    · exact h.congr (fun _ => rfl) rfl fun _ => rfl
    · exact h
  | drawn | multiplicity => exact h.congr (fun _ => rfl) rfl fun _ => rfl
  | bare timestamp hkind hr =>
    refine h.enter hr.spare ?_ (fun _ => rfl) rfl rfl
    intro heq
    rw [heq] at hkind
    exact absurd hkind (by decide)

theorem checkGeneral_eq_ok {g : GeneralizationRef} {c : ClassRef} (h : s.checkGeneral g c = .ok ()) :
    c ≠ (s.generalizations.get g).specific := by
  unfold checkGeneral at h
  split_ifs at h with he
  exact he

theorem checkSpecific_eq_ok {g : GeneralizationRef} {c : ClassRef} (h : s.checkSpecific g c = .ok ()) :
    c ≠ (s.generalizations.get g).general := by
  unfold checkSpecific at h
  split_ifs at h with he
  exact he

theorem Change.linked (hs : s.Sound) (hc : s.Change may s') (h : s.Linked) :
    s'.Linked := by
  cases hc with
  | quiet hq => exact hq.linked h
  | timestamp t he => exact h.congr (fun _ => rfl) rfl fun _ => contains_setTimestamp he t _
  | attributes => exact h.modifyClass (f := fun r => { r with attributes := _ }) rfl (fun _ => rfl) rfl rfl
  | methods => exact h.modifyClass (f := fun r => { r with methods := _ }) rfl (fun _ => rfl) rfl rfl
  | insertAttribute =>
    exact h.modifyClass (f := fun r => { r with attributes := r.attributes.insert _ }) rfl (fun _ => rfl) rfl rfl
  | insertMethod =>
    exact h.modifyClass (f := fun r => { r with methods := r.methods.insert _ }) rfl (fun _ => rfl) rfl rfl
  | abstractClass => exact h.modifyClass (f := fun r => { r with isAbstract := _ }) rfl (fun _ => rfl) rfl rfl
  | readOnlyClass => exact h.modifyClass (f := fun r => { r with isReadOnly := _ }) rfl (fun _ => rfl) rfl rfl
  | describedAssociation =>
    exact h.modifyClass (f := fun r => { r with association := some _ }) rfl (fun _ => rfl) rfl rfl
  | ends => exact h.setEnds _ _ _
  | general hg _ hcheck => exact h.setGeneral hg (checkGeneral_eq_ok hcheck)
  | specific hg _ hcheck => exact h.setSpecific hg (checkSpecific_eq_ok hcheck)
  | newClass l timestamp isAbstract isReadOnly isAssociationClass hr =>
    have henroll : (Roster.classes.enroll s _
        { (default : ClassRecord) with isAbstract, isReadOnly, isAssociationClass } l timestamp).Linked :=
      h.enterClass hs hr.spare rfl l timestamp
    exact henroll.modifyClass (f := fun r => { r with attributes := _ }) rfl (fun _ => rfl) rfl rfl
  | newAssociation isBinary l timestamp hr =>
    have henroll : (Roster.associations.enroll s _ ⟨isBinary, ∅⟩ l timestamp).Linked :=
      h.enter hr.spare (by decide) (fun _ => rfl) rfl rfl
    exact henroll.setEnds _ _ _
  | newGeneralization timestamp hr _ _ hne => exact h.newGeneralization hr hne timestamp
  | newEnumeration _ _ hr | newLiteral _ _ hr | newProperty _ _ hr | newParameter _ _ hr | newMethod _ _ hr
  | newGeneralizationSet _ _ hr | newPackage _ _ hr | newConstraint _ _ hr | newModel _ _ hr =>
    exact h.enter hr.spare (by decide) (fun _ => rfl) rfl rfl
  | _ => exact h.congr (fun _ => rfl) rfl fun _ => rfl

end Store

namespace Session

theorem linked_run (ids : Nat → Uuid) (cs : List Command) : ((initial ids).run cs).store.Linked :=
  (sound_initial ids).run_induction (Store.linked_initial ids)
    (fun _ h => h.congr (fun _ => rfl) rfl fun _ => rfl) (fun _ _ hs hc h => hc.linked hs h) cs

end Session

namespace Store
variable {s : Store}

theorem Linked.mem_parents (h : s.Linked) {c p : ClassRef} : p ∈ s.parents c ↔ s.Generalizes p c := by
  rw [parents, OrderedSet.mem_ofList, List.mem_filter, List.mem_map]
  constructor
  · intro hp
    obtain ⟨⟨g, hg, rfl⟩, hne⟩ := hp
    obtain ⟨hcontains, hends⟩ := (h.registered c g).1 hg
    exact ⟨g, hcontains, rfl, hends.resolve_left (of_decide_eq_true hne)⟩
  · intro hp
    obtain ⟨g, hg, rfl, rfl⟩ := hp
    have hends := (h.registered (s.generalizations.get g).specific g).2 ⟨hg, Or.inr rfl⟩
    exact ⟨⟨g, hends, rfl⟩, decide_eq_true (h.irreflexive g hg)⟩

theorem Linked.mem_specializations (h : s.Linked) {c d : ClassRef} :
    d ∈ s.specializations c ↔ s.Generalizes c d := by
  rw [specializations, OrderedSet.mem_ofList, List.mem_filter, List.mem_map]
  constructor
  · intro hd
    obtain ⟨⟨g, hg, rfl⟩, hne⟩ := hd
    obtain ⟨hcontains, hends⟩ := (h.registered c g).1 hg
    exact ⟨g, hcontains, hends.resolve_right (of_decide_eq_true hne), rfl⟩
  · intro hd
    obtain ⟨g, hg, rfl, rfl⟩ := hd
    have hends := (h.registered (s.generalizations.get g).general g).2 ⟨hg, Or.inl rfl⟩
    exact ⟨⟨g, hends, rfl⟩, decide_eq_true (h.irreflexive g hg).symm⟩

end Store

/--
In every state that a session can reach, a class refers back to a generalization exactly if the generalization has
come to be and has the class at an end, so that parents and specializations are read off one end alone.
-/
theorem generalizations_exact (ids : Nat → Uuid) (cs : List Command) :
    let s := ((Session.initial ids).run cs).store
    (∀ (c : ClassRef) (g : GeneralizationRef), g ∈ (s.classes.get c).generalizations ↔
      s.contains g.element ∧ ((s.generalizations.get g).general = c ∨ (s.generalizations.get g).specific = c)) ∧
    (∀ g : GeneralizationRef, s.contains g.element →
      (s.generalizations.get g).general ≠ (s.generalizations.get g).specific) ∧
    (∀ c p : ClassRef, p ∈ s.parents c ↔ s.Generalizes p c) ∧
    ∀ c d : ClassRef, d ∈ s.specializations c ↔ s.Generalizes c d := by
  have h := Session.linked_run ids cs
  exact ⟨h.registered, h.irreflexive, fun _ _ => h.mem_parents, fun _ _ => h.mem_specializations⟩

end ClassDiagram
