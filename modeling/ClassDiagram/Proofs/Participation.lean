import ClassDiagram.Proofs.Checks
import ClassDiagram.Proofs.Facets

/-! Classes refer back to exactly those associations that have an end of their type. -/

namespace ClassDiagram

namespace Store

def IsEnd (s : Store) (p : PropertyRef) : Prop :=
  ∃ a : AssociationRef, s.contains a.element ∧ p ∈ (s.associations.get a).ends

/-- To assign to a facet is not to assign to the type of an end. -/
def SparesEnds (s : Store) (f : Facet) : Prop := ∀ p, f = .type p → ¬ s.IsEnd p

def Joins (s : Store) (a : AssociationRef) (c : ClassRef) : Prop :=
  ∃ p ∈ (s.associations.get a).ends, s.typeOf p = .ofClass c

/-- Back-references and the types of ends agree. -/
def Attached (s : Store) : Prop :=
  ∀ (c : ClassRef) (a : AssociationRef), a ∈ (s.classes.get c).associations ↔ s.contains a.element ∧ s.Joins a c

variable {may : Leave} {s s' : Store}

instance (p : PropertyRef) : Decidable (s.IsEnd p) :=
  decidable_of_iff (∃ a ∈ s.associations.keys, s.contains a.element ∧ p ∈ (s.associations.get a).ends) <| by
    refine exists_congr fun a => and_iff_right_of_imp fun ⟨_, hmem⟩ => Table.mem_keys.2 ?_
    -- what was never entered has no ends
    refine Decidable.byContradiction fun hnot => ?_
    rw [Table.get_of_not_contains hnot] at hmem
    exact OrderedSet.not_mem_empty p hmem

instance : DecidablePred s.SparesEnds
  | .type p => decidable_of_iff (¬ s.IsEnd p) ⟨fun h _ hf => Facet.type.inj hf ▸ h, fun h => h p rfl⟩
  | .name _ | .isComposite _ | .isId _ => isTrue fun _ hf => nomatch hf

theorem attached_initial (ids : Nat → Uuid) : (initial ids).Attached := by
  intro c a
  constructor
  · intro ha
    cases ha
  · rintro ⟨hcontains, _⟩
    obtain ⟨p, hp⟩ := contains_initial hcontains
    cases congrArg Element.kind hp

theorem Attached.congr (h : s.Attached)
    (hclasses : ∀ c, (s'.classes.get c).associations = (s.classes.get c).associations)
    (hassociations : s'.associations = s.associations)
    (hcontains : ∀ a : AssociationRef, s'.contains a.element = s.contains a.element)
    (htypes : ∀ p, s.IsEnd p → s'.typeOf p = s.typeOf p) : s'.Attached := by
  intro c a
  rw [hclasses, h c a, hcontains]
  refine and_congr_right fun ha => ?_
  unfold Joins
  rw [hassociations]
  refine exists_congr fun p => and_congr_right fun hp => ?_
  rw [htypes p ⟨a, ha, hp⟩]

theorem Attached.enter {kind : Kind} {r : Ref kind} {timestamp : Option Int} (h : s.Attached)
    (hr : s.Spare r.order) (hkind : kind ≠ .association)
    (hclasses : ∀ c, (s'.classes.get c).associations = (s.classes.get c).associations)
    (hassociations : s'.associations = s.associations)
    (hheaders : s'.headers = (s.enter r.element timestamp).headers)
    (htypes : ∀ p, s.IsEnd p → s'.typeOf p = s.typeOf p) : s'.Attached := by
  refine h.congr hclasses hassociations (fun a => ?_) htypes
  have hsame : (s.enter r.element timestamp).contains a.element = s.contains a.element :=
    contains_enter_of_kind_ne (e := r.element) hr hkind
  rw [← hsame, contains, contains, hheaders]

theorem associations_register {t : Table ClassRef ClassRecord} {c d : ClassRef} {g : GeneralizationRef} :
    ((t.modify d (·.register g)).get c).associations = (t.get c).associations := by
  apply Table.map_get_modify (t := t)
  exact fun _ => rfl

theorem associations_unregister {t : Table ClassRef ClassRecord} {c d : ClassRef} {g : GeneralizationRef} :
    ((t.modify d (·.unregister g)).get c).associations = (t.get c).associations := by
  apply Table.map_get_modify (t := t)
  exact fun _ => rfl

theorem mem_modify_link {t : Table ClassRef ClassRecord} {c d : ClassRef} {a a' : AssociationRef} :
    a' ∈ ((t.modify d (·.link a)).get c).associations ↔ a' ∈ (t.get c).associations ∨ a' = a ∧ c = d := by
  rw [Table.get_modify]
  split_ifs with hc
  · simp only [ClassRecord.link, OrderedSet.mem_insert, hc, and_true]
  · simp only [hc, and_false, or_false]

theorem mem_modify_unlink {t : Table ClassRef ClassRecord} {c d : ClassRef} {a a' : AssociationRef} :
    a' ∈ ((t.modify d (·.unlink a)).get c).associations ↔ a' ∈ (t.get c).associations ∧ ¬ (a' = a ∧ c = d) := by
  rw [Table.get_modify]
  split_ifs with hc
  · simp only [ClassRecord.unlink, OrderedSet.mem_erase, hc, and_true]
    exact and_comm
  · simp only [hc, and_false, not_false_eq_true, and_true]

theorem mem_modifyAll_link {t : Table ClassRef ClassRecord} {cs : List ClassRef} {c : ClassRef}
    {a a' : AssociationRef} :
    a' ∈ ((t.modifyAll cs (·.link a)).get c).associations ↔ a' ∈ (t.get c).associations ∨ a' = a ∧ c ∈ cs := by
  induction cs generalizing t with
  | nil => simp [Table.modifyAll]
  | cons d cs ih =>
    have hcons : t.modifyAll (d :: cs) (·.link a) = (t.modify d (·.link a)).modifyAll cs (·.link a) := rfl
    rw [hcons, ih, mem_modify_link, List.mem_cons, or_assoc, ← and_or_left]

theorem mem_modifyAll_unlink {t : Table ClassRef ClassRecord} {cs : List ClassRef} {c : ClassRef}
    {a a' : AssociationRef} :
    a' ∈ ((t.modifyAll cs (·.unlink a)).get c).associations ↔
      a' ∈ (t.get c).associations ∧ ¬ (a' = a ∧ c ∈ cs) := by
  induction cs generalizing t with
  | nil => simp [Table.modifyAll]
  | cons d cs ih =>
    have hcons : t.modifyAll (d :: cs) (·.unlink a) = (t.modify d (·.unlink a)).modifyAll cs (·.unlink a) := rfl
    rw [hcons, ih, mem_modify_unlink, List.mem_cons, and_assoc, and_or_left, not_or]

theorem mem_classesOf {xs : OrderedSet PropertyRef} {c : ClassRef} :
    c ∈ s.classesOf xs ↔ ∃ p ∈ xs, s.typeOf p = .ofClass c := by
  simp only [classesOf, List.mem_filterMap, TypeRef.class?_eq_some_iff, OrderedSet.mem_def]

theorem typeOf_setEnds {a : AssociationRef} {xs : OrderedSet PropertyRef} {cs : List ClassRef} (p : PropertyRef) :
    (s.setEnds a xs cs).typeOf p = s.typeOf p := by
  apply Table.map_get_modifyAll (t := s.properties)
  exact fun _ => rfl

theorem mem_associations_setEnds {a a' : AssociationRef} {xs : OrderedSet PropertyRef} {cs : List ClassRef}
    {c : ClassRef} : a' ∈ ((s.setEnds a xs cs).classes.get c).associations ↔
      (a' ∈ (s.classes.get c).associations ∧ ¬ (a' = a ∧ s.Joins a c)) ∨ a' = a ∧ c ∈ cs := by
  have hold : c ∈ s.classesOf (s.associations.get a).ends ↔ s.Joins a c := mem_classesOf
  rw [← hold, ← mem_modifyAll_unlink, ← mem_modifyAll_link]
  rfl

theorem Attached.setEnds {a : AssociationRef} {xs : OrderedSet PropertyRef} {cs : List ClassRef} (h : s.Attached)
    (ha : s.contains a.element) (hcs : ∀ c, c ∈ cs ↔ ∃ p ∈ xs, s.typeOf p = .ofClass c) :
    (s.setEnds a xs cs).Attached := by
  intro c a'
  have hjoins : (s.setEnds a xs cs).Joins a' c ↔
      if a' = a then ∃ p ∈ xs, s.typeOf p = .ofClass c else s.Joins a' c := by
    unfold Joins
    simp only [typeOf_setEnds]
    rw [Store.setEnds, Table.get_modify]
    split_ifs <;> rfl
  rw [hjoins, mem_associations_setEnds, h c a', hcs]
  show _ ↔ s.contains a'.element ∧ _
  by_cases heq : a' = a
  · subst heq
    -- whichever class the association joined is forgotten first
    have hforgotten : ¬ ((s.contains a'.element ∧ s.Joins a' c) ∧ ¬ (a' = a' ∧ s.Joins a' c)) :=
      fun hboth => hboth.2 ⟨rfl, hboth.1.2⟩
    rw [if_pos rfl, or_iff_right hforgotten]
    simp only [ha, true_and]
  · simp [heq]

theorem Sound.holds_end (h : s.Sound) {p : PropertyRef} (hp : s.IsEnd p) : s.contains p.element := by
  obtain ⟨a, ha, hmem⟩ := hp
  exact h.closed a.element ha (.ref p) (List.mem_map_of_mem hmem)

theorem Quiet.attached (h : s.Attached) (hs : s.Quiet may s') (htypes : ∀ p, s.IsEnd p → s'.typeOf p = s.typeOf p) :
    s'.Attached := by
  cases hs with
  | noted channel message =>
    unfold Store.noted
    split_ifs
    · exact h.congr (fun _ => rfl) rfl (fun _ => rfl) fun _ _ => rfl
    · exact h
  | drawn | multiplicity => exact h.congr (fun _ => rfl) rfl (fun _ => rfl) htypes
  | bare timestamp hkind hr =>
    refine h.enter hr.spare ?_ (fun _ => rfl) rfl rfl htypes
    intro heq
    rw [heq] at hkind
    exact absurd hkind (by decide)

theorem Attached.associations_of_spare {c : ClassRef} (h : s.Attached) (hs : s.Sound) (hc : s.Spare c.order) :
    (s.classes.get c).associations = ∅ := by
  apply OrderedSet.ext
  apply List.eq_nil_iff_forall_not_mem.2
  intro a ha
  obtain ⟨hcontains, p, hp, htype⟩ := (h c a).1 ha
  have hclass : s.holds (.type (s.typeOf p)) :=
    hs.closed p.element (hs.holds_end ⟨a, hcontains, hp⟩) _ List.mem_cons_self
  rw [htype] at hclass
  exact hc.not_contains hclass

theorem Attached.associations_set {r : ClassRef} (h : s.Attached) (hs : s.Sound) (hr : s.Spare r.order)
    (record : ClassRecord) (hrecord : record.associations = ∅) (c : ClassRef) :
    ((s.classes.set r record).get c).associations = (s.classes.get c).associations := by
  rw [Table.get_set]
  -- the record that is replaced had none either
  split_ifs with hc
  · rw [hc, hrecord, h.associations_of_spare hs hr]
  · rfl

theorem Attached.enterAssociation {r : AssociationRef} (h : s.Attached) (hr : s.Spare r.order) (isBinary : Bool)
    (l : Label) (timestamp : Option Int) :
    (Roster.associations.enroll s r ⟨isBinary, ∅⟩ l timestamp).Attached := by
  intro c a
  show a ∈ (s.classes.get c).associations ↔ (s.enter r.element timestamp).contains a.element ∧
    ∃ p ∈ ((s.associations.set r ⟨isBinary, ∅⟩).get a).ends, s.typeOf p = .ofClass c
  rw [h c a, Table.get_set]
  split_ifs with heq
  · subst heq
    have hnot : ¬ s.contains a.element := hr.not_contains
    simp [hnot]
  · have horder : a.order ≠ r.order := fun ho => heq (Table.key_inj.1 ho)
    have hsame : (s.enter r.element timestamp).contains a.element = s.contains a.element := by
      rw [contains_enter]
      exact if_neg horder
    rw [hsame]
    rfl

theorem Change.attached (hs : s.Sound) (hc : s.Change may s')
    (hmay : ∀ f, may.assign s f → s.SparesEnds f) (h : s.Attached) : s'.Attached := by
  have htypes : ∀ p, s.IsEnd p → s'.typeOf p = s.typeOf p := by
    intro p hp
    have hsame : Facet.Same s s' (.type p) := hc.same (hs.holds_end hp) fun htype => hmay _ htype p rfl hp
    exact hsame
  cases hc with
  | quiet hq => exact hq.attached h htypes
  | timestamp t he => exact h.congr (fun _ => rfl) rfl (fun _ => contains_setTimestamp he t _) htypes
  | attributes | methods | insertAttribute | insertMethod | abstractClass | readOnlyClass | describedAssociation =>
    refine h.congr (fun c => ?_) rfl (fun _ => rfl) htypes
    apply Table.map_get_modify (t := s.classes)
    exact fun _ => rfl
  | ends ha _ hends => exact h.setEnds ha fun c => mem_of_checkEnds hends
  | general | specific =>
    refine h.congr (fun c => ?_) rfl (fun _ => rfl) htypes
    exact associations_register.trans associations_unregister
  | @newClass r xs l timestamp isAbstract isReadOnly isAssociationClass hr =>
    refine h.enter hr.spare (by decide) (fun c => ?_) rfl rfl htypes
    have hset := h.associations_set hs hr.spare
      { (default : ClassRecord) with isAbstract, isReadOnly, isAssociationClass } rfl c
    refine Eq.trans ?_ hset
    apply Table.map_get_modify
    exact fun _ => rfl
  | newAssociation isBinary l timestamp hr _ hends =>
    have henroll := h.enterAssociation hr.spare isBinary l timestamp
    exact henroll.setEnds contains_enter_self fun c => mem_of_checkEnds (s := s) hends
  | newGeneralization timestamp hr =>
    refine h.congr (fun c => ?_) rfl (fun a => ?_) htypes
    · exact associations_register.trans associations_register
    · exact contains_enter_of_kind_ne hr (by decide : Kind.generalization ≠ Kind.association)
  | newEnumeration _ _ hr | newLiteral _ _ hr | newProperty _ _ hr | newParameter _ _ hr | newMethod _ _ hr
  | newGeneralizationSet _ _ hr | newPackage _ _ hr | newConstraint _ _ hr | newModel _ _ hr =>
    exact h.enter hr.spare (by decide) (fun _ => rfl) rfl rfl htypes
  | _ => exact h.congr (fun _ => rfl) rfl (fun _ => rfl) htypes

end Store

theorem Session.attached_run (ids : Nat → Uuid) {cs : List Command}
    (h : (initial ids).Allows Store.SparesEnds cs) : ((initial ids).run cs).store.Attached :=
  (sound_initial ids).run_induction_of_allows (Store.attached_initial ids)
    (fun _ h => h.congr (fun _ => rfl) rfl (fun _ => rfl) fun _ _ => rfl) (fun _ _ hf => hf)
    (fun _ _ hs hc h => hc.attached hs (fun _ hf => hf) h) h

/--
As long as no type is assigned to a property that is an end at that moment, a class refers back to an association
exactly if the association has come to be and some end of it is typed by the class.
-/
theorem associations_exact (ids : Nat → Uuid) {cs : List Command}
    (h : (Session.initial ids).Allows Store.SparesEnds cs) :
    let s := ((Session.initial ids).run cs).store
    ∀ (c : ClassRef) (a : AssociationRef), a ∈ (s.classes.get c).associations ↔
      s.contains a.element ∧ ∃ p ∈ (s.associations.get a).ends, s.typeOf p = .ofClass c :=
  Session.attached_run ids h

theorem associations_exact_of_rewired_end :
    let cs : List Command :=
      [.create "c" (.classType (.text "C") {}), .create "d" (.classType (.text "D") {}),
        .create "p" (.property (.text "p") (.known (.ofClass ⟨9⟩)) {}),
        .create "q" (.property (.text "q") (.known (.ofClass ⟨10⟩)) {}),
        .create "r" (.property (.text "r") (.known (.ofClass ⟨10⟩)) {}),
        .create "a" (.association true (.text "A") [⟨11⟩, ⟨12⟩] {}),
        .assign (.propertyType ⟨13⟩ (.ofClass ⟨9⟩)), .assign (.ends ⟨14⟩ [⟨11⟩, ⟨13⟩])]
    let s := ((Session.initial fun _ => ⟨0⟩).run cs).store
    (Session.initial fun _ => ⟨0⟩).Allows Store.SparesEnds cs ∧
      (⟨14⟩ : AssociationRef) ∈ (s.classes.get ⟨9⟩).associations ∧
      (⟨14⟩ : AssociationRef) ∉ (s.classes.get ⟨10⟩).associations := by
  intro cs s
  have hallows : (Session.initial fun _ => ⟨0⟩).Allows Store.SparesEnds cs := by decide
  have hexact := associations_exact (fun _ => ⟨0⟩) hallows
  have hother : ∀ p ∈ (s.associations.get ⟨14⟩).ends.toList, s.typeOf p ≠ .ofClass ⟨10⟩ := by decide
  refine ⟨hallows, (hexact ⟨9⟩ ⟨14⟩).2 ⟨by decide, ⟨11⟩, by decide, by decide⟩, fun hmem => ?_⟩
  obtain ⟨_, p, hp, htype⟩ := (hexact ⟨10⟩ ⟨14⟩).1 hmem
  exact hother p hp htype

end ClassDiagram
