import ClassDiagram.Proofs.Reachable

/-! The names of elements, and what properties are, change only where they are assigned to. -/

namespace ClassDiagram

def PropertyRecord.nature (r : PropertyRecord) : TypeRef × Bool × Bool :=
  (r.type, r.isComposite.truthy, r.isId.truthy)

namespace Facet

def element : Facet → Element
  | name e => e
  | type p | isComposite p | isId p => p.element

def Same (s s' : Store) : Facet → Prop
  | name e => e.name s' = e.name s
  | type p => s'.typeOf p = s.typeOf p
  | isComposite p => s'.isComposite p = s.isComposite p
  | isId p => s'.isId p = s.isId p

end Facet

namespace Store
variable {may : Leave} {s s' : Store}

/-- The later store tells the same as the earlier one of all facets of what is there in the earlier one. -/
structure Agrees (s s' : Store) : Prop where
  names : ∀ e, s.contains e → e.name s' = e.name s
  natures : ∀ p : PropertyRef, s.contains p.element → (s'.properties.get p).nature = (s.properties.get p).nature

theorem same_of_nature {p : PropertyRef} (h : (s'.properties.get p).nature = (s.properties.get p).nature) :
    (Facet.type p).Same s s' ∧ (Facet.isComposite p).Same s s' ∧ (Facet.isId p).Same s s' := by
  obtain ⟨htype, hrest⟩ := Prod.ext_iff.1 h
  obtain ⟨hcomposite, hid⟩ := Prod.ext_iff.1 hrest
  exact ⟨htype, hcomposite, hid⟩

theorem Agrees.same (h : s.Agrees s') {f : Facet} (hf : s.contains f.element) : f.Same s s' := by
  cases f with
  | name e => exact h.names e hf
  | type p => exact (same_of_nature (h.natures p hf)).1
  | isComposite p => exact (same_of_nature (h.natures p hf)).2.1
  | isId p => exact (same_of_nature (h.natures p hf)).2.2

theorem nature_release (r : PropertyRecord) (o : Owner) : (r.release o).nature = r.nature := by
  unfold PropertyRecord.release
  split_ifs <;> rfl

theorem nature_setAttributes {c : ClassRef} {xs : OrderedSet PropertyRef} (q : PropertyRef) :
    ((s.setAttributes c xs).properties.get q).nature = (s.properties.get q).nature := by
  have hown : ∀ r : PropertyRecord, PropertyRecord.nature { r with owner := some (.type (.ofClass c)) } = r.nature :=
    fun _ => rfl
  refine (Table.map_get_modifyAll hown _ xs.toList q).trans ?_
  split_ifs
  · exact Table.map_get_modifyAll (nature_release · _) s.properties _ q
  · rfl

theorem agrees_of_labels (hlabels : s'.labels = s.labels)
    (hnatures : ∀ q, (s'.properties.get q).nature = (s.properties.get q).nature) : s.Agrees s' := by
  refine ⟨fun e _ => ?_, fun q _ => hnatures q⟩
  rw [Element.name, nameAt, hlabels]
  rfl

theorem agrees_of_enroll {n : Nat} {l : Label} (hn : s.Spare n) (hlabels : s'.labels = s.labels.set n l)
    (hnatures : ∀ q : PropertyRef, s.contains q.element → (s'.properties.get q).nature = (s.properties.get q).nature) :
    s.Agrees s' := by
  refine ⟨fun e he => ?_, hnatures⟩
  have hne : e.order ≠ n := hn.ne_of_holds (r := ⟨e.order⟩) he
  rw [Element.name, nameAt, hlabels, Table.get_set, if_neg hne]
  rfl

theorem Quiet.agrees (h : s.Quiet may s') : s.Agrees s' := by
  cases h with
  | noted channel message =>
    unfold Store.noted
    split_ifs <;> exact agrees_of_labels rfl fun _ => rfl
  | drawn | multiplicity => exact agrees_of_labels rfl fun _ => rfl
  | bare timestamp hkind hr => exact agrees_of_enroll hr.spare rfl fun _ _ => rfl

theorem eq_of_contains {e e' : Element} (he : s.contains e) (he' : s.contains e') (h : e.order = e'.order) :
    e = e' := by
  obtain ⟨kind, n⟩ := e
  obtain ⟨kind', n'⟩ := e'
  cases h
  unfold contains at he he'
  cases hn : s.headers.get? n with
  | none => simp [hn] at he
  | some header =>
    have hkind : header.kind = kind := by simpa [hn] using he
    have hkind' : header.kind = kind' := by simpa [hn] using he'
    rw [← hkind, ← hkind']

theorem Change.same (hc : s.Change may s') {f : Facet} (hf : s.contains f.element)
    (hmay : ¬ may.assign s f) : f.Same s s' := by
  cases hc with
  | quiet hq => exact hq.agrees.same hf
  | @name e _ name he _ hname =>
    cases f with
    | name e' =>
      have hne : e'.order ≠ e.order := by
        intro horder
        have heq : e' = e := eq_of_contains hf he horder
        exact hmay (heq ▸ hname)
      show ((s.labels.modify e.order _).get e'.order).name = (s.labels.get e'.order).name
      rw [Table.get_modify, if_neg hne]
    | _ => rfl
  | visibility | synonyms =>
    refine Agrees.same ?_ hf
    refine ⟨fun e _ => ?_, fun _ _ => rfl⟩
    apply Table.map_get_modify (t := s.labels)
    exact fun _ => rfl
  | @propertyType p t _ _ htype =>
    cases f with
    | name e => rfl
    | type q =>
      have hne : q ≠ p := fun heq => hmay (heq ▸ htype)
      simp only [Facet.Same, typeOf, Table.get_modify, if_neg hne]
    | isComposite q | isId q =>
      simp only [Facet.Same, Store.isComposite, Store.isId, Table.get_modify]
      split_ifs <;> rfl
  | composite p v hcomposite =>
    cases f with
    | name e => rfl
    | isComposite q =>
      have hne : q ≠ p := fun heq => hmay (heq ▸ hcomposite)
      simp only [Facet.Same, Store.isComposite, Table.get_modify, if_neg hne]
    | type q | isId q =>
      simp only [Facet.Same, typeOf, Store.isId, Table.get_modify]
      split_ifs <;> rfl
  | identifying p v hid =>
    cases f with
    | name e => rfl
    | isId q =>
      have hne : q ≠ p := fun heq => hmay (heq ▸ hid)
      simp only [Facet.Same, Store.isId, Table.get_modify, if_neg hne]
    | type q | isComposite q =>
      simp only [Facet.Same, typeOf, Store.isComposite, Table.get_modify]
      split_ifs <;> rfl
  | attributes =>
    refine Agrees.same ?_ hf
    refine agrees_of_labels rfl fun q => ?_
    exact nature_setAttributes q
  | insertAttribute | propertyOwner | propertyMultiplicity | navigable | readOnlyProperty =>
    refine Agrees.same ?_ hf
    refine agrees_of_labels rfl fun q => ?_
    apply Table.map_get_modify (t := s.properties)
    exact fun _ => rfl
  | ends =>
    refine Agrees.same ?_ hf
    refine agrees_of_labels rfl fun q => ?_
    apply Table.map_get_modifyAll (t := s.properties)
    exact fun _ => rfl
  | @newClass r xs l timestamp isAbstract isReadOnly isAssociationClass hr =>
    refine Agrees.same ?_ hf
    refine agrees_of_enroll (l := l) hr.spare rfl fun q _ => ?_
    have henroll : ((Roster.classes.enroll s r
        { (default : ClassRecord) with isAbstract, isReadOnly, isAssociationClass } l timestamp).properties.get q)
        = s.properties.get q := rfl
    rw [nature_setAttributes, henroll]
  | @newProperty r record l timestamp hr =>
    refine Agrees.same ?_ hf
    refine agrees_of_enroll (l := l) hr.spare rfl fun q hq => ?_
    have hne : q ≠ r := fun heq => hr.spare.ne_of_holds hq (congrArg Ref.order heq)
    show ((s.properties.set r record).get q).nature = _
    rw [Table.get_set, if_neg hne]
  | @newAssociation r xs cs isBinary l timestamp hr =>
    refine Agrees.same ?_ hf
    refine agrees_of_enroll (l := l) hr.spare rfl fun q _ => ?_
    apply Table.map_get_modifyAll (t := s.properties)
    exact fun _ => rfl
  | newEnumeration l timestamp hr | newLiteral l timestamp hr | newParameter l timestamp hr
  | newMethod l timestamp hr | newGeneralizationSet l timestamp hr | newPackage l timestamp hr
  | newConstraint l timestamp hr | newModel l timestamp hr =>
    refine Agrees.same ?_ hf
    refine agrees_of_enroll (l := l) hr.spare rfl fun q _ => ?_
    rfl
  | _ =>
    refine Agrees.same ?_ hf
    refine agrees_of_labels rfl fun q => ?_
    rfl

end Store

end ClassDiagram
