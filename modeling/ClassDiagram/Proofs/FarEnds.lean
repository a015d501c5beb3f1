import ClassDiagram.Proofs.Participation
import ClassDiagram.Proofs.WellFormed

/-! The association ends that a class sees are those on the far side of the associations that it takes part in. -/

namespace ClassDiagram

namespace Store

def ClassTyped (s : Store) : Prop := ∀ p, s.IsEnd p → ∃ c, s.typeOf p = .ofClass c

/--
The class stands on the other side of the association than the end: it types the opposite one of two ends, or one of
more but not the end itself.
-/
def FarEnd (s : Store) (a : AssociationRef) (c : ClassRef) (e : PropertyRef) : Prop :=
  e ∈ (s.associations.get a).ends ∧
    ((s.associations.get a).ends.size = 2 ∧ (∃ q ∈ (s.associations.get a).ends, q ≠ e ∧ s.typeOf q = .ofClass c) ∨
      3 ≤ (s.associations.get a).ends.size ∧ s.Joins a c ∧ s.typeOf e ≠ .ofClass c)

variable {may : Leave} {s s' : Store} {a : AssociationRef} {c : ClassRef} {e p q : PropertyRef}

theorem classTyped_initial (ids : Nat → Uuid) : (initial ids).ClassTyped := by
  rintro p ⟨a, ha, _⟩
  obtain ⟨primitive, hprimitive⟩ := contains_initial ha
  cases congrArg Element.kind hprimitive

theorem IsEnd.congr (h : s'.IsEnd p) (hassociations : s'.associations = s.associations)
    (hcontains : ∀ a : AssociationRef, s'.contains a.element → s.contains a.element) : s.IsEnd p := by
  obtain ⟨a, ha, hmem⟩ := h
  rw [hassociations] at hmem
  exact ⟨a, hcontains a ha, hmem⟩

theorem IsEnd.of_enter {kind : Kind} {r : Ref kind} {timestamp : Option Int} (h : s'.IsEnd p) (hr : s.Spare r.order)
    (hkind : kind ≠ .association) (hassociations : s'.associations = s.associations)
    (hheaders : s'.headers = (s.enter r.element timestamp).headers) : s.IsEnd p := by
  refine h.congr hassociations fun a ha => ?_
  have hsame : (s.enter r.element timestamp).contains a.element = s.contains a.element :=
    contains_enter_of_kind_ne (e := r.element) hr hkind
  rw [← hsame]
  rwa [contains, hheaders] at ha

theorem isEnd_setEnds {xs : OrderedSet PropertyRef} {cs : List ClassRef} (h : (s.setEnds a xs cs).IsEnd p)
    (htypes : xs.toList.map s.typeOf = cs.map .ofClass) : s.IsEnd p ∨ ∃ c, s.typeOf p = .ofClass c := by
  obtain ⟨a', ha', hmem⟩ := h
  rw [Store.setEnds, Table.get_modify] at hmem
  split_ifs at hmem with heq
  · have htype : s.typeOf p ∈ cs.map TypeRef.ofClass := htypes ▸ List.mem_map_of_mem (OrderedSet.mem_def.1 hmem)
    obtain ⟨c, _, hc⟩ := List.mem_map.1 htype
    exact Or.inr ⟨c, hc.symm⟩
  · exact Or.inl ⟨a', ha', hmem⟩

theorem Quiet.isEnd (hq : s.Quiet may s') (h : s'.IsEnd p) : s.IsEnd p := by
  cases hq with
  | noted channel message =>
    unfold Store.noted at h
    split_ifs at h
    · exact h
    · exact h
  | drawn | multiplicity => exact h
  | bare timestamp hkind hr =>
    refine h.of_enter hr.spare ?_ rfl rfl
    rintro rfl
    exact absurd hkind (by decide)

theorem Change.isEnd (hc : s.Change may s') (h : s'.IsEnd p) :
    s.IsEnd p ∨ ∃ c, s'.typeOf p = .ofClass c := by
  cases hc with
  | quiet hq => exact Or.inl (hq.isEnd h)
  | timestamp t he => exact Or.inl (h.congr rfl fun a ha => contains_setTimestamp he t a.element ▸ ha)
  | ends ha hx hends =>
    rw [typeOf_setEnds]
    exact isEnd_setEnds h (checkEnds_eq_ok hends).2
  | @newAssociation r xs cs isBinary l timestamp hr hx hends =>
    rw [typeOf_setEnds]
    refine (isEnd_setEnds h (checkEnds_eq_ok hends).2).imp_left ?_
    -- it is entered without ends
    rintro ⟨a, ha, hmem⟩
    have hget : p ∈ ((s.associations.set r ⟨isBinary, ∅⟩).get a).ends := hmem
    rw [Table.get_set] at hget
    split_ifs at hget with heq
    · exact absurd hget (OrderedSet.not_mem_empty p)
    · refine ⟨a, (eq_or_contains_of_enter ha).resolve_left fun h => heq ?_, hget⟩
      simpa using congrArg (Element.as? .association) h
  | newGeneralization timestamp hr => exact Or.inl (h.of_enter hr (by decide) rfl rfl)
  | newEnumeration _ _ hr | newLiteral _ _ hr | newClass _ _ _ _ _ hr | newProperty _ _ hr | newParameter _ _ hr
  | newMethod _ _ hr | newGeneralizationSet _ _ hr | newPackage _ _ hr | newConstraint _ _ hr | newModel _ _ hr =>
    exact Or.inl (h.of_enter hr.spare (by decide) rfl rfl)
  | _ => exact Or.inl h

theorem Change.classTyped (hs : s.Sound) (hc : s.Change may s')
    (hmay : ∀ f, may.assign s f → s.SparesEnds f) (h : s.ClassTyped) : s'.ClassTyped := by
  intro p hp
  rcases hc.isEnd hp with hold | hnew
  · have hsame : Facet.Same s s' (.type p) := hc.same (hs.holds_end hold) fun htype => hmay _ htype p rfl hold
    obtain ⟨c, htype⟩ := h p hold
    exact ⟨c, Eq.trans hsame htype⟩
  · exact hnew

theorem isReflexive_of_two (h : (s.associations.get a).ends.toList = [p, q]) :
    s.isReflexive a = (s.typeOf p == s.typeOf q) := by
  rw [isReflexive, h]

theorem isReflexive_of_three (h : 3 ≤ (s.associations.get a).ends.size) : s.isReflexive a = false := by
  unfold isReflexive
  split
  · next p q hends =>
    have hsize : (s.associations.get a).ends.size = 2 := congrArg List.length hends
    omega
  · rfl

theorem seen_iff_of_two (hends : (s.associations.get a).ends.toList = [p, q]) :
    s.Joins a c ∧ e ∈ s.endsSeen c a ↔ e = p ∧ s.typeOf q = .ofClass c ∨ e = q ∧ s.typeOf p = .ofClass c := by
  have hjoins : s.Joins a c ↔ s.typeOf p = .ofClass c ∨ s.typeOf q = .ofClass c := by
    simp [Joins, OrderedSet.mem_def, hends]
  rw [hjoins, endsSeen, hends, isReflexive_of_two hends, List.mem_filter, Bool.or_eq_true, beq_iff_eq, bne_iff_ne]
  simp only [List.mem_cons, List.not_mem_nil, or_false]
  constructor
  · rintro ⟨hclass, rfl | rfl, hseen⟩
    · refine Or.inl ⟨rfl, hclass.elim (fun hp => ?_) id⟩
      exact (hseen.resolve_right (not_not_intro hp)).symm.trans hp
    · refine Or.inr ⟨rfl, hclass.elim id fun hq => ?_⟩
      exact (hseen.resolve_right (not_not_intro hq)).trans hq
  · rintro (⟨rfl, hq⟩ | ⟨rfl, hp⟩)
    · refine ⟨Or.inr hq, Or.inl rfl, ?_⟩
      by_cases htype : s.typeOf e = .ofClass c
      · exact Or.inl (htype.trans hq.symm)
      · exact Or.inr htype
    · refine ⟨Or.inl hp, Or.inr rfl, ?_⟩
      by_cases htype : s.typeOf e = .ofClass c
      · exact Or.inl (hp.trans htype.symm)
      · exact Or.inr htype

theorem exists_pair (h : (s.associations.get a).ends.size = 2) :
    ∃ p q, p ≠ q ∧ (s.associations.get a).ends.toList = [p, q] := by
  obtain ⟨p, q, hends⟩ := List.length_eq_two.1 h
  have hnodup := (s.associations.get a).ends.nodup
  rw [hends, List.nodup_cons, List.mem_singleton] at hnodup
  exact ⟨p, q, hnodup.1, hends⟩

theorem farEnd_iff_of_two (hne : p ≠ q) (hends : (s.associations.get a).ends.toList = [p, q]) :
    s.FarEnd a c e ↔ e = p ∧ s.typeOf q = .ofClass c ∨ e = q ∧ s.typeOf p = .ofClass c := by
  have hsize : (s.associations.get a).ends.size = 2 := congrArg List.length hends
  unfold FarEnd
  simp only [hsize, OrderedSet.mem_def, hends, List.mem_cons, List.not_mem_nil, or_false]
  constructor
  · rintro ⟨rfl | rfl, (⟨_, r, rfl | rfl, hr, htype⟩ | ⟨hthree, _⟩)⟩
    · exact absurd rfl hr
    · exact Or.inl ⟨rfl, htype⟩
    · omega
    · exact Or.inr ⟨rfl, htype⟩
    · exact absurd rfl hr
    · omega
  · rintro (⟨rfl, htype⟩ | ⟨rfl, htype⟩)
    · exact ⟨Or.inl rfl, Or.inl ⟨trivial, q, Or.inr rfl, hne.symm, htype⟩⟩
    · exact ⟨Or.inr rfl, Or.inl ⟨trivial, p, Or.inl rfl, hne, htype⟩⟩

theorem farEnd_iff_of_three (h : 3 ≤ (s.associations.get a).ends.size) :
    s.FarEnd a c e ↔ s.Joins a c ∧ e ∈ s.endsSeen c a := by
  have htwo : (s.associations.get a).ends.size ≠ 2 := by omega
  rw [FarEnd, endsSeen, isReflexive_of_three h, List.mem_filter, Bool.false_or, bne_iff_ne]
  constructor
  · rintro ⟨hmem, hfar⟩
    obtain ⟨_, hjoins, htype⟩ := hfar.resolve_left fun hleft => htwo hleft.1
    exact ⟨hjoins, hmem, htype⟩
  · rintro ⟨hjoins, hmem, htype⟩
    exact ⟨hmem, Or.inr ⟨h, hjoins, htype⟩⟩

theorem farEnd_iff (hample : (s.associations.get a).Ample) :
    s.FarEnd a c e ↔ s.Joins a c ∧ e ∈ s.endsSeen c a := by
  rcases Nat.eq_or_lt_of_le hample.1 with htwo | hthree
  · obtain ⟨p, q, hne, hends⟩ := exists_pair htwo.symm
    rw [farEnd_iff_of_two hne hends, seen_iff_of_two hends]
  · exact farEnd_iff_of_three hthree

theorem mem_associationEnds (hattached : s.Attached) (hfurnished : s.Furnished) :
    e ∈ s.associationEnds c ↔ ∃ a : AssociationRef, s.contains a.element ∧ s.FarEnd a c e := by
  rw [associationEnds, OrderedSet.mem_ofList, List.mem_flatMap]
  refine exists_congr fun a => ?_
  rw [← OrderedSet.mem_def, hattached c a, and_assoc]
  exact and_congr_right fun ha => (farEnd_iff (hfurnished.ends a ha)).symm

theorem otherEnd?_eq_some (hne : p ≠ q) (hends : (s.associations.get a).ends.toList = [p, q]) :
    s.otherEnd? a p = some q ∧ s.otherEnd? a q = some p := by
  simp [otherEnd?, OrderedSet.mem_def, hends, hne, hne.symm]

theorem ClassTyped.exists_farEnd (h : s.ClassTyped) (ha : s.contains a.element)
    (hsize : (s.associations.get a).ends.size = 2) (he : e ∈ (s.associations.get a).ends) :
    ∃ q c, s.otherEnd? a e = some q ∧ s.typeOf q = .ofClass c ∧ s.FarEnd a c e := by
  obtain ⟨p, q, hne, hends⟩ := exists_pair hsize
  obtain ⟨hp, hq⟩ := otherEnd?_eq_some hne hends
  have htyped : ∀ r ∈ [p, q], ∃ c, s.typeOf r = .ofClass c :=
    fun r hr => h r ⟨a, ha, OrderedSet.mem_def.2 (hends ▸ hr)⟩
  have hmem : e ∈ [p, q] := hends ▸ OrderedSet.mem_def.1 he
  rcases List.mem_pair.1 hmem with rfl | rfl
  · obtain ⟨c, htype⟩ := htyped q (List.mem_pair.2 (Or.inr rfl))
    exact ⟨q, c, hp, htype, (farEnd_iff_of_two hne hends).2 (Or.inl ⟨rfl, htype⟩)⟩
  · obtain ⟨c, htype⟩ := htyped p (List.mem_pair.2 (Or.inl rfl))
    exact ⟨p, c, hq, htype, (farEnd_iff_of_two hne hends).2 (Or.inr ⟨rfl, htype⟩)⟩

end Store

namespace Session

theorem classTyped_run (ids : Nat → Uuid) {cs : List Command} (h : (initial ids).Allows Store.SparesEnds cs) :
    ((initial ids).run cs).store.ClassTyped :=
  (sound_initial ids).run_induction_of_allows (Store.classTyped_initial ids) (fun _ h => h) (fun _ _ hf => hf)
    (fun _ _ hs hc h => hc.classTyped hs (fun _ hf => hf) h) h

end Session

/--
As long as no type is assigned to a property that is an end at that moment, a class sees exactly the far ends of the
associations that have come to be. Each end of a binary association is seen by the class of the other end, also where
both ends are of one class.
-/
theorem associationEnds_exact (ids : Nat → Uuid) {cs : List Command}
    (h : (Session.initial ids).Allows Store.SparesEnds cs) :
    let s := ((Session.initial ids).run cs).store
    (∀ c, ∃ ends : List PropertyRef, (Call.associationEnds c).edit s = .ok (.refs ends) s ∧ ends.Nodup ∧
      ∀ e, e ∈ ends ↔ ∃ a : AssociationRef, s.contains a.element ∧ s.FarEnd a c e) ∧
    ∀ a : AssociationRef, s.contains a.element → (s.associations.get a).isBinary →
      ∀ e ∈ (s.associations.get a).ends, ∃ q d ends, (Call.otherEnd a e).edit s = .ok (.ref (some q)) s ∧
        s.typeOf q = .ofClass d ∧ (Call.associationEnds d).edit s = .ok (.refs ends) s ∧ e ∈ ends := by
  intro s
  have hfurnished : s.Furnished := Session.furnished_run ids cs
  have hattached : s.Attached := Session.attached_run ids h
  refine ⟨fun c => ?_, fun a ha hbinary e he => ?_⟩
  · exact ⟨_, rfl, (s.associationEnds c).nodup, fun e => Store.mem_associationEnds hattached hfurnished⟩
  · have hsize := (hfurnished.ends a ha).2 hbinary
    obtain ⟨q, d, hother, htype, hfar⟩ := (Session.classTyped_run ids h).exists_farEnd ha hsize he
    refine ⟨q, d, _, ?_, htype, rfl, (Store.mem_associationEnds hattached hfurnished).2 ⟨a, ha, hfar⟩⟩
    show EStateM.Result.ok (Datum.ref (s.otherEnd? a e)) s = _
    rw [hother]

theorem associationEnds_exact_of_shared_type :
    let cs : List Command :=
      [.create "c" (.classType (.text "C") {}), .create "d" (.classType (.text "D") {}),
        .create "p" (.property (.text "p") (.known (.ofClass ⟨9⟩)) {}),
        .create "q" (.property (.text "q") (.known (.ofClass ⟨9⟩)) {}),
        .create "r" (.property (.text "r") (.known (.ofClass ⟨10⟩)) {}),
        .create "a" (.association true (.text "A") [⟨11⟩, ⟨12⟩] {}),
        .create "b" (.association false (.text "B") [⟨11⟩, ⟨12⟩, ⟨13⟩] {})]
    let s := ((Session.initial fun _ => ⟨0⟩).run cs).store
    (Session.initial fun _ => ⟨0⟩).Allows Store.SparesEnds cs ∧
      (∃ ends : List PropertyRef, (Call.associationEnds ⟨9⟩).edit s = .ok (.refs ends) s ∧ ⟨12⟩ ∈ ends ∧ ⟨13⟩ ∈ ends) ∧
      ∃ q d ends, (Call.otherEnd ⟨14⟩ ⟨11⟩).edit s = .ok (.ref (some q)) s ∧ s.typeOf q = .ofClass d ∧
        (Call.associationEnds d).edit s = .ok (.refs ends) s ∧ (⟨11⟩ : PropertyRef) ∈ ends := by
  intro cs s
  have hallows : (Session.initial fun _ => ⟨0⟩).Allows Store.SparesEnds cs := by decide
  obtain ⟨hends, hbinary⟩ := associationEnds_exact (fun _ => ⟨0⟩) hallows
  obtain ⟨ends, hcall, _, hmem⟩ := hends ⟨9⟩
  have hreflexive : s.FarEnd ⟨14⟩ ⟨9⟩ ⟨12⟩ := ⟨by decide, Or.inl ⟨by decide, ⟨11⟩, by decide, by decide, by decide⟩⟩
  have hternary : s.FarEnd ⟨15⟩ ⟨9⟩ ⟨13⟩ := ⟨by decide, Or.inr ⟨by decide, ⟨⟨11⟩, by decide, by decide⟩, by decide⟩⟩
  refine ⟨hallows, ⟨ends, hcall, ?_, ?_⟩, hbinary ⟨14⟩ (by decide) (by decide) ⟨11⟩ (by decide)⟩
  · exact (hmem ⟨12⟩).2 ⟨⟨14⟩, by decide, hreflexive⟩
  · exact (hmem ⟨13⟩).2 ⟨⟨15⟩, by decide, hternary⟩

end ClassDiagram
