import ClassDiagram.Proofs.Outcome
import ClassDiagram.Proofs.Participation

/-! Which classes refer back to an association once it has been given ends anew. -/

namespace ClassDiagram

theorem Edit.replaceEnds_eq_ok {s s' : Store} {a : AssociationRef} {l : List PropertyRef}
    (h : Edit.replaceEnds a l s = .ok () s') : ∃ cs message,
      s.checkEnds (a.name s) (s.associations.get a).isBinary (.ofList l) = .ok cs ∧
        s' = (s.setEnds a (.ofList l) cs).noted .model message := by
  rw [replaceEnds, bind_apply] at h
  cases hcheck : s.checkEnds (a.name s) (s.associations.get a).isBinary (.ofList l) with
  | error f =>
    rw [check_apply_of_error hcheck] at h
    cases h
  | ok cs =>
    rw [check_apply_of_ok hcheck] at h
    cases h
    exact ⟨cs, _, rfl, rfl⟩

/--
Once an association has been given ends, the classes that refer back to it are those that type an end of it and those
that did before and typed none of its old ends at that moment, because other types had been assigned to these ends
since. So the classes that refer back are exactly those that type an end unless one has been left behind in that way.
-/
theorem associations_rewired {s s' : Store} {a : AssociationRef} {l : List PropertyRef}
    (h : Edit.replaceEnds a l s = .ok () s') :
    (∀ c : ClassRef, a ∈ (s'.classes.get c).associations ↔
      (∃ p ∈ l, s'.typeOf p = .ofClass c) ∨
        a ∈ (s.classes.get c).associations ∧ ∀ p ∈ (s.associations.get a).ends, s.typeOf p ≠ .ofClass c) ∧
    ((∀ c : ClassRef, a ∈ (s'.classes.get c).associations ↔ ∃ p ∈ l, s'.typeOf p = .ofClass c) ↔
      ∀ c : ClassRef, a ∈ (s.classes.get c).associations →
        ∃ p, (p ∈ l ∨ p ∈ (s.associations.get a).ends) ∧ s.typeOf p = .ofClass c) := by
  obtain ⟨cs, message, hcheck, rfl⟩ := Edit.replaceEnds_eq_ok h
  obtain ⟨log, hlog⟩ := (s.setEnds a (.ofList l) cs).exists_noted .model message
  rw [hlog]
  have htypes : ∀ p, (s.setEnds a (.ofList l) cs).typeOf p = s.typeOf p := Store.typeOf_setEnds
  have hnew : ∀ c, c ∈ cs ↔ ∃ p ∈ l, (s.setEnds a (.ofList l) cs).typeOf p = .ofClass c := by
    intro c
    rw [Store.mem_of_checkEnds hcheck]
    simp only [OrderedSet.mem_ofList, htypes]
  have hrefs : ∀ c : ClassRef, a ∈ ((s.setEnds a (.ofList l) cs).classes.get c).associations ↔
      (∃ p ∈ l, (s.setEnds a (.ofList l) cs).typeOf p = .ofClass c) ∨
        a ∈ (s.classes.get c).associations ∧ ∀ p ∈ (s.associations.get a).ends, s.typeOf p ≠ .ofClass c := by
    intro c
    rw [Store.mem_associations_setEnds, hnew, or_comm]
    simp only [Store.Joins, true_and, not_exists, not_and, ne_eq]
  refine ⟨hrefs, ?_⟩
  constructor
  · intro hexact c hc
    by_cases hold : ∃ p ∈ (s.associations.get a).ends, s.typeOf p = .ofClass c
    · obtain ⟨p, hp, htype⟩ := hold
      exact ⟨p, Or.inr hp, htype⟩
    · -- the class is left behind, so it has to type one of the new ends
      have hleft : ∀ p ∈ (s.associations.get a).ends, s.typeOf p ≠ .ofClass c := fun p hp htype => hold ⟨p, hp, htype⟩
      obtain ⟨p, hp, htype⟩ := (hexact c).1 ((hrefs c).2 (Or.inr ⟨hc, hleft⟩))
      exact ⟨p, Or.inl hp, (htypes p).symm.trans htype⟩
  · intro htyped c
    refine (hrefs c).trans (or_iff_left_of_imp ?_)
    rintro ⟨hc, hleft⟩
    obtain ⟨p, hp | hp, htype⟩ := htyped c hc
    · exact ⟨p, hp, (htypes p).trans htype⟩
    · exact absurd htype (hleft p hp)

def Session.retyped : Session :=
  (initial Uuid.spread).run
    [.create "c" (.classType (.text "C") {}), .create "d" (.classType (.text "D") {}),
      .create "x" (.classType (.text "X") {}), .create "p" (.property (.text "p") (.known (.ofClass ⟨9⟩)) {}),
      .create "q" (.property (.text "q") (.known (.ofClass ⟨11⟩)) {}),
      .create "r" (.property (.text "r") (.known (.ofClass ⟨9⟩)) {}),
      .create "a" (.association true (.text "A") [⟨12⟩, ⟨13⟩] {}), .assign (.propertyType ⟨12⟩ (.ofClass ⟨10⟩))]

theorem associations_rewired_of_retyped_end :
    ∃ s', Edit.replaceEnds ⟨15⟩ [⟨12⟩, ⟨14⟩] Session.retyped.store = .ok () s' ∧
      ⟨15⟩ ∈ (s'.classes.get ⟨9⟩).associations ∧ ⟨15⟩ ∈ (s'.classes.get ⟨10⟩).associations ∧
        ⟨15⟩ ∉ (s'.classes.get ⟨11⟩).associations := by
  refine ⟨_, rfl, ?_⟩
  obtain ⟨hrefs, _⟩ := associations_rewired (s := Session.retyped.store) (a := ⟨15⟩) (l := [⟨12⟩, ⟨14⟩]) rfl
  refine ⟨(hrefs ⟨9⟩).2 (Or.inl ⟨⟨14⟩, by decide, by decide⟩), (hrefs ⟨10⟩).2 (Or.inl ⟨⟨12⟩, by decide, by decide⟩),
    fun hleft => ?_⟩
  rcases (hrefs ⟨11⟩).1 hleft with htyped | ⟨_, huntyped⟩
  · revert htyped
    decide
  · exact huntyped ⟨13⟩ (by decide) (by decide)

/-- The former type of an end is left behind if no end is typed by it any longer. -/
theorem former_type_refers_back :
    ∃ s', Edit.replaceEnds ⟨15⟩ [⟨12⟩, ⟨13⟩] Session.retyped.store = .ok () s' ∧
      ¬ ∀ c : ClassRef, ⟨15⟩ ∈ (s'.classes.get c).associations ↔ ∃ p ∈ [⟨12⟩, ⟨13⟩], s'.typeOf p = .ofClass c := by
  refine ⟨_, rfl, fun hexact => ?_⟩
  have htyped := (hexact ⟨9⟩).1 (by decide)
  revert htyped
  decide

end ClassDiagram
