import ClassDiagram.Proofs.Cycles

/-! What a class inherits in one walk over all its ancestors is what its parents have and inherit in turn. -/

namespace ClassDiagram
open Relation

theorem OrderedSet.prefix_insertAll {α : Type} [DecidableEq α] (xs : OrderedSet α) (l : List α) :
    xs.toList <+: (xs.insertAll l).toList := by
  induction l generalizing xs with
  | nil => exact List.prefix_rfl
  | cons a l ih => exact (xs.prefix_insert a).trans (ih (xs.insert a))

namespace Store

/-- The calls that gather what a class inherits answer with these classes, attributes and ends. -/
structure Gathers (s : Store) (c : ClassRef) (up : List ClassRef) (attributes ends : List PropertyRef) : Prop where
  up : (Call.allParents c).edit s = .ok (.refs up) s
  attributes : (Call.allAttributes c).edit s = .ok (.refs attributes) s
  ends : (Call.allAssociationEnds c).edit s = .ok (.refs ends) s

def Offered {α : Type} (own : ClassRef → OrderedSet α) (c : ClassRef) (up : List ClassRef) (a : α) : Prop :=
  a ∈ own c ∨ ∃ p ∈ up, a ∈ own p

def attributesWith (s : Store) (c : ClassRef) (up : List ClassRef) : OrderedSet PropertyRef :=
  (s.classes.get c).attributes.insertAll (OrderedSet.ofList (s.attributesOf up)).toList

def endsWith (s : Store) (c : ClassRef) (up : List ClassRef) : OrderedSet PropertyRef :=
  (s.associationEnds c).insertAll (up.flatMap fun p => (s.associationEnds p).toList)

variable {s : Store} {c p : ClassRef} {up : List ClassRef}

theorem mem_attributesWith {a : PropertyRef} :
    a ∈ s.attributesWith c up ↔ Offered (fun d => (s.classes.get d).attributes) c up a := by
  simp only [attributesWith, Offered, OrderedSet.mem_insertAll, ← OrderedSet.mem_def, OrderedSet.mem_ofList,
    attributesOf, List.mem_flatMap]

theorem mem_endsWith {e : PropertyRef} : e ∈ s.endsWith c up ↔ Offered s.associationEnds c up e := by
  simp only [endsWith, Offered, OrderedSet.mem_insertAll, ← OrderedSet.mem_def, List.mem_flatMap]

theorem gathers_of_allParents (h : s.allParents c = .ok up) :
    s.Gathers c up (s.attributesWith c up).toList (s.endsWith c up).toList := by
  have hattributes : s.allAttributes c = .ok (s.attributesWith c up) := by
    rw [allAttributes, inheritedAttributes, h]
    rfl
  have hends : s.allAssociationEnds c = .ok (s.endsWith c up) := by
    rw [allAssociationEnds, h]
    rfl
  exact ⟨Call.following_apply_of_ok _ h, Call.following_apply_of_ok _ hattributes, Call.following_apply_of_ok _ hends⟩

theorem offered_iff {α : Type} {own : ClassRef → OrderedSet α} {parents : OrderedSet ClassRef}
    {upOf : ClassRef → List ClassRef} (h : ∀ d, d ∈ up ↔ ∃ p ∈ parents, d = p ∨ d ∈ upOf p) (a : α) :
    Offered own c up a ↔ a ∈ own c ∨ ∃ p ∈ parents, Offered own p (upOf p) a := by
  refine or_congr_right ⟨?_, ?_⟩
  · rintro ⟨d, hd, ha⟩
    obtain ⟨p, hp, rfl | hup⟩ := (h d).1 hd
    · exact ⟨d, hp, Or.inl ha⟩
    · exact ⟨p, hp, Or.inr ⟨d, hup, ha⟩⟩
  · rintro ⟨p, hp, ha | ⟨d, hup, ha⟩⟩
    · exact ⟨p, (h p).2 ⟨p, hp, Or.inl rfl⟩, ha⟩
    · exact ⟨d, (h d).2 ⟨p, hp, Or.inr hup⟩, ha⟩

theorem Offered.mono {α : Type} {own : ClassRef → OrderedSet α} {up' : List ClassRef} {a : α}
    (h : Offered own p up' a) (hp : p ∈ up) (hup : up' ⊆ up) : Offered own c up a := by
  rcases h with ha | ⟨d, hd, ha⟩
  · exact Or.inr ⟨p, hp, ha⟩
  · exact Or.inr ⟨d, hup hd, ha⟩

theorem Linked.exists_allParents (h : s.Linked) (hup : s.allParents c = .ok up) (hp : ReflTransGen s.Generalizes p c) :
    ∃ l, s.allParents p = .ok l := by
  cases hl : s.allParents p with
  | ok l => exact ⟨l, rfl⟩
  | error cycle =>
    obtain ⟨d, hdp, hd⟩ := h.allParents_error_iff.1 ⟨cycle, hl⟩
    obtain ⟨cycle', hcycle⟩ := h.allParents_error_iff.2 ⟨d, hdp.trans hp, hd⟩
    cases hup.symm.trans hcycle

def ancestorsOf (s : Store) (c : ClassRef) : List ClassRef := (s.allParents c).toOption.getD []

theorem Linked.allParents_eq (h : s.Linked) (hup : s.allParents c = .ok up) (hp : ReflTransGen s.Generalizes p c) :
    s.allParents p = .ok (s.ancestorsOf p) := by
  obtain ⟨l, hl⟩ := h.exists_allParents hup hp
  rw [ancestorsOf, hl]
  rfl

theorem Linked.mem_allParents_iff_parents (h : s.Linked) (hup : s.allParents c = .ok up) (d : ClassRef) :
    d ∈ up ↔ ∃ p ∈ s.parents c, d = p ∨ d ∈ s.ancestorsOf p := by
  rw [h.mem_allParents hup, TransGen.tail'_iff]
  refine exists_congr fun p => ?_
  rw [h.mem_parents, and_comm]
  refine and_congr_right fun hp => ?_
  rw [h.mem_allParents (h.allParents_eq hup (.single hp)), reflTransGen_iff_eq_or_transGen, eq_comm]

theorem Linked.ancestorsOf_subset (h : s.Linked) (hup : s.allParents c = .ok up) (hp : p ∈ up) :
    s.ancestorsOf p ⊆ up := by
  have hpc := (h.mem_allParents hup).1 hp
  intro d hd
  have hdp := (h.mem_allParents (h.allParents_eq hup hpc.to_reflTransGen)).1 hd
  exact (h.mem_allParents hup).2 (hdp.trans hpc)

/-- What a class gathers is its own and what its parents gather, as `up`, `attributes` and `ends` tell of them. -/
structure Unfolds (s : Store) (up : ClassRef → List ClassRef) (attributes ends : ClassRef → List PropertyRef)
    (c : ClassRef) : Prop where
  up : ∀ d, d ∈ up c ↔ ∃ p ∈ s.parents c, d = p ∨ d ∈ up p
  attributes : ∀ a, a ∈ attributes c ↔ a ∈ (s.classes.get c).attributes ∨ ∃ p ∈ s.parents c, a ∈ attributes p
  ends : ∀ e, e ∈ ends c ↔ e ∈ s.associationEnds c ∨ ∃ p ∈ s.parents c, e ∈ ends p

end Store

/--
In every state that a session can reach, if all parents of a class can be told, then all that is gathered from above
can be told for the class and its ancestors. It is what each parent is and gathers, besides what the class has itself.
Every attribute is listed once, whatever its name, those of the class first; and an ancestor has nothing to offer that
the class has not.
-/
theorem inheritance_unfolds (ids : Nat → Uuid) (cs : List Command) {c : ClassRef} {l : List ClassRef} {s₁ : Store}
    (h : (Call.allParents c).edit ((Session.initial ids).run cs).store = .ok (.refs l) s₁) :
    let s := ((Session.initial ids).run cs).store
    ∃ (up : ClassRef → List ClassRef) (attributes ends : ClassRef → List PropertyRef), up c = l ∧
      s.Gathers c (up c) (attributes c) (ends c) ∧ s.Unfolds up attributes ends c ∧
      (∀ p ∈ s.parents c, s.Gathers p (up p) (attributes p) (ends p)) ∧
      (attributes c).Nodup ∧ (s.classes.get c).attributes.toList <+: attributes c ∧
      (∀ p ∈ up c, ∀ a ∈ (s.classes.get p).attributes, a ∈ attributes c) ∧
      ∀ p ∈ up c, s.Gathers p (up p) (attributes p) (ends p) ∧
        up p ⊆ up c ∧ attributes p ⊆ attributes c ∧ ends p ⊆ ends c := by
  intro s
  have hs : s.Linked := Session.linked_run ids cs
  have hl : s.allParents c = .ok l := Call.following_eq_ok h
  have hc : s.allParents c = .ok (s.ancestorsOf c) := hs.allParents_eq hl .refl
  have hlist : s.ancestorsOf c = l := Except.ok.inj (hc.symm.trans hl)
  have hgathers : ∀ p, ReflTransGen s.Generalizes p c → s.Gathers p (s.ancestorsOf p)
      (s.attributesWith p (s.ancestorsOf p)).toList (s.endsWith p (s.ancestorsOf p)).toList :=
    fun p hp => Store.gathers_of_allParents (hs.allParents_eq hl hp)
  have hup : ∀ d, d ∈ s.ancestorsOf c ↔ ∃ p ∈ s.parents c, d = p ∨ d ∈ s.ancestorsOf p :=
    hs.mem_allParents_iff_parents hc
  refine ⟨s.ancestorsOf, fun d => (s.attributesWith d (s.ancestorsOf d)).toList,
    fun d => (s.endsWith d (s.ancestorsOf d)).toList, hlist, hgathers c .refl, ⟨hup, fun a => ?_, fun e => ?_⟩,
    fun p hp => hgathers p (.single (hs.mem_parents.1 hp)), (s.attributesWith c (s.ancestorsOf c)).nodup,
    OrderedSet.prefix_insertAll _ _, fun p hp a ha => ?_, fun p hp => ?_⟩
  · simp only [← OrderedSet.mem_def, Store.mem_attributesWith]
    exact Store.offered_iff hup a
  · simp only [← OrderedSet.mem_def, Store.mem_endsWith]
    exact Store.offered_iff hup e
  · exact Store.mem_attributesWith.2 (Or.inr ⟨p, hp, ha⟩)
  · have hsubset := hs.ancestorsOf_subset hc hp
    refine ⟨hgathers p ((hs.mem_allParents hc).1 hp).to_reflTransGen, hsubset, fun a ha => ?_, fun e he => ?_⟩
    · exact Store.mem_attributesWith.2 ((Store.mem_attributesWith.1 ha).mono hp hsubset)
    · exact Store.mem_endsWith.2 ((Store.mem_endsWith.1 he).mono hp hsubset)

theorem inheritance_unfolds_of_diamond :
    let cs : List Command :=
      [.create "x" (.property (.text "x") (.named (.text "int")) {}),
        .create "y" (.property (.text "x") (.named (.text "int")) {}),
        .create "a" (.classType (.text "A") { attributes := [⟨9⟩] }), .create "b" (.classType (.text "B") {}),
        .create "c" (.classType (.text "C") {}), .create "d" (.classType (.text "D") { attributes := [⟨10⟩] }),
        .create "g" (.generalization ⟨11⟩ ⟨12⟩ none), .create "h" (.generalization ⟨11⟩ ⟨13⟩ none),
        .create "i" (.generalization ⟨12⟩ ⟨14⟩ none), .create "j" (.generalization ⟨13⟩ ⟨14⟩ none)]
    let s := ((Session.initial fun _ => ⟨0⟩).run cs).store
    ∃ up : List ClassRef, (Call.allParents ⟨14⟩).edit s = .ok (.refs up) s ∧
      ∃ attributes : List PropertyRef, (Call.allAttributes ⟨14⟩).edit s = .ok (.refs attributes) s ∧
        attributes.Nodup ∧ [⟨10⟩] <+: attributes ∧ ⟨9⟩ ∈ attributes := by
  intro cs s
  have hup : (Call.allParents ⟨14⟩).edit s = .ok (.refs [(⟨12⟩ : ClassRef), ⟨11⟩, ⟨13⟩]) s :=
    Call.following_apply_of_ok .refs (by decide +kernel : s.allParents ⟨14⟩ = .ok [⟨12⟩, ⟨11⟩, ⟨13⟩])
  obtain ⟨up, attributes, _, hl, hgathers, _, _, hnodup, hown, hkept, _⟩ := inheritance_unfolds (fun _ => ⟨0⟩) cs hup
  refine ⟨_, hup, attributes ⟨14⟩, hgathers.attributes, hnodup, hown, hkept ⟨11⟩ ?_ ⟨9⟩ (by decide)⟩
  rw [hl]
  decide

end ClassDiagram
