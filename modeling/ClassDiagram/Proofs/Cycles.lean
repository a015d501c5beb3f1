import ClassDiagram.Proofs.Ancestry

/-! Upward and downward closures are converse, and all that follows generalizations agrees on where cycles are. -/

namespace ClassDiagram
open Relation

namespace Store
variable {s : Store} {m : ModelRef} {c d p : ClassRef}

theorem Linked.ancestry_arrow (h : s.Linked) : s.ancestry.Arrow = Function.swap s.Generalizes := by
  funext d p
  exact propext h.ancestry_arrow_iff

theorem Linked.descent_arrow (h : s.Linked) : s.descent.Arrow = s.Generalizes := by
  funext p d
  exact propext h.descent_arrow_iff

theorem Linked.ancestry_vertex (h : s.Linked) (c : ClassRef) : ∀ p, s.ancestry.Arrow c p → c ∈ s.ancestry.vertices :=
  fun _ hp => ((h.ancestry_arrow_iff.1 hp).mem_keys h).2

theorem Linked.descent_vertex (h : s.Linked) (c : ClassRef) : ∀ d, s.descent.Arrow c d → c ∈ s.descent.vertices :=
  fun _ hd => ((h.descent_arrow_iff.1 hd).mem_keys h).1

theorem Linked.mem_allParents (h : s.Linked) {up : List ClassRef} (hup : s.allParents c = .ok up) :
    p ∈ up ↔ TransGen s.Generalizes p c := by
  obtain ⟨_, hmem⟩ := Graph.closure_spec (h.ancestry_vertex c) hup
  rw [hmem, h.ancestry_arrow]
  exact transGen_swap

theorem Linked.mem_allSpecializations (h : s.Linked) {down : List ClassRef}
    (hdown : s.allSpecializations p = .ok down) : c ∈ down ↔ TransGen s.Generalizes p c := by
  obtain ⟨_, hmem⟩ := Graph.closure_spec (h.descent_vertex p) hdown
  rw [hmem, h.descent_arrow]

theorem Linked.allParents_error_iff (h : s.Linked) : (∃ cycle, s.allParents c = .error cycle) ↔
    ∃ d, ReflTransGen s.Generalizes d c ∧ TransGen s.Generalizes d d := by
  have hclosure := Graph.closure_error_iff (h.ancestry_vertex c)
  rw [h.ancestry_arrow] at hclosure
  refine hclosure.trans (exists_congr fun d => ?_)
  rw [reflTransGen_swap, transGen_swap]

theorem Linked.allSpecializations_error_iff (h : s.Linked) : (∃ cycle, s.allSpecializations c = .error cycle) ↔
    ∃ d, ReflTransGen s.Generalizes c d ∧ TransGen s.Generalizes d d := by
  have hclosure := Graph.closure_error_iff (h.descent_vertex c)
  rwa [h.descent_arrow] at hclosure

end Store

/-- The call is rejected for a cycle of generalizations. -/
def Call.FindsCycle (call : Call) (s : Store) : Prop :=
  ∃ names s', call.edit s = .error (.cyclicGeneralization names) s'

namespace Call
variable {s s' : Store} {c : ClassRef}

theorem following_eq_ok {f : Store → Except (List ClassRef) (List ClassRef)} {l : List ClassRef}
    (h : following f .refs s = .ok (.refs l) s') : f s = .ok l := by
  cases hf : f s with
  | error cycle =>
    rw [following_apply_of_error .refs hf] at h
    cases h
  | ok l' =>
    rw [following_apply_of_ok .refs hf] at h
    rw [Datum.refs_injective (EStateM.Result.ok.inj h).1]

theorem findsCycle_of_allParents {cycle : List ClassRef} (h : s.allParents c = .error cycle) :
    (inheritedAttributes c).FindsCycle s ∧ (allAttributes c).FindsCycle s ∧ (allAssociationEnds c).FindsCycle s := by
  have hinherited : s.inheritedAttributes c = .error cycle := by
    rw [Store.inheritedAttributes, h]
    rfl
  have hattributes : s.allAttributes c = .error cycle := by
    rw [Store.allAttributes, hinherited]
    rfl
  have hends : s.allAssociationEnds c = .error cycle := by
    rw [Store.allAssociationEnds, h]
    rfl
  refine ⟨⟨_, _, following_apply_of_error _ hinherited⟩, ⟨_, _, following_apply_of_error _ hattributes⟩, ?_⟩
  exact ⟨_, _, following_apply_of_error _ hends⟩

end Call

namespace Store
variable {s : Store} {m : ModelRef} {c : ClassRef}

theorem Linked.findsCycle_allParents_iff (h : s.Linked) : (Call.allParents c).FindsCycle s ↔
    ∃ d, ReflTransGen s.Generalizes d c ∧ TransGen s.Generalizes d d := by
  have hfails := Call.fails_iff_cyclic (x := (Call.allParents c).edit) (P := fun _ _ => True) h.allParents_error_iff
    (fun _ hc => ⟨_, _, Call.following_apply_of_error .refs hc⟩)
    fun _ hl => ⟨_, Call.following_apply_of_ok .refs hl, trivial⟩
  exact hfails.1

theorem Linked.findsCycle_allSpecializations_iff (h : s.Linked) : (Call.allSpecializations c).FindsCycle s ↔
    ∃ d, ReflTransGen s.Generalizes c d ∧ TransGen s.Generalizes d d := by
  have hfails := Call.fails_iff_cyclic (x := (Call.allSpecializations c).edit) (P := fun _ _ => True)
    h.allSpecializations_error_iff (fun _ hc => ⟨_, _, Call.following_apply_of_error .refs hc⟩)
    fun _ hl => ⟨_, Call.following_apply_of_ok .refs hl, trivial⟩
  exact hfails.1

theorem Linked.findsCycle_sortedClasses_iff (h : s.Linked) : (Call.sortedClasses m).FindsCycle s ↔
    ∃ c, TransGen (s.GeneralizesIn m) c c := by
  have hcyclic : (∃ cycle, s.sortedClasses m = .error cycle) ↔ ∃ c, TransGen (s.GeneralizesIn m) c c :=
    Graph.order_error_iff.trans h.cyclic_hierarchy_iff
  have hfails := Call.fails_iff_cyclic (x := (Call.sortedClasses m).edit) (P := fun _ _ => True) hcyclic
    (fun _ hc => ⟨_, _, Call.sortedClasses_apply_of_error hc⟩)
    fun _ hl => ⟨_, Call.sortedClasses_apply_of_ok hl, trivial⟩
  exact hfails.1

theorem Linked.findsCycle_of_transGen (h : s.Linked) (hc : TransGen s.Generalizes c c) :
    ∀ call ∈ [Call.allParents c, .allSpecializations c, .inheritedAttributes c, .allAttributes c,
      .allAssociationEnds c], call.FindsCycle s := by
  have hup := h.findsCycle_allParents_iff.2 ⟨c, .refl, hc⟩
  have hdown := h.findsCycle_allSpecializations_iff.2 ⟨c, .refl, hc⟩
  obtain ⟨cycle, hcycle⟩ := h.allParents_error_iff.2 ⟨c, .refl, hc⟩
  obtain ⟨hinherited, hattributes, hends⟩ := Call.findsCycle_of_allParents hcycle
  simp only [List.forall_mem_cons]
  exact ⟨hup, hdown, hinherited, hattributes, hends, fun _ hnone => nomatch hnone⟩

/-- A model has all parents and all specializations of its classes. -/
def IsClosed (s : Store) (m : ModelRef) : Prop :=
  ∀ c ∈ s.classesIn m, (∀ p ∈ s.parents c, p ∈ s.classesIn m) ∧ ∀ d ∈ s.specializations c, d ∈ s.classesIn m

theorem Linked.mem_classesIn_of_ancestor (h : s.Linked) (hm : s.IsClosed m) {d : ClassRef} (hc : c ∈ s.classesIn m)
    (hdc : ReflTransGen s.Generalizes d c) : d ∈ s.classesIn m := by
  induction hdc using ReflTransGen.head_induction_on with
  | refl => exact hc
  | head hstep _ ih => exact (hm _ ih).1 _ (h.mem_parents.2 hstep)

theorem Linked.mem_classesIn_of_descendant (h : s.Linked) (hm : s.IsClosed m) {d : ClassRef}
    (hc : c ∈ s.classesIn m) (hcd : ReflTransGen s.Generalizes c d) : d ∈ s.classesIn m := by
  induction hcd with
  | refl => exact hc
  | tail _ hstep ih => exact (hm _ ih).2 _ (h.mem_specializations.2 hstep)

theorem Linked.cyclic_iff_of_isClosed (h : s.Linked) (hm : s.IsClosed m) :
    (∃ c, TransGen (s.GeneralizesIn m) c c) ↔ ∃ c ∈ s.classesIn m, TransGen s.Generalizes c c := by
  constructor
  · intro hcyclic
    obtain ⟨c, hc⟩ := hcyclic
    obtain ⟨_, hstep, _⟩ := TransGen.head'_iff.1 hc
    exact ⟨c, hstep.2.1, TransGen.mono (fun _ _ hstep => hstep.1) _ _ hc⟩
  · intro hcyclic
    obtain ⟨c, hmem, hc⟩ := hcyclic
    -- no generalization leads out of the model, so a cycle through it stays in it
    have hboth : ∀ d, TransGen s.Generalizes c d → TransGen (s.GeneralizesIn m) c d := by
      intro d hcd
      induction hcd with
      | single hstep =>
        have hd := h.mem_classesIn_of_descendant hm hmem (.single hstep)
        exact .single ⟨hstep, hmem, hd⟩
      | tail hpath hstep ih =>
        have hfrom := h.mem_classesIn_of_descendant hm hmem hpath.to_reflTransGen
        have hto := h.mem_classesIn_of_descendant hm hfrom (.single hstep)
        exact ih.tail ⟨hstep, hfrom, hto⟩
    exact ⟨c, hboth c hc⟩

end Store

/--
In every state that a session can reach, a class is among all parents of another exactly if the other is among all its
specializations, as long as both calls answer. On a cycle of generalizations none of the calls that follow them does.
-/
theorem closures_converse (ids : Nat → Uuid) (cs : List Command) :
    let s := ((Session.initial ids).run cs).store
    (∀ (p c : ClassRef) (up down : List ClassRef) (s₁ s₂ : Store),
      (Call.allParents c).edit s = .ok (.refs up) s₁ → (Call.allSpecializations p).edit s = .ok (.refs down) s₂ →
        (p ∈ up ↔ c ∈ down)) ∧
    ∀ c : ClassRef, TransGen s.Generalizes c c →
      ∀ call ∈ [Call.allParents c, .allSpecializations c, .inheritedAttributes c, .allAttributes c,
        .allAssociationEnds c], ∃ names s', call.edit s = .error (.cyclicGeneralization names) s' := by
  intro s
  have h : s.Linked := Session.linked_run ids cs
  refine ⟨?_, fun c hc => h.findsCycle_of_transGen hc⟩
  intro p c up down _ _ hup hdown
  rw [h.mem_allParents (Call.following_eq_ok hup), h.mem_allSpecializations (Call.following_eq_ok hdown)]

def Session.ring : Session :=
  (initial Uuid.spread).run
    [.create "a" (.classType (.text "A") {}), .create "b" (.classType (.text "B") {}),
      .create "d" (.classType (.text "D") {}), .create "e" (.classType (.text "E") {}),
      .create "g" (.generalization ⟨9⟩ ⟨10⟩ none), .create "h" (.generalization ⟨10⟩ ⟨9⟩ none),
      .create "k" (.generalization ⟨11⟩ ⟨12⟩ none),
      .create "m" (.model (.text "M") { types := [.ofClass ⟨9⟩, .ofClass ⟨10⟩] })]

theorem Session.cyclic_ring : TransGen (ring.store.GeneralizesIn ⟨16⟩) ⟨9⟩ ⟨9⟩ := by
  have hlinked : ring.store.Linked := linked_run _ _
  have hdown : ring.store.GeneralizesIn ⟨16⟩ ⟨9⟩ ⟨10⟩ :=
    ⟨hlinked.mem_parents.1 (by decide), by decide, by decide⟩
  have hup : ring.store.GeneralizesIn ⟨16⟩ ⟨10⟩ ⟨9⟩ :=
    ⟨hlinked.mem_parents.1 (by decide), by decide, by decide⟩
  exact (TransGen.single hdown).tail hup

theorem closures_converse_of_ring :
    let s := Session.ring.store
    (∃ (up down : List ClassRef) (s₁ s₂ : Store), (Call.allParents ⟨12⟩).edit s = .ok (.refs up) s₁ ∧
      (Call.allSpecializations ⟨11⟩).edit s = .ok (.refs down) s₂ ∧ (⟨11⟩ : ClassRef) ∈ up ∧ (⟨12⟩ : ClassRef) ∈ down) ∧
    TransGen s.Generalizes ⟨9⟩ ⟨9⟩ ∧
      ∃ names s', (Call.allAttributes ⟨9⟩).edit s = .error (.cyclicGeneralization names) s' := by
  intro s
  obtain ⟨hconverse, hcycle⟩ := closures_converse Uuid.spread _
  have hup : (Call.allParents ⟨12⟩).edit s = .ok (.refs [(⟨11⟩ : ClassRef)]) s :=
    Call.following_apply_of_ok .refs (by decide +kernel : Session.ring.store.allParents ⟨12⟩ = .ok [⟨11⟩])
  have hdown : (Call.allSpecializations ⟨11⟩).edit s = .ok (.refs [(⟨12⟩ : ClassRef)]) s :=
    Call.following_apply_of_ok .refs (by decide +kernel : Session.ring.store.allSpecializations ⟨11⟩ = .ok [⟨12⟩])
  have hmem := (hconverse _ _ _ _ _ _ hup hdown).2 List.mem_cons_self
  have hring : TransGen s.Generalizes ⟨9⟩ ⟨9⟩ := TransGen.mono (fun _ _ hstep => hstep.1) _ _ Session.cyclic_ring
  exact ⟨⟨_, _, _, _, hup, hdown, hmem, List.mem_cons_self⟩, hring, hcycle _ hring _ (by simp)⟩

/--
In every state that a session can reach, if a model has all parents and all specializations of its classes, then
sorting its classes fails for a cycle exactly if the closure upwards of one of them does, and exactly if the closure
downwards of one of them does.
-/
theorem cycles_found_alike (ids : Nat → Uuid) (cs : List Command) {m : ModelRef}
    (hm : ((Session.initial ids).run cs).store.IsClosed m) :
    let s := ((Session.initial ids).run cs).store
    ((∃ names s', (Call.sortedClasses m).edit s = .error (.cyclicGeneralization names) s') ↔
      ∃ c ∈ s.classesIn m, ∃ names s', (Call.allParents c).edit s = .error (.cyclicGeneralization names) s') ∧
    ((∃ names s', (Call.sortedClasses m).edit s = .error (.cyclicGeneralization names) s') ↔
      ∃ c ∈ s.classesIn m, ∃ names s',
        (Call.allSpecializations c).edit s = .error (.cyclicGeneralization names) s') := by
  intro s
  have h : s.Linked := Session.linked_run ids cs
  have hsorted := h.findsCycle_sortedClasses_iff.trans (h.cyclic_iff_of_isClosed hm)
  refine ⟨hsorted.trans ⟨?_, ?_⟩, hsorted.trans ⟨?_, ?_⟩⟩
  · intro hcyclic
    obtain ⟨c, hmem, hc⟩ := hcyclic
    exact ⟨c, hmem, h.findsCycle_allParents_iff.2 ⟨c, .refl, hc⟩⟩
  · intro hfound
    obtain ⟨c, hmem, hc⟩ := hfound
    obtain ⟨d, hdc, hd⟩ := h.findsCycle_allParents_iff.1 hc
    exact ⟨d, h.mem_classesIn_of_ancestor hm hmem hdc, hd⟩
  · intro hcyclic
    obtain ⟨c, hmem, hc⟩ := hcyclic
    exact ⟨c, hmem, h.findsCycle_allSpecializations_iff.2 ⟨c, .refl, hc⟩⟩
  · intro hfound
    obtain ⟨c, hmem, hc⟩ := hfound
    obtain ⟨d, hcd, hd⟩ := h.findsCycle_allSpecializations_iff.1 hc
    exact ⟨d, h.mem_classesIn_of_descendant hm hmem hcd, hd⟩

theorem cycles_found_alike_of_ring :
    let s := Session.ring.store
    s.IsClosed ⟨16⟩ ∧ (∃ names s', (Call.sortedClasses ⟨16⟩).edit s = .error (.cyclicGeneralization names) s') ∧
      ∃ c ∈ s.classesIn ⟨16⟩, ∃ names s',
        (Call.allSpecializations c).edit s = .error (.cyclicGeneralization names) s' := by
  intro s
  have hclosed : s.IsClosed ⟨16⟩ := by
    show ∀ c ∈ s.classesIn ⟨16⟩, (∀ p ∈ (s.parents c).toList, p ∈ s.classesIn ⟨16⟩) ∧
      ∀ d ∈ (s.specializations c).toList, d ∈ s.classesIn ⟨16⟩
    decide
  have hlinked : s.Linked := Session.linked_run _ _
  have hsorted := hlinked.findsCycle_sortedClasses_iff.2 ⟨⟨9⟩, Session.cyclic_ring⟩
  obtain ⟨_, hdown⟩ := cycles_found_alike Uuid.spread _ hclosed
  exact ⟨hclosed, hsorted, hdown.1 hsorted⟩

end ClassDiagram
