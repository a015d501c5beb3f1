import ClassDiagram.Proofs.Cycles
import Mathlib.Data.List.Chain

/-! A cycle that is reported is one: distinct classes that lead from each to the next and from the last to the first. -/

namespace ClassDiagram
open Relation

/-- Distinct things from the first of which steps lead through the rest and back to the first. -/
structure Ring {α : Type} (step : α → α → Prop) (first : α) (rest : List α) : Prop where
  distinct : (first :: rest).Nodup
  steps : (first :: rest ++ [first]).IsChain step

namespace Ring
variable {α : Type} {step step' : α → α → Prop} {first : α} {rest : List α}

theorem mono (h : Ring step first rest) (hstep : ∀ a b, step a b → step' a b) : Ring step' first rest :=
  ⟨h.distinct, h.steps.imp hstep⟩

theorem ne_nil (h : Ring step first rest) (hirreflexive : ∀ a, ¬ step a a) : rest ≠ [] := by
  rintro rfl
  exact hirreflexive first (List.isChain_pair.1 h.steps)

end Ring

namespace Graph
variable {α : Type} [DecidableEq α] {g : Graph α}

theorem Stacked.isChain {left : List α} {u : α} {path : List (Frame α)} (h : g.Stacked left (some u) path) :
    (u :: path.map Frame.vertex).IsChain fun v w => g.Arrow w v := by
  induction path generalizing u with
  | nil => exact .singleton u
  | cons f path ih =>
    obtain ⟨_, _, hf, hs⟩ := h
    exact .cons_cons (hf u rfl) (ih hs)

theorem exists_cycleThrough {v : α} {places : List α} (hv : v ∈ places) :
    ∃ inner outer, places = inner ++ [v] ++ outer ∧ cycleThrough v places = v :: inner.reverse ++ [v] := by
  obtain ⟨inner, outer, rfl, hinner⟩ := List.eq_append_cons_of_mem hv
  have htake : (inner ++ v :: outer).takeWhile (· ≠ v) = inner := by
    rw [List.takeWhile_append_of_pos, List.takeWhile_cons_of_neg (by simp), List.append_nil]
    exact fun u hu => decide_eq_true fun heq => hinner (heq ▸ hu)
  refine ⟨inner, outer, List.append_cons inner v outer, ?_⟩
  rw [cycleThrough, htake, List.cons_append]

theorem ring_cycleThrough {v : α} {places : List α} (hv : v ∈ places) (hnodup : places.Nodup)
    (hchain : (v :: places).IsChain fun u w => g.Arrow w u) :
    ∃ rest, cycleThrough v places = v :: rest ++ [v] ∧ (v :: rest) ⊆ places ∧ Ring g.Arrow v rest := by
  obtain ⟨inner, outer, rfl, hcycle⟩ := exists_cycleThrough hv
  have hreverse : v :: inner.reverse = (inner ++ [v]).reverse := by
    rw [List.reverse_append, List.reverse_singleton, List.singleton_append]
  refine ⟨inner.reverse, hcycle, fun u hu => ?_, ?_, ?_⟩
  · rw [hreverse, List.mem_reverse] at hu
    exact List.mem_append_left outer hu
  · rw [hreverse, List.nodup_reverse]
    exact (List.nodup_append.1 hnodup).1
  · have hclosed : v :: inner.reverse ++ [v] = (v :: (inner ++ [v])).reverse := by
      rw [hreverse, List.reverse_cons]
    rw [hclosed, List.isChain_reverse]
    rw [← List.cons_append] at hchain
    exact hchain.left_of_append

theorem ring_of_run {roots cycle : List α} (h : g.sorting.run (.ofRoots roots) = .error cycle) :
    ∃ v rest, cycle = v :: rest ++ [v] ∧ Ring g.Arrow v rest ∧ (∀ u ∈ v :: rest, u ∈ g.vertices) ∧
      ∃ r ∈ roots, ReflTransGen g.Arrow r v := by
  have hrun := g.explored_run roots
  rw [h] at hrun
  obtain ⟨w, hw, hstep⟩ := hrun
  obtain ⟨u, v, pending, path, hpath, hv, rfl⟩ := g.blocked_of_step hstep
  have hentered : ∀ x ∈ w.places, x ∈ w.entered := fun x hx => hw.mem_entered.2 (Or.inl hx)
  have hnodup : w.places.Nodup := (List.nodup_append.1 (hw.perm.nodup_iff.1 hw.nodup)).1
  have hchain : (v :: w.places).IsChain fun x y => g.Arrow y x := by
    have hs := hw.stacked
    rw [hpath] at hs
    obtain ⟨_, hpending, _, hs⟩ := hs
    rw [Walk.places, hpath]
    exact .cons_cons (hpending v List.mem_cons_self) hs.isChain
  obtain ⟨rest, hcycle, hplaces, hring⟩ := ring_cycleThrough hv hnodup hchain
  obtain ⟨r, hr, _, hreach⟩ := hw.reached v (hentered v hv)
  exact ⟨v, rest, hcycle, hring, fun x hx => hw.known x (hentered x (hplaces hx)), r, hr, hreach⟩

theorem ring_of_closure {start : α} {cycle : List α} (hs : ∀ v, g.Arrow start v → start ∈ g.vertices)
    (h : g.closure start = .error cycle) :
    ∃ v rest, cycle = v :: rest ++ [v] ∧ Ring g.Arrow v rest ∧ ReflTransGen g.Arrow start v := by
  have hstart : start ∈ g.vertices := by
    by_contra hn
    rw [closure_of_not_vertex hs hn] at h
    cases h
  have hrun := run_ofRoots_of_closure hstart
  rw [h] at hrun
  obtain ⟨v, rest, hcycle, hring, _, r, hr, hreach⟩ := ring_of_run hrun
  exact ⟨v, rest, hcycle, hring, List.mem_singleton.1 hr ▸ hreach⟩

theorem ring_of_order {cycle : List α} (h : g.order = .error cycle) :
    ∃ v rest, cycle = v :: rest ++ [v] ∧ Ring g.Arrow v rest ∧ ∀ u ∈ v :: rest, u ∈ g.vertices := by
  cases hrun : g.sorting.run (.ofRoots g.vertices) with
  | ok w => simp [order, hrun, Except.map] at h
  | error cycle' =>
    simp only [order, hrun, Except.map, Except.error.injEq] at h
    subst h
    obtain ⟨v, rest, hcycle, hring, hvertices, _⟩ := ring_of_run hrun
    exact ⟨v, rest, hcycle, hring, hvertices⟩

end Graph

namespace Store
variable {s : Store} {c : ClassRef} {m : ModelRef} {cycle : List ClassRef}

/-- The names are those of two or more distinct classes in a ring, the first of them once more at the end. -/
structure Reports (s : Store) (step : ClassRef → ClassRef → Prop) (first : ClassRef) (rest : List ClassRef)
    (names : List String) : Prop where
  names : names = (first :: rest ++ [first]).map (·.name s)
  several : rest ≠ []
  ring : Ring step first rest

theorem Linked.not_generalizes_self (h : s.Linked) (c : ClassRef) : ¬ s.Generalizes c c := by
  rintro ⟨g, hg, hgeneral, hspecific⟩
  exact h.irreflexive g hg (hgeneral.trans hspecific.symm)

theorem Linked.reports_allParents (h : s.Linked) (hcycle : s.allParents c = .error cycle) :
    ∃ first rest, s.Reports (fun d p => p ∈ s.parents d) first rest (cycle.map (·.name s)) ∧
      ReflTransGen (fun d p => p ∈ s.parents d) c first := by
  have hstep : s.ancestry.Arrow = fun d p => p ∈ s.parents d := by
    funext d p
    exact propext (h.ancestry_arrow_iff.trans h.mem_parents.symm)
  obtain ⟨first, rest, rfl, hring, hreach⟩ := Graph.ring_of_closure (h.ancestry_vertex c) hcycle
  rw [hstep] at hring hreach
  exact ⟨first, rest, ⟨rfl, hring.ne_nil fun d hd => h.not_generalizes_self d (h.mem_parents.1 hd), hring⟩, hreach⟩

theorem Linked.reports_allSpecializations (h : s.Linked) (hcycle : s.allSpecializations c = .error cycle) :
    ∃ first rest, s.Reports (fun p d => d ∈ s.specializations p) first rest (cycle.map (·.name s)) ∧
      ReflTransGen (fun p d => d ∈ s.specializations p) c first := by
  have hstep : s.descent.Arrow = fun p d => d ∈ s.specializations p := by
    funext p d
    exact propext (h.descent_arrow_iff.trans h.mem_specializations.symm)
  obtain ⟨first, rest, rfl, hring, hreach⟩ := Graph.ring_of_closure (h.descent_vertex c) hcycle
  rw [hstep] at hring hreach
  exact ⟨first, rest, ⟨rfl, hring.ne_nil fun d hd => h.not_generalizes_self d (h.mem_specializations.1 hd), hring⟩,
    hreach⟩

theorem Linked.reports_sortedClasses (h : s.Linked) (hcycle : s.sortedClasses m = .error cycle) :
    ∃ first rest, s.Reports (fun p d => d ∈ s.specializations p) first rest (cycle.map (·.name s)) ∧
      ∀ d ∈ first :: rest, d ∈ s.classesIn m := by
  obtain ⟨first, rest, rfl, hring, hvertices⟩ := Graph.ring_of_order hcycle
  have hsteps : Ring (fun p d => d ∈ s.specializations p) first rest :=
    hring.mono fun p d hpd => h.mem_specializations.2 (h.hierarchy_arrow_iff.1 hpd).1
  exact ⟨first, rest,
    ⟨rfl, hsteps.ne_nil fun d hd => h.not_generalizes_self d (h.mem_specializations.1 hd), hsteps⟩,
    fun d hd => mem_classesByCreation.1 (hvertices d hd)⟩

end Store

namespace Call
variable {s s' : Store} {c : ClassRef} {m : ModelRef} {names : List String}

theorem eq_error_of_map {α β ε : Type} {x : Except ε α} {f : α → β} {e : ε} (h : x.map f = .error e) :
    x = .error e := by
  cases x with
  | ok a => cases h
  | error e' =>
    cases h
    rfl

theorem following_eq_error {α : Type} {f : Store → Except (List ClassRef) α} {toDatum : α → Datum}
    (h : following f toDatum s = .error (.cyclicGeneralization names) s') :
    ∃ cycle, f s = .error cycle ∧ names = cycle.map (·.name s) := by
  cases hf : f s with
  | ok a =>
    rw [following_apply_of_ok toDatum hf] at h
    cases h
  | error cycle =>
    rw [following_apply_of_error toDatum hf] at h
    cases h
    exact ⟨cycle, rfl, rfl⟩

theorem sortedClasses_eq_error (h : (sortedClasses m).edit s = .error (.cyclicGeneralization names) s') :
    ∃ cycle, s.sortedClasses m = .error cycle ∧ names = cycle.map (·.name s) := by
  cases hs : s.sortedClasses m with
  | ok l =>
    rw [sortedClasses_apply_of_ok hs] at h
    cases h
  | error cycle =>
    rw [sortedClasses_apply_of_error hs] at h
    cases h
    exact ⟨cycle, rfl, rfl⟩

theorem allParents_of_upward {call : Call}
    (hcall : call ∈ [allParents c, .inheritedAttributes c, .allAttributes c, .allAssociationEnds c])
    (h : call.edit s = .error (.cyclicGeneralization names) s') :
    ∃ cycle, s.allParents c = .error cycle ∧ names = cycle.map (·.name s) := by
  simp only [List.mem_cons, List.not_mem_nil, or_false] at hcall
  rcases hcall with rfl | rfl | rfl | rfl
  · exact following_eq_error h
  · obtain ⟨cycle, hcycle, hnames⟩ := following_eq_error h
    exact ⟨cycle, eq_error_of_map hcycle, hnames⟩
  · obtain ⟨cycle, hcycle, hnames⟩ := following_eq_error h
    exact ⟨cycle, eq_error_of_map (eq_error_of_map hcycle), hnames⟩
  · obtain ⟨cycle, hcycle, hnames⟩ := following_eq_error h
    exact ⟨cycle, eq_error_of_map hcycle, hnames⟩

end Call

/--
In every state that a session can reach, whenever a call is refused for a cycle of generalizations, the names that it
gives are those of two or more distinct classes, the first once more at the end, each followed by a parent of it, or
by a specialization of it where the call looks downwards. From the class that was asked about they can be come to, and
those of a model are all classes of the model.
-/
theorem reported_cycles_genuine (ids : Nat → Uuid) (cs : List Command) :
    let s := ((Session.initial ids).run cs).store
    (∀ c, ∀ call ∈ [Call.allParents c, .inheritedAttributes c, .allAttributes c, .allAssociationEnds c],
      ∀ names s', call.edit s = .error (.cyclicGeneralization names) s' →
        ∃ first rest, s.Reports (fun d p => p ∈ s.parents d) first rest names ∧
          ReflTransGen (fun d p => p ∈ s.parents d) c first) ∧
    (∀ c names s', (Call.allSpecializations c).edit s = .error (.cyclicGeneralization names) s' →
      ∃ first rest, s.Reports (fun p d => d ∈ s.specializations p) first rest names ∧
        ReflTransGen (fun p d => d ∈ s.specializations p) c first) ∧
    ∀ m names s', (Call.sortedClasses m).edit s = .error (.cyclicGeneralization names) s' →
      ∃ first rest, s.Reports (fun p d => d ∈ s.specializations p) first rest names ∧
        ∀ d ∈ first :: rest, d ∈ s.classesIn m := by
  intro s
  have hs : s.Linked := Session.linked_run ids cs
  refine ⟨fun c call hcall names s' h => ?_, fun c names s' h => ?_, fun m names s' h => ?_⟩
  · obtain ⟨cycle, hcycle, rfl⟩ := Call.allParents_of_upward hcall h
    exact hs.reports_allParents hcycle
  · obtain ⟨cycle, hcycle, rfl⟩ := Call.following_eq_error h
    exact hs.reports_allSpecializations hcycle
  · obtain ⟨cycle, hcycle, rfl⟩ := Call.sortedClasses_eq_error h
    exact hs.reports_sortedClasses hcycle

theorem reported_cycles_genuine_of_ring :
    let s := Session.ring.store
    (∃ names s', (Call.allAttributes ⟨9⟩).edit s = .error (.cyclicGeneralization names) s' ∧
      ∃ first rest, s.Reports (fun d p => p ∈ s.parents d) first rest names ∧
        ReflTransGen (fun d p => p ∈ s.parents d) ⟨9⟩ first) ∧
    ∃ names s', (Call.sortedClasses ⟨16⟩).edit s = .error (.cyclicGeneralization names) s' ∧
      ∃ first rest, s.Reports (fun p d => d ∈ s.specializations p) first rest names ∧
        ∀ d ∈ first :: rest, d ∈ s.classesIn ⟨16⟩ := by
  intro s
  have hlinked : s.Linked := Session.linked_run _ _
  have hring : TransGen s.Generalizes ⟨9⟩ ⟨9⟩ := TransGen.mono (fun _ _ hstep => hstep.1) _ _ Session.cyclic_ring
  obtain ⟨names, s', hattributes⟩ := hlinked.findsCycle_of_transGen hring (.allAttributes ⟨9⟩) (by simp)
  obtain ⟨names', s'', hsorted⟩ := hlinked.findsCycle_sortedClasses_iff.2 ⟨⟨9⟩, Session.cyclic_ring⟩
  obtain ⟨hupward, _, hmodel⟩ := reported_cycles_genuine Uuid.spread _
  exact ⟨⟨names, s', hattributes, hupward _ _ (by simp) _ _ hattributes⟩,
    names', s'', hsorted, hmodel _ _ _ hsorted⟩

end ClassDiagram
