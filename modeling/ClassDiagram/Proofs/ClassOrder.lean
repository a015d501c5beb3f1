import ClassDiagram.Proofs.Ancestry
import ClassDiagram.Proofs.WalkImages

/-! What the order of the classes of a model depends on, and which ancestors it puts first. -/

namespace ClassDiagram
open Relation

namespace Store
variable {s s₁ s₂ : Store} {m m₁ m₂ : ModelRef} {f : ClassRef → ClassRef}

theorem Linked.idxOf_lt_of_transGen (h : s.Linked) {l : List ClassRef} (hl : s.sortedClasses m = .ok l)
    {p c : ClassRef} (hpc : TransGen (s.GeneralizesIn m) p c) : l.idxOf p < l.idxOf c := by
  obtain ⟨_, _, hforward⟩ := h.sortedClasses_spec hl
  induction hpc with
  | single hstep => exact hforward _ _ hstep
  | tail _ hstep ih => exact Nat.lt_trans ih (hforward _ _ hstep)

theorem GeneralizesIn.ends_of_transGen {p c : ClassRef} (h : TransGen (s.GeneralizesIn m) p c) :
    p ∈ s.classesIn m ∧ c ∈ s.classesIn m := by
  induction h with
  | single hstep => exact hstep.2
  | tail _ hstep ih => exact ⟨ih.1, hstep.2.2⟩

/--
The classes of the second model are those of the first under other references: they were created in the same order,
bear the same names, and some generalization links two of them exactly if one links the other two.
-/
structure Corresponds (f : ClassRef → ClassRef) (s₁ : Store) (m₁ : ModelRef) (s₂ : Store) (m₂ : ModelRef) : Prop where
  classes : ∀ d, d ∈ s₂.classesIn m₂ ↔ ∃ c ∈ s₁.classesIn m₁, f c = d
  created : ∀ c ∈ s₁.classesIn m₁, ∀ d ∈ s₁.classesIn m₁, (f c).order ≤ (f d).order ↔ c.order ≤ d.order
  names : ∀ c ∈ s₁.classesIn m₁, (f c).name s₂ = c.name s₁
  links : ∀ c ∈ s₁.classesIn m₁, ∀ d ∈ s₁.classesIn m₁, s₂.Generalizes (f c) (f d) ↔ s₁.Generalizes c d

theorem Corresponds.refl : Corresponds id s m s m :=
  ⟨fun _ => by simp, fun _ _ _ _ => Iff.rfl, fun _ _ => rfl, fun _ _ _ _ => Iff.rfl⟩

theorem eq_of_order_le {c d : ClassRef} (h : c.order ≤ d.order) (h' : d.order ≤ c.order) : c = d :=
  Table.key_inj.1 (Nat.le_antisymm h h')

theorem Corresponds.injective (h : Corresponds f s₁ m₁ s₂ m₂) :
    ∀ c ∈ s₁.classesIn m₁, ∀ d ∈ s₁.classesIn m₁, f c = f d → c = d := by
  intro c hc d hd heq
  have hcd := (h.created c hc d hd).1 (Nat.le_of_eq (congrArg Ref.order heq))
  have hdc := (h.created d hd c hc).1 (Nat.le_of_eq (congrArg Ref.order heq.symm))
  exact eq_of_order_le hcd hdc

theorem nodup_classesIn : (s.classesIn m).Nodup := by
  refine List.Nodup.filterMap (fun t t' c ht ht' => ?_) (s.models.get m).types.nodup
  rw [TypeRef.class?_eq_some_iff.1 ht, TypeRef.class?_eq_some_iff.1 ht']

theorem pairwise_classesByCreation : (s.classesByCreation m).Pairwise fun c d => c.order ≤ d.order := by
  have hsorted : (s.classesByCreation m).Pairwise fun c d => decide (c.order ≤ d.order) := by
    refine List.pairwise_mergeSort (fun a b c hab hbc => ?_) (fun a b => ?_) _
    · exact decide_eq_true (Nat.le_trans (of_decide_eq_true hab) (of_decide_eq_true hbc))
    · rw [Bool.or_eq_true, decide_eq_true_eq, decide_eq_true_eq]
      exact Nat.le_total a.order b.order
  exact hsorted.imp of_decide_eq_true

theorem sortedClasses_of_pairwise (h : (s.classesIn m).Pairwise fun c d => c.order ≤ d.order) :
    s.sortedClasses m = Graph.order ⟨s.classesIn m, s.specializationsAmong (s.classesIn m)⟩ := by
  have hsorted : s.classesByCreation m = s.classesIn m := by
    apply List.mergeSort_of_pairwise
    exact h.imp decide_eq_true
  rw [sortedClasses, hierarchy, hsorted]

theorem Corresponds.classesByCreation (h : Corresponds f s₁ m₁ s₂ m₂) :
    s₂.classesByCreation m₂ = (s₁.classesByCreation m₁).map f := by
  have hmap : ((s₁.classesByCreation m₁).map f).Perm ((s₁.classesIn m₁).map f) := (List.mergeSort_perm _ _).map f
  have hnodup : ((s₁.classesIn m₁).map f).Nodup := nodup_classesIn.map_on h.injective
  have hperm : (s₂.classesIn m₂).Perm ((s₁.classesIn m₁).map f) :=
    (List.perm_ext_iff_of_nodup nodup_classesIn hnodup).2 fun d => by rw [h.classes, List.mem_map]
  refine List.Perm.eq_of_pairwise (fun a b _ _ => eq_of_order_le) pairwise_classesByCreation ?_
    ((List.mergeSort_perm _ _).trans (hperm.trans hmap.symm))
  refine List.pairwise_map.2 (pairwise_classesByCreation.imp_of_mem fun hc hd hle => ?_)
  exact (h.created _ (mem_classesByCreation.1 hc) _ (mem_classesByCreation.1 hd)).2 hle

/-- The arrows of the hierarchy, each of them once. -/
def outline (s : Store) (m : ModelRef) : Graph ClassRef :=
  let classes := s.classesByCreation m
  ⟨classes, fun general => classes.filter fun specific => !(s.generalizationsBetween general specific).isEmpty⟩

theorem Linked.not_isEmpty_generalizationsBetween (h : s.Linked) {general specific : ClassRef} :
    (!(s.generalizationsBetween general specific).isEmpty) = true ↔ s.Generalizes general specific := by
  rw [Bool.not_eq_true', List.isEmpty_eq_false_iff_exists_mem]
  exact exists_congr fun g => h.mem_generalizationsBetween

theorem thins_specializationsAmong (general : ClassRef) (classes : List ClassRef) (done : ClassRef → Prop) :
    Graph.Thins f done (s.specializationsAmong classes general)
      ((classes.filter fun specific => !(s.generalizationsBetween general specific).isEmpty).map f) := by
  have hrepeat : ∀ {specific : ClassRef} {done : ClassRef → Prop} {l l'}, done specific →
      Graph.Thins f done l l' → ∀ gs : List GeneralizationRef,
        Graph.Thins f done (gs.map (fun _ => specific) ++ l) l' := by
    intro specific done l l' hdone hl gs
    induction gs with
    | nil => exact hl
    | cons _ gs ih => exact .drop hdone ih
  induction classes generalizing done with
  | nil => exact .nil
  | cons specific classes ih =>
    have hcons : s.specializationsAmong (specific :: classes) general =
        (s.generalizationsBetween general specific).map (fun _ => specific) ++ s.specializationsAmong classes general :=
      List.flatMap_cons
    rw [hcons]
    cases hbetween : s.generalizationsBetween general specific with
    | nil =>
      rw [List.filter_cons_of_neg (by simp [hbetween])]
      exact ih done
    | cons g gs =>
      rw [List.filter_cons_of_pos (by simp [hbetween]), List.map_cons]
      -- parallel generalizations make arrows that are done with when their turn comes
      exact .keep (hrepeat (Or.inr rfl) (ih _) gs)

theorem arrows_hierarchy (c : ClassRef) :
    (s.hierarchy m).arrows c = s.specializationsAmong (s.classesByCreation m) c := by
  refine List.filter_eq_self.2 fun d hd => decide_eq_true ?_
  obtain ⟨specific, hspecific, hmem⟩ := List.mem_flatMap.1 hd
  obtain ⟨_, _, rfl⟩ := List.mem_map.1 hmem
  exact hspecific

theorem arrows_outline (c : ClassRef) : (s.outline m).arrows c =
    (s.classesByCreation m).filter fun d => !(s.generalizationsBetween c d).isEmpty :=
  List.filter_eq_self.2 fun _ hd => decide_eq_true (List.mem_of_mem_filter hd)

theorem Corresponds.thinning (h : Corresponds f s₁ m₁ s₂ m₂) (h₁ : s₁.Linked) (h₂ : s₂.Linked) :
    Graph.Thinning f (s₁.hierarchy m₁) (s₂.outline m₂) where
  injective c hc d hd := h.injective c (mem_classesByCreation.1 hc) d (mem_classesByCreation.1 hd)
  vertices := h.classesByCreation
  arrows c hc := by
    have hlinks : ∀ d ∈ s₁.classesByCreation m₁,
        (!(s₂.generalizationsBetween (f c) (f d)).isEmpty) = !(s₁.generalizationsBetween c d).isEmpty := by
      intro d hd
      rw [Bool.eq_iff_iff, h₁.not_isEmpty_generalizationsBetween, h₂.not_isEmpty_generalizationsBetween]
      exact h.links c (mem_classesByCreation.1 hc) d (mem_classesByCreation.1 hd)
    rw [arrows_hierarchy, arrows_outline, h.classesByCreation, List.filter_map, Function.comp_def,
      List.filter_congr hlinks]
    exact thins_specializationsAmong c _ _

theorem Linked.sortedClasses_eq_outline (h : s.Linked) : s.sortedClasses m = (s.outline m).order := by
  obtain ⟨hok, herror⟩ := (Corresponds.refl.thinning h h).order
  cases hs : s.sortedClasses m with
  | ok l => rw [hok l hs, List.map_id]
  | error cycle => rw [herror cycle hs, List.map_id]

theorem Corresponds.sortedClasses (h : Corresponds f s₁ m₁ s₂ m₂) (h₁ : s₁.Linked) (h₂ : s₂.Linked) :
    (∀ l, s₁.sortedClasses m₁ = .ok l → s₂.sortedClasses m₂ = .ok (l.map f)) ∧
      ∀ cycle, s₁.sortedClasses m₁ = .error cycle → s₂.sortedClasses m₂ = .error (cycle.map f) := by
  rw [h₂.sortedClasses_eq_outline]
  exact (h.thinning h₁ h₂).order

theorem Corresponds.names_of_cycle (h : Corresponds f s₁ m₁ s₂ m₂) {cycle : List ClassRef}
    (hcycle : s₁.sortedClasses m₁ = .error cycle) :
    (cycle.map f).map (·.name s₂) = cycle.map (·.name s₁) := by
  rw [List.map_map]
  refine List.map_congr_left fun c hc => h.names c (mem_classesByCreation.1 ?_)
  exact Graph.mem_vertices_of_order_error hcycle c hc

end Store

theorem Call.sortedClasses_eq_ok {s s' : Store} {m : ModelRef} {l : List ClassRef}
    (h : (Call.sortedClasses m).edit s = .ok (.refs l) s') : s.sortedClasses m = .ok l := by
  cases hs : s.sortedClasses m with
  | error cycle =>
    rw [Call.sortedClasses_apply_of_error hs] at h
    cases h
  | ok l' =>
    rw [Call.sortedClasses_apply_of_ok hs] at h
    rw [Datum.refs_injective (EStateM.Result.ok.inj h).1]

/--
In every state that a session can reach, whenever the classes of a model are sorted, a class that leads to another
along generalizations between classes of the model stands before it.
-/
theorem ancestors_precede (ids : Nat → Uuid) (cs : List Command) {m : ModelRef} {l : List ClassRef} {s' : Store}
    (h : (Call.sortedClasses m).edit ((Session.initial ids).run cs).store = .ok (.refs l) s') :
    let s := ((Session.initial ids).run cs).store
    ∀ p c, TransGen (s.GeneralizesIn m) p c → p ∈ l ∧ c ∈ l ∧ l.idxOf p < l.idxOf c := by
  intro s p c hpc
  have hs : s.Linked := Session.linked_run ids cs
  have hl := Call.sortedClasses_eq_ok h
  obtain ⟨hp, hc⟩ := Store.GeneralizesIn.ends_of_transGen hpc
  obtain ⟨_, hmem, _⟩ := hs.sortedClasses_spec hl
  exact ⟨(hmem p).2 hp, (hmem c).2 hc, hs.idxOf_lt_of_transGen hl hpc⟩

def Session.chain : Session :=
  (initial Uuid.spread).run
    [.create "a" (.classType (.text "A") {}), .create "b" (.classType (.text "B") {}),
      .create "c" (.classType (.text "C") {}), .create "g" (.generalization ⟨11⟩ ⟨10⟩ none),
      .create "h" (.generalization ⟨10⟩ ⟨9⟩ none),
      .create "m" (.model (.text "M") { types := [.ofClass ⟨9⟩, .ofClass ⟨10⟩, .ofClass ⟨11⟩] })]

theorem sortedClasses_chain : Session.chain.store.sortedClasses ⟨14⟩ = .ok [⟨11⟩, ⟨10⟩, ⟨9⟩] := by
  rw [Store.sortedClasses_of_pairwise (by decide)]
  decide +kernel

theorem ancestors_precede_of_chain :
    let s := Session.chain.store
    ∃ (l : List ClassRef) (s' : Store), (Call.sortedClasses ⟨14⟩).edit s = .ok (.refs l) s' ∧
      TransGen (s.GeneralizesIn ⟨14⟩) ⟨11⟩ ⟨9⟩ ∧ l.idxOf (⟨11⟩ : ClassRef) < l.idxOf ⟨9⟩ := by
  have hlinked : Session.chain.store.Linked := Session.linked_run _ _
  have hgeneral : Session.chain.store.GeneralizesIn ⟨14⟩ ⟨11⟩ ⟨10⟩ :=
    ⟨hlinked.mem_parents.1 (by decide), by decide, by decide⟩
  have hspecific : Session.chain.store.GeneralizesIn ⟨14⟩ ⟨10⟩ ⟨9⟩ :=
    ⟨hlinked.mem_parents.1 (by decide), by decide, by decide⟩
  have hchain := (TransGen.single hgeneral).tail hspecific
  have happly := Call.sortedClasses_apply_of_ok sortedClasses_chain
  exact ⟨_, _, happly, hchain, (ancestors_precede _ _ happly _ _ hchain).2.2⟩

/-- Two classes of the model `⟨14⟩`, and between them a class that is not in the model. -/
def Session.detour : Session :=
  (initial Uuid.spread).run
    [.create "p" (.classType (.text "P") {}), .create "x" (.classType (.text "X") {}),
      .create "c" (.classType (.text "C") {}), .create "g" (.generalization ⟨9⟩ ⟨10⟩ none),
      .create "h" (.generalization ⟨10⟩ ⟨11⟩ none),
      .create "m" (.model (.text "M") { types := [.ofClass ⟨9⟩, .ofClass ⟨11⟩] })]

/-- A chain that leaves the model is not followed: here a class stands before its ancestor. -/
theorem descendant_precedes_ancestor :
    let s := Session.detour.store
    ∃ (l ancestors : List ClassRef) (s' s'' : Store), (Call.sortedClasses ⟨14⟩).edit s = .ok (.refs l) s' ∧
      (Call.allParents ⟨11⟩).edit s = .ok (.refs ancestors) s'' ∧ ⟨9⟩ ∈ s.classesIn ⟨14⟩ ∧ ⟨11⟩ ∈ s.classesIn ⟨14⟩ ∧
      ⟨9⟩ ∈ ancestors ∧ ¬ l.idxOf ⟨9⟩ < l.idxOf ⟨11⟩ := by
  have hsorted : Session.detour.store.sortedClasses ⟨14⟩ = .ok [⟨11⟩, ⟨9⟩] := by
    rw [Store.sortedClasses_of_pairwise (by decide)]
    decide +kernel
  have hparents : Session.detour.store.allParents ⟨11⟩ = .ok [⟨10⟩, ⟨9⟩] := by decide +kernel
  have hmem : ⟨9⟩ ∈ Session.detour.store.classesIn ⟨14⟩ ∧ ⟨11⟩ ∈ Session.detour.store.classesIn ⟨14⟩ := by decide
  exact ⟨_, _, _, _, Call.sortedClasses_apply_of_ok hsorted, Call.following_apply_of_ok .refs hparents, hmem.1, hmem.2,
    by decide, by decide⟩

/--
Sorting the classes of two models that correspond gives lists that correspond, or fails for both with one cycle. So
neither the order of the types nor that of the generalizations matters, nor parallel generalizations, nor what leads
out of the model.
-/
theorem sortedClasses_canonical (ids₁ ids₂ : Nat → Uuid) (cs₁ cs₂ : List Command) {m₁ m₂ : ModelRef}
    {f : ClassRef → ClassRef} :
    let s₁ := ((Session.initial ids₁).run cs₁).store
    let s₂ := ((Session.initial ids₂).run cs₂).store
    Store.Corresponds f s₁ m₁ s₂ m₂ →
      (∃ (l : List ClassRef) (s₁' s₂' : Store), (Call.sortedClasses m₁).edit s₁ = .ok (.refs l) s₁' ∧
        (Call.sortedClasses m₂).edit s₂ = .ok (.refs (l.map f)) s₂') ∨
      ∃ (cycle : List String) (s₁' s₂' : Store),
        (Call.sortedClasses m₁).edit s₁ = .error (.cyclicGeneralization cycle) s₁' ∧
          (Call.sortedClasses m₂).edit s₂ = .error (.cyclicGeneralization cycle) s₂' := by
  intro s₁ s₂ h
  obtain ⟨hok, herror⟩ := h.sortedClasses (Session.linked_run ids₁ cs₁) (Session.linked_run ids₂ cs₂)
  cases hs : s₁.sortedClasses m₁ with
  | ok l =>
    exact Or.inl ⟨l, _, _, Call.sortedClasses_apply_of_ok hs, Call.sortedClasses_apply_of_ok (hok l hs)⟩
  | error cycle =>
    have hfails := Call.sortedClasses_apply_of_error (herror cycle hs)
    rw [h.names_of_cycle hs] at hfails
    exact Or.inr ⟨_, _, _, Call.sortedClasses_apply_of_error hs, hfails⟩

def Session.chainAmidOthers : Session :=
  (initial Uuid.spread).run
    [.create "z" (.classType (.text "Z") {}), .create "a" (.classType (.text "A") {}),
      .create "b" (.classType (.text "B") {}), .create "c" (.classType (.text "C") {}),
      .create "h" (.generalization ⟨11⟩ ⟨10⟩ none), .create "g" (.generalization ⟨12⟩ ⟨11⟩ none),
      .create "k" (.generalization ⟨12⟩ ⟨11⟩ none), .create "l" (.generalization ⟨9⟩ ⟨12⟩ none),
      .create "m" (.model (.text "M") { types := [.ofClass ⟨12⟩, .ofClass ⟨10⟩, .ofClass ⟨11⟩] })]

theorem sortedClasses_canonical_of_chain :
    let f : ClassRef → ClassRef := fun c => ⟨c.order + 1⟩
    let s₁ := Session.chain.store
    let s₂ := Session.chainAmidOthers.store
    Store.Corresponds f s₁ ⟨14⟩ s₂ ⟨17⟩ ∧ ∃ (l : List ClassRef) (s₁' s₂' : Store),
      (Call.sortedClasses ⟨14⟩).edit s₁ = .ok (.refs l) s₁' ∧
        (Call.sortedClasses ⟨17⟩).edit s₂ = .ok (.refs (l.map f)) s₂' := by
  intro f s₁ s₂
  have hlinked₁ : s₁.Linked := Session.linked_run _ _
  have hlinked₂ : s₂.Linked := Session.linked_run _ _
  have hperm : (s₂.classesIn ⟨17⟩).Perm ((s₁.classesIn ⟨14⟩).map f) := by decide
  have hparents : ∀ c ∈ s₁.classesIn ⟨14⟩, ∀ d ∈ s₁.classesIn ⟨14⟩, f c ∈ s₂.parents (f d) ↔ c ∈ s₁.parents d := by
    decide
  have h : Store.Corresponds f s₁ ⟨14⟩ s₂ ⟨17⟩ := {
    classes := fun d => by rw [hperm.mem_iff, List.mem_map]
    created := by decide
    names := by decide
    links := fun c hc d hd => by rw [← hlinked₂.mem_parents, ← hlinked₁.mem_parents, hparents c hc d hd] }
  refine ⟨h, ?_⟩
  rcases sortedClasses_canonical _ _ _ _ h with hlists | ⟨cycle, _, _, hfails, _⟩
  · exact hlists
  · have happly := Call.sortedClasses_apply_of_ok sortedClasses_chain
    exact nomatch happly.symm.trans hfails

end ClassDiagram
