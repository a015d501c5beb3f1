import ClassDiagram.Proofs.BackReferences
import ClassDiagram.Proofs.Pursuit

/-! Closures of classes and the order of the classes of a model, in terms of the generalizations that there are. -/

namespace ClassDiagram
open Relation

namespace Store
variable {s : Store}

theorem mem_keys_of_mem_generalizations {c : ClassRef} {g : GeneralizationRef}
    (h : g ∈ (s.classes.get c).generalizations) : c ∈ s.classes.keys := by
  rw [Table.mem_keys]
  by_contra hn
  rw [Table.get_of_not_contains hn] at h
  exact OrderedSet.not_mem_empty g h

theorem Generalizes.mem_keys (hs : s.Linked) {p d : ClassRef} (h : s.Generalizes p d) :
    p ∈ s.classes.keys ∧ d ∈ s.classes.keys := by
  obtain ⟨g, hg, rfl, rfl⟩ := h
  have hgeneral := (hs.registered (s.generalizations.get g).general g).2 ⟨hg, Or.inl rfl⟩
  have hspecific := (hs.registered (s.generalizations.get g).specific g).2 ⟨hg, Or.inr rfl⟩
  exact ⟨mem_keys_of_mem_generalizations hgeneral, mem_keys_of_mem_generalizations hspecific⟩

theorem Linked.ancestry_arrow_iff (h : s.Linked) {d p : ClassRef} : s.ancestry.Arrow d p ↔ s.Generalizes p d := by
  rw [Graph.arrow_iff, ← h.mem_parents]
  apply and_iff_left_of_imp
  intro hp
  exact ((h.mem_parents.1 hp).mem_keys h).1

theorem Linked.descent_arrow_iff (h : s.Linked) {p d : ClassRef} : s.descent.Arrow p d ↔ s.Generalizes p d := by
  rw [Graph.arrow_iff, ← h.mem_specializations]
  apply and_iff_left_of_imp
  intro hd
  exact ((h.mem_specializations.1 hd).mem_keys h).2

end Store

/--
A call follows steps from a class if it fails exactly when it can come to a cycle and otherwise answers with all that
it can come to, each once.
-/
structure Edit.Follows (x : Edit Datum) (s : Store) (step : ClassRef → ClassRef → Prop) (start : ClassRef) :
    Prop where
  fails : (∃ cycle s', x s = .error (.cyclicGeneralization cycle) s') ↔
    ∃ d, ReflTransGen step start d ∧ TransGen step d d
  answers : (¬ ∃ d, ReflTransGen step start d ∧ TransGen step d d) →
    ∃ l : List ClassRef, x s = .ok (.refs l) s ∧ l.Nodup ∧ start ∉ l ∧ ∀ d, d ∈ l ↔ TransGen step start d

theorem Datum.refs_injective {kind : Kind} : Function.Injective (@Datum.refs kind) := by
  intro l l' h
  have hinjective : Function.Injective (@Ref.element kind) := fun r r' he =>
    Table.key_inj.1 (congrArg Element.order he)
  exact List.map_injective_iff.2 hinjective (Datum.elements.inj h)

namespace Call
variable {s : Store}

theorem following_apply_of_ok {α : Type} {f : Store → Except (List ClassRef) α} (toDatum : α → Datum) {a : α}
    (h : f s = .ok a) : following f toDatum s = .ok (toDatum a) s := by
  have hcheck : s.orCycle (f s) = .ok a := by rw [h]; rfl
  rw [following, Edit.map_apply, Edit.check_apply_of_ok hcheck]

theorem following_apply_of_error {α : Type} {f : Store → Except (List ClassRef) α} (toDatum : α → Datum)
    {cycle : List ClassRef} (h : f s = .error cycle) :
    following f toDatum s = .error (.cyclicGeneralization (cycle.map (·.name s))) s := by
  have hcheck : s.orCycle (f s) = .error (.cyclicGeneralization (cycle.map (·.name s))) := by rw [h]; rfl
  rw [following, Edit.map_apply, Edit.check_apply_of_error hcheck]
  rfl

theorem fails_iff_cyclic {x : Edit Datum} {found : Except (List ClassRef) (List ClassRef)} {cyclic : Prop}
    {P : List ClassRef → Store → Prop} (hcyclic : (∃ cycle, found = .error cycle) ↔ cyclic)
    (herror : ∀ cycle, found = .error cycle → ∃ names s', x s = .error (.cyclicGeneralization names) s')
    (hok : ∀ l, found = .ok l → ∃ s', x s = .ok (.refs l) s' ∧ P l s') :
    ((∃ names s', x s = .error (.cyclicGeneralization names) s') ↔ cyclic) ∧
      (¬ cyclic → ∃ l s', x s = .ok (.refs l) s' ∧ P l s') := by
  cases hfound : found with
  | error cycle =>
    have hc := hcyclic.1 ⟨cycle, hfound⟩
    exact ⟨⟨fun _ => hc, fun _ => herror cycle hfound⟩, fun hn => absurd hc hn⟩
  | ok l =>
    have hn : ¬ cyclic := by
      intro hc
      obtain ⟨cycle, he⟩ := hcyclic.2 hc
      rw [hfound] at he
      cases he
    obtain ⟨s', happly, hl⟩ := hok l hfound
    refine ⟨⟨?_, fun hc => absurd hc hn⟩, fun _ => ⟨l, s', happly, hl⟩⟩
    intro hfails
    obtain ⟨names, s'', he⟩ := hfails
    rw [happly] at he
    cases he

theorem follows_of_closure {f : Store → Except (List ClassRef) (List ClassRef)} {g : Graph ClassRef}
    {start : ClassRef} (hf : f s = g.closure start) (hs : ∀ d, g.Arrow start d → start ∈ g.vertices) :
    (following f .refs).Follows s g.Arrow start := by
  have hcyclic := Graph.closure_error_iff hs
  rw [← hf] at hcyclic
  obtain ⟨hfails, hanswers⟩ := fails_iff_cyclic (x := following f .refs)
    (P := fun l s' => s' = s ∧ l.Nodup ∧ ∀ d, d ∈ l ↔ TransGen g.Arrow start d) hcyclic
    (fun cycle hc => ⟨_, _, following_apply_of_error .refs hc⟩)
    (fun l hl => ⟨s, following_apply_of_ok .refs hl, rfl, Graph.closure_spec hs (hf.symm.trans hl)⟩)
  refine ⟨hfails, fun hn => ?_⟩
  obtain ⟨l, _, happly, rfl, hnodup, hmem⟩ := hanswers hn
  -- a class that could come to itself would lie on a cycle
  have hstart : start ∉ l := by
    intro hl
    exact hn ⟨start, .refl, (hmem start).1 hl⟩
  exact ⟨l, happly, hnodup, hstart, hmem⟩

theorem sortedClasses_apply_of_ok {m : ModelRef} {l : List ClassRef} (h : s.sortedClasses m = .ok l) :
    (sortedClasses m).edit s = .ok (.refs l) (s.noted .model (s.orderMessage m l)) := by
  rw [edit, Edit.map_apply, Edit.sortClasses, h]

theorem sortedClasses_apply_of_error {m : ModelRef} {cycle : List ClassRef}
    (h : s.sortedClasses m = .error cycle) :
    (sortedClasses m).edit s =
      .error (.cyclicGeneralization (cycle.map (·.name s))) (s.noted .error (s.cycleMessage m cycle)) := by
  rw [edit, Edit.map_apply, Edit.sortClasses, h]

end Call

/--
In every state that a session can reach, the closures of a class upwards and downwards are exactly what can be reached
along generalizations, and fail exactly if a cycle can.
-/
theorem closures_exact (ids : Nat → Uuid) (cs : List Command) (c : ClassRef) :
    let s := ((Session.initial ids).run cs).store
    (Call.allParents c).edit.Follows s (fun d p => s.Generalizes p d) c ∧
      (Call.allSpecializations c).edit.Follows s (fun p d => s.Generalizes p d) c := by
  intro s
  have h : s.Linked := Session.linked_run ids cs
  have hup : s.ancestry.Arrow = fun d p => s.Generalizes p d := by
    funext d p
    exact propext h.ancestry_arrow_iff
  have hdown : s.descent.Arrow = fun p d => s.Generalizes p d := by
    funext p d
    exact propext h.descent_arrow_iff
  constructor
  · rw [← hup]
    exact Call.follows_of_closure rfl fun p hp => ((h.ancestry_arrow_iff.1 hp).mem_keys h).2
  · rw [← hdown]
    exact Call.follows_of_closure rfl fun d hd => ((h.descent_arrow_iff.1 hd).mem_keys h).1

namespace Store
variable {s : Store}

/-- A generalization between two classes of a model. -/
def GeneralizesIn (s : Store) (m : ModelRef) (general specific : ClassRef) : Prop :=
  s.Generalizes general specific ∧ general ∈ s.classesIn m ∧ specific ∈ s.classesIn m

theorem mem_classesByCreation {m : ModelRef} {c : ClassRef} : c ∈ s.classesByCreation m ↔ c ∈ s.classesIn m :=
  (List.mergeSort_perm _ _).mem_iff

theorem Linked.mem_generalizationsBetween (h : s.Linked) {general specific : ClassRef} {g : GeneralizationRef} :
    g ∈ s.generalizationsBetween general specific ↔ s.contains g.element ∧
      (s.generalizations.get g).general = general ∧ (s.generalizations.get g).specific = specific := by
  rw [generalizationsBetween, List.mem_filter, ← OrderedSet.mem_def, h.registered, Bool.and_eq_true, beq_iff_eq,
    beq_iff_eq]
  tauto

theorem Linked.mem_specializationsAmong (h : s.Linked) {classes : List ClassRef} {general specific : ClassRef} :
    specific ∈ s.specializationsAmong classes general ↔ specific ∈ classes ∧ s.Generalizes general specific := by
  simp only [specializationsAmong, List.mem_flatMap, List.mem_map, h.mem_generalizationsBetween]
  constructor
  · intro hspecific
    obtain ⟨d, hd, g, hg, rfl⟩ := hspecific
    exact ⟨hd, g, hg⟩
  · intro hspecific
    obtain ⟨hd, g, hg⟩ := hspecific
    exact ⟨specific, hd, g, hg, rfl⟩

theorem Linked.hierarchy_arrow_iff (h : s.Linked) {m : ModelRef} {p d : ClassRef} :
    (s.hierarchy m).Arrow p d ↔ s.Generalizes p d ∧ d ∈ s.classesIn m := by
  rw [Graph.arrow_iff]
  show d ∈ s.specializationsAmong (s.classesByCreation m) p ∧ d ∈ s.classesByCreation m ↔ _
  rw [h.mem_specializationsAmong, mem_classesByCreation]
  tauto

theorem Linked.transGen_hierarchy_iff (h : s.Linked) {m : ModelRef} {p d : ClassRef} (hp : p ∈ s.classesIn m) :
    TransGen (s.hierarchy m).Arrow p d ↔ TransGen (s.GeneralizesIn m) p d := by
  constructor
  · intro hpd
    have hboth : TransGen (s.GeneralizesIn m) p d ∧ d ∈ s.classesIn m := by
      induction hpd with
      | single ha =>
        obtain ⟨hg, hd⟩ := h.hierarchy_arrow_iff.1 ha
        exact ⟨.single ⟨hg, hp, hd⟩, hd⟩
      | tail _ ha ih =>
        obtain ⟨hg, hd⟩ := h.hierarchy_arrow_iff.1 ha
        exact ⟨ih.1.tail ⟨hg, ih.2, hd⟩, hd⟩
    exact hboth.1
  · intro hpd
    apply TransGen.mono _ _ _ hpd
    intro _ _ hstep
    exact h.hierarchy_arrow_iff.2 ⟨hstep.1, hstep.2.2⟩

theorem Linked.cyclic_hierarchy_iff (h : s.Linked) {m : ModelRef} :
    (∃ c, TransGen (s.hierarchy m).Arrow c c) ↔ ∃ c, TransGen (s.GeneralizesIn m) c c := by
  constructor
  · intro hcyclic
    obtain ⟨c, hc⟩ := hcyclic
    have hmem := mem_classesByCreation.1 (Graph.vertex_of_transGen hc)
    exact ⟨c, (h.transGen_hierarchy_iff hmem).1 hc⟩
  · intro hcyclic
    obtain ⟨c, hc⟩ := hcyclic
    obtain ⟨_, hstep, _⟩ := TransGen.head'_iff.1 hc
    exact ⟨c, (h.transGen_hierarchy_iff hstep.2.1).2 hc⟩

theorem Linked.sortedClasses_spec (h : s.Linked) {m : ModelRef} {l : List ClassRef} (hl : s.sortedClasses m = .ok l) :
    l.Nodup ∧ (∀ c, c ∈ l ↔ c ∈ s.classesIn m) ∧ ∀ p d, s.GeneralizesIn m p d → l.idxOf p < l.idxOf d := by
  obtain ⟨hnodup, hmem, hforward⟩ := Graph.order_spec hl
  refine ⟨hnodup, ?_, ?_⟩
  · intro c
    rw [hmem, ← mem_classesByCreation]
    rfl
  · intro p d hstep
    obtain ⟨hg, hp, hd⟩ := hstep
    exact hforward p d (mem_classesByCreation.2 hp) (h.hierarchy_arrow_iff.2 ⟨hg, hd⟩)

end Store

/--
In every state that a session can reach, sorting the classes of a model fails exactly if generalizations between them
run in a cycle, and otherwise lists each of them once, general classes before their specializations.
-/
theorem sortedClasses_exact (ids : Nat → Uuid) (cs : List Command) (m : ModelRef) :
    let s := ((Session.initial ids).run cs).store
    ((∃ cycle s', (Call.sortedClasses m).edit s = .error (.cyclicGeneralization cycle) s') ↔
      ∃ c, TransGen (s.GeneralizesIn m) c c) ∧
    ((¬ ∃ c, TransGen (s.GeneralizesIn m) c c) → ∃ (l : List ClassRef) (s' : Store),
      (Call.sortedClasses m).edit s = .ok (.refs l) s' ∧ l.Nodup ∧ (∀ c, c ∈ l ↔ c ∈ s.classesIn m) ∧
        ∀ p d, s.GeneralizesIn m p d → l.idxOf p < l.idxOf d) := by
  intro s
  have h : s.Linked := Session.linked_run ids cs
  have hcyclic : (∃ cycle, s.sortedClasses m = .error cycle) ↔ ∃ c, TransGen (s.GeneralizesIn m) c c :=
    Graph.order_error_iff.trans h.cyclic_hierarchy_iff
  exact Call.fails_iff_cyclic hcyclic (fun cycle hc => ⟨_, _, Call.sortedClasses_apply_of_error hc⟩)
    fun l hl => ⟨_, Call.sortedClasses_apply_of_ok hl, h.sortedClasses_spec hl⟩

end ClassDiagram
