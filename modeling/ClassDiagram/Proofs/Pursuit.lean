import ClassDiagram.Proofs.DepthFirst
import Mathlib.Data.List.Chain

/-! A pursuit keeps to the way of the walk that has its start for a root, without collecting the start. -/

namespace ClassDiagram.Graph
open Relation
variable {α : Type} {g : Graph α} {start : α} {p p' : g.Pursuit} {w : Walk α}

/-- A walk has entered what a pursuit has collected, and the start before, and stands at the same place. -/
structure Accompanies (start : α) (p : g.Pursuit) (w : Walk α) : Prop where
  path : w.path = (p.here :: p.outer).map (·.toFrame)
  roots : w.roots = []
  entered : w.entered = p.result ++ [start]

theorem Accompanies.places (h : Accompanies start p w) : w.places = p.places := by
  rw [Walk.places, h.path, List.map_map]
  rfl

variable [DecidableEq α]

variable (g) in
inductive Pursues : g.Pursuit → g.Pursuit → Prop
  | leave {u : α} {known : [] ⊆ g.vertices} {f : g.Place} {outer : List g.Place} {result : List α} :
      Pursues ⟨⟨⟨u, []⟩, known⟩, f :: outer, result⟩ ⟨f, outer, result⟩
  | enter {u v : α} {pending : List α} {known : v :: pending ⊆ g.vertices} {outer : List g.Place} {result : List α}
      (hp : v ∉ u :: outer.map (·.vertex)) (hr : v ∉ result) :
      Pursues ⟨⟨⟨u, v :: pending⟩, known⟩, outer, result⟩
        ⟨g.place v, ⟨⟨u, pending⟩, List.subset_of_cons_subset known⟩ :: outer, v :: result⟩
  | skip {u v : α} {pending : List α} {known : v :: pending ⊆ g.vertices} {outer : List g.Place} {result : List α}
      (hp : v ∉ u :: outer.map (·.vertex)) (hr : v ∈ result) :
      Pursues ⟨⟨⟨u, v :: pending⟩, known⟩, outer, result⟩
        ⟨⟨⟨u, pending⟩, List.subset_of_cons_subset known⟩, outer, result⟩

theorem pursues_of_collect (h : g.collect p = .going p') : g.Pursues p p' := by
  match p with
  | ⟨⟨⟨_, []⟩, _⟩, [], _⟩ => cases h
  | ⟨⟨⟨_, []⟩, _⟩, f :: outer, _⟩ => cases h; exact .leave
  | ⟨⟨⟨_, v :: pending⟩, _⟩, outer, result⟩ =>
    simp only [collect] at h
    split_ifs at h with hp hr <;> cases h
    · exact .skip hp hr
    · exact .enter hp hr

theorem ended_of_collect (h : g.collect p = .finished) : p.here.pending = [] ∧ p.outer = [] := by
  match p with
  | ⟨⟨⟨_, []⟩, _⟩, [], _⟩ => exact ⟨rfl, rfl⟩
  | ⟨⟨⟨_, []⟩, _⟩, f :: outer, _⟩ => cases h
  | ⟨⟨⟨_, v :: pending⟩, _⟩, outer, result⟩ => simp only [collect] at h; split_ifs at h

theorem blocked_of_collect {cycle : List α} (h : g.collect p = .blocked cycle) :
    ∃ v pending, p.here.pending = v :: pending ∧ v ∈ p.places ∧ cycle = cycleThrough v p.places := by
  match p with
  | ⟨⟨⟨_, []⟩, _⟩, [], _⟩ => cases h
  | ⟨⟨⟨_, []⟩, _⟩, f :: outer, _⟩ => cases h
  | ⟨⟨⟨_, v :: pending⟩, _⟩, outer, result⟩ =>
    simp only [collect] at h
    split_ifs at h with hp
    cases h
    exact ⟨v, pending, rfl, hp, rfl⟩

variable (g) in
/--
What a pursuit from a start knows at any time. The start is on the path and has not been collected; everything else on
the path has been.
-/
structure Pursued (start : α) (p : g.Pursuit) : Prop where
  rooted : p.places.getLast? = some start
  distinct : p.places.Nodup
  once : p.result.Nodup
  spared : start ∉ p.result
  known : p.result ⊆ g.vertices
  collected : ∀ v ∈ p.places, v ≠ start → v ∈ p.result
  pending : ∀ f ∈ p.here :: p.outer, ∀ v ∈ f.pending, g.Arrow f.vertex v
  chain : p.places.IsChain fun u v => g.Arrow v u

theorem Pursued.start_mem (h : g.Pursued start p) : start ∈ p.places :=
  List.mem_of_getLast? h.rooted

variable (g) in
theorem pursued_pursue (start : α) : g.Pursued start (g.pursue start) where
  rooted := rfl
  distinct := List.nodup_singleton start
  once := List.nodup_nil
  spared := List.not_mem_nil
  known := List.nil_subset _
  collected _ hv hne := absurd (List.mem_singleton.1 hv) hne
  pending := List.forall_mem_singleton.2 fun _ hv => hv
  chain := .singleton start

theorem Pursued.pursues (hm : g.Pursues p p') (h : g.Pursued start p) : g.Pursued start p' := by
  cases hm with
  | @leave u known f outer result =>
    exact {
      rooted := List.getLast?_cons_cons.symm.trans h.rooted
      distinct := (List.nodup_cons.1 h.distinct).2
      once := h.once
      spared := h.spared
      known := h.known
      collected := fun v hv => h.collected v (List.mem_cons_of_mem u hv)
      pending := (List.forall_mem_cons.1 h.pending).2
      chain := h.chain.tail }
  | @enter u v pending known outer result hp hr =>
    obtain ⟨harrows, houter⟩ := List.forall_mem_cons.1 h.pending
    obtain ⟨harrow, hrest⟩ := List.forall_mem_cons.1 harrows
    -- the start is on the path, where the vertex that is entered is not
    have hv : start ≠ v := fun heq => hp (heq ▸ h.start_mem)
    exact {
      rooted := List.getLast?_cons_cons.trans h.rooted
      distinct := List.nodup_cons.2 ⟨hp, h.distinct⟩
      once := List.nodup_cons.2 ⟨hr, h.once⟩
      spared := List.not_mem_cons_of_ne_of_not_mem hv h.spared
      known := List.cons_subset.2 ⟨known List.mem_cons_self, h.known⟩
      collected := by
        refine List.forall_mem_cons.2 ⟨fun _ => List.mem_cons_self, ?_⟩
        exact fun x hx hne => List.mem_cons_of_mem v (h.collected x hx hne)
      pending := List.forall_mem_cons.2 ⟨fun _ hx => hx, List.forall_mem_cons.2 ⟨hrest, houter⟩⟩
      chain := .cons_cons harrow h.chain }
  | @skip u v pending known outer result hp hr =>
    obtain ⟨harrows, houter⟩ := List.forall_mem_cons.1 h.pending
    exact {
      rooted := h.rooted
      distinct := h.distinct
      once := h.once
      spared := h.spared
      known := h.known
      collected := h.collected
      pending := List.forall_mem_cons.2 ⟨(List.forall_mem_cons.1 harrows).2, houter⟩
      chain := h.chain }

namespace Accompanies

theorem mem_entered_iff (h : Accompanies start p w) (hp : g.Pursued start p) {v : α} (hv : v ∉ p.places) :
    v ∈ w.entered ↔ v ∈ p.result := by
  have hne : v ≠ start := fun heq => hv (heq ▸ hp.start_mem)
  rw [h.entered, List.mem_append, List.mem_singleton, or_iff_left hne]

theorem going (h : Accompanies start p w) (hp : g.Pursued start p) (hm : g.Pursues p p') :
    ∃ w', g.step w = .going w' ∧ Accompanies start p' w' := by
  have hentered := fun v => h.mem_entered_iff hp (v := v)
  have hoff : ∀ v, v ∉ p.places → v ∉ w.places := fun v hv => h.places ▸ hv
  obtain ⟨path, roots, entered, left⟩ := w
  obtain ⟨hpath, hroots, hresult⟩ := h
  cases hpath
  cases hm with
  | leave => exact ⟨_, rfl, rfl, hroots, hresult⟩
  | @enter u v pending known outer result hplace hr =>
    have hfree : v ∈ g.vertices ∧ v ∉ entered := ⟨known List.mem_cons_self, mt (hentered v hplace).1 hr⟩
    refine ⟨_, (if_neg (hoff v hplace)).trans (if_pos hfree), rfl, hroots, ?_⟩
    exact congrArg (v :: ·) hresult
  | @skip u v pending known outer result hplace hr =>
    have hmet : ¬ (v ∈ g.vertices ∧ v ∉ entered) := fun hfree => hfree.2 ((hentered v hplace).2 hr)
    exact ⟨_, (if_neg (hoff v hplace)).trans (if_neg hmet), rfl, hroots, hresult⟩

theorem blocked (h : Accompanies start p w) {cycle : List α} (hs : g.collect p = .blocked cycle) :
    g.step w = .blocked cycle := by
  obtain ⟨v, pending, hpending, hv, rfl⟩ := blocked_of_collect hs
  rw [← h.places] at hv ⊢
  have hpath := h.path
  obtain ⟨⟨⟨u, _⟩, known⟩, outer, result⟩ := p
  cases hpending
  obtain ⟨path, roots, entered, left⟩ := w
  cases hpath
  exact if_pos hv

theorem finished (h : Accompanies start p w) (hs : g.collect p = .finished) :
    ∃ w', g.sorting.run w = .ok w' ∧ w'.entered = w.entered := by
  obtain ⟨hpending, houter⟩ := ended_of_collect hs
  obtain ⟨⟨⟨u, _⟩, known⟩, _, result⟩ := p
  cases hpending
  cases houter
  obtain ⟨path, roots, entered, left⟩ := w
  obtain ⟨hpath, hroots, _⟩ := h
  cases hpath
  cases hroots
  have hleave : g.sorting.step ⟨[⟨u, []⟩], [], entered, left⟩ = .going ⟨[], [], entered, u :: left⟩ := rfl
  have hend : g.sorting.step ⟨[], [], entered, u :: left⟩ = .finished := rfl
  exact ⟨_, (g.sorting.run_of_going hleave).trans (g.sorting.run_of_finished hend), rfl⟩

theorem run (h : Accompanies start p w) (hp : g.Pursued start p) :
    match g.collecting.run p with
    | .ok p' => ∃ w', g.sorting.run w = .ok w' ∧ w'.entered = p'.result ++ [start]
    | .error cycle => g.sorting.run w = .error cycle := by
  fun_induction g.collecting.run p generalizing w with
  | case1 p hs =>
    obtain ⟨w', hrun, hentered⟩ := h.finished hs
    exact ⟨w', hrun, hentered.trans h.entered⟩
  | case2 p cycle hs => exact g.sorting.run_of_blocked (h.blocked hs)
  | case3 p p' hs ih =>
    have hm := pursues_of_collect hs
    obtain ⟨w', hstep, h'⟩ := h.going hp hm
    rw [g.sorting.run_of_going hstep]
    exact ih h' (hp.pursues hm)

end Accompanies

/-- A closure is what the walk from its start enters after the start, and fails for the same cycle. -/
theorem run_ofRoots_of_closure (hstart : start ∈ g.vertices) :
    match g.closure start with
    | .ok l => ∃ w, g.sorting.run (.ofRoots [start]) = .ok w ∧ w.entered.reverse = start :: l
    | .error cycle => g.sorting.run (.ofRoots [start]) = .error cycle := by
  have hfree : start ∈ g.vertices ∧ start ∉ ([] : List α) := ⟨hstart, List.not_mem_nil⟩
  have hstep : g.sorting.step (.ofRoots [start]) = .going ⟨[⟨start, g.arrows start⟩], [], [start], []⟩ := if_pos hfree
  have haccompanies : Accompanies start (g.pursue start) ⟨[⟨start, g.arrows start⟩], [], [start], []⟩ := ⟨rfl, rfl, rfl⟩
  have hrun := haccompanies.run (g.pursued_pursue start)
  rw [← g.sorting.run_of_going hstep] at hrun
  unfold closure
  cases hp : g.collecting.run (g.pursue start) with
  | error cycle =>
    rw [hp] at hrun
    exact hrun
  | ok p =>
    rw [hp] at hrun
    obtain ⟨w, hw, hentered⟩ := hrun
    exact ⟨w, hw, by rw [hentered, List.reverse_append, List.reverse_singleton, List.singleton_append]⟩

theorem closure_of_not_vertex (hs : ∀ v, g.Arrow start v → start ∈ g.vertices) (hn : start ∉ g.vertices) :
    g.closure start = .ok [] := by
  have harrows : g.arrows start = [] := List.eq_nil_iff_forall_not_mem.2 fun v hv => hn (hs v hv)
  have hend : g.collecting.step (g.pursue start) = .finished := by
    have hplace : g.place start = ⟨⟨start, []⟩, List.nil_subset _⟩ := by
      simp only [place, harrows]
    show g.collect ⟨g.place start, [], []⟩ = .finished
    rw [hplace]
    rfl
  rw [closure, g.collecting.run_of_finished hend]
  rfl

theorem not_transGen_of_not_vertex {v : α} (hs : ∀ v, g.Arrow start v → start ∈ g.vertices)
    (hn : start ∉ g.vertices) : ¬ TransGen g.Arrow start v := by
  intro h
  obtain ⟨u, ha, _⟩ := TransGen.head'_iff.1 h
  exact hn (hs u ha)

theorem closure_error_iff (hs : ∀ v, g.Arrow start v → start ∈ g.vertices) :
    (∃ cycle, g.closure start = .error cycle) ↔ ∃ v, ReflTransGen g.Arrow start v ∧ TransGen g.Arrow v v := by
  by_cases hstart : start ∈ g.vertices
  · have hrun := g.run_error_iff [start]
    simp only [List.mem_singleton, exists_eq_left, hstart, true_and] at hrun
    rw [← hrun]
    have hsame := run_ofRoots_of_closure hstart
    cases hc : g.closure start with
    | error cycle =>
      rw [hc] at hsame
      exact ⟨fun _ => ⟨cycle, hsame⟩, fun _ => ⟨cycle, rfl⟩⟩
    | ok l =>
      rw [hc] at hsame
      obtain ⟨w, hw, _⟩ := hsame
      rw [hw]
      exact ⟨nofun, nofun⟩
  · rw [closure_of_not_vertex hs hstart]
    refine ⟨nofun, fun hcyclic => ?_⟩
    obtain ⟨v, hreach, hcycle⟩ := hcyclic
    rcases reflTransGen_iff_eq_or_transGen.1 hreach with rfl | hreach
    · exact absurd hcycle (not_transGen_of_not_vertex hs hstart)
    · exact absurd hreach (not_transGen_of_not_vertex hs hstart)

theorem closure_spec (hs : ∀ v, g.Arrow start v → start ∈ g.vertices) {l : List α} (h : g.closure start = .ok l) :
    l.Nodup ∧ ∀ v, v ∈ l ↔ TransGen g.Arrow start v := by
  by_cases hstart : start ∈ g.vertices
  · have hsame := run_ofRoots_of_closure hstart
    rw [h] at hsame
    obtain ⟨w, hrun, hentered⟩ := hsame
    obtain ⟨hw, hp, _⟩ := explored_of_run hrun
    obtain ⟨hne, hnodup⟩ := List.nodup_cons.1 (hentered ▸ List.nodup_reverse.2 hw.nodup)
    have hreach : ∀ v, v ∈ w.entered ↔ ReflTransGen g.Arrow start v := by
      intro v
      have hleft := mem_left_of_run hrun (v := v)
      simp only [List.mem_singleton, exists_eq_left, hstart, true_and] at hleft
      rw [← hleft, hw.mem_entered, Walk.places, hp, List.map_nil, or_iff_right List.not_mem_nil]
    have hmem : ∀ v, v ∈ w.entered ↔ v = start ∨ v ∈ l := fun v => by
      rw [← List.mem_reverse, hentered, List.mem_cons]
    refine ⟨hnodup, fun v => ?_⟩
    constructor
    · intro hv
      have hv' := (hreach v).1 ((hmem v).2 (Or.inr hv))
      exact (reflTransGen_iff_eq_or_transGen.1 hv').resolve_left fun heq => hne (heq ▸ hv)
    · intro hv
      have hacyclic : ¬ TransGen g.Arrow start start := by
        refine hw.settled.acyclic (left_nodup_of_run hrun) ((mem_left_of_run hrun).2 ?_)
        exact ⟨start, List.mem_singleton_self start, hstart, .refl⟩
      exact ((hmem v).1 ((hreach v).2 hv.to_reflTransGen)).resolve_left fun heq => hacyclic (heq ▸ hv)
  · rw [closure_of_not_vertex hs hstart] at h
    cases h
    refine ⟨List.nodup_nil, fun v => iff_of_false List.not_mem_nil (not_transGen_of_not_vertex hs hstart)⟩

end ClassDiagram.Graph
