import ClassDiagram.Graph
import Mathlib.Data.List.Nodup
import Mathlib.Data.List.Perm.Basic
import Mathlib.Logic.Relation

/-! What a depth-first walk knows when it ends. Of every vertex that it has left all arrows lead to vertices that it
left before, and a place that it comes back to lies on a cycle. -/

namespace ClassDiagram
open Relation

namespace Search
variable {α σ : Type} (S : Search α σ) {w w' : σ}

theorem run_of_finished (hs : S.step w = .finished) : S.run w = .ok w := by
  rw [run]
  split <;> simp_all

theorem run_of_blocked {cycle : List α} (hs : S.step w = .blocked cycle) : S.run w = .error cycle := by
  rw [run]
  split <;> simp_all

theorem run_of_going (hs : S.step w = .going w') : S.run w = S.run w' := by
  rw [run]
  split <;> simp_all

theorem run_induction {I : σ → Prop} (hI : ∀ w w', S.step w = .going w' → I w → I w') (h : I w) :
    match S.run w with
    | .ok w' => I w' ∧ S.step w' = .finished
    | .error cycle => ∃ w', I w' ∧ S.step w' = .blocked cycle := by
  fun_induction S.run w with
  | case1 w hs => exact ⟨h, hs⟩
  | case2 w cycle hs => exact ⟨w, h, hs⟩
  | case3 w w' hs ih => exact ih (hI w w' hs h)

end Search

namespace Graph
variable {α : Type} [DecidableEq α] (g : Graph α)

def Arrow (u v : α) : Prop := v ∈ g.arrows u

theorem arrow_iff {u v : α} : g.Arrow u v ↔ v ∈ g.next u ∧ v ∈ g.vertices := by
  simp only [Arrow, arrows, List.mem_filter, decide_eq_true_eq]

/-- What a walk can do in one step, unless it has come to its end. -/
inductive Moves : Walk α → Walk α → Prop
  | enterRoot {v : α} {roots entered left : List α} (hv : v ∈ g.vertices) (he : v ∉ entered) :
      Moves ⟨[], v :: roots, entered, left⟩ ⟨[⟨v, g.arrows v⟩], roots, v :: entered, left⟩
  | skipRoot {v : α} {roots entered left : List α} (hv : v ∈ g.vertices → v ∈ entered) :
      Moves ⟨[], v :: roots, entered, left⟩ ⟨[], roots, entered, left⟩
  | leave {u : α} {path : List (Frame α)} {roots entered left : List α} :
      Moves ⟨⟨u, []⟩ :: path, roots, entered, left⟩ ⟨path, roots, entered, u :: left⟩
  | enter {u v : α} {pending : List α} {path : List (Frame α)} {roots entered left : List α}
      (hp : v ∉ u :: path.map Frame.vertex) (hv : v ∈ g.vertices) (he : v ∉ entered) :
      Moves ⟨⟨u, v :: pending⟩ :: path, roots, entered, left⟩
        ⟨⟨v, g.arrows v⟩ :: ⟨u, pending⟩ :: path, roots, v :: entered, left⟩
  | skip {u v : α} {pending : List α} {path : List (Frame α)} {roots entered left : List α}
      (hp : v ∉ u :: path.map Frame.vertex) (hv : v ∈ g.vertices → v ∈ entered) :
      Moves ⟨⟨u, v :: pending⟩ :: path, roots, entered, left⟩ ⟨⟨u, pending⟩ :: path, roots, entered, left⟩

theorem moves_of_step {w w' : Walk α} (h : g.step w = .going w') : g.Moves w w' := by
  obtain ⟨path, roots, entered, left⟩ := w
  match path, roots with
  | [], [] => simp [step] at h
  | [], v :: roots =>
    simp only [step] at h
    split_ifs at h with hv <;> cases h
    · exact .enterRoot hv.1 hv.2
    · exact .skipRoot fun hm => by_contra fun he => hv ⟨hm, he⟩
  | ⟨u, []⟩ :: path, roots => cases h; exact .leave
  | ⟨u, v :: pending⟩ :: path, roots =>
    simp only [step] at h
    split_ifs at h with hp hv <;> cases h
    · exact .enter hp hv.1 hv.2
    · exact .skip hp fun hm => by_contra fun he => hv ⟨hm, he⟩

theorem ended_of_step {w : Walk α} (h : g.step w = .finished) : w.path = [] ∧ w.roots = [] := by
  obtain ⟨path, roots, entered, left⟩ := w
  match path, roots with
  | [], [] => exact ⟨rfl, rfl⟩
  | [], v :: roots => simp only [step] at h; split_ifs at h
  | ⟨u, []⟩ :: path, roots => cases h
  | ⟨u, v :: pending⟩ :: path, roots => simp only [step] at h; split_ifs at h

theorem blocked_of_step {w : Walk α} {cycle : List α} (h : g.step w = .blocked cycle) :
    ∃ u v pending path, w.path = ⟨u, v :: pending⟩ :: path ∧ v ∈ w.places ∧
      cycle = cycleThrough v w.places := by
  obtain ⟨path, roots, entered, left⟩ := w
  match path, roots with
  | [], [] => cases h
  | [], v :: roots => simp only [step] at h; split_ifs at h
  | ⟨u, []⟩ :: path, roots => cases h
  | ⟨u, v :: pending⟩ :: path, roots =>
    simp only [step] at h
    split_ifs at h with hp
    cases h
    exact ⟨u, v, pending, path, rfl, hp, rfl⟩

def Settled : List α → Prop
  | [] => True
  | u :: rest => (∀ v, g.Arrow u v → v ∈ rest) ∧ Settled rest

/-- Each place was entered by an arrow from the next, and the arrows that are not pending lead to vertices
left, but for the one that was followed. -/
def Stacked (left : List α) : Option α → List (Frame α) → Prop
  | _, [] => True
  | followed, ⟨u, pending⟩ :: path =>
    (∀ v, g.Arrow u v → v ∈ pending ∨ v ∈ left ∨ followed = some v) ∧ (∀ v ∈ pending, g.Arrow u v) ∧
      (∀ v, followed = some v → g.Arrow u v) ∧ Stacked left (some u) path

variable {g}

theorem Settled.mem_of_arrow {l : List α} (h : g.Settled l) {u v : α} (hu : u ∈ l) (ha : g.Arrow u v) :
    v ∈ l := by
  induction l with
  | nil => cases hu
  | cons w rest ih =>
    rcases List.mem_cons.1 hu with rfl | hu
    · exact List.mem_cons_of_mem _ (h.1 v ha)
    · exact List.mem_cons_of_mem _ (ih h.2 hu)

theorem Settled.mem_of_reachable {l : List α} (h : g.Settled l) {u v : α} (hu : u ∈ l)
    (hr : ReflTransGen g.Arrow u v) : v ∈ l := by
  induction hr with
  | refl => exact hu
  | tail _ ha ih => exact h.mem_of_arrow ih ha

theorem Settled.idxOf_lt {l : List α} (h : g.Settled l) (hl : l.Nodup) {u v : α} (hu : u ∈ l)
    (ha : g.Arrow u v) : l.idxOf u < l.idxOf v := by
  induction l with
  | nil => cases hu
  | cons w rest ih =>
    have hw := (List.nodup_cons.1 hl).1
    rcases List.mem_cons.1 hu with rfl | hu
    · have hv : v ≠ u := fun e => hw (e ▸ h.1 v ha)
      rw [List.idxOf_cons_self, List.idxOf_cons_ne _ hv.symm]
      exact Nat.succ_pos _
    · have hv := h.2.mem_of_arrow hu ha
      have hwu : w ≠ u := fun e => hw (e ▸ hu)
      have hwv : w ≠ v := fun e => hw (e ▸ hv)
      rw [List.idxOf_cons_ne _ hwu, List.idxOf_cons_ne _ hwv]
      exact Nat.succ_lt_succ (ih h.2 (List.nodup_cons.1 hl).2 hu)

theorem Settled.idxOf_lt_of_transGen {l : List α} (h : g.Settled l) (hl : l.Nodup) {u v : α} (hu : u ∈ l)
    (hr : TransGen g.Arrow u v) : l.idxOf u < l.idxOf v := by
  induction hr with
  | single ha => exact h.idxOf_lt hl hu ha
  | tail hr ha ih =>
    exact Nat.lt_trans ih (h.idxOf_lt hl (h.mem_of_reachable hu hr.to_reflTransGen) ha)

theorem Settled.acyclic {l : List α} (h : g.Settled l) (hl : l.Nodup) {u : α} (hu : u ∈ l) :
    ¬ TransGen g.Arrow u u := fun hr =>
  Nat.lt_irrefl _ (h.idxOf_lt_of_transGen hl hu hr)

theorem Stacked.mono {left left' : List α} (hl : left ⊆ left') {followed : Option α}
    {path : List (Frame α)} (h : g.Stacked left followed path) : g.Stacked left' followed path := by
  induction path generalizing followed with
  | nil => trivial
  | cons f path ih =>
    obtain ⟨ha, hp, hf, hs⟩ := h
    exact ⟨fun v hv => (ha v hv).imp_right (Or.imp_left fun hm => hl hm), hp, hf, ih hs⟩

theorem Stacked.reachable {left : List α} {u v : α} {path : List (Frame α)}
    (h : g.Stacked left (some u) path) (hv : v ∈ path.map Frame.vertex) : TransGen g.Arrow v u := by
  induction path generalizing u with
  | nil => cases hv
  | cons f path ih =>
    obtain ⟨_, _, hf, hs⟩ := h
    rcases List.mem_cons.1 hv with rfl | hv
    · exact .single (hf u rfl)
    · exact (ih hs hv).tail (hf u rfl)

variable (g)

/-- What a walk from `roots` knows at any time. -/
structure Explored (roots : List α) (w : Walk α) : Prop where
  nodup : w.entered.Nodup
  perm : w.entered.Perm (w.places ++ w.left)
  known : ∀ v ∈ w.entered, v ∈ g.vertices
  reached : ∀ v ∈ w.entered, ∃ r ∈ roots, r ∈ g.vertices ∧ ReflTransGen g.Arrow r v
  covered : ∀ r ∈ roots, r ∈ g.vertices → r ∈ w.entered ∨ r ∈ w.roots
  remaining : w.roots ⊆ roots
  stacked : g.Stacked w.left none w.path
  settled : g.Settled w.left

variable {g}

theorem explored_ofRoots (roots : List α) : g.Explored roots (.ofRoots roots) where
  nodup := List.nodup_nil
  perm := List.Perm.refl _
  known := fun _ h => nomatch h
  reached := fun _ h => nomatch h
  covered := fun _ hr _ => Or.inr hr
  remaining := List.Subset.refl _
  stacked := trivial
  settled := trivial

theorem Explored.mem_entered {roots : List α} {w : Walk α} (h : g.Explored roots w) {v : α} :
    v ∈ w.entered ↔ v ∈ w.places ∨ v ∈ w.left := by
  rw [h.perm.mem_iff, List.mem_append]

theorem Explored.moves {roots : List α} {w w' : Walk α} (hm : g.Moves w w') (h : g.Explored roots w) :
    g.Explored roots w' := by
  cases hm with
  | @enterRoot v rest entered left hv he =>
    have hr : v ∈ roots := h.remaining List.mem_cons_self
    exact {
      nodup := List.nodup_cons.2 ⟨he, h.nodup⟩
      perm := h.perm.cons v
      known := List.forall_mem_cons.2 ⟨hv, h.known⟩
      reached := List.forall_mem_cons.2 ⟨⟨v, hr, hv, .refl⟩, h.reached⟩
      covered := fun r hr hrv => by
        have hc := h.covered r hr hrv
        simp only [List.mem_cons] at hc ⊢
        tauto
      remaining := fun r hr => h.remaining (List.mem_cons_of_mem _ hr)
      stacked := ⟨fun _ ha => Or.inl ha, fun _ ha => ha, fun _ e => (nomatch e), trivial⟩
      settled := h.settled }
  | @skipRoot v rest entered left hv =>
    exact {
      nodup := h.nodup
      perm := h.perm
      known := h.known
      reached := h.reached
      covered := fun r hr hrv => by
        rcases h.covered r hr hrv with he | hm
        · exact Or.inl he
        · rcases List.mem_cons.1 hm with rfl | hm
          · exact Or.inl (hv hrv)
          · exact Or.inr hm
      remaining := fun r hr => h.remaining (List.mem_cons_of_mem _ hr)
      stacked := trivial
      settled := h.settled }
  | @leave u path rest entered left =>
    obtain ⟨ha, _, _, hs⟩ := h.stacked
    have hu : ∀ v, g.Arrow u v → v ∈ left := fun v hv => by
      rcases ha v hv with hp | hl | hf
      · cases hp
      · exact hl
      · cases hf
    exact {
      nodup := h.nodup
      perm := h.perm.trans List.perm_middle.symm
      known := h.known
      reached := h.reached
      covered := h.covered
      remaining := h.remaining
      stacked := by
        -- the arrow that was followed from the next place leads to a vertex that is left from now on
        match path, hs with
        | [], _ => trivial
        | ⟨t, pending⟩ :: path, ⟨ha, hp, _, hs⟩ =>
          refine ⟨fun v hv => ?_, hp, fun _ e => (nomatch e), hs.mono fun _ => List.mem_cons_of_mem _⟩
          rcases ha v hv with hv | hv | hv
          · exact Or.inl hv
          · exact Or.inr (Or.inl (List.mem_cons_of_mem _ hv))
          · cases hv
            exact Or.inr (Or.inl List.mem_cons_self)
      settled := ⟨hu, h.settled⟩ }
  | @enter u v pending path rest entered left hp hv he =>
    obtain ⟨ha, hq, _, hs⟩ := h.stacked
    have huv : g.Arrow u v := hq v List.mem_cons_self
    have hu : u ∈ entered := h.mem_entered.2 (Or.inl List.mem_cons_self)
    exact {
      nodup := List.nodup_cons.2 ⟨he, h.nodup⟩
      perm := h.perm.cons v
      known := List.forall_mem_cons.2 ⟨hv, h.known⟩
      reached := by
        obtain ⟨r, hr, hrv, hru⟩ := h.reached u hu
        exact List.forall_mem_cons.2 ⟨⟨r, hr, hrv, hru.tail huv⟩, h.reached⟩
      covered := fun r hr hrv => (h.covered r hr hrv).imp_left (List.mem_cons_of_mem _)
      remaining := h.remaining
      stacked := by
        refine ⟨fun _ ha => Or.inl ha, fun _ ha => ha, fun _ e => (nomatch e), fun w hw => ?_,
          fun w hw => hq w (List.mem_cons_of_mem _ hw), fun w e => Option.some.inj e ▸ huv, hs⟩
        rcases ha w hw with hw | hw | hw
        · rcases List.mem_cons.1 hw with rfl | hw
          · exact Or.inr (Or.inr rfl)
          · exact Or.inl hw
        · exact Or.inr (Or.inl hw)
        · cases hw
      settled := h.settled }
  | @skip u v pending path rest entered left hp hv =>
    obtain ⟨ha, hq, _, hs⟩ := h.stacked
    -- a vertex that was entered and is no place of the path has been left
    have hvl : v ∈ left := by
      have hve : v ∈ entered := hv (g.arrow_iff.1 (hq v List.mem_cons_self)).2
      exact (h.mem_entered.1 hve).resolve_left hp
    exact {
      nodup := h.nodup
      perm := h.perm
      known := h.known
      reached := h.reached
      covered := h.covered
      remaining := h.remaining
      stacked := by
        refine ⟨fun w hw => ?_, fun w hw => hq w (List.mem_cons_of_mem _ hw), fun _ e => (nomatch e), hs⟩
        rcases ha w hw with hw | hw | hw
        · rcases List.mem_cons.1 hw with rfl | hw
          · exact Or.inr (Or.inl hvl)
          · exact Or.inl hw
        · exact Or.inr (Or.inl hw)
        · cases hw
      settled := h.settled }

variable (g) in
theorem explored_run (roots : List α) :
    match g.sorting.run (.ofRoots roots) with
    | .ok w => g.Explored roots w ∧ g.sorting.step w = .finished
    | .error cycle => ∃ w, g.Explored roots w ∧ g.sorting.step w = .blocked cycle := by
  have hkept : ∀ w w', g.sorting.step w = .going w' → g.Explored roots w → g.Explored roots w' :=
    fun _ _ hs => Explored.moves (g.moves_of_step hs)
  have hrun := g.sorting.run_induction hkept (explored_ofRoots roots)
  cases hw : g.sorting.run (.ofRoots roots) with
  | ok w =>
    rw [hw] at hrun
    exact hrun
  | error cycle =>
    rw [hw] at hrun
    exact hrun

theorem explored_of_run {roots : List α} {w : Walk α} (h : g.sorting.run (.ofRoots roots) = .ok w) :
    g.Explored roots w ∧ w.path = [] ∧ w.roots = [] := by
  have hrun := g.explored_run roots
  rw [h] at hrun
  exact ⟨hrun.1, g.ended_of_step hrun.2⟩

theorem mem_left_of_run {roots : List α} {w : Walk α} (h : g.sorting.run (.ofRoots roots) = .ok w) {v : α} :
    v ∈ w.left ↔ ∃ r ∈ roots, r ∈ g.vertices ∧ ReflTransGen g.Arrow r v := by
  obtain ⟨hw, hp, hr⟩ := explored_of_run h
  have hmem : ∀ {v}, v ∈ w.entered ↔ v ∈ w.left := by simp [hw.mem_entered, Walk.places, hp]
  constructor
  · intro hv
    exact hw.reached v (hmem.2 hv)
  · intro hv
    obtain ⟨r, hrr, hrv, hreach⟩ := hv
    have hre : r ∈ w.entered := (hw.covered r hrr hrv).resolve_right (by simp [hr])
    exact hw.settled.mem_of_reachable (hmem.1 hre) hreach

theorem left_nodup_of_run {roots : List α} {w : Walk α} (h : g.sorting.run (.ofRoots roots) = .ok w) :
    w.left.Nodup := by
  obtain ⟨hw, hp, _⟩ := explored_of_run h
  have hperm := hw.perm
  rw [Walk.places, hp, List.map_nil, List.nil_append] at hperm
  exact hperm.nodup_iff.1 hw.nodup

theorem cycle_of_run {roots cycle : List α} (h : g.sorting.run (.ofRoots roots) = .error cycle) :
    ∃ r ∈ roots, r ∈ g.vertices ∧ ∃ v, ReflTransGen g.Arrow r v ∧ TransGen g.Arrow v v := by
  have hrun := g.explored_run roots
  rw [h] at hrun
  obtain ⟨w, hw, hstep⟩ := hrun
  obtain ⟨u, v, pending, path, hpath, hv, _⟩ := g.blocked_of_step hstep
  obtain ⟨r, hr, hrv, hreach⟩ := hw.reached v (hw.mem_entered.2 (Or.inl hv))
  have hs := hw.stacked
  rw [hpath] at hs
  obtain ⟨_, hp, _, hs⟩ := hs
  have huv : g.Arrow u v := hp v List.mem_cons_self
  rw [Walk.places, hpath] at hv
  refine ⟨r, hr, hrv, v, hreach, ?_⟩
  rcases List.mem_cons.1 hv with rfl | hv
  · exact .single huv
  · exact (hs.reachable hv).tail huv

variable (g) in
theorem run_error_iff (roots : List α) :
    (∃ cycle, g.sorting.run (.ofRoots roots) = .error cycle) ↔
      ∃ r ∈ roots, r ∈ g.vertices ∧ ∃ v, ReflTransGen g.Arrow r v ∧ TransGen g.Arrow v v := by
  constructor
  · intro herror
    obtain ⟨_, h⟩ := herror
    exact cycle_of_run h
  · intro hcyclic
    obtain ⟨r, hr, hrv, v, hreach, hcycle⟩ := hcyclic
    cases h : g.sorting.run (.ofRoots roots) with
    | error cycle => exact ⟨cycle, rfl⟩
    | ok w =>
      have hv : v ∈ w.left := (mem_left_of_run h).2 ⟨r, hr, hrv, hreach⟩
      exact absurd hcycle ((explored_of_run h).1.settled.acyclic (left_nodup_of_run h) hv)

theorem vertex_of_transGen {u v : α} (h : TransGen g.Arrow u v) : v ∈ g.vertices := by
  cases h with
  | single ha => exact (g.arrow_iff.1 ha).2
  | tail _ ha => exact (g.arrow_iff.1 ha).2

theorem order_error_iff : (∃ cycle, g.order = .error cycle) ↔ ∃ v, TransGen g.Arrow v v := by
  have hrun := g.run_error_iff g.vertices
  have hmap : (∃ cycle, g.order = .error cycle) ↔ ∃ cycle, g.sorting.run (.ofRoots g.vertices) = .error cycle := by
    rw [order]
    cases g.sorting.run (.ofRoots g.vertices) <;> simp [Except.map]
  rw [hmap, hrun]
  constructor
  · intro hcyclic
    obtain ⟨_, _, _, v, _, hv⟩ := hcyclic
    exact ⟨v, hv⟩
  · intro hcyclic
    obtain ⟨v, hv⟩ := hcyclic
    have hmem := vertex_of_transGen hv
    exact ⟨v, hmem, hmem, v, .refl, hv⟩

theorem mem_vertices_of_order_error {cycle : List α} (h : g.order = .error cycle) : ∀ v ∈ cycle, v ∈ g.vertices := by
  have hrun := g.explored_run g.vertices
  cases hg : g.sorting.run (.ofRoots g.vertices) with
  | ok w => simp [order, hg, Except.map] at h
  | error cycle' =>
    simp only [order, hg, Except.map, Except.error.injEq] at h
    subst h
    rw [hg] at hrun
    obtain ⟨w, hw, hstep⟩ := hrun
    obtain ⟨u, v, pending, path, _, hv, rfl⟩ := g.blocked_of_step hstep
    have hplaces : ∀ x ∈ w.places, x ∈ g.vertices := fun x hx => hw.known x (hw.mem_entered.2 (Or.inl hx))
    intro x hx
    simp only [cycleThrough, List.mem_cons, List.mem_append, List.mem_reverse, List.not_mem_nil, or_false] at hx
    rcases hx with rfl | hx | rfl
    · exact hplaces _ hv
    · exact hplaces x ((List.takeWhile_sublist _).subset hx)
    · exact hplaces _ hv

theorem order_spec {l : List α} (h : g.order = .ok l) :
    l.Nodup ∧ (∀ v, v ∈ l ↔ v ∈ g.vertices) ∧
      ∀ u v, u ∈ g.vertices → g.Arrow u v → l.idxOf u < l.idxOf v := by
  cases hrun : g.sorting.run (.ofRoots g.vertices) with
  | error cycle => simp [order, hrun, Except.map] at h
  | ok w =>
    simp only [order, hrun, Except.map, Except.ok.injEq] at h
    subst h
    have hw := (explored_of_run hrun).1
    have hmem : ∀ v, v ∈ w.left ↔ v ∈ g.vertices := by
      intro v
      constructor
      · intro hv
        exact hw.known v (hw.mem_entered.2 (Or.inr hv))
      · intro hv
        exact (mem_left_of_run hrun).2 ⟨v, hv, hv, .refl⟩
    refine ⟨left_nodup_of_run hrun, hmem, ?_⟩
    intro u v hu ha
    exact hw.settled.idxOf_lt (left_nodup_of_run hrun) ((hmem u).2 hu) ha

end Graph

end ClassDiagram
