/-! Depth-first searches through a finite graph, one step at a time. -/

namespace ClassDiagram

/-- Arrows that lead out of `vertices` are not followed. -/
structure Graph (α : Type) where
  vertices : List α
  next : α → List α

structure Frame (α : Type) where
  vertex : α
  pending : List α

inductive Progress (α σ : Type) where
  | finished
  | blocked (cycle : List α)
  | going (w : σ)

/-- Each step leaves fewer still to come. The places are those on the way to the present one, innermost first. -/
structure Search (α σ : Type) where
  places : σ → List α
  step : σ → Progress α σ
  remaining : σ → Nat
  remaining_lt : ∀ {w w' : σ}, step w = .going w' → remaining w' < remaining w

variable {α : Type}

def Search.run {σ : Type} (S : Search α σ) (w : σ) : Except (List α) σ :=
  match _h : S.step w with
  | .finished => .ok w
  | .blocked cycle => .error cycle
  | .going w' => S.run w'
termination_by S.remaining w
decreasing_by exact S.remaining_lt _h

def Frame.untried : List (Frame α) → Nat
  | [] => 0
  | f :: path => f.pending.length + 1 + untried path

@[simp] theorem Frame.untried_cons (f : Frame α) (path : List (Frame α)) :
    untried (f :: path) = f.pending.length + 1 + untried path := rfl

namespace Graph

/-- From the first place of `v` on a path that is given innermost first, round to `v` again. -/
def cycleThrough [DecidableEq α] (v : α) (places : List α) : List α :=
  v :: ((places.takeWhile (· ≠ v)).reverse ++ [v])

variable [DecidableEq α] (g : Graph α)

def arrows (v : α) : List α := (g.next v).filter (· ∈ g.vertices)

theorem arrows_subset (v : α) : g.arrows v ⊆ g.vertices := fun _ hu =>
  of_decide_eq_true (List.mem_filter.1 hu).2

def fresh (entered : List α) : List α := g.vertices.filter fun v => !entered.contains v

def cost : List α → Nat
  | [] => 0
  | v :: vs => (g.arrows v).length + 1 + cost vs

theorem cost_cons (v : α) (vs : List α) : g.cost (v :: vs) = (g.arrows v).length + 1 + g.cost vs := rfl

theorem cost_le_of_sublist {us vs : List α} (h : us.Sublist vs) : g.cost us ≤ g.cost vs := by
  induction h with
  | slnil => exact Nat.le_refl _
  | cons v _ ih => rw [cost_cons]; omega
  | cons_cons v _ ih => rw [cost_cons, cost_cons]; omega

theorem cost_filter_add_le {v : α} {vs : List α} (hv : v ∈ vs) :
    g.cost (vs.filter fun u => !u == v) + ((g.arrows v).length + 1) ≤ g.cost vs := by
  induction vs with
  | nil => simp at hv
  | cons u vs ih =>
    by_cases h : u = v
    · subst h
      have := g.cost_le_of_sublist (List.filter_sublist (p := fun w => !w == u) (l := vs))
      simp only [List.filter_cons, beq_self_eq_true, Bool.not_true, cost_cons]
      simp only [Bool.false_eq_true, if_false]
      omega
    · have := ih ((List.mem_cons.1 hv).resolve_left fun e => h e.symm)
      have hb : (!u == v) = true := by simp [h]
      rw [List.filter_cons, if_pos hb, cost_cons, cost_cons]
      omega

theorem fresh_cons (v : α) (entered : List α) :
    g.fresh (v :: entered) = (g.fresh entered).filter fun u => !u == v := by
  simp [fresh, List.filter_filter, Bool.beq_eq_decide_eq]

theorem mem_fresh {v : α} {entered : List α} : v ∈ g.fresh entered ↔ v ∈ g.vertices ∧ v ∉ entered := by
  simp [fresh]

theorem cost_fresh_cons_le {v : α} {entered : List α} (hv : v ∈ g.vertices) (he : v ∉ entered) :
    g.cost (g.fresh (v :: entered)) + ((g.arrows v).length + 1) ≤ g.cost (g.fresh entered) := by
  rw [fresh_cons]
  exact g.cost_filter_add_le (g.mem_fresh.2 ⟨hv, he⟩)

end Graph

/-- The way to the present place, innermost first, and the vertices entered and left, latest first. -/
structure Walk (α : Type) where
  path : List (Frame α)
  roots : List α
  entered : List α
  left : List α

namespace Walk

def ofRoots (roots : List α) : Walk α := ⟨[], roots, [], []⟩

def places (w : Walk α) : List α := w.path.map Frame.vertex

end Walk

namespace Graph
variable [DecidableEq α] (g : Graph α)

def enter (w : Walk α) (v : α) : Walk α :=
  { w with path := ⟨v, g.arrows v⟩ :: w.path, entered := v :: w.entered }

/-- An arrow back into the path is a cycle, even before its end counts as entered. -/
def step (w : Walk α) : Progress α (Walk α) :=
  match w.path with
  | [] =>
    match w.roots with
    | [] => .finished
    | v :: roots =>
      if v ∈ g.vertices ∧ v ∉ w.entered then .going (g.enter { w with roots } v)
      else .going { w with roots }
  | ⟨u, []⟩ :: path => .going { w with path, left := u :: w.left }
  | ⟨u, v :: pending⟩ :: path =>
    if v ∈ w.places then .blocked (cycleThrough v w.places)
    else if v ∈ g.vertices ∧ v ∉ w.entered then
      .going (g.enter { w with path := ⟨u, pending⟩ :: path } v)
    else .going { w with path := ⟨u, pending⟩ :: path }

def remaining (w : Walk α) : Nat := g.cost (g.fresh w.entered) + Frame.untried w.path + w.roots.length

theorem remaining_enter_le {w : Walk α} {v : α} (hv : v ∈ g.vertices) (he : v ∉ w.entered) :
    g.remaining (g.enter w v) ≤ g.remaining w := by
  have := g.cost_fresh_cons_le hv he
  simp only [remaining, enter, Frame.untried_cons]
  omega

theorem remaining_lt_of_step {w w' : Walk α} (h : g.step w = .going w') :
    g.remaining w' < g.remaining w := by
  obtain ⟨path, roots, entered, left⟩ := w
  match path, roots with
  | [], [] => simp [step] at h
  | [], v :: roots =>
    by_cases hv : v ∈ g.vertices ∧ v ∉ entered
    · simp only [step, hv, not_false_eq_true, and_self, if_true, Progress.going.injEq] at h
      subst h
      refine Nat.lt_of_le_of_lt (g.remaining_enter_le hv.1 hv.2) ?_
      simp [remaining]
    · simp only [step, hv, if_false, Progress.going.injEq] at h
      subst h
      simp [remaining]
  | ⟨u, []⟩ :: path, roots =>
    simp only [step, Progress.going.injEq] at h
    subst h
    simp only [remaining, Frame.untried_cons, List.length_nil]
    omega
  | ⟨u, v :: pending⟩ :: path, roots =>
    by_cases hp : v ∈ (⟨⟨u, v :: pending⟩ :: path, roots, entered, left⟩ : Walk α).places
    · simp [step, hp] at h
    · by_cases hv : v ∈ g.vertices ∧ v ∉ entered
      · simp only [step, hp, hv, not_false_eq_true, and_self, if_true, if_false,
          Progress.going.injEq] at h
        subst h
        refine Nat.lt_of_le_of_lt (g.remaining_enter_le hv.1 hv.2) ?_
        simp only [remaining, Frame.untried_cons, List.length_cons]
        omega
      · simp only [step, hp, hv, if_false, Progress.going.injEq] at h
        subst h
        simp only [remaining, Frame.untried_cons, List.length_cons]
        omega

def sorting : Search α (Walk α) where
  places := Walk.places
  step := g.step
  remaining := g.remaining
  remaining_lt := g.remaining_lt_of_step

/-- The vertices with every arrow pointing forward; a cycle is an error. -/
def order : Except (List α) (List α) :=
  (g.sorting.run (.ofRoots g.vertices)).map Walk.left

/-- A place of a path from which the arrows still to be tried lead to vertices. -/
structure Place (g : Graph α) extends Frame α where
  known : pending ⊆ g.vertices

def place (v : α) : g.Place := ⟨⟨v, g.arrows v⟩, g.arrows_subset v⟩

/-- The present place, the places on the way to it, innermost first, and what has been collected, latest first. -/
structure Pursuit (g : Graph α) where
  here : g.Place
  outer : List g.Place
  result : List α

def Pursuit.places {g : Graph α} (p : g.Pursuit) : List α := p.here.vertex :: p.outer.map (·.vertex)

def pursue (start : α) : g.Pursuit := ⟨g.place start, [], []⟩

/-- The start is never collected, so nothing but the path keeps it from being come to again. -/
def collect (p : g.Pursuit) : Progress α g.Pursuit :=
  match p with
  | ⟨⟨⟨_, []⟩, _⟩, [], _⟩ => .finished
  | ⟨⟨⟨_, []⟩, _⟩, f :: outer, result⟩ => .going ⟨f, outer, result⟩
  | ⟨⟨⟨u, v :: pending⟩, known⟩, outer, result⟩ =>
    if v ∈ p.places then .blocked (cycleThrough v p.places)
    else if v ∈ result then .going ⟨⟨⟨u, pending⟩, List.subset_of_cons_subset known⟩, outer, result⟩
    else .going ⟨g.place v, ⟨⟨u, pending⟩, List.subset_of_cons_subset known⟩ :: outer, v :: result⟩

def untaken (p : g.Pursuit) : Nat :=
  g.cost (g.fresh p.result) + Frame.untried ((p.here :: p.outer).map (·.toFrame))

theorem untaken_lt_of_collect {p p' : g.Pursuit} (h : g.collect p = .going p') : g.untaken p' < g.untaken p := by
  match p with
  | ⟨⟨⟨_, []⟩, _⟩, [], _⟩ => cases h
  | ⟨⟨⟨_, []⟩, _⟩, f :: outer, result⟩ =>
    cases h
    simp only [untaken, List.map_cons, Frame.untried_cons, List.length_nil]
    omega
  | ⟨⟨⟨u, v :: pending⟩, known⟩, outer, result⟩ =>
    simp only [collect] at h
    split at h
    · cases h
    split at h <;> cases h
    · simp only [untaken, List.map_cons, Frame.untried_cons, List.length_cons]
      omega
    · next hresult =>
      have hcost := g.cost_fresh_cons_le (known List.mem_cons_self) hresult
      simp only [untaken, place, List.map_cons, Frame.untried_cons, List.length_cons]
      omega

def collecting : Search α g.Pursuit where
  places := Pursuit.places
  step := g.collect
  remaining := g.untaken
  remaining_lt := g.untaken_lt_of_collect

/-- The vertices that paths from `start` lead to, as they are met; a cycle on the way is an error. -/
def closure (start : α) : Except (List α) (List α) :=
  (g.collecting.run (g.pursue start)).map fun p => p.result.reverse

end Graph

end ClassDiagram
