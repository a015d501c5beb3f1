import ClassDiagram.Proofs.DepthFirst

/-! Arrows that are repeated change nothing: a walk through a graph is followed, under other names for the vertices, by
the walk through a graph with the same arrows that has each of them less often. -/

namespace ClassDiagram.Graph
variable {α β : Type} {f : α → β}

/-- The second list has the images of the first, in order, but for some of members that are done with by their turn. -/
inductive Thins (f : α → β) : (α → Prop) → List α → List β → Prop
  | nil {done : α → Prop} : Thins f done [] []
  | keep {done : α → Prop} {v : α} {l : List α} {l' : List β} (h : Thins f (fun u => done u ∨ u = v) l l') :
      Thins f done (v :: l) (f v :: l')
  | drop {done : α → Prop} {v : α} {l : List α} {l' : List β} (hv : done v) (h : Thins f done l l') :
      Thins f done (v :: l) l'

inductive Traces (f : α → β) (left : List α) : Option α → List (Frame α) → List (Frame β) → Prop
  | nil {followed : Option α} : Traces f left followed [] []
  | cons {followed : Option α} {u : α} {pending : List α} {pending' : List β} {path : List (Frame α)}
      {path' : List (Frame β)} (hpending : Thins f (fun v => v ∈ left ∨ followed = some v) pending pending')
      (hpath : Traces f left (some u) path path') :
      Traces f left followed (⟨u, pending⟩ :: path) (⟨f u, pending'⟩ :: path')

structure Shadows (f : α → β) (w : Walk α) (w' : Walk β) : Prop where
  path : Traces f w.left none w.path w'.path
  roots : w'.roots = w.roots.map f
  entered : w'.entered = w.entered.map f
  left : w'.left = w.left.map f

theorem Thins.mono {done done' : α → Prop} {l : List α} {l' : List β} (h : Thins f done l l')
    (hdone : ∀ v, done v → done' v) : Thins f done' l l' := by
  induction h generalizing done' with
  | nil => exact .nil
  | keep _ ih => exact .keep (ih fun v => Or.imp_left (hdone v))
  | drop hv _ ih => exact .drop (hdone _ hv) (ih hdone)

theorem Traces.mono {left left' : List α} {followed : Option α} {path : List (Frame α)} {path' : List (Frame β)}
    (h : Traces f left followed path path') (hleft : left ⊆ left') : Traces f left' followed path path' := by
  induction h with
  | nil => exact .nil
  | cons hpending _ ih => exact .cons (hpending.mono fun v => Or.imp_left fun hv => hleft hv) ih

theorem Traces.places {left : List α} {followed : Option α} {path : List (Frame α)} {path' : List (Frame β)}
    (h : Traces f left followed path path') : path'.map Frame.vertex = (path.map Frame.vertex).map f := by
  induction h with
  | nil => rfl
  | cons _ _ ih => rw [List.map_cons, ih]; rfl

theorem Traces.leave {left : List α} {u : α} {path : List (Frame α)} {path' : List (Frame β)}
    (h : Traces f left (some u) path path') : Traces f (u :: left) none path path' := by
  cases h with
  | nil => exact .nil
  | cons hpending hpath =>
    refine .cons (hpending.mono fun v hv => Or.inl ?_) (hpath.mono fun _ => List.mem_cons_of_mem u)
    -- the place that is left was the arrow that the place before it waited for
    rcases hv with hv | hv
    · exact List.mem_cons_of_mem u hv
    · exact Option.some.inj hv ▸ List.mem_cons_self

variable [DecidableEq α] [DecidableEq β]

/-- Vertices go by other names in the second graph, which repeats arrows less often. -/
structure Thinning (f : α → β) (g : Graph α) (g' : Graph β) : Prop where
  injective : ∀ u ∈ g.vertices, ∀ v ∈ g.vertices, f u = f v → u = v
  vertices : g'.vertices = g.vertices.map f
  arrows : ∀ u ∈ g.vertices, Thins f (fun _ => False) (g.arrows u) (g'.arrows (f u))

variable {g : Graph α} {g' : Graph β} {w w₁ : Walk α} {w' : Walk β}

theorem Thinning.mem_map_iff (h : Thinning f g g') {l : List α} (hl : ∀ u ∈ l, u ∈ g.vertices) {v : α}
    (hv : v ∈ g.vertices) : f v ∈ l.map f ↔ v ∈ l := by
  constructor
  · intro hmem
    obtain ⟨u, hu, he⟩ := List.mem_map.1 hmem
    exact h.injective u (hl u hu) v hv he ▸ hu
  · exact List.mem_map_of_mem

theorem Thinning.mem_vertices (h : Thinning f g g') {v : α} (hv : v ∈ g.vertices) : f v ∈ g'.vertices :=
  h.vertices ▸ List.mem_map_of_mem hv

theorem Thinning.cycleThrough (h : Thinning f g g') {places : List α} (hplaces : ∀ u ∈ places, u ∈ g.vertices)
    {v : α} (hv : v ∈ g.vertices) :
    Graph.cycleThrough (f v) (places.map f) = (Graph.cycleThrough v places).map f := by
  have htake : (places.map f).takeWhile (· ≠ f v) = (places.takeWhile (· ≠ v)).map f := by
    induction places with
    | nil => rfl
    | cons u places ih =>
      obtain ⟨hu, hrest⟩ := List.forall_mem_cons.1 hplaces
      by_cases he : u = v
      · simp [he]
      · have hne : f u ≠ f v := fun hf => he (h.injective u hu v hv hf)
        rw [List.map_cons, List.takeWhile_cons_of_pos (by simpa using hne),
          List.takeWhile_cons_of_pos (by simpa using he), List.map_cons, ih hrest]
  unfold Graph.cycleThrough
  rw [htake, List.map_cons, List.map_append, List.map_reverse]
  rfl

theorem Thinning.newPlace (h : Thinning f g g') {v : α} (hv : v ∈ g.vertices) {left : List α}
    {path : List (Frame α)} {path' : List (Frame β)} (hpath : Traces f left (some v) path path') :
    Traces f left none (⟨v, g.arrows v⟩ :: path) (⟨f v, g'.arrows (f v)⟩ :: path') :=
  .cons ((h.arrows v hv).mono fun _ => False.elim) hpath

theorem Explored.mem_vertices_of_place {roots : List α} (hw : g.Explored roots w) :
    ∀ u ∈ w.places, u ∈ g.vertices := fun u hu => hw.known u (hw.mem_entered.2 (Or.inl hu))

theorem Explored.mem_vertices_of_pending {roots : List α} (hw : g.Explored roots w) {u v : α} {pending : List α}
    {path : List (Frame α)} (hpath : w.path = ⟨u, v :: pending⟩ :: path) : v ∈ g.vertices := by
  have hstacked := hw.stacked
  rw [hpath] at hstacked
  exact (g.arrow_iff.1 (hstacked.2.1 v List.mem_cons_self)).2

theorem Explored.not_left_of_place {roots : List α} (hw : g.Explored roots w) {v : α} (hv : v ∈ w.places) :
    v ∉ w.left := by
  have hnodup : (w.places ++ w.left).Nodup := hw.perm.nodup_iff.1 hw.nodup
  exact fun hleft => List.disjoint_of_nodup_append hnodup hv hleft

theorem Shadows.finished (hi : Shadows f w w') (hs : g.step w = .finished) : g'.step w' = .finished := by
  obtain ⟨path', roots', entered', left'⟩ := w'
  obtain ⟨hpath, hroots⟩ := g.ended_of_step hs
  obtain ⟨htraces, hroots', _, _⟩ := hi
  rw [hpath] at htraces
  rw [hroots] at hroots'
  cases htraces
  cases hroots'
  rfl

theorem Shadows.mem_places_iff (h : Thinning f g g') (hw : g.Explored g.vertices w) (hi : Shadows f w w') {v : α}
    (hv : v ∈ g.vertices) : f v ∈ w'.places ↔ v ∈ w.places := by
  unfold Walk.places
  rw [hi.path.places]
  exact h.mem_map_iff hw.mem_vertices_of_place hv

theorem Shadows.mem_entered_iff (h : Thinning f g g') (hw : g.Explored g.vertices w) (hi : Shadows f w w') {v : α}
    (hv : v ∈ g.vertices) : f v ∈ w'.entered ↔ v ∈ w.entered := by
  rw [hi.entered]
  exact h.mem_map_iff hw.known hv

theorem Shadows.blocked (h : Thinning f g g') (hw : g.Explored g.vertices w) (hi : Shadows f w w')
    {cycle : List α} (hs : g.step w = .blocked cycle) : g'.step w' = .blocked (cycle.map f) := by
  obtain ⟨u, v, pending, path, hpath, hv, rfl⟩ := g.blocked_of_step hs
  have hvertex := hw.mem_vertices_of_pending hpath
  have hmem := (hi.mem_places_iff h hw hvertex).2 hv
  have hcycle := h.cycleThrough hw.mem_vertices_of_place hvertex
  have hplaces : w'.places = w.places.map f := hi.path.places
  rw [← hcycle, ← hplaces]
  obtain ⟨path', roots', entered', left'⟩ := w'
  have htraces := hi.path
  rw [hpath] at htraces
  cases htraces with
  | cons hpending =>
    cases hpending with
    | drop hdone => exact absurd (hdone.resolve_right nofun) (hw.not_left_of_place hv)
    | keep => exact if_pos hmem

theorem Shadows.moves (h : Thinning f g g') (hw : g.Explored g.vertices w) (hi : Shadows f w w')
    (hm : g.Moves w w₁) : Shadows f w₁ w' ∨ ∃ w₁', g'.step w' = .going w₁' ∧ Shadows f w₁ w₁' := by
  have hplaces := fun v => hi.mem_places_iff h hw (v := v)
  have hknown := fun v => hi.mem_entered_iff h hw (v := v)
  obtain ⟨path', roots', entered', left'⟩ := w'
  obtain ⟨hpath, hroots, hentered, hleft⟩ := hi
  cases hm with
  | @enterRoot v roots entered left hv he =>
    cases hpath
    cases hroots
    cases hentered
    have he' := mt (hknown v hv).1 he
    exact Or.inr ⟨_, if_pos ⟨h.mem_vertices hv, he'⟩, h.newPlace hv .nil, rfl, rfl, hleft⟩
  | @skipRoot v roots entered left hskip =>
    have hv := hw.remaining List.mem_cons_self
    cases hpath
    cases hroots
    have he' := (hknown v hv).2 (hskip hv)
    exact Or.inr ⟨_, if_neg fun hnot => hnot.2 he', .nil, rfl, hentered, hleft⟩
  | @leave u path roots entered left =>
    cases hpath with
    | cons hpending hrest =>
      cases hpending
      cases hleft
      exact Or.inr ⟨_, rfl, hrest.leave, hroots, hentered, rfl⟩
  | @enter u v pending path roots entered left hp hv he =>
    have hp' := mt (hplaces v hv).1 hp
    have he' := mt (hknown v hv).1 he
    cases hentered
    cases hpath with
    | @cons _ _ _ _ _ path' hpending hrest =>
      cases hpending with
      | drop hdone => exact absurd (hw.mem_entered.2 (Or.inr (hdone.resolve_right nofun))) he
      | @keep _ _ _ pending' hpending =>
        have hfollowed : Traces f left (some v) (⟨u, pending⟩ :: path) (⟨f u, pending'⟩ :: path') := by
          refine .cons (hpending.mono ?_) hrest
          rintro x ((hx | hx) | rfl)
          · exact Or.inl hx
          · exact nomatch hx
          · exact Or.inr rfl
        exact Or.inr ⟨_, (if_neg hp').trans (if_pos ⟨h.mem_vertices hv, he'⟩), h.newPlace hv hfollowed, hroots, rfl,
          hleft⟩
  | @skip u v pending path roots entered left hp hskip =>
    have hv : v ∈ g.vertices := hw.mem_vertices_of_pending rfl
    have hp' := mt (hplaces v hv).1 hp
    have he' := (hknown v hv).2 (hskip hv)
    cases hpath with
    | @cons _ _ _ _ _ path' hpending hrest =>
      cases hpending with
      | drop hdone hpending => exact Or.inl ⟨.cons hpending hrest, hroots, hentered, hleft⟩
      | @keep _ _ _ pending' hpending =>
        -- what was entered and is no place any more has been left
        have hvleft : v ∈ left := (hw.mem_entered.1 (hskip hv)).resolve_left hp
        have hskipped : Traces f left none (⟨u, pending⟩ :: path) (⟨f u, pending'⟩ :: path') := by
          refine .cons (hpending.mono ?_) hrest
          rintro x (hx | rfl)
          · exact hx
          · exact Or.inl hvleft
        exact Or.inr ⟨_, (if_neg hp').trans (if_neg fun hnot => hnot.2 he'), hskipped, hroots, hentered, hleft⟩

theorem Shadows.run (h : Thinning f g g') (hw : g.Explored g.vertices w) (hi : Shadows f w w') :
    match g.sorting.run w with
    | .ok w₁ => ∃ w₁', g'.sorting.run w' = .ok w₁' ∧ Shadows f w₁ w₁'
    | .error cycle => g'.sorting.run w' = .error (cycle.map f) := by
  fun_induction g.sorting.run w generalizing w' with
  | case1 w hs => exact ⟨w', g'.sorting.run_of_finished (hi.finished hs), hi⟩
  | case2 w cycle hs => exact g'.sorting.run_of_blocked (hi.blocked h hw hs)
  | case3 w w₁ hs ih =>
    have hm := g.moves_of_step hs
    rcases hi.moves h hw hm with hi₁ | ⟨w₁', hs', hi₁⟩
    · exact ih (hw.moves hm) hi₁
    · rw [g'.sorting.run_of_going hs']
      exact ih (hw.moves hm) hi₁

theorem Thinning.order (h : Thinning f g g') :
    (∀ l, g.order = .ok l → g'.order = .ok (l.map f)) ∧
      ∀ cycle, g.order = .error cycle → g'.order = .error (cycle.map f) := by
  have hstart : Shadows f (.ofRoots g.vertices) (.ofRoots g'.vertices) := ⟨.nil, h.vertices, rfl, rfl⟩
  have hrun := hstart.run h (explored_ofRoots g.vertices)
  unfold Graph.order
  cases hg : g.sorting.run (.ofRoots g.vertices) with
  | error cycle =>
    rw [hg] at hrun
    refine ⟨nofun, fun cycle' he => ?_⟩
    cases he
    rw [hrun]
    rfl
  | ok w =>
    rw [hg] at hrun
    obtain ⟨w', hrun', hi⟩ := hrun
    refine ⟨fun l hl => ?_, nofun⟩
    cases hl
    rw [hrun', Except.map, hi.left]

end ClassDiagram.Graph
