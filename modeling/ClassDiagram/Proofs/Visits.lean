import ClassDiagram.Proofs.ReportedCycles
import Mathlib.Data.List.Perm.Subperm

/-! A search visits each vertex at most once. It ends on every graph, since with each visit that begins there are fewer
vertices that have not been visited yet, and its path is never longer than there are vertices. -/

namespace ClassDiagram

def begun {α : Type} (before after : List α) : List α := after.take (after.length - before.length)

def unvisited {α : Type} [DecidableEq α] (vertices visits : List α) : List α := vertices.filter (· ∉ visits)

/-- What a search can come to from `w₀`, with the visits that it has begun, latest first. -/
inductive Search.Visits {α σ : Type} (S : Search α σ) (w₀ : σ) : List α → σ → Prop
  | start : Visits S w₀ (S.places w₀) w₀
  | step {visits : List α} {w w' : σ} (h : Visits S w₀ visits w) (hs : S.step w = .going w') :
      Visits S w₀ (begun (S.places w) (S.places w') ++ visits) w'

variable {α σ : Type} {S : Search α σ} {w₀ w w' : σ} {vertices visits visits' places places' : List α} {v : α}

theorem begun_cons (v : α) (places : List α) : begun places (v :: places) = [v] := by
  have hlength : (v :: places).length - places.length = 1 := by
    rw [List.length_cons]
    omega
  rw [begun, hlength]
  rfl

theorem begun_of_suffix (h : places' <:+ places) : begun places places' = [] := by
  rw [begun, Nat.sub_eq_zero_of_le h.length_le, List.take_zero]

theorem Search.Visits.exists_run (h : S.Visits w₀ visits w) : ∃ visits' w', S.Visits w₀ visits' w' ∧
    match S.run w with
    | .ok last => S.step w' = .finished ∧ last = w'
    | .error cycle => S.step w' = .blocked cycle := by
  fun_induction S.run w generalizing visits with
  | case1 w hs => exact ⟨visits, w, h, hs, rfl⟩
  | case2 w cycle hs => exact ⟨visits, w, h, hs⟩
  | case3 w w' hs ih => exact ih (h.step hs)

variable [DecidableEq α]

/-- From one path and the visits up to then to the next: a vertex is visited for the first time, which leaves fewer to
be visited, or no visit begins and the path gets no longer. -/
inductive Advances (vertices : List α) : List α → List α → List α → List α → Prop
  | visit {v : α} {places visits : List α} (hnew : v ∉ visits)
      (hfewer : (unvisited vertices (v :: visits)).length < (unvisited vertices visits).length) :
      Advances vertices places visits (v :: places) (v :: visits)
  | linger {places places' visits : List α} (hplaces : places' <:+ places) :
      Advances vertices places visits places' visits

namespace Graph

/-- A path of distinct vertices that lead to one another and have been visited, each once. -/
structure Orderly (g : Graph α) (vertices visits places : List α) : Prop where
  once : visits.Nodup
  known : visits ⊆ vertices
  distinct : places.Nodup
  chain : places.reverse.IsChain g.Arrow
  visited : places ⊆ visits
  bounded : places.length + (unvisited vertices visits).length ≤ vertices.length

/--
At any time of a search its path is orderly and it knows certain things about its visits, and at last it is finished,
and its answer is gathered from where it stands, or it is blocked by a cycle, which is the answer.
-/
structure Searches (g : Graph α) (S : Search α σ) (w₀ : σ) (vertices : List α) (Knows : List α → σ → Prop)
    (gather : σ → List α) (answer : Except (List α) (List α)) : Prop where
  orderly : ∀ visits w, S.Visits w₀ visits w → g.Orderly vertices visits (S.places w)
  advances : ∀ visits w w', S.Visits w₀ visits w → S.step w = .going w' →
    Advances vertices (S.places w) visits (S.places w') (begun (S.places w) (S.places w') ++ visits)
  knows : ∀ visits w, S.Visits w₀ visits w → Knows visits w
  ends : ∃ visits w, S.Visits w₀ visits w ∧
    match answer with
    | .ok l => S.step w = .finished ∧ l = gather w
    | .error cycle => S.step w = .blocked cycle

/-- The path begins with the start, which is visited but not collected; all else that is visited is collected then. -/
structure Collects {g : Graph α} (start : α) (visits : List α) (p : g.Pursuit) : Prop where
  rooted : p.places.reverse.head? = some start
  spared : start ∉ p.result
  collected : ∀ v ∈ p.places, v ≠ start → v ∈ p.result
  visits_eq : visits = p.result ++ [start]

/-- What has been visited counts as entered. It is on the path or has been left, but not both. -/
structure Emits (visits : List α) (w : Walk α) : Prop where
  entered : w.entered = visits
  mem_visits : ∀ v, v ∈ visits ↔ v ∈ w.places ∨ v ∈ w.left
  disjoint : w.places.Disjoint w.left
  leftOnce : w.left.Nodup

/-- The search for a closure visits vertices and the start, which need not be one of them. -/
def Closes (g : Graph α) (start : α) : Except (List α) (List α) → Prop :=
  g.Searches g.collecting (g.pursue start) (g.vertices.insert start) (Collects start) fun p => p.result.reverse

def Orders (g : Graph α) : Except (List α) (List α) → Prop :=
  g.Searches g.sorting (.ofRoots g.vertices) g.vertices Emits Walk.left

end Graph

theorem length_unvisited_cons_lt (hv : v ∈ vertices) (hnew : v ∉ visits) :
    (unvisited vertices (v :: visits)).length < (unvisited vertices visits).length := by
  have hsplit : unvisited vertices (v :: visits) = (unvisited vertices visits).filter (· ≠ v) := by
    simp only [unvisited, List.filter_filter, List.mem_cons, not_or, Bool.decide_and]
  have hmem : v ∈ unvisited vertices visits := List.mem_filter.2 ⟨hv, decide_eq_true hnew⟩
  rw [hsplit]
  exact List.length_filter_lt_length_iff_exists.2 ⟨v, hmem, by simp⟩

theorem length_add_length_unvisited_le (hplaces : places.Nodup) (hvisited : places ⊆ visits)
    (hknown : visits ⊆ vertices) : places.length + (unvisited vertices visits).length ≤ vertices.length := by
  have hsub : places ⊆ vertices.filter (· ∈ visits) := fun v hv =>
    List.mem_filter.2 ⟨hknown (hvisited hv), decide_eq_true (hvisited hv)⟩
  have hle := (hplaces.subperm hsub).length_le
  have hsplit := List.length_eq_length_filter_add (l := vertices) (decide <| · ∈ visits)
  simp only [← decide_not] at hsplit
  unfold unvisited
  omega

theorem Advances.of_mem (hv : v ∈ vertices) (hnew : v ∉ visits) :
    Advances vertices places visits (v :: places) (v :: visits) :=
  .visit hnew (length_unvisited_cons_lt hv hnew)

theorem Advances.begun_append (h : Advances vertices places visits places' visits') :
    begun places places' ++ visits = visits' := by
  cases h with
  | visit => rw [begun_cons, List.singleton_append]
  | linger hplaces => rw [begun_of_suffix hplaces, List.nil_append]

theorem Search.Visits.account {I : σ → Prop} {account : σ → List α} (hstart : I w₀)
    (haccount : account w₀ = S.places w₀)
    (hstep : ∀ w w', S.step w = .going w' → I w → I w' ∧
      Advances vertices (S.places w) (account w) (S.places w') (account w'))
    (h : S.Visits w₀ visits w) : I w ∧ visits = account w := by
  -- the visits are told by the state, so an invariant of the step speaks of both
  induction h with
  | start => exact ⟨hstart, haccount.symm⟩
  | step _ hs ih =>
    obtain ⟨hw, rfl⟩ := ih
    obtain ⟨hw', hadvances⟩ := hstep _ _ hs hw
    exact ⟨hw', hadvances.begun_append⟩

theorem Graph.Searches.of_account {g : Graph α} {I : σ → Prop} (account : σ → List α) {Knows : List α → σ → Prop}
    {gather : σ → List α} (hstart : I w₀) (haccount : account w₀ = S.places w₀)
    (hstep : ∀ w w', S.step w = .going w' → I w → I w' ∧
      Advances vertices (S.places w) (account w) (S.places w') (account w'))
    (horderly : ∀ w, I w → g.Orderly vertices (account w) (S.places w)) (hknows : ∀ w, I w → Knows (account w) w) :
    g.Searches S w₀ vertices Knows gather ((S.run w₀).map gather) where
  orderly visits w h := by
    obtain ⟨hw, rfl⟩ := h.account hstart haccount hstep
    exact horderly w hw
  advances visits w w' h hs := by
    obtain ⟨hw, rfl⟩ := h.account hstart haccount hstep
    have hadvances := (hstep w w' hs hw).2
    rwa [hadvances.begun_append]
  knows visits w h := by
    obtain ⟨hw, rfl⟩ := h.account hstart haccount hstep
    exact hknows w hw
  ends := by
    have hstart : S.Visits w₀ (S.places w₀) w₀ := .start
    obtain ⟨visits, w, h, hend⟩ := hstart.exists_run
    refine ⟨visits, w, h, ?_⟩
    cases hrun : S.run w₀ with
    | ok last =>
      rw [hrun] at hend
      exact ⟨hend.1, congrArg gather hend.2⟩
    | error cycle =>
      rw [hrun] at hend
      exact hend

namespace Graph
variable {g : Graph α} {start : α} {roots : List α}

def Pursuit.visited (start : α) (p : g.Pursuit) : List α := p.result ++ [start]

theorem Pursues.advances {p p' : g.Pursuit} (hm : g.Pursues p p') (h : g.Pursued start p) :
    Advances (g.vertices.insert start) p.places (p.visited start) p'.places (p'.visited start) := by
  cases hm with
  | leave => exact .linger (List.suffix_cons _ _)
  | @enter u v pending known outer result hp hr =>
    have hv : v ∈ g.vertices.insert start := List.mem_insert_iff.2 (Or.inr (known List.mem_cons_self))
    have hne : v ≠ start := fun heq => hp (heq ▸ h.start_mem)
    have hnew : v ∉ result ++ [start] := by
      rw [List.mem_append, List.mem_singleton]
      exact not_or.2 ⟨hr, hne⟩
    exact .of_mem hv hnew
  | skip => exact .linger List.suffix_rfl

theorem Pursued.orderly {p : g.Pursuit} (h : g.Pursued start p) :
    g.Orderly (g.vertices.insert start) (p.visited start) p.places := by
  have hknown : p.visited start ⊆ g.vertices.insert start := by
    refine List.append_subset.2 ⟨fun v hv => ?_, List.cons_subset.2 ⟨List.mem_insert_self, List.nil_subset _⟩⟩
    exact List.mem_insert_of_mem (h.known hv)
  have hvisited : p.places ⊆ p.visited start := fun v hv => by
    rw [Pursuit.visited, List.mem_append, List.mem_singleton, or_comm]
    exact or_iff_not_imp_left.2 (h.collected v hv)
  have honce : (p.visited start).Nodup := by
    refine List.Nodup.append h.once (List.nodup_singleton start) ?_
    exact List.disjoint_singleton.2 h.spared
  exact ⟨honce, hknown, h.distinct, List.isChain_reverse.2 h.chain, hvisited,
    length_add_length_unvisited_le h.distinct hvisited hknown⟩

theorem Pursued.collects {p : g.Pursuit} (h : g.Pursued start p) : Collects start (p.visited start) p where
  rooted := by rw [List.head?_reverse, h.rooted]
  spared := h.spared
  collected := h.collected
  visits_eq := rfl

variable (g) in
theorem closes_closure (start : α) : g.Closes start (g.closure start) := by
  have hstep : ∀ p p', g.collecting.step p = .going p' → g.Pursued start p → g.Pursued start p' ∧
      Advances (g.vertices.insert start) p.places (p.visited start) p'.places (p'.visited start) := by
    intro p p' hs hp
    have hm := pursues_of_collect hs
    exact ⟨hp.pursues hm, hm.advances hp⟩
  have hstart : g.Pursued start (g.pursue start) := g.pursued_pursue start
  exact .of_account (Pursuit.visited start) hstart rfl hstep (fun _ hp => hp.orderly) fun _ hp => hp.collects

theorem Moves.advances {w w' : Walk α} (hm : g.Moves w w') :
    Advances g.vertices w.places w.entered w'.places w'.entered := by
  cases hm with
  | enterRoot hv he => exact .of_mem hv he
  | skipRoot => exact .linger List.suffix_rfl
  | leave => exact .linger (List.suffix_cons _ _)
  | enter hp hv he => exact .of_mem hv he
  | skip => exact .linger List.suffix_rfl

theorem Explored.orderly {w : Walk α} (h : g.Explored roots w) : g.Orderly g.vertices w.entered w.places := by
  have hnodup : (w.places ++ w.left).Nodup := h.perm.nodup_iff.1 h.nodup
  have hplaces : w.places.Nodup := (List.nodup_append.1 hnodup).1
  have hvisited : w.places ⊆ w.entered := fun v hv => h.mem_entered.2 (Or.inl hv)
  have hchain : w.places.IsChain fun u v => g.Arrow v u := by
    have hstacked := h.stacked
    match hpath : w.path with
    | [] => rw [Walk.places, hpath]; exact .nil
    | f :: path =>
      rw [hpath] at hstacked
      rw [Walk.places, hpath]
      exact hstacked.2.2.2.isChain
  exact ⟨h.nodup, h.known, hplaces, List.isChain_reverse.2 hchain, hvisited,
    length_add_length_unvisited_le hplaces hvisited h.known⟩

theorem Explored.emits {w : Walk α} (h : g.Explored roots w) : Emits w.entered w := by
  have hnodup : (w.places ++ w.left).Nodup := h.perm.nodup_iff.1 h.nodup
  exact ⟨rfl, fun _ => h.mem_entered, List.disjoint_of_nodup_append hnodup, (List.nodup_append.1 hnodup).2.1⟩

variable (g) in
theorem orders_order : g.Orders g.order := by
  have hstep : ∀ w w', g.sorting.step w = .going w' → g.Explored g.vertices w → g.Explored g.vertices w' ∧
      Advances g.vertices w.places w.entered w'.places w'.entered := by
    intro w w' hs hw
    have hm := g.moves_of_step hs
    exact ⟨hw.moves hm, hm.advances⟩
  have hstart : g.Explored g.vertices (.ofRoots g.vertices) := explored_ofRoots g.vertices
  exact .of_account Walk.entered hstart rfl hstep (fun _ hw => hw.orderly) fun _ hw => hw.emits

end Graph

/--
On every graph of classes, with or without cycles, the search for a closure and the search for an order come to an end,
visit no class twice, and never have more classes on their path than the graph has. So do those that answer for the
parents and specializations of a class and for the classes of a model.
-/
theorem searches_orderly :
    (∀ (g : Graph ClassRef) start, g.Closes start (g.closure start)) ∧
    (∀ g : Graph ClassRef, g.Orders g.order) ∧
    ∀ s : Store,
      (∀ c, s.ancestry.Closes c (s.allParents c) ∧ s.descent.Closes c (s.allSpecializations c)) ∧
      ∀ m, (s.hierarchy m).Orders (s.sortedClasses m) :=
  ⟨fun g start => g.closes_closure start, fun g => g.orders_order, fun s =>
    ⟨fun c => ⟨s.ancestry.closes_closure c, s.descent.closes_closure c⟩, fun m => (s.hierarchy m).orders_order⟩⟩

end ClassDiagram
