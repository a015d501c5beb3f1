import ClassDiagram.Proofs.Chronicle
import Mathlib.Data.List.Sort

/-! The numbers of elements tell the order in which they were begun, those that came to nothing included. -/

namespace ClassDiagram
open Edit

namespace Edit

theorem ensures_true {α : Type} (x : Edit α) (s : Store) : x.Ensures s (fun _ _ => True) fun _ _ => True := by
  unfold Ensures
  split <;> trivial

theorem declares_resolve {kind : Kind} {r : Ref kind} {source : TypeSource} {k : TypeRef → Edit (Ref kind)} (s : Store)
    (hk : ∀ t s', (k t).Ensures s' (fun _ s'' => s''.declaredType? r.element = some t) fun _ _ => True) :
    (resolve source >>= k).Ensures s
      (fun _ s' => ∀ kind' ∈ source.begins,
        (s'.declaredType? r.element).map TypeRef.element = some ⟨kind', s.created + 1⟩)
      fun _ _ => True := by
  have hresolve := (begins_resolve source s).mono (fun _ _ h => h.2) fun _ _ _ => trivial
  refine hresolve.bind fun t s' ht => (hk t s').mono (fun _ s'' hdeclared kind' hkind => ?_) fun _ _ => id
  rw [hdeclared, Option.map_some, ht kind' hkind]

theorem declares_typed {kind : Kind} {source : TypeSource} {name : Value} {o : NamedOptions}
    {k : Ref kind × Label → Edit (Ref kind)} (s : Store)
    (hk : ∀ r l s', (k (r, l)).Ensures s'
      (fun _ s'' => ∀ kind' ∈ source.begins,
        (s''.declaredType? r.element).map TypeRef.element = some ⟨kind', s'.created + 1⟩)
      fun _ _ => True) :
    (beginElement kind name o >>= k).Ensures s
      (fun _ s' => ∀ kind' ∈ source.beginsFor kind name o,
        (s'.declaredType? ⟨kind, s.created + 1⟩).map TypeRef.element = some ⟨kind', s.created + 2⟩)
      fun _ _ => True := by
  refine ensures_beginElement_bind (fun l hl => ?_) fun _ _ => trivial
  have hbegins : source.beginsFor kind name o = source.begins := by rw [TypeSource.beginsFor, hl]
  rw [hbegins]
  exact hk ⟨s.created + 1⟩ l _

theorem declares_createProperty (name : Value) (type : TypeSource) (o : PropertyOptions) (s : Store) :
    (createProperty name type o).Ensures s
      (fun _ s' => ∀ kind ∈ type.beginsFor .property name o.toNamedOptions,
        (s'.declaredType? ⟨.property, s.created + 1⟩).map TypeRef.element = some ⟨kind, s.created + 2⟩)
      fun _ _ => True := by
  refine declares_typed s fun r l s' => declares_resolve s' fun t s'' => ?_
  refine (ensures_true _ _).bind fun _ _ _ => (ensures_true _ _).bind fun m s'' _ => ensures_modify_return ?_
  show some ((s''.properties.set r _).get r).type = some t
  rw [Table.get_set, if_pos rfl]

theorem declares_createParameter (name : Value) (type : TypeSource) (o : ParameterOptions) (s : Store) :
    (createParameter name type o).Ensures s
      (fun _ s' => ∀ kind ∈ type.beginsFor .parameter name o.toNamedOptions,
        (s'.declaredType? ⟨.parameter, s.created + 1⟩).map TypeRef.element = some ⟨kind, s.created + 2⟩)
      fun _ _ => True := by
  refine declares_typed s fun r l s' => declares_resolve s' fun t s'' => ensures_modify_return ?_
  show some ((s''.parameters.set r ⟨t, o.defaultValue⟩).get r).type = some t
  rw [Table.get_set, if_pos rfl]

theorem declares_createMethod (name : Value) (o : MethodOptions) (s : Store) :
    (createMethod name o).Ensures s
      (fun _ s' => ∀ kind ∈ o.type.orVoid.beginsFor .method name o.toNamedOptions,
        (s'.declaredType? ⟨.method, s.created + 1⟩).map TypeRef.element = some ⟨kind, s.created + 2⟩)
      fun _ _ => True := by
  refine declares_typed s fun r l s' => declares_resolve s' fun t s'' => ?_
  refine (ensures_true _ _).bind fun _ _ _ => (ensures_true _ _).bind fun _ s'' _ => ensures_modify_return ?_
  show some ((s''.methods.set r _).get r).type = some t
  rw [Table.get_set, if_pos rfl]

theorem declares_created {kind : Kind} {x : Edit (Ref kind)} {kinds : List Kind} {s : Store}
    (h : x.Ensures s
      (fun _ s' => ∀ kind' ∈ kinds,
        (s'.declaredType? ⟨kind, s.created + 1⟩).map TypeRef.element = some ⟨kind', s.created + 2⟩)
      fun _ _ => True) :
    Ensures (Construction.created <$> x) s
      (fun _ s' => ∀ kind₁ kind₂, kind :: kinds = [kind₁, kind₂] →
        (s'.declaredType? ⟨kind₁, s.created + 1⟩).map TypeRef.element = some ⟨kind₂, s.created + 2⟩)
      fun _ _ => True := by
  refine ensures_map.2 (h.mono (fun _ _ hdeclares kind₁ kind₂ hbegins => ?_) fun _ _ => id)
  obtain ⟨rfl, hsecond⟩ := List.cons.inj hbegins
  exact hdeclares kind₂ (hsecond ▸ List.mem_cons_self)

end Edit

theorem Construction.declares (c : Construction) (s : Store) :
    c.edit.Ensures s
      (fun _ s' => ∀ kind kind', c.begins = [kind, kind'] →
        (s'.declaredType? ⟨kind, s.created + 1⟩).map TypeRef.element = some ⟨kind', s.created + 2⟩)
      fun _ _ => True := by
  cases c with
  | property name type o => exact declares_created (declares_createProperty name type o s)
  | parameter name type o => exact declares_created (declares_createParameter name type o s)
  | method name o => exact declares_created (declares_createMethod name o s)
  | _ => exact (ensures_true _ s).mono (fun _ _ _ _ _ h => nomatch h) fun _ _ => id

theorem Command.declares (c : Command) (s : Store) :
    c.edit.Ensures s
      (fun _ s' => ∀ kind kind', c.begins = [kind, kind'] →
        (s'.declaredType? ⟨kind, s.created + 1⟩).map TypeRef.element = some ⟨kind', s.created + 2⟩)
      fun _ _ => True := by
  cases c with
  | create handle c => exact c.declares s
  | resolve source handle =>
    refine (ensures_true _ s).mono (fun _ _ _ kind kind' h => ?_) fun _ _ => id
    cases source with
    | known t => cases h
    | named v =>
      simp only [begins, TypeSource.begins] at h
      split_ifs at h
      cases h
  | _ => exact (ensures_true _ s).mono (fun _ _ _ _ _ h => nomatch h) fun _ _ => id

namespace Store

theorem pairwise_byCreation (es : List Element) : (byCreation es).Pairwise fun e f => e.order ≤ f.order :=
  List.pairwise_mergeSort' (Order.Preimage Element.order (· ≤ ·)) es

theorem byCreation_eq_of_perm {es es' : List Element} (h : es'.Perm es)
    (hinj : ∀ e ∈ es, ∀ f ∈ es, e.order = f.order → e = f) : byCreation es' = byCreation es := by
  have hsort : (byCreation es).Perm es := List.mergeSort_perm _ _
  have hsort' : (byCreation es').Perm es := (List.mergeSort_perm _ _).trans h
  refine List.Perm.eq_of_pairwise (fun e f he hf hle hge => ?_) (pairwise_byCreation es') (pairwise_byCreation es)
    (hsort'.trans hsort.symm)
  exact hinj e (hsort'.mem_iff.1 he) f (hsort.mem_iff.1 hf) (Nat.le_antisymm hle hge)

end Store

namespace Session

/-- Whatever was there has stayed, with its handle, and elements of these kinds have been begun since, in this order. -/
structure Continues (s : Session) (kinds : List Kind) (s' : Session) : Prop where
  contains : ∀ e, s.store.contains e → s'.store.contains e
  bindings : s.bindings <+: s'.bindings
  begins : s.store.Begins kinds s'.store
  later : ∀ e e', s.store.contains e → s'.store.contains e' → ¬ s.store.contains e' → e.order < e'.order

variable {s : Session}

theorem bindings_bind (s : Session) (handle : Option String) (d : Datum) :
    s.bindings <+: (s.bind handle d).bindings := by
  unfold Session.bind
  split
  · split_ifs
    · exact List.prefix_rfl
    · exact List.prefix_append _ _
  · exact List.prefix_rfl

theorem bindings_run (s : Session) (cs : List Command) : s.bindings <+: (s.run cs).bindings := by
  induction cs generalizing s with
  | nil => exact List.prefix_rfl
  | cons c cs ih =>
    refine List.IsPrefix.trans ?_ (ih (s.perform c).1)
    rcases s.perform_cases c with ⟨_, d, store, _, hp⟩ | ⟨_, f, store, _, hp⟩ | hp
    · rw [hp]
      exact bindings_bind { s with store } c.handle? d
    · exact hp ▸ List.prefix_rfl
    · exact hp ▸ List.prefix_rfl

theorem Sound.begins_perform (h : s.Sound) (c : Command) :
    s.store.Begins (if c.mentions.all s.binds then c.begins else []) (s.perform c).1.store := by
  have hclear : s.store.Begins [] { s.store with log := [] } := Store.begins_of_ledger rfl
  unfold Session.perform
  by_cases hm : c.mentions.all s.binds
  · have htells := c.tells h.clear_log.sound (h.clear_log.all (h.holds_of_mentions hm))
    rw [if_pos hm, if_pos hm]
    cases he : c.edit { s.store with log := [] } with
    | ok d store =>
      dsimp only
      rw [store_bind]
      exact hclear.trans (htells.of_ok he).1
    | error f store => exact hclear.trans (htells.of_error he)
  · rw [if_neg hm, if_neg hm]
    exact Store.begins_of_ledger rfl

theorem Sound.begins_run (h : s.Sound) (cs : List Command) : s.store.Begins (s.begins cs) (s.run cs).store := by
  induction cs generalizing s with
  | nil => exact Store.begins_of_ledger rfl
  | cons c cs ih => exact (h.begins_perform c).trans (ih (h.perform c))

theorem Sound.contains_run (h : s.Sound) (cs : List Command) {e : Element} (he : s.store.contains e) :
    (s.run cs).store.contains e :=
  h.run_induction (P := fun store => store.contains e) he (fun _ => id)
    (fun _ _ hs hc hcontains => (hc.grows hs).holds (.element e) hcontains) cs

theorem Sound.continues_run (h : s.Sound) (cs : List Command) : s.Continues (s.begins cs) (s.run cs) where
  contains _ := h.contains_run cs
  bindings := s.bindings_run cs
  begins := h.begins_run cs
  later e _ he he' hn := Nat.lt_of_le_of_lt (h.store.bounded e he) ((h.begins_run cs).lt_of_not_contains he' hn)

theorem recounts_run (ids : Nat → Uuid) (cs : List Command) :
    ((initial ids).run cs).store.Recounts (history ids cs) :=
  (Store.recounts_initial ids).begins ((sound_initial ids).begins_run cs)

theorem Sound.answer_begins (h : s.Sound) {c : Command} {d : Datum} (hd : (s.perform c).2 = .answer d) :
    (∀ kind ∈ c.begins.head?, d.item? = some (.element ⟨kind, s.store.created + 1⟩)) ∧
      ∀ kind kind', c.begins = [kind, kind'] →
        ((s.perform c).1.store.declaredType? ⟨kind, s.store.created + 1⟩).map TypeRef.element =
          some ⟨kind', s.store.created + 2⟩ := by
  rcases s.perform_cases c with ⟨hm, d', store, he, hp⟩ | ⟨_, f, store, _, hp⟩ | hp
  · rw [hp] at hd
    cases hd
    have htells := c.tells h.clear_log.sound (h.clear_log.all (h.holds_of_mentions hm))
    rw [hp, store_bind]
    exact ⟨(htells.of_ok he).2, (c.declares { s.store with log := [] }).of_ok he⟩
  · rw [hp] at hd
    cases hd
  · rw [hp] at hd
    cases hd

end Session

/--
The order of creation is a history. Whatever can be got at has a number of its own, which no later command changes and
which tells what was begun before it, refused constructions included; so sorting by it puts elements in the order in
which they were begun, however they were given.
-/
theorem order_tells_history (ids : Nat → Uuid) (cs : List Command) :
    let s := (Session.initial ids).run cs
    (∀ e, s.Accessible (.element e) → s.store.contains e ∧ e.order ≤ s.store.created) ∧
    (∀ e e', s.store.contains e → s.store.contains e' → e.order = e'.order → e = e') ∧
    s.store.Recounts (Session.history ids cs) ∧
    (∀ cs', s.Continues (s.begins cs') (s.run cs')) ∧
    (∀ c d, (s.perform c).2 = .answer d →
      (∀ kind ∈ c.begins.head?, d.item? = some (.element ⟨kind, s.store.created + 1⟩)) ∧
      ∀ kind kind', c.begins = [kind, kind'] →
        ((s.perform c).1.store.declaredType? ⟨kind, s.store.created + 1⟩).map TypeRef.element =
          some ⟨kind', s.store.created + 2⟩) ∧
    ∀ es, (∀ e ∈ es, s.store.contains e) → ∃ l, l.Perm es ∧ l.Pairwise (fun e e' => e.order ≤ e'.order) ∧
      ∀ es', es'.Perm es → (Command.sort es').edit s.store = .ok (.elements l) s.store := by
  intro s
  have hs : s.Sound := (Session.sound_initial ids).run cs
  refine ⟨fun e he => ?_, fun e e' => Store.eq_of_contains, Session.recounts_run ids cs, hs.continues_run,
    fun c d => hs.answer_begins, fun es hes => ?_⟩
  · have hcontains : s.store.contains e := hs.holds_of_accessible he
    exact ⟨hcontains, hs.store.bounded e hcontains⟩
  · refine ⟨Store.byCreation es, List.mergeSort_perm _ _, Store.pairwise_byCreation es, fun es' hperm => ?_⟩
    have hinj : ∀ e ∈ es, ∀ f ∈ es, e.order = f.order → e = f :=
      fun e he f hf => Store.eq_of_contains (hes e he) (hes f hf)
    show EStateM.Result.ok (Datum.elements (Store.byCreation es')) s.store = _
    rw [Store.byCreation_eq_of_perm hperm hinj]

theorem order_tells_history_of_refusal :
    let s := (Session.initial fun _ => ⟨0⟩).run
      [.create "p" (.property (.text "p") (.named (.text "T")) { owner := some (.type Primitive.int.type) })]
    let c : Command := .create "q" (.parameter (.text "q") (.named (.text "T")) {})
    s.store.Recounts (List.replicate 8 .primitiveType ++ [.property, .plainType]) ∧
      s.store.contains ⟨.plainType, 10⟩ ∧ ¬ s.store.contains ⟨.property, 9⟩ ∧
      (s.perform c).2 = .answer (.element (some ⟨.parameter, 11⟩)) ∧
      ((s.perform c).1.store.declaredType? ⟨.parameter, 11⟩).map TypeRef.element = some ⟨.plainType, 12⟩ := by
  intro s c
  have hanswer : (s.perform c).2 = .answer (.element (some ⟨.parameter, 11⟩)) := rfl
  obtain ⟨_, _, hrecounts, _, hbegins, _⟩ := order_tells_history (fun _ => ⟨0⟩)
    [.create "p" (.property (.text "p") (.named (.text "T")) { owner := some (.type Primitive.int.type) })]
  exact ⟨hrecounts, by decide, by decide, hanswer, (hbegins c _ hanswer).2 _ _ rfl⟩

end ClassDiagram
