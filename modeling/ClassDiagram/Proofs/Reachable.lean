import ClassDiagram.Proofs.Constructions

/-! In every state that a session can reach the store is sound and every handle names something that exists. -/

namespace ClassDiagram
open Edit

namespace Store
variable {s : Store}

theorem contains_enterPrimitive (p q : Primitive) (h : s.contains p.ref.element ∨ p = q) :
    (s.enterPrimitive q).contains p.ref.element := by
  change (s.enter q.ref.element none).contains p.ref.element
  rw [contains_enter]
  split_ifs with ho
  · rfl
  · rcases h with h | rfl
    · exact h
    · exact absurd rfl ho

theorem contains_foldl_enterPrimitive (p : Primitive) {l : List Primitive}
    (h : s.contains p.ref.element ∨ p ∈ l) : (l.foldl enterPrimitive s).contains p.ref.element := by
  induction l generalizing s with
  | nil => exact h.resolve_right List.not_mem_nil
  | cons q l ih =>
    rw [List.mem_cons, ← or_assoc] at h
    exact ih (h.imp_left (contains_enterPrimitive p q))

theorem mem_of_contains_foldl_enterPrimitive {e : Element} {l : List Primitive}
    (h : (l.foldl enterPrimitive s).contains e) : s.contains e ∨ ∃ p ∈ l, e = p.ref.element := by
  induction l generalizing s with
  | nil => exact Or.inl h
  | cons q l ih =>
    rcases ih h with h | ⟨p, hp, he⟩
    · rcases eq_or_contains_of_enter h with he | h
      · exact Or.inr ⟨q, List.mem_cons_self, he⟩
      · exact Or.inl h
    · exact Or.inr ⟨p, List.mem_cons_of_mem _ hp, he⟩

theorem contains_initial {ids : Nat → Uuid} {e : Element} (h : (initial ids).contains e) :
    ∃ p : Primitive, e = p.ref.element := by
  rcases mem_of_contains_foldl_enterPrimitive h with h | ⟨p, _, he⟩
  · cases h
  · exact ⟨p, he⟩

theorem sound_initial (ids : Nat → Uuid) : (initial ids).Sound where
  bounded e he := by
    obtain ⟨p, rfl⟩ := contains_initial he
    show p.order ≤ 8
    cases p <;> decide
  primitive p := contains_foldl_enterPrimitive p (Or.inr (Primitive.mem_all p))
  closed e he i hi := by
    obtain ⟨p, rfl⟩ := contains_initial he
    cases hi

end Store

namespace Datum

@[simp] theorem item?_value (v : Value) : (value v).item? = none := rfl

@[simp] theorem item?_text (t : String) : (text t).item? = none := rfl

@[simp] theorem item?_timestamp (t : Option Int) : (timestamp t).item? = none := rfl

@[simp] theorem item?_elements (es : List Element) : (elements es).item? = none := rfl

@[simp] theorem item?_refs {kind : Kind} (rs : List (Ref kind)) : (refs rs).item? = none := rfl

@[simp] theorem item?_ref {kind : Kind} (r : Ref kind) : (ref (some r)).item? = some (.ref r) := rfl

@[simp] theorem item?_type (t : TypeRef) : (type t).item? = some (.type t) := rfl

@[simp] theorem item?_multiplicity (m : MultiplicityRef) : (multiplicity m).item? = some (.multiplicity m) := rfl

theorem mem_types_of_item? {o : Option TypeRef} {i : Item} (h : i ∈ (element (o.map TypeRef.element)).item?) :
    i ∈ Item.types o.toList := by
  cases o with
  | none => cases h
  | some t => exact Option.mem_some.1 h ▸ List.mem_cons_self

theorem mem_owners_of_item? {o : Option Owner} {i : Item} (h : i ∈ (element (o.map Owner.element)).item?) :
    i ∈ Item.owners o := by
  cases o with
  | none => cases h
  | some t => exact Option.mem_some.1 h ▸ List.mem_cons_self

theorem mem_refs_of_item? {kind : Kind} {r : Option (Ref kind)} {i : Item} (h : i ∈ (refOrMissing r).item?) :
    i ∈ Item.refs r.toList := by
  cases r with
  | none => cases h
  | some r => exact Option.mem_some.1 h ▸ List.mem_cons_self

end Datum

namespace Store

theorem mem_itemsOf_of_ownFields (s : Store) (e : Element) :
    ∀ field ∈ s.ownFields e, ∀ i ∈ field.2.item?, i ∈ s.itemsOf e := by
  obtain ⟨kind, n⟩ := e
  cases kind with
  | classType =>
    refine List.forall_mem_append.2 ⟨by simp, ?_⟩
    intro field h i hi
    split_ifs at h
    · rw [List.mem_singleton.1 h] at hi
      exact List.mem_append_right _ (Datum.mem_refs_of_item? hi)
    · cases h
  | literal =>
    intro field h i hi
    rw [List.mem_singleton.1 h] at hi
    exact Datum.mem_types_of_item? hi
  | property =>
    simp only [ownFields, List.forall_mem_cons, itemsOf, PropertyRecord.items]
    have howner := fun i => @Datum.mem_owners_of_item? (s.properties.get ⟨n⟩).owner i
    simp +contextual [howner]
  | method =>
    simp only [ownFields, List.forall_mem_cons, itemsOf, MethodRecord.items]
    have howner := fun i => @Datum.mem_types_of_item? (s.methods.get ⟨n⟩).owner i
    simp +contextual [howner]
  | parameter => simp [ownFields, itemsOf, ParameterRecord.items]
  | constraint => simp [ownFields, itemsOf, ConstraintRecord.items]
  | generalization => simp [ownFields, itemsOf, GeneralizationRecord.items]
  | _ => simp [ownFields]

theorem mem_itemsOf_of_fields {s : Store} {e : Element} {field : String × Datum} {i : Item}
    (h : field ∈ s.fields e) (hi : i ∈ field.2.item?) : i ∈ s.itemsOf e := by
  have hlabel : ∀ field ∈ s.labelFields e.order, field.2.item? = none := by simp [labelFields]
  rcases List.mem_cons.1 h with rfl | h
  · cases hi
  rcases List.mem_append.1 h with h | h
  · split_ifs at h
    · cases h
    · rw [hlabel field h] at hi
      cases hi
  · exact s.mem_itemsOf_of_ownFields e field h i hi

theorem exists_mem_of_lookup {l : List (String × Datum)} {name : String} {i : Item}
    (h : i ∈ ((l.lookup name).getD (.value .missing)).item?) : ∃ field ∈ l, i ∈ field.2.item? := by
  cases hl : l.lookup name with
  | none =>
    rw [hl] at h
    cases h
  | some d =>
    rw [hl] at h
    obtain ⟨l₁, l₂, he, _⟩ := List.lookup_eq_some_iff.1 hl
    exact ⟨(name, d), he ▸ List.mem_append_right _ List.mem_cons_self, h⟩

theorem Sound.holds_of_fieldOf {s : Store} (h : s.Sound) {on i : Item} {name : String} (hon : s.holds on)
    (hi : i ∈ (Command.fieldOf s name on).item?) : s.holds i := by
  cases on with
  | element e =>
    obtain ⟨field, hfield, hi⟩ := exists_mem_of_lookup hi
    exact h.closed e hon i (mem_itemsOf_of_fields hfield hi)
  | multiplicity m =>
    have hnone : ∀ field ∈ (s.multiplicities.get m).fields, field.2.item? = none := by
      simp [Multiplicity.fields]
    obtain ⟨field, hfield, hi⟩ := exists_mem_of_lookup hi
    rw [hnone field hfield] at hi
    cases hi

end Store

def Command.MethodsRefused (s : Store) (attributes : List PropertyRef) : Command → Prop
  | create _ c => c.MethodsRefused s attributes
  | _ => False

def Command.configures : Command → Bool
  | configure .. => true
  | _ => false

def Command.draws : Command → Bool
  | create .. | resolve .. => true
  | _ => false

/-- A command does only what it may. -/
structure Leave.Permits (may : Leave) (s : Store) (c : Command) : Prop where
  assign : ∀ f ∈ c.facet?, may.assign s f
  giveOwner : c.givesOwner → may.giveOwner
  configure : c.configures → may.configure
  draw : c.draws → may.draw

theorem Leave.Permits.of_facet {may : Store → Facet → Prop} {s : Store} {c : Command}
    (h : ∀ f ∈ c.facet?, may s f) : (Leave.assigning may).Permits s c :=
  ⟨h, fun _ => trivial, fun _ => trivial, fun _ => trivial⟩

theorem Command.ensures_of_permits {may : Leave} {s : Store} (h : s.Sound) (c : Command)
    (hm : ∀ i ∈ c.mentions, s.holds i) (hmay : may.Permits s c) :
    c.edit.Ensures s (fun d s' => s.Reaches may s' ∧ (c.handle?.isSome → ∀ i ∈ d.item?, s'.holds i))
      fun _ s' => s.Rejects may (fun attributes => c.MethodsRefused s attributes) s' := by
  have hplain : ∀ {x : Edit Datum}, x.Changes may s → c.handle? = none →
      (∀ attributes, ¬ c.MethodsRefused s attributes) →
      x.Ensures s (fun d s' => s.Reaches may s' ∧ (c.handle?.isSome → ∀ i ∈ d.item?, s'.holds i))
        fun _ s' => s.Rejects may (fun attributes => c.MethodsRefused s attributes) s' :=
    fun hx hn hc => hx.mono (fun _ _ hs => ⟨hs, fun hsome => by rw [hn] at hsome; cases hsome⟩)
      fun _ _ hs => Or.inl ⟨hc, hs⟩
  cases c with
  | create handle c =>
    exact (c.ensures (hmay.draw rfl) h hm hmay.giveOwner).mono (fun _ _ hs => ⟨hs.1, fun _ => hs.2⟩) fun _ _ => id
  | assign a => exact hplain (a.changes h hm hmay.assign hmay.giveOwner).map rfl fun _ => id
  | call c => exact hplain (c.changes h hm) rfl fun _ => id
  | read on field handle =>
    exact ensures_reading.2 ⟨.refl, fun _ i => h.holds_of_fieldOf (hm on List.mem_cons_self)⟩
  | configure ownerRelease listening =>
    have hconfigure := hmay.configure rfl
    exact hplain (Store.Change.configure _ _ hconfigure).reaches rfl fun _ => id
  | resolve source handle =>
    refine ensures_map.2 ((ensures_resolve (hmay.draw rfl) h source hm).mono (fun t _ hs => ?_) fun _ _ hs => ?_)
    · exact ⟨hs.1.stays.reaches, fun _ i hi => Option.mem_some.1 hi ▸ hs.2⟩
    · exact Or.inl ⟨fun _ => id, hs⟩
  | sort es => exact hplain Store.Reaches.refl rfl fun _ => id

theorem Command.ensures {s : Store} (h : s.Sound) (c : Command) (hm : ∀ i ∈ c.mentions, s.holds i) :
    c.edit.Ensures s
      (fun d s' => s.Reaches .any s' ∧ (c.handle?.isSome → ∀ i ∈ d.item?, s'.holds i))
      fun _ s' => s.Rejects .any (fun attributes => c.MethodsRefused s attributes) s' :=
  c.ensures_of_permits h hm (.of_facet fun _ _ => trivial)

namespace Session

/-- The store is sound, and what has a handle exists. -/
structure Sound (s : Session) : Prop where
  store : s.store.Sound
  bound : ∀ b ∈ s.bindings, s.store.holds b.2

variable {s : Session}

theorem sound_initial (ids : Nat → Uuid) : (initial ids).Sound where
  store := Store.sound_initial ids
  bound b hb := by
    obtain ⟨p, _, rfl⟩ := List.mem_map.1 hb
    exact (Store.sound_initial ids).primitive p

theorem Sound.holds_of_binds (h : s.Sound) {i : Item} (hi : s.binds i) : s.store.holds i := by
  obtain ⟨b, hb, he⟩ := List.any_eq_true.1 hi
  exact beq_iff_eq.1 he ▸ h.bound b hb

theorem Sound.bind (h : s.Sound) {handle : Option String} {d : Datum}
    (hd : handle.isSome → ∀ i ∈ d.item?, s.store.holds i) : (s.bind handle d).Sound := by
  unfold Session.bind
  split
  · next name i hi =>
    split_ifs
    · exact h
    · refine ⟨h.store, ?_⟩
      intro b hb
      rcases List.mem_append.1 hb with hb | hb
      · exact h.bound b hb
      · rw [List.mem_singleton.1 hb]
        exact hd rfl i hi
  · exact h

theorem store_bind (s : Session) (handle : Option String) (d : Datum) : (s.bind handle d).store = s.store := by
  unfold Session.bind
  split
  · split_ifs <;> rfl
  · rfl

theorem perform_cases (s : Session) (c : Command) :
    (c.mentions.all s.binds ∧ ∃ d store, c.edit { s.store with log := [] } = .ok d store ∧
      s.perform c = (Session.bind { s with store } c.handle? d, .answer d)) ∨
    (c.mentions.all s.binds ∧ ∃ f store, c.edit { s.store with log := [] } = .error f store ∧
      s.perform c = ({ s with store }, .fault f)) ∨
    s.perform c = (s, .unbound) := by
  unfold Session.perform
  by_cases hm : c.mentions.all s.binds
  · rw [if_pos hm]
    cases he : c.edit { s.store with log := [] } with
    | ok d store => exact Or.inl ⟨hm, d, store, rfl, rfl⟩
    | error f store => exact Or.inr (Or.inl ⟨hm, f, store, rfl, rfl⟩)
  · rw [if_neg hm]
    exact Or.inr (Or.inr rfl)

theorem Sound.clear_log (h : s.Sound) : s.store.Grows { s.store with log := [] } :=
  h.store.unchanged rfl (Nat.le_refl _) (Nat.le_refl _) fun _ => rfl

theorem Sound.holds_of_mentions (h : s.Sound) {c : Command} (hm : c.mentions.all s.binds) :
    ∀ i ∈ c.mentions, s.store.holds i :=
  fun i hi => h.holds_of_binds (List.all_eq_true.1 hm i hi)

theorem Sound.grow (h : s.Sound) {store : Store} (hs : s.store.Grows store) : Sound { s with store } :=
  ⟨hs.sound, fun b hb => hs.holds _ (h.bound b hb)⟩

theorem Sound.perform (h : s.Sound) (c : Command) : (s.perform c).1.Sound := by
  have hclear := h.clear_log
  have hc := fun hm => c.ensures hclear.sound (hclear.all (h.holds_of_mentions hm))
  rcases s.perform_cases c with ⟨hm, d, store, he, hp⟩ | ⟨hm, f, store, he, hp⟩ | hp
  · obtain ⟨hs, hd⟩ := (hc hm).of_ok he
    have hgrown := h.grow (hclear.trans (hs.grows hclear.sound))
    rw [hp]
    exact hgrown.bind hd
  · have hs : Store.Reaches .any { s.store with log := [] } store := ((hc hm).of_error he).reaches
    rw [hp]
    exact h.grow (hclear.trans (hs.grows hclear.sound))
  · rw [hp]
    exact h

theorem Sound.run (h : s.Sound) (cs : List Command) : (s.run cs).Sound := by
  induction cs generalizing s with
  | nil => exact h
  | cons c cs ih => exact ih (h.perform c)

theorem Sound.perform_induction {may : Leave} {P : Store → Prop} (h : s.Sound) (hP : P s.store)
    (hlog : ∀ s : Store, P s → P { s with log := [] })
    (hchange : ∀ s s' : Store, s.Sound → s.Change may s' → P s → P s') (c : Command)
    (hmay : c.mentions.all s.binds → may.Permits { s.store with log := [] } c) : P (s.perform c).1.store := by
  have hs := h.clear_log.sound
  have hc := fun hm => c.ensures_of_permits hs (h.clear_log.all (h.holds_of_mentions hm)) (hmay hm)
  rcases s.perform_cases c with ⟨hm, d, store, he, hp⟩ | ⟨hm, f, store, he, hp⟩ | hp
  · obtain ⟨hreaches, _⟩ := (hc hm).of_ok he
    rw [hp, store_bind]
    exact hreaches.induction hs hchange (hlog _ hP)
  · have hreaches : Store.Reaches may { s.store with log := [] } store := ((hc hm).of_error he).reaches
    rw [hp]
    exact hreaches.induction hs hchange (hlog _ hP)
  · rw [hp]
    exact hP

/-- Whenever a command of the run is looked at that assigns to a facet, it may. -/
def Allows (may : Store → Facet → Prop) (s : Session) : List Command → Prop
  | [] => True
  | c :: cs => (c.mentions.all s.binds → ∀ f ∈ c.facet?, may s.store f) ∧ (s.perform c).1.Allows may cs

instance decidableAllows {may : Store → Facet → Prop} [∀ s, DecidablePred (may s)] (s : Session) :
    (cs : List Command) → Decidable (s.Allows may cs)
  | [] => isTrue trivial
  | c :: cs =>
    have : Decidable ((s.perform c).1.Allows may cs) := decidableAllows _ cs
    inferInstanceAs (Decidable (_ ∧ _))

theorem allows_all (s : Session) (cs : List Command) : s.Allows (fun _ _ => True) cs := by
  induction cs generalizing s with
  | nil => trivial
  | cons c cs ih => exact ⟨fun _ _ _ => trivial, ih _⟩

theorem Sound.run_induction_of_allows {may : Store → Facet → Prop} {P : Store → Prop} (h : s.Sound)
    (hP : P s.store) (hlog : ∀ s : Store, P s → P { s with log := [] })
    (hmay : ∀ (s : Store) (f : Facet), may s f → may { s with log := [] } f)
    (hchange : ∀ s s' : Store, s.Sound → s.Change (.assigning may) s' → P s → P s') {cs : List Command}
    (hcs : s.Allows may cs) : P (s.run cs).store := by
  induction cs generalizing s with
  | nil => exact hP
  | cons c cs ih =>
    have hc := h.perform_induction hP hlog hchange c fun hm => .of_facet fun f hf => hmay _ _ (hcs.1 hm f hf)
    exact ih (h.perform c) hc hcs.2

theorem Sound.run_induction {P : Store → Prop} (h : s.Sound) (hP : P s.store)
    (hlog : ∀ s : Store, P s → P { s with log := [] })
    (hchange : ∀ s s' : Store, s.Sound → s.Change .any s' → P s → P s') (cs : List Command) :
    P (s.run cs).store :=
  h.run_induction_of_allows hP hlog (fun _ _ => id) hchange (s.allows_all cs)

end Session

end ClassDiagram
