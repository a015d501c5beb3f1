import ClassDiagram.Proofs.Reachable

/-! A rejected command leaves everything as it was, except that a class whose methods are refused has taken over its
attributes. -/

namespace ClassDiagram

namespace Store

/-- The later store has all that the earlier one has, and its elements show what is given. -/
structure Keeps (s s' : Store) (shown : Element → List (String × Datum)) : Prop where
  contains : ∀ e, s.contains e → s'.contains e
  fields : ∀ e, s.contains e → s'.fields e = shown e
  classifiers : ∀ e, s.contains e → s'.classifiers e = s.classifiers e
  multiplicities : ∀ m : MultiplicityRef, m.index < s.multiplicityCount →
    m.index < s'.multiplicityCount ∧ s'.multiplicities.get m = s.multiplicities.get m
  ids : s'.ids = s.ids
  ownerRelease : s'.ownerRelease = s.ownerRelease
  listening : s'.listening = s.listening

variable {may : Leave} {s s' s'' : Store} {shown shown' : Element → List (String × Datum)}

theorem keeps_of_log (log : List Entry) (created : Nat) : s.Keeps { s with log, created } s.fields :=
  ⟨fun _ => id, fun _ _ => rfl, fun _ _ => rfl, fun _ hm => ⟨hm, rfl⟩, rfl, rfl, rfl⟩

theorem Keeps.refl : s.Keeps s s.fields := keeps_of_log s.log s.created

theorem Keeps.trans (h : s.Keeps s' shown) (h' : s'.Keeps s'' shown') : s.Keeps s'' shown' where
  contains e he := h'.contains e (h.contains e he)
  fields e he := h'.fields e (h.contains e he)
  classifiers e he := (h'.classifiers e (h.contains e he)).trans (h.classifiers e he)
  multiplicities m hm :=
    have hs := h.multiplicities m hm
    have hs' := h'.multiplicities m hs.1
    ⟨hs'.1, hs'.2.trans hs.2⟩
  ids := h'.ids.trans h.ids
  ownerRelease := h'.ownerRelease.trans h.ownerRelease
  listening := h'.listening.trans h.listening

theorem Keeps.congr (h : s.Keeps s' shown) (hshown : ∀ e, s.contains e → shown e = shown' e) :
    s.Keeps s' shown' :=
  { h with fields := fun e he => (h.fields e he).trans (hshown e he) }

theorem fields_enroll {e e' : Element} {l : Label} {timestamp : Option Int} (hr : s.Spare e.order)
    (he : s.contains e') (hheaders : s'.headers = (s.enter e timestamp).headers)
    (hlabels : s'.labels = s.labels.set e.order l) :
    s'.fields e' = ("timestamp", .timestamp (s.headers.get e'.order).timestamp) ::
      ((if e'.kind = .generalization then [] else s.labelFields e'.order) ++ s'.ownFields e') := by
  have hne : e'.order ≠ e.order := by
    intro heq
    have hspare : s.Spare e'.order := heq ▸ hr
    exact hspare.not_contains he
  rw [fields, labelFields, labelFields, hheaders, hlabels]
  show _ :: _ = _
  rw [enter, Table.get_set, if_neg hne, Table.get_set, if_neg hne]

theorem Quiet.keeps (h : s.Quiet may s') : s.Keeps s' s.fields := by
  cases h with
  | noted channel message =>
    unfold Store.noted
    split_ifs
    · exact keeps_of_log _ s.created
    · exact .refl
  | drawn => exact keeps_of_log s.log (s.created + 1)
  | bare timestamp hkind hr =>
    refine ⟨?_, ?_, fun _ _ => rfl, fun _ hm => ⟨hm, rfl⟩, rfl, rfl, rfl⟩
    · intro e he
      exact contains_enter_of_contains hr.spare he
    · intro e he
      exact fields_enroll hr.spare he rfl rfl
  | multiplicity hm =>
    refine ⟨fun _ => id, fun _ _ => rfl, fun _ _ => rfl, fun m hm => ?_, rfl, rfl, rfl⟩
    have hne : m ≠ ⟨s.multiplicityCount⟩ := by
      intro heq
      rw [heq] at hm
      exact Nat.lt_irrefl _ hm
    refine ⟨Nat.lt_succ_of_lt hm, ?_⟩
    show (s.multiplicities.set _ _).get m = _
    rw [Table.get_set, if_neg hne]

theorem Stays.keeps (h : s.Stays may s') : s.Keeps s' s.fields := by
  induction h with
  | refl => exact .refl
  | tail _ hq ih =>
    have hboth := ih.trans hq.keeps
    exact hboth.congr ih.fields

/-- The same fields, but with a class for the owner. -/
def withOwner (r : ClassRef) (fields : List (String × Datum)) : List (String × Datum) :=
  fields.map fun field => if field.1 = "owner" then (field.1, .ref (some r)) else field

theorem properties_enroll_setAttributes {r : ClassRef} {record : ClassRecord} {l : Label} {timestamp : Option Int}
    {xs : OrderedSet PropertyRef} (hrecord : record.attributes = ∅) :
    ((Roster.classes.enroll s r record l timestamp).setAttributes r xs).properties =
      s.properties.modifyAll xs.toList fun p => { p with owner := some (.type (.ofClass r)) } := by
  have hdropped : (((s.classes.set r record).get r).attributes.toList.filter (· ∉ xs)) = [] := by
    rw [Table.get_set, if_pos rfl, hrecord]
    rfl
  show Table.modifyAll (if s.ownerRelease then Table.modifyAll s.properties
    (((s.classes.set r record).get r).attributes.toList.filter (· ∉ xs)) _ else s.properties) xs.toList _ = _
  rw [hdropped]
  split_ifs <;> rfl

theorem classes_enroll_setAttributes {r c : ClassRef} {record : ClassRecord} {l : Label} {timestamp : Option Int}
    {xs : OrderedSet PropertyRef} :
    ((Roster.classes.enroll s r record l timestamp).setAttributes r xs).classes.get c =
      if c = r then { record with attributes := xs } else s.classes.get c := by
  show ((s.classes.set r record).modify r _).get c = _
  rw [Table.get_modify, Table.get_set]
  split_ifs <;> rfl

theorem mem_elements_iff {kind : Kind} {e : Element} {l : List (Ref kind)} :
    e ∈ l.map Ref.element ↔ e.kind = kind ∧ ⟨e.order⟩ ∈ l := by
  rw [List.mem_map]
  constructor
  · intro h
    obtain ⟨r, hr, rfl⟩ := h
    exact ⟨rfl, hr⟩
  · intro h
    obtain ⟨rfl, hr⟩ := h
    exact ⟨⟨e.order⟩, hr, rfl⟩

theorem ownFields_enroll_setAttributes {r : ClassRef} {record : ClassRecord} {l : Label} {timestamp : Option Int}
    {xs : OrderedSet PropertyRef} {e : Element} (hr : s.Spare r.order) (hrecord : record.attributes = ∅)
    (he : s.contains e) :
    ((Roster.classes.enroll s r record l timestamp).setAttributes r xs).ownFields e =
      if e ∈ xs.toList.map Ref.element then withOwner r (s.ownFields e) else s.ownFields e := by
  have hproperties : ((Roster.classes.enroll s r record l timestamp).setAttributes r xs).properties = _ :=
    properties_enroll_setAttributes hrecord
  -- only properties and classes are written, and the class that is written was not there
  obtain ⟨kind, n⟩ := e
  simp only [mem_elements_iff]
  cases kind with
  | property =>
    simp only [ownFields, hproperties, Table.get_modifyAll _ xs.nodup]
    by_cases hx : ⟨n⟩ ∈ xs.toList
    · simp [hx, withOwner]
      rfl
    · simp [hx]
  | classType =>
    have hne : (⟨n⟩ : ClassRef) ≠ r := fun heq => hr.ne_of_holds (r := ⟨n⟩) he (congrArg Ref.order heq)
    simp [ownFields, classes_enroll_setAttributes, hne]
  | _ => rw [if_neg (by simp)]; rfl

theorem withOwner_fields {r : ClassRef} {e : Element} :
    withOwner r (s.fields e) = ("timestamp", .timestamp (s.headers.get e.order).timestamp) ::
      ((if e.kind = .generalization then [] else s.labelFields e.order) ++ withOwner r (s.ownFields e)) := by
  rw [fields]
  split_ifs <;> simp [withOwner, labelFields]

theorem keeps_enroll_setAttributes {r : ClassRef} {record : ClassRecord} {l : Label} {timestamp : Option Int}
    {xs : OrderedSet PropertyRef} (hr : s.Spare r.order) (hrecord : record.attributes = ∅) :
    s.Keeps ((Roster.classes.enroll s r record l timestamp).setAttributes r xs) fun e =>
      if e ∈ xs.toList.map Ref.element then withOwner r (s.fields e) else s.fields e := by
  refine ⟨?_, ?_, ?_, fun _ hm => ⟨hm, rfl⟩, rfl, rfl, rfl⟩
  · intro e he
    show (s.enter r.element timestamp).contains e
    exact contains_enter_of_contains hr he
  · intro e he
    have hfields : ((Roster.classes.enroll s r record l timestamp).setAttributes r xs).fields e = _ :=
      fields_enroll (s := s) (e := r.element) (l := l) hr he rfl rfl
    rw [hfields, ownFields_enroll_setAttributes hr hrecord he]
    by_cases hx : e ∈ xs.toList.map Ref.element
    · rw [if_pos hx, if_pos hx, withOwner_fields]
    · rw [if_neg hx, if_neg hx, fields]
  · intro e he
    obtain ⟨kind, n⟩ := e
    cases kind with
    | classType =>
      have hne : (⟨n⟩ : ClassRef) ≠ r := fun heq => hr.ne_of_holds (r := ⟨n⟩) he (congrArg Ref.order heq)
      simp only [classifiers, classes_enroll_setAttributes, if_neg hne]
    | _ => rfl

theorem Stays.classes (h : s.Stays may s') : s'.classes = s.classes := by
  induction h with
  | refl => rfl
  | tail _ hq ih =>
    rw [← ih]
    cases hq with
    | noted channel message =>
      unfold Store.noted
      split_ifs <;> rfl
    | _ => rfl

theorem mem_map_ofList {kind : Kind} {e : Element} {l : List (Ref kind)} :
    e ∈ (OrderedSet.ofList l).toList.map Ref.element ↔ e ∈ l.map Ref.element := by
  simp only [List.mem_map, ← OrderedSet.mem_def, OrderedSet.mem_ofList]

theorem Strands.keeps {attributes : List PropertyRef} (h : s.Strands may (.ofList attributes) s') :
    ∃ r : ClassRef, ¬ s.contains r.element ∧ s'.contains r.element ∧
      (s'.classes.get r).attributes = .ofList attributes ∧
      s.Keeps s' fun e => if e ∈ attributes.map Ref.element then withOwner r (s.fields e) else s.fields e := by
  obtain @⟨s₁, _, r, l, timestamp, isAbstract, isReadOnly, isAssociationClass, hs, hr, _, _, _, hs'⟩ := h
  have hkeeps : s₁.Keeps ((Roster.classes.enroll s₁ r
      { (default : ClassRecord) with isAbstract, isReadOnly, isAssociationClass } l timestamp).setAttributes r
      (.ofList attributes)) _ := keeps_enroll_setAttributes hr.spare rfl
  refine ⟨r, ?_, ?_, ?_, ?_⟩
  · intro hc
    exact hr.spare.not_contains (hs.keeps.contains _ hc)
  · exact hs'.keeps.contains _ contains_enter_self
  · rw [hs'.classes, classes_enroll_setAttributes, if_pos rfl]
  · apply ((hs.keeps.trans hkeeps).trans hs'.keeps).congr
    intro e he
    rw [hkeeps.fields e (hs.keeps.contains e he), hs.keeps.fields e he]
    simp only [mem_map_ofList]

end Store

theorem Construction.MethodsRefused.unique {s : Store} {c : Construction} {l l' : List PropertyRef}
    (h : c.MethodsRefused s l) (h' : c.MethodsRefused s l') : l = l' := by
  cases h <;> cases h' <;> rfl

theorem Command.MethodsRefused.unique {s : Store} {c : Command} {l l' : List PropertyRef}
    (h : c.MethodsRefused s l) (h' : c.MethodsRefused s l') : l = l' := by
  cases c with
  | create handle c => exact Construction.MethodsRefused.unique h h'
  | _ => cases h

theorem Command.methodsRefused_clear_log {s : Store} {c : Command} {l : List PropertyRef} :
    c.MethodsRefused { s with log := [] } l ↔ c.MethodsRefused s l := by
  cases c with
  | create handle c =>
    constructor
    · intro h
      cases h with
      | classType h => exact .classType h
      | associationClass a h => exact .associationClass a h
    · intro h
      cases h with
      | classType h => exact .classType h
      | associationClass a h => exact .associationClass a h
  | _ => exact Iff.rfl

/--
A command that is rejected in a state that a session can reach leaves the handles and all that shows of every element
and multiplicity as they were. The one exception is a class that only its methods stand in the way of: its attributes
then belong to a class that was not there before.
-/
theorem rejected_unchanged (ids : Nat → Uuid) (cs : List Command) (c : Command) {f : Fault}
    (h : (((Session.initial ids).run cs).perform c).2 = .fault f) :
    let s := (Session.initial ids).run cs
    let s' := (s.perform c).1
    s'.bindings = s.bindings ∧
    ((∀ attributes, ¬ c.MethodsRefused s.store attributes) → s.store.Keeps s'.store s.store.fields) ∧
    ∀ attributes, c.MethodsRefused s.store attributes → ∃ r : ClassRef, ¬ s.store.contains r.element ∧
      s'.store.contains r.element ∧ (s'.store.classes.get r).attributes = .ofList attributes ∧
      s.store.Keeps s'.store fun e =>
        if e ∈ attributes.map Ref.element then Store.withOwner r (s.store.fields e) else s.store.fields e := by
  intro s s'
  have hs : s.Sound := (Session.sound_initial ids).run cs
  rcases s.perform_cases c with ⟨_, d, store, _, hp⟩ | ⟨hm, f', store, he, hp⟩ | hp
  · rw [hp] at h
    cases h
  · have hstore : s' = { s with store } := congrArg Prod.fst hp
    have hmentions := hs.clear_log.all (hs.holds_of_mentions hm)
    have hrejects := (c.ensures hs.clear_log.sound hmentions).of_error he
    rw [hstore]
    refine ⟨rfl, ?_, ?_⟩
    · intro hn
      rcases hrejects with ⟨_, hstays⟩ | ⟨attributes, hr, _⟩
      · exact (Store.keeps_of_log [] _).trans hstays.keeps
      · exact absurd (Command.methodsRefused_clear_log.1 hr) (hn attributes)
    · intro attributes hr
      rcases hrejects with ⟨hn, _⟩ | ⟨attributes', hr', hstrands⟩
      · exact absurd (Command.methodsRefused_clear_log.2 hr) (hn attributes)
      · obtain rfl := (Command.methodsRefused_clear_log.1 hr').unique hr
        obtain ⟨r, hnew, hcontains, hattributes, hkeeps⟩ := hstrands.keeps
        exact ⟨r, hnew, hcontains, hattributes, (Store.keeps_of_log [] _).trans hkeeps⟩
  · rw [hp] at h
    cases h

theorem rejected_unchanged_of_equal_names :
    let s := (Session.initial fun _ => ⟨0⟩).run
      [.create "p" (.property (.text "p") (.named (.text "int")) {}),
        .create "m" (.method (.text "m") {}), .create "n" (.method (.text "m") {})]
    let c : Command := .create "c" (.classType (.text "C") { attributes := [⟨9⟩], methods := [⟨10⟩, ⟨12⟩] })
    (s.perform c).2 = .fault (.duplicateNames "A class" "methods" ["m"]) ∧
      ∃ r : ClassRef, ((s.perform c).1.store.classes.get r).attributes = .ofList [⟨9⟩] ∧
        (s.perform c).1.store.fields ⟨.property, 9⟩ = Store.withOwner r (s.store.fields ⟨.property, 9⟩) := by
  intro s c
  have hfault : (s.perform c).2 = .fault (.duplicateNames "A class" "methods" ["m"]) := rfl
  refine ⟨hfault, ?_⟩
  obtain ⟨_, _, hexception⟩ := rejected_unchanged (fun _ => ⟨0⟩) _ c hfault
  obtain ⟨r, _, _, hattributes, hkeeps⟩ := hexception [⟨9⟩] (.classType ⟨_, rfl, rfl, _, rfl⟩)
  exact ⟨r, hattributes, (hkeeps.fields ⟨.property, 9⟩ (by rfl)).trans (by rfl)⟩

end ClassDiagram
