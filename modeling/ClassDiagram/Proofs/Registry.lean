import ClassDiagram.Proofs.CreationOrder
import ClassDiagram.Proofs.Replacements
import ClassDiagram.Proofs.WellFormed

/-! The names that the shared primitive types bear, and the names under which they are found. They part when a primitive
type is given the name of another, and models that hold them both are refused then. -/

namespace ClassDiagram

theorem Edit.ensures_rename {s : Store} {e : Element} {v : Value} :
    (Edit.rename e v).Ensures s (fun _ s' => v = .text (e.name s')) fun _ s' => e.name s' = e.name s := by
  refine ensures_bind.2 (ensures_check.2 ⟨fun name hname => ?_, fun f _ => ?_⟩)
  · rw [ensures_modify]
    have hget : e.name { s with labels := s.labels.modify e.order fun l => { l with name } } = name := by
      show ((s.labels.modify e.order _).get e.order).name = name
      rw [Table.get_modify, if_pos rfl]
    rw [hget]
    exact Kind.checkName_eq_ok hname
  · unfold Store.blamed
    split
    · obtain ⟨log, hlog⟩ := s.exists_noted .error f.message
      rw [hlog]
      rfl
    · rfl

namespace Session
variable {s : Session} {e : Element}

theorem Sound.name_perform (h : s.Sound) (he : s.store.contains e) (c : Command) :
    e.name (s.perform c).1.store = e.name s.store ∨
      c = .assign (.name e (.text (e.name (s.perform c).1.store))) := by
  by_cases hc : c.facet? = some (.name e)
  · obtain ⟨v, rfl⟩ : ∃ v, c = .assign (.name e v) := by
      cases c with
      | assign a =>
        cases a <;> cases hc
        exact ⟨_, rfl⟩
      | _ => cases hc
    have hrename : Edit.Ensures (Command.edit (.assign (.name e v))) { s.store with log := [] }
        (fun _ s' => v = .text (e.name s')) fun _ s' => e.name s' = e.name s.store :=
      Edit.ensures_map.2 Edit.ensures_rename
    rcases s.perform_cases (.assign (.name e v)) with ⟨_, d, store, hd, hp⟩ | ⟨_, f, store, hf, hp⟩ | hp
    · rw [hp]
      simp only [store_bind]
      exact Or.inr (by rw [← hrename.of_ok hd])
    · rw [hp]
      exact Or.inl (hrename.of_error hf)
    · rw [hp]
      exact Or.inl rfl
  · let P : Store → Prop := fun s' => s'.contains e ∧ e.name s' = e.name s.store
    have hchange : ∀ t t' : Store, t.Sound → t.Change (.assigning fun _ f => f ≠ .name e) t' → P t → P t' := by
      intro t t' ht hstep hP
      have hsame : (Facet.name e).Same t t' := hstep.same hP.1 (fun hne => hne rfl)
      exact ⟨(hstep.grows ht).holds (.element e) hP.1, hsame.trans hP.2⟩
    have hspared : ∀ f ∈ c.facet?, f ≠ .name e := by
      intro f hf hname
      rw [Option.mem_def.1 hf, hname] at hc
      exact hc rfl
    exact Or.inl (h.perform_induction (P := P) ⟨he, rfl⟩ (fun _ => id) hchange c fun _ => .of_facet hspared).2

theorem Sound.name_run (h : s.Sound) (he : s.store.contains e) (cs : List Command) :
    e.name (s.run cs).store = e.name s.store ∨ .assign (.name e (.text (e.name (s.run cs).store))) ∈ cs := by
  induction cs generalizing s with
  | nil => exact Or.inl rfl
  | cons c cs ih =>
    rcases ih (h.perform c) (h.contains_run [c] he) with hname | hmem
    · rcases h.name_perform he c with hsame | hassigned
      · exact Or.inl (hname.trans hsame)
      · refine Or.inr (List.mem_cons.2 (Or.inl ?_))
        show Command.assign (.name e (.text (e.name ((s.perform c).1.run cs).store))) = c
        rw [hname]
        exact hassigned.symm
    · exact Or.inr (List.mem_cons_of_mem c hmem)

theorem named_run (ids : Nat → Uuid) (cs : List Command) : ((initial ids).run cs).store.Named :=
  (sound_initial ids).run_induction (Store.named_initial ids) (fun _ h => h) (fun _ _ _ hc h => hc.named h) cs

end Session

namespace Primitive

theorem name_inj {p q : Primitive} : p.name = q.name ↔ p = q := by
  cases p <;> cases q <;> decide

theorem type_inj {p q : Primitive} : p.type = q.type ↔ p = q := by
  cases p <;> cases q <;> decide

end Primitive

namespace Store
variable {s : Store}

/-- To look for a type by the name finds the type. -/
def Resolves (s : Store) (name : String) (t : TypeRef) : Prop := Edit.resolve (.named (.text name)) s = .ok t s

theorem resolves_name_iff {q : Primitive} {t : TypeRef} : s.Resolves q.name t ↔ t = q.type := by
  have hresolve : Edit.resolve (.named (.text q.name)) s = .ok q.type s := by
    simp only [Edit.resolve, Value.text?, Option.bind_some, Primitive.ofAlias?_name, Edit.pure_apply]
  unfold Resolves
  rw [hresolve]
  exact ⟨fun h => (EStateM.Result.ok.inj h).1.symm, fun h => h ▸ rfl⟩

end Store

/-- It is reported that names clash in a collection. -/
def Fault.ClashesIn (f : Fault) (collection : String) : Prop :=
  f.kind = .duplicateName ∧ ("collection", .text collection) ∈ f.report.details

theorem Fault.clashesIn_duplicateNames {holder collection : String} {names : List String} :
    (duplicateNames holder collection names).ClashesIn collection := ⟨rfl, .tail _ (.head _)⟩

theorem Fault.not_clashesIn_of_uniqueNames {holder collection other : String} {names : List String} {f : Fault}
    (h : uniqueNames holder collection names = .error f) (hne : collection ≠ other) : ¬ f.ClashesIn other := by
  obtain ⟨_, rfl⟩ := uniqueNames_eq_error_iff.1 h
  rintro ⟨_, hmem⟩
  rcases List.mem_cons.1 hmem with heq | hmem
  · have hkey : "collection" = "names" := congrArg Prod.fst heq
    exact absurd hkey (by decide)
  · exact hne (Value.text.inj (congrArg Prod.snd (List.mem_singleton.1 hmem))).symm

/-! An element can be refused for its label, but no names clash then. -/

theorem Kind.not_duplicateName_of_checkName {kind : Kind} {v : Value} {f : Fault} (h : kind.checkName v = .error f) :
    f.kind ≠ .duplicateName := by
  unfold Kind.checkName at h
  split at h
  · split_ifs at h
    cases h
    exact ReportKind.noConfusion
  · cases h
    exact ReportKind.noConfusion
  · cases h
  · cases h
    exact ReportKind.noConfusion

theorem Visibility.not_duplicateName_of_ofValue {v : Value} {f : Fault} (h : Visibility.ofValue v = .error f) :
    f.kind ≠ .duplicateName := by
  unfold Visibility.ofValue at h
  split at h
  · cases hname : Visibility.ofName? _ with
    | some visibility =>
      rw [hname] at h
      cases h
    | none =>
      rw [hname] at h
      cases h
      exact ReportKind.noConfusion
  · cases h
    exact ReportKind.noConfusion

theorem Label.not_duplicateName_of_check {kind : Kind} {name : Value} {o : NamedOptions} {f : Fault}
    (h : Label.check kind name o = .error f) : f.kind ≠ .duplicateName := by
  unfold Label.check at h
  cases hname : kind.checkName name with
  | error f' =>
    rw [hname] at h
    cases h
    exact Kind.not_duplicateName_of_checkName hname
  | ok n =>
    rw [hname] at h
    cases hvisibility : Visibility.ofValue (o.visibility.getD (.text Visibility.everyone.name)) with
    | error f' =>
      rw [hvisibility] at h
      cases h
      exact Visibility.not_duplicateName_of_ofValue hvisibility
    | ok v =>
      rw [hvisibility] at h
      cases h

theorem Edit.ensures_createModel {s : Store} {name : Value} {o : ModelOptions}
    (h : (s.typeNames (Store.withPrimitives o.types)).Nodup) :
    (Edit.createModel name o).Ensures s (fun _ _ => True) fun f _ => ¬ f.ClashesIn "types" := by
  refine ensures_beginElement_bind (fun l _ => ?_) fun f hf hclash => Label.not_duplicateName_of_check hf hclash.1
  have htypes : ∀ f, uniqueNames "The model" "types" (s.typeNames (Store.withPrimitives o.types)) = .error f →
      ¬ f.ClashesIn "types" := by
    intro f hf
    exact absurd h (uniqueNames_eq_error_iff.1 hf).1
  refine ensures_bind.2 (ensures_bind.2 (ensures_check.2 ⟨fun _ _ => ?_, htypes⟩))
  refine ensures_note.2 (ensures_bind.2 (ensures_check.2 ⟨fun _ _ => ?_, fun f hf => ?_⟩))
  · refine ensures_bind.2 (ensures_check.2 ⟨fun _ _ => ?_, fun f hf => ?_⟩)
    · refine ensures_bind.2 (ensures_bind.2 (ensures_check.2 ⟨fun _ _ => trivial, fun f hf => ?_⟩))
      exact Fault.not_clashesIn_of_uniqueNames hf (by decide)
    · exact Fault.not_clashesIn_of_uniqueNames hf (by decide)
  · exact Fault.not_clashesIn_of_uniqueNames hf (by decide)

theorem Store.nodup_typeNames_withPrimitives {s : Store} {l : List TypeRef}
    (hprimitives : ∀ p : Primitive, p.ref.name s ∈ Primitive.names)
    (hdistinct : ∀ p q : Primitive, p.ref.name s = q.ref.name s → p = q)
    (hl : ∀ t ∈ l, ∀ u ∈ l, t.name s = u.name s → t = u) (hothers : ∀ t ∈ l, t.name s ∉ Primitive.names) :
    (s.typeNames (withPrimitives l)).Nodup := by
  refine nodup_names_ofList_iff.2 ?_
  rintro ⟨n, t, ht, u, hu, hne, htn, hun⟩
  have hname : t.name s = u.name s := htn.trans hun.symm
  rcases List.mem_append.1 ht with ht | ht <;> rcases List.mem_append.1 hu with hu | hu
  · exact hne (hl t ht u hu hname)
  · obtain ⟨q, _, rfl⟩ := List.mem_map.1 hu
    exact hothers t ht (hname ▸ hprimitives q)
  · obtain ⟨p, _, rfl⟩ := List.mem_map.1 ht
    exact hothers u hu (hname ▸ hprimitives p)
  · obtain ⟨p, _, rfl⟩ := List.mem_map.1 ht
    obtain ⟨q, _, rfl⟩ := List.mem_map.1 hu
    exact hne (congrArg Primitive.type (hdistinct p q hname))

/--
In every state that a session can reach, a shared primitive type bears the name of some shared primitive type, and this
one is found by the name; so it is found by the name that it bears exactly if that is its own, as it is unless the name
of another has been assigned to it. If each is found by its name, no two of them bear one name, and no model is refused
for the names of its types that is given types of distinct names, none of them that of a primitive type.
-/
theorem registry_agrees (ids : Nat → Uuid) (cs : List Command) :
    let s := ((Session.initial ids).run cs).store
    (∀ p : Primitive, ∃ q : Primitive, p.ref.name s = q.name ∧ s.Resolves (p.ref.name s) q.type) ∧
    (∀ p : Primitive, s.Resolves (p.ref.name s) p.type ↔ p.ref.name s = p.name) ∧
    (∀ p : Primitive, (∀ q : Primitive, q ≠ p → .assign (.name p.ref.element (.text q.name)) ∉ cs) →
      s.Resolves (p.ref.name s) p.type) ∧
    ((∀ p : Primitive, s.Resolves (p.ref.name s) p.type) →
      (∀ p q : Primitive, p.ref.name s = q.ref.name s → p = q) ∧
      ∀ (name : Value) (o : ModelOptions), (∀ t ∈ o.types, ∀ u ∈ o.types, t.name s = u.name s → t = u) →
        (∀ t ∈ o.types, t.name s ∉ Primitive.names) →
        ∀ f s', (Construction.model name o).edit s = .error f s' → ¬ f.ClashesIn "types") := by
  intro s
  have hsound := (Session.sound_initial ids).run cs
  have hnames : ∀ p : Primitive, p.ref.name s ∈ Primitive.names :=
    fun p => (Session.named_run ids cs).primitive (hsound.store.primitive p)
  have hbears : ∀ p : Primitive, ∃ q : Primitive, p.ref.name s = q.name := by
    intro p
    obtain ⟨q, hq⟩ := Primitive.mem_names.1 (hnames p)
    exact ⟨q, hq.symm⟩
  have hfound : ∀ p : Primitive, s.Resolves (p.ref.name s) p.type ↔ p.ref.name s = p.name := by
    intro p
    obtain ⟨q, hq⟩ := hbears p
    rw [hq, Store.resolves_name_iff, Primitive.type_inj, Primitive.name_inj]
    exact eq_comm
  refine ⟨fun p => ?_, hfound, fun p hp => ?_, fun hall => ?_⟩
  · obtain ⟨q, hq⟩ := hbears p
    exact ⟨q, hq, hq ▸ Store.resolves_name_iff.2 rfl⟩
  · have hinitial : p.ref.element.name (Session.initial ids).store = p.name := by
      show (((Store.initial ids).labels.get? p.order).getD default).name = p.name
      rw [Store.label_initial, Option.getD_some]
    refine (hfound p).2 ?_
    rcases (Session.sound_initial ids).name_run ((Store.sound_initial ids).primitive p) cs with hsame | hassigned
    · exact hsame.trans hinitial
    · obtain ⟨q, hq⟩ := hbears p
      have hqp : q = p := by
        by_contra hne
        exact hp q hne (hq ▸ hassigned)
      exact hqp ▸ hq
  · have hown : ∀ p : Primitive, p.ref.name s = p.name := fun p => (hfound p).1 (hall p)
    have hdistinct : ∀ p q : Primitive, p.ref.name s = q.ref.name s → p = q :=
      fun p q h => Primitive.name_inj.1 ((hown p).symm.trans (h.trans (hown q)))
    refine ⟨hdistinct, fun name o hl hothers f s' hf => ?_⟩
    have hnodup := Store.nodup_typeNames_withPrimitives hnames hdistinct hl hothers
    have hmodel : Edit.Ensures (Construction.model name o).edit s (fun _ _ => True) fun f _ => ¬ f.ClashesIn "types" :=
      Edit.ensures_map.2 (Edit.ensures_createModel hnodup)
    exact hmodel.of_error hf

def Command.twoPackages : List Command :=
  [.assign (.name Primitive.int.ref.element (.text "int")),
    .create "a" (.plainType (.text "A") {}),
    .create "b" (.plainType (.text "B") {}),
    .create "p" (.package (.text "P") [] {}),
    .create "q" (.package (.text "P") [] {})]

theorem registry_agrees_of_two_packages :
    let s := ((Session.initial fun _ => ⟨0⟩).run Command.twoPackages).store
    let o : ModelOptions := { types := [.plain ⟨9⟩, .plain ⟨10⟩], packages := [⟨11⟩, ⟨12⟩] }
    (∀ p : Primitive, s.Resolves (p.ref.name s) p.type) ∧
      ∃ f s', (Construction.model (.text "M") o).edit s = .error f s' ∧ f.ClashesIn "packages" ∧
        ¬ f.ClashesIn "types" := by
  intro s o
  obtain ⟨_, _, hunnamed, hmodels⟩ := registry_agrees (fun _ => ⟨0⟩) Command.twoPackages
  have hfound : ∀ p : Primitive, s.Resolves (p.ref.name s) p.type := by
    intro p
    refine hunnamed p fun q hqp hmem => ?_
    -- the only name that is assigned to a primitive type is its own
    have hassigned : p.ref.element = Primitive.int.ref.element ∧ q.name = "int" := by
      simpa [Command.twoPackages] using hmem
    have hq : q = .int := Primitive.name_inj.1 hassigned.2
    have hp : p = .int := by
      have helement := hassigned.1
      revert helement
      cases p <;> decide
    exact hqp (hq.trans hp.symm)
  refine ⟨hfound, .duplicateNames "The model" "packages" ["P"], _, rfl, Fault.clashesIn_duplicateNames, ?_⟩
  exact (hmodels hfound).2 (.text "M") o (by decide) (by decide) _ _ rfl

/-- The names of text and of numbers with a point are exchanged. -/
def Session.exchanged : Session :=
  (Session.initial Uuid.spread).run
    [.assign (.name Primitive.str.ref.element (.text "float")),
      .assign (.name Primitive.float.ref.element (.text "str"))]

/-- Primitive types that bear each other's names are not found by them, and a model is refused once two of them share
a name. -/
theorem exchanged_names_mislead :
    let s := Session.exchanged.store
    let t := (Session.exchanged.run [.assign (.name Primitive.float.ref.element (.text "int"))]).store
    s.Resolves (Primitive.str.ref.name s) Primitive.float.type ∧
      ¬ s.Resolves (Primitive.str.ref.name s) Primitive.str.type ∧
      ∃ f t', (Construction.model (.text "M") {}).edit t = .error f t' ∧ f.ClashesIn "types" := by
  intro s t
  have hname : Primitive.str.ref.name s = Primitive.float.name := by decide
  rw [hname, Store.resolves_name_iff, Store.resolves_name_iff]
  exact ⟨rfl, by decide, .duplicateNames "The model" "types" ["int"], _, rfl, Fault.clashesIn_duplicateNames⟩

end ClassDiagram
