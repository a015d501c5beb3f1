import ClassDiagram.Proofs.WellFormed

/-! Every command begins elements of known kinds in a known order, whether or not anything comes of them. -/

namespace ClassDiagram

def TypeSource.begins : TypeSource → List Kind
  | known _ => []
  | named v => if (v.text?.bind Primitive.ofAlias?).isSome then [] else [.plainType]

/-- An element looks for its type only after its name and its visibility have been accepted. -/
def TypeSource.beginsFor (source : TypeSource) (kind : Kind) (name : Value) (o : NamedOptions) : List Kind :=
  match Label.check kind name o with
  | .ok _ => source.begins
  | .error _ => []

/-- The kinds of the elements that a construction begins, in order, whether or not anything comes of them. -/
def Construction.begins : Construction → List Kind
  | multiplicity .. => []
  | plainType .. => [.plainType]
  | dataType .. => [.dataType]
  | primitiveType .. => [.primitiveType]
  | enumeration .. => [.enumeration]
  | literal .. => [.literal]
  | classType .. | associationClass .. => [.classType]
  | property name type o => .property :: type.beginsFor .property name o.toNamedOptions
  | parameter name type o => .parameter :: type.beginsFor .parameter name o.toNamedOptions
  | method name o => .method :: o.type.orVoid.beginsFor .method name o.toNamedOptions
  | association .. => [.association]
  | generalization .. => [.generalization]
  | generalizationSet .. => [.generalizationSet]
  | package .. => [.package]
  | constraint .. => [.constraint]
  | model .. => [.model]

def Command.begins : Command → List Kind
  | create _ c => c.begins
  | resolve source _ => source.begins
  | _ => []

def Session.begins (s : Session) : List Command → List Kind
  | [] => []
  | c :: cs => (if c.mentions.all s.binds then c.begins else []) ++ (s.perform c).1.begins cs

/-- The kinds of all elements begun by the end of a run, the primitive types first. -/
def Session.history (ids : Nat → Uuid) (cs : List Command) : List Kind :=
  Primitive.all.map (fun _ => .primitiveType) ++ (initial ids).begins cs

/-- An element begun among those of these kinds, in this order, of which the first was given the number after `n`. -/
def Element.Among (e : Element) (n : Nat) (kinds : List Kind) : Prop :=
  ∃ i, e.order = n + i + 1 ∧ kinds[i]? = some e.kind

theorem Element.Among.append_right {e : Element} {n : Nat} {kinds : List Kind} (h : e.Among n kinds)
    (kinds' : List Kind) : e.Among n (kinds ++ kinds') := by
  obtain ⟨i, horder, hkind⟩ := h
  obtain ⟨hi, _⟩ := List.getElem?_eq_some_iff.1 hkind
  exact ⟨i, horder, (List.getElem?_append_left hi).trans hkind⟩

theorem Element.Among.append_left {e : Element} {n : Nat} {kinds kinds' : List Kind}
    (h : e.Among (n + kinds.length) kinds') : e.Among n (kinds ++ kinds') := by
  obtain ⟨i, horder, hkind⟩ := h
  refine ⟨kinds.length + i, ?_, ?_⟩
  · rw [horder, Nat.add_assoc n]
  · rw [List.getElem?_append_right (Nat.le_add_right _ _), Nat.add_sub_cancel_left, hkind]

namespace Store

/-- The history tells the numbers given out, and the kind of each element that has come of them. -/
structure Recounts (s : Store) (history : List Kind) : Prop where
  created : s.created = history.length
  among : ∀ e, s.contains e → e.Among 0 history

/-- From the earlier store to the later one elements of these kinds are begun, in this order. -/
structure Begins (s : Store) (kinds : List Kind) (s' : Store) : Prop where
  created : s'.created = s.created + kinds.length
  among : ∀ e, s'.contains e → s.contains e ∨ e.Among s.created kinds

def ledger (s : Store) : Nat × Table Nat Header := (s.created, s.headers)

def declaredType? (s : Store) (e : Element) : Option TypeRef :=
  match e.kind with
  | .property => some (s.properties.get ⟨e.order⟩).type
  | .parameter => some (s.parameters.get ⟨e.order⟩).type
  | .method => some (s.methods.get ⟨e.order⟩).type
  | _ => none

variable {s s' s'' : Store} {kinds kinds' history : List Kind}

theorem contains_congr (h : s'.ledger = s.ledger) (e : Element) : s'.contains e = s.contains e := by
  have hheaders : s'.headers = s.headers := (Prod.mk.inj h).2
  rw [contains, hheaders, contains]

theorem begins_of_contains (hcreated : s'.created = s.created) (hcontains : ∀ e, s'.contains e → s.contains e) :
    s.Begins [] s' := ⟨hcreated, fun e he => Or.inl (hcontains e he)⟩

theorem begins_of_ledger (h : s'.ledger = s.ledger) : s.Begins [] s' :=
  begins_of_contains (Prod.mk.inj h).1 fun e he => contains_congr h e ▸ he

theorem Begins.trans (h : s.Begins kinds s') (h' : s'.Begins kinds' s'') : s.Begins (kinds ++ kinds') s'' where
  created := by rw [h'.created, h.created, List.length_append, Nat.add_assoc]
  among e he := by
    rcases h'.among e he with hs' | hlater
    · exact (h.among e hs').imp_right fun hearlier => hearlier.append_right kinds'
    · rw [h.created] at hlater
      exact Or.inr hlater.append_left

theorem Begins.idle (h : s.Begins kinds s') (h' : s'.Begins [] s'') : s.Begins kinds s'' := by
  have happend := h.trans h'
  rwa [List.append_nil] at happend

theorem begins_drawn (kind : Kind) : s.Begins [kind] { s with created := s.created + 1 } :=
  ⟨rfl, fun _ he => Or.inl he⟩

theorem Begins.enter {kind : Kind} {r : Ref kind} {timestamp : Option Int} (h : s.Begins (kind :: kinds) s')
    (hr : r.order = s.created + 1) (hledger : s''.ledger = (s'.enter r.element timestamp).ledger) :
    s.Begins (kind :: kinds) s'' where
  created := (Prod.mk.inj hledger).1.trans h.created
  among e he := by
    rw [contains_congr hledger] at he
    rcases eq_or_contains_of_enter he with rfl | hs'
    · exact Or.inr ⟨0, hr, rfl⟩
    · exact h.among e hs'

theorem Begins.lt_of_not_contains (h : s.Begins kinds s') {e : Element} (he : s'.contains e) (hn : ¬ s.contains e) :
    s.created < e.order := by
  obtain ⟨i, horder, _⟩ := (h.among e he).resolve_left hn
  omega

theorem Recounts.begins (h : s.Recounts history) (hb : s.Begins kinds s') : s'.Recounts (history ++ kinds) where
  created := by rw [hb.created, h.created, List.length_append]
  among e he := by
    rcases hb.among e he with hs | hlater
    · exact (h.among e hs).append_right kinds
    · rw [h.created, ← Nat.zero_add history.length] at hlater
      exact hlater.append_left

theorem recounts_initial (ids : Nat → Uuid) :
    (initial ids).Recounts (Primitive.all.map fun _ => .primitiveType) where
  created := rfl
  among e he := by
    obtain ⟨p, rfl⟩ := contains_initial he
    refine ⟨p.order - 1, ?_, ?_⟩ <;> cases p <;> rfl

theorem ledger_noted (channel : Channel) (message : String) : (s.noted channel message).ledger = s.ledger := by
  unfold noted
  split_ifs <;> rfl

theorem ledger_blamed (f : Fault) : (s.blamed f).ledger = s.ledger := by
  unfold blamed
  split_ifs
  · exact ledger_noted _ _
  · rfl

theorem Change.begins {may : Leave} (hc : s.Change may s') (hdraw : ¬ may.draw) : s.Begins [] s' := by
  cases hc with
  | quiet hq =>
    cases hq with
    | noted channel message => exact begins_of_ledger (ledger_noted channel message)
    | drawn hmay | bare _ _ _ hmay | multiplicity _ hmay => exact absurd hmay hdraw
  | timestamp t he =>
    -- a moment of creation is written beside the number that it belongs to
    refine begins_of_contains rfl fun e' he' => ?_
    rwa [contains_setTimestamp he] at he'
  | newEnumeration _ _ _ _ _ hmay | newLiteral _ _ _ _ _ hmay | newClass _ _ _ _ _ _ _ _ hmay
  | newProperty _ _ _ _ _ hmay | newParameter _ _ _ _ hmay | newMethod _ _ _ _ _ _ hmay
  | newAssociation _ _ _ _ _ _ hmay | newGeneralization _ _ _ _ _ hmay | newGeneralizationSet _ _ _ _ hmay
  | newPackage _ _ _ _ hmay | newConstraint _ _ _ _ hmay | newModel _ _ _ _ _ _ _ _ _ hmay =>
    exact absurd hmay hdraw
  | _ => exact begins_of_ledger rfl

theorem Reaches.begins {may : Leave} (h : s.Reaches may s') (hdraw : ¬ may.draw) : s.Begins [] s' := by
  induction h with
  | refl => exact begins_of_ledger rfl
  | tail _ hc ih => exact ih.idle (hc.begins hdraw)

end Store

namespace Edit
variable {α β : Type} {kind : Kind} {r : Ref kind} {kinds : List Kind}

/-- Accepted or rejected, the edit begins elements of these kinds, in this order. -/
def Begins (x : Edit α) (kinds : List Kind) : Prop :=
  ∀ s : Store, x.Ensures s (fun _ s' => s.Begins kinds s') fun _ s' => s.Begins kinds s'

theorem Begins.map {x : Edit α} (hx : x.Begins kinds) (f : α → β) : (f <$> x).Begins kinds :=
  fun s => ensures_map.2 (hx s)

theorem Begins.bind {x : Edit α} {k : α → Edit β} (hx : x.Begins kinds) (hk : ∀ a, (k a).Begins []) :
    (x >>= k).Begins kinds :=
  fun s => (hx s).bind fun a s' h => (hk a s').mono (fun _ _ => h.idle) fun _ _ => h.idle

theorem idle_pure (a : α) : (pure a : Edit α).Begins [] := fun _ => Store.begins_of_ledger rfl

theorem idle_get : (get : Edit Store).Begins [] := fun _ => Store.begins_of_ledger rfl

theorem idle_modify {f : Store → Store} (hf : ∀ s, (f s).ledger = s.ledger) : (modify f : Edit Unit).Begins [] :=
  fun s => Store.begins_of_ledger (hf s)

theorem idle_note (channel : Channel) (message : String) : (note channel message).Begins [] :=
  idle_modify fun _ => Store.ledger_noted channel message

theorem idle_check (q : Store → Except Fault α) : (check q).Begins [] := by
  refine fun s => ensures_check.2 ⟨fun _ _ => Store.begins_of_ledger rfl, fun f _ => ?_⟩
  exact Store.begins_of_ledger (s.ledger_blamed f)

theorem idle_check_modify {q : Store → Except Fault α} {f : α → Store → Store}
    (hf : ∀ a s, (f a s).ledger = s.ledger) : (check q >>= fun a => modify (f a)).Begins [] :=
  (idle_check q).bind fun a => idle_modify (hf a)

theorem idle_check_note (q : Store → Except Fault Unit) (channel : Channel) (message : String) :
    (do check q; note channel message : Edit Unit).Begins [] :=
  (idle_check q).bind fun _ => idle_note channel message

theorem idle_modify_note {f : Store → Store} {channel : Channel} {message : Store → String}
    (hf : ∀ s, (f s).ledger = s.ledger) : (do modify f; note channel (message (← get)) : Edit Unit).Begins [] :=
  (idle_modify hf).bind fun _ => idle_get.bind fun _ => idle_note channel _

theorem idle_linkEnds (a : AssociationRef) (xs : OrderedSet PropertyRef) (cs : List ClassRef) :
    (linkEnds a xs cs).Begins [] := idle_modify_note fun _ => rfl

theorem idle_replaceMethods (c : ClassRef) (l : List MethodRef) : (replaceMethods c l).Begins [] := by
  apply idle_check_modify
  exact fun _ _ => rfl

theorem idle_enterMultiplicity (m : Multiplicity) : (enterMultiplicity m).Begins [] :=
  fun _ => Store.begins_of_ledger rfl

theorem idle_multiplicityOrOne (m : Option MultiplicityRef) : (multiplicityOrOne m).Begins [] := by
  cases m with
  | some m => exact idle_pure m
  | none => exact idle_enterMultiplicity .one

/-- The edit begins its element before those of the other kinds, and if it is accepted it answers with that. -/
def Starts (x : Edit (Ref kind)) (kinds : List Kind) : Prop :=
  ∀ s : Store, x.Ensures s (fun r s' => r.order = s.created + 1 ∧ s.Begins (kind :: kinds) s')
    fun _ s' => s.Begins (kind :: kinds) s'

/-- The rest of a construction, which begins elements of these kinds, answers with the element begun before. -/
def Completes (x : Edit (Ref kind)) (r : Ref kind) (kinds : List Kind) : Prop :=
  ∀ (s₀ s : Store) (earlier : List Kind), r.order = s₀.created + 1 → s₀.Begins (kind :: earlier) s →
    x.Ensures s (fun r' s' => r' = r ∧ s₀.Begins (kind :: earlier ++ kinds) s')
      fun _ s' => s₀.Begins (kind :: earlier ++ kinds) s'

theorem completes_return : (pure r : Edit (Ref kind)).Completes r [] :=
  fun _ _ _ _ h => ⟨rfl, h.trans (Store.begins_of_ledger rfl)⟩

theorem Completes.after {x : Edit α} {k : α → Edit (Ref kind)} (hx : x.Begins kinds)
    (hk : ∀ a, (k a).Completes r []) : (x >>= k).Completes r kinds := by
  intro s₀ s earlier hr h
  refine ensures_bind.2 ((hx s).mono (fun a s' h' => ?_) fun _ _ => h.trans)
  have hrest := hk a s₀ s' (earlier ++ kinds) hr (h.trans h')
  rwa [List.append_nil] at hrest

theorem Completes.enter {f : Store → Store} {k : Unit → Edit (Ref kind)} (timestamp : Option Int)
    (hf : ∀ s, (f s).ledger = (s.enter r.element timestamp).ledger) (hk : (k ()).Completes r []) :
    ((modify f : Edit Unit) >>= k).Completes r [] :=
  fun s₀ s earlier hr h => ensures_bind.2 (hk s₀ (f s) earlier hr (h.enter hr (hf s)))

theorem completes_enter {f : Store → Store} {timestamp : Option Int}
    (hf : ∀ s, (f s).ledger = (s.enter r.element timestamp).ledger) :
    (do modify f; return r : Edit (Ref kind)).Completes r [] := .enter timestamp hf completes_return

theorem starts_draw {k : Nat → Edit (Ref kind)} (hk : ∀ n, (k n).Completes ⟨n⟩ []) : (draw >>= k).Starts [] := by
  intro s
  have hrest := hk (s.created + 1) s _ [] rfl (s.begins_drawn kind)
  exact ensures_bind.2 (hrest.mono (fun r s' h => ⟨congrArg Ref.order h.1, h.2⟩) fun _ _ => id)

theorem ensures_beginElement_bind {s : Store} {name : Value} {o : NamedOptions} {k : Ref kind × Label → Edit α}
    {Q : α → Store → Prop} {E : Fault → Store → Prop}
    (hk : ∀ l, Label.check kind name o = .ok l →
      (k (⟨s.created + 1⟩, l)).Ensures { s with created := s.created + 1 } Q E)
    (hrefused : ∀ f, Label.check kind name o = .error f → E f (Store.blamed { s with created := s.created + 1 } f)) :
    (beginElement kind name o >>= k).Ensures s Q E :=
  ensures_bind.2 (ensures_bind.2 (ensures_draw.2 (ensures_bind.2 (ensures_check.2 ⟨hk, hrefused⟩))))

theorem starts_beginElement {name : Value} {o : NamedOptions} {k : Ref kind × Label → Edit (Ref kind)}
    (hk : ∀ r l, Label.check kind name o = .ok l → (k (r, l)).Completes r kinds)
    (hrefused : ∀ f, Label.check kind name o = .error f → kinds = []) :
    (beginElement kind name o >>= k).Starts kinds := by
  intro s
  have hdrawn := s.begins_drawn kind
  refine ensures_beginElement_bind (fun l hl => ?_) fun f hf => ?_
  · have hrest := hk ⟨s.created + 1⟩ l hl s _ [] rfl hdrawn
    exact hrest.mono (fun r s' h => ⟨congrArg Ref.order h.1, h.2⟩) fun _ _ => id
  · -- refused for its name or its visibility, the element has been begun all the same
    rw [hrefused f hf]
    exact hdrawn.idle (Store.begins_of_ledger (Store.ledger_blamed f))

theorem starts_named {name : Value} {o : NamedOptions} {k : Ref kind × Label → Edit (Ref kind)}
    (hk : ∀ r l, (k (r, l)).Completes r []) : (beginElement kind name o >>= k).Starts [] :=
  starts_beginElement (fun r l _ => hk r l) fun _ _ => rfl

theorem starts_enter {name : Value} {o : NamedOptions} {f : Ref kind × Label → Store → Store} {timestamp : Option Int}
    (hf : ∀ x s, (f x s).ledger = (s.enter x.1.element timestamp).ledger) :
    (beginElement kind name o >>= fun x => do modify (f x); return x.1).Starts [] :=
  starts_named fun r l => completes_enter (hf (r, l))

theorem starts_check_enter {name : Value} {o : NamedOptions} {q : Ref kind × Label → Store → Except Fault Unit}
    {f : Ref kind × Label → Store → Store} {timestamp : Option Int}
    (hf : ∀ x s, (f x s).ledger = (s.enter x.1.element timestamp).ledger) :
    (beginElement kind name o >>= fun x => do check (q x); modify (f x); return x.1).Starts [] :=
  starts_named fun r l => .after (idle_check (q (r, l))) fun _ => completes_enter (hf (r, l))

theorem starts_createBare (kind : Kind) (name : Value) (o : NamedOptions) : (createBare kind name o).Starts [] := by
  apply starts_enter
  exact fun _ _ => rfl

theorem starts_typed {source : TypeSource} {name : Value} {o : NamedOptions} {k : Ref kind × Label → Edit (Ref kind)}
    (hk : ∀ r l, (k (r, l)).Completes r source.begins) :
    (beginElement kind name o >>= k).Starts (source.beginsFor kind name o) := by
  unfold TypeSource.beginsFor
  cases hlabel : Label.check kind name o with
  | ok l => exact starts_beginElement (fun r l _ => hk r l) fun f hf => nomatch hlabel.symm.trans hf
  | error f => exact starts_beginElement (fun r l hl => nomatch hlabel.symm.trans hl) fun _ _ => rfl

theorem Starts.bind {x : Edit (Ref kind)} {k : Ref kind → Edit (Ref kind)} (hx : x.Starts kinds)
    (hk : ∀ r, (k r).Completes r []) : (x >>= k).Starts kinds := by
  intro s
  refine (hx s).bind fun r s' h => ?_
  have hrest := hk r s s' kinds h.1 h.2
  rw [List.append_nil] at hrest
  exact hrest.mono (fun r' s'' h' => ⟨h'.1 ▸ h.1, h'.2⟩) fun _ _ => id

theorem begins_resolve (source : TypeSource) (s : Store) :
    (resolve source).Ensures s
      (fun t s' => s.Begins source.begins s' ∧ ∀ kind ∈ source.begins, t.element = ⟨kind, s.created + 1⟩)
      fun _ s' => s.Begins source.begins s' := by
  cases source with
  | known t => exact ⟨Store.begins_of_ledger rfl, nofun⟩
  | named v =>
    unfold resolve TypeSource.begins
    dsimp only
    cases v.text?.bind Primitive.ofAlias? with
    | some p => exact ⟨Store.begins_of_ledger rfl, nofun⟩
    | none =>
      refine ensures_map.2 ((starts_createBare .plainType v {} s).mono (fun r s' h => ⟨h.2, fun kind hkind => ?_⟩)
        fun _ _ => id)
      rw [List.mem_singleton.1 hkind, ← h.1]
      rfl

theorem begins_resolve_source (source : TypeSource) : (resolve source).Begins source.begins :=
  fun s => (begins_resolve source s).mono (fun _ _ h => h.1) fun _ _ => id

theorem starts_createClassOf (isAssociationClass : Bool) (name : Value) (o : ClassOptions) :
    (createClassOf isAssociationClass name o).Starts [] := by
  refine starts_named fun r l => .after (idle_check _) fun _ => .enter o.timestamp (fun s => ?_) ?_
  · rfl
  -- a class whose methods are refused has been entered by then
  · exact .after (idle_replaceMethods r o.methods) fun _ => completes_return

theorem starts_createAssociationClass (name : Value) (attributes : List PropertyRef) (a : AssociationRef)
    (o : ClassOptions) : (createAssociationClass name attributes a o).Starts [] := by
  have hclass := starts_createClassOf true name { o with attributes }
  refine hclass.bind fun r => .after (idle_modify fun s => ?_) fun _ => completes_return
  rfl

theorem starts_createProperty (name : Value) (type : TypeSource) (o : PropertyOptions) :
    (createProperty name type o).Starts (type.beginsFor .property name o.toNamedOptions) := by
  refine starts_typed fun r l => .after (begins_resolve_source type) fun _ => .after (idle_check _) fun _ => ?_
  refine .after (idle_multiplicityOrOne o.multiplicity) fun _ => ?_
  apply completes_enter
  exact fun _ => rfl

theorem starts_createParameter (name : Value) (type : TypeSource) (o : ParameterOptions) :
    (createParameter name type o).Starts (type.beginsFor .parameter name o.toNamedOptions) := by
  refine starts_typed fun r l => .after (begins_resolve_source type) fun _ => ?_
  apply completes_enter
  exact fun _ => rfl

theorem starts_createMethod (name : Value) (o : MethodOptions) :
    (createMethod name o).Starts (o.type.orVoid.beginsFor .method name o.toNamedOptions) := by
  refine starts_typed fun r l => .after (begins_resolve_source o.type.orVoid) fun _ => ?_
  refine .after (idle_check _) fun _ => .after (idle_check _) fun _ => ?_
  apply completes_enter
  exact fun _ => rfl

theorem starts_createAssociation (isBinary : Bool) (name : Value) (ends : List PropertyRef) (o : NamedOptions) :
    (createAssociation isBinary name ends o).Starts [] := by
  refine starts_named fun r l => .after (idle_check _) fun cs => .enter o.timestamp (fun s => ?_) ?_
  · rfl
  · exact .after (idle_linkEnds r (.ofList ends) cs) fun _ => completes_return

theorem starts_createModel (name : Value) (o : ModelOptions) : (createModel name o).Starts [] := by
  refine starts_named fun r l => .after (idle_check_note _ _ _) fun _ => .after (idle_check _) fun _ => ?_
  refine .after (idle_check _) fun _ => .after (idle_check_note _ _ _) fun _ => ?_
  apply completes_enter
  exact fun _ => rfl

def Tells (x : Edit Datum) (kinds : List Kind) (s : Store) : Prop :=
  x.Ensures s
    (fun d s' => s.Begins kinds s' ∧ ∀ kind ∈ kinds.head?, d.item? = some (.element ⟨kind, s.created + 1⟩))
    fun _ s' => s.Begins kinds s'

theorem Begins.tells {x : Edit Datum} (hx : x.Begins []) (s : Store) : x.Tells [] s :=
  (hx s).mono (fun _ _ h => ⟨h, nofun⟩) fun _ _ => id

theorem Starts.tells {x : Edit (Ref kind)} (hx : x.Starts kinds) (s : Store) :
    Tells (Construction.created <$> x) (kind :: kinds) s := by
  refine ensures_map.2 ((hx s).mono (fun r s' h => ⟨h.2, fun kind' hkind => ?_⟩) fun _ _ => id)
  rw [← Option.some.inj hkind, ← h.1]
  rfl

end Edit

open Edit

theorem Construction.tells (c : Construction) (s : Store) : c.edit.Tells c.begins s := by
  cases c with
  | multiplicity lower upper =>
    refine Begins.tells (Begins.map ((idle_check _).bind fun m => ?_) _) s
    exact idle_enterMultiplicity m
  | plainType name o => exact (starts_createBare .plainType name o).tells s
  | dataType name o => exact (starts_createBare .dataType name o).tells s
  | primitiveType name o => exact (starts_createBare .primitiveType name o).tells s
  | enumeration | literal =>
    refine Starts.tells ?_ s
    apply starts_check_enter
    exact fun _ _ => rfl
  | classType name o => exact (starts_createClassOf false name o).tells s
  | associationClass name attributes a o => exact (starts_createAssociationClass name attributes a o).tells s
  | property name type o => exact (starts_createProperty name type o).tells s
  | parameter name type o => exact (starts_createParameter name type o).tells s
  | method name o => exact (starts_createMethod name o).tells s
  | association isBinary name ends o => exact (starts_createAssociation isBinary name ends o).tells s
  | generalization =>
    refine Starts.tells (starts_draw fun _ => .after (idle_check _) fun _ => ?_) s
    apply completes_enter
    exact fun _ => rfl
  | generalizationSet | package | constraint =>
    refine Starts.tells ?_ s
    apply starts_enter
    exact fun _ _ => rfl
  | model name o => exact (starts_createModel name o).tells s

theorem Command.idle (c : Command) {s : Store} (hs : s.Sound) (hm : ∀ i ∈ c.mentions, s.holds i) (hc : ¬ c.draws) :
    c.edit.Tells [] s := by
  let may : Leave := { Leave.any with draw := False }
  have hpermits : may.Permits s c := ⟨fun _ _ => trivial, fun _ => trivial, fun _ => trivial, hc⟩
  have hensures := c.ensures_of_permits hs hm hpermits
  refine hensures.mono (fun _ _ h => ⟨h.1.begins id, nofun⟩) fun _ _ h => ?_
  have hreaches : s.Reaches may _ := h.reaches
  exact hreaches.begins id

theorem Command.tells (c : Command) {s : Store} (hs : s.Sound) (hm : ∀ i ∈ c.mentions, s.holds i) :
    c.edit.Tells c.begins s := by
  cases c with
  | create handle c => exact c.tells s
  | resolve source handle =>
    refine ensures_map.2 ((begins_resolve source s).mono (fun t _ h => ⟨h.1, fun kind hkind => ?_⟩) fun _ _ => id)
    rw [Datum.item?_type, Item.type, h.2 kind (List.mem_of_mem_head? hkind)]
  | _ => exact Command.idle _ hs hm Bool.false_ne_true

end ClassDiagram
