import ClassDiagram.Proofs.Checks
import ClassDiagram.Proofs.Outcome
import ClassDiagram.Proofs.Reachable

/-! What is logged of a change to a collection. A clash of names is noted as it is raised and is then the whole log, but
nothing is noted of a second identifier. -/

namespace ClassDiagram

/-- It assigns a collection whose members must not share a name. -/
def Assignment.isCollective : Assignment → Bool
  | attributes .. | methods .. | literals .. | parameters .. | types .. | associations .. | packages ..
  | constraints .. => true
  | _ => false

def Call.isCollective : Call → Bool
  | addAttribute .. | addMethod .. | addLiteral .. | addParameter .. | addType .. | addAssociation .. | addPackage ..
  | addConstraint .. => true
  | _ => false

namespace Command

def isCollective : Command → Bool
  | assign a => a.isCollective
  | call c => c.isCollective
  | _ => false

def asksForIdentifiers : Command → Bool
  | assign (.attributes ..) | call (.addAttribute ..) => true
  | _ => false

end Command

/-- What is wrong with a collection is a clash of names or, if `second` says so, a second identifier. -/
def Objects (second : Bool) (v : Except Fault Unit) : Prop :=
  ∀ f, v = .error f → f.kind = .duplicateName ∨ second ∧ f.kind = .multipleIdentifiers

section
variable {second : Bool} {v w : Except Fault Unit} {holder collection member name : String} {names others : List String}

theorem objects_uniqueNames : Objects second (uniqueNames holder collection names) := by
  intro f hf
  obtain ⟨_, rfl⟩ := uniqueNames_eq_error_iff.1 hf
  exact Or.inl rfl

theorem objects_freeName : Objects second (freeName holder member others name) := by
  intro f hf
  unfold freeName at hf
  split at hf <;> cases hf
  exact Or.inl rfl

theorem Objects.identifiers {P : Prop} [Decidable P] (h : Objects true v) :
    Objects true (v >>= fun _ => if P then .error (.multipleIdentifiers name) else .ok ()) := by
  intro f hf
  cases v with
  | error f' => exact h f hf
  | ok =>
    change (if P then Except.error (Fault.multipleIdentifiers name) else .ok ()) = .error f at hf
    split at hf <;> cases hf
    exact Or.inr ⟨rfl, rfl⟩

end

namespace Store
variable {s : Store} {f : Fault}

theorem log_noted (hlistening : s.listening) (hlog : s.log = []) (channel : Channel) (message : String) :
    (s.noted channel message).log = [⟨channel, message⟩] := by
  rw [noted, if_pos hlistening]
  show s.log ++ [_] = _
  rw [hlog, List.nil_append]

theorem log_blamed_of_duplicateName (hlistening : s.listening) (hlog : s.log = []) (hf : f.kind = .duplicateName) :
    (s.blamed f).log = [⟨.error, f.message⟩] := by
  have hclash : f.isNameClash := by cases f <;> first | rfl | cases hf
  rw [blamed, if_pos hclash, log_noted hlistening hlog]

theorem blamed_of_multipleIdentifiers (hf : f.kind = .multipleIdentifiers) : s.blamed f = s := by
  have hclash : ¬ f.isNameClash := by cases f <;> first | exact Bool.false_ne_true | cases hf
  rw [blamed, if_neg hclash]

end Store

namespace Edit
variable {α β : Type}

/-- Accepted, the edit leaves nothing on the error channel; refused, it leaves there the message of a clash of names and
nothing else, and nothing at all for a second identifier. -/
def Logs (x : Edit α) (s : Store) (second : Bool) : Prop :=
  x.Ensures s (fun _ s' => ∀ e ∈ s'.log, e.channel = .model) fun f s' =>
    f.kind = .duplicateName ∧ s'.log = [⟨.error, f.message⟩] ∨
      second ∧ f.kind = .multipleIdentifiers ∧ s'.log = []

variable {s t : Store} {second : Bool}

theorem Logs.map {x : Edit α} (h : x.Logs s second) (f : α → β) : (f <$> x).Logs s second := ensures_map.2 h

theorem logs_get_bind {k : Store → Edit α} (h : (k s).Logs s second) : (get >>= k).Logs s second := ensures_bind.2 h

theorem Passes.logs {x : Edit Unit} {v : Except Fault Unit} (h : Passes x s v t) (hv : Objects second v)
    (hlistening : s.listening) (hlog : s.log = []) (ht : ∀ e ∈ t.log, e.channel = .model) : x.Logs s second := by
  unfold Passes at h
  unfold Logs Ensures
  rw [h]
  cases v with
  | ok => exact ht
  | error f =>
    rcases hv f rfl with hclash | ⟨hsecond, hidentifiers⟩
    · exact Or.inl ⟨hclash, Store.log_blamed_of_duplicateName hlistening hlog hclash⟩
    · refine Or.inr ⟨hsecond, hidentifiers, ?_⟩
      show (s.blamed f).log = []
      rw [Store.blamed_of_multipleIdentifiers hidentifiers, hlog]

section
variable {q : Store → Except Fault Unit} {g : Store → Store} (hlistening : s.listening) (hlog : s.log = [])
include hlistening hlog

theorem logs_check_modify (hq : Objects second (q s)) (hg : (g s).log = s.log) :
    Logs (do check q; modify g) s second := by
  refine passes_check_modify.logs hq hlistening hlog fun e he => ?_
  rw [hg, hlog] at he
  cases he

theorem logs_check_note_modify {message : Store → String} (hq : Objects second (q s))
    (hg : ∀ t, (g t).log = t.log) :
    Logs (do
      let s₀ ← get
      (do check q; note .model (message s₀))
      modify g) s second := by
  refine passes_check_note_modify.logs hq hlistening hlog fun e he => ?_
  rw [hg, Store.log_noted hlistening hlog] at he
  cases List.mem_singleton.1 he
  rfl

end

end Edit

theorem Assignment.logs {s : Store} (hlistening : s.listening) (hlog : s.log = []) (a : Assignment)
    (ha : a.isCollective) : a.edit.Logs s (Command.assign a).asksForIdentifiers := by
  cases a with
  | attributes c l => exact Edit.logs_check_modify hlistening hlog objects_uniqueNames.identifiers rfl
  | methods c l => exact Edit.logs_check_modify hlistening hlog objects_uniqueNames rfl
  | literals e l => exact Edit.logs_check_modify hlistening hlog objects_uniqueNames rfl
  | parameters m l => exact Edit.logs_check_modify hlistening hlog objects_uniqueNames rfl
  | types m l =>
    apply Edit.logs_check_note_modify hlistening hlog
    · exact objects_uniqueNames
    · exact fun _ => rfl
  | associations m l =>
    apply Edit.logs_check_note_modify hlistening hlog
    · exact objects_uniqueNames
    · exact fun _ => rfl
  | packages m l => exact Edit.logs_check_modify hlistening hlog objects_uniqueNames rfl
  | constraints m l => exact Edit.logs_check_modify hlistening hlog objects_uniqueNames rfl
  | _ => exact absurd ha Bool.false_ne_true

theorem Call.logs {s : Store} (hlistening : s.listening) (hlog : s.log = []) (k : Call) (hk : k.isCollective) :
    k.edit.Logs s (Command.call k).asksForIdentifiers := by
  cases k with
  | addAttribute c p => exact (Edit.logs_check_modify hlistening hlog objects_freeName.identifiers rfl).map _
  | addMethod c m => exact (Edit.logs_check_modify hlistening hlog objects_freeName rfl).map _
  | addLiteral e l => exact (Edit.logs_check_modify hlistening hlog objects_freeName rfl).map _
  | addParameter m p => exact (Edit.logs_check_modify hlistening hlog objects_freeName rfl).map _
  -- to add to a collection of a model is to assign it, so the same is noted
  | addType m t => exact (Edit.logs_get_bind (Assignment.logs hlistening hlog (.types m _) rfl)).map _
  | addAssociation m a => exact (Edit.logs_get_bind (Assignment.logs hlistening hlog (.associations m _) rfl)).map _
  | addPackage m p => exact (Edit.logs_get_bind (Assignment.logs hlistening hlog (.packages m _) rfl)).map _
  | addConstraint m k => exact (Edit.logs_get_bind (Assignment.logs hlistening hlog (.constraints m _) rfl)).map _
  | _ => exact absurd hk Bool.false_ne_true

theorem Command.logs {s : Store} (hlistening : s.listening) (hlog : s.log = []) (c : Command) (hc : c.isCollective) :
    c.edit.Logs s c.asksForIdentifiers := by
  cases c with
  | assign a => exact (Assignment.logs hlistening hlog a hc).map _
  | call k => exact Call.logs hlistening hlog k hc
  | _ => exact absurd hc Bool.false_ne_true

/--
While somebody listens, whenever a collection of members with distinct names is assigned or added to, something is noted
on the error channel exactly if the command is refused, but for a second identifier. What is refused for a clash of
names leaves the message of its fault and nothing else in the log; a second identifier, for which only attributes are
refused, leaves the log empty.
-/
theorem refusals_logged (s : Session) (c : Command) (hlistening : s.store.listening) (hc : c.isCollective)
    (hbound : c.mentions.all s.binds) :
    let log := (s.perform c).1.store.log
    ((∃ e ∈ log, e.channel = .error) ↔ ∃ f, (s.perform c).2 = .fault f ∧ f.kind ≠ .multipleIdentifiers) ∧
    ∀ f, (s.perform c).2 = .fault f →
      f.kind = .duplicateName ∧ log = [⟨.error, f.message⟩] ∨
        c.asksForIdentifiers ∧ f.kind = .multipleIdentifiers ∧ log = [] := by
  intro log
  have hlogs : c.edit.Logs { s.store with log := [] } c.asksForIdentifiers :=
    Command.logs (s := { s.store with log := [] }) hlistening rfl c hc
  cases he : c.edit { s.store with log := [] } with
  | ok d store =>
    have hp : s.perform c = (Session.bind { s with store } c.handle? d, .answer d) := by
      rw [Session.perform, if_pos hbound, he]
    have hlog : log = store.log := by
      show (s.perform c).1.store.log = _
      rw [hp, Session.store_bind]
    have hmodel : ∀ e ∈ log, e.channel = .model := hlog ▸ hlogs.of_ok he
    have hanswer : ∀ f, (s.perform c).2 ≠ .fault f := by
      intro f
      rw [hp]
      exact nofun
    refine ⟨iff_of_false ?_ fun h => ?_, fun f hf => absurd hf (hanswer f)⟩
    · rintro ⟨e, hmem, herror⟩
      exact Channel.noConfusion ((hmodel e hmem).symm.trans herror)
    · obtain ⟨f, hf, _⟩ := h
      exact hanswer f hf
  | error f store =>
    have hp : s.perform c = ({ s with store }, .fault f) := by
      rw [Session.perform, if_pos hbound, he]
    have hlog : log = store.log := congrArg (·.1.store.log) hp
    have hfault : ∀ f', (s.perform c).2 = .fault f' ↔ f' = f := by
      intro f'
      rw [hp]
      exact ⟨fun h => (Outcome.fault.inj h).symm, fun h => h ▸ rfl⟩
    have hrefused := hlogs.of_error he
    rw [← hlog] at hrefused
    simp only [hfault, exists_eq_left, forall_eq]
    refine ⟨?_, hrefused⟩
    rcases hrefused with ⟨hclash, hnoted⟩ | ⟨_, hidentifiers, hnothing⟩
    · refine iff_of_true ⟨_, hnoted ▸ List.mem_singleton_self _, rfl⟩ ?_
      rw [hclash]
      exact ReportKind.noConfusion
    · rw [hnothing]
      exact iff_of_false nofun fun h => h hidentifiers

def Session.identifiers : Session :=
  (Session.initial Uuid.spread).run
    [.create "c" (.classType (.text "C") {}),
      .create "p" (.property (.text "p") (.known Primitive.int.type) { isId := .bool true }),
      .create "q" (.property (.text "q") (.known Primitive.int.type) { isId := .bool true })]

theorem refusals_logged_of_equal_names :
    let s := Session.identifiers.run [.assign (.name (Ref.element (⟨11⟩ : PropertyRef)) (.text "p"))]
    let c := Command.assign (.attributes ⟨9⟩ [⟨10⟩, ⟨11⟩])
    let log := (s.perform c).1.store.log
    (s.store.listening ∧ c.isCollective ∧ c.mentions.all s.binds) ∧
      (∃ e ∈ log, e.channel = .error) ∧
      ∃ f, (s.perform c).2 = .fault f ∧ f.kind = .duplicateName ∧ log = [⟨.error, f.message⟩] := by
  intro s c log
  have hlistening : s.store.listening := by decide
  have hbound : c.mentions.all s.binds := by decide
  obtain ⟨herror, hrefused⟩ := refusals_logged s c hlistening rfl hbound
  have hfault : (s.perform c).2 = .fault (.duplicateNames "A class" "attributes" ["p"]) := by rfl
  refine ⟨⟨hlistening, rfl, hbound⟩, herror.2 ⟨_, hfault, by decide⟩, _, hfault, ?_⟩
  exact (hrefused _ hfault).resolve_right fun h => ReportKind.noConfusion h.2.1

/-- Two identifiers are refused as the attributes of a class, but nothing is logged. -/
theorem second_identifier_not_logged :
    let s := Session.identifiers
    let c := Command.assign (.attributes ⟨9⟩ [⟨10⟩, ⟨11⟩])
    s.store.listening ∧ c.isCollective ∧ c.mentions.all s.binds ∧
      ∃ f, (s.perform c).2 = .fault f ∧ f = .multipleIdentifiers "C" ∧ (s.perform c).1.store.log = [] := by
  intro s c
  refine ⟨by decide, by decide, by decide, .multipleIdentifiers "C", ?_, rfl, ?_⟩
  · rfl
  · rfl

end ClassDiagram
