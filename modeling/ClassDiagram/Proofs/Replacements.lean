import ClassDiagram.Proofs.Ownership
import Mathlib.Data.Finset.Card

/-! What it takes to assign a collection, and all that comes of it. -/

namespace ClassDiagram

section
variable {α : Type}

/-- Two different members of a list bear the name. -/
def Clashes (name : α → String) (l : List α) (n : String) : Prop :=
  ∃ x ∈ l, ∃ y ∈ l, x ≠ y ∧ name x = n ∧ name y = n

variable [DecidableEq α]

theorem one_lt_countP_iff {l : List α} (h : l.Nodup) (p : α → Bool) :
    1 < l.countP p ↔ ∃ x ∈ l, ∃ y ∈ l, x ≠ y ∧ p x ∧ p y := by
  have hcard : l.countP p = (l.filter p).toFinset.card := by
    rw [List.toFinset_card_of_nodup (h.filter p), List.countP_eq_length_filter]
  rw [hcard, Finset.one_lt_card]
  simp only [List.mem_toFinset, List.mem_filter]
  constructor
  · rintro ⟨x, ⟨hx, hpx⟩, y, ⟨hy, hpy⟩, hne⟩
    exact ⟨x, hx, y, hy, hne, hpx, hpy⟩
  · rintro ⟨x, hx, y, hy, hne, hpx, hpy⟩
    exact ⟨x, ⟨hx, hpx⟩, y, ⟨hy, hpy⟩, hne⟩

theorem one_lt_countP_ofList_iff (l : List α) (p : α → Bool) :
    1 < (OrderedSet.ofList l).toList.countP p ↔ ∃ x ∈ l, ∃ y ∈ l, x ≠ y ∧ p x ∧ p y := by
  have hmem : ∀ x, x ∈ (OrderedSet.ofList l).toList ↔ x ∈ l := fun _ => OrderedSet.mem_ofList
  rw [one_lt_countP_iff (OrderedSet.nodup _)]
  simp only [hmem]

theorem mem_duplicates_ofList {name : α → String} {l : List α} {n : String} :
    n ∈ Names.duplicates ((OrderedSet.ofList l).toList.map name) ↔ Clashes name l n := by
  have hcount : ((OrderedSet.ofList l).toList.map name).count n =
      (OrderedSet.ofList l).toList.countP fun x => name x == n := by
    rw [List.count, List.countP_map]
    rfl
  rw [Names.mem_duplicates, hcount]
  refine (one_lt_countP_ofList_iff l _).trans ?_
  simp only [beq_iff_eq]
  rfl

theorem nodup_names_ofList_iff {name : α → String} {l : List α} :
    ((OrderedSet.ofList l).toList.map name).Nodup ↔ ¬ ∃ n, Clashes name l n := by
  rw [← Names.duplicates_eq_nil_iff, List.eq_nil_iff_forall_not_mem, not_exists]
  exact forall_congr' fun n => not_congr mem_duplicates_ofList

end

namespace Table
variable {κ α ο : Type} [Key κ] [DecidableEq κ] [Inhabited α]

/-- A table after one collection, the `field` of one record, has been made to list the members of a list. -/
structure Listed {μ : Type} [DecidableEq μ] (t t' : Table κ α) (k : κ) (field : α → OrderedSet μ)
    (put : OrderedSet μ → α → α) (l : List μ) : Prop where
  lists : (field (t'.get k)).Lists l
  changed : t'.get k = put (field (t'.get k)) (t.get k)
  other : ∀ j, j ≠ k → t'.get j = t.get j

theorem listed_modify {μ : Type} [DecidableEq μ] (field : α → OrderedSet μ) (put : OrderedSet μ → α → α)
    (hput : ∀ xs a, field (put xs a) = xs) (t : Table κ α) (k : κ) (l : List μ) :
    t.Listed (t.modify k (put (.ofList l))) k field put l := by
  have hget : (t.modify k (put (.ofList l))).get k = put (.ofList l) (t.get k) := t.get_modify_self k _
  refine ⟨?_, ?_, fun j hj => ?_⟩
  · rw [hget, hput]
    exact OrderedSet.lists_ofList l
  · rw [hget, hput]
  · rw [get_modify, if_neg hj]

/--
A table after a holder has exchanged its `old` members for those of a list: these are its own now, an old one that is
dropped is nobody's if owners are released and the holder was its owner, and nothing else has changed.
-/
structure Exchanged [DecidableEq ο] (t t' : Table κ α) (owner : α → Option ο) (own : Option ο → α → α)
    (release : Bool) (holder : ο) (old : OrderedSet κ) (l : List κ) : Prop where
  taken : ∀ k ∈ l, t'.get k = own (some holder) (t.get k)
  dropped : ∀ k ∈ old, k ∉ l →
    t'.get k = if release ∧ owner (t.get k) = some holder then own none (t.get k) else t.get k
  other : ∀ k, k ∉ old → k ∉ l → t'.get k = t.get k

theorem exchanged_modifyAll [DecidableEq ο] (owner : α → Option ο) (own : Option ο → α → α) {holder : ο}
    {release : α → α} (hrelease : ∀ a, release a = if owner a = some holder then own none a else a) (released : Bool)
    (old : OrderedSet κ) (l : List κ) (t : Table κ α) :
    t.Exchanged ((if released then t.modifyAll (old.toList.filter (· ∉ OrderedSet.ofList l)) release else t).modifyAll
      (OrderedSet.ofList l).toList (own (some holder))) owner own released holder old l := by
  have hmem : ∀ k, k ∈ OrderedSet.ofList l ↔ k ∈ l := fun _ => OrderedSet.mem_ofList
  refine ⟨fun k hk => ?_, fun k hold hk => ?_, fun k hold hk => ?_⟩
  · rw [get_exchange, if_pos ((hmem k).2 hk)]
  · rw [get_exchange, if_neg (mt (hmem k).1 hk), hrelease]
    simp only [hold, and_true, ite_and]
  · rw [get_exchange, if_neg (mt (hmem k).1 hk), if_neg fun h => hold h.2]

end Table

namespace Edit
variable {μ : Type}

/--
An assignment of the listed members, as they are named in a store. It is refused for names exactly if different members
bear one name, and then tells these names, each once; it is refused with any other fault exactly if nobody's names clash
and the fault is in `Excess`; it is accepted exactly if it is not refused, and then is `Done`.
-/
structure Assigns (x : Edit Unit) (s : Store) (collection : String) (name : μ → String) (l : List μ)
    (Excess : Fault → Prop) (Done : Store → Prop) : Prop where
  clash : (∃ f, x.fault? s = some f ∧ f.kind = .duplicateName) ↔ ∃ n, Clashes name l n
  clashing : ∀ f, x.fault? s = some f → f.kind = .duplicateName → ∃ names : List String,
    f.report.details = [("names", Fault.nameList names), ("collection", .text collection)] ∧
      names.Nodup ∧ ∀ n, n ∈ names ↔ Clashes name l n
  excess : ∀ f, x.fault? s = some f ∧ f.kind ≠ .duplicateName ↔ (¬ ∃ n, Clashes name l n) ∧ Excess f
  accepted : (∃ s', x s = .ok () s') ↔ (¬ ∃ n, Clashes name l n) ∧ ∀ f, ¬ Excess f
  done : ∀ s', x s = .ok () s' → Done s'

variable {x : Edit Unit} {s t : Store}

theorem Assigns.of_passes [DecidableEq μ] {holder collection : String} {name : μ → String} {l : List μ}
    {v : Except Fault Unit} {Excess : Fault → Prop} {Done : Store → Prop}
    (hx : Passes x s (uniqueNames holder collection ((OrderedSet.ofList l).toList.map name) >>= fun _ => v) t)
    (hv : ∀ f, v = .error f ↔ Excess f) (hkind : ∀ f, Excess f → f.kind ≠ .duplicateName) (hdone : Done t) :
    Assigns x s collection name l Excess Done := by
  by_cases hnames : ((OrderedSet.ofList l).toList.map name).Nodup
  · -- no names clash, and what comes of it is left to the second check
    have hclash := nodup_names_ofList_iff.1 hnames
    rw [uniqueNames, if_pos hnames] at hx
    have hfault : ∀ f, x.fault? s = some f ↔ Excess f := fun f => hx.fault?_eq_some_iff.trans (hv f)
    have hok : ∀ s', x s = .ok () s' ↔ v = .ok () ∧ s' = t := fun s' => hx.eq_ok_iff
    refine ⟨iff_of_false ?_ hclash, fun f hf hdup => ?_, fun f => ?_, ?_, fun s' hs' => ?_⟩
    · rintro ⟨f, hf, hdup⟩
      exact hkind f ((hfault f).1 hf) hdup
    · exact absurd hdup (hkind f ((hfault f).1 hf))
    · rw [hfault]
      exact ⟨fun h => ⟨hclash, h.1⟩, fun h => ⟨h.2, hkind f h.2⟩⟩
    · cases v with
      | ok =>
        refine iff_of_true ⟨t, (hok t).2 ⟨rfl, rfl⟩⟩ ⟨hclash, fun f hf => ?_⟩
        cases (hv f).2 hf
      | error f =>
        refine iff_of_false (fun haccepted => ?_) fun h => h.2 f ((hv f).1 rfl)
        obtain ⟨s', hs'⟩ := haccepted
        cases ((hok s').1 hs').1
    · rw [((hok s').1 hs').2]
      exact hdone
  · -- names clash, and the second check is not reached
    have hclash : ∃ n, Clashes name l n := Classical.not_not.1 (mt nodup_names_ofList_iff.2 hnames)
    rw [uniqueNames, if_neg hnames] at hx
    have hfault : x.fault? s = some (.duplicateNames holder collection _) := hx.fault?_of_error
    have hok : ∀ s', x s ≠ .ok () s' := by
      intro s' hs'
      cases (hx.eq_ok_iff.1 hs').1
    refine ⟨iff_of_true ⟨_, hfault, rfl⟩ hclash, fun f hf _ => ?_, fun f => ?_, ?_, fun s' hs' => absurd hs' (hok s')⟩
    · cases hfault.symm.trans hf
      exact ⟨_, rfl, Names.nodup_duplicates _, fun n => mem_duplicates_ofList⟩
    · refine iff_of_false (fun h => ?_) fun h => h.1 hclash
      cases hfault.symm.trans h.1
      exact h.2 rfl
    · refine iff_of_false (fun haccepted => ?_) fun h => h.1 hclash
      obtain ⟨s', hs'⟩ := haccepted
      exact hok s' hs'

theorem Assigns.of_names [DecidableEq μ] {holder collection : String} {name : μ → String} {l : List μ}
    {Done : Store → Prop}
    (hx : Passes x s (uniqueNames holder collection ((OrderedSet.ofList l).toList.map name)) t) (hdone : Done t) :
    Assigns x s collection name l (fun _ => False) Done := by
  have hbind : (uniqueNames holder collection ((OrderedSet.ofList l).toList.map name) >>= fun _ => .ok ()) =
      uniqueNames holder collection ((OrderedSet.ofList l).toList.map name) := by
    cases uniqueNames holder collection ((OrderedSet.ofList l).toList.map name) <;> rfl
  exact Assigns.of_passes (v := .ok ()) (hbind.symm ▸ hx) (fun _ => ⟨nofun, False.elim⟩) (fun _ => False.elim) hdone

end Edit

/--
For every collection of named members, what an assignment is refused for and what it does. Members of classes and of
enumerations go over to their new owner, and the attributes of a class have at most one identifier among them; a model
has the primitive types besides the types that it is assigned, and notes how many types or associations it holds.
-/
theorem replacements_exact (s : Store) :
    (∀ (c : ClassRef) (l : List PropertyRef),
      Edit.Assigns (Edit.replaceAttributes c l) s "attributes" (·.name s) l
        (fun f => f = .multipleIdentifiers (c.name s) ∧ ∃ p ∈ l, ∃ q ∈ l, p ≠ q ∧ s.isId p ∧ s.isId q) fun s' =>
          s.classes.Listed s'.classes c ClassRecord.attributes (fun xs r => { r with attributes := xs }) l ∧
            s.properties.Exchanged s'.properties PropertyRecord.owner (fun o r => { r with owner := o }) s.ownerRelease
              (.type (.ofClass c)) (s.classes.get c).attributes l ∧
            s' = { s with classes := s'.classes, properties := s'.properties }) ∧
    (∀ (c : ClassRef) (l : List MethodRef),
      Edit.Assigns (Edit.replaceMethods c l) s "methods" (·.name s) l (fun _ => False) fun s' =>
        s.classes.Listed s'.classes c ClassRecord.methods (fun xs r => { r with methods := xs }) l ∧
          s.methods.Exchanged s'.methods MethodRecord.owner (fun o r => { r with owner := o }) s.ownerRelease
            (.ofClass c) (s.classes.get c).methods l ∧
          s' = { s with classes := s'.classes, methods := s'.methods }) ∧
    (∀ (e : EnumerationRef) (l : List LiteralRef),
      Edit.Assigns (Edit.replaceLiterals e l) s "literals" (·.name s) l (fun _ => False) fun s' =>
        s.enumerations.Listed s'.enumerations e EnumerationRecord.literals (fun xs r => { r with literals := xs }) l ∧
          s.literals.Exchanged s'.literals LiteralRecord.owner (fun o r => { r with owner := o }) s.ownerRelease
            (.ofEnumeration e) (s.enumerations.get e).literals l ∧
          s' = { s with enumerations := s'.enumerations, literals := s'.literals }) ∧
    (∀ (m : MethodRef) (l : List ParameterRef),
      Edit.Assigns (Edit.replaceParameters m l) s "parameters" (·.name s) l (fun _ => False) fun s' =>
        s.methods.Listed s'.methods m MethodRecord.parameters (fun xs r => { r with parameters := xs }) l ∧
          s' = { s with methods := s'.methods }) ∧
    ∀ m : ModelRef,
      (∀ l : List TypeRef,
        Edit.Assigns (Edit.replaceTypes m l) s "types" (·.name s) (l ++ Primitive.all.map Primitive.type)
          (fun _ => False) fun s' =>
            s.models.Listed s'.models m ModelRecord.types (fun xs r => { r with types := xs })
              (l ++ Primitive.all.map Primitive.type) ∧
            s' = { s with models := s'.models, log := s'.log }) ∧
      (∀ l : List AssociationRef,
        Edit.Assigns (Edit.replaceAssociations m l) s "associations" (·.name s) l (fun _ => False) fun s' =>
          s.models.Listed s'.models m ModelRecord.associations (fun xs r => { r with associations := xs }) l ∧
            s' = { s with models := s'.models, log := s'.log }) ∧
      (∀ l : List PackageRef,
        Edit.Assigns (Edit.replacePackages m l) s "packages" (·.name s) l (fun _ => False) fun s' =>
          s.models.Listed s'.models m ModelRecord.packages (fun xs r => { r with packages := xs }) l ∧
            s' = { s with models := s'.models }) ∧
      ∀ l : List ConstraintRef,
        Edit.Assigns (Edit.replaceConstraints m l) s "constraints" (·.name s) l (fun _ => False) fun s' =>
          s.models.Listed s'.models m ModelRecord.constraints (fun xs r => { r with constraints := xs }) l ∧
            s' = { s with models := s'.models } := by
  refine ⟨fun c l => ?_, fun c l => ?_, fun e l => ?_, fun m l => ?_, fun m =>
    ⟨fun l => ?_, fun l => ?_, fun l => ?_, fun l => ?_⟩⟩
  · refine Edit.Assigns.of_passes (Edit.passes_check_modify (s := s)) (fun f => ?_) (fun f hf => ?_) ⟨?_, ?_, rfl⟩
    · rw [← one_lt_countP_ofList_iff]
      split_ifs with hsecond
      · exact ⟨fun he => ⟨(Except.error.inj he).symm, hsecond⟩, fun he => congrArg _ he.1.symm⟩
      · exact ⟨nofun, fun he => absurd he.2 hsecond⟩
    · rw [hf.1]
      exact ReportKind.noConfusion
    · exact Table.listed_modify ClassRecord.attributes (fun xs r => { r with attributes := xs }) (fun _ _ => rfl) _ c l
    · exact Table.exchanged_modifyAll PropertyRecord.owner (fun o r => { r with owner := o })
        (fun _ : PropertyRecord => rfl) _ _ _ _
  · refine Edit.Assigns.of_names (Edit.passes_check_modify (s := s)) ⟨?_, ?_, rfl⟩
    · exact Table.listed_modify ClassRecord.methods (fun xs r => { r with methods := xs }) (fun _ _ => rfl) _ c l
    · exact Table.exchanged_modifyAll MethodRecord.owner (fun o r => { r with owner := o })
        (fun _ : MethodRecord => rfl) _ _ _ _
  · refine Edit.Assigns.of_names (Edit.passes_check_modify (s := s)) ⟨?_, ?_, rfl⟩
    · exact Table.listed_modify EnumerationRecord.literals (fun xs r => { r with literals := xs })
        (fun _ _ => rfl) _ e l
    · exact Table.exchanged_modifyAll LiteralRecord.owner (fun o r => { r with owner := o })
        (fun _ : LiteralRecord => rfl) _ _ _ _
  · refine Edit.Assigns.of_names (Edit.passes_check_modify (s := s)) ⟨?_, rfl⟩
    exact Table.listed_modify MethodRecord.parameters (fun xs r => { r with parameters := xs }) (fun _ _ => rfl) _ m l
  · refine Edit.Assigns.of_names (Edit.passes_check_note_modify (s := s)) ?_
    obtain ⟨log, hlog⟩ := s.exists_noted .model (Store.holdingMessage (m.name s) (Store.withPrimitives l).size "types")
    rw [hlog]
    refine ⟨?_, rfl⟩
    exact Table.listed_modify ModelRecord.types (fun xs r => { r with types := xs }) (fun _ _ => rfl) _ m _
  · refine Edit.Assigns.of_names (Edit.passes_check_note_modify (s := s)) ?_
    obtain ⟨log, hlog⟩ := s.exists_noted .model
      (Store.holdingMessage (m.name s) (OrderedSet.ofList l).size "associations")
    rw [hlog]
    refine ⟨?_, rfl⟩
    exact Table.listed_modify ModelRecord.associations (fun xs r => { r with associations := xs })
      (fun _ _ => rfl) _ m l
  · refine Edit.Assigns.of_names (Edit.passes_check_modify (s := s)) ⟨?_, rfl⟩
    exact Table.listed_modify ModelRecord.packages (fun xs r => { r with packages := xs }) (fun _ _ => rfl) _ m l
  · refine Edit.Assigns.of_names (Edit.passes_check_modify (s := s)) ⟨?_, rfl⟩
    exact Table.listed_modify ModelRecord.constraints (fun xs r => { r with constraints := xs }) (fun _ _ => rfl) _ m l

end ClassDiagram
