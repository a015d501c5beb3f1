import ClassDiagram.Session
import ClassDiagram.Proofs.Outcome
import Mathlib.Tactic.SplitIfs
import Mathlib.Tactic.Tauto

/-! Whatever an element refers to exists. Every table of records is one roster of the store, and what is shown of a
change to one of them is shown once for all. -/

namespace ClassDiagram

def ClassRecord.items (r : ClassRecord) : List Item :=
  Item.refs r.attributes.toList ++ Item.refs r.methods.toList ++ Item.refs r.associations.toList ++
    Item.refs r.generalizations.toList ++ Item.refs r.association.toList

def EnumerationRecord.items (r : EnumerationRecord) : List Item := Item.refs r.literals.toList

def LiteralRecord.items (r : LiteralRecord) : List Item := Item.types r.owner.toList

def PropertyRecord.items (r : PropertyRecord) : List Item :=
  .type r.type :: .multiplicity r.multiplicity :: Item.owners r.owner

def ParameterRecord.items (r : ParameterRecord) : List Item := [.type r.type]

def MethodRecord.items (r : MethodRecord) : List Item :=
  .type r.type :: Item.types r.owner.toList ++ Item.refs r.parameters.toList

def AssociationRecord.items (r : AssociationRecord) : List Item := Item.refs r.ends.toList

def GeneralizationRecord.items (r : GeneralizationRecord) : List Item := [.ref r.general, .ref r.specific]

def GeneralizationSetRecord.items (r : GeneralizationSetRecord) : List Item :=
  Item.refs r.generalizations.toList

def PackageRecord.items (r : PackageRecord) : List Item := Item.refs r.classes.toList

def ConstraintRecord.items (r : ConstraintRecord) : List Item := [.ref r.context]

def ModelRecord.items (r : ModelRecord) : List Item :=
  Item.types r.types.toList ++ Item.refs r.associations.toList ++ Item.refs r.generalizations.toList ++
    Item.refs r.packages.toList ++ Item.refs r.constraints.toList

theorem ModelRecord.forall_items {r : ModelRecord} {P : Item → Prop} :
    (∀ i ∈ r.items, P i) ↔ (∀ i ∈ Item.types r.types.toList, P i) ∧ (∀ i ∈ Item.refs r.associations.toList, P i) ∧
      (∀ i ∈ Item.refs r.generalizations.toList, P i) ∧ (∀ i ∈ Item.refs r.packages.toList, P i) ∧
      ∀ i ∈ Item.refs r.constraints.toList, P i := by
  simp only [items, List.forall_mem_append, and_assoc]

namespace Store

def itemsOf (s : Store) (e : Element) : List Item :=
  match e.kind with
  | .plainType | .dataType | .primitiveType => []
  | .enumeration => (s.enumerations.get ⟨e.order⟩).items
  | .classType => (s.classes.get ⟨e.order⟩).items
  | .literal => (s.literals.get ⟨e.order⟩).items
  | .property => (s.properties.get ⟨e.order⟩).items
  | .parameter => (s.parameters.get ⟨e.order⟩).items
  | .method => (s.methods.get ⟨e.order⟩).items
  | .association => (s.associations.get ⟨e.order⟩).items
  | .generalization => (s.generalizations.get ⟨e.order⟩).items
  | .generalizationSet => (s.generalizationSets.get ⟨e.order⟩).items
  | .package => (s.packages.get ⟨e.order⟩).items
  | .constraint => (s.constraints.get ⟨e.order⟩).items
  | .model => (s.models.get ⟨e.order⟩).items

def holds (s : Store) : Item → Prop
  | .element e => s.contains e = true
  | .multiplicity m => m.index < s.multiplicityCount

def Gains (s : Store) (l l' : List Item) : Prop := ∀ i ∈ l', i ∈ l ∨ s.holds i

/-- No element exceeds the numbers given out, the primitive types are there, and so is all that is referred to. -/
structure Sound (s : Store) : Prop where
  bounded : ∀ e, s.contains e → e.order ≤ s.created
  primitive : ∀ p : Primitive, s.contains p.ref.element
  closed : ∀ e, s.contains e → ∀ i ∈ s.itemsOf e, s.holds i

/-- A number that was given out and that no element has taken. -/
structure Spare (s : Store) (n : Nat) : Prop where
  drawn : n ≤ s.created
  untaken : s.headers.get? n = none

structure Grows (s s' : Store) : Prop where
  sound : s'.Sound
  holds : ∀ i, s.holds i → s'.holds i
  created : s.created ≤ s'.created

variable {s s' s'' : Store}

theorem Sound.refl (h : s.Sound) : s.Grows s := ⟨h, fun _ hi => hi, Nat.le_refl _⟩

theorem Grows.trans (h : s.Grows s') (h' : s'.Grows s'') : s.Grows s'' :=
  ⟨h'.sound, fun i hi => h'.holds i (h.holds i hi), Nat.le_trans h.created h'.created⟩

theorem Grows.all (h : s.Grows s') {l : List Item} (hl : ∀ i ∈ l, s.holds i) : ∀ i ∈ l, s'.holds i :=
  fun i hi => h.holds i (hl i hi)

theorem Gains.refl {l : List Item} : s.Gains l l := fun _ hi => Or.inl hi

theorem Gains.trans {l l' l'' : List Item} (h : s.Gains l l') (h' : s.Gains l' l'') : s.Gains l l'' := by
  intro i hi
  rcases h' i hi with hi | hi
  · exact h i hi
  · exact Or.inr hi

theorem gains_of_holds {l l' : List Item} (h : ∀ i ∈ l', s.holds i) : s.Gains l l' := fun i hi => Or.inr (h i hi)

theorem Gains.append {l₁ l₁' l₂ l₂' : List Item} (h₁ : s.Gains l₁ l₁') (h₂ : s.Gains l₂ l₂') :
    s.Gains (l₁ ++ l₂) (l₁' ++ l₂') := by
  intro i hi
  rw [List.mem_append] at hi ⊢
  rcases hi with hi | hi
  · exact (h₁ i hi).imp_left Or.inl
  · exact (h₂ i hi).imp_left Or.inr

theorem Gains.cons {l l' : List Item} (h : s.Gains l l') (i : Item) : s.Gains (i :: l) (i :: l') := by
  have hi : s.Gains [i] [i] := .refl
  exact hi.append h

theorem Gains.cons_of_holds {l l' : List Item} (h : s.Gains l l') (i : Item) {j : Item} (hj : s.holds j) :
    s.Gains (i :: l) (j :: l') := by
  have hij : s.Gains [i] [j] := gains_of_holds (List.forall_mem_singleton.2 hj)
  exact hij.append h

theorem Spare.not_contains {e : Element} (h : s.Spare e.order) : ¬ s.contains e := by
  simp [contains, h.untaken]

theorem Spare.ne_of_holds {n : Nat} {kind : Kind} {r : Ref kind} (hn : s.Spare n) (hr : s.contains r.element) :
    r.order ≠ n := by
  intro heq
  subst heq
  exact hn.not_contains hr

theorem Sound.spare_draw (h : s.Sound) : Spare { s with created := s.created + 1 } (s.created + 1) where
  drawn := Nat.le_refl _
  untaken := by
    cases ht : s.headers.get? (s.created + 1) with
    | none => rfl
    | some header =>
      have hc : s.contains ⟨header.kind, s.created + 1⟩ := by simp [contains, ht]
      exact absurd (h.bounded _ hc) (Nat.not_succ_le_self _)

theorem Sound.change (h : s.Sound) (hh : s'.headers = s.headers) (hc : s.created ≤ s'.created)
    (hm : s.multiplicityCount ≤ s'.multiplicityCount)
    (hi : ∀ e, s.contains e → s.Gains (s.itemsOf e) (s'.itemsOf e)) : s.Grows s' := by
  have hcontains : ∀ e, s'.contains e = s.contains e := by
    intro e
    rw [contains, contains, hh]
  have hholds : ∀ i, s.holds i → s'.holds i := by
    intro i hi
    cases i with
    | element e => exact (hcontains e).trans hi
    | multiplicity m => exact Nat.lt_of_lt_of_le hi hm
  refine ⟨⟨?_, ?_, ?_⟩, hholds, hc⟩
  · intro e he
    rw [hcontains] at he
    exact Nat.le_trans (h.bounded e he) hc
  · intro p
    rw [hcontains]
    exact h.primitive p
  · intro e he i hie
    rw [hcontains] at he
    apply hholds
    rcases hi e he i hie with hold | hnew
    · exact h.closed e he i hold
    · exact hnew

theorem Sound.unchanged (h : s.Sound) (hh : s'.headers = s.headers) (hc : s.created ≤ s'.created)
    (hm : s.multiplicityCount ≤ s'.multiplicityCount) (hi : ∀ e, s'.itemsOf e = s.itemsOf e) :
    s.Grows s' :=
  h.change hh hc hm fun e _ _ hie => Or.inl (hi e ▸ hie)

theorem contains_enter {e e' : Element} {timestamp : Option Int} :
    (s.enter e timestamp).contains e' = if e'.order = e.order then e.kind == e'.kind else s.contains e' := by
  simp only [contains, enter, Table.get?_set]
  split <;> rfl

theorem contains_enter_self {e : Element} {timestamp : Option Int} : (s.enter e timestamp).contains e := by
  simp [contains_enter]

theorem contains_enter_of_contains {e e' : Element} {timestamp : Option Int} (he : s.Spare e.order)
    (h : s.contains e') : (s.enter e timestamp).contains e' := by
  have hne : e'.order ≠ e.order := fun heq => by
    have hs : s.Spare e'.order := heq ▸ he
    exact hs.not_contains h
  rwa [contains_enter, if_neg hne]

theorem eq_or_contains_of_enter {e e' : Element} {timestamp : Option Int}
    (h : (s.enter e timestamp).contains e') : e' = e ∨ s.contains e' := by
  rw [contains_enter] at h
  split_ifs at h with ho
  · obtain ⟨kind, n⟩ := e
    obtain ⟨kind', n'⟩ := e'
    cases ho
    cases beq_iff_eq.1 h
    exact Or.inl rfl
  · exact Or.inr h

theorem contains_enter_of_kind_ne {e e' : Element} {timestamp : Option Int} (he : s.Spare e.order)
    (hkind : e.kind ≠ e'.kind) : (s.enter e timestamp).contains e' = s.contains e' := by
  rw [contains_enter]
  split_ifs with ho
  · have hnone : s.contains e' = false := by simp [contains, ho, he.untaken]
    rw [hnone]
    exact beq_false_of_ne hkind
  · rfl

theorem Sound.enter (h : s.Sound) {e : Element} (he : s.Spare e.order)
    (hi : ∀ i ∈ s.itemsOf e, s.holds i) (timestamp : Option Int) : s.Grows (s.enter e timestamp) := by
  have hholds : ∀ i, s.holds i → (s.enter e timestamp).holds i := by
    intro i hi
    cases i with
    | element e' => exact contains_enter_of_contains he hi
    | multiplicity m => exact hi
  refine ⟨⟨?_, ?_, ?_⟩, hholds, Nat.le_refl _⟩
  · intro e' he'
    rcases eq_or_contains_of_enter he' with rfl | he'
    · exact he.drawn
    · exact h.bounded e' he'
  · intro p
    exact hholds (.element _) (h.primitive p)
  · intro e' he' i hie
    apply hholds
    rcases eq_or_contains_of_enter he' with rfl | he'
    · exact hi i hie
    · exact h.closed e' he' i hie

end Store

/-- A table of the store with the items that its records refer to. -/
structure Roster (kind : Kind) (ρ : Type) where
  table : Store → Table (Ref kind) ρ
  put : Store → Table (Ref kind) ρ → Store
  items : ρ → List Item

namespace Roster

variable {kind : Kind} {ρ : Type} [Inhabited ρ]

class Lawful (k : Roster kind ρ) : Prop where
  itemsOf_element : ∀ s (r : Ref kind), s.itemsOf r.element = k.items ((k.table s).get r) := by
    intros; rfl
  itemsOf_put : ∀ s t n kind', kind' ≠ kind → (k.put s t).itemsOf ⟨kind', n⟩ = s.itemsOf ⟨kind', n⟩ := by
    intro s t n kind' h
    cases kind' <;> first | rfl | exact absurd rfl h
  table_put : ∀ s t, k.table (k.put s t) = t := by
    intros; rfl
  headers_put : ∀ s t, (k.put s t).headers = s.headers := by
    intros; rfl
  created_put : ∀ s t, (k.put s t).created = s.created := by
    intros; rfl
  multiplicityCount_put : ∀ s t, (k.put s t).multiplicityCount = s.multiplicityCount := by
    intros; rfl

def Adds (k : Roster kind ρ) (s : Store) (f : ρ → ρ) : Prop := ∀ a, s.Gains (k.items a) (k.items (f a))

def Extends (k : Roster kind ρ) (s : Store) (t t' : Table (Ref kind) ρ) : Prop :=
  ∀ r, s.Gains (k.items (t.get r)) (k.items (t'.get r))

variable {k : Roster kind ρ} {s : Store} {t t' t'' : Table (Ref kind) ρ} {f : ρ → ρ}

theorem Extends.refl : k.Extends s t t := fun _ => .refl

theorem Extends.trans (h : k.Extends s t t') (h' : k.Extends s t' t'') : k.Extends s t t'' :=
  fun r => (h r).trans (h' r)

theorem Adds.modify (hf : k.Adds s f) (r : Ref kind) : k.Extends s t (t.modify r f) := by
  intro j
  rw [Table.get_modify]
  split_ifs
  · exact hf (t.get j)
  · exact .refl

theorem Adds.modifyAll (hf : k.Adds s f) (rs : List (Ref kind)) : k.Extends s t (t.modifyAll rs f) := by
  induction rs generalizing t with
  | nil => exact .refl
  | cons r rs ih => exact (hf.modify r).trans ih

variable [hk : k.Lawful]

theorem grows_put (h : s.Sound) (ht : k.Extends s (k.table s) t) : s.Grows (k.put s t) := by
  have hcreated := Nat.le_of_eq (hk.created_put s t).symm
  have hcount := Nat.le_of_eq (hk.multiplicityCount_put s t).symm
  apply h.change (hk.headers_put s t) hcreated hcount
  intro e he
  obtain ⟨kind', n⟩ := e
  -- elements of other kinds have their records on other shelves
  by_cases hkind : kind' = kind
  · subst hkind
    have hitems : ∀ s : Store, s.itemsOf ⟨kind', n⟩ = k.items ((k.table s).get ⟨n⟩) := fun s =>
      hk.itemsOf_element s ⟨n⟩
    rw [hitems, hitems, hk.table_put]
    exact ht ⟨n⟩
  · rw [hk.itemsOf_put s t n kind' hkind]
    exact .refl

theorem grows_modify (h : s.Sound) (hf : k.Adds s f) (r : Ref kind) :
    s.Grows (k.put s ((k.table s).modify r f)) := grows_put h (hf.modify r)

theorem grows_put_modify {kind' : Kind} {ρ' : Type} [Inhabited ρ'] {k' : Roster kind' ρ'} [k'.Lawful] {f : ρ' → ρ'}
    (h : s.Sound) (ht : k.Extends s (k.table s) t) (hf : ∀ {s'}, s.Grows s' → k'.Adds s' f) (r : Ref kind') :
    s.Grows (k'.put (k.put s t) ((k'.table (k.put s t)).modify r f)) := by
  have hput := grows_put h ht
  exact hput.trans (grows_modify hput.sound (hf hput) r)

theorem grows_enter (h : s.Sound) {r : Ref kind} (hr : s.Spare r.order) {a : ρ}
    (ha : ∀ i ∈ k.items a, s.holds i) (timestamp : Option Int) :
    s.Grows ((k.put s ((k.table s).set r a)).enter r.element timestamp) := by
  -- the number is spare, so whatever else is there keeps its record
  have hitems : ∀ e, s.contains e → (k.put s ((k.table s).set r a)).itemsOf e = s.itemsOf e := by
    intro e he
    obtain ⟨kind', n⟩ := e
    by_cases hkind : kind' = kind
    · subst hkind
      have hne : (⟨n⟩ : Ref kind') ≠ r := fun heq => by
        subst heq
        exact hr.not_contains (e := ⟨kind', n⟩) he
      have hself : ∀ s : Store, s.itemsOf ⟨kind', n⟩ = k.items ((k.table s).get ⟨n⟩) := fun s =>
        hk.itemsOf_element s ⟨n⟩
      rw [hself, hself, hk.table_put, Table.get_set, if_neg hne]
    · exact hk.itemsOf_put s _ n kind' hkind
  have hput : s.Grows (k.put s ((k.table s).set r a)) := by
    have hcreated := Nat.le_of_eq (hk.created_put s ((k.table s).set r a)).symm
    have hcount := Nat.le_of_eq (hk.multiplicityCount_put s ((k.table s).set r a)).symm
    apply h.change (hk.headers_put _ _) hcreated hcount
    intro e he
    rw [hitems e he]
    exact .refl
  have hspare : (k.put s ((k.table s).set r a)).Spare r.order :=
    ⟨hk.created_put s _ ▸ hr.drawn, hk.headers_put s _ ▸ hr.untaken⟩
  have hown : ∀ i ∈ (k.put s ((k.table s).set r a)).itemsOf r.element, (k.put s ((k.table s).set r a)).holds i := by
    intro i hi
    rw [hk.itemsOf_element, hk.table_put, Table.get_set, if_pos rfl] at hi
    exact hput.holds i (ha i hi)
  exact hput.trans (hput.sound.enter hspare hown timestamp)

end Roster

namespace Roster

def classes : Roster .classType ClassRecord :=
  ⟨Store.classes, fun s t => { s with classes := t }, ClassRecord.items⟩

def enumerations : Roster .enumeration EnumerationRecord :=
  ⟨Store.enumerations, fun s t => { s with enumerations := t }, EnumerationRecord.items⟩

def literals : Roster .literal LiteralRecord :=
  ⟨Store.literals, fun s t => { s with literals := t }, LiteralRecord.items⟩

def properties : Roster .property PropertyRecord :=
  ⟨Store.properties, fun s t => { s with properties := t }, PropertyRecord.items⟩

def parameters : Roster .parameter ParameterRecord :=
  ⟨Store.parameters, fun s t => { s with parameters := t }, ParameterRecord.items⟩

def methods : Roster .method MethodRecord :=
  ⟨Store.methods, fun s t => { s with methods := t }, MethodRecord.items⟩

def associations : Roster .association AssociationRecord :=
  ⟨Store.associations, fun s t => { s with associations := t }, AssociationRecord.items⟩

def generalizations : Roster .generalization GeneralizationRecord :=
  ⟨Store.generalizations, fun s t => { s with generalizations := t }, GeneralizationRecord.items⟩

def generalizationSets : Roster .generalizationSet GeneralizationSetRecord :=
  ⟨Store.generalizationSets, fun s t => { s with generalizationSets := t }, GeneralizationSetRecord.items⟩

def packages : Roster .package PackageRecord :=
  ⟨Store.packages, fun s t => { s with packages := t }, PackageRecord.items⟩

def constraints : Roster .constraint ConstraintRecord :=
  ⟨Store.constraints, fun s t => { s with constraints := t }, ConstraintRecord.items⟩

def models : Roster .model ModelRecord :=
  ⟨Store.models, fun s t => { s with models := t }, ModelRecord.items⟩

instance : classes.Lawful := {}

instance : enumerations.Lawful := {}

instance : literals.Lawful := {}

instance : properties.Lawful := {}

instance : parameters.Lawful := {}

instance : methods.Lawful := {}

instance : associations.Lawful := {}

instance : generalizations.Lawful := {}

instance : generalizationSets.Lawful := {}

instance : packages.Lawful := {}

instance : constraints.Lawful := {}

instance : models.Lawful := {}

end Roster
end ClassDiagram
