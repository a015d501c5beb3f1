/-! Finite sets that remember the order in which their members came. -/

namespace ClassDiagram

/-- Members in order of arrival; one that is inserted again keeps its place. -/
@[ext] structure OrderedSet (α : Type) where
  toList : List α
  nodup : toList.Nodup

namespace OrderedSet

variable {α : Type}

instance : EmptyCollection (OrderedSet α) := ⟨⟨[], List.nodup_nil⟩⟩

instance : Inhabited (OrderedSet α) := ⟨∅⟩

instance : Membership α (OrderedSet α) := ⟨fun s a => a ∈ s.toList⟩

theorem mem_def {a : α} {s : OrderedSet α} : a ∈ s ↔ a ∈ s.toList := Iff.rfl

@[simp] theorem not_mem_empty (a : α) : a ∉ (∅ : OrderedSet α) := List.not_mem_nil

def size (s : OrderedSet α) : Nat := s.toList.length

variable [DecidableEq α]

instance : DecidableEq (OrderedSet α) := fun s t =>
  decidable_of_iff (s.toList = t.toList) OrderedSet.ext_iff.symm

instance (a : α) (s : OrderedSet α) : Decidable (a ∈ s) := inferInstanceAs (Decidable (a ∈ s.toList))

def insert (s : OrderedSet α) (a : α) : OrderedSet α :=
  if h : a ∈ s.toList then s
  else ⟨s.toList ++ [a], by
    refine List.nodup_append.2 ⟨s.nodup, by simp, fun x hx y hy hxy => ?_⟩
    rw [List.mem_singleton] at hy
    exact h (hy ▸ hxy ▸ hx)⟩

def erase (s : OrderedSet α) (a : α) : OrderedSet α := ⟨s.toList.erase a, s.nodup.erase a⟩

theorem nodup_eraseDups (l : List α) : l.eraseDups.Nodup := by
  match l with
  | [] => simp
  | a :: l =>
    rw [List.eraseDups_cons, List.nodup_cons]
    exact ⟨by simp [List.mem_eraseDups], nodup_eraseDups _⟩
termination_by l.length
decreasing_by exact Nat.lt_succ_of_le (List.length_filter_le _ _)

/-- The members of a list, each at its first place. -/
def ofList (l : List α) : OrderedSet α := ⟨l.eraseDups, nodup_eraseDups l⟩

def insertAll (s : OrderedSet α) (l : List α) : OrderedSet α := l.foldl insert s

@[simp] theorem mem_insert {a b : α} {s : OrderedSet α} : a ∈ s.insert b ↔ a ∈ s ∨ a = b := by
  by_cases h : b ∈ s.toList
  · simp only [insert, h, dite_true]
    exact ⟨Or.inl, fun h' => h'.elim id fun e => e ▸ h⟩
  · simp [insert, h, mem_def]

@[simp] theorem mem_erase {a b : α} {s : OrderedSet α} : a ∈ s.erase b ↔ a ≠ b ∧ a ∈ s :=
  s.nodup.mem_erase_iff

@[simp] theorem mem_ofList {a : α} {l : List α} : a ∈ ofList l ↔ a ∈ l := List.mem_eraseDups

@[simp] theorem mem_insertAll {a : α} {s : OrderedSet α} {l : List α} :
    a ∈ s.insertAll l ↔ a ∈ s ∨ a ∈ l := by
  induction l generalizing s with
  | nil => simp [insertAll]
  | cons b l ih =>
    have h : s.insertAll (b :: l) = (s.insert b).insertAll l := rfl
    rw [h, ih, mem_insert, List.mem_cons, or_assoc]

theorem insert_of_mem {a : α} {s : OrderedSet α} (h : a ∈ s) : s.insert a = s := by
  simp [insert, mem_def.1 h]

theorem toList_insert_of_not_mem {a : α} {s : OrderedSet α} (h : a ∉ s) :
    (s.insert a).toList = s.toList ++ [a] := by
  have h' : a ∉ s.toList := h
  simp [insert, h']

theorem prefix_insert (s : OrderedSet α) (a : α) : s.toList <+: (s.insert a).toList := by
  by_cases h : a ∈ s
  · exact (insert_of_mem h).symm ▸ List.prefix_rfl
  · rw [toList_insert_of_not_mem h]
    exact List.prefix_append _ _

theorem toList_ofList_of_nodup {l : List α} (h : l.Nodup) : (ofList l).toList = l := by
  induction l with
  | nil => rfl
  | cons a l ih =>
    have ha := (List.nodup_cons.1 h).1
    have hl : l.filter (fun b => !b == a) = l := by
      refine List.filter_eq_self.2 fun b hb => ?_
      simpa using fun e : b = a => ha (e ▸ hb)
    simpa [ofList, List.eraseDups_cons, hl] using ih (List.nodup_cons.1 h).2

@[simp] theorem ofList_toList_append (s : OrderedSet α) (a : α) : ofList (s.toList ++ [a]) = s.insert a := by
  apply OrderedSet.ext
  have hs : s.toList.eraseDups = s.toList := toList_ofList_of_nodup s.nodup
  show (s.toList ++ [a]).eraseDups = _
  rw [List.eraseDups_append, hs]
  by_cases h : a ∈ s
  · have h' : a ∈ s.toList := h
    rw [insert_of_mem h]
    simp [List.removeAll, h']
  · have h' : a ∉ s.toList := h
    rw [toList_insert_of_not_mem h]
    simp [List.removeAll, h', List.eraseDups_cons]

/-! ## The order of a list without its repetitions -/

theorem idxOf_cons_lt_iff {a b c : α} {l : List α} :
    (c :: l).idxOf a < (c :: l).idxOf b ↔ b ≠ c ∧ (a = c ∨ l.idxOf a < l.idxOf b) := by
  by_cases hb : b = c
  · simp [hb]
  · have hcb : (c == b) = false := beq_false_of_ne fun e => hb e.symm
    by_cases ha : a = c
    · simp [List.idxOf_cons, ha, hb, hcb]
    · have hca : (c == a) = false := beq_false_of_ne fun e => ha e.symm
      simp [List.idxOf_cons, ha, hb, hcb, hca]

theorem idxOf_filter_lt_iff {keep : α → Bool} {a b : α} (ha : keep a) (hb : keep b) (l : List α) :
    (l.filter keep).idxOf a < (l.filter keep).idxOf b ↔ l.idxOf a < l.idxOf b := by
  induction l with
  | nil => rfl
  | cons c l ih =>
    by_cases hc : keep c
    · rw [List.filter_cons_of_pos hc, idxOf_cons_lt_iff, idxOf_cons_lt_iff, ih]
    · have hac : a ≠ c := fun e => hc (e ▸ ha)
      have hbc : b ≠ c := fun e => hc (e ▸ hb)
      rw [List.filter_cons_of_neg hc, idxOf_cons_lt_iff, ih]
      simp only [hac, hbc, ne_eq, not_false_eq_true, true_and, false_or]

/-- Without repetitions, members come in the order of their first places. -/
theorem idxOf_eraseDups_lt_iff (a b : α) (l : List α) :
    l.eraseDups.idxOf a < l.eraseDups.idxOf b ↔ l.idxOf a < l.idxOf b := by
  match l with
  | [] => rfl
  | c :: l =>
    rw [List.eraseDups_cons, idxOf_cons_lt_iff, idxOf_cons_lt_iff, idxOf_eraseDups_lt_iff]
    refine and_congr_right fun hb => ?_
    by_cases ha : a = c
    · simp only [ha, true_or]
    · exact or_congr_right (idxOf_filter_lt_iff (by simpa using ha) (by simpa using hb) l)
termination_by l.length
decreasing_by exact Nat.lt_succ_of_le (List.length_filter_le _ _)

/-- A set has the members of a list, in the order of their first places in it. -/
structure Lists (s : OrderedSet α) (l : List α) : Prop where
  mem : ∀ a, a ∈ s ↔ a ∈ l
  order : ∀ a b, s.toList.idxOf a < s.toList.idxOf b ↔ l.idxOf a < l.idxOf b

theorem lists_ofList (l : List α) : (ofList l).Lists l :=
  ⟨fun _ => mem_ofList, fun a b => idxOf_eraseDups_lt_iff a b l⟩

end OrderedSet

end ClassDiagram
