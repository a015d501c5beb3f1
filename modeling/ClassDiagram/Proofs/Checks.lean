import ClassDiagram.Links
import ClassDiagram.Members
import Mathlib.Data.List.Nodup
import Mathlib.Tactic.SplitIfs

/-! What is known of names, members and ends that have passed a check. -/

namespace ClassDiagram

theorem bind_eq_ok {α β : Type} {x : Except Fault α} {f : α → Except Fault β} {b : β} :
    x >>= f = .ok b ↔ ∃ a, x = .ok a ∧ f a = .ok b := by
  cases x with
  | error e => exact ⟨nofun, fun ⟨_, h, _⟩ => nomatch h⟩
  | ok a => exact ⟨fun h => ⟨a, rfl, h⟩, fun ⟨_, h, hf⟩ => Except.ok.inj h ▸ hf⟩

theorem uniqueNames_eq_ok {holder collection : String} {names : List String}
    (h : uniqueNames holder collection names = .ok ()) : names.Nodup := by
  unfold uniqueNames at h
  split_ifs at h with hnames
  exact hnames

theorem uniqueNames_eq_error_iff {holder collection : String} {names : List String} {f : Fault} :
    uniqueNames holder collection names = .error f ↔
      ¬ names.Nodup ∧ f = .duplicateNames holder collection (Names.duplicates names) := by
  unfold uniqueNames
  split_ifs with hnames
  · exact iff_of_false nofun fun h => h.1 hnames
  · exact ⟨fun h => ⟨hnames, (Except.error.inj h).symm⟩, fun h => congrArg _ h.2.symm⟩

theorem freeName_eq_ok {holder member name : String} {others : List String}
    (h : freeName holder member others name = .ok ()) : name ∉ others := by
  unfold freeName at h
  split_ifs at h with hname
  exact hname

namespace Store
variable {s : Store}

section
variable {kind : Kind} {xs : OrderedSet (Ref kind)} {r : Ref kind}

theorem namesBeside_of_not_mem (h : r ∉ xs) : s.namesBeside xs r = s.namesOf xs := by
  have hall : ∀ x ∈ xs.toList, decide (x ≠ r) := fun x hx => decide_eq_true fun heq => h (heq ▸ hx)
  rw [namesBeside, List.filter_eq_self.2 hall]
  rfl

theorem namesOf_insert_of_not_mem (h : r ∉ xs) : s.namesOf (xs.insert r) = s.namesOf xs ++ [r.name s] := by
  rw [namesOf, OrderedSet.toList_insert_of_not_mem h, List.map_append]
  rfl

theorem not_mem_namesBeside_of_mem (h : (s.namesOf xs).Nodup) (hr : r ∈ xs) : r.name s ∉ s.namesBeside xs r := by
  intro hname
  obtain ⟨x, hx, hsame⟩ := List.mem_map.1 hname
  obtain ⟨hmem, hne⟩ := List.mem_filter.1 hx
  exact of_decide_eq_true hne (List.inj_on_of_nodup_map h hmem hr hsame)

theorem nodup_namesOf_insert (h : (s.namesOf xs).Nodup) (hr : r.name s ∉ s.namesBeside xs r) :
    (s.namesOf (xs.insert r)).Nodup := by
  by_cases hmem : r ∈ xs
  · rwa [OrderedSet.insert_of_mem hmem]
  · rw [namesBeside_of_not_mem hmem] at hr
    rw [namesOf_insert_of_not_mem hmem]
    exact List.Nodup.append h (List.nodup_singleton _) (List.disjoint_singleton.2 hr)

theorem nodup_namesOf_of_insert (h : (s.namesOf (xs.insert r)).Nodup) : (s.namesOf xs).Nodup :=
  h.sublist ((xs.prefix_insert r).sublist.map _)

theorem uniqueNames_insert {holder collection : String} (h : (s.namesOf xs).Nodup) :
    uniqueNames holder collection (s.namesOf (xs.insert r)) =
      if r.name s ∈ s.namesBeside xs r then .error (.duplicateNames holder collection [r.name s]) else .ok () := by
  by_cases hmem : r ∈ xs
  -- a member that was there before is not added again
  · rw [OrderedSet.insert_of_mem hmem, uniqueNames, if_pos h, if_neg (not_mem_namesBeside_of_mem h hmem)]
  · rw [namesBeside_of_not_mem hmem, namesOf_insert_of_not_mem hmem, uniqueNames]
    by_cases hname : r.name s ∈ s.namesOf xs
    · have hnot : ¬ (s.namesOf xs ++ [r.name s]).Nodup := fun hnodup =>
        List.disjoint_of_nodup_append hnodup hname (List.mem_singleton_self _)
      rw [if_neg hnot, if_pos hname, Names.duplicates_append_of_mem h hname]
    · have hnodup : (s.namesOf xs ++ [r.name s]).Nodup :=
        List.Nodup.append h (List.nodup_singleton _) (List.disjoint_singleton.2 hname)
      rw [if_pos hnodup, if_neg hname]

end

theorem checkAttributes_eq_ok {name : String} {xs : OrderedSet PropertyRef}
    (h : s.checkAttributes name xs = .ok ()) : (s.namesOf xs).Nodup ∧ xs.toList.countP s.isId ≤ 1 := by
  obtain ⟨_, hnames, hid⟩ := bind_eq_ok.1 h
  split_ifs at hid with hcount
  exact ⟨uniqueNames_eq_ok hnames, Nat.le_of_not_lt hcount⟩

theorem checkNewAttribute_eq_ok {c : ClassRef} {p : PropertyRef} (h : s.checkNewAttribute c p = .ok ()) :
    p.name s ∉ s.namesBeside (s.classes.get c).attributes p ∧
      ¬ (s.isId p ∧ p ∉ (s.classes.get c).attributes ∧ (s.idAttribute? c).isSome) := by
  obtain ⟨_, hname, hid⟩ := bind_eq_ok.1 h
  split_ifs at hid with hsecond
  exact ⟨freeName_eq_ok hname, hsecond⟩

theorem one_lt_countP_isId_insert {c : ClassRef} {p : PropertyRef}
    (h : (s.classes.get c).attributes.toList.countP s.isId ≤ 1) :
    1 < ((s.classes.get c).attributes.insert p).toList.countP s.isId ↔
      s.isId p ∧ p ∉ (s.classes.get c).attributes ∧ (s.idAttribute? c).isSome := by
  by_cases hmem : p ∈ (s.classes.get c).attributes
  · rw [OrderedSet.insert_of_mem hmem]
    exact iff_of_false (Nat.not_lt_of_le h) fun hp => hp.2.1 hmem
  · have hsome : (s.idAttribute? c).isSome ↔ 0 < (s.classes.get c).attributes.toList.countP s.isId := by
      rw [idAttribute?, List.find?_isSome, List.countP_pos_iff]
    rw [OrderedSet.toList_insert_of_not_mem hmem, List.countP_append, List.countP_singleton, hsome]
    split_ifs with hid
    · simp only [hid, hmem, not_false_eq_true, true_and]
      omega
    · simp only [hid, Bool.false_eq_true, false_and, iff_false]
      omega

theorem countP_isId_insert {c : ClassRef} {p : PropertyRef}
    (h : (s.classes.get c).attributes.toList.countP s.isId ≤ 1)
    (hp : ¬ (s.isId p ∧ p ∉ (s.classes.get c).attributes ∧ (s.idAttribute? c).isSome)) :
    ((s.classes.get c).attributes.insert p).toList.countP s.isId ≤ 1 :=
  Nat.le_of_not_lt fun hlt => hp ((one_lt_countP_isId_insert h).1 hlt)

theorem endClass_eq_ok {p : PropertyRef} {c : ClassRef} : s.endClass p = .ok c ↔ s.typeOf p = .ofClass c := by
  rw [← TypeRef.class?_eq_some_iff, endClass]
  cases (s.typeOf p).class? with
  | none => simp
  | some d => simp

theorem mapM_endClass_eq_ok {l : List PropertyRef} {cs : List ClassRef} (h : l.mapM s.endClass = .ok cs) :
    l.map s.typeOf = cs.map .ofClass := by
  induction l generalizing cs with
  | nil =>
    cases h
    rfl
  | cons p l ih =>
    rw [List.mapM_cons] at h
    obtain ⟨c, hp, h⟩ := bind_eq_ok.1 h
    obtain ⟨cs', hl, h⟩ := bind_eq_ok.1 h
    cases h
    rw [List.map_cons, List.map_cons, endClass_eq_ok.1 hp, ih hl]

theorem checkEnds_eq_ok {name : String} {isBinary : Bool} {xs : OrderedSet PropertyRef} {cs : List ClassRef}
    (h : s.checkEnds name isBinary xs = .ok cs) :
    s.checkArity name isBinary xs = .ok () ∧ xs.toList.map s.typeOf = cs.map .ofClass := by
  obtain ⟨_, harity, htypes⟩ := bind_eq_ok.1 h
  exact ⟨harity, mapM_endClass_eq_ok htypes⟩

theorem mem_of_checkEnds {name : String} {isBinary : Bool} {xs : OrderedSet PropertyRef} {cs : List ClassRef}
    {c : ClassRef} (h : s.checkEnds name isBinary xs = .ok cs) : c ∈ cs ↔ ∃ p ∈ xs, s.typeOf p = .ofClass c := by
  have hmem : TypeRef.ofClass c ∈ cs.map TypeRef.ofClass ↔ TypeRef.ofClass c ∈ xs.toList.map s.typeOf := by
    rw [(checkEnds_eq_ok h).2]
  simpa [OrderedSet.mem_def] using hmem

theorem exists_not_isComposite {name : String} {xs : OrderedSet PropertyRef}
    (h : s.checkArity name true xs = .ok ()) : ∃ p ∈ xs, ¬ s.isComposite p := by
  unfold checkArity at h
  rw [if_pos rfl] at h
  split_ifs at h with hsize hall
  rw [Bool.not_eq_true, List.all_eq_false] at hall
  exact hall

end Store

end ClassDiagram
