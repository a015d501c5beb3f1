import ClassDiagram.OrderedSet

/-! Names that several members of one collection bear. -/

namespace ClassDiagram.Names

/-- The entries that stood earlier in the list or in `seen`. -/
def repeats (seen : List String) : List String → List String
  | [] => []
  | n :: rest => if n ∈ seen then n :: repeats seen rest else repeats (n :: seen) rest

/-- The names that occur more than once, each once, in the order of their second occurrences. -/
def duplicates (names : List String) : List String := (repeats [] names).eraseDups

theorem mem_repeats {n : String} {seen names : List String} :
    n ∈ repeats seen names ↔ n ∈ names ∧ n ∈ seen ∨ 2 ≤ names.count n := by
  induction names generalizing seen with
  | nil => simp [repeats]
  | cons m rest ih =>
    have hpos : n ∈ rest ↔ 1 ≤ rest.count n := List.count_pos_iff.symm
    by_cases hm : m ∈ seen
    · by_cases hn : n = m
      · subst hn; simp [repeats, hm]
      · have hmn : ¬ m = n := fun e => hn e.symm
        simp [repeats, hm, ih, hn, hmn]
    · by_cases hn : n = m
      · subst hn
        simp only [repeats, hm, if_false, ih, List.count_cons, beq_self_eq_true, if_true]
        simp only [List.mem_cons, true_or, and_true, and_false, false_or, hpos]
        omega
      · have hmn : ¬ m = n := fun e => hn e.symm
        simp [repeats, hm, ih, hn, hmn]

@[simp] theorem mem_duplicates {n : String} {names : List String} :
    n ∈ duplicates names ↔ 2 ≤ names.count n := by
  simp [duplicates, List.mem_eraseDups, mem_repeats]

theorem duplicates_eq_nil_iff {names : List String} : duplicates names = [] ↔ names.Nodup := by
  rw [List.eq_nil_iff_forall_not_mem, List.nodup_iff_count]
  exact forall_congr' fun n => by rw [mem_duplicates]; omega

theorem nodup_duplicates (names : List String) : (duplicates names).Nodup := OrderedSet.nodup_eraseDups _

/-- The only name that can come a second time is the one that is added. -/
theorem duplicates_append_of_mem {names : List String} {n : String} (h : names.Nodup) (hn : n ∈ names) :
    duplicates (names ++ [n]) = [n] := by
  have hmem : ∀ a, a ∈ duplicates (names ++ [n]) ↔ a ∈ [n] := by
    intro a
    have hcount : names.count a ≤ 1 := List.nodup_iff_count.1 h a
    rw [mem_duplicates, List.count_append, List.mem_singleton]
    by_cases ha : a = n
    · have hpos : 0 < names.count a := List.count_pos_iff.2 (ha ▸ hn)
      have hlast : [n].count a = 1 := ha ▸ List.count_singleton_self
      exact iff_of_true (by omega) ha
    · have hlast : [n].count a = 0 := List.count_eq_zero.2 fun hmem => ha (List.mem_singleton.1 hmem)
      exact iff_of_false (by omega) ha
  have hsingle : [n].Nodup := List.nodup_cons.2 ⟨List.not_mem_nil, List.nodup_nil⟩
  exact List.perm_singleton.1 ((List.perm_ext_iff_of_nodup (nodup_duplicates _) hsingle).2 hmem)

end ClassDiagram.Names
