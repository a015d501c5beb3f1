import ClassDiagram.Proofs.Checks
import Mathlib.Data.List.Basic

/-! The order in which clashing names are told. A name is told where it comes for the second time, and between its
first place and its second another name may come twice. -/

namespace ClassDiagram

namespace Names
variable {seen names : List String} {a b m n : String}

/-- Where a name comes that has come before, in the list or in `seen`. -/
def again (seen names : List String) (n : String) : Nat := names.idxOfNth n (if n ∈ seen then 0 else 1)

theorem again_cons_of_mem (hm : m ∈ seen) :
    again seen (m :: names) n = if n = m then 0 else again seen names n + 1 := by
  unfold again
  by_cases hn : n = m
  · subst hn
    rw [if_pos hm, if_pos rfl, List.idxOfNth_cons_zero_of_beq (beq_self_eq_true n)]
  · have hmn : (m == n) = false := beq_false_of_ne fun e => hn e.symm
    rw [if_neg hn, List.idxOfNth_cons_of_not_beq hmn]

theorem again_cons_of_not_mem (hm : m ∉ seen) : again seen (m :: names) n = again (m :: seen) names n + 1 := by
  unfold again
  by_cases hn : n = m
  · subst hn
    rw [if_neg hm, if_pos List.mem_cons_self, List.idxOfNth_cons_succ_of_beq (beq_self_eq_true n)]
  · have hmn : (m == n) = false := beq_false_of_ne fun e => hn e.symm
    have hseen : n ∈ m :: seen ↔ n ∈ seen := List.mem_cons.trans (or_iff_right hn)
    rw [List.idxOfNth_cons_of_not_beq hmn]
    simp only [hseen]

theorem idxOf_repeats_lt_iff :
    (repeats seen names).idxOf a < (repeats seen names).idxOf b ↔ again seen names a < again seen names b := by
  -- what has been seen grows as the list is read
  induction names generalizing seen with
  | nil => exact iff_of_false (Nat.lt_irrefl 0) (Nat.lt_irrefl 0)
  | cons m rest ih =>
    by_cases hm : m ∈ seen
    · rw [repeats, if_pos hm, OrderedSet.idxOf_cons_lt_iff, ih, again_cons_of_mem hm, again_cons_of_mem hm]
      split_ifs with ha hb hb <;> simp [ha, hb]
    · rw [repeats, if_neg hm, ih, again_cons_of_not_mem hm, again_cons_of_not_mem hm, Nat.add_lt_add_iff_right]

theorem idxOf_duplicates_lt_iff :
    (duplicates names).idxOf a < (duplicates names).idxOf b ↔ names.idxOfNth a 1 < names.idxOfNth b 1 := by
  rw [duplicates, OrderedSet.idxOf_eraseDups_lt_iff, idxOf_repeats_lt_iff]
  rfl

theorem duplicates_in_first_order_iff :
    (∀ a ∈ duplicates names, ∀ b ∈ duplicates names,
      (duplicates names).idxOf a < (duplicates names).idxOf b ↔ names.idxOf a < names.idxOf b) ↔
    ∀ a ∈ duplicates names, ∀ b ∈ duplicates names,
      names.idxOf a < names.idxOf b → names.idxOfNth a 1 < names.idxOfNth b 1 := by
  constructor
  · intro hlisted a ha b hb hfirst
    exact idxOf_duplicates_lt_iff.1 ((hlisted a ha b hb).2 hfirst)
  · intro hkept a ha b hb
    -- both orders are total on the names that clash, so the one that implies the other is the same
    refine idxOf_duplicates_lt_iff.trans ⟨fun hsecond => ?_, hkept a ha b hb⟩
    rcases Nat.lt_trichotomy (names.idxOf a) (names.idxOf b) with hlt | heq | hgt
    · exact hlt
    · have hmem : a ∈ names := List.count_pos_iff.1 (Nat.lt_of_lt_of_le Nat.zero_lt_two (mem_duplicates.1 ha))
      rw [(List.idxOf_inj hmem).1 heq] at hsecond
      exact absurd hsecond (Nat.lt_irrefl _)
    · exact absurd hsecond (Nat.lt_asymm (hkept b hb a ha hgt))

end Names

theorem Fault.message_duplicateNames (holder collection : String) (names : List String) :
    (duplicateNames holder collection names).message =
      holder ++ " cannot have " ++ collection ++ " with duplicate names: " ++ ", ".intercalate names :=
  Value.toText_text _

/--
The names that clash in a list are told each once, in the order of the places at which they come for the second time.
This is the order in which they come first exactly if, of any two of them, the one that comes first is also the first to
come again. A list is refused exactly if names clash in it, and the report tells them in this order, both as the names
that it is about and in its message.
-/
theorem clashing_names_ordered (holder collection : String) (names : List String) :
    let listed := Names.duplicates names
    (listed.Nodup ∧ ∀ a, a ∈ listed ↔ 2 ≤ names.count a) ∧
    (∀ a b, listed.idxOf a < listed.idxOf b ↔ names.idxOfNth a 1 < names.idxOfNth b 1) ∧
    ((∀ a ∈ listed, ∀ b ∈ listed, listed.idxOf a < listed.idxOf b ↔ names.idxOf a < names.idxOf b) ↔
      ∀ a ∈ listed, ∀ b ∈ listed, names.idxOf a < names.idxOf b → names.idxOfNth a 1 < names.idxOfNth b 1) ∧
    ((∃ f, uniqueNames holder collection names = .error f) ↔ listed ≠ []) ∧
    ∀ f, uniqueNames holder collection names = .error f →
      f.kind = .duplicateName ∧
        f.report.details = [("names", Fault.nameList listed), ("collection", .text collection)] ∧
        f.message =
          holder ++ " cannot have " ++ collection ++ " with duplicate names: " ++ ", ".intercalate listed := by
  intro listed
  refine ⟨⟨Names.nodup_duplicates names, fun _ => Names.mem_duplicates⟩, fun _ _ => Names.idxOf_duplicates_lt_iff,
    Names.duplicates_in_first_order_iff, ?_, fun f hf => ?_⟩
  · rw [Ne, Names.duplicates_eq_nil_iff]
    simp only [uniqueNames_eq_error_iff, exists_and_left, exists_eq, and_true]
  · obtain ⟨_, rfl⟩ := uniqueNames_eq_error_iff.1 hf
    exact ⟨rfl, rfl, Fault.message_duplicateNames holder collection listed⟩

theorem clashing_names_ordered_of_overlaps :
    let names := ["c", "a", "a", "b", "c", "b", "d"]
    let listed := Names.duplicates names
    listed.idxOf "a" < listed.idxOf "c" ∧ listed.idxOf "c" < listed.idxOf "b" ∧ "d" ∉ listed ∧
      ∃ f, uniqueNames "A class" "methods" names = .error f ∧
        f.report.details = [("names", Fault.nameList listed), ("collection", .text "methods")] := by
  intro names listed
  obtain ⟨⟨_, hmem⟩, horder, _, hrefused, hreport⟩ := clashing_names_ordered "A class" "methods" names
  have ha : "a" ∈ listed := (hmem "a").2 (by decide)
  obtain ⟨f, hf⟩ := hrefused.2 (List.ne_nil_of_mem ha)
  refine ⟨(horder "a" "c").2 (by decide), (horder "c" "b").2 (by decide), fun hd => ?_, f, hf, (hreport f hf).2.1⟩
  exact absurd ((hmem "d").1 hd) (by decide)

/-- Of two names that clash the first is told last if the other comes twice before it comes again. -/
theorem inner_clash_told_first :
    let names := ["a", "b", "b", "a"]
    let listed := Names.duplicates names
    "a" ∈ listed ∧ "b" ∈ listed ∧ names.idxOf "a" < names.idxOf "b" ∧ ¬ listed.idxOf "a" < listed.idxOf "b" ∧
      ∃ f, uniqueNames "A class" "attributes" names = .error f ∧
        f.report.details = [("names", Fault.nameList ["b", "a"]), ("collection", .text "attributes")] ∧
        f.message = "A class cannot have attributes with duplicate names: b, a" := by
  intro names listed
  have hlisted : listed = ["b", "a"] := by decide
  have hclash : ¬ names.Nodup := by decide
  rw [hlisted]
  refine ⟨by decide, by decide, by decide, by decide, .duplicateNames "A class" "attributes" ["b", "a"], ?_, rfl, ?_⟩
  · exact uniqueNames_eq_error_iff.2 ⟨hclash, hlisted ▸ rfl⟩
  · rw [Fault.message_duplicateNames]
    decide

end ClassDiagram
