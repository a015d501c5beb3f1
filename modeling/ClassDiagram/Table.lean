import Std.Data.TreeMap.Basic
import Std.Data.TreeMap.Lemmas

/-! Tables of records, one for every key; a key that nothing was entered for has the default record. -/

namespace ClassDiagram

/-- Keys that are numbers in disguise. -/
class Key (κ : Type) where
  toNat : κ → Nat
  ofNat : Nat → κ
  ofNat_toNat : ∀ k, ofNat (toNat k) = k
  toNat_ofNat : ∀ n, toNat (ofNat n) = n

structure Table (κ α : Type) where
  entries : Std.TreeMap Nat α

namespace Table

variable {κ α : Type} [Key κ]

theorem key_inj {j k : κ} : Key.toNat j = Key.toNat k ↔ j = k :=
  ⟨fun h => by rw [← Key.ofNat_toNat j, h, Key.ofNat_toNat], congrArg _⟩

instance : EmptyCollection (Table κ α) := ⟨⟨∅⟩⟩

instance : Inhabited (Table κ α) := ⟨∅⟩

def contains (t : Table κ α) (k : κ) : Bool := t.entries.contains (Key.toNat k)

def get? (t : Table κ α) (k : κ) : Option α := t.entries[Key.toNat k]?

def get [Inhabited α] (t : Table κ α) (k : κ) : α := (t.get? k).getD default

def set (t : Table κ α) (k : κ) (a : α) : Table κ α := ⟨t.entries.insert (Key.toNat k) a⟩

def modify [Inhabited α] (t : Table κ α) (k : κ) (f : α → α) : Table κ α := t.set k (f (t.get k))

def modifyAll [Inhabited α] (t : Table κ α) (ks : List κ) (f : α → α) : Table κ α :=
  ks.foldl (fun t k => t.modify k f) t

/-- In ascending order. -/
def keys (t : Table κ α) : List κ := t.entries.keys.map Key.ofNat

theorem mem_keys {t : Table κ α} {k : κ} : k ∈ t.keys ↔ t.contains k = true := by
  simp only [keys, List.mem_map, Std.TreeMap.mem_keys, contains, ← Std.TreeMap.mem_iff_contains]
  constructor
  · rintro ⟨n, hn, rfl⟩
    rwa [Key.toNat_ofNat]
  · exact fun h => ⟨Key.toNat k, h, Key.ofNat_toNat k⟩

theorem get?_of_not_contains {t : Table κ α} {k : κ} (h : ¬ t.contains k) : t.get? k = none :=
  Std.TreeMap.getElem?_eq_none (by simpa [contains] using h)

theorem get_of_not_contains [Inhabited α] {t : Table κ α} {k : κ} (h : ¬ t.contains k) : t.get k = default := by
  rw [get, get?_of_not_contains h, Option.getD_none]

variable [DecidableEq κ]

theorem get?_set (t : Table κ α) (k j : κ) (a : α) :
    (t.set k a).get? j = if j = k then some a else t.get? j := by
  by_cases h : j = k
  · simp [get?, set, h]
  · have h' : Key.toNat k ≠ Key.toNat j := fun e => h (key_inj.1 e.symm)
    simp [get?, set, Std.TreeMap.getElem?_insert, h, h']

variable [Inhabited α]

theorem get_set (t : Table κ α) (k j : κ) (a : α) :
    (t.set k a).get j = if j = k then a else t.get j := by
  simp only [get, get?_set]
  split <;> rfl

theorem get_set_self (t : Table κ α) (k : κ) (a : α) : (t.set k a).get k = a := by
  rw [get_set, if_pos rfl]

theorem get_modify (t : Table κ α) (k j : κ) (f : α → α) :
    (t.modify k f).get j = if j = k then f (t.get j) else t.get j := by
  rw [modify, get_set]
  by_cases h : j = k <;> simp [h]

theorem get_modify_self (t : Table κ α) (k : κ) (f : α → α) : (t.modify k f).get k = f (t.get k) :=
  t.get_set_self k _

theorem map_get_modify_congr {β : Type} {φ : α → β} {f g : α → α} {t : Table κ α} {k : κ}
    (h : φ (f (t.get k)) = φ (g (t.get k))) : φ ((t.modify k f).get k) = φ ((t.modify k g).get k) := by
  rw [get_modify_self, get_modify_self, h]

/-- What a change leaves alone of every record, it leaves alone of the table. -/
theorem map_get_modify {β : Type} {φ : α → β} {f : α → α} (hφ : ∀ a, φ (f a) = φ a) (t : Table κ α) (k j : κ) :
    φ ((t.modify k f).get j) = φ (t.get j) := by
  rw [get_modify]
  split
  · exact hφ _
  · rfl

theorem map_get_modifyAll {β : Type} {φ : α → β} {f : α → α} (hφ : ∀ a, φ (f a) = φ a) (t : Table κ α)
    (ks : List κ) (j : κ) : φ ((t.modifyAll ks f).get j) = φ (t.get j) := by
  induction ks generalizing t with
  | nil => rfl
  | cons k ks ih => exact (ih (t.modify k f)).trans (map_get_modify hφ t k j)

theorem get_modifyAll (t : Table κ α) {ks : List κ} (hks : ks.Nodup) (j : κ) (f : α → α) :
    (t.modifyAll ks f).get j = if j ∈ ks then f (t.get j) else t.get j := by
  induction ks generalizing t with
  | nil => simp [modifyAll]
  | cons k ks ih =>
    have hk := List.nodup_cons.1 hks
    have h : t.modifyAll (k :: ks) f = (t.modify k f).modifyAll ks f := rfl
    rw [h, ih _ hk.2, get_modify]
    by_cases hj : j = k
    · subst hj; simp [hk.1]
    · simp [hj]

end Table

end ClassDiagram
