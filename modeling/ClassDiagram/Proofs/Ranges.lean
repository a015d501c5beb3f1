import ClassDiagram.Proofs.Reachable

/-! The bounds of a multiplicity as they are read, whatever has been assigned to them. -/

namespace ClassDiagram

namespace Number

/-- The number that remains of a natural number if its first fifty-three binary digits are kept. -/
def truncated (n : Nat) : Nat := n / Nat.pow 2 (n.log2 - 52) * Nat.pow 2 (n.log2 - 52)

theorem truncated_of_log2_le {n : Nat} (h : n.log2 ≤ 52) : truncated n = n := by
  have hzero : n.log2 - 52 = 0 := Nat.sub_eq_zero_of_le h
  have hone : Nat.pow 2 0 = 1 := rfl
  rw [truncated, hzero, hone, Nat.div_one, Nat.mul_one]

theorem truncated_le (n : Nat) : truncated n ≤ n := Nat.div_mul_le_self _ _

theorem two_pow_le_truncated {n : Nat} (h : 52 ≤ n.log2) : Nat.pow 2 n.log2 ≤ truncated n := by
  have hne : n ≠ 0 := by
    rintro rfl
    exact absurd h (by decide)
  have hsplit : Nat.pow 2 n.log2 = Nat.pow 2 52 * Nat.pow 2 (n.log2 - 52) :=
    calc
      Nat.pow 2 n.log2 = Nat.pow 2 (52 + (n.log2 - 52)) := congrArg _ (Nat.add_sub_of_le h).symm
      _ = Nat.pow 2 52 * Nat.pow 2 (n.log2 - 52) := Nat.pow_add 2 52 _
  have hfirst : Nat.pow 2 n.log2 ≤ n := Nat.log2_self_le hne
  have hdiv : Nat.pow 2 52 ≤ n / Nat.pow 2 (n.log2 - 52) :=
    (Nat.le_div_iff_mul_le (Nat.two_pow_pos _)).2 (hsplit ▸ hfirst)
  rw [hsplit]
  exact Nat.mul_le_mul_right _ hdiv

theorem truncated_mono {m n : Nat} (h : m ≤ n) : truncated m ≤ truncated n := by
  rcases Nat.lt_or_ge n.log2 53 with hsmall | hlarge
  · rw [truncated_of_log2_le (Nat.le_of_lt_succ hsmall)]
    exact Nat.le_trans (truncated_le m) h
  · -- a number of fewer digits stays below the first digit of the other
    rcases Nat.lt_or_ge m (Nat.pow 2 n.log2) with hlt | hge
    · have hpow := two_pow_le_truncated (n := n) (by omega)
      have hle := truncated_le m
      omega
    · -- both numbers lose as many digits
      have hmne : m ≠ 0 := by
        have hpos : 0 < Nat.pow 2 n.log2 := Nat.two_pow_pos _
        omega
      have hlog : m.log2 = n.log2 := by
        refine (Nat.log2_eq_iff hmne).2 ⟨hge, ?_⟩
        exact Nat.lt_of_le_of_lt h Nat.lt_log2_self
      rw [truncated, truncated, hlog]
      exact Nat.mul_le_mul_right _ (Nat.div_le_div_right h)

theorem natural?_ofNat (n : Nat) : (ofNat n).natural? = some (truncated n) := by
  unfold ofNat
  split_ifs with hzero hlog
  · rw [hzero]
    rfl
  · rw [truncated_of_log2_le hlog]
    have hpos : 0 < Nat.pow 2 (52 - n.log2) := Nat.two_pow_pos _
    have hne : n * Nat.pow 2 (52 - n.log2) ≠ 0 := Nat.mul_ne_zero hzero (Nat.ne_of_gt hpos)
    rw [natural?, if_neg hne, if_neg Bool.false_ne_true]
    split_ifs with hexact hwhole
    · have hlast : 52 - n.log2 = 0 ∧ ((n.log2 : Int) - 52).toNat = 0 := by omega
      rw [hlast.1, hlast.2]
      exact congrArg some (by simp)
    · have hexp : (-((n.log2 : Int) - 52)).toNat = 52 - n.log2 := by omega
      rw [hexp, Nat.mul_div_cancel _ hpos]
    · have hexp : (-((n.log2 : Int) - 52)).toNat = 52 - n.log2 := by omega
      rw [hexp, Nat.mul_mod_left] at hwhole
      exact absurd rfl hwhole
  · have hlarge : 52 ≤ n.log2 := by omega
    have hne : n / Nat.pow 2 (n.log2 - 52) ≠ 0 := by
      intro hdiv
      have hpow := two_pow_le_truncated hlarge
      have htruncated : truncated n = n / Nat.pow 2 (n.log2 - 52) * Nat.pow 2 (n.log2 - 52) := rfl
      rw [htruncated, hdiv, Nat.zero_mul] at hpow
      exact absurd (Nat.two_pow_pos n.log2) (Nat.not_lt_of_le hpow)
    have hexp : ((n.log2 : Int) - 52).toNat = n.log2 - 52 := by omega
    have hnonneg : 0 ≤ (n.log2 : Int) - 52 := by omega
    rw [natural?, if_neg hne, if_neg Bool.false_ne_true, if_pos hnonneg, hexp]
    rfl

end Number

namespace Multiplicity
variable {r r' : Multiplicity} {v : Value}

def Tame (r : Multiplicity) : Prop := r.lower ≤ r.upper ∨ r.upper = unlimited

def Bounds (r : Multiplicity) (upper : Value) : Prop := r.lower ≤ r.upper ∨ upper = .text "*" ∧ r.upper = unlimited

theorem Bounds.tame (h : r.Bounds v) : r.Tame := h.imp_right And.right

theorem setLower_eq_ok (h : r.setLower v = .ok r') : r'.lower ≤ r'.upper := by
  unfold setLower at h
  split at h
  · split_ifs at h with hle
    cases h
    exact hle
  · cases h

theorem setUpper_eq_ok (h : r.setUpper v = .ok r') : r'.lower = r.lower ∧ r'.Bounds v := by
  unfold setUpper at h
  split at h
  · -- a star is not compared with the lower bound
    cases h
    exact ⟨rfl, Or.inr ⟨rfl, rfl⟩⟩
  · split at h
    · split_ifs at h with hle
      cases h
      exact ⟨rfl, Or.inl hle⟩
    · cases h

theorem ofBounds_eq_ok {lower upper : Value} (h : ofBounds lower upper = .ok r) : r.Bounds upper := by
  unfold ofBounds at h
  split at h
  · exact (setUpper_eq_ok h).2
  · cases h

end Multiplicity

namespace Store
variable {may : Leave} {s s' : Store}

/-- The bounds of a multiplicity read as numbers, and these are natural: the given ones. -/
def Ranges (s : Store) (m : MultiplicityRef) (lower upper : Nat) : Prop :=
  (∃ v, Command.fieldOf s "min" (.multiplicity m) = .value v ∧ Multiplicity.bound? v = some lower) ∧
    ∃ v, Command.fieldOf s "max" (.multiplicity m) = .value v ∧ Multiplicity.bound? v = some upper

theorem ranges_truncated (s : Store) (m : MultiplicityRef) :
    s.Ranges m (Number.truncated (s.multiplicities.get m).lower) (Number.truncated (s.multiplicities.get m).upper) :=
  ⟨⟨_, rfl, Number.natural?_ofNat _⟩, ⟨_, rfl, Number.natural?_ofNat _⟩⟩

theorem Ranges.unique {m : MultiplicityRef} {lower upper lower' upper' : Nat} (h : s.Ranges m lower upper)
    (h' : s.Ranges m lower' upper') : lower = lower' ∧ upper = upper' := by
  obtain ⟨⟨v, hv, hlower⟩, w, hw, hupper⟩ := h
  obtain ⟨⟨v', hv', hlower'⟩, w', hw', hupper'⟩ := h'
  cases hv.symm.trans hv'
  cases hw.symm.trans hw'
  exact ⟨Option.some.inj (hlower.symm.trans hlower'), Option.some.inj (hupper.symm.trans hupper')⟩

def Bounded (s : Store) : Prop := ∀ m, (s.multiplicities.get m).Tame

theorem tame_set {t : Table MultiplicityRef Multiplicity} {m : MultiplicityRef} {r : Multiplicity}
    (h : ∀ m', (t.get m').Tame) (hr : r.Tame) (m' : MultiplicityRef) : ((t.set m r).get m').Tame := by
  rw [Table.get_set]
  split_ifs
  · exact hr
  · exact h m'

theorem multiplicities_noted (channel : Channel) (message : String) :
    (s.noted channel message).multiplicities = s.multiplicities := by
  obtain ⟨log, hlog⟩ := s.exists_noted channel message
  rw [hlog]

theorem multiplicities_blamed (f : Fault) : (s.blamed f).multiplicities = s.multiplicities := by
  unfold blamed
  split_ifs
  · exact multiplicities_noted .error f.message
  · rfl

theorem Quiet.bounded (hs : s.Quiet may s') (h : s.Bounded) : s'.Bounded := by
  cases hs with
  | noted channel message =>
    unfold Bounded
    rwa [multiplicities_noted]
  | drawn => exact h
  | bare => exact h
  | multiplicity hm =>
    apply tame_set h
    rcases hm with rfl | ⟨lower, upper, hbounds⟩
    · exact Or.inl (Nat.le_refl 1)
    · exact (Multiplicity.ofBounds_eq_ok hbounds).tame

theorem Change.bounded (hc : s.Change may s') (h : s.Bounded) : s'.Bounded := by
  cases hc with
  | quiet hs => exact hs.bounded h
  | lower hbounds => exact tame_set h (Or.inl (Multiplicity.setLower_eq_ok hbounds))
  | upper hbounds => exact tame_set h (Multiplicity.setUpper_eq_ok hbounds).2.tame
  | _ => exact h

end Store

theorem Session.bounded_run (ids : Nat → Uuid) (cs : List Command) : ((initial ids).run cs).store.Bounded :=
  (sound_initial ids).run_induction (fun _ => Or.inl (Nat.le_refl 0)) (fun _ => id) (fun _ _ _ hc h => hc.bounded h) cs

inductive Setting where
  | lower (v : Value)
  | upper (v : Value)

namespace Setting

def command (m : MultiplicityRef) : Setting → Command
  | lower v => .assign (.lower m v)
  | upper v => .assign (.upper m v)

def apply (r : Multiplicity) : Setting → Except Fault Multiplicity
  | lower v => r.setLower v
  | upper v => r.setUpper v

def isStar : Setting → Bool
  | upper (.text "*") => true
  | _ => false

/-- A star is in place while the lower bound is at most what a star stands for. -/
def InPlace (r : Multiplicity) (x : Setting) : Prop := x.isStar → r.lower ≤ Multiplicity.unlimited

instance (r : Multiplicity) : DecidablePred (InPlace r) := fun x =>
  inferInstanceAs (Decidable (x.isStar → r.lower ≤ Multiplicity.unlimited))

theorem ensures_command {t : Store} (m : MultiplicityRef) (x : Setting) :
    Edit.Ensures (x.command m).edit t
      (fun _ t' => x.apply (t.multiplicities.get m) = .ok (t'.multiplicities.get m))
      (fun _ t' => t'.multiplicities.get m = t.multiplicities.get m) := by
  have hedit : (x.command m).edit = (fun _ => Datum.nothing) <$>
      (Edit.check (fun s => x.apply (s.multiplicities.get m)) >>= fun bounds =>
        modify fun s => { s with multiplicities := s.multiplicities.set m bounds }) := by
    cases x <;> rfl
  rw [hedit]
  simp only [Edit.ensures_map, Edit.ensures_bind, Edit.ensures_check, Edit.ensures_modify, Table.get_set_self,
    Store.multiplicities_blamed]
  exact ⟨fun _ h => h, fun _ _ => trivial⟩

end Setting

theorem Multiplicity.Bounds.ordered {r : Multiplicity} {v : Value} (h : r.Bounds v)
    (hplace : (Setting.upper v).InPlace r) : r.lower ≤ r.upper := by
  rcases h with hle | ⟨rfl, hupper⟩
  · exact hle
  · rw [hupper]
    exact hplace rfl

namespace Session
variable {s s₀ : Session} {m : MultiplicityRef}

def StarsInPlace (m : MultiplicityRef) (s : Session) : List Setting → Prop
  | [] => True
  | x :: xs => x.InPlace (s.store.multiplicities.get m) ∧ (s.perform (x.command m)).1.StarsInPlace m xs

instance decidableStarsInPlace (m : MultiplicityRef) (s : Session) :
    (xs : List Setting) → Decidable (s.StarsInPlace m xs)
  | [] => isTrue trivial
  | x :: xs =>
    have : Decidable ((s.perform (x.command m)).1.StarsInPlace m xs) := decidableStarsInPlace m _ xs
    inferInstanceAs (Decidable (_ ∧ _))

theorem multiplicity_perform (s : Session) (m : MultiplicityRef) (x : Setting) :
    (s.perform (x.command m)).1.store.multiplicities.get m = s.store.multiplicities.get m ∨
      x.apply (s.store.multiplicities.get m) = .ok ((s.perform (x.command m)).1.store.multiplicities.get m) := by
  have hensures := Setting.ensures_command (t := { s.store with log := [] }) m x
  rcases s.perform_cases (x.command m) with ⟨_, d, t, he, hp⟩ | ⟨_, f, t, he, hp⟩ | hp
  · rw [hp, store_bind]
    exact Or.inr (hensures.of_ok he)
  · rw [hp]
    exact Or.inl (hensures.of_error he)
  · rw [hp]
    exact Or.inl rfl

theorem StarsInPlace.ordered {xs : List Setting} (h : s.StarsInPlace m xs)
    (hs : (s.store.multiplicities.get m).lower ≤ (s.store.multiplicities.get m).upper) :
    ((s.run (xs.map (Setting.command m))).store.multiplicities.get m).lower ≤
      ((s.run (xs.map (Setting.command m))).store.multiplicities.get m).upper := by
  induction xs generalizing s with
  | nil => exact hs
  | cons x xs ih =>
    apply ih h.2
    -- whatever the bounds were, a setting that is accepted has been compared with the other bound, unless it is a star
    rcases s.multiplicity_perform m x with hsame | happly
    · rwa [hsame]
    · cases x with
      | lower v => exact Multiplicity.setLower_eq_ok happly
      | upper v =>
        obtain ⟨hlower, hbounds⟩ := Multiplicity.setUpper_eq_ok happly
        apply hbounds.ordered
        intro hstar
        rw [hlower]
        exact h.1 hstar

theorem ofBounds_of_perform {handle : String} {lower upper : Value}
    (h : s.perform (.create handle (.multiplicity lower upper)) = (s₀, .answer (.multiplicity m))) :
    Multiplicity.ofBounds lower upper = .ok (s₀.store.multiplicities.get m) := by
  have hensures : Edit.Ensures (Command.create handle (.multiplicity lower upper)).edit { s.store with log := [] }
      (fun d t => ∀ k, d = .multiplicity k → Multiplicity.ofBounds lower upper = .ok (t.multiplicities.get k))
      (fun _ _ => True) := by
    refine Edit.ensures_map.2 (Edit.ensures_bind.2 (Edit.ensures_check.2 ⟨fun r hr => ?_, fun _ _ => trivial⟩))
    rintro k ⟨⟩
    show _ = Except.ok ((s.store.multiplicities.set ⟨s.store.multiplicityCount⟩ r).get ⟨s.store.multiplicityCount⟩)
    rw [Table.get_set_self]
    exact hr
  rcases s.perform_cases (.create handle (.multiplicity lower upper)) with ⟨_, d, t, he, hp⟩ | ⟨_, f, t, he, hp⟩ | hp
  · rw [hp] at h
    cases h
    rw [store_bind]
    exact hensures.of_ok he m rfl
  · rw [hp] at h
    cases h
  · rw [hp] at h
    cases h

end Session

/--
Both bounds of a multiplicity always read as natural numbers, and they are in order unless the upper one reads as the
number that stands for a star and the lower one as a greater one. From its construction on, whatever is assigned to its
bounds, accepted or not, they are in order as long as no star is given while the lower bound is greater than what a star
stands for.
-/
theorem ranges_valid (ids : Nat → Uuid) (cs : List Command) :
    let s := (Session.initial ids).run cs
    (∀ m, ∃ lower upper, s.store.Ranges m lower upper ∧
      (lower ≤ upper ∨ upper = Multiplicity.unlimited ∧ Multiplicity.unlimited < lower)) ∧
    ∀ (handle : String) (a b : Value) (s₀ : Session) (m : MultiplicityRef),
      s.perform (.create handle (.multiplicity a b)) = (s₀, .answer (.multiplicity m)) →
        (Setting.upper b).InPlace (s₀.store.multiplicities.get m) →
          ∀ settings : List Setting, s₀.StarsInPlace m settings →
            ∃ lower upper, (s₀.run (settings.map (Setting.command m))).store.Ranges m lower upper ∧ lower ≤ upper := by
  intro s
  refine ⟨fun m => ⟨_, _, s.store.ranges_truncated m, ?_⟩, ?_⟩
  · have hunlimited : Number.truncated Multiplicity.unlimited = Multiplicity.unlimited :=
      Number.truncated_of_log2_le (by decide)
    rcases Session.bounded_run ids cs m with hle | hupper
    · exact Or.inl (Number.truncated_mono hle)
    · rw [hupper, hunlimited, eq_self, true_and]
      exact (Nat.lt_or_ge _ _).symm
  · intro handle a b s₀ m hcreate hplace settings hsettings
    have hstart := (Multiplicity.ofBounds_eq_ok (Session.ofBounds_of_perform hcreate)).ordered hplace
    exact ⟨_, _, Store.ranges_truncated _ m, Number.truncated_mono (hsettings.ordered hstart)⟩

theorem ranges_valid_of_low_star :
    let number (n : Nat) : Value := .number (.ofNat n)
    let settings : List Setting :=
      [.lower (number 500), .upper (number 3), .upper (number 600), .upper (.text "*"), .lower (number 10000)]
    ∃ s₀, (Session.initial fun _ => ⟨0⟩).perform (.create "m" (.multiplicity (number 1) (.text "*"))) =
        (s₀, .answer (.multiplicity ⟨0⟩)) ∧
      (Setting.upper (.text "*")).InPlace (s₀.store.multiplicities.get ⟨0⟩) ∧ s₀.StarsInPlace ⟨0⟩ settings ∧
      ∃ lower upper, (s₀.run (settings.map (Setting.command ⟨0⟩))).store.Ranges ⟨0⟩ lower upper ∧ lower ≤ upper := by
  intro number settings
  refine ⟨_, rfl, by decide, by decide, ?_⟩
  exact (ranges_valid (fun _ => ⟨0⟩) []).2 "m" (number 1) (.text "*") _ ⟨0⟩ rfl (by decide) settings (by decide)

/-- A star is not compared with a lower bound that is greater than what it stands for. -/
theorem star_below_lower :
    let number (n : Nat) : Value := .number (.ofNat n)
    ∃ s₀ s₁, (Session.initial fun _ => ⟨0⟩).perform (.create "m" (.multiplicity (number 10000) (number 20000))) =
        (s₀, .answer (.multiplicity ⟨0⟩)) ∧
      s₀.perform (.assign (.upper ⟨0⟩ (.text "*"))) = (s₁, .answer .nothing) ∧
      s₁.store.Ranges ⟨0⟩ 10000 9999 ∧ ∀ lower upper, s₁.store.Ranges ⟨0⟩ lower upper → ¬ lower ≤ upper := by
  intro number
  have hread : ∀ s : Store, s.Ranges ⟨0⟩ 10000 9999 → ∀ lower upper, s.Ranges ⟨0⟩ lower upper → ¬ lower ≤ upper := by
    intro s hs lower upper h
    obtain ⟨rfl, rfl⟩ := hs.unique h
    decide
  refine ⟨_, _, rfl, rfl, ?ranges, hread _ ?ranges⟩
  exact ⟨⟨_, rfl, by decide⟩, _, rfl, by decide⟩

end ClassDiagram
