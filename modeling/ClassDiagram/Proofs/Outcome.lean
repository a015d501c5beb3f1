import ClassDiagram.Edit

/-! What an edit ensures of its outcome, accepted or rejected, is put together from what its parts ensure. -/

namespace ClassDiagram

theorem Store.exists_noted (s : Store) (channel : Channel) (message : String) :
    ∃ log, s.noted channel message = { s with log } := by
  unfold noted
  split
  · exact ⟨_, rfl⟩
  · exact ⟨s.log, rfl⟩

namespace Edit
variable {α β : Type}

/-- `Q` holds of the answer and the store if the edit is accepted, `E` of the fault and the store if it is not. -/
def Ensures (x : Edit α) (s : Store) (Q : α → Store → Prop) (E : Fault → Store → Prop) : Prop :=
  match x s with
  | .ok a s' => Q a s'
  | .error f s' => E f s'

variable {s : Store} {Q : α → Store → Prop} {E : Fault → Store → Prop}

@[simp] theorem ensures_pure {a : α} : Ensures (pure a) s Q E ↔ Q a s := Iff.rfl

@[simp] theorem ensures_draw {Q : Nat → Store → Prop} :
    Ensures draw s Q E ↔ Q (s.created + 1) { s with created := s.created + 1 } := Iff.rfl

@[simp] theorem ensures_get {Q : Store → Store → Prop} : Ensures get s Q E ↔ Q s s := Iff.rfl

@[simp] theorem ensures_modify {f : Store → Store} {Q : Unit → Store → Prop} :
    Ensures (modify f) s Q E ↔ Q () (f s) := Iff.rfl

@[simp] theorem ensures_note {channel : Channel} {message : String} {Q : Unit → Store → Prop} :
    Ensures (note channel message) s Q E ↔ Q () (s.noted channel message) := Iff.rfl

@[simp] theorem ensures_reading {q : Store → α} : Ensures (reading q) s Q E ↔ Q (q s) s := Iff.rfl

@[simp] theorem ensures_check {q : Store → Except Fault α} :
    Ensures (check q) s Q E ↔
      (∀ a, q s = .ok a → Q a s) ∧ ∀ f, q s = .error f → E f (s.blamed f) := by
  cases h : q s with
  | ok a => simp [Ensures, check_apply_of_ok h]
  | error f => simp [Ensures, check_apply_of_error h]

@[simp] theorem ensures_bind {x : Edit α} {k : α → Edit β} {Q : β → Store → Prop} :
    Ensures (x >>= k) s Q E ↔ Ensures x s (fun a s' => Ensures (k a) s' Q E) E := by
  unfold Ensures
  rw [bind_apply]
  cases x s <;> rfl

@[simp] theorem ensures_map {x : Edit α} {f : α → β} {Q : β → Store → Prop} :
    Ensures (f <$> x) s Q E ↔ Ensures x s (fun a s' => Q (f a) s') E := by
  unfold Ensures
  rw [map_apply]
  cases x s <;> rfl

theorem Ensures.mono {x : Edit α} {Q' : α → Store → Prop} {E' : Fault → Store → Prop}
    (h : Ensures x s Q E) (hQ : ∀ a s', Q a s' → Q' a s') (hE : ∀ f s', E f s' → E' f s') :
    Ensures x s Q' E' := by
  unfold Ensures at h ⊢
  cases hx : x s with
  | ok a s' => rw [hx] at h; exact hQ a s' h
  | error f s' => rw [hx] at h; exact hE f s' h

theorem Ensures.bind {x : Edit α} {k : α → Edit β} {Q : β → Store → Prop} {P : α → Store → Prop}
    (h : Ensures x s P E) (hk : ∀ a s', P a s' → Ensures (k a) s' Q E) : Ensures (x >>= k) s Q E :=
  ensures_bind.2 (h.mono hk fun _ _ he => he)

theorem Ensures.of_ok {x : Edit α} (h : Ensures x s Q E) {a : α} {s' : Store} (hx : x s = .ok a s') :
    Q a s' := by
  unfold Ensures at h
  rwa [hx] at h

theorem Ensures.of_error {x : Edit α} (h : Ensures x s Q E) {f : Fault} {s' : Store}
    (hx : x s = .error f s') : E f s' := by
  unfold Ensures at h
  rwa [hx] at h

def fault? (x : Edit α) (s : Store) : Option Fault :=
  match x s with
  | .ok _ _ => none
  | .error f _ => some f

/-- An edit that does what it does in one piece, once it has passed a check. -/
def Passes (x : Edit Unit) (s : Store) (v : Except Fault Unit) (t : Store) : Prop :=
  x s = match v with
    | .ok _ => .ok () t
    | .error f => .error f (s.blamed f)

section
variable {x : Edit Unit} {t : Store} {v : Except Fault Unit} {q : Store → Except Fault Unit} {g : Store → Store}

theorem passes_check_modify : Passes (do check q; modify g) s (q s) (g s) := by
  unfold Passes
  rw [bind_apply]
  cases hq : q s with
  | ok => rw [check_apply_of_ok hq]; rfl
  | error f => rw [check_apply_of_error hq]

theorem passes_check_note_modify {channel : Channel} {message : Store → String} :
    Passes (do
      let s₀ ← get
      (do check q; note channel (message s₀))
      modify g) s (q s) (g (s.noted channel (message s))) := by
  unfold Passes
  rw [bind_apply, get_apply]
  show ((do check q; note channel (message s)) >>= fun _ => (modify g : Edit Unit)) s = _
  rw [bind_apply, bind_apply]
  cases hq : q s with
  | ok => rw [check_apply_of_ok hq]; rfl
  | error f => rw [check_apply_of_error hq]

theorem Passes.eq_ok_iff {s' : Store} (h : Passes x s v t) : x s = .ok () s' ↔ v = .ok () ∧ s' = t := by
  unfold Passes at h
  rw [h]
  cases v with
  | ok => exact ⟨fun he => ⟨rfl, (EStateM.Result.ok.inj he).2.symm⟩, fun he => he.2 ▸ rfl⟩
  | error f => exact ⟨nofun, fun he => nomatch he.1⟩

theorem Passes.fault?_of_ok (h : Passes x s (.ok ()) t) : fault? x s = none := by
  unfold Passes at h
  rw [fault?, h]

theorem Passes.fault?_of_error {f : Fault} (h : Passes x s (.error f) t) : fault? x s = some f := by
  unfold Passes at h
  rw [fault?, h]

theorem Passes.fault?_eq_some_iff {f : Fault} (h : Passes x s v t) : fault? x s = some f ↔ v = .error f := by
  cases v with
  | ok =>
    rw [h.fault?_of_ok]
    exact ⟨nofun, nofun⟩
  | error f' =>
    rw [h.fault?_of_error]
    exact ⟨fun he => congrArg _ (Option.some.inj he), fun he => congrArg _ (Except.error.inj he)⟩

end

end Edit

end ClassDiagram
