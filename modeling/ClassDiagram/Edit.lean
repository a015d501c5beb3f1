import ClassDiagram.Names
import ClassDiagram.Store

/-! Edits of a store: a rejected edit leaves whatever it has done until then. -/

namespace ClassDiagram

namespace Store

/-- Nothing is kept while nobody listens. -/
def noted (s : Store) (channel : Channel) (message : String) : Store :=
  if s.listening then { s with log := s.log ++ [⟨channel, message⟩] } else s

def blamed (s : Store) (f : Fault) : Store := if f.isNameClash then s.noted .error f.message else s

end Store

abbrev Edit := EStateM Fault Store

namespace Edit

variable {α β : Type}

/-- Gives out the next number. -/
def draw : Edit Nat := fun s => .ok (s.created + 1) { s with created := s.created + 1 }

def note (channel : Channel) (message : String) : Edit Unit := modify (·.noted channel message)

/-- Goes on with what is read off the store, unless that is at fault. -/
def check (q : Store → Except Fault α) : Edit α := fun s =>
  match q s with
  | .ok a => .ok a s
  | .error f => .error f (s.blamed f)

def reading (q : Store → α) : Edit α := fun s => .ok (q s) s

theorem bind_apply (x : Edit α) (f : α → Edit β) (s : Store) :
    (x >>= f) s = match x s with
      | .ok a s' => f a s'
      | .error e s' => .error e s' := by
  show EStateM.bind x f s = _
  unfold EStateM.bind
  cases x s <;> rfl

theorem map_apply (f : α → β) (x : Edit α) (s : Store) :
    (f <$> x) s = match x s with
      | .ok a s' => .ok (f a) s'
      | .error e s' => .error e s' := by
  show EStateM.map f x s = _
  unfold EStateM.map
  cases x s <;> rfl

@[simp] theorem pure_apply (a : α) (s : Store) : (pure a : Edit α) s = .ok a s := rfl

@[simp] theorem draw_apply (s : Store) :
    draw s = .ok (s.created + 1) { s with created := s.created + 1 } := rfl

@[simp] theorem modify_apply (f : Store → Store) (s : Store) :
    (modify f : Edit Unit) s = .ok () (f s) := rfl

@[simp] theorem get_apply (s : Store) : (get : Edit Store) s = .ok s s := rfl

@[simp] theorem note_apply (channel : Channel) (message : String) (s : Store) :
    note channel message s = .ok () (s.noted channel message) := rfl

@[simp] theorem reading_apply (q : Store → α) (s : Store) : reading q s = .ok (q s) s := rfl

theorem check_apply_of_ok {q : Store → Except Fault α} {s : Store} {a : α} (h : q s = .ok a) :
    check q s = .ok a s := by
  simp [check, h]

theorem check_apply_of_error {q : Store → Except Fault α} {s : Store} {f : Fault}
    (h : q s = .error f) : check q s = .error f (s.blamed f) := by
  simp [check, h]

end Edit

/-! What a collection asks of the names of its members. -/

def uniqueNames (holder collection : String) (names : List String) : Except Fault Unit :=
  if names.Nodup then .ok () else .error (.duplicateNames holder collection (Names.duplicates names))

/-- `others` are the names already taken in the collection. -/
def freeName (holder member : String) (others : List String) (name : String) : Except Fault Unit :=
  if name ∈ others then .error (.nameTaken holder member name) else .ok ()

end ClassDiagram
