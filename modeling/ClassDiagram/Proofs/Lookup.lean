import ClassDiagram.Proofs.Collections
import ClassDiagram.Proofs.CreationOrder
import Mathlib.Algebra.Group.Nat.Defs
import Mathlib.Order.Interval.Set.Defs

/-! What belongs to a model, and how it is found by identifiers. -/

namespace ClassDiagram

namespace Uuid

end Uuid

namespace Store
variable {may : Leave} {s s' : Store} {m : ModelRef} {x : Element}

theorem Quiet.ids (h : s.Quiet may s') : s'.ids = s.ids := by
  cases h with
  | noted channel message =>
    obtain ⟨log, hlog⟩ := s.exists_noted channel message
    rw [hlog]
  | _ => rfl

theorem Change.ids (h : s.Change may s') : s'.ids = s.ids := by
  cases h with
  | quiet hq => exact hq.ids
  | _ => rfl

end Store

namespace Session

end Session

namespace Call
variable {s : Store} {m : ModelRef} {id : Value}

end Call

end ClassDiagram
