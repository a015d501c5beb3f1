import ClassDiagram.Proofs.Checks
import ClassDiagram.Proofs.Outcome
import ClassDiagram.Session

/-! To add a member to a collection is to assign the collection with the member at its end. -/

namespace ClassDiagram

/-- Faults that are reported as of one kind and with the same details; their messages may differ. -/
def Fault.Alike (f f' : Fault) : Prop := f.report.kind = f'.report.kind ∧ f.report.details = f'.report.details

theorem Fault.alike_nameTaken {holder collection member name : String} (h : member ++ "s" = collection) :
    (duplicateNames holder collection [name]).Alike (nameTaken holder member name) := by
  subst h
  exact ⟨rfl, rfl⟩

inductive Concur : Except Fault Unit → Except Fault Unit → Prop where
  | passed : Concur (.ok ()) (.ok ())
  | failed {f f' : Fault} : f.Alike f' → Concur (.error f) (.error f')

namespace Concur
variable {x x' y y' : Except Fault Unit}

theorem ite {P P' : Prop} [Decidable P] [Decidable P'] {f f' : Fault} (hP : P ↔ P') (h : f.Alike f') :
    Concur (if P then .error f else .ok ()) (if P' then .error f' else .ok ()) := by
  by_cases hp : P
  · rw [if_pos hp, if_pos (hP.1 hp)]
    exact failed h
  · rw [if_neg hp, if_neg (mt hP.2 hp)]
    exact passed

theorem bind (h : Concur x x') (hy : Concur y y') : Concur (x >>= fun _ => y) (x' >>= fun _ => y') := by
  cases h with
  | passed => exact hy
  | failed halike => exact failed halike

theorem eq_ok (h : Concur x x') (hx : x = .ok ()) : x' = .ok () := by
  cases h with
  | passed => rfl
  | failed => cases hx

end Concur

namespace Store
variable {s : Store}

theorem concur_names {kind : Kind} {xs : OrderedSet (Ref kind)} {r : Ref kind} {holder collection member : String}
    (hmember : member ++ "s" = collection) (h : (s.namesOf xs).Nodup) :
    Concur (uniqueNames holder collection (s.namesOf (xs.insert r)))
      (freeName holder member (s.namesBeside xs r) (r.name s)) := by
  rw [uniqueNames_insert h]
  exact Concur.ite Iff.rfl (Fault.alike_nameTaken hmember)

theorem concur_attributes {c : ClassRef} {p : PropertyRef} (hnames : (s.namesOf (s.classes.get c).attributes).Nodup)
    (hid : (s.classes.get c).attributes.toList.countP s.isId ≤ 1) :
    Concur (s.checkAttributes (c.name s) ((s.classes.get c).attributes.insert p)) (s.checkNewAttribute c p) := by
  have hname : Concur (uniqueNames "A class" "attributes" (s.namesOf ((s.classes.get c).attributes.insert p)))
      (freeName "A class" "attribute" (s.namesBeside (s.classes.get c).attributes p) (p.name s)) :=
    concur_names (by decide) hnames
  exact hname.bind (Concur.ite (one_lt_countP_isId_insert hid) ⟨rfl, rfl⟩)

end Store

namespace Edit
variable {μ : Type}

/--
To add `x` to the `members` in a store by `add` compares to assigning all of them, followed by `x`, by `assign`: it is
accepted if that is, with the same result; and if the members were `Fit`, both are accepted or both are refused alike.
-/
structure Appends (members : Store → OrderedSet μ) (Fit : OrderedSet μ → Prop) (assign : List μ → Edit Unit)
    (add : μ → Edit Unit) (s : Store) (x : μ) : Prop where
  accepted : ∀ s', assign ((members s).toList ++ [x]) s = .ok () s' →
    ∃ t, add x s = .ok () t ∧ members t = members s'
  refused : Fit (members s) →
    Option.Rel Fault.Alike (fault? (assign ((members s).toList ++ [x])) s) (fault? (add x) s)

variable {members : Store → OrderedSet μ} {Fit : OrderedSet μ → Prop} {assign : List μ → Edit Unit}
  {add : μ → Edit Unit} {s t t' : Store} {x : μ} {v v' : Except Fault Unit}

theorem Appends.of_passes (hassign : Passes (assign ((members s).toList ++ [x])) s v t) (hadd : Passes (add x) s v' t')
    (hfit : v = .ok () → Fit (members s)) (hconcur : Fit (members s) → Concur v v')
    (hmembers : members t' = members t) : Appends members Fit assign add s x := by
  refine ⟨fun s' hs' => ?_, fun h => ?_⟩
  · obtain ⟨hv, rfl⟩ := hassign.eq_ok_iff.1 hs'
    have hv' : v' = .ok () := (hconcur (hfit hv)).eq_ok hv
    exact ⟨t', hadd.eq_ok_iff.2 ⟨hv', rfl⟩, hmembers⟩
  · cases hconcur h with
    | passed =>
      rw [hassign.fault?_of_ok, hadd.fault?_of_ok]
      exact Option.Rel.none
    | failed halike =>
      rw [hassign.fault?_of_error, hadd.fault?_of_error]
      exact Option.Rel.some halike

theorem Appends.of_names {kind : Kind} {members : Store → OrderedSet (Ref kind)} {assign : List (Ref kind) → Edit Unit}
    {add : Ref kind → Edit Unit} {x : Ref kind} {holder collection member : String}
    (hmember : member ++ "s" = collection)
    (hassign : Passes (assign ((members s).toList ++ [x])) s
      (uniqueNames holder collection (s.namesOf (.ofList ((members s).toList ++ [x])))) t)
    (hadd : Passes (add x) s (freeName holder member (s.namesBeside (members s) x) (x.name s)) t')
    (hmembers : members t' = members t) : Appends members (fun xs => (s.namesOf xs).Nodup) assign add s x := by
  rw [OrderedSet.ofList_toList_append] at hassign
  -- members that are accepted with another one were fit before
  refine Appends.of_passes hassign hadd (fun hok => ?_) (fun h => Store.concur_names hmember h) hmembers
  exact Store.nodup_namesOf_of_insert (uniqueNames_eq_ok hok)

end Edit

/--
Whatever a class, an enumeration or a method has for members, to add one more, be it a member already, is accepted if
the assignment of the members with that one at their end is accepted, and leads to the same collection. If the members
had distinct names, and attributes had at most one identifier among them, the addition is refused exactly if the
assignment is, and both are reported alike.
-/
theorem additions_agree (s : Store) :
    (∀ (c : ClassRef) (p : PropertyRef), Edit.Appends (fun t => (t.classes.get c).attributes)
      (fun xs => (s.namesOf xs).Nodup ∧ xs.toList.countP s.isId ≤ 1) (Edit.replaceAttributes c) (Edit.addAttribute c)
      s p) ∧
    (∀ (c : ClassRef) (m : MethodRef), Edit.Appends (fun t => (t.classes.get c).methods)
      (fun xs => (s.namesOf xs).Nodup) (Edit.replaceMethods c) (Edit.addMethod c) s m) ∧
    (∀ (e : EnumerationRef) (l : LiteralRef), Edit.Appends (fun t => (t.enumerations.get e).literals)
      (fun xs => (s.namesOf xs).Nodup) (Edit.replaceLiterals e) (Edit.addLiteral e) s l) ∧
    ∀ (m : MethodRef) (p : ParameterRef), Edit.Appends (fun t => (t.methods.get m).parameters)
      (fun xs => (s.namesOf xs).Nodup) (Edit.replaceParameters m) (Edit.addParameter m) s p := by
  -- the list that is assigned is the set with the member inserted
  have hlist : ∀ {kind : Kind} (xs : OrderedSet (Ref kind)) (x : Ref kind), xs.insert x = .ofList (xs.toList ++ [x]) :=
    fun xs x => (OrderedSet.ofList_toList_append xs x).symm
  refine ⟨fun c p => ?_, fun c m => ?_, fun e l => ?_, fun m p => ?_⟩
  · refine Edit.Appends.of_passes Edit.passes_check_modify Edit.passes_check_modify (fun hok => ?_) (fun h => ?_) ?_
    · rw [← hlist] at hok
      obtain ⟨hnames, hid⟩ := Store.checkAttributes_eq_ok hok
      have hsub := (OrderedSet.prefix_insert (s.classes.get c).attributes p).sublist
      exact ⟨Store.nodup_namesOf_of_insert hnames, Nat.le_trans hsub.countP_le hid⟩
    · rw [← hlist]
      exact Store.concur_attributes h.1 h.2
    · exact Table.map_get_modify_congr (φ := ClassRecord.attributes) (hlist _ p)
  · refine Edit.Appends.of_names (by decide) Edit.passes_check_modify Edit.passes_check_modify ?_
    exact Table.map_get_modify_congr (φ := ClassRecord.methods) (hlist _ m)
  · refine Edit.Appends.of_names (by decide) Edit.passes_check_modify Edit.passes_check_modify ?_
    exact Table.map_get_modify_congr (φ := EnumerationRecord.literals) (hlist _ l)
  · refine Edit.Appends.of_names (by decide) Edit.passes_check_modify Edit.passes_check_modify ?_
    exact Table.map_get_modify_congr (φ := MethodRecord.parameters) (hlist _ p)

theorem additions_agree_of_clash :
    let s := ((Session.initial fun _ => ⟨0⟩).run
      [.create "c" (.classType (.text "C") {}),
        .create "p" (.property (.text "key") (.known (.ofClass ⟨9⟩)) { isId := .bool true }),
        .create "q" (.property (.text "key") (.known (.ofClass ⟨9⟩)) { isId := .bool true }),
        .call (.addAttribute ⟨9⟩ ⟨10⟩)]).store
    let attributes := (s.classes.get ⟨9⟩).attributes
    ((s.namesOf attributes).Nodup ∧ attributes.toList.countP s.isId ≤ 1) ∧
      Option.Rel Fault.Alike (Edit.fault? (Edit.replaceAttributes ⟨9⟩ (attributes.toList ++ [⟨11⟩])) s)
        (Edit.fault? (Edit.addAttribute ⟨9⟩ ⟨11⟩) s) ∧
      (Edit.fault? (Edit.addAttribute ⟨9⟩ ⟨11⟩) s).map Fault.kind = some .duplicateName := by
  intro s attributes
  have hfit : (s.namesOf attributes).Nodup ∧ attributes.toList.countP s.isId ≤ 1 := by decide
  exact ⟨hfit, ((additions_agree s).1 ⟨9⟩ ⟨11⟩).refused hfit, by decide⟩

end ClassDiagram
