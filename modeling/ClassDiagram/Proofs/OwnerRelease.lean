import ClassDiagram.Proofs.Ownership

/-! With owner release, whatever a class or an enumeration owns is among its members. -/

namespace ClassDiagram

namespace Ownership
variable {μ ο κ : Type}

/-- Whatever holders own, each as the owner that it is, is among their members. -/
def Within (toOwner : κ → ο) (owner : μ → Option ο) (members : κ → OrderedSet μ) : Prop :=
  ∀ m c, owner m = some (toOwner c) → m ∈ members c

variable {toOwner : κ → ο} {owner owner' : μ → Option ο} {members : κ → OrderedSet μ}

theorem Within.lose (h : Within toOwner owner members)
    (howner : ∀ m c, owner' m = some (toOwner c) → owner m = some (toOwner c)) : Within toOwner owner' members :=
  fun m c hm => h m c (howner m c hm)

theorem Within.disown [DecidableEq μ] (h : Within toOwner owner members) (m₀ : μ) :
    Within toOwner (Function.update owner m₀ none) members := by
  refine h.lose fun m c hm => ?_
  rw [Function.update_apply] at hm
  split_ifs at hm
  exact hm

variable [DecidableEq κ]

theorem Within.enter (h : Within toOwner owner members) {c : κ} (hc : ∀ m, owner m ≠ some (toOwner c))
    (xs : OrderedSet μ) : Within toOwner owner (Function.update members c xs) := by
  intro m d hm
  have hd : d ≠ c := by
    rintro rfl
    exact hc m hm
  rw [Function.update_of_ne hd]
  exact h m d hm

variable [DecidableEq μ]

theorem Within.exchange [DecidableEq ο] (h : Within toOwner owner members) (hinj : Function.Injective toOwner)
    {release : Bool} (hrelease : release) (c : κ) (xs : OrderedSet μ) :
    Within toOwner (exchange release (toOwner c) (members c) xs owner) (Function.update members c xs) := by
  intro m d hm
  unfold Ownership.exchange at hm
  split_ifs at hm with hnew hold
  · have hd : c = d := hinj (Option.some.inj hm)
    rwa [← hd, Function.update_self]
  · have hmem := h m d hm
    -- what the holder itself drops has just been released
    have hd : d ≠ c := by
      rintro rfl
      exact hold ⟨hrelease, hmem, hm⟩
    rwa [Function.update_of_ne hd]

theorem Within.insert (h : Within toOwner owner members) (hinj : Function.Injective toOwner) (c : κ) (m₀ : μ) :
    Within toOwner (Function.update owner m₀ (some (toOwner c)))
      (Function.update members c ((members c).insert m₀)) := by
  intro m d hm
  by_cases hm₀ : m = m₀
  · rw [hm₀, Function.update_self] at hm
    have hd : c = d := hinj (Option.some.inj hm)
    rw [← hd, Function.update_self]
    exact OrderedSet.mem_insert.2 (Or.inr hm₀)
  · rw [Function.update_of_ne hm₀] at hm
    have hmem := h m d hm
    rw [Function.update_apply]
    split_ifs with hd
    · exact OrderedSet.mem_insert.2 (Or.inl (hd ▸ hmem))
    · exact hmem

structure Housed (o : Ownership) : Prop where
  property : Within (fun c : ClassRef => Owner.type (.ofClass c)) o.propertyOwner o.attributes
  method : Within TypeRef.ofClass o.methodOwner o.methods
  literal : Within TypeRef.ofEnumeration o.literalOwner o.literals

variable {o o' : Ownership}

theorem Housed.of_eq (h : o.Housed) (heq : o' = o) : o'.Housed := heq ▸ h

theorem Housed.properties (h : o.Housed) {propertyOwner : PropertyRef → Option Owner}
    {attributes : ClassRef → OrderedSet PropertyRef}
    (hwithin : Within (fun c => Owner.type (.ofClass c)) propertyOwner attributes) :
    Housed { o with propertyOwner, attributes } := ⟨hwithin, h.method, h.literal⟩

theorem Housed.methods (h : o.Housed) {methodOwner : MethodRef → Option TypeRef}
    {methods : ClassRef → OrderedSet MethodRef} (hwithin : Within TypeRef.ofClass methodOwner methods) :
    Housed { o with methodOwner, methods } := ⟨h.property, hwithin, h.literal⟩

theorem Housed.literals (h : o.Housed) {literalOwner : LiteralRef → Option TypeRef}
    {literals : EnumerationRef → OrderedSet LiteralRef} (hwithin : Within TypeRef.ofEnumeration literalOwner literals) :
    Housed { o with literalOwner, literals } := ⟨h.property, h.method, hwithin⟩

theorem ofClass_injective : Function.Injective fun c : ClassRef => Owner.type (.ofClass c) :=
  fun _ _ h => TypeRef.ofClass.inj (Owner.type.inj h)

end Ownership

theorem Table.forall_get_of_keys {κ α : Type} [Key κ] [Inhabited α] {P : α → Prop} {t : Table κ α}
    (hdefault : P default) (h : ∀ k ∈ t.keys, P (t.get k)) (k : κ) : P (t.get k) := by
  by_cases hk : t.contains k
  · exact h k (Table.mem_keys.2 hk)
  · rw [Table.get_of_not_contains hk]
    exact hdefault

namespace Store
open Ownership

structure Unowned (s : Store) : Prop where
  property : ∀ p : PropertyRef, (s.properties.get p).owner = none
  method : ∀ m : MethodRef, (s.methods.get m).owner = none
  literal : ∀ l : LiteralRef, (s.literals.get l).owner = none

variable {s s' : Store}

instance : Decidable s.Unowned :=
  decidable_of_iff ((∀ p ∈ s.properties.keys, (s.properties.get p).owner = none) ∧
      (∀ m ∈ s.methods.keys, (s.methods.get m).owner = none) ∧
      ∀ l ∈ s.literals.keys, (s.literals.get l).owner = none) <| by
    constructor
    · rintro ⟨hproperties, hmethods, hliterals⟩
      refine ⟨?_, ?_, ?_⟩
      · exact Table.forall_get_of_keys (P := fun r : PropertyRecord => r.owner = none) rfl hproperties
      · exact Table.forall_get_of_keys (P := fun r : MethodRecord => r.owner = none) rfl hmethods
      · exact Table.forall_get_of_keys (P := fun r : LiteralRecord => r.owner = none) rfl hliterals
    · intro h
      exact ⟨fun p _ => h.property p, fun m _ => h.method m, fun l _ => h.literal l⟩

theorem Unowned.housed (h : s.Unowned) : s.ownership.Housed where
  property p _ hp := nomatch (h.property p).symm.trans hp
  method m _ hm := nomatch (h.method m).symm.trans hm
  literal l _ hl := nomatch (h.literal l).symm.trans hl

theorem housed_setEnds (h : s.ownership.Housed) (a : AssociationRef) (xs : OrderedSet PropertyRef)
    (cs : List ClassRef) : (s.setEnds a xs cs).ownership.Housed := by
  rw [ownership_setEnds]
  -- ends are taken away from classes, and none are given to them
  refine h.properties (h.property.lose fun p c hp => ?_)
  split_ifs at hp
  · cases hp
  · exact hp

theorem Change.housed {may : Leave} (hc : s.Change may s') (hgive : ¬ may.giveOwner) (howned : s.Owned)
    (hrelease : s.ownerRelease) (h : s.ownership.Housed) : s'.ownership.Housed := by
  have hnone : ∀ {α : Type} {o : Option α}, (o.isSome → may.giveOwner) → o = none :=
    fun ho => Option.not_isSome_iff_eq_none.1 fun hsome => hgive (ho hsome)
  cases hc with
  | quiet hq => exact h.of_eq hq.ownership
  | attributes =>
    rw [ownership_setAttributes]
    exact h.properties (h.property.exchange ofClass_injective hrelease _ _)
  | methods =>
    rw [ownership_setMethods]
    exact h.methods (h.method.exchange (fun _ _ => TypeRef.ofClass.inj) hrelease _ _)
  | literals =>
    rw [ownership_setLiterals]
    exact h.literals (h.literal.exchange (fun _ _ => TypeRef.ofEnumeration.inj) hrelease _ _)
  | insertAttribute =>
    rw [ownership_insertAttribute]
    exact h.properties (h.property.insert ofClass_injective _ _)
  | insertMethod =>
    rw [ownership_insertMethod]
    exact h.methods (h.method.insert (fun _ _ => TypeRef.ofClass.inj) _ _)
  | insertLiteral =>
    rw [ownership_insertLiteral]
    exact h.literals (h.literal.insert (fun _ _ => TypeRef.ofEnumeration.inj) _ _)
  | propertyOwner _ _ _ ho =>
    rw [Table.modify, ownership_setProperty, hnone ho]
    exact h.properties (h.property.disown _)
  | methodOwner _ _ _ ho =>
    rw [Table.modify, ownership_setMethod, hnone ho]
    exact h.methods (h.method.disown _)
  | literalOwner _ _ _ ho =>
    rw [Table.modify, ownership_setLiteral, hnone ho]
    exact h.literals (h.literal.disown _)
  | ends => exact housed_setEnds h _ _ _
  | abstractClass | readOnlyClass | describedAssociation =>
    apply h.of_eq
    apply ownership_modifyClass <;> exact fun _ => rfl
  | propertyType | propertyMultiplicity | composite | navigable | identifying | readOnlyProperty =>
    apply h.of_eq
    apply ownership_modifyProperty
    exact fun _ => rfl
  | parameters | insertParameter | methodType | abstractMethod | code =>
    apply h.of_eq
    apply ownership_modifyMethod
    exact fun _ => rfl
  | general => exact h.of_eq (ownership_setGeneral _ _)
  | specific => exact h.of_eq (ownership_setSpecific _ _)
  | @newEnumeration r _ l timestamp hr =>
    have hspare : ∀ m, s.ownership.literalOwner m ≠ some (.ofEnumeration r) :=
      fun m hm => hr.spare.not_contains (howned.literal m _ hm).2
    have henroll : (Roster.enumerations.enroll s r default l timestamp).ownership.Housed := by
      rw [ownership_newEnumeration]
      exact h.literals (h.literal.enter hspare _)
    rw [ownership_setLiterals]
    exact henroll.literals (henroll.literal.exchange (fun _ _ => TypeRef.ofEnumeration.inj) hrelease _ _)
  | newLiteral _ _ _ _ _ _ ho =>
    rw [ownership_newLiteral, hnone ho]
    exact h.literals (h.literal.disown _)
  | @newClass r _ l timestamp isAbstract isReadOnly isAssociationClass hr =>
    have hproperties : ∀ p, s.ownership.propertyOwner p ≠ some (.type (.ofClass r)) :=
      fun p hp => hr.spare.not_contains (howned.property p _ hp).2
    have hmethods : ∀ m, s.ownership.methodOwner m ≠ some (.ofClass r) :=
      fun m hm => hr.spare.not_contains (howned.method m _ hm).2
    have henroll : (Roster.classes.enroll s r
        { (default : ClassRecord) with isAbstract, isReadOnly, isAssociationClass } l timestamp).ownership.Housed := by
      rw [ownership_newClass]
      exact (h.properties (h.property.enter hproperties _)).methods (h.method.enter hmethods _)
    rw [ownership_setAttributes]
    exact henroll.properties (henroll.property.exchange ofClass_injective hrelease _ _)
  | newProperty _ _ _ _ _ _ ho =>
    rw [ownership_newProperty, hnone ho]
    exact h.properties (h.property.disown _)
  | newMethod _ _ _ _ _ _ _ ho =>
    rw [ownership_newMethod, hnone ho]
    exact h.methods (h.method.disown _)
  | @newAssociation r _ _ isBinary l timestamp =>
    have henroll : (Roster.associations.enroll s r ⟨isBinary, ∅⟩ l timestamp).ownership.Housed := h
    exact housed_setEnds henroll _ _ _
  | @newGeneralization r general specific timestamp =>
    have hgeneral := ownership_register (s := s) general r
    exact h.of_eq ((ownership_register (s := { s with classes := _ }) specific r).trans hgeneral)
  | _ => exact h

theorem Change.ownerRelease {may : Leave} (hc : s.Change may s') (hconfigure : ¬ may.configure) :
    s'.ownerRelease = s.ownerRelease := by
  cases hc with
  | quiet hq =>
    cases hq with
    | noted channel message =>
      obtain ⟨log, hlog⟩ := s.exists_noted channel message
      rw [hlog]
    | _ => rfl
  | configure _ _ hmay => exact absurd hmay hconfigure
  | _ => rfl

end Store

namespace Session

/--
No command of a run names an owner, and whenever a command leaves a member with an owner, owner release was on when it
was given. A run is like that if owner release is switched on before any member has an owner and stays on.
-/
def Releases (s : Session) : List Command → Prop
  | [] => True
  | c :: cs =>
    ¬ c.givesOwner ∧ (s.store.ownerRelease ∨ (s.perform c).1.store.Unowned) ∧ (s.perform c).1.Releases cs

instance decidableReleases (s : Session) : (cs : List Command) → Decidable (s.Releases cs)
  | [] => isTrue trivial
  | c :: cs =>
    have : Decidable ((s.perform c).1.Releases cs) := decidableReleases _ cs
    inferInstanceAs (Decidable (_ ∧ _))

variable {s : Session}

theorem Sound.perform_owned (hs : s.Sound) (h : s.store.Owned) (c : Command) : (s.perform c).1.store.Owned := by
  have hlog : ∀ s : Store, s.Owned → Store.Owned { s with log := [] } := fun _ h => h.of_eq (fun _ => id) rfl
  have hchange : ∀ s s' : Store, s.Sound → s.Change .any s' → s.Owned → s'.Owned := fun _ _ hs hc h => hc.owned hs h
  exact hs.perform_induction h hlog hchange c fun _ => .of_facet fun _ _ => trivial

theorem housed_configure (h : s.store.ownership.Housed) (ownerRelease listening : Option Bool) :
    (s.perform (.configure ownerRelease listening)).1.store.ownership.Housed := h

theorem Sound.perform_housed (hs : s.Sound) (howned : s.store.Owned) (h : s.store.ownership.Housed) {c : Command}
    (hc : ¬ c.givesOwner) (hrelease : s.store.ownerRelease ∨ (s.perform c).1.store.Unowned) :
    (s.perform c).1.store.ownership.Housed := by
  -- where release was off, nobody owns anything afterwards
  rcases hrelease with hrelease | hunowned
  · by_cases hconfigures : c.configures
    · cases c with
      | configure ownerRelease listening => exact housed_configure h ownerRelease listening
      | _ => cases hconfigures
    · let may : Leave := { Leave.any with giveOwner := False, configure := False }
      have hpermits : may.Permits { s.store with log := [] } c :=
        ⟨fun _ _ => trivial, hc, hconfigures, fun _ => trivial⟩
      have hlog : ∀ s : Store, s.Owned ∧ s.ownership.Housed ∧ s.ownerRelease →
          Store.Owned { s with log := [] } ∧ s.ownership.Housed ∧ s.ownerRelease :=
        fun _ ⟨howned, h⟩ => ⟨howned.of_eq (fun _ => id) rfl, h⟩
      have hchange : ∀ s s' : Store, s.Sound → s.Change may s' →
          s.Owned ∧ s.ownership.Housed ∧ s.ownerRelease → s'.Owned ∧ s'.ownership.Housed ∧ s'.ownerRelease := by
        intro s s' hs hstep ⟨howned, h, hrelease⟩
        exact ⟨hstep.owned hs howned, hstep.housed id howned hrelease h, hstep.ownerRelease id ▸ hrelease⟩
      exact (hs.perform_induction ⟨howned, h, hrelease⟩ hlog hchange c fun _ => hpermits).2.1
  · exact hunowned.housed

theorem Sound.run_housed (hs : s.Sound) (howned : s.store.Owned) (h : s.store.ownership.Housed) {cs : List Command}
    (hcs : s.Releases cs) : (s.run cs).store.ownership.Housed := by
  induction cs generalizing s with
  | nil => exact h
  | cons c cs ih =>
    obtain ⟨hc, hrelease, hrest⟩ := hcs
    exact ih (hs.perform c) (hs.perform_owned howned c) (hs.perform_housed howned h hc hrelease) hrest

end Session

/--
No owner is left dangling by a run with owner release: what a class or an enumeration owns is among its members, also if
its construction has failed, and however members have been shared, moved, dropped and taken up again.
-/
theorem owned_members (ids : Nat → Uuid) (cs : List Command) (hcs : (Session.initial ids).Releases cs) :
    let s := ((Session.initial ids).run cs).store
    (∀ (p : PropertyRef) (c : ClassRef), (s.properties.get p).owner = some (.type (.ofClass c)) →
      p ∈ (s.classes.get c).attributes) ∧
    (∀ (m : MethodRef) (c : ClassRef), (s.methods.get m).owner = some (.ofClass c) → m ∈ (s.classes.get c).methods) ∧
    ∀ (l : LiteralRef) (e : EnumerationRef), (s.literals.get l).owner = some (.ofEnumeration e) →
      l ∈ (s.enumerations.get e).literals := by
  have hhoused := (Session.sound_initial ids).run_housed (Store.owned_initial ids) ⟨nofun, nofun, nofun⟩ hcs
  exact ⟨hhoused.property, hhoused.method, hhoused.literal⟩

theorem owned_members_of_refused_class :
    let cs : List Command :=
      [.configure (some true) none, .create "p" (.property (.text "x") (.named (.text "int")) {}),
        .create "q" (.property (.text "y") (.named (.text "int")) {}),
        .create "m" (.method (.text "m") {}), .create "n" (.method (.text "m") {}),
        .create "c" (.classType (.text "C") { attributes := [⟨9⟩, ⟨10⟩], methods := [⟨11⟩] }),
        .create "d" (.classType (.text "D") { attributes := [⟨10⟩] }),
        .assign (.attributes ⟨15⟩ [⟨9⟩]), .call (.addAttribute ⟨16⟩ ⟨9⟩), .assign (.attributes ⟨15⟩ []),
        .create "e" (.classType (.text "E") { attributes := [⟨9⟩], methods := [⟨11⟩, ⟨13⟩] }),
        .assign (.attributes ⟨16⟩ [])]
    let s := ((Session.initial fun _ => ⟨0⟩).run cs).store
    (Session.initial fun _ => ⟨0⟩).Releases cs ∧
      (s.properties.get ⟨9⟩).owner = some (.type (.ofClass ⟨17⟩)) ∧ ⟨9⟩ ∈ (s.classes.get ⟨17⟩).attributes ∧
      (s.properties.get ⟨10⟩).owner = none ∧
      (s.methods.get ⟨11⟩).owner = some (.ofClass ⟨15⟩) ∧ ⟨11⟩ ∈ (s.classes.get ⟨15⟩).methods := by
  intro cs s
  have hreleases : (Session.initial fun _ => ⟨0⟩).Releases cs := by decide
  have hproperty : (s.properties.get ⟨9⟩).owner = some (.type (.ofClass ⟨17⟩)) := rfl
  have hmethod : (s.methods.get ⟨11⟩).owner = some (.ofClass ⟨15⟩) := rfl
  obtain ⟨hproperties, hmethods, _⟩ := owned_members (fun _ => ⟨0⟩) cs hreleases
  exact ⟨hreleases, hproperty, hproperties ⟨9⟩ ⟨17⟩ hproperty, rfl, hmethod, hmethods ⟨11⟩ ⟨15⟩ hmethod⟩

end ClassDiagram
