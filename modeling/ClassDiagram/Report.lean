import ClassDiagram.Value

/-! What a caller is told about a rejected edit. -/

namespace ClassDiagram

inductive ReportKind where
  | metamodel
  | invalidValue
  | invalidPrimitiveType
  | duplicateName
  | multipleIdentifiers
  | invalidOwner
  | selfGeneralization
  | arityViolation
  | cyclicGeneralization
  | invalidId
  deriving DecidableEq, Repr, Inhabited

namespace ReportKind

def all : List ReportKind :=
  [metamodel, invalidValue, invalidPrimitiveType, duplicateName, multipleIdentifiers, invalidOwner,
    selfGeneralization, arityViolation, cyclicGeneralization, invalidId]

def name : ReportKind → String
  | metamodel => "MetamodelError"
  | invalidValue => "InvalidValueError"
  | invalidPrimitiveType => "InvalidPrimitiveTypeError"
  | duplicateName => "DuplicateNameError"
  | multipleIdentifiers => "MultipleIdentifiersError"
  | invalidOwner => "InvalidOwnerError"
  | selfGeneralization => "SelfGeneralizationError"
  | arityViolation => "ArityViolationError"
  | cyclicGeneralization => "CyclicGeneralizationError"
  | invalidId => "InvalidUUIDError"

/-- Every report is a metamodel report, and one on a primitive type is one on a value. -/
def isA (kind general : ReportKind) : Bool :=
  kind == general || general == metamodel || (kind == invalidPrimitiveType && general == invalidValue)

end ReportKind

structure Report where
  kind : ReportKind
  message : String
  code : Value
  details : List (String × Value)
  deriving Inhabited

namespace Report

/-- A message that was not supplied is empty. -/
def messageText (v : Value) : String := (v.orElse (.text "")).toText

/-- The report of a kind about the given subjects, in the order in which the kind takes them. -/
def about (kind : ReportKind) (subjects : List Value) : Report :=
  let first := subjects.getD 0 .missing
  let second := subjects.getD 1 .missing
  let third := subjects.getD 2 .missing
  match kind with
  | .metamodel => ⟨kind, messageText first, second.orElse .null, []⟩
  | .invalidValue =>
    ⟨kind, messageText first, third.orElse (.text "INVALID_VALUE"), [("field", second.orElse .null)]⟩
  | .invalidPrimitiveType =>
    ⟨kind, "Invalid primitive data type: '" ++ first.toText ++ "'", .text "INVALID_PRIMITIVE_TYPE",
      [("field", .text "name"), ("typeName", first)]⟩
  | .duplicateName =>
    ⟨kind, messageText first, .text "DUPLICATE_NAME", [("names", second), ("collection", third)]⟩
  | .multipleIdentifiers =>
    ⟨kind, "A class cannot have more than one attribute marked as 'id' (class '" ++ first.toText ++ "')",
      .text "MULTIPLE_IDENTIFIERS", [("className", first)]⟩
  | .invalidOwner =>
    ⟨kind, (first.orElse (.text "Invalid owner")).toText, .text "INVALID_OWNER", []⟩
  | .selfGeneralization =>
    ⟨kind, "A class cannot be a generalization of itself: '" ++ first.toText ++ "'",
      .text "SELF_GENERALIZATION", []⟩
  | .arityViolation => ⟨kind, messageText first, .text "ARITY_VIOLATION", []⟩
  | .cyclicGeneralization =>
    ⟨kind, "Generalization cycle detected: " ++ Value.joinText " -> " first.items,
      .text "CYCLIC_GENERALIZATION", [("cycle", first)]⟩
  | .invalidId => ⟨kind, (first.orElse (.text "Invalid UUID format")).toText, .text "INVALID_UUID", []⟩

end Report

end ClassDiagram
