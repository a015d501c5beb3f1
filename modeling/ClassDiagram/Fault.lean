import ClassDiagram.Report

/-! The reasons for which an edit or a query is rejected, and what is reported of each. -/

namespace ClassDiagram

inductive Fault where
  | nameNotText
  | unknownVisibility (supplied : Value) (allowed : List String)
  | unknownPrimitive (supplied : Value)
  | invalidLower (supplied : Value)
  | invalidUpper (supplied : Value)
  | duplicateNames (holder collection : String) (names : List String)
  | nameTaken (holder member name : String)
  | multipleIdentifiers (className : String)
  | propertyOwner (property owner : String)
  | methodOwner (method owner : String)
  | literalOwner (literal owner : String)
  | endNotClass (endName typeName : String)
  | tooFewEnds (association : String)
  | notTwoEnds (association : String)
  | compositeOnBothEnds (association : String)
  | selfGeneralization (className : String)
  | cyclicGeneralization (names : List String)
  | malformedId (supplied : Value)
  deriving Inhabited

namespace Fault

def kind : Fault → ReportKind
  | nameNotText | unknownVisibility .. | invalidLower _ | invalidUpper _ | endNotClass .. => .invalidValue
  | unknownPrimitive _ => .invalidPrimitiveType
  | duplicateNames .. | nameTaken .. => .duplicateName
  | multipleIdentifiers _ => .multipleIdentifiers
  | propertyOwner .. | methodOwner .. | literalOwner .. => .invalidOwner
  | tooFewEnds _ | notTwoEnds _ | compositeOnBothEnds _ => .arityViolation
  | selfGeneralization _ => .selfGeneralization
  | cyclicGeneralization _ => .cyclicGeneralization
  | malformedId _ => .invalidId

def nameList (names : List String) : Value := .list (names.map .text)

/-- What the report of a fault is about. -/
def subjects : Fault → List Value
  | nameNotText => [.text "Element name must be a string", .text "name"]
  | unknownVisibility v allowed =>
    [.text ("Invalid value of visibility: '" ++ v.toText ++ "'. Must be one of: " ++
      ", ".intercalate allowed), .text "visibility"]
  | unknownPrimitive v => [v]
  | invalidLower v => [.text ("Invalid min multiplicity: " ++ v.toText), .text "min"]
  | invalidUpper v => [.text ("Invalid max multiplicity: " ++ v.toText), .text "max"]
  | duplicateNames holder collection names =>
    [.text (holder ++ " cannot have " ++ collection ++ " with duplicate names: " ++
      ", ".intercalate names), nameList names, .text collection]
  | nameTaken holder member name =>
    [.text (holder ++ " cannot have two " ++ member ++ "s with the same name: '" ++ name ++ "'"),
      nameList [name], .text (member ++ "s")]
  | multipleIdentifiers className => [.text className]
  | propertyOwner property owner =>
    [.text ("Property '" ++ property ++ "' cannot be owned by data type '" ++ owner ++ "'")]
  | methodOwner method owner =>
    [.text ("Method '" ++ method ++ "' cannot be owned by data type '" ++ owner ++ "'")]
  | literalOwner literal owner =>
    [.text ("Enumeration literal '" ++ literal ++ "' cannot be owned by primitive type '" ++ owner ++ "'")]
  | endNotClass endName typeName =>
    [.text ("Association end '" ++ endName ++ "' must be typed by a class, got '" ++ typeName ++ "'"),
      .text "ends"]
  | tooFewEnds association =>
    [.text ("An association must have more than one end (association '" ++ association ++ "')")]
  | notTwoEnds association =>
    [.text ("A binary association must have exactly two ends (association '" ++ association ++ "')")]
  | compositeOnBothEnds association =>
    [.text ("The composition attribute cannot be tagged at both ends (association '" ++ association ++ "')")]
  | selfGeneralization className => [.text className]
  | cyclicGeneralization names => [nameList names]
  | malformedId v => [.text ("Invalid element id: '" ++ v.toText ++ "'")]

/-- Clashes of names, and they alone, are noted as they are raised. -/
def isNameClash : Fault → Bool
  | duplicateNames .. | nameTaken .. => true
  | _ => false

def report (f : Fault) : Report := .about f.kind f.subjects

def message (f : Fault) : String := f.report.message

end Fault

end ClassDiagram
