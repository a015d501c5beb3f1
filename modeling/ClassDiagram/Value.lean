import ClassDiagram.Number.Decimal

/-! Values as callers supply them, before anything has been checked. -/

namespace ClassDiagram

/-- `missing` stands where nothing was supplied, `null` where nothing was supplied on purpose. -/
inductive Value where
  | missing
  | null
  | bool (b : Bool)
  | number (x : Number)
  | text (s : String)
  | list (items : List Value)
  | record (fields : List (String × Value))
  deriving Inhabited

namespace Value

def truthy : Value → Bool
  | missing | null => false
  | bool b => b
  | number x => x.truthy
  | text s => s != ""
  | list _ | record _ => true

def absent : Value → Bool
  | missing | null => true
  | _ => false

/-- The value itself unless it is absent. -/
def getD (v fallback : Value) : Value := if v.absent then fallback else v

/-- The value itself unless nothing was supplied; `null` was supplied. -/
def orElse (v fallback : Value) : Value :=
  match v with
  | missing => fallback
  | v => v

mutual

/-- How a value is written inside a message. -/
def toText : Value → String
  | missing => "undefined"
  | null => "null"
  | bool b => if b then "true" else "false"
  | number x => x.text
  | text s => s
  | list items => joinText "," items
  | record _ => "[object Object]"

/-- The items with a separator between them; an absent item leaves its place empty. -/
def joinText (separator : String) : List Value → String
  | [] => ""
  | [v] => if v.absent then "" else v.toText
  | v :: w :: rest =>
    (if v.absent then "" else v.toText) ++ separator ++ joinText separator (w :: rest)

end

def text? : Value → Option String
  | text s => some s
  | _ => none

def isText (v : Value) (s : String) : Bool := v.text? == some s

/-- The items of a list; any other value has none. -/
def items : Value → List Value
  | list items => items
  | _ => []

@[simp] theorem toText_text (s : String) : (text s).toText = s := by simp [toText]

end Value

end ClassDiagram
