import Mathlib.Data.List.Infix

/-!
# JSON documents as Python values

A document read by `json.load` is a nested value of dictionaries, lists, texts, numbers, booleans and `None`, and a program that expects one shape meets every other one through a handful of operations: a subscript by a text, the `in` test, iteration and truth. They are defined here as Python has them, with the exception each raises on a value of the wrong type. A dictionary is the list of its items; a float is kept as its text.
-/

namespace Foundation

inductive Json
  | null
  | bool (b : Bool)
  | int (n : Int)
  | float (text : String)
  | str (text : String)
  | arr (elems : List Json)
  | obj (items : List (String × Json))

/-- What reading a value of the wrong shape raises. -/
inductive AccessError
  | keyError (key : String)
  | typeError
  deriving DecidableEq

namespace Json

/-- `value[key]`. -/
def get (value : Json) (key : String) : Except AccessError Json :=
  match value with
  | obj items =>
      match items.lookup key with
      | some v => .ok v
      | none => .error (.keyError key)
  | _ => .error .typeError

/-- `value == text`. -/
def isText (value : Json) (text : String) : Bool :=
  match value with
  | str t => t == text
  | _ => false

/-- `value in texts`, for a tuple of texts. -/
def isOneOf (value : Json) (texts : List String) : Bool :=
  match value with
  | str t => texts.contains t
  | _ => false

/-- `key in value`: a key of a dictionary, an element of a list, a piece of a text. -/
def contains (value : Json) (key : String) : Except AccessError Bool :=
  match value with
  | obj items => .ok (items.lookup key).isSome
  | arr elems => .ok (elems.any (·.isText key))
  | str text => .ok (decide (key.toList <:+: text.toList))
  | _ => .error .typeError

/-- What `for element in value` goes through: the keys of a dictionary, the characters of a text. -/
def elements (value : Json) : Except AccessError (List Json) :=
  match value with
  | arr elems => .ok elems
  | obj items => .ok (items.map fun item => str item.1)
  | str text => .ok (text.toList.map fun c => str (String.singleton c))
  | _ => .error .typeError

/-- `bool(value)`. -/
def truthy : Json → Bool
  | null => false
  | bool b => b
  | int n => n != 0
  | float text => text != "0.0" && text != "-0.0"
  | str text => text != ""
  | arr elems => !elems.isEmpty
  | obj items => !items.isEmpty

/-- `value.get(key, default)` of a dictionary. -/
def getD (items : List (String × Json)) (key : String) (default : Json) : Json := (items.lookup key).getD default

/-- `value[key] = v` of a dictionary. -/
def set (items : List (String × Json)) (key : String) (v : Json) : List (String × Json) :=
  if (items.lookup key).isSome then items.map fun item => if item.1 = key then (key, v) else item else items ++ [(key, v)]

theorem get_obj (items : List (String × Json)) (key : String) :
    (obj items).get key = match items.lookup key with
      | some v => .ok v
      | none => .error (.keyError key) := rfl

end Json

end Foundation
