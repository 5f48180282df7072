import SchemaCompiler.OrderedMap
import SchemaCompiler.Json.Number

/-!
JSON values. The members of an object keep the order of the document.
-/

namespace SchemaCompiler

inductive Json where
  | null
  | bool (value : Bool)
  | num (value : Json.Number)
  | str (value : String)
  | arr (items : List Json)
  | obj (members : List (String × Json))
  deriving Inhabited, Repr

namespace Json

inductive Kind where
  | null
  | boolean
  | number
  | string
  | array
  | object
  deriving DecidableEq, Repr

namespace Kind

def all : List Kind := [null, boolean, number, string, array, object]

def name : Kind → String
  | null => "null"
  | boolean => "boolean"
  | number => "number"
  | string => "string"
  | array => "array"
  | object => "object"

def ofName? (text : String) : Option Kind := all.find? fun kind => kind.name == text

theorem ofName?_name (kind : Kind) : ofName? kind.name = some kind := by
  cases kind <;> rfl

end Kind

def kind : Json → Kind
  | null => .null
  | bool _ => .boolean
  | num _ => .number
  | str _ => .string
  | arr _ => .array
  | obj _ => .object

abbrev Members := OrderedMap String Json

def ofNat (count : Nat) : Json := num (.int count)

def asBool? : Json → Option Bool
  | bool value => some value
  | _ => none

def asString? : Json → Option String
  | str value => some value
  | _ => none

def asNat? : Json → Option Nat
  | num value => value.asNat?
  | _ => none

def items? : Json → Option (List Json)
  | arr items => some items
  | _ => none

def members? : Json → Option Members
  | obj members => some members
  | _ => none

def get? (value : Json) (key : String) : Option Json :=
  value.members?.bind fun members => OrderedMap.get? members key

/-- Conditions hold of every value but `null`, `false`, zero and the empty string. -/
def truthy : Json → Bool
  | null => false
  | bool value => value
  | num value => !value.isZero
  | str value => value != ""
  | arr _ => true
  | obj _ => true

@[simp] theorem asNat?_ofNat (count : Nat) : (ofNat count).asNat? = some count := rfl

end Json

end SchemaCompiler
