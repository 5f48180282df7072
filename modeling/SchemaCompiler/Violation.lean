import SchemaCompiler.Json.Value
import SchemaCompiler.Pointer

/-!
Violations: failed checks of one validation, in the order in which they were found. A failed
validation has at least one. What is done with its violations needs the operations of such a
collection only; here the collection is a head and a tail.
-/

namespace SchemaCompiler

structure Violation where
  instancePath : Pointer
  schemaPath : Pointer
  keyword : String
  params : Json.Members
  message : String
  deriving Repr

namespace Violation

def setParam (violation : Violation) (name : String) (value : Json) : Violation :=
  { violation with params := OrderedMap.insert violation.params name value }

def paramText? (violation : Violation) (name : String) : Option String :=
  (OrderedMap.get? violation.params name).bind Json.asString?

def text (violation : Violation) : String :=
  let place := if violation.instancePath.isRoot then "(root)" else violation.instancePath.text
  place ++ ": " ++ violation.message ++ " (at " ++ violation.schemaPath.fragment ++ ")"

end Violation

structure Violation.Collection (ν : Type) where
  single : Violation → ν
  /-- The violations of both, those of the first one first. -/
  combine : ν → ν → ν
  head : ν → Violation
  size : ν → Nat
  /-- What a walk over the collection meets. -/
  items : ν → List Violation
  toList : ν → List Violation

namespace Violation.Collection

variable {ν : Type} (collection : Violation.Collection ν)

def ofList? : List Violation → Option ν
  | [] => none
  | head :: tail =>
    some (tail.foldl (fun violations next => collection.combine violations (collection.single next))
      (collection.single head))

def atPath (violations : ν) (path : Pointer) : List Violation :=
  (collection.items violations).filter fun violation => violation.instancePath == path

def withKeyword (violations : ν) (keyword : String) : List Violation :=
  (collection.items violations).filter fun violation => violation.keyword == keyword

end Violation.Collection

structure Violations where
  head : Violation
  tail : List Violation
  deriving Repr

namespace Violations

def single (violation : Violation) : Violations := ⟨violation, []⟩

def toList (violations : Violations) : List Violation := violations.head :: violations.tail

def size (violations : Violations) : Nat := violations.toList.length

instance : Append Violations where
  append left right := ⟨left.head, left.tail ++ right.toList⟩

def collection : Violation.Collection Violations where
  single := single
  combine left right := left ++ right
  head := head
  size := size
  items := toList
  toList := toList

def ofList? (list : List Violation) : Option Violations := collection.ofList? list

def atPath (violations : Violations) (path : Pointer) : List Violation :=
  collection.atPath violations path

def withKeyword (violations : Violations) (keyword : String) : List Violation :=
  collection.withKeyword violations keyword

def numberedLines : Nat → List Violation → String
  | _, [] => ""
  | number, violation :: rest =>
    "  " ++ toString number ++ ". " ++ violation.text ++ "\n" ++ numberedLines (number + 1) rest

def text (violations : Violations) : String :=
  "Validation failed with " ++ toString violations.size ++ " error(s):\n" ++
    numberedLines 1 violations.toList

@[simp] theorem toList_single (violation : Violation) :
    (single violation).toList = [violation] := rfl

@[simp] theorem toList_append (left right : Violations) :
    (left ++ right).toList = left.toList ++ right.toList := rfl

theorem toList_injective {left right : Violations} (same : left.toList = right.toList) :
    left = right := by
  cases left
  cases right
  simpa [toList] using same

end Violations

end SchemaCompiler
