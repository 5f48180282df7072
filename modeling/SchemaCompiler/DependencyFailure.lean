import SchemaCompiler.Json.Value

/-!
The failure of a property dependency, and its form as parameters of a violation.
-/

namespace SchemaCompiler

/-- An object has the trigger `property` and lacks some of the properties it asks for. -/
structure DependencyFailure where
  property : String
  missing? : Option String
  /-- How many properties the trigger asks for. -/
  count : Nat
  /-- The properties the trigger asks for, separated by commas. -/
  names : String
  deriving DecidableEq, Repr

namespace DependencyFailure

def joinNames (names : List String) : String := String.intercalate ", " names

def ofNames (property : String) (names : List String) : DependencyFailure :=
  ⟨property, none, names.length, joinNames names⟩

def withMissing (failure : DependencyFailure) (name : String) : DependencyFailure :=
  { failure with missing? := some name }

def textAt? (params : Json.Members) (name : String) : Option String :=
  (OrderedMap.get? params name).bind Json.asString?

/-- Reads the parameters of a violation; what is absent or of another kind counts as empty. -/
def ofParams (params : Json.Members) : DependencyFailure where
  property := (textAt? params "property").getD ""
  missing? := textAt? params "missingProperty"
  count := ((OrderedMap.get? params "depsCount").bind Json.asNat?).getD 0
  names := (textAt? params "deps").getD ""

def params (failure : DependencyFailure) : Json.Members :=
  [("property", .str failure.property),
   ("missingProperty", match failure.missing? with | none => .null | some name => .str name),
   ("depsCount", .ofNat failure.count),
   ("deps", .str failure.names)]

def message (failure : DependencyFailure) : String :=
  "should have " ++ (if failure.count = 1 then "property" else "properties") ++ " " ++
    failure.names ++ " when property " ++ failure.property ++ " is present"

@[simp] theorem ofParams_params (failure : DependencyFailure) :
    ofParams failure.params = failure := by
  obtain ⟨property, missing?, count, names⟩ := failure
  cases missing? <;> rfl

end DependencyFailure

end SchemaCompiler
