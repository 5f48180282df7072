import SchemaCompiler.Json.Value

/-!
Instances: values to be validated, with the properties that every object in them inherits.
-/

namespace SchemaCompiler

/-- A value and the members of its prototype; without a prototype there are none. -/
structure Instance where
  value : Json
  prototype : Json.Members := []

end SchemaCompiler
