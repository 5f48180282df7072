import SchemaCompiler.OrderedMap
import SchemaCompiler.Schema.Basic

/-!
The two halves of a `dependencies` object: triggers that ask for properties and triggers that ask
for a schema. Both halves keep the order of the document.
-/

namespace SchemaCompiler

abbrev Dependencies := OrderedMap String (Constraint Schema)

namespace Dependencies

def reservedTrigger : String := "__proto__"

def propertyHalf (dependencies : Dependencies) : OrderedMap String (List String) :=
  dependencies.filterMap fun
    | (trigger, .names list) => if trigger = reservedTrigger then none else some (trigger, list)
    | (_, .schema _) => none

def schemaHalf (dependencies : Dependencies) : OrderedMap String Schema :=
  dependencies.filterMap fun
    | (_, .names _) => none
    | (trigger, .schema schema) =>
      if trigger = reservedTrigger then none else some (trigger, schema)

def route (halves : OrderedMap String (List String) × OrderedMap String Schema)
    (entry : String × Constraint Schema) :
    OrderedMap String (List String) × OrderedMap String Schema :=
  if entry.1 = reservedTrigger then halves
  else match entry.2 with
    | .names list => (OrderedMap.insert halves.1 entry.1 list, halves.2)
    | .schema schema => (halves.1, OrderedMap.insert halves.2 entry.1 schema)

def split (dependencies : Dependencies) :
    OrderedMap String (List String) × OrderedMap String Schema :=
  dependencies.foldl route ([], [])

end Dependencies

end SchemaCompiler
