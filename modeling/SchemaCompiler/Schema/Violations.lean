import SchemaCompiler.Instance
import SchemaCompiler.Schema.Dependencies
import SchemaCompiler.Violation

/-!
The violations of a value, read off the schema itself: every failed check of the schema and of the
subschemas that apply, in the order of the keywords and, within a keyword, of the document.
-/

namespace SchemaCompiler.Schema

/-- Which properties count as present on an object: its own, and those of the prototype unless only
own ones do. -/
structure Presence where
  own : Bool
  prototype : Json.Members

namespace Presence

def has (presence : Presence) : Json → String → Bool
  | .obj members, property =>
    property ∈ OrderedMap.keys members ||
      !presence.own && property ∈ OrderedMap.keys presence.prototype
  | _, _ => false

def valueAt (presence : Presence) : Json → String → Json
  | .obj members, property =>
    let known := members ++ presence.prototype
    (known.find? fun member => member.1 == property).elim .null Prod.snd
  | _, _ => .null

end Presence

/-- A value of the instance with its place, and the place of the schema that looks at it. -/
structure Place where
  value : Json
  instancePath : Pointer
  schemaPath : Pointer

def falseViolation (place : Place) : Violation where
  instancePath := place.instancePath
  schemaPath := place.schemaPath
  keyword := "false schema"
  params := []
  message := "boolean schema is false"

def requiredViolation (place : Place) (name : String) : Violation where
  instancePath := place.instancePath
  schemaPath := place.schemaPath.key "required"
  keyword := "required"
  params := [("missingProperty", .str name)]
  message := "should have required property '" ++ name ++ "'"

def dependencyViolation (place : Place) (trigger : String) (names : List String) (name : String) :
    Violation where
  instancePath := place.instancePath
  schemaPath := place.schemaPath.key "dependencies"
  keyword := "dependencies"
  params :=
    [("property", .str trigger),
     ("missingProperty", .str name),
     ("depsCount", .ofNat names.length),
     ("deps", .str (String.intercalate ", " names))]
  message :=
    "should have " ++ (if names.length = 1 then "property" else "properties") ++ " " ++
      String.intercalate ", " names ++ " when property " ++ trigger ++ " is present"

def missing (presence : Presence) (value : Json) (names : List String) : List String :=
  names.filter fun name => !presence.has value name

theorem missing_cons_of_has {presence : Presence} {value : Json} {name : String}
    (has : presence.has value name = true) (rest : List String) :
    missing presence value (name :: rest) = missing presence value rest :=
  List.filter_cons_of_neg (by rw [has]; decide)

theorem missing_cons_of_lacks {presence : Presence} {value : Json} {name : String}
    (lacks : presence.has value name = false) (rest : List String) :
    missing presence value (name :: rest) = name :: missing presence value rest :=
  List.filter_cons_of_pos (by rw [lacks]; decide)

def requiredViolations (presence : Presence) (place : Place) :
    Option (List String) → List Violation
  | none => []
  | some names => (missing presence place.value names).map (requiredViolation place)

def propertyDependencyViolations (presence : Presence) (place : Place) :
    List (String × Constraint Schema) → List Violation
  | [] => []
  | (_, .schema _) :: rest => propertyDependencyViolations presence place rest
  | (trigger, .names names) :: rest =>
    (if trigger ≠ "__proto__" ∧ presence.has place.value trigger = true then
      (missing presence place.value names).map (dependencyViolation place trigger names)
    else []) ++ propertyDependencyViolations presence place rest

mutual

def violations (presence : Presence) (place : Place) : Schema → List Violation
  | .bool true => []
  | .bool false => [falseViolation place]
  | .object ⟨required?, properties?, dependencies?, _⟩ =>
    match place.value with
    | .obj _ =>
      requiredViolations presence place required? ++
        dependenciesViolations presence place dependencies? ++
        propertiesViolations presence place properties?
    | _ => []

/-- What the keyword `dependencies` finds: first the triggers that ask for properties, then those
that ask for a schema. -/
def dependenciesViolations (presence : Presence) (place : Place) :
    Option (List (String × Constraint Schema)) → List Violation
  | none => []
  | some entries =>
    propertyDependencyViolations presence place entries ++
      schemaDependencyViolations presence place entries

def propertiesViolations (presence : Presence) (place : Place) :
    Option (List (String × Schema)) → List Violation
  | none => []
  | some entries => propertyViolations presence place entries

def schemaDependencyViolations (presence : Presence) (place : Place) :
    List (String × Constraint Schema) → List Violation
  | [] => []
  | (_, .names _) :: rest => schemaDependencyViolations presence place rest
  | (trigger, .schema schema) :: rest =>
    (if trigger ≠ "__proto__" ∧ presence.has place.value trigger = true then
      violations presence { place with
        schemaPath := (place.schemaPath.key "dependencies").key trigger } schema
    else []) ++ schemaDependencyViolations presence place rest

def propertyViolations (presence : Presence) (place : Place) :
    List (String × Schema) → List Violation
  | [] => []
  | (property, schema) :: rest =>
    (if presence.has place.value property = true then
      violations presence {
        value := presence.valueAt place.value property
        instancePath := place.instancePath.key property
        schemaPath := (place.schemaPath.key "properties").key property } schema
    else []) ++ propertyViolations presence place rest

end

theorem violations_object (presence : Presence) (place : Place) (object : SchemaObject Schema) :
    violations presence place (.object object) =
      if place.value.kind = .object then
        requiredViolations presence place object.required? ++
          dependenciesViolations presence place object.dependencies? ++
          propertiesViolations presence place object.properties?
      else [] := by
  rw [violations]
  cases place.value <;> rfl

/-- A keyword that is not there finds as much as one with nothing in it. -/
theorem requiredViolations_getD (presence : Presence) (place : Place)
    (required? : Option (List String)) :
    requiredViolations presence place required? =
      (missing presence place.value (required?.getD [])).map (requiredViolation place) := by
  cases required? <;> rfl

theorem dependenciesViolations_getD (presence : Presence) (place : Place)
    (dependencies? : Option (List (String × Constraint Schema))) :
    dependenciesViolations presence place dependencies? =
      propertyDependencyViolations presence place (dependencies?.getD []) ++
        schemaDependencyViolations presence place (dependencies?.getD []) := by
  cases dependencies? <;> rfl

theorem propertiesViolations_getD (presence : Presence) (place : Place)
    (properties? : Option (List (String × Schema))) :
    propertiesViolations presence place properties? =
      propertyViolations presence place (properties?.getD []) := by
  cases properties? <;> rfl

section Append

variable (presence : Presence) (place : Place)

theorem propertyDependencyViolations_append (left right : List (String × Constraint Schema)) :
    propertyDependencyViolations presence place (left ++ right) =
      propertyDependencyViolations presence place left ++
        propertyDependencyViolations presence place right := by
  induction left with
  | nil => rfl
  | cons entry rest ih =>
    obtain ⟨trigger, names | schema⟩ := entry
    · simp only [List.cons_append, propertyDependencyViolations, ih, List.append_assoc]
    · exact ih

theorem schemaDependencyViolations_append (left right : List (String × Constraint Schema)) :
    schemaDependencyViolations presence place (left ++ right) =
      schemaDependencyViolations presence place left ++
        schemaDependencyViolations presence place right := by
  induction left with
  | nil => rfl
  | cons entry rest ih =>
    obtain ⟨trigger, names | schema⟩ := entry
    · exact ih
    · simp only [List.cons_append, schemaDependencyViolations, ih, List.append_assoc]

theorem propertyViolations_append (left right : List (String × Schema)) :
    propertyViolations presence place (left ++ right) =
      propertyViolations presence place left ++ propertyViolations presence place right := by
  induction left with
  | nil => rfl
  | cons entry rest ih =>
    simp only [List.cons_append, propertyViolations, ih, List.append_assoc]

end Append

def violationsOf (own : Bool) (schema : Schema) (subject : Instance) : List Violation :=
  schema.violations ⟨own, subject.prototype⟩ ⟨subject.value, .root, .root⟩

end SchemaCompiler.Schema
