import SchemaCompiler.Proofs.Schema.Grammar
import SchemaCompiler.Schema.Violations

/-!
The violations of a schema can be checked against the document it was read from: the schema path of
each leads to the part of the document that the value at its instance path fails, and its parameters
say how.
-/

namespace SchemaCompiler.Schema

def Presence.follow (presence : Presence) (value : Json) : List String → Option Json
  | [] => some value
  | property :: rest =>
    if presence.has value property then presence.follow (presence.valueAt value property) rest
    else none

theorem Presence.follow_append (presence : Presence) (value : Json) (left right : List String) :
    presence.follow value (left ++ right) =
      (presence.follow value left).bind fun inner => presence.follow inner right := by
  induction left generalizing value with
  | nil => rfl
  | cons property rest ih =>
    cases present : presence.has value property with
    | true => simp only [List.cons_append, follow, present, if_true, ih]
    | false => simp [follow, present]

/-- The paths of a place consist of keys, which lead to its value in the instance and to `target`
in the schema document. -/
structure Reached (presence : Presence) (document root : Json) (place : Place) (target : Json) :
    Prop where
  inDocument : ∃ keys, place.schemaPath = .ofKeys keys ∧ document.follow keys = some target
  inInstance : ∃ properties, place.instancePath = .ofKeys properties ∧
    presence.follow root properties = some place.value

/-- What a violation says is true of the value and of the part of the document that it points at. -/
inductive Cause (presence : Presence) (target value : Json) (violation : Violation) : Prop where
  | falseSchema (keyword : violation.keyword = "false schema") (params : violation.params = [])
      (refuses : target = .bool false)
  | required (names : List String) (name : String) (keyword : violation.keyword = "required")
      (last : violation.schemaPath.last? = some (.key "required"))
      (params : violation.params = [("missingProperty", .str name)])
      (asks : target = .arr (names.map .str)) (listed : name ∈ names)
      (isObject : value.kind = .object) (absent : presence.has value name = false)
  | dependencies (trigger : String) (names : List String) (name : String)
      (keyword : violation.keyword = "dependencies")
      (last : violation.schemaPath.last? = some (.key "dependencies"))
      (params : violation.params =
        [("property", .str trigger), ("missingProperty", .str name),
          ("depsCount", .ofNat names.length), ("deps", .str (String.intercalate ", " names))])
      (unreserved : trigger ≠ "__proto__") (asks : target.get? trigger = some (.arr (names.map .str)))
      (listed : name ∈ names) (isObject : value.kind = .object)
      (triggered : presence.has value trigger = true) (absent : presence.has value name = false)

def Justified (presence : Presence) (document root : Json) (violation : Violation) : Prop :=
  ∃ target value,
    Reached presence document root ⟨value, violation.instancePath, violation.schemaPath⟩ target ∧
      Cause presence target value violation

theorem ofKeys_key (keys : List String) (key : String) :
    (Pointer.ofKeys keys).key key = .ofKeys (keys ++ [key]) := by
  rw [Pointer.ofKeys, Pointer.ofKeys, List.map_append]
  rfl

namespace Reached

variable {presence : Presence} {document root target inner : Json} {place : Place}

theorem atRoot (presence : Presence) (document root : Json) :
    Reached presence document root ⟨root, .root, .root⟩ document :=
  ⟨⟨[], rfl, rfl⟩, ⟨[], rfl, rfl⟩⟩

theorem key (reached : Reached presence document root place target) {key : String}
    (found : target.get? key = some inner) :
    Reached presence document root { place with schemaPath := place.schemaPath.key key } inner := by
  obtain ⟨⟨keys, path, led⟩, inInstance⟩ := reached
  refine ⟨⟨keys ++ [key], ?_, ?_⟩, inInstance⟩
  · rw [path]
    exact ofKeys_key keys key
  · rw [Json.follow_key led, found]

theorem property (reached : Reached presence document root place target) {property : String}
    (present : presence.has place.value property = true) :
    Reached presence document root
      ⟨presence.valueAt place.value property, place.instancePath.key property, place.schemaPath⟩
      target := by
  obtain ⟨inDocument, properties, path, led⟩ := reached
  refine ⟨inDocument, properties ++ [property], ?_, ?_⟩
  · rw [path]
    exact ofKeys_key properties property
  · rw [presence.follow_append, led, Option.bind_some, Presence.follow, if_pos present]
    rfl

end Reached

theorem last?_key (pointer : Pointer) (name : String) :
    (pointer.key name).last? = some (.key name) := List.getLast?_concat

section Members

variable {presence : Presence} {place : Place} {violation : Violation}

theorem mem_missing {value : Json} {names : List String} {name : String}
    (found : name ∈ missing presence value names) :
    name ∈ names ∧ presence.has value name = false := by
  obtain ⟨listed, absent⟩ := List.mem_filter.mp found
  exact ⟨listed, by simpa using absent⟩

theorem mem_propertyDependencyViolations {entries : List (String × Constraint Schema)}
    (found : violation ∈ propertyDependencyViolations presence place entries) :
    ∃ trigger names name, (trigger, Constraint.names names) ∈ entries ∧
      trigger ≠ Dependencies.reservedTrigger ∧ presence.has place.value trigger = true ∧
      name ∈ missing presence place.value names ∧
      violation = dependencyViolation place trigger names name := by
  induction entries with
  | nil => cases found
  | cons entry rest ih =>
    obtain ⟨trigger, names | schema⟩ := entry
    · rw [propertyDependencyViolations] at found
      rcases List.mem_append.mp found with here | later
      · split at here
        · next applies =>
          obtain ⟨name, absent, rfl⟩ := List.mem_map.mp here
          exact ⟨trigger, names, name, List.mem_cons_self, applies.1, applies.2, absent, rfl⟩
        · cases here
      · obtain ⟨other, names, name, listed, facts⟩ := ih later
        exact ⟨other, names, name, List.mem_cons_of_mem _ listed, facts⟩
    · obtain ⟨other, names, name, listed, facts⟩ := ih found
      exact ⟨other, names, name, List.mem_cons_of_mem _ listed, facts⟩

theorem mem_schemaDependencyViolations {entries : List (String × Constraint Schema)}
    (found : violation ∈ schemaDependencyViolations presence place entries) :
    ∃ trigger schema, (trigger, Constraint.schema schema) ∈ entries ∧
      violation ∈ violations presence { place with
        schemaPath := (place.schemaPath.key Keyword.dependencies.name).key trigger } schema := by
  induction entries with
  | nil =>
    rw [schemaDependencyViolations] at found
    cases found
  | cons entry rest ih =>
    obtain ⟨trigger, names | schema⟩ := entry
    · rw [schemaDependencyViolations] at found
      obtain ⟨other, schema, listed, inside⟩ := ih found
      exact ⟨other, schema, List.mem_cons_of_mem _ listed, inside⟩
    · rw [schemaDependencyViolations] at found
      rcases List.mem_append.mp found with here | later
      · split at here
        · exact ⟨trigger, schema, List.mem_cons_self, here⟩
        · cases here
      · obtain ⟨other, schema, listed, inside⟩ := ih later
        exact ⟨other, schema, List.mem_cons_of_mem _ listed, inside⟩

theorem mem_propertyViolations {entries : List (String × Schema)}
    (found : violation ∈ propertyViolations presence place entries) :
    ∃ property schema, (property, schema) ∈ entries ∧
      presence.has place.value property = true ∧
      violation ∈ violations presence {
        value := presence.valueAt place.value property
        instancePath := place.instancePath.key property
        schemaPath := (place.schemaPath.key Keyword.properties.name).key property } schema := by
  induction entries with
  | nil =>
    rw [propertyViolations] at found
    cases found
  | cons entry rest ih =>
    obtain ⟨property, schema⟩ := entry
    rw [propertyViolations] at found
    rcases List.mem_append.mp found with here | later
    · split at here
      · next present => exact ⟨property, schema, List.mem_cons_self, present, here⟩
      · cases here
    · obtain ⟨other, schema, listed, facts⟩ := ih later
      exact ⟨other, schema, List.mem_cons_of_mem _ listed, facts⟩

end Members

/-- The places that schemas are applied at lead from one to the next by one trigger or one property.
What is true of the own violations of each of them is true of all violations. -/
theorem forall_mem_violations {reached : Place → Prop} {good : Violation → Prop}
    (presence : Presence)
    (onTrigger : ∀ place trigger, reached place →
      reached { place with
        schemaPath := (place.schemaPath.key Keyword.dependencies.name).key trigger })
    (onProperty : ∀ place property, reached place →
      reached {
        value := presence.valueAt place.value property
        instancePath := place.instancePath.key property
        schemaPath := (place.schemaPath.key Keyword.properties.name).key property })
    (ofFalse : ∀ place, reached place → good (falseViolation place))
    (ofRequired : ∀ place name, reached place → good (requiredViolation place name))
    (ofDependency : ∀ place trigger names name, reached place →
      good (dependencyViolation place trigger names name)) (schema : Schema) :
    ∀ place, reached place → ∀ violation ∈ schema.violations presence place, good violation := by
  induction schema using Schema.induction with
  | bool accepts =>
    intro place here violation found
    cases accepts with
    | true => simp [violations] at found
    | false =>
      rw [violations] at found
      rcases List.mem_singleton.mp found with rfl
      exact ofFalse place here
  | object required? properties? dependencies? annotations onProperties onDependencies =>
    intro place here violation found
    rw [violations_object] at found
    split at found
    · rw [requiredViolations_getD, dependenciesViolations_getD, propertiesViolations_getD] at found
      simp only [List.mem_append] at found
      rcases found with (inRequired | inNames | inSchemas) | inProperties
      · rcases List.mem_map.mp inRequired with ⟨name, -, rfl⟩
        exact ofRequired place name here
      · rcases mem_propertyDependencyViolations inNames with ⟨_, _, _, -, -, -, -, rfl⟩
        exact ofDependency place _ _ _ here
      · rcases mem_schemaDependencyViolations inSchemas with ⟨trigger, schema, listed, inside⟩
        cases dependencies? with
        | none => cases listed
        | some entries =>
          have there := onTrigger place trigger here
          exact onDependencies entries rfl trigger schema listed _ there violation inside
      · rcases mem_propertyViolations inProperties with ⟨property, schema, listed, -, inside⟩
        cases properties? with
        | none => cases listed
        | some entries =>
          have there := onProperty place property here
          exact onProperties entries rfl (property, schema) listed _ there violation inside
    · cases found

/-- What one more key keeps of a path, the paths of a violation have from the place where it was
found. -/
theorem paths_of_mem_violations {onInstance onSchema : Pointer → Prop}
    (instanceKey : ∀ path name, onInstance path → onInstance (path.key name))
    (schemaKey : ∀ path name, onSchema path → onSchema (path.key name)) (presence : Presence)
    (schema : Schema) :
    ∀ place : Place, onInstance place.instancePath → onSchema place.schemaPath →
      ∀ violation ∈ schema.violations presence place,
        onInstance violation.instancePath ∧ onSchema violation.schemaPath := by
  let reached (place : Place) : Prop := onInstance place.instancePath ∧ onSchema place.schemaPath
  let good (violation : Violation) : Prop :=
    onInstance violation.instancePath ∧ onSchema violation.schemaPath
  have onTrigger (place : Place) (trigger : String) (here : reached place) :
      reached { place with
        schemaPath := (place.schemaPath.key Keyword.dependencies.name).key trigger } :=
    ⟨here.1, schemaKey _ _ (schemaKey _ _ here.2)⟩
  have onProperty (place : Place) (property : String) (here : reached place) :
      reached {
        value := presence.valueAt place.value property
        instancePath := place.instancePath.key property
        schemaPath := (place.schemaPath.key Keyword.properties.name).key property } :=
    ⟨instanceKey _ _ here.1, schemaKey _ _ (schemaKey _ _ here.2)⟩
  have all : ∀ place, reached place → ∀ violation ∈ schema.violations presence place,
      good violation :=
    forall_mem_violations presence onTrigger onProperty (fun _ here => here)
      (fun _ _ here => ⟨here.1, schemaKey _ _ here.2⟩)
      (fun _ _ _ _ here => ⟨here.1, schemaKey _ _ here.2⟩) schema
  exact fun place inInstance inSchema => all place ⟨inInstance, inSchema⟩

section Keywords

variable {presence : Presence} {document root target : Json} {place : Place}
  {violation : Violation} (reached : Reached presence document root place target)
  (isObject : place.value.kind = .object)

include reached isObject

theorem justified_required {required? : Option (List String)}
    (read : ∀ names, required? = some names →
      target.get? Keyword.required.name = some (.arr (names.map .str)))
    (found : violation ∈ requiredViolations presence place required?) :
    Justified presence document root violation := by
  cases required? with
  | none => cases found
  | some names =>
    obtain ⟨name, missing, rfl⟩ := List.mem_map.mp found
    obtain ⟨listed, absent⟩ := mem_missing missing
    exact ⟨_, place.value, reached.key (read names rfl),
      .required names name rfl (last?_key _ _) rfl rfl listed isObject absent⟩

theorem justified_propertyDependency {asked : Json}
    (found : target.get? Keyword.dependencies.name = some asked)
    {trigger : String} {names : List String} {name : String}
    (asks : asked.get? trigger = some (.arr (names.map .str)))
    (unreserved : trigger ≠ Dependencies.reservedTrigger)
    (triggered : presence.has place.value trigger = true)
    (missing : name ∈ missing presence place.value names) :
    Justified presence document root (dependencyViolation place trigger names name) := by
  obtain ⟨listed, absent⟩ := mem_missing missing
  exact ⟨asked, place.value, reached.key found,
    .dependencies trigger names name rfl (last?_key _ _) rfl unreserved asks listed isObject
      triggered absent⟩

end Keywords

def AlwaysJustified (presence : Presence) (document root : Json) (schema : Schema) : Prop :=
  ∀ {place : Place} {target : Json},
    target.hasDistinctKeys = true → Mirrors target schema →
      Reached presence document root place target →
        ∀ violation ∈ schema.violations presence place, Justified presence document root violation

section Subschemas

variable {presence : Presence} {document root target : Json} {members : Json.Members}
  {place : Place} {violation : Violation}
  (reached : Reached presence document root place target)
  (distinct : (Json.obj members).hasDistinctKeys = true)

include reached distinct

theorem justified_dependencies {entries : List (String × Constraint Schema)}
    (isObject : place.value.kind = .object)
    (asked : target.get? Keyword.dependencies.name = some (.obj members))
    (each : Entrywise MirrorsConstraint members entries)
    (inside : ∀ trigger schema, (trigger, Constraint.schema schema) ∈ entries →
      AlwaysJustified presence document root schema)
    (found : violation ∈ dependenciesViolations presence place (some entries)) :
    Justified presence document root violation := by
  rw [dependenciesViolations] at found
  rcases List.mem_append.mp found with byNames | bySchema
  · obtain ⟨trigger, names, name, listed, unreserved, triggered, absent, rfl⟩ :=
      mem_propertyDependencyViolations byNames
    obtain ⟨_, member, ⟨_⟩⟩ := each.exists_of_mem listed
    have asks := Json.get?_of_mem distinct member
    exact justified_propertyDependency reached isObject asked asks unreserved triggered absent
  · obtain ⟨trigger, schema, listed, found⟩ := mem_schemaDependencyViolations bySchema
    obtain ⟨value, member, ⟨⟩ | mirrors⟩ := each.exists_of_mem listed
    have asks := Json.get?_of_mem distinct member
    exact inside trigger schema listed (Json.hasDistinctKeys_get? distinct asks) mirrors
      ((reached.key asked).key asks) violation found

theorem justified_properties {entries : List (String × Schema)}
    (asked : target.get? Keyword.properties.name = some (.obj members))
    (each : Entrywise Mirrors members entries)
    (inside : ∀ entry ∈ entries, AlwaysJustified presence document root entry.2)
    (found : violation ∈ propertiesViolations presence place (some entries)) :
    Justified presence document root violation := by
  rw [propertiesViolations] at found
  obtain ⟨property, schema, listed, present, found⟩ := mem_propertyViolations found
  obtain ⟨value, member, mirrors⟩ := each.exists_of_mem listed
  have asks := Json.get?_of_mem distinct member
  exact inside (property, schema) listed (Json.hasDistinctKeys_get? distinct asks) mirrors
    (((reached.key asked).key asks).property present) violation found

end Subschemas

theorem alwaysJustified (presence : Presence) (document root : Json) (schema : Schema) :
    AlwaysJustified presence document root schema := by
  induction schema using Schema.induction with
  | bool accepts =>
    intro place target distinct mirrors reached violation found
    cases mirrors
    cases accepts with
    | true => rw [violations] at found; cases found
    | false =>
      rw [violations] at found
      rcases List.mem_singleton.mp found with rfl
      exact ⟨.bool false, place.value, reached, .falseSchema rfl rfl rfl⟩
  | object required? properties? dependencies? annotations onProperties onDependencies =>
    intro place target distinct mirrors reached violation found
    cases mirrors with
    | object required properties dependencies others =>
      rw [violations_object] at found
      split at found
      · next isObject =>
        rw [List.append_assoc] at found
        rcases List.mem_append.mp found with inRequired | others
        · apply justified_required reached isObject _ inRequired
          rintro names rfl
          exact required
        rcases List.mem_append.mp others with inDependencies | inProperties
        · cases dependencies? with
          | none => rw [dependenciesViolations] at inDependencies; cases inDependencies
          | some entries =>
            obtain ⟨inner, asked, each⟩ := dependencies.exists_of_some
            exact justified_dependencies reached (Json.hasDistinctKeys_get? distinct asked) isObject
              asked each (onDependencies entries rfl) inDependencies
        · cases properties? with
          | none => rw [propertiesViolations] at inProperties; cases inProperties
          | some entries =>
            obtain ⟨inner, asked, each⟩ := properties.exists_of_some
            exact justified_properties reached (Json.hasDistinctKeys_get? distinct asked) asked
              each (onProperties entries rfl) inProperties
      · cases found

theorem justified_of_ofJson {limit : Nat} {document : Json} {schema : Schema}
    (distinct : document.hasDistinctKeys = true) (read : ofJson limit document = .ok schema)
    (own : Bool) (subject : Instance) :
    ∀ violation ∈ schema.violationsOf own subject,
      Justified ⟨own, subject.prototype⟩ document subject.value violation :=
  alwaysJustified _ document subject.value schema distinct
    (mirrored limit document .root 0 schema read) (.atRoot _ document subject.value)

end SchemaCompiler.Schema
