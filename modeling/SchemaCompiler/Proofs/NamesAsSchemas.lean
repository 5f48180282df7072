import Mathlib.Algebra.Order.Group.Multiset
import SchemaCompiler.Proofs.Compilation

/-!
The two kinds of dependencies. A trigger that asks for names asks for no more than one whose schema
requires these names. If a document has the lists of names of its triggers replaced by such schemas,
at every level, its validator comes to the same verdicts, and it finds the same properties missing
at the same places of the instance, though in another order and in other words.
-/

namespace SchemaCompiler

namespace Json

mutual

/-- The document with schemas that require names in place of the lists of names of triggers, in
every schema at every level. -/
def namesAsSchemas : Json → Json
  | .obj members => .obj (namesAsSchemasIn members)
  | value => value

def namesAsSchemasIn : List (String × Json) → List (String × Json)
  | [] => []
  | (name, value) :: rest => (name, namesAsSchemasAt name value) :: namesAsSchemasIn rest

def namesAsSchemasAt (name : String) : Json → Json
  | .obj inner =>
    if name = "properties" then .obj (propertiesNamesAsSchemas inner)
    else if name = "dependencies" then .obj (triggersNamesAsSchemas inner)
    else .obj inner
  | value => value

def propertiesNamesAsSchemas : List (String × Json) → List (String × Json)
  | [] => []
  | (property, value) :: rest => (property, value.namesAsSchemas) :: propertiesNamesAsSchemas rest

def triggersNamesAsSchemas : List (String × Json) → List (String × Json)
  | [] => []
  | (trigger, .arr items) :: rest =>
    (trigger, .obj [("required", .arr items)]) :: triggersNamesAsSchemas rest
  | (trigger, value) :: rest => (trigger, value.namesAsSchemas) :: triggersNamesAsSchemas rest

end

@[simp] theorem kind_namesAsSchemas (value : Json) : value.namesAsSchemas.kind = value.kind := by
  cases value <;> rfl

theorem get?_namesAsSchemasIn (members : Members) (key : String) :
    OrderedMap.get? (namesAsSchemasIn members) key =
      (OrderedMap.get? members key).map (namesAsSchemasAt key) := by
  rw [← OrderedMap.get?_map namesAsSchemasAt]
  congr 1
  induction members with
  | nil => rfl
  | cons entry rest ih => rw [namesAsSchemasIn, ih, List.map_cons]

theorem triggersNamesAsSchemas_cons {value : Json} (noList : value.kind ≠ .array) (trigger : String)
    (rest : Members) :
    triggersNamesAsSchemas ((trigger, value) :: rest) =
      (trigger, value.namesAsSchemas) :: triggersNamesAsSchemas rest := by
  cases value with
  | arr items => exact absurd rfl noList
  | _ => rfl

/-- Every trigger stays, and none is left with a list. -/
theorem triggersNamesAsSchemas_keeps (trigger : String) (value : Json) (rest : Members) :
    ∃ asked : Json, asked.kind ≠ .array ∧
      triggersNamesAsSchemas ((trigger, value) :: rest) =
        (trigger, asked) :: triggersNamesAsSchemas rest := by
  by_cases list : value.kind = .array
  · cases value with
    | arr items => exact ⟨.obj [("required", .arr items)], by simp [kind], rfl⟩
    | _ => cases list
  · refine ⟨value.namesAsSchemas, ?_, triggersNamesAsSchemas_cons list trigger rest⟩
    rw [kind_namesAsSchemas]
    exact list

end Json

namespace Schema

def profile (violation : Violation) : Pointer × Option Json :=
  (violation.instancePath, OrderedMap.get? violation.params "missingProperty")

def profiles (violations : List Violation) : Multiset (Pointer × Option Json) :=
  violations.map profile

@[simp] theorem profiles_nil : profiles [] = 0 := rfl

@[simp] theorem profiles_append (left right : List Violation) :
    profiles (left ++ right) = profiles left + profiles right := by
  simp [profiles]

theorem isEmpty_eq_of_profiles_eq {left right : List Violation}
    (same : profiles left = profiles right) : left.isEmpty = right.isEmpty := by
  have sizes := congrArg Multiset.card same
  simp only [profiles, Multiset.coe_card, List.length_map] at sizes
  cases left <;> cases right <;> simp_all

def SameProfiles (presence : Presence) (schema other : Schema) : Prop :=
  ∀ value instancePath schemaPath otherPath,
    profiles (schema.violations presence ⟨value, instancePath, schemaPath⟩) =
      profiles (other.violations presence ⟨value, instancePath, otherPath⟩)

section Triggers

variable {presence : Presence}

theorem propertyDependencyViolations_schemaTriggers (place : Place) (inner : Json.Members) :
    propertyDependencyViolations presence place (schemaTriggers inner) = [] := by
  induction inner using triggerInduction with
  | nil => rfl
  | reserved value rest ih => rw [schemaTriggers_cons_reserved, ih]
  | names trigger items rest unreserved ih => rw [schemaTriggers_cons_names, ih]
  | schema trigger value rest unreserved noList ih =>
    rw [schemaTriggers_cons_schema _ unreserved noList, propertyDependencyViolations, ih]

theorem schemaDependencyViolations_nameTriggers (place : Place) (inner : Json.Members)
    (entries : List (String × Constraint Schema)) :
    schemaDependencyViolations presence place (nameTriggers inner ++ entries) =
      schemaDependencyViolations presence place entries := by
  induction inner using triggerInduction with
  | nil => rfl
  | reserved value rest ih => rw [nameTriggers_cons_reserved, ih]
  | names trigger items rest unreserved ih =>
    rw [nameTriggers_cons_names _ unreserved rfl, List.cons_append, schemaDependencyViolations, ih]
  | schema trigger value rest unreserved noList ih => rw [nameTriggers_cons_schema _ noList, ih]

theorem profiles_dependencies (place : Place) (inner : Json.Members) :
    profiles (dependenciesViolations presence place (dependenciesOf? (.obj inner))) =
      profiles (propertyDependencyViolations presence place (nameTriggers inner)) +
        profiles (schemaDependencyViolations presence place (schemaTriggers inner)) := by
  simp only [dependenciesOf?, dependenciesViolations, profiles_append,
    propertyDependencyViolations_append, propertyDependencyViolations_schemaTriggers, profiles_nil,
    add_zero, schemaDependencyViolations_nameTriggers]

theorem nameTriggers_triggersNamesAsSchemas (inner : Json.Members) :
    nameTriggers (Json.triggersNamesAsSchemas inner) = [] := by
  induction inner with
  | nil => rfl
  | cons entry rest ih =>
    obtain ⟨asked, noList, kept⟩ := Json.triggersNamesAsSchemas_keeps entry.1 entry.2 rest
    rw [kept, nameTriggers_cons_schema _ noList, ih]

theorem violations_outline_required {place : Place} (isObject : place.value.kind = .object)
    (items : List Json) :
    violations presence place (outline (.obj [("required", .arr items)])) =
      (missing presence place.value (items.filterMap Json.asString?)).map
        (requiredViolation place) := by
  have read : outline (.obj [("required", .arr items)]) =
      .object { required? := some (items.filterMap Json.asString?) } := by
    rw [outline_obj]
    rfl
  rw [read, violations_object, if_pos isObject, dependenciesViolations, propertiesViolations,
    List.append_nil, List.append_nil]
  rfl

variable {value : Json} (instancePath schemaPath otherPath : Pointer)

theorem profiles_missing (names : List String) (trigger : String) (all : List String) :
    profiles (names.map (dependencyViolation ⟨value, instancePath, schemaPath⟩ trigger all)) =
      profiles (names.map (requiredViolation ⟨value, instancePath, otherPath⟩)) := by
  simp only [profiles, List.map_map]
  rfl

theorem profiles_triggersNamesAsSchemas (inner : Json.Members) (isObject : value.kind = .object)
    (inside : ∀ entry ∈ inner,
      SameProfiles presence (outline entry.2) (outline entry.2.namesAsSchemas)) :
    profiles (propertyDependencyViolations presence ⟨value, instancePath, schemaPath⟩
          (nameTriggers inner)) +
        profiles (schemaDependencyViolations presence ⟨value, instancePath, schemaPath⟩
          (schemaTriggers inner)) =
      profiles (schemaDependencyViolations presence ⟨value, instancePath, otherPath⟩
        (schemaTriggers (Json.triggersNamesAsSchemas inner))) := by
  induction inner using triggerInduction with
  | nil => rfl
  | reserved asked rest ih =>
    obtain ⟨other, -, kept⟩ :=
      Json.triggersNamesAsSchemas_keeps Dependencies.reservedTrigger asked rest
    have later := ih fun entry member => inside entry (List.mem_cons_of_mem _ member)
    rw [kept, nameTriggers_cons_reserved, schemaTriggers_cons_reserved,
      schemaTriggers_cons_reserved, later]
  | names trigger items rest unreserved ih =>
    have later := ih fun entry member => inside entry (List.mem_cons_of_mem _ member)
    have noList : (Json.obj [("required", .arr items)]).kind ≠ .array := by simp [Json.kind]
    rw [Json.triggersNamesAsSchemas, schemaTriggers_cons_names,
      nameTriggers_cons_names _ unreserved rfl, schemaTriggers_cons_schema _ unreserved noList,
      propertyDependencyViolations, schemaDependencyViolations,
      violations_outline_required isObject]
    simp only [profiles_append, add_assoc, later]
    congr 1
    split
    · exact profiles_missing _ _ _ _ _ _
    · rfl
  | schema trigger asked rest unreserved noList ih =>
    have here := inside (trigger, asked) List.mem_cons_self
    have later := ih fun entry member => inside entry (List.mem_cons_of_mem _ member)
    have kept : asked.namesAsSchemas.kind ≠ .array := by
      rw [Json.kind_namesAsSchemas]
      exact noList
    rw [Json.triggersNamesAsSchemas_cons noList, nameTriggers_cons_schema _ noList,
      schemaTriggers_cons_schema _ unreserved noList, schemaTriggers_cons_schema _ unreserved kept,
      schemaDependencyViolations, schemaDependencyViolations]
    simp only [profiles_append]
    -- The lists come before all schemas here, and in the order of the document there.
    rw [add_left_comm, later]
    congr 1
    split
    · exact here _ _ _ _
    · rfl

theorem profiles_propertiesNamesAsSchemas (inner : Json.Members)
    (inside : ∀ entry ∈ inner,
      SameProfiles presence (outline entry.2) (outline entry.2.namesAsSchemas)) :
    profiles (propertyViolations presence ⟨value, instancePath, schemaPath⟩ (outlines inner)) =
      profiles (propertyViolations presence ⟨value, instancePath, otherPath⟩
        (outlines (Json.propertiesNamesAsSchemas inner))) := by
  induction inner with
  | nil => rfl
  | cons entry rest ih =>
    obtain ⟨property, asked⟩ := entry
    have later := ih fun entry member => inside entry (List.mem_cons_of_mem _ member)
    have here := inside (property, asked) List.mem_cons_self
    rw [Json.propertiesNamesAsSchemas, outlines, outlines, propertyViolations, propertyViolations]
    simp only [profiles_append, later]
    congr 1
    split
    · exact here _ _ _ _
    · rfl

theorem profiles_requiredViolations (required? : Option (List String)) :
    profiles (requiredViolations presence ⟨value, instancePath, schemaPath⟩ required?) =
      profiles (requiredViolations presence ⟨value, instancePath, otherPath⟩ required?) := by
  cases required? with
  | none => rfl
  | some names =>
    simp only [profiles, requiredViolations, List.map_map]
    rfl

end Triggers

section Keywords

variable {presence : Presence} {value : Json} (instancePath schemaPath otherPath : Pointer)
  {asked? : Option Json}
  (inside : ∀ inner, asked? = some (.obj inner) → ∀ entry ∈ inner,
    SameProfiles presence (outline entry.2) (outline entry.2.namesAsSchemas))

include inside

theorem profiles_dependenciesViolations (isObject : value.kind = .object) :
    profiles (dependenciesViolations presence ⟨value, instancePath, schemaPath⟩
        (asked?.bind dependenciesOf?)) =
      profiles (dependenciesViolations presence ⟨value, instancePath, otherPath⟩
        ((asked?.map (Json.namesAsSchemasAt Keyword.dependencies.name)).bind dependenciesOf?)) := by
  cases asked? with
  | none => rfl
  | some asked =>
    cases asked with
    | obj inner =>
      have replaced : Json.namesAsSchemasAt Keyword.dependencies.name (.obj inner) =
          .obj (Json.triggersNamesAsSchemas inner) := rfl
      rw [Option.map_some, Option.bind_some, Option.bind_some, replaced, profiles_dependencies,
        profiles_dependencies, nameTriggers_triggersNamesAsSchemas,
        profiles_triggersNamesAsSchemas instancePath schemaPath otherPath inner isObject
          (inside inner rfl), propertyDependencyViolations, profiles_nil, zero_add]
    | _ => rfl

theorem profiles_propertiesViolations :
    profiles (propertiesViolations presence ⟨value, instancePath, schemaPath⟩
        (asked?.bind propertiesOf?)) =
      profiles (propertiesViolations presence ⟨value, instancePath, otherPath⟩
        ((asked?.map (Json.namesAsSchemasAt Keyword.properties.name)).bind propertiesOf?)) := by
  cases asked? with
  | none => rfl
  | some asked =>
    cases asked with
    | obj inner =>
      have replaced : Json.namesAsSchemasAt Keyword.properties.name (.obj inner) =
          .obj (Json.propertiesNamesAsSchemas inner) := rfl
      rw [Option.map_some, Option.bind_some, Option.bind_some, replaced, propertiesOf?,
        propertiesOf?, propertiesViolations, propertiesViolations]
      exact profiles_propertiesNamesAsSchemas _ _ _ inner (inside inner rfl)
    | _ => rfl

end Keywords

theorem namesOf?_namesAsSchemasAt (name : String) (value : Json) :
    namesOf? (Json.namesAsSchemasAt name value) = namesOf? value := by
  cases value with
  | obj inner =>
    rw [Json.namesAsSchemasAt]
    split
    · rfl
    · split <;> rfl
  | _ => rfl

/-- The document and the one with schemas for names find the same in every value. -/
theorem sameProfiles_namesAsSchemas (presence : Presence) (document : Json) :
    SameProfiles presence (outline document) (outline document.namesAsSchemas) := by
  induction document using Json.subschemaInduction with
  | step document inside =>
    intro value instancePath schemaPath otherPath
    cases document with
    | bool accepts => cases accepts <;> rfl
    | obj members =>
      have below (key : String) (inner : Json.Members)
          (found : OrderedMap.get? members key = some (.obj inner)) :=
        inside members rfl key inner (OrderedMap.mem_of_get? found)
      have required : ∀ asked? : Option Json,
          (asked?.map (Json.namesAsSchemasAt Keyword.required.name)).bind namesOf? =
            asked?.bind namesOf? := by
        intro asked?
        cases asked? with
        | none => rfl
        | some asked => exact namesOf?_namesAsSchemasAt _ asked
      rw [Json.namesAsSchemas, outline_obj, outline_obj, Json.get?_namesAsSchemasIn,
        Json.get?_namesAsSchemasIn, Json.get?_namesAsSchemasIn, required, violations_object,
        violations_object]
      split
      · next isObject =>
        simp only [profiles_append]
        rw [profiles_requiredViolations instancePath schemaPath otherPath,
          profiles_dependenciesViolations instancePath schemaPath otherPath (below _) isObject,
          profiles_propertiesViolations instancePath schemaPath otherPath (below _)]
      · rfl
    | _ => rfl

end Schema

namespace Validator

open Run Schema

/-- A document and the one with schemas for the names of its triggers, if both compile, accept the
same instances; and where every violation is reported, the same properties are found missing at the
same places, and as many other violations are reported there. -/
theorem namesAsSchemas_agree {options : Options} {document : Json} {validator other : Validator}
    (compiles : ofDocument options document = .ok validator)
    (replaced : ofDocument options document.namesAsSchemas = .ok other) (subject : Instance) :
    (∃ verdict otherVerdict,
      validator.validate subject = .ok verdict ∧ other.validate subject = .ok otherVerdict ∧
        verdict.isValid = otherVerdict.isValid) ∧
      (options.policy = .accumulateAll → ∃ violations others,
        run validator.code subject = .ok violations ∧ run other.code subject = .ok others ∧
          profiles violations = profiles others) := by
  have same := sameProfiles_namesAsSchemas ⟨options.ownProperties, subject.prototype⟩ document
    subject.value .root .root .root
  rw [eq_compiled_outline compiles, eq_compiled_outline replaced]
  constructor
  · refine ⟨_, _, validate_compiled _ _ _, validate_compiled _ _ _, ?_⟩
    rw [isValid_reported, isValid_reported]
    exact isEmpty_eq_of_profiles_eq same
  · intro accumulates
    refine ⟨_, _, run_compiled _ _ _, run_compiled _ _ _, ?_⟩
    rw [accumulates]
    exact same

section Payment

def paymentDocument : Json :=
  .obj [("dependencies", .obj
    [("card", .obj [("dependencies", .obj [("card", .arr [.str "holder", .str "address"])])]),
      ("card number", .arr [.str "payer"])])]

/-- Every list of names has become a schema, also the one inside the schema of the card. -/
example : paymentDocument.namesAsSchemas =
    .obj [("dependencies", .obj
      [("card", .obj [("dependencies", .obj
          [("card", .obj [("required", .arr [.str "holder", .str "address"])])])]),
        ("card number", .obj [("required", .arr [.str "payer"])])])] := rfl

def paymentOptions : Options := { policy := .accumulateAll, maxDepth := 2 }

def paymentInstance : Instance where
  value := .obj [("card", .null), ("card number", .null), ("holder", .null)]

theorem namesAsSchemas_agree_payment :
    ∃ validator other,
      ofDocument paymentOptions paymentDocument = .ok validator ∧
        ofDocument paymentOptions paymentDocument.namesAsSchemas = .ok other ∧
        (∃ verdict otherVerdict,
          validator.validate paymentInstance = .ok verdict ∧
            other.validate paymentInstance = .ok otherVerdict ∧
              verdict.isValid = otherVerdict.isValid) ∧
        ∃ violations others,
          run validator.code paymentInstance = .ok violations ∧
            run other.code paymentInstance = .ok others ∧
              profiles violations = profiles others := by
  obtain ⟨validator, compiles⟩ : ∃ validator,
      ofDocument paymentOptions paymentDocument = .ok validator := ⟨_, rfl⟩
  obtain ⟨other, replaced⟩ : ∃ other,
      ofDocument paymentOptions paymentDocument.namesAsSchemas = .ok other := ⟨_, rfl⟩
  obtain ⟨verdicts, accumulated⟩ := namesAsSchemas_agree compiles replaced paymentInstance
  exact ⟨validator, other, compiles, replaced, verdicts, accumulated rfl⟩

end Payment

end Validator

end SchemaCompiler
