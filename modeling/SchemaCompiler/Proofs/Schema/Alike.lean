import SchemaCompiler.Schema.Violations

/-!
What a schema looks at. Of a value it sees whether it is an object and which of the properties that
the schema itself mentions are present, and it goes on into the properties that have schemas. Values
that are alike so far have the same violations, also when they are found present by different rules.
-/

namespace SchemaCompiler

def Constraint.listed : Constraint σ → List String
  | .names list => list
  | .schema _ => []

def triggerNames (entries : List (String × Constraint σ)) : List String :=
  entries.flatMap fun entry => entry.1 :: entry.2.listed

def SchemaObject.mentioned (object : SchemaObject σ) : List String :=
  object.required?.getD [] ++ triggerNames (object.dependencies?.getD []) ++
    (object.properties?.getD []).map Prod.fst

namespace Schema

/-- The values look the same to the schema, where `left` says what is present on the first value and
`right` what is present on the second. -/
inductive Alike (left right : Presence) : Schema → Json → Json → Prop where
  | bool (accepts : Bool) (first second : Json) : Alike left right (.bool accepts) first second
  | noObjects {object : SchemaObject Schema} {first second : Json} (here : first.kind ≠ .object)
    (there : second.kind ≠ .object) : Alike left right (.object object) first second
  | objects {object : SchemaObject Schema} {first second : Json} (here : first.kind = .object)
    (there : second.kind = .object)
    (mentioned : ∀ name ∈ object.mentioned, left.has first name = right.has second name)
    (triggers : ∀ trigger schema,
      (trigger, Constraint.schema schema) ∈ object.dependencies?.getD [] →
        trigger ≠ Dependencies.reservedTrigger → left.has first trigger = true →
          Alike left right schema first second)
    (properties : ∀ property schema, (property, schema) ∈ object.properties?.getD [] →
      left.has first property = true →
        Alike left right schema (left.valueAt first property) (right.valueAt second property)) :
    Alike left right (.object object) first second

section Keywords

variable {left right : Presence} {first second : Json} (instancePath schemaPath : Pointer)

theorem missing_congr {names : List String}
    (same : ∀ name ∈ names, left.has first name = right.has second name) :
    missing left first names = missing right second names := by
  apply List.filter_congr
  intro name member
  rw [same name member]

theorem propertyDependencyViolations_congr {entries : List (String × Constraint Schema)}
    (same : ∀ name ∈ triggerNames entries, left.has first name = right.has second name) :
    propertyDependencyViolations left ⟨first, instancePath, schemaPath⟩ entries =
      propertyDependencyViolations right ⟨second, instancePath, schemaPath⟩ entries := by
  induction entries with
  | nil => rfl
  | cons entry rest ih =>
    have later := ih fun name member => same name (List.mem_append_right _ member)
    obtain ⟨trigger, names | schema⟩ := entry
    · have trigger := same trigger (List.mem_append_left _ List.mem_cons_self)
      have listed := missing_congr fun name (member : name ∈ names) =>
        same name (List.mem_append_left _ (List.mem_cons_of_mem _ member))
      simp only [propertyDependencyViolations, trigger, listed, later]
      rfl
    · exact later

theorem schemaDependencyViolations_congr {entries : List (String × Constraint Schema)}
    (same : ∀ name ∈ triggerNames entries, left.has first name = right.has second name)
    (inside : ∀ trigger schema, (trigger, Constraint.schema schema) ∈ entries →
      trigger ≠ Dependencies.reservedTrigger → left.has first trigger = true → ∀ schemaPath,
        schema.violations left ⟨first, instancePath, schemaPath⟩ =
          schema.violations right ⟨second, instancePath, schemaPath⟩) :
    schemaDependencyViolations left ⟨first, instancePath, schemaPath⟩ entries =
      schemaDependencyViolations right ⟨second, instancePath, schemaPath⟩ entries := by
  induction entries with
  | nil => simp only [schemaDependencyViolations]
  | cons entry rest ih =>
    have later := ih (fun name member => same name (List.mem_append_right _ member))
      fun trigger schema member => inside trigger schema (List.mem_cons_of_mem _ member)
    obtain ⟨trigger, names | schema⟩ := entry
    · simp only [schemaDependencyViolations, later]
    · have here := same trigger (List.mem_append_left _ List.mem_cons_self)
      simp only [schemaDependencyViolations, ← here, later]
      congr 1
      split
      · next applies => exact inside trigger schema List.mem_cons_self applies.1 applies.2 _
      · rfl

theorem propertyViolations_congr {entries : List (String × Schema)}
    (same : ∀ name ∈ entries.map Prod.fst, left.has first name = right.has second name)
    (inside : ∀ property schema, (property, schema) ∈ entries → left.has first property = true →
      ∀ instancePath schemaPath,
        schema.violations left ⟨left.valueAt first property, instancePath, schemaPath⟩ =
          schema.violations right ⟨right.valueAt second property, instancePath, schemaPath⟩) :
    propertyViolations left ⟨first, instancePath, schemaPath⟩ entries =
      propertyViolations right ⟨second, instancePath, schemaPath⟩ entries := by
  induction entries with
  | nil => simp only [propertyViolations]
  | cons entry rest ih =>
    obtain ⟨property, schema⟩ := entry
    have later := ih (fun name member => same name (List.mem_cons_of_mem _ member))
      fun property schema member => inside property schema (List.mem_cons_of_mem _ member)
    have here := same property List.mem_cons_self
    simp only [propertyViolations, ← here, later]
    congr 1
    split
    · next present => exact inside property schema List.mem_cons_self present _ _
    · rfl

end Keywords

/-- What is alike to a schema has the same violations of it, at whatever place. -/
theorem Alike.violations_eq {left right : Presence} {schema : Schema} {first second : Json}
    (alike : Alike left right schema first second) (instancePath schemaPath : Pointer) :
    schema.violations left ⟨first, instancePath, schemaPath⟩ =
      schema.violations right ⟨second, instancePath, schemaPath⟩ := by
  induction alike generalizing instancePath schemaPath with
  | bool accepts first second =>
    cases accepts with
    | true => simp only [violations]
    | false =>
      simp only [violations]
      rfl
  | @noObjects object first second here there =>
    simp only [violations_object, if_neg here, if_neg there]
  | @objects object first second here there mentioned _ _ onTriggers onProperties =>
    obtain ⟨required?, properties?, dependencies?, annotations⟩ := object
    have required := missing_congr fun name (member : name ∈ required?.getD []) =>
      mentioned name (List.mem_append_left _ (List.mem_append_left _ member))
    have triggers := fun name (member : name ∈ triggerNames (dependencies?.getD [])) =>
      mentioned name (List.mem_append_left _ (List.mem_append_right _ member))
    have keys := fun name (member : name ∈ (properties?.getD []).map Prod.fst) =>
      mentioned name (List.mem_append_right _ member)
    have listed := propertyDependencyViolations_congr instancePath schemaPath triggers
    have asked := schemaDependencyViolations_congr instancePath schemaPath triggers
      fun trigger schema member unreserved present =>
        onTriggers trigger schema member unreserved present instancePath
    have properties := propertyViolations_congr instancePath schemaPath keys onProperties
    simp only [violations_object, if_pos here, if_pos there, requiredViolations_getD, required,
      dependenciesViolations_getD, listed, asked, propertiesViolations_getD, properties]
    rfl

end Schema

end SchemaCompiler
