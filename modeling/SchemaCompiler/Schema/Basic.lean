import SchemaCompiler.Keyword

/-!
Schemas as the compiler sees them: boolean schemas and schema objects with their keywords read.
-/

namespace SchemaCompiler

/-- What is asked of an object that has a trigger property: further properties, or that it satisfies
a schema. -/
inductive Constraint (σ : Type) where
  | names (list : List String)
  | schema (schema : σ)
  deriving Repr

/-- The members of a schema object, over subschemas of type `σ`. A keyword is `none` when the object
does not have it, which differs from having it with nothing in it. -/
structure SchemaObject (σ : Type) where
  required? : Option (List String) := none
  properties? : Option (List (String × σ)) := none
  dependencies? : Option (List (String × Constraint σ)) := none
  annotations : List (String × Json) := []
  deriving Repr

/-- The schema `true` accepts every value and `false` none. -/
inductive Schema where
  | bool (accepts : Bool)
  | object (members : SchemaObject Schema)
  deriving Repr

namespace SchemaObject

def hasKeyword (object : SchemaObject σ) : Keyword → Bool
  | .required => object.required?.isSome
  | .dependencies => object.dependencies?.isSome
  | .properties => object.properties?.isSome

def hasRules (object : SchemaObject σ) : Bool := Keyword.all.any object.hasKeyword

end SchemaObject

namespace Schema

/-- The schemas that no value fails because they hold no keyword at all. -/
def alwaysValid : Schema → Bool
  | bool accepts => accepts
  | object members => !members.hasRules

theorem sizeOf_property_lt {entries : List (String × Schema)} {entry : String × Schema}
    (member : entry ∈ entries) (required? dependencies? annotations) :
    sizeOf entry.2 <
      sizeOf (Schema.object ⟨required?, some entries, dependencies?, annotations⟩) := by
  have smaller := List.sizeOf_lt_of_mem member
  obtain ⟨property, schema⟩ := entry
  simp only [Schema.object.sizeOf_spec, SchemaObject.mk.sizeOf_spec, Option.some.sizeOf_spec,
    Prod.mk.sizeOf_spec] at smaller ⊢
  omega

theorem sizeOf_trigger_lt {entries : List (String × Constraint Schema)} {trigger : String}
    {schema : Schema} (member : (trigger, Constraint.schema schema) ∈ entries)
    (required? properties? annotations) :
    sizeOf schema <
      sizeOf (Schema.object ⟨required?, properties?, some entries, annotations⟩) := by
  have smaller := List.sizeOf_lt_of_mem member
  simp only [Schema.object.sizeOf_spec, SchemaObject.mk.sizeOf_spec, Option.some.sizeOf_spec,
    Prod.mk.sizeOf_spec, Constraint.schema.sizeOf_spec] at smaller ⊢
  omega

theorem induction {motive : Schema → Prop} (bool : ∀ accepts, motive (.bool accepts))
    (object : ∀ required? properties? dependencies? annotations,
      (∀ entries, properties? = some entries → ∀ entry ∈ entries, motive entry.2) →
      (∀ entries, dependencies? = some entries →
        ∀ trigger schema, (trigger, Constraint.schema schema) ∈ entries → motive schema) →
      motive (.object ⟨required?, properties?, dependencies?, annotations⟩)) :
    ∀ schema, motive schema
  | .bool accepts => bool accepts
  | .object ⟨required?, properties?, dependencies?, annotations⟩ => by
    apply object
    · intro entries given entry member
      subst given
      have smaller := sizeOf_property_lt member required? dependencies? annotations
      exact induction bool object entry.2
    · intro entries given trigger schema member
      subst given
      have smaller := sizeOf_trigger_lt member required? properties? annotations
      exact induction bool object schema
termination_by schema => sizeOf schema
decreasing_by
  · exact given ▸ smaller
  · exact given ▸ smaller

end Schema

end SchemaCompiler
