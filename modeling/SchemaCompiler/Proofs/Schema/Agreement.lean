import SchemaCompiler.Proofs.Schema.Alike

/-!
What a schema can tell apart. It sees the kind of a value and which properties are present on it,
and it goes into the values of properties no deeper than the schemas inside it nest. Two instances
that agree so far have the same violations, also if they hold different things further down and if
their properties come from different places.
-/

namespace SchemaCompiler.Schema

mutual

/-- How many levels the schemas inside a schema nest; there are none without schemas inside. -/
def nesting : Schema → Nat
  | .bool _ => 0
  | .object ⟨_, properties?, dependencies?, _⟩ =>
    max (propertiesNesting properties?) (dependenciesNesting dependencies?)

def propertiesNesting : Option (List (String × Schema)) → Nat
  | none => 0
  | some entries => propertyNesting entries

def dependenciesNesting : Option (List (String × Constraint Schema)) → Nat
  | none => 0
  | some entries => triggerNesting entries

def propertyNesting : List (String × Schema) → Nat
  | [] => 0
  | (_, schema) :: rest => max (schema.nesting + 1) (propertyNesting rest)

def triggerNesting : List (String × Constraint Schema) → Nat
  | [] => 0
  | (_, .names _) :: rest => triggerNesting rest
  | (_, .schema schema) :: rest => max (schema.nesting + 1) (triggerNesting rest)

end

structure Matches (left right : Presence) (first second : Json) : Prop where
  kind : first.kind = second.kind
  has : ∀ property, left.has first property = right.has second property

/-- The values match, and so do all that properties lead to in up to `depth` steps. -/
def AgreeTo (left right : Presence) : Nat → Json → Json → Prop
  | 0, first, second => Matches left right first second
  | depth + 1, first, second =>
    Matches left right first second ∧
      ∀ property, left.has first property = true →
        AgreeTo left right depth (left.valueAt first property) (right.valueAt second property)

namespace AgreeTo

variable {left right : Presence} {first second : Json} {depth : Nat}

theorem surface (agree : AgreeTo left right depth first second) :
    Matches left right first second := by
  cases depth with
  | zero => exact agree
  | succ depth => exact agree.1

theorem property (agree : AgreeTo left right (depth + 1) first second) {property : String}
    (present : left.has first property = true) :
    AgreeTo left right depth (left.valueAt first property) (right.valueAt second property) :=
  agree.2 property present

theorem ofSame (has : ∀ value property, left.has value property = right.has value property)
    (valueAt : ∀ value property, left.has value property = true →
      left.valueAt value property = right.valueAt value property) (depth : Nat) (value : Json) :
    AgreeTo left right depth value value := by
  have surface (value : Json) : Matches left right value value := ⟨rfl, has value⟩
  induction depth generalizing value with
  | zero => exact surface value
  | succ depth ih =>
    refine ⟨surface value, ?_⟩
    intro property present
    rw [← valueAt value property present]
    exact ih _

end AgreeTo

def Indistinct (left right : Presence) (schema : Schema) : Prop :=
  ∀ depth first second instancePath schemaPath, schema.nesting ≤ depth →
    AgreeTo left right depth first second →
      schema.violations left ⟨first, instancePath, schemaPath⟩ =
        schema.violations right ⟨second, instancePath, schemaPath⟩

theorem nesting_lt_of_mem_properties {entries : List (String × Schema)}
    {entry : String × Schema} (member : entry ∈ entries) :
    entry.2.nesting < propertyNesting entries := by
  induction entries with
  | nil => cases member
  | cons first rest ih =>
    rw [propertyNesting]
    rcases List.mem_cons.mp member with rfl | later
    · omega
    · have deeper := ih later
      omega

theorem nesting_lt_of_mem_triggers {entries : List (String × Constraint Schema)} {trigger : String}
    {schema : Schema} (member : (trigger, Constraint.schema schema) ∈ entries) :
    schema.nesting < triggerNesting entries := by
  induction entries with
  | nil => cases member
  | cons first rest ih =>
    obtain ⟨other, names | inside⟩ := first <;> rw [triggerNesting]
    · rcases List.mem_cons.mp member with same | later
      · cases same
      · exact ih later
    · rcases List.mem_cons.mp member with same | later
      · cases same
        omega
      · have deeper := ih later
        omega

/-- Values that agree as deep as the schema nests look the same to it. -/
theorem alike_of_agreeTo {left right : Presence} (schema : Schema) :
    ∀ depth first second, schema.nesting ≤ depth → AgreeTo left right depth first second →
      Alike left right schema first second := by
  induction schema using Schema.induction with
  | bool accepts => exact fun _ first second _ _ => .bool accepts first second
  | object required? properties? dependencies? annotations onProperties onDependencies =>
    intro depth first second nests agree
    simp only [nesting] at nests
    by_cases isObject : first.kind = .object
    · apply Alike.objects isObject (agree.surface.kind ▸ isObject)
      · exact fun name _ => agree.surface.has name
      · -- The schema of a trigger looks at the same value, which uses up no level of it.
        intro trigger schema member _ _
        cases dependencies? with
        | none => cases member
        | some entries =>
          simp only [dependenciesNesting] at nests
          have deeper : schema.nesting < triggerNesting entries := nesting_lt_of_mem_triggers member
          exact onDependencies entries rfl trigger schema member depth first second (by omega) agree
      · intro property schema member present
        cases properties? with
        | none => cases member
        | some entries =>
          simp only [propertiesNesting] at nests
          have deeper : schema.nesting < propertyNesting entries :=
            nesting_lt_of_mem_properties member
          -- A level of the values is used up along with a level of the schema.
          obtain ⟨below, rfl⟩ : ∃ below, depth = below + 1 := ⟨depth - 1, by omega⟩
          have nestsBelow : schema.nesting ≤ below := by omega
          exact onProperties entries rfl _ member below _ _ nestsBelow (agree.property present)
    · exact .noObjects isObject (agree.surface.kind ▸ isObject)

theorem indistinct (left right : Presence) (schema : Schema) : Indistinct left right schema := by
  intro depth first second instancePath schemaPath nests agree
  exact (alike_of_agreeTo schema depth first second nests agree).violations_eq instancePath schemaPath

end SchemaCompiler.Schema
