import Mathlib.Algebra.GroupWithZero.Nat
import SchemaCompiler.Options
import SchemaCompiler.Schema.Dependencies

/-!
The subschemas that a schema applies, at any depth, and the reports that each schema can make itself
under a policy. Both are read off the schema alone.
-/

namespace SchemaCompiler

namespace Dependencies

def namesAsked? : String × Constraint Schema → Option (List String)
  | (trigger, .names list) => if trigger = reservedTrigger then none else some list
  | (_, .schema _) => none

def schemaAsked? : String × Constraint Schema → Option Schema
  | (_, .names _) => none
  | (trigger, .schema schema) => if trigger = reservedTrigger then none else some schema

end Dependencies

/-- The reports that the check of a list of names comes to: one for each name, or one for the first
that is missing. -/
def ErrorPolicy.reportsFor : ErrorPolicy → List String → Nat
  | accumulateAll, names => names.length
  | stopAtFirst, names => if names.isEmpty then 0 else 1

theorem ErrorPolicy.reportsFor_nil (policy : ErrorPolicy) : policy.reportsFor [] = 0 := by
  cases policy <;> rfl

namespace Schema

def nameLists : Schema → List (List String)
  | bool _ => []
  | object members =>
    members.required?.toList ++
      (members.dependencies?.getD []).filterMap Dependencies.namesAsked?

def children : Schema → List Schema
  | bool _ => []
  | object members =>
    (members.dependencies?.getD []).filterMap Dependencies.schemaAsked? ++
      (members.properties?.getD []).map Prod.snd

/-- The reports that a schema can make itself: those for its lists of names, and the one of the
schema `false`. -/
def reports (policy : ErrorPolicy) (schema : Schema) : Nat :=
  (schema.nameLists.map policy.reportsFor).sum +
    match schema with
    | bool false => 1
    | _ => 0

theorem sizeOf_lt_of_mem_children {schema child : Schema} (member : child ∈ schema.children) :
    sizeOf child < sizeOf schema := by
  cases schema with
  | bool accepts => cases member
  | object members =>
    obtain ⟨required?, properties?, dependencies?, annotations⟩ := members
    rcases List.mem_append.mp member with asked | held
    · obtain ⟨⟨trigger, constraint⟩, entry, found⟩ := List.mem_filterMap.mp asked
      cases dependencies? with
      | none => cases entry
      | some entries =>
        cases constraint with
        | names list => cases found
        | schema schema =>
          rw [Dependencies.schemaAsked?, Option.ite_none_left_eq_some, Option.some.injEq] at found
          rw [← found.2]
          exact sizeOf_trigger_lt entry required? properties? annotations
    · obtain ⟨entry, stated, rfl⟩ := List.mem_map.mp held
      cases properties? with
      | none => cases stated
      | some entries => exact sizeOf_property_lt stated required? dependencies? annotations

/-- The subschemas that are checked with a schema: the children that can fail, and all that is
checked with these. -/
def applied (schema : Schema) : List Schema :=
  schema.children.attach.flatMap fun child =>
    if child.1.alwaysValid then [] else child.1 :: applied child.1
termination_by sizeOf schema
decreasing_by exact sizeOf_lt_of_mem_children child.2

def appliedChild (child : Schema) : List Schema :=
  if child.alwaysValid then [] else child :: child.applied

theorem applied_eq (schema : Schema) : schema.applied = schema.children.flatMap appliedChild := by
  rw [applied]
  change schema.children.attach.flatMap (fun child => appliedChild child.1) = _
  simp only [List.flatMap_def, List.attach_map_val]

theorem sum_applied (schema : Schema) (measure : Schema → Nat) :
    (schema.applied.map measure).sum =
      (schema.children.map fun child => ((appliedChild child).map measure).sum).sum := by
  rw [applied_eq]
  induction schema.children with
  | nil => rfl
  | cons child rest ih =>
    rw [List.flatMap_cons, List.map_append, List.sum_append, ih, List.map_cons, List.sum_cons]

end Schema

end SchemaCompiler
