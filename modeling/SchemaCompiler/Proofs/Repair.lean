import SchemaCompiler.Proofs.Compilation
import SchemaCompiler.Proofs.Schema.Alike

/-!
Repairing a missing property. Once an object has the property, the reports that it is missing there
are gone, and nothing else changes: provided that no schema which looks at the object itself has a
schema for the property or takes it for a trigger. Further down, the property may be anything.
-/

namespace SchemaCompiler

def Violation.reportsMissing (violation : Violation) (path : Pointer) (name : String) : Bool :=
  violation.instancePath == path && violation.paramText? "missingProperty" == some name

def withoutMissing (path : Pointer) (name : String) (violations : List Violation) :
    List Violation :=
  violations.filter fun violation => !violation.reportsMissing path name

@[simp] theorem withoutMissing_nil (path : Pointer) (name : String) :
    withoutMissing path name [] = [] := rfl

@[simp] theorem withoutMissing_append (path : Pointer) (name : String)
    (left right : List Violation) : withoutMissing path name (left ++ right) =
      withoutMissing path name left ++ withoutMissing path name right := List.filter_append ..

/-- The schemas of a document that look at the instance itself: the whole document, and in turn what
a trigger asks for. -/
inductive Json.InPlace : Json → Json → Prop where
  | here (document : Json) : InPlace document document
  | trigger {document value inner : Json} {entries : Json.Members} {trigger : String}
    (asked : document.get? "dependencies" = some (.obj entries))
    (listed : (trigger, value) ∈ entries) (inside : InPlace value inner) : InPlace document inner

def Json.keysOf (schema : Json) (keyword : String) : List String :=
  OrderedMap.keys (((schema.get? keyword).bind Json.members?).getD [])

/-- No schema of the document that looks at the instance itself has a schema for the property or
takes it for a trigger. -/
structure Json.Inert (document : Json) (name : String) : Prop where
  noProperty : ∀ schema, document.InPlace schema → name ∉ schema.keysOf "properties"
  noTrigger : ∀ schema, document.InPlace schema → name ∉ schema.keysOf "dependencies"

theorem Json.mem_keysOf {schema value : Json} {keyword name : String} {entries : Json.Members}
    (given : schema.get? keyword = some (.obj entries)) (listed : (name, value) ∈ entries) :
    name ∈ schema.keysOf keyword := by
  rw [keysOf, given]
  exact List.mem_map.mpr ⟨_, listed, rfl⟩

namespace Schema

inductive Inert (name : String) : Schema → Prop where
  | bool (accepts : Bool) : Inert name (.bool accepts)
  | object {object : SchemaObject Schema}
    (noProperty : ∀ entry ∈ object.properties?.getD [], entry.1 ≠ name)
    (noTrigger : ∀ entry ∈ object.dependencies?.getD [], entry.1 ≠ name)
    (inside : ∀ trigger schema, (trigger, Constraint.schema schema) ∈
      object.dependencies?.getD [] → Inert name schema) : Inert name (.object object)

theorem inert_of_mirrors {name : String} (schema : Schema) :
    ∀ document, Mirrors document schema → document.Inert name → Inert name schema := by
  induction schema using Schema.induction with
  | bool accepts =>
    intro _ _ _
    exact .bool accepts
  | object required? properties? dependencies? annotations _ onDependencies =>
    intro document mirrors inert
    cases mirrors with
    | object _ properties dependencies _ =>
      apply Inert.object
      · intro entry listed same
        rcases properties.exists_of_mem listed with ⟨inner, value, given, member, -⟩
        exact inert.noProperty _ (.here _) (same ▸ Json.mem_keysOf given member)
      · intro entry listed same
        rcases dependencies.exists_of_mem listed with ⟨inner, value, given, member, -⟩
        exact inert.noTrigger _ (.here _) (same ▸ Json.mem_keysOf given member)
      · intro trigger schema listed
        rcases dependencies.exists_of_mem listed with ⟨inner, value, given, member, ⟨⟩ | inside⟩
        cases dependencies? with
        | none => cases listed
        | some entries =>
          apply onDependencies entries rfl trigger schema listed value inside
          constructor
          · intro deeper inPlace
            exact inert.noProperty deeper (.trigger given member inPlace)
          · intro deeper inPlace
            exact inert.noTrigger deeper (.trigger given member inPlace)

/-- Both are objects, the second one has the property, and in all else they do not differ. -/
structure Gains (presence : Presence) (name : String) (before after : Json) : Prop where
  wasObject : before.kind = .object
  isObject : after.kind = .object
  gained : presence.has after name = true
  sameHas : ∀ other, other ≠ name → presence.has after other = presence.has before other
  sameValue : ∀ other, other ≠ name → presence.valueAt after other = presence.valueAt before other

theorem gains_insert (presence : Presence) (members : Json.Members) (name : String)
    (value : Json) :
    Gains presence name (.obj members) (.obj (OrderedMap.insert members name value)) := by
  have sameLookup : ∀ other own, other ≠ name →
      Run.lookup presence.prototype (.obj (OrderedMap.insert members name value)) other own =
        Run.lookup presence.prototype (.obj members) other own := by
    intro other own apart
    simp only [Run.lookup, OrderedMap.get?_insert_of_ne members value apart.symm]
  constructor
  · rfl
  · rfl
  · simp [Presence.has_eq_isSome_lookup, Run.lookup]
  · intro other apart
    simp only [Presence.has_eq_isSome_lookup, sameLookup other presence.own apart]
  · intro other apart
    simp only [Presence.valueAt_eq_getD_lookup, sameLookup other false apart]

/-- Both keywords name the property that is missing. -/
theorem reportsMissing_requiredViolation (place : Place) (other name : String) :
    (requiredViolation place other).reportsMissing place.instancePath name = (other == name) := by
  simp only [Violation.reportsMissing, requiredViolation, beq_self_eq_true, Bool.true_and]
  rfl

theorem reportsMissing_dependencyViolation (place : Place) (trigger : String)
    (names : List String) (other name : String) :
    (dependencyViolation place trigger names other).reportsMissing place.instancePath name =
      (other == name) := by
  simp only [Violation.reportsMissing, dependencyViolation, beq_self_eq_true, Bool.true_and]
  rfl

section Paths

/-- What a schema finds in a value lies at the value's place or below. -/
theorem at_or_below (presence : Presence) (schema : Schema) (place : Place) :
    ∀ violation ∈ schema.violations presence place,
      place.instancePath.segments <+: violation.instancePath.segments := by
  intro violation found
  have further : ∀ (path : Pointer) (name : String),
      place.instancePath.segments <+: path.segments →
        place.instancePath.segments <+: (path.key name).segments :=
    fun path name below => below.trans (List.prefix_append path.segments [.key name])
  have anywhere : Pointer → String → True → True := fun _ _ => id
  exact (paths_of_mem_violations further anywhere presence schema place List.prefix_rfl trivial
    violation found).1

/-- What the schemas of the properties find lies strictly below. -/
theorem withoutMissing_propertyViolations (presence : Presence) (place : Place) (name : String)
    (entries : List (String × Schema)) :
    withoutMissing place.instancePath name (propertyViolations presence place entries) =
      propertyViolations presence place entries := by
  apply List.filter_eq_self.mpr
  intro violation found
  rcases mem_propertyViolations found with ⟨property, schema, -, -, inside⟩
  have below := (at_or_below presence schema _ violation inside).length_le
  have elsewhere : violation.instancePath ≠ place.instancePath := by
    intro same
    simp only [same, Pointer.segments_key, List.length_append, List.length_singleton] at below
    omega
  simp [Violation.reportsMissing, elsewhere]

end Paths

section Keywords

variable {presence : Presence} {name : String} {before after : Json}
  (gains : Gains presence name before after)

include gains

theorem Gains.missing_eq (names : List String) :
    missing presence after names = (missing presence before names).filter (· ≠ name) := by
  rw [missing, missing, List.filter_filter]
  apply List.filter_congr
  intro other _
  by_cases same : other = name
  · simp [same, gains.gained]
  · simp [same, gains.sameHas other same]

/-- Reports of what is missing, one for each name. -/
theorem Gains.reports_eq (path : Pointer) (report : String → Violation)
    (tells : ∀ other, (report other).reportsMissing path name = (other == name))
    (names : List String) :
    (missing presence after names).map report =
      withoutMissing path name ((missing presence before names).map report) := by
  rw [withoutMissing, List.filter_map, gains.missing_eq]
  congr 1
  apply List.filter_congr
  intro other _
  simp only [Function.comp_apply, tells, ne_eq, decide_not, beq_eq_decide]

variable (instancePath schemaPath : Pointer)

theorem Gains.propertyDependencyViolations_eq {entries : List (String × Constraint Schema)}
    (noTrigger : ∀ entry ∈ entries, entry.1 ≠ name) :
    propertyDependencyViolations presence ⟨after, instancePath, schemaPath⟩ entries =
      withoutMissing instancePath name
        (propertyDependencyViolations presence ⟨before, instancePath, schemaPath⟩ entries) := by
  induction entries with
  | nil => rfl
  | cons entry rest ih =>
    have later := ih fun entry member => noTrigger entry (List.mem_cons_of_mem _ member)
    rcases entry with ⟨trigger, names | schema⟩
    · have sameTrigger := gains.sameHas trigger (noTrigger _ List.mem_cons_self)
      have reports := gains.reports_eq instancePath
        (dependencyViolation ⟨before, instancePath, schemaPath⟩ trigger names)
        (fun other => reportsMissing_dependencyViolation _ trigger names other name) names
      simp only [propertyDependencyViolations, withoutMissing_append, later, sameTrigger]
      congr 1
      split
      · exact reports
      · rfl
    · exact later

theorem Gains.schemaDependencyViolations_eq {entries : List (String × Constraint Schema)}
    (noTrigger : ∀ entry ∈ entries, entry.1 ≠ name)
    (inside : ∀ trigger schema, (trigger, Constraint.schema schema) ∈ entries → ∀ schemaPath,
      schema.violations presence ⟨after, instancePath, schemaPath⟩ =
        withoutMissing instancePath name
          (schema.violations presence ⟨before, instancePath, schemaPath⟩)) :
    schemaDependencyViolations presence ⟨after, instancePath, schemaPath⟩ entries =
      withoutMissing instancePath name
        (schemaDependencyViolations presence ⟨before, instancePath, schemaPath⟩ entries) := by
  induction entries with
  | nil => simp only [schemaDependencyViolations, withoutMissing_nil]
  | cons entry rest ih =>
    have later := ih (fun entry member => noTrigger entry (List.mem_cons_of_mem _ member))
      fun trigger schema member => inside trigger schema (List.mem_cons_of_mem _ member)
    rcases entry with ⟨trigger, names | schema⟩
    · simp only [schemaDependencyViolations, later]
    · have sameTrigger := gains.sameHas trigger (noTrigger _ List.mem_cons_self)
      simp only [schemaDependencyViolations, withoutMissing_append, later, sameTrigger]
      congr 1
      split
      · exact inside trigger schema List.mem_cons_self _
      · rfl

theorem Gains.propertyViolations_eq {entries : List (String × Schema)}
    (noProperty : ∀ entry ∈ entries, entry.1 ≠ name) :
    propertyViolations presence ⟨after, instancePath, schemaPath⟩ entries =
      withoutMissing instancePath name
        (propertyViolations presence ⟨before, instancePath, schemaPath⟩ entries) := by
  have apart : ∀ other ∈ entries.map Prod.fst, other ≠ name := by
    intro other member
    rcases List.mem_map.mp member with ⟨entry, listed, rfl⟩
    exact noProperty entry listed
  rw [withoutMissing_propertyViolations presence ⟨before, instancePath, schemaPath⟩]
  apply propertyViolations_congr
  · intro other member
    exact gains.sameHas other (apart other member)
  · intro property schema listed _ _ _
    rw [gains.sameValue property (noProperty _ listed)]

end Keywords

/-- A value that gains an inert property violates what it violated before, but for what asks for the
property. -/
theorem Inert.violations_eq {presence : Presence} {name : String} {before after : Json}
    {schema : Schema} (inert : Inert name schema) (gains : Gains presence name before after)
    (instancePath schemaPath : Pointer) :
    schema.violations presence ⟨after, instancePath, schemaPath⟩ =
      withoutMissing instancePath name
        (schema.violations presence ⟨before, instancePath, schemaPath⟩) := by
  induction inert generalizing schemaPath with
  | bool accepts =>
    cases accepts with
    | true => simp only [violations, withoutMissing_nil]
    | false =>
      have kept : (falseViolation ⟨before, instancePath, schemaPath⟩).reportsMissing instancePath
          name = false := Bool.and_false _
      simp only [violations, withoutMissing, List.filter_cons, kept, Bool.not_false, if_true]
      rfl
  | @object object noProperty noTrigger _ onTriggers =>
    rcases object with ⟨required?, properties?, dependencies?, annotations⟩
    have required := gains.reports_eq instancePath
      (requiredViolation ⟨before, instancePath, schemaPath⟩)
      (fun other => reportsMissing_requiredViolation _ other name) (required?.getD [])
    have listed := gains.propertyDependencyViolations_eq instancePath schemaPath noTrigger
    have asked := gains.schemaDependencyViolations_eq instancePath schemaPath noTrigger onTriggers
    have properties := gains.propertyViolations_eq instancePath schemaPath noProperty
    simp only [violations_object, if_pos gains.wasObject, if_pos gains.isObject, requiredViolations_getD,
      dependenciesViolations_getD, propertiesViolations_getD, withoutMissing_append, ← required,
      ← listed, ← asked, ← properties]
    rfl

end Schema

namespace Validator

open Run

/-- Giving an object a property removes exactly the reports that the object lacks it, if nothing but
such reports can come of the property: the other violations stay as they are and in their order. -/
theorem run_repaired {options : Options} {document : Json} {validator : Validator} {name : String}
    (compiles : ofDocument options document = .ok validator)
    (accumulates : options.policy = .accumulateAll) (inert : document.Inert name)
    (members prototype : Json.Members) (value : Json) :
    ∃ violations, run validator.code ⟨.obj members, prototype⟩ = .ok violations ∧
      run validator.code ⟨.obj (OrderedMap.insert members name value), prototype⟩ =
        .ok (withoutMissing .root name violations) := by
  rcases ofDocument_eq_ok compiles with ⟨schema, read, rfl⟩
  have mirrors := Schema.mirrored options.maxDepth document .root 0 schema read
  have inertSchema := Schema.inert_of_mirrors schema document mirrors inert
  have gains := Schema.gains_insert ⟨options.ownProperties, prototype⟩ members name value
  have repaired := inertSchema.violations_eq gains .root .root
  refine ⟨schema.violationsOf options.ownProperties ⟨.obj members, prototype⟩, ?_, ?_⟩
  · rw [run_compiled, accumulates]
    rfl
  · rw [run_compiled, accumulates]
    exact congrArg Except.ok repaired

section Gift

def giftWrapping : Json :=
  .obj [("required", .arr [.str "card"]),
    ("properties", .obj [("box", .obj [("required", .arr [.str "card"])])])]

def giftDocument : Json :=
  .obj [("required", .arr [.str "sender"]), ("dependencies", .obj [("gift", giftWrapping)])]

def giftSchema : Schema :=
  .object {
    required? := some ["sender"]
    dependencies? := some [("gift", .schema (.object {
      required? := some ["card"]
      properties? := some [("box", .object { required? := some ["card"] })] }))] }

def giftOptions : Options := { policy := .accumulateAll }

def giftMembers : Json.Members := [("gift", .bool true), ("box", .obj [])]

theorem inPlace_giftDocument {schema : Json} (inPlace : giftDocument.InPlace schema) :
    schema = giftDocument ∨ schema = giftWrapping := by
  have triggers : giftDocument.get? "dependencies" = some (.obj [("gift", giftWrapping)]) := rfl
  have noTriggers : giftWrapping.get? "dependencies" = none := rfl
  cases inPlace with
  | here => exact .inl rfl
  | trigger asked listed inside =>
    rw [triggers] at asked
    cases asked
    cases List.mem_singleton.mp listed
    cases inside with
    | here => exact .inr rfl
    | trigger asked =>
      rw [noTriggers] at asked
      cases asked

theorem inert_card : giftDocument.Inert "card" := by
  constructor
  · intro schema inPlace
    rcases inPlace_giftDocument inPlace with rfl | rfl <;> decide
  · intro schema inPlace
    rcases inPlace_giftDocument inPlace with rfl | rfl <;> decide

theorem run_repaired_gift :
    giftOptions.policy = .accumulateAll ∧ giftDocument.Inert "card" ∧
      ∃ validator sender card boxCard, ofDocument giftOptions giftDocument = .ok validator ∧
        run validator.code { value := .obj giftMembers } = .ok [sender, card, boxCard] ∧
        run validator.code { value := .obj (OrderedMap.insert giftMembers "card" .null) } =
          .ok [sender, boxCard] := by
  have compiles : ofDocument giftOptions giftDocument = .ok (compiled giftOptions giftSchema) := rfl
  rcases run_repaired compiles rfl inert_card giftMembers [] .null with ⟨violations, first, repaired⟩
  have reported := run_compiled giftOptions giftSchema { value := .obj giftMembers }
  cases reported.symm.trans first
  exact ⟨rfl, inert_card, _, _, _, _, compiles, reported, repaired⟩

end Gift

end Validator

end SchemaCompiler
