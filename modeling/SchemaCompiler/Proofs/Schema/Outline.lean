import SchemaCompiler.Proofs.Emit.Writer
import SchemaCompiler.Proofs.Schema.Grammar

/-!
Outlines: what of a document matters to the compiler. Annotations are left out, as are reserved
triggers, and the triggers that ask for names come before those that ask for schemas. Every value
has an outline, with places that hold nothing readable passed over, so that documents can be
compared before it is known whether they can be read. A document that can be read is compiled to
the code of its outline.
-/

namespace SchemaCompiler.Schema

def namesOf? : Json → Option (List String)
  | .arr items => some (items.filterMap Json.asString?)
  | _ => none

def nameTriggers : Json.Members → List (String × Constraint Schema)
  | [] => []
  | (trigger, value) :: rest =>
    match namesOf? value with
    | some names =>
      if trigger = Dependencies.reservedTrigger then nameTriggers rest
      else (trigger, .names names) :: nameTriggers rest
    | none => nameTriggers rest

mutual

def outline : Json → Schema
  | .bool accepts => .bool accepts
  | .obj members =>
    .object ⟨(OrderedMap.get? members Keyword.required.name).bind namesOf?,
      propertiesIn members, dependenciesIn members, []⟩
  | _ => .bool true

def propertiesIn : List (String × Json) → Option (List (String × Schema))
  | [] => none
  | (name, value) :: rest =>
    if name = Keyword.properties.name then propertiesOf? value else propertiesIn rest

def propertiesOf? : Json → Option (List (String × Schema))
  | .obj inner => some (outlines inner)
  | _ => none

def outlines : List (String × Json) → List (String × Schema)
  | [] => []
  | (name, value) :: rest => (name, outline value) :: outlines rest

def dependenciesIn : List (String × Json) → Option (List (String × Constraint Schema))
  | [] => none
  | (name, value) :: rest =>
    if name = Keyword.dependencies.name then dependenciesOf? value else dependenciesIn rest

def dependenciesOf? : Json → Option (List (String × Constraint Schema))
  | .obj inner => some (nameTriggers inner ++ schemaTriggers inner)
  | _ => none

def schemaTriggers : List (String × Json) → List (String × Constraint Schema)
  | [] => []
  | (trigger, value) :: rest =>
    if trigger = Dependencies.reservedTrigger ∨ value.kind = .array then schemaTriggers rest
    else (trigger, .schema (outline value)) :: schemaTriggers rest

end

theorem propertiesIn_eq_get? (members : Json.Members) :
    propertiesIn members =
      (OrderedMap.get? members Keyword.properties.name).bind propertiesOf? := by
  induction members with
  | nil => rfl
  | cons entry rest ih =>
    obtain ⟨name, value⟩ := entry
    by_cases here : name = Keyword.properties.name
    · simp only [propertiesIn, OrderedMap.get?_cons, here, if_true, Option.bind_some]
    · simp only [propertiesIn, OrderedMap.get?_cons, here, if_false, ih]

theorem dependenciesIn_eq_get? (members : Json.Members) :
    dependenciesIn members =
      (OrderedMap.get? members Keyword.dependencies.name).bind dependenciesOf? := by
  induction members with
  | nil => rfl
  | cons entry rest ih =>
    obtain ⟨name, value⟩ := entry
    by_cases here : name = Keyword.dependencies.name
    · simp only [dependenciesIn, OrderedMap.get?_cons, here, if_true, Option.bind_some]
    · simp only [dependenciesIn, OrderedMap.get?_cons, here, if_false, ih]

/-- An object's outline depends on what is found under the keywords. -/
theorem outline_obj (members : Json.Members) :
    outline (.obj members) =
      .object ⟨(OrderedMap.get? members Keyword.required.name).bind namesOf?,
        (OrderedMap.get? members Keyword.properties.name).bind propertiesOf?,
        (OrderedMap.get? members Keyword.dependencies.name).bind dependenciesOf?, []⟩ := by
  rw [outline, propertiesIn_eq_get?, dependenciesIn_eq_get?]

theorem outlines_eq_map (inner : Json.Members) :
    outlines inner = inner.map fun entry => (entry.1, outline entry.2) := by
  induction inner with
  | nil => rfl
  | cons entry rest ih => rw [outlines, ih, List.map_cons]

theorem nameTriggers_append (left right : Json.Members) :
    nameTriggers (left ++ right) = nameTriggers left ++ nameTriggers right := by
  induction left with
  | nil => rfl
  | cons entry rest ih =>
    obtain ⟨trigger, value⟩ := entry
    simp only [List.cons_append, nameTriggers, ih]
    split
    · split <;> rfl
    · rfl

theorem schemaTriggers_append (left right : Json.Members) :
    schemaTriggers (left ++ right) = schemaTriggers left ++ schemaTriggers right := by
  induction left with
  | nil => rfl
  | cons entry rest ih =>
    obtain ⟨trigger, value⟩ := entry
    simp only [List.cons_append, schemaTriggers, ih]
    split <;> rfl

theorem namesOf?_names (names : List String) : namesOf? (.arr (names.map .str)) = some names := by
  simp only [namesOf?, List.filterMap_map, Option.some.injEq]
  exact List.filterMap_some

theorem namesOf?_of_kind {value : Json} (noArray : value.kind ≠ .array) : namesOf? value = none := by
  cases value with
  | arr items => exact absurd rfl noArray
  | _ => rfl

section Triggers

variable {trigger : String} {value : Json} (rest : Json.Members)

theorem nameTriggers_cons_reserved (value : Json) :
    nameTriggers ((Dependencies.reservedTrigger, value) :: rest) = nameTriggers rest := by
  rw [nameTriggers]
  cases namesOf? value with
  | none => rfl
  | some names => exact if_pos rfl

theorem nameTriggers_cons_names (unreserved : trigger ≠ Dependencies.reservedTrigger)
    {names : List String} (list : namesOf? value = some names) :
    nameTriggers ((trigger, value) :: rest) = (trigger, .names names) :: nameTriggers rest := by
  simp only [nameTriggers, list, if_neg unreserved]

theorem nameTriggers_cons_schema (noList : value.kind ≠ .array) :
    nameTriggers ((trigger, value) :: rest) = nameTriggers rest := by
  rw [nameTriggers, namesOf?_of_kind noList]

theorem schemaTriggers_cons_reserved (value : Json) :
    schemaTriggers ((Dependencies.reservedTrigger, value) :: rest) = schemaTriggers rest := by
  rw [schemaTriggers, if_pos (.inl rfl)]

theorem schemaTriggers_cons_names (names : List Json) :
    schemaTriggers ((trigger, .arr names) :: rest) = schemaTriggers rest := by
  rw [schemaTriggers, if_pos (.inr rfl)]

theorem schemaTriggers_cons_schema (unreserved : trigger ≠ Dependencies.reservedTrigger)
    (noList : value.kind ≠ .array) :
    schemaTriggers ((trigger, value) :: rest) =
      (trigger, .schema (outline value)) :: schemaTriggers rest := by
  rw [schemaTriggers, if_neg (not_or.mpr ⟨unreserved, noList⟩)]

end Triggers

/-- The members of a `dependencies` object by what becomes of them: those of a reserved name, lists
of names, and what may be a schema. -/
theorem triggerInduction {motive : Json.Members → Prop} (nil : motive [])
    (reserved : ∀ value rest, motive rest →
      motive ((Dependencies.reservedTrigger, value) :: rest))
    (names : ∀ trigger items rest, trigger ≠ Dependencies.reservedTrigger → motive rest →
      motive ((trigger, .arr items) :: rest))
    (schema : ∀ trigger value rest, trigger ≠ Dependencies.reservedTrigger →
      value.kind ≠ .array → motive rest → motive ((trigger, value) :: rest)) :
    ∀ inner, motive inner
  | [] => nil
  | (trigger, value) :: rest => by
    have later := triggerInduction nil reserved names schema rest
    by_cases isReserved : trigger = Dependencies.reservedTrigger
    · subst isReserved
      exact reserved value rest later
    by_cases list : value.kind = .array
    · cases value with
      | arr items => exact names trigger items rest isReserved later
      | _ => cases list
    · exact schema trigger value rest isReserved list later

theorem Mirrors.kind_ne_array {value : Json} {schema : Schema} (mirrors : Mirrors value schema) :
    value.kind ≠ .array := by
  cases mirrors <;> simp [Json.kind]

end SchemaCompiler.Schema

namespace SchemaCompiler.Emit

open Code Schema

structure WritesLike (schema other : Schema) : Prop where
  alwaysValid : schema.alwaysValid = other.alwaysValid
  write : ∀ context, write context schema = write context other

section Triggers

theorem writeSchemaDependencies_nameTriggers (context : Context) (valid : Name)
    (inner : Json.Members) (rest : List (String × Constraint Schema)) :
    writeSchemaDependencies context valid (nameTriggers inner ++ rest) =
      writeSchemaDependencies context valid rest := by
  induction inner using triggerInduction with
  | nil => rfl
  | reserved value later ih => rw [nameTriggers_cons_reserved, ih]
  | names trigger items later unreserved ih =>
    rw [nameTriggers_cons_names _ unreserved rfl, List.cons_append, writeSchemaDependencies, ih]
  | schema trigger value later unreserved noList ih => rw [nameTriggers_cons_schema _ noList, ih]

theorem propertyHalf_schemaTriggers (inner : Json.Members) :
    Dependencies.propertyHalf (schemaTriggers inner) = [] := by
  induction inner using triggerInduction with
  | nil => rfl
  | reserved value later ih => rw [schemaTriggers_cons_reserved, ih]
  | names trigger items later unreserved ih => rw [schemaTriggers_cons_names, ih]
  | schema trigger value later unreserved noList ih =>
    rw [schemaTriggers_cons_schema _ unreserved noList]
    exact ih

variable {inner : Json.Members} {entries : List (String × Constraint Schema)}

theorem propertyHalf_nameTriggers (each : Entrywise MirrorsConstraint inner entries) :
    Dependencies.propertyHalf (nameTriggers inner) = Dependencies.propertyHalf entries := by
  induction each with
  | nil => rfl
  | @cons trigger value constraint _ _ here _ ih =>
    cases here with
    | names names =>
      by_cases reserved : trigger = Dependencies.reservedTrigger
      · subst reserved
        rw [nameTriggers_cons_reserved]
        simpa [Dependencies.propertyHalf] using ih
      · rw [nameTriggers_cons_names _ reserved (namesOf?_names names)]
        simpa [Dependencies.propertyHalf, reserved] using ih
    | schema inside =>
      rw [nameTriggers_cons_schema _ inside.kind_ne_array]
      exact ih

theorem writeSchemaDependencies_schemaTriggers (each : Entrywise MirrorsConstraint inner entries)
    (inside : ∀ trigger schema, (trigger, Constraint.schema schema) ∈ entries →
      ∀ value, Mirrors value schema → WritesLike schema (outline value))
    (context : Context) (valid : Name) :
    writeSchemaDependencies context valid (schemaTriggers inner) =
      writeSchemaDependencies context valid entries := by
  induction each with
  | nil => rfl
  | @cons trigger value constraint _ _ here _ ih =>
    have later := ih fun other schema member =>
      inside other schema (List.mem_cons_of_mem _ member)
    cases here with
    | names names =>
      rw [schemaTriggers_cons_names, writeSchemaDependencies]
      exact later
    | @schema _ schema mirrors =>
      have like := inside trigger schema List.mem_cons_self value mirrors
      by_cases reserved : trigger = Dependencies.reservedTrigger
      · subst reserved
        rw [schemaTriggers_cons_reserved, writeSchemaDependencies, if_pos (.inl rfl)]
        exact later
      · rw [schemaTriggers_cons_schema _ reserved mirrors.kind_ne_array]
        simp only [writeSchemaDependencies, later, like.alwaysValid, like.write]

end Triggers

theorem writeProperties_outlines {inner : Json.Members} {entries : List (String × Schema)}
    (each : Entrywise Mirrors inner entries)
    (inside : ∀ entry ∈ entries, ∀ value, Mirrors value entry.2 → WritesLike entry.2 (outline value))
    (context : Context) (valid : Name) :
    writeProperties context valid (outlines inner) = writeProperties context valid entries := by
  induction each with
  | nil => rfl
  | @cons property value schema _ _ here _ ih =>
    have later := ih fun entry member => inside entry (List.mem_cons_of_mem _ member)
    have like := inside (property, schema) List.mem_cons_self value here
    simp only [outlines, writeProperties, later, ← like.alwaysValid, like.write]

theorem writePropertiesKeyword_outline {value? : Option Json}
    {properties? : Option (List (String × Schema))}
    (stated : Stated Mirrors value? properties?)
    (inside : ∀ entries, properties? = some entries → ∀ entry ∈ entries,
      ∀ value, Mirrors value entry.2 → WritesLike entry.2 (outline value)) (context : Context) :
    writePropertiesKeyword context (value?.bind propertiesOf?) =
      writePropertiesKeyword context properties? := by
  cases stated with
  | absent => rfl
  | present each =>
    simp only [Option.bind_some, propertiesOf?, writePropertiesKeyword,
      writeProperties_outlines each (inside _ rfl)]

theorem writeDependenciesKeyword_outline {value? : Option Json}
    {dependencies? : Option (List (String × Constraint Schema))}
    (stated : Stated MirrorsConstraint value? dependencies?)
    (inside : ∀ entries, dependencies? = some entries →
      ∀ trigger schema, (trigger, Constraint.schema schema) ∈ entries →
        ∀ value, Mirrors value schema → WritesLike schema (outline value)) (context : Context) :
    writeDependenciesKeyword context (value?.bind dependenciesOf?) =
      writeDependenciesKeyword context dependencies? := by
  cases stated with
  | absent => rfl
  | @present inner entries each =>
    have halves : Dependencies.propertyHalf (nameTriggers inner ++ schemaTriggers inner) =
        Dependencies.propertyHalf entries := by
      have appended : Dependencies.propertyHalf (nameTriggers inner ++ schemaTriggers inner) =
          Dependencies.propertyHalf (nameTriggers inner) ++
            Dependencies.propertyHalf (schemaTriggers inner) := List.filterMap_append
      rw [appended, propertyHalf_schemaTriggers, List.append_nil, propertyHalf_nameTriggers each]
    simp only [Option.bind_some, dependenciesOf?, writeDependenciesKeyword, halves,
      writeSchemaDependencies_nameTriggers,
      writeSchemaDependencies_schemaTriggers each (inside _ rfl)]

theorem isSome_of_stated {related : Json → β → Prop} (read : Json → Option γ)
    (reads : ∀ inner, (read (.obj inner)).isSome = true) {value? : Option Json}
    {entries? : Option (List (String × β))} (stated : Stated related value? entries?) :
    entries?.isSome = (value?.bind read).isSome := by
  cases stated with
  | absent => rfl
  | present => exact (reads _).symm

/-- What a document reads as writes the same code as the outline of the document. -/
theorem writesLike_outline (schema : Schema) :
    ∀ value, Mirrors value schema → WritesLike schema (outline value) := by
  induction schema using Schema.induction with
  | bool accepts =>
    intro value mirrors
    cases mirrors
    exact ⟨rfl, fun _ => rfl⟩
  | object required? properties? dependencies? annotations onProperties onDependencies =>
    intro value mirrors
    cases mirrors with
    | @object members _ _ _ _ required properties dependencies others =>
      change OrderedMap.get? members Keyword.required.name = _ at required
      change Stated _ (OrderedMap.get? members Keyword.properties.name) _ at properties
      change Stated _ (OrderedMap.get? members Keyword.dependencies.name) _ at dependencies
      have names : (OrderedMap.get? members Keyword.required.name).bind namesOf? = required? := by
        rw [required]
        cases required? with
        | none => rfl
        | some names => exact namesOf?_names names
      rw [outline_obj, names]
      constructor
      · have hasProperties := isSome_of_stated propertiesOf? (fun _ => rfl) properties
        have hasDependencies := isSome_of_stated dependenciesOf? (fun _ => rfl) dependencies
        simp only [alwaysValid, SchemaObject.hasRules, Keyword.all, List.any_cons, List.any_nil,
          SchemaObject.hasKeyword, hasProperties, hasDependencies]
      · intro context
        simp only [write, writePropertiesKeyword_outline properties onProperties,
          writeDependenciesKeyword_outline dependencies onDependencies]

end SchemaCompiler.Emit
