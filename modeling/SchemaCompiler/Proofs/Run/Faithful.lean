import SchemaCompiler.Proofs.Run.MissingChecks

/-!
The code of a schema finds the violations of the schema, at every place and from every state. The
induction is on the schema; what carries it is that code writes only to names that were still to
come, so that the counters and data references of the schemas around it stay what they were.
-/

namespace SchemaCompiler.Emit

open Code Run

structure Stands (context : Context) (supply : NameSupply) (state : State) (location : Location) :
    Prop where
  bound : OrderedMap.get? state.data context.data = some location
  old : ¬ supply.Pending context.data

def MemberName (supply : NameSupply) (valid name : Name) : Prop :=
  name = valid ∨ supply.Pending name

theorem Stands.keep {context : Context} {supply later : NameSupply} {before state : State}
    {location : Location} {written : Name → Prop} (stands : Stands context supply before location)
    (order : supply.Precedes later) (keeps : Keeps written supply.Pending before state) :
    Stands context later state location where
  bound := (keeps.data context.data stands.old).trans stands.bound
  old pending := stands.old (pending.of_precedes order)

theorem MemberName.of_precedes {supply later : NameSupply} {valid : Name}
    (order : supply.Precedes later) (name : Name) (written : MemberName later valid name) :
    MemberName supply valid name := written.imp_right fun pending => pending.of_precedes order

/-- After code from a later supply, what was kept is still kept. -/
theorem keeps_of_precedes {supply later : NameSupply} {valid : Name} {before after : State}
    (keeps : Keeps (MemberName later valid) later.Pending before after)
    (order : supply.Precedes later) : Keeps (MemberName supply valid) supply.Pending before after :=
  keeps.mono (MemberName.of_precedes order) fun _ pending => pending.of_precedes order

/-- One piece of code and then another one, where what each writes to depends on the names that are
still to come before it. -/
theorem reports_andThen {prototype : Json.Members} {context : Context} {supply : NameSupply}
    {before : State} {location : Location} {first rest : Writer} {found more : List Violation}
    (written : NameSupply → Name → Prop)
    (earlier : ∀ {supply later}, supply.Precedes later →
      ∀ name, written later name → written supply name)
    (stands : Stands context supply before location)
    (head : Reports prototype context.options.policy (first.code supply) before found
      (Keeps (written supply) supply.Pending before))
    (later : ∀ state, Stands context (first.after supply) state location →
      Reports prototype context.options.policy (rest.code (first.after supply)) state more
        (Keeps (written (first.after supply)) (first.after supply).Pending state)) :
    Reports prototype context.options.policy ((first.andThen rest).code supply) before
      (found ++ more) (Keeps (written supply) supply.Pending before) := by
  have order := first.grows supply
  apply head.append
  intro state keeps _ _
  apply (later state (stands.keep order keeps)).imp
  intro after further
  exact keeps.trans (further.mono (earlier order) fun _ pending => pending.of_precedes order)

/-- The code of the schema finds its violations wherever it stands. -/
def Faithful (prototype : Json.Members) (schema : Schema) : Prop :=
  ∀ (context : Context) (supply : NameSupply) (before : State) (location : Location),
    Stands context supply before location →
    Reports prototype context.options.policy ((write context schema).code supply) before
      (schema.violations (context.presence prototype) (context.place location))
      (Keeps supply.Pending supply.Pending before)

structure Applied (supply : NameSupply) (valid : Name) (found : List Violation)
    (before after : State) : Prop where
  keeps : Keeps (MemberName supply valid) supply.Pending before after
  told : OrderedMap.get? after.vars valid = some (.bool found.isEmpty)

theorem eval_noErrorsSince {prototype : Json.Members} {name : Name} {state : State} {count : Nat}
    {found : List Violation}
    (counted : OrderedMap.get? state.vars name = some (.ofNat count))
    (grown : state.violations.length = count + found.length) :
    eval prototype (.noErrorsSince name) state = .ok (.bool found.isEmpty) state := by
  have read : readVariable name state = .ok (.ofNat count) state := by
    rw [readVariable, counted]
  have number : violationCount state = .ok (count + found.length) state := by
    rw [violationCount, grown]
  have same : (some count == some (count + found.length)) = found.isEmpty := by
    cases found with
    | nil => exact beq_self_eq_true _
    | cons first others =>
      have longer : count ≠ count + (first :: others).length := by
        rw [List.length_cons]
        omega
      exact beq_false_of_ne fun equal => longer (Option.some.inj equal)
  rw [eval, exec_bind_ok read, exec_bind_ok number, Json.asNat?_ofNat, same]
  rfl

section Subschema

variable {prototype : Json.Members} {schema : Schema} (faithful : Faithful prototype schema)
  {context : Context} {supply : NameSupply} {before : State} {location : Location}

include faithful

theorem reports_counted (stands : Stands context supply before location) (valid : Name) :
    Reports prototype context.options.policy
      ((Writer.declare beforeStem .errorCount fun counter =>
        (write context schema).andThen (.stmts [.assign valid (.noErrorsSince counter)])).code
        supply)
      before (schema.violations (context.presence prototype) (context.place location))
      (Applied supply valid
        (schema.violations (context.presence prototype) (context.place location)) before) := by
  have pending := supply.pending_fresh isStem_before
  have order := supply.precedes_fresh beforeStem
  have gone := supply.not_pending_fresh isStem_before
  apply Reports.declare (.ofNat before.violations.length) rfl
  have declared : Keeps (MemberName supply valid) supply.Pending before
      (before.setVar (supply.fresh beforeStem).1 (.ofNat before.violations.length)) :=
    .setVar before _ (.inr pending)
  have checks := faithful context (supply.fresh beforeStem).2 _ location (stands.keep order declared)
  rw [← List.append_nil (schema.violations _ _)]
  apply checks.append
  intro state keeps grown _
  have counted : OrderedMap.get? state.vars (supply.fresh beforeStem).1 =
      some (.ofNat before.violations.length) :=
    (keeps.vars _ gone).trans (OrderedMap.get?_insert_self _ _ _)
  have longer := congrArg List.length grown
  rw [List.length_append] at longer
  apply Reports.assign _ (eval_noErrorsSince counted longer)
  rw [List.append_nil]
  refine ⟨?_, OrderedMap.get?_insert_self _ _ _⟩
  have inner : Keeps (MemberName supply valid) supply.Pending _ state :=
    keeps.mono (fun _ still => .inr (still.of_precedes order)) fun _ still => still.of_precedes order
  exact (declared.trans inner).trans (.setVar state _ (.inl rfl))

theorem reports_subschema_same (stands : Stands context supply before location)
    (keyword member : String) (valid : Name) :
    Reports prototype context.options.policy
      ((writeSubschema context keyword member none valid fun inner => write inner schema).code
        supply)
      before
      (schema.violations (context.presence prototype) { context.place location with
        schemaPath := (context.schemaPath.key keyword).key member })
      (Applied supply valid
        (schema.violations (context.presence prototype) { context.place location with
          schemaPath := (context.schemaPath.key keyword).key member }) before) := by
  have inner : Stands (context.descend keyword member none) supply before location :=
    ⟨stands.bound, stands.old⟩
  exact reports_counted faithful inner valid

theorem reports_subschema_property (stands : Stands context supply before location)
    (keyword member property : String) (valid : Name) :
    let place : Schema.Place := {
      value := (context.presence prototype).valueAt location.value property
      instancePath := location.path.key property
      schemaPath := (context.schemaPath.key keyword).key member }
    Reports prototype context.options.policy
      ((writeSubschema context keyword member (some property) valid fun inner =>
        write inner schema).code supply)
      before (schema.violations (context.presence prototype) place)
      (Applied supply valid (schema.violations (context.presence prototype) place) before) := by
  have pending := supply.pending_fresh isStem_data
  have order := supply.precedes_fresh Name.data.text
  intro place
  apply Reports.bindData stands.bound
  have rebound : Keeps (MemberName supply valid) supply.Pending before
      (before.setData (supply.fresh Name.data.text).1 ⟨place.value, place.instancePath⟩) :=
    .setData before _ pending
  have inner : Stands (context.descend keyword member (some (supply.fresh Name.data.text).1))
      (supply.fresh Name.data.text).2
      (before.setData (supply.fresh Name.data.text).1 ⟨place.value, place.instancePath⟩)
      ⟨place.value, place.instancePath⟩ :=
    ⟨OrderedMap.get?_insert_self _ _ _, supply.not_pending_fresh isStem_data⟩
  apply (reports_counted faithful inner valid).imp
  intro after applied
  exact ⟨rebound.trans (keeps_of_precedes applied.keeps order), applied.told⟩

end Subschema

section Members

variable {prototype : Json.Members} {context : Context} {supply : NameSupply} {before : State}
  {location : Location} {valid : Name}

theorem reports_settle {post : State → Prop} (names : NameSupply)
    (known : context.options.policy = .stopAtFirst →
      OrderedMap.get? before.vars valid = some (.bool true))
    (left : post before) :
    Reports prototype context.options.policy ((writeSettle context valid).code names) before []
      post := by
  unfold writeSettle
  cases policy : context.options.policy with
  | accumulateAll => exact .nil left
  | stopAtFirst =>
    have refused : holds prototype (.negate (.var valid)) before = .ok false before := by
      have read := holds_var prototype (known policy)
      rw [Expr.negate, holds_not]
      · exact exec_bind_ok read
      · rintro _ ⟨⟩
      · rintro _ ⟨⟩
    exact .cond refused rfl (.nil left)

theorem violations_of_alwaysValid {schema : Schema} (always : schema.alwaysValid = true)
    (presence : Schema.Presence) (place : Schema.Place) :
    schema.violations presence place = [] := by
  match schema with
  | .bool true => rfl
  | .object ⟨none, none, none, _⟩ =>
    simp only [Schema.violations_object, Schema.requiredViolations, Schema.dependenciesViolations,
      Schema.propertiesViolations, List.append_nil, ite_self]

structure Branched (context : Context) (supply : NameSupply) (valid : Name)
    (found : List Violation) (before after : State) : Prop where
  keeps : Keeps (MemberName supply valid) supply.Pending before after
  told : context.options.policy = .stopAtFirst →
    OrderedMap.get? after.vars valid = some (.bool found.isEmpty)

theorem Applied.branched {found : List Violation} {after : State}
    (applied : Applied supply valid found before after) :
    Branched context supply valid found before after := ⟨applied.keeps, fun _ => applied.told⟩

theorem reports_settled {branches : Block} {found : List Violation} (names : NameSupply)
    (branched : Reports prototype context.options.policy branches before found
      (Branched context supply valid found before)) :
    Reports prototype context.options.policy
      (branches ++ (writeSettle context valid).code names) before found
      (Keeps (MemberName supply valid) supply.Pending before) := by
  rw [show found = found ++ [] from (List.append_nil found).symm]
  apply branched.append
  intro state left _ silent
  have known (stops : context.options.policy = .stopAtFirst) :
      OrderedMap.get? state.vars valid = some (.bool true) := by
    rw [left.told stops, silent stops]
    rfl
  exact reports_settle names known left.keeps

theorem reports_schemaDependency {schema : Schema} (faithful : Faithful prototype schema)
    (stands : Stands context supply before location) (trigger : String) :
    Reports prototype context.options.policy
      ((writeSchemaDependency context valid trigger fun inner => write inner schema).code supply)
      before
      (if (context.presence prototype).has location.value trigger = true then
        schema.violations (context.presence prototype) { context.place location with
          schemaPath := (context.schemaPath.key Keyword.dependencies.name).key trigger }
      else [])
      (Keeps (MemberName supply valid) supply.Pending before) := by
  apply reports_settled
  apply Reports.cond (holds_present prototype stands.bound trigger) rfl
  split
  · have applied := reports_subschema_same faithful stands Keyword.dependencies.name trigger valid
    exact applied.imp fun _ => Applied.branched
  · apply Reports.assign (.bool true) rfl
    exact ⟨.setVar before _ (.inl rfl), fun _ => OrderedMap.get?_insert_self _ _ _⟩

theorem reports_property {schema : Schema} (faithful : Faithful prototype schema)
    (stands : Stands context supply before location) (property : String) :
    Reports prototype context.options.policy
      ((writeProperty context valid property fun inner => write inner schema).code supply) before
      (if (context.presence prototype).has location.value property = true then
        schema.violations (context.presence prototype) {
          value := (context.presence prototype).valueAt location.value property
          instancePath := location.path.key property
          schemaPath := (context.schemaPath.key Keyword.properties.name).key property }
      else [])
      (Keeps (MemberName supply valid) supply.Pending before) := by
  have applied := reports_subschema_property faithful stands Keyword.properties.name property
    property valid
  have presence := holds_present prototype stands.bound property
  apply reports_settled
  cases policy : context.options.policy with
  | accumulateAll =>
    rw [policy] at applied
    apply Reports.cond presence rfl
    split
    · exact applied.imp fun _ => Applied.branched
    · refine .nil ⟨.refl before, ?_⟩
      intro stops
      cases policy.symm.trans stops
  | stopAtFirst =>
    rw [policy] at applied
    apply Reports.cond presence rfl
    split
    · exact applied.imp fun _ => Applied.branched
    · apply Reports.assign (.bool true) rfl
      exact ⟨.setVar before _ (.inl rfl), fun _ => OrderedMap.get?_insert_self _ _ _⟩

theorem reports_schemaDependencies (entries : List (String × Constraint Schema))
    (faithful : ∀ trigger schema, (trigger, Constraint.schema schema) ∈ entries →
      Faithful prototype schema)
    (stands : Stands context supply before location) :
    Reports prototype context.options.policy
      ((writeSchemaDependencies context valid entries).code supply) before
      (Schema.schemaDependencyViolations (context.presence prototype) (context.place location)
        entries)
      (Keeps (MemberName supply valid) supply.Pending before) := by
  induction entries generalizing supply before with
  | nil => exact .nil (.refl before)
  | cons entry rest ih =>
    have others : ∀ trigger schema, (trigger, Constraint.schema schema) ∈ rest →
        Faithful prototype schema := by
      intro trigger schema member
      exact faithful trigger schema (List.mem_cons_of_mem _ member)
    obtain ⟨trigger, names | schema⟩ := entry
    · exact ih others stands
    · have body := faithful trigger schema List.mem_cons_self
      unfold writeSchemaDependencies Schema.schemaDependencyViolations
      split
      · next skipped =>
        have none : (if trigger ≠ "__proto__" ∧
            (context.presence prototype).has (context.place location).value trigger = true then
              schema.violations (context.presence prototype) { context.place location with
                schemaPath := ((context.place location).schemaPath.key "dependencies").key
                  trigger }
            else []) = [] := by
          rcases skipped with reserved | always
          · rw [if_neg fun both => both.1 reserved]
          · rw [violations_of_alwaysValid always, ite_self]
        rw [none]
        exact ih others stands
      · next kept =>
        have ordinary : trigger ≠ "__proto__" := fun same => kept (.inl same)
        simp only [ordinary, ne_eq, not_false_eq_true, true_and]
        apply reports_andThen (MemberName · valid) MemberName.of_precedes stands
          (reports_schemaDependency body stands trigger)
        intro state inner
        exact ih others inner

theorem reports_properties (entries : List (String × Schema))
    (faithful : ∀ entry ∈ entries, Faithful prototype entry.2)
    (stands : Stands context supply before location) :
    Reports prototype context.options.policy
      ((writeProperties context valid entries).code supply) before
      (Schema.propertyViolations (context.presence prototype) (context.place location) entries)
      (Keeps (MemberName supply valid) supply.Pending before) := by
  induction entries generalizing supply before with
  | nil => exact .nil (.refl before)
  | cons entry rest ih =>
    have others : ∀ entry ∈ rest, Faithful prototype entry.2 := by
      intro entry member
      exact faithful entry (List.mem_cons_of_mem _ member)
    have body := faithful entry List.mem_cons_self
    obtain ⟨property, schema⟩ := entry
    unfold writeProperties Schema.propertyViolations
    split
    · next always =>
      rw [violations_of_alwaysValid always, ite_self]
      exact ih others stands
    · apply reports_andThen (MemberName · valid) MemberName.of_precedes stands
        (reports_property body stands property)
      intro state inner
      exact ih others inner

end Members

section Keywords

variable {prototype : Json.Members} {context : Context} {supply : NameSupply} {before : State}
  {location : Location}

theorem reports_guard (keyword : Keyword) {inside : Writer} {found : List Violation}
    {post : State → Prop} (bound : OrderedMap.get? before.data context.data = some location)
    (checks : Reports prototype context.options.policy (inside.code supply) before found post)
    (left : post before) :
    Reports prototype context.options.policy
      ((Writer.cond (guardTest context keyword) inside).code supply) before
      (if location.value.kind = .object then found else []) post := by
  have objects : keyword.appliesTo = .object := by cases keyword <;> rfl
  have guard := holds_isType prototype bound keyword.appliesTo
  rw [objects] at guard
  unfold guardTest
  rw [objects]
  apply Reports.cond guard rfl
  by_cases isObject : location.value.kind = .object
  · rw [if_pos isObject, if_pos (beq_iff_eq.mpr isObject)]
    exact checks
  · rw [if_neg isObject, if_neg fun equal => isObject (beq_iff_eq.mp equal)]
    exact .nil left

theorem reports_requiredKeyword (stands : Stands context supply before location)
    (required? : Option (List String)) :
    Reports prototype context.options.policy
      ((writeRequiredKeyword context required?).code supply) before
      (if location.value.kind = .object then
        Schema.requiredViolations (context.presence prototype) (context.place location) required?
      else [])
      (Keeps supply.Pending supply.Pending before) := by
  cases required? with
  | none =>
    simp only [Schema.requiredViolations, ite_self]
    exact .nil (.refl before)
  | some names =>
    have checks : Reports prototype _ _ before _ _ := reports_required stands.bound names supply
    have widened : Reports prototype _ _ before _ (Keeps supply.Pending supply.Pending before) :=
      checks.imp fun after keeps => keeps.mono (fun _ still => still) fun _ => False.elim
    exact reports_guard .required stands.bound widened (.refl before)

/-- What the members of a keyword write to, their `valid` included, was still to come. -/
theorem keeps_of_member {stem : String} (proper : IsStem stem) {after : State}
    (keeps : Keeps (MemberName (supply.fresh stem).2 (supply.fresh stem).1)
      (supply.fresh stem).2.Pending before after) :
    Keeps supply.Pending supply.Pending before after := by
  have order := supply.precedes_fresh stem
  apply keeps.mono
  · rintro name (same | still)
    · exact same ▸ supply.pending_fresh proper
    · exact still.of_precedes order
  · exact fun _ still => still.of_precedes order

theorem reports_dependenciesKeyword (stands : Stands context supply before location)
    (dependencies? : Option (List (String × Constraint Schema)))
    (faithful : ∀ entries, dependencies? = some entries →
      ∀ trigger schema, (trigger, Constraint.schema schema) ∈ entries → Faithful prototype schema) :
    Reports prototype context.options.policy
      ((writeDependenciesKeyword context dependencies?).code supply) before
      (if location.value.kind = .object then
        Schema.dependenciesViolations (context.presence prototype) (context.place location)
          dependencies?
      else [])
      (Keeps supply.Pending supply.Pending before) := by
  cases dependencies? with
  | none =>
    simp only [Schema.dependenciesViolations, ite_self]
    exact .nil (.refl before)
  | some entries =>
    have same : Keeps nowhere supply.Pending before before := .refl before
    have fresh : Stands context (supply.fresh validStem).2 before location :=
      stands.keep (supply.precedes_fresh validStem) same
    apply reports_guard .dependencies stands.bound _ (.refl before)
    rw [Schema.dependenciesViolations, propertyDependencyViolations_eq]
    apply reports_propertyDependencies stands.bound
    intro names order state keeps
    have inner : Keeps (MemberName (supply.fresh validStem).2 (supply.fresh validStem).1)
        (supply.fresh validStem).2.Pending before state :=
      keeps.mono (fun _ still => .inr still) fun _ => False.elim
    apply (reports_schemaDependencies entries (faithful entries rfl) (fresh.keep order inner)).imp
    intro after further
    exact keeps_of_member isStem_valid (inner.trans (keeps_of_precedes further order))

theorem reports_propertiesKeyword (stands : Stands context supply before location)
    (properties? : Option (List (String × Schema)))
    (faithful : ∀ entries, properties? = some entries →
      ∀ entry ∈ entries, Faithful prototype entry.2) :
    Reports prototype context.options.policy
      ((writePropertiesKeyword context properties?).code supply) before
      (if location.value.kind = .object then
        Schema.propertiesViolations (context.presence prototype) (context.place location)
          properties?
      else [])
      (Keeps supply.Pending supply.Pending before) := by
  cases properties? with
  | none =>
    simp only [Schema.propertiesViolations, ite_self]
    exact .nil (.refl before)
  | some entries =>
    have same : Keeps nowhere supply.Pending before before := .refl before
    have fresh : Stands context (supply.fresh validStem).2 before location :=
      stands.keep (supply.precedes_fresh validStem) same
    apply reports_guard .properties stands.bound _ (.refl before)
    apply (reports_properties entries (faithful entries rfl) fresh).imp
    exact fun after => keeps_of_member isStem_valid

end Keywords

theorem faithful (prototype : Json.Members) (schema : Schema) : Faithful prototype schema := by
  induction schema using Schema.induction with
  | bool accepts =>
    intro context supply before location stands
    cases accepts with
    | true => exact .nil (.refl before)
    | false =>
      have none : readParams [] (falseSite context).params before = .ok [] before := rfl
      have told : Run.report (falseSite context) before =
          .ok () (before.add (Schema.falseViolation (context.place location))) :=
        report_eq (falseSite context) none stands.bound
      exact reports_reportStmt told (.add before _)
  | object required? properties? dependencies? annotations properties dependencies =>
    intro context supply before location stands
    have found : Schema.violations (context.presence prototype) (context.place location)
          (.object ⟨required?, properties?, dependencies?, annotations⟩) =
        (if location.value.kind = .object then
          Schema.requiredViolations (context.presence prototype) (context.place location) required?
        else []) ++
        ((if location.value.kind = .object then
          Schema.dependenciesViolations (context.presence prototype) (context.place location)
            dependencies?
        else []) ++
        (if location.value.kind = .object then
          Schema.propertiesViolations (context.presence prototype) (context.place location)
            properties?
        else [])) := by
      by_cases isObject : location.value.kind = .object
      · simp only [Schema.violations_object, Context.place, isObject, if_true, List.append_assoc]
      · simp only [Schema.violations_object, Context.place, isObject, if_false, List.append_nil]
    rw [found]
    have earlier {supply later : NameSupply} (order : supply.Precedes later) (name : Name)
        (pending : later.Pending name) : supply.Pending name := pending.of_precedes order
    apply reports_andThen NameSupply.Pending earlier stands
      (reports_requiredKeyword stands required?)
    intro second secondStands
    apply reports_andThen NameSupply.Pending earlier secondStands
      (reports_dependenciesKeyword secondStands dependencies? dependencies)
    intro third thirdStands
    exact reports_propertiesKeyword thirdStands properties? properties

end SchemaCompiler.Emit
