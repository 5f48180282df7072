import SchemaCompiler.Proofs.Layout

/-!
The order of what a schema asks for. Where the members of `properties` and of `dependencies` and the
names that are required come in another order, at any level, the same violations are reported in
another order, and the verdict is the same.
-/

namespace SchemaCompiler.Schema

/-- One change to the order of what a schema asks for, or a schema inside it. -/
inductive Shuffle : Json → Json → Prop where
  /-- The required names come in another order. -/
  | required (earlier later : Json.Members) {items others : List Json} (same : items.Perm others) :
    Shuffle (.obj (earlier ++ ("required", .arr items) :: later))
      (.obj (earlier ++ ("required", .arr others) :: later))
  /-- The properties come in another order. -/
  | properties (earlier later : Json.Members) {inner others : Json.Members}
    (same : inner.Perm others) :
    Shuffle (.obj (earlier ++ ("properties", .obj inner) :: later))
      (.obj (earlier ++ ("properties", .obj others) :: later))
  /-- The triggers come in another order. -/
  | triggers (earlier later : Json.Members) {inner others : Json.Members}
    (same : inner.Perm others) :
    Shuffle (.obj (earlier ++ ("dependencies", .obj inner) :: later))
      (.obj (earlier ++ ("dependencies", .obj others) :: later))
  /-- A change inside the schema of a property. -/
  | inProperty (earlier later before after : Json.Members) (property : String) {value other : Json}
    (change : Shuffle value other) :
    Shuffle (.obj (earlier ++ ("properties", .obj (before ++ (property, value) :: after)) :: later))
      (.obj (earlier ++ ("properties", .obj (before ++ (property, other) :: after)) :: later))
  /-- A change inside the schema of a trigger. -/
  | inTrigger (earlier later before after : Json.Members) (trigger : String) {value other : Json}
    (change : Shuffle value other) :
    Shuffle (.obj (earlier ++ ("dependencies", .obj (before ++ (trigger, value) :: after)) :: later))
      (.obj (earlier ++ ("dependencies", .obj (before ++ (trigger, other) :: after)) :: later))

theorem Shuffle.isObject {value other : Json} (change : Shuffle value other) :
    value.kind = .object ∧ other.kind = .object := by
  cases change <;> exact ⟨rfl, rfl⟩

theorem perm_of_append {gather : List α → List β}
    (append : ∀ left right, gather (left ++ right) = gather left ++ gather right)
    {left right : List α} (same : left.Perm right) : (gather left).Perm (gather right) := by
  have cons : ∀ item rest, gather (item :: rest) = gather [item] ++ gather rest := fun item rest =>
    append [item] rest
  have pair : ∀ first second rest,
      gather (first :: second :: rest) = gather [first] ++ (gather [second] ++ gather rest) := by
    intro first second rest
    rw [cons first (second :: rest), cons second rest]
  induction same with
  | nil => exact .refl _
  | @cons item left right _ ih =>
    rw [cons item left, cons item right]
    exact ih.append_left _
  | swap first second rest =>
    rw [pair second first, pair first second]
    exact List.perm_append_comm_assoc _ _ _
  | trans _ _ first second => exact first.trans second

def SameFindings (presence : Presence) (schema other : Schema) : Prop :=
  ∀ place, (schema.violations presence place).Perm (other.violations presence place)

section Findings

variable {presence : Presence}

theorem requiredViolations_perm (place : Place) {names others : List String}
    (same : names.Perm others) :
    (requiredViolations presence place (some names)).Perm
      (requiredViolations presence place (some others)) :=
  (same.filter _).map _

theorem dependenciesViolations_perm (place : Place) {entries others : List (String × Constraint Schema)}
    (same : entries.Perm others) :
    (dependenciesViolations presence place (some entries)).Perm
      (dependenciesViolations presence place (some others)) := by
  have listed := perm_of_append (propertyDependencyViolations_append presence place) same
  have asked := perm_of_append (schemaDependencyViolations_append presence place) same
  simp only [dependenciesViolations]
  exact listed.append asked

theorem propertiesViolations_perm (place : Place) {entries others : List (String × Schema)}
    (same : entries.Perm others) :
    (propertiesViolations presence place (some entries)).Perm
      (propertiesViolations presence place (some others)) := by
  simp only [propertiesViolations]
  exact perm_of_append (propertyViolations_append presence place) same

theorem propertiesViolations_exchange (place : Place) (before after : List (String × Schema))
    (property : String) {schema other : Schema} (same : SameFindings presence schema other) :
    (propertiesViolations presence place (some (before ++ (property, schema) :: after))).Perm
      (propertiesViolations presence place (some (before ++ (property, other) :: after))) := by
  simp only [propertiesViolations, propertyViolations_append, propertyViolations]
  apply List.Perm.append_left
  apply List.Perm.append_right
  split
  · exact same _
  · exact .refl _

theorem dependenciesViolations_exchange (place : Place)
    (before after : List (String × Constraint Schema)) (trigger : String) {schema other : Schema}
    (same : SameFindings presence schema other) :
    (dependenciesViolations presence place
        (some (before ++ (trigger, .schema schema) :: after))).Perm
      (dependenciesViolations presence place
        (some (before ++ (trigger, .schema other) :: after))) := by
  simp only [dependenciesViolations, propertyDependencyViolations_append,
    propertyDependencyViolations, schemaDependencyViolations_append, schemaDependencyViolations]
  apply List.Perm.append_left
  apply List.Perm.append_left
  apply List.Perm.append_right
  split
  · exact same _
  · exact .refl _

section Members

variable (earlier later : Json.Members) {name : String} {value other : Json}

theorem perm_replace {read : Json → Option β} {find : Option β → List Violation} {key : String}
    (same : name = key → (find (read value)).Perm (find (read other))) :
    (find ((OrderedMap.get? (earlier ++ (name, value) :: later) key).bind read)).Perm
      (find ((OrderedMap.get? (earlier ++ (name, other) :: later) key).bind read)) := by
  rcases OrderedMap.get?_replace earlier later name key value other with
    unchanged | ⟨here, first, second⟩
  · rw [unchanged]
  · rw [first, second]
    exact same here

theorem sameFindings_replace
    (required : name = Keyword.required.name → ∀ place,
      (requiredViolations presence place (namesOf? value)).Perm
        (requiredViolations presence place (namesOf? other)))
    (dependencies : name = Keyword.dependencies.name → ∀ place,
      (dependenciesViolations presence place (dependenciesOf? value)).Perm
        (dependenciesViolations presence place (dependenciesOf? other)))
    (properties : name = Keyword.properties.name → ∀ place,
      (propertiesViolations presence place (propertiesOf? value)).Perm
        (propertiesViolations presence place (propertiesOf? other))) :
    SameFindings presence (outline (.obj (earlier ++ (name, value) :: later)))
      (outline (.obj (earlier ++ (name, other) :: later))) := by
  intro place
  rw [outline_obj, outline_obj, violations_object, violations_object]
  split
  · exact ((perm_replace earlier later fun here => required here place).append
      (perm_replace earlier later fun here => dependencies here place)).append
      (perm_replace earlier later fun here => properties here place)
  · exact .refl _

end Members

/-- A change of order leaves what is found the same but for the order. -/
theorem Shuffle.sameFindings {value other : Json} (change : Shuffle value other) :
    SameFindings presence (outline value) (outline other) := by
  induction change with
  | required earlier later same =>
    apply sameFindings_replace earlier later
    · exact fun _ place => requiredViolations_perm place (same.filterMap _)
    · exact fun dependencies => absurd dependencies (by decide)
    · exact fun properties => absurd properties (by decide)
  | properties earlier later same =>
    apply sameFindings_replace earlier later
    · exact fun required => absurd required (by decide)
    · exact fun dependencies => absurd dependencies (by decide)
    · intro _ place
      simp only [propertiesOf?, outlines_eq_map]
      exact propertiesViolations_perm place (same.map _)
  | triggers earlier later same =>
    apply sameFindings_replace earlier later
    · exact fun required => absurd required (by decide)
    · intro _ place
      have lists := perm_of_append nameTriggers_append same
      have schemas := perm_of_append schemaTriggers_append same
      exact dependenciesViolations_perm place (lists.append schemas)
    · exact fun properties => absurd properties (by decide)
  | inProperty earlier later before after property change same =>
    apply sameFindings_replace earlier later
    · exact fun required => absurd required (by decide)
    · exact fun dependencies => absurd dependencies (by decide)
    · intro _ place
      simp only [propertiesOf?, outlines_eq_map, List.map_append, List.map_cons]
      exact propertiesViolations_exchange place _ _ property same
  | @inTrigger earlier later before after trigger value other change same =>
    apply sameFindings_replace earlier later
    · exact fun required => absurd required (by decide)
    · -- Only an object changes its order, so a schema stays one.
      intro _ place
      obtain ⟨first, second⟩ := change.isObject
      have noList : value.kind ≠ .array := by simp [first]
      have noOtherList : other.kind ≠ .array := by simp [second]
      by_cases reserved : trigger = Dependencies.reservedTrigger
      · subst reserved
        simp only [dependenciesOf?, nameTriggers_append, schemaTriggers_append,
          nameTriggers_cons_reserved, schemaTriggers_cons_reserved]
        exact .refl _
      · simp only [dependenciesOf?, nameTriggers_append, schemaTriggers_append,
          nameTriggers_cons_schema after noList, nameTriggers_cons_schema after noOtherList,
          schemaTriggers_cons_schema after reserved noList,
          schemaTriggers_cons_schema after reserved noOtherList, ← List.append_assoc]
        exact dependenciesViolations_exchange place _ _ trigger same
    · exact fun properties => absurd properties (by decide)

theorem sameFindings_of_eqvGen {value other : Json} (shuffled : Relation.EqvGen Shuffle value other) :
    SameFindings presence (outline value) (outline other) := by
  induction shuffled with
  | rel value other change => exact change.sameFindings
  | refl value => exact fun place => .refl _
  | symm value other _ ih => exact fun place => (ih place).symm
  | trans first second third _ _ left right => exact fun place => (left place).trans (right place)

end Findings

end SchemaCompiler.Schema

namespace SchemaCompiler.Validator

open Run Schema

/-- If documents differ by any number of changes of order, their validators come to the same verdict
on every instance, and where every violation is reported, they report the same violations. -/
theorem ofDocument_shuffle {options : Options} {document other : Json}
    {validator otherValidator : Validator} (shuffled : Relation.EqvGen Shuffle document other)
    (compiles : ofDocument options document = .ok validator)
    (otherCompiles : ofDocument options other = .ok otherValidator) (subject : Instance) :
    (∃ verdict otherVerdict,
      validator.validate subject = .ok verdict ∧ otherValidator.validate subject = .ok otherVerdict ∧
        verdict.isValid = otherVerdict.isValid) ∧
      (options.policy = .accumulateAll → ∃ violations others,
        run validator.code subject = .ok violations ∧
          run otherValidator.code subject = .ok others ∧ violations.Perm others) := by
  have same : SameFindings ⟨options.ownProperties, subject.prototype⟩ (outline document)
      (outline other) := sameFindings_of_eqvGen shuffled
  rw [eq_compiled_outline compiles, eq_compiled_outline otherCompiles]
  constructor
  · refine ⟨_, _, validate_compiled _ _ _, validate_compiled _ _ _, ?_⟩
    rw [isValid_reported, isValid_reported]
    exact (same _).isEmpty_eq
  · intro accumulates
    refine ⟨_, _, run_compiled _ _ _, run_compiled _ _ _, ?_⟩
    rw [accumulates]
    exact same _

section Receipt

def receiptSchema (names : List Json) (properties : Json.Members) : Json :=
  .obj [("required", .arr names), ("properties", .obj properties)]

def billTriggers (triggers : Json.Members) : String × Json :=
  ("bill", .obj [("dependencies", .obj triggers)])

def noStamp : String × Json := ("stamp", .bool false)

def receiptDocument : Json :=
  receiptSchema [.str "id", .str "date"] [billTriggers [cardNames, cashSchema], noStamp]

def shuffledReceipt : Json :=
  receiptSchema [.str "date", .str "id"] [noStamp, billTriggers [cashSchema, cardNames]]

def receiptOptions : Options := { policy := .accumulateAll }

def receiptInstance : Instance where
  value := .obj [("bill", .obj [("card", .null), ("cash", .null)]), ("stamp", .null)]

theorem shuffle_receipt : Relation.EqvGen Shuffle receiptDocument shuffledReceipt := by
  have names : Shuffle receiptDocument
      (receiptSchema [.str "date", .str "id"] [billTriggers [cardNames, cashSchema], noStamp]) :=
    .required [] _ (.swap _ _ [])
  have properties : Shuffle
      (receiptSchema [.str "date", .str "id"] [billTriggers [cardNames, cashSchema], noStamp])
      (receiptSchema [.str "date", .str "id"] [noStamp, billTriggers [cardNames, cashSchema]]) :=
    .properties [_] [] (.swap _ _ [])
  have triggers : Shuffle (.obj [("dependencies", .obj [cardNames, cashSchema])])
      (.obj [("dependencies", .obj [cashSchema, cardNames])]) :=
    .triggers [] [] (.swap _ _ [])
  have inBill : Shuffle
      (receiptSchema [.str "date", .str "id"] [noStamp, billTriggers [cardNames, cashSchema]])
      shuffledReceipt :=
    .inProperty [_] [] [noStamp] [] "bill" triggers
  exact ((Relation.EqvGen.rel _ _ names).trans _ _ _ (.rel _ _ properties)).trans _ _ _
    (.rel _ _ inBill)

theorem ofDocument_shuffle_receipt :
    Relation.EqvGen Shuffle receiptDocument shuffledReceipt ∧
      ∃ validator other,
        ofDocument receiptOptions receiptDocument = .ok validator ∧
          ofDocument receiptOptions shuffledReceipt = .ok other ∧
          (∃ verdict otherVerdict,
            validator.validate receiptInstance = .ok verdict ∧
              other.validate receiptInstance = .ok otherVerdict ∧
                verdict.isValid = otherVerdict.isValid) ∧
          ∃ violations others,
            run validator.code receiptInstance = .ok violations ∧
              run other.code receiptInstance = .ok others ∧ violations.Perm others := by
  obtain ⟨validator, compiles⟩ : ∃ validator,
      ofDocument receiptOptions receiptDocument = .ok validator := ⟨_, rfl⟩
  obtain ⟨other, otherCompiles⟩ : ∃ other,
      ofDocument receiptOptions shuffledReceipt = .ok other := ⟨_, rfl⟩
  obtain ⟨verdicts, accumulated⟩ :=
    ofDocument_shuffle shuffle_receipt compiles otherCompiles receiptInstance
  exact ⟨shuffle_receipt, validator, other, compiles, otherCompiles, verdicts, accumulated rfl⟩

end Receipt

end SchemaCompiler.Validator
