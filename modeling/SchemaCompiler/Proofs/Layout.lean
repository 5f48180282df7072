import Mathlib.Logic.Relation
import SchemaCompiler.Proofs.Compilation

/-!
Layout of documents. Much of a document is of no meaning to the compiler: the order of the members
of a schema, its annotations, where lists of names stand among the schemas of `dependencies`, and
what a reserved trigger asks for. Documents that differ in no more than that, at any level, are
compiled to the same code.
-/

namespace SchemaCompiler.Schema

inductive RelayoutTriggers : Json.Members → Json.Members → Prop where
  /-- A list of names goes behind the schema of another trigger. -/
  | move (before after : Json.Members) (trigger : String) (names : List Json) (other : String)
    (value : Json) (noList : value.kind ≠ .array) :
    RelayoutTriggers (before ++ (trigger, .arr names) :: (other, value) :: after)
      (before ++ (other, value) :: (trigger, .arr names) :: after)
  /-- A reserved trigger goes away. -/
  | drop (before after : Json.Members) (value : Json) :
    RelayoutTriggers (before ++ ("__proto__", value) :: after) (before ++ after)

/-- One change to the layout of a schema, or of a schema inside it. -/
inductive Relayout : Json → Json → Prop where
  /-- The members come in another order. -/
  | reorder {members others : Json.Members} (distinct : (OrderedMap.keys members).Nodup)
    (same : members.Perm others) : Relayout (.obj members) (.obj others)
  /-- An annotation comes in. -/
  | annotate (earlier later : Json.Members) {name : String} (unknown : name ∉ keywordNames)
    (value : Json) :
    Relayout (.obj (earlier ++ later)) (.obj (earlier ++ (name, value) :: later))
  | triggers (earlier later : Json.Members) {inner others : Json.Members}
    (change : RelayoutTriggers inner others) :
    Relayout (.obj (earlier ++ ("dependencies", .obj inner) :: later))
      (.obj (earlier ++ ("dependencies", .obj others) :: later))
  /-- A change inside the schema of a trigger. -/
  | inTrigger (earlier later before after : Json.Members) (trigger : String) {value other : Json}
    (change : Relayout value other) :
    Relayout (.obj (earlier ++ ("dependencies", .obj (before ++ (trigger, value) :: after)) :: later))
      (.obj (earlier ++ ("dependencies", .obj (before ++ (trigger, other) :: after)) :: later))
  /-- A change inside the schema of a property. -/
  | inProperty (earlier later before after : Json.Members) (property : String) {value other : Json}
    (change : Relayout value other) :
    Relayout (.obj (earlier ++ ("properties", .obj (before ++ (property, value) :: after)) :: later))
      (.obj (earlier ++ ("properties", .obj (before ++ (property, other) :: after)) :: later))

section Members

variable (earlier later : Json.Members) {name : String}

theorem get?_annotation {key : String} (apart : name ≠ key) (value : Json) :
    OrderedMap.get? (earlier ++ (name, value) :: later) key =
      OrderedMap.get? (earlier ++ later) key := by
  rw [OrderedMap.get?_append, OrderedMap.get?_append, OrderedMap.get?_cons, if_neg apart]

/-- What is read under a key stays the same if the value of a member is replaced by one that is
read alike. -/
theorem bind_get?_replace {read : Json → Option β} {key : String} {value other : Json}
    (alike : name = key → read value = read other) :
    (OrderedMap.get? (earlier ++ (name, value) :: later) key).bind read =
      (OrderedMap.get? (earlier ++ (name, other) :: later) key).bind read := by
  rcases OrderedMap.get?_replace earlier later name key value other with same | ⟨here, first, second⟩
  · rw [same]
  · rw [first, second]
    exact alike here

theorem outline_replace {value other : Json}
    (required : name = Keyword.required.name → namesOf? value = namesOf? other)
    (properties : name = Keyword.properties.name → propertiesOf? value = propertiesOf? other)
    (dependencies :
      name = Keyword.dependencies.name → dependenciesOf? value = dependenciesOf? other) :
    outline (.obj (earlier ++ (name, value) :: later)) =
      outline (.obj (earlier ++ (name, other) :: later)) := by
  rw [outline_obj, outline_obj, bind_get?_replace earlier later required,
    bind_get?_replace earlier later properties, bind_get?_replace earlier later dependencies]

theorem outline_replace_dependencies {value other : Json}
    (alike : dependenciesOf? value = dependenciesOf? other) :
    outline (.obj (earlier ++ ("dependencies", value) :: later)) =
      outline (.obj (earlier ++ ("dependencies", other) :: later)) := by
  apply outline_replace earlier later
  · exact fun required => absurd required (by decide)
  · exact fun properties => absurd properties (by decide)
  · exact fun _ => alike

end Members

theorem RelayoutTriggers.dependenciesOf?_eq {inner others : Json.Members}
    (change : RelayoutTriggers inner others) :
    dependenciesOf? (.obj inner) = dependenciesOf? (.obj others) := by
  cases change with
  | move before after trigger names other value noList =>
    have lists : nameTriggers ((trigger, .arr names) :: (other, value) :: after) =
        nameTriggers ((other, value) :: (trigger, .arr names) :: after) := by
      rw [nameTriggers_cons_schema _ noList, nameTriggers, nameTriggers_cons_schema _ noList,
        nameTriggers]
    have schemas : schemaTriggers ((trigger, .arr names) :: (other, value) :: after) =
        schemaTriggers ((other, value) :: (trigger, .arr names) :: after) := by
      rw [schemaTriggers_cons_names, schemaTriggers, schemaTriggers, schemaTriggers_cons_names]
    simp only [dependenciesOf?, nameTriggers_append, schemaTriggers_append, lists, schemas]
  | drop before after value =>
    have lists := nameTriggers_cons_reserved after value
    have schemas := schemaTriggers_cons_reserved after value
    rw [Dependencies.reservedTrigger] at lists schemas
    simp only [dependenciesOf?, nameTriggers_append, schemaTriggers_append, lists, schemas]

theorem Relayout.isObject {value other : Json} (change : Relayout value other) :
    value.kind = .object ∧ other.kind = .object := by
  cases change <;> exact ⟨rfl, rfl⟩

theorem name_mem_keywordNames (keyword : Keyword) : keyword.name ∈ keywordNames := by
  cases keyword <;> decide

/-- A change of layout leaves the outline as it is. -/
theorem Relayout.outline_eq {value other : Json} (change : Relayout value other) :
    outline value = outline other := by
  induction change with
  | reorder distinct same =>
    simp only [outline_obj, OrderedMap.get?_perm distinct same]
  | @annotate earlier later name unknown value =>
    have apart (keyword : Keyword) : name ≠ keyword.name := by
      rintro rfl
      exact unknown (name_mem_keywordNames keyword)
    simp only [outline_obj, get?_annotation earlier later (apart _)]
  | triggers earlier later change =>
    exact outline_replace_dependencies earlier later change.dependenciesOf?_eq
  | @inTrigger earlier later before after trigger value other change same =>
    -- Only an object changes its layout, so a list of names stays one and a schema stays one.
    apply outline_replace_dependencies earlier later
    obtain ⟨first, second⟩ := change.isObject
    have noList : value.kind ≠ .array := by simp [first]
    have noOtherList : other.kind ≠ .array := by simp [second]
    simp only [dependenciesOf?, nameTriggers_append, schemaTriggers_append,
      nameTriggers_cons_schema after noList, nameTriggers_cons_schema after noOtherList]
    simp only [schemaTriggers, noList, noOtherList, same]
  | inProperty earlier later before after property change same =>
    apply outline_replace earlier later
    · exact fun required => absurd required (by decide)
    · intro _
      simp only [propertiesOf?, outlines_eq_map, List.map_append, List.map_cons, same]
    · exact fun dependencies => absurd dependencies (by decide)

theorem outline_eq_of_eqvGen {value other : Json} (same : Relation.EqvGen Relayout value other) :
    outline value = outline other := by
  induction same with
  | rel value other change => exact change.outline_eq
  | refl value => rfl
  | symm value other _ ih => exact ih.symm
  | trans first second third _ _ left right => exact left.trans right

end SchemaCompiler.Schema

namespace SchemaCompiler.Validator

open Schema

/-- Documents that differ by any number of changes of layout, made or taken back, are compiled to
the same validator: the same statements with the same names and sites, and so the same listing. -/
theorem ofDocument_layout {options : Options} {document other : Json}
    {validator otherValidator : Validator} (same : Relation.EqvGen Relayout document other)
    (compiles : ofDocument options document = .ok validator)
    (otherCompiles : ofDocument options other = .ok otherValidator) :
    validator = otherValidator := by
  rw [eq_compiled_outline compiles, eq_compiled_outline otherCompiles, outline_eq_of_eqvGen same]

section Bill

def billSchema (members : Json.Members) : Json :=
  .obj [("properties", .obj [("bill", .obj members)])]

def cardNames : String × Json := ("card", .arr [.str "holder"])

def cashSchema : String × Json := ("cash", .obj [("required", .arr [.str "till"])])

def billNames : String × Json := ("required", .arr [.str "id"])

def annotatedBill : Json :=
  .obj [("title", .str "bills"), ("properties", .obj [("bill", .obj
    [("dependencies", .obj [cardNames, cashSchema, ("__proto__", .bool false)]), billNames])])]

def plainBill : Json := billSchema [billNames, ("dependencies", .obj [cashSchema, cardNames])]

theorem relayout_bill : Relation.EqvGen Relayout annotatedBill plainBill := by
  have inBill {members others : Json.Members} (change : Relayout (.obj members) (.obj others)) :
      Relation.EqvGen Relayout (billSchema members) (billSchema others) :=
    .rel _ _ (.inProperty [] [] [] [] "bill" change)
  have untitled : Relation.EqvGen Relayout annotatedBill
      (billSchema [("dependencies", .obj [cardNames, cashSchema, ("__proto__", .bool false)]),
        billNames]) :=
    .symm _ _ (.rel _ _ (.annotate [] _ (by decide) (.str "bills")))
  have moved : RelayoutTriggers [cardNames, cashSchema, ("__proto__", .bool false)]
      [cashSchema, cardNames, ("__proto__", .bool false)] :=
    .move [] [("__proto__", .bool false)] "card" [.str "holder"] "cash" cashSchema.2 (by decide)
  have dropped : RelayoutTriggers [cashSchema, cardNames, ("__proto__", .bool false)]
      [cashSchema, cardNames] :=
    .drop [cashSchema, cardNames] [] (.bool false)
  have swapped : Relayout (.obj [("dependencies", .obj [cashSchema, cardNames]), billNames])
      (.obj [billNames, ("dependencies", .obj [cashSchema, cardNames])]) :=
    .reorder (by decide) (.swap _ _ [])
  have first := inBill (.triggers [] [billNames] moved)
  have second := inBill (.triggers [] [billNames] dropped)
  exact ((untitled.trans _ _ _ first).trans _ _ _ second).trans _ _ _ (inBill swapped)

theorem ofDocument_layout_bill :
    Relation.EqvGen Relayout annotatedBill plainBill ∧
      ∃ validator otherValidator,
        ofDocument .default annotatedBill = .ok validator ∧
          ofDocument .default plainBill = .ok otherValidator ∧ validator = otherValidator := by
  obtain ⟨validator, compiles⟩ : ∃ validator, ofDocument .default annotatedBill = .ok validator :=
    ⟨_, rfl⟩
  obtain ⟨other, otherCompiles⟩ : ∃ other, ofDocument .default plainBill = .ok other := ⟨_, rfl⟩
  exact ⟨relayout_bill, validator, other, compiles, otherCompiles,
    ofDocument_layout relayout_bill compiles otherCompiles⟩

end Bill

end SchemaCompiler.Validator
