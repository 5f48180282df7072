import SchemaCompiler.Proofs.Schema.Traversal

/-!
The grammar of schema documents. A document is read exactly if it is well formed, and what is read
mirrors it: every keyword and every annotation of an object is kept, in the order of the document.
-/

namespace SchemaCompiler

theorem Json.sizeOf_entry_lt {members inner : Json.Members} {name : String} {entry : String × Json}
    (member : (name, .obj inner) ∈ members) (inside : entry ∈ inner) :
    sizeOf entry.2 < sizeOf (Json.obj members) := by
  have outer := List.sizeOf_lt_of_mem member
  have deeper := List.sizeOf_lt_of_mem inside
  obtain ⟨key, value⟩ := entry
  simp only [Json.obj.sizeOf_spec, Prod.mk.sizeOf_spec] at outer deeper ⊢
  omega

/-- What holds of a value if it holds of all that its keywords may have for schemas, the values in
the objects among its members, holds of every value. -/
theorem Json.subschemaInduction {motive : Json → Prop}
    (step : ∀ value, (∀ members, value = .obj members → ∀ name inner, (name, .obj inner) ∈ members →
      ∀ entry ∈ inner, motive entry.2) → motive value) (value : Json) : motive value := by
  apply step
  intro members same name inner member entry inside
  have smaller := sizeOf_entry_lt member inside
  exact subschemaInduction step entry.2
termination_by sizeOf value
decreasing_by exact same ▸ smaller

namespace Schema

def keywordNames : List String := ["required", "properties", "dependencies"]

mutual

/-- The value may stand for a schema, `depth` schemas below the root. -/
inductive WellFormed (limit : Nat) : Nat → Json → Prop where
  | bool {depth : Nat} (shallow : depth ≤ limit) (accepts : Bool) :
    WellFormed limit depth (.bool accepts)
  | object {depth : Nat} (shallow : depth ≤ limit) {members : Json.Members}
    (each : ∀ entry ∈ members, WellFormedMember limit depth entry.1 entry.2) :
    WellFormed limit depth (.obj members)

inductive WellFormedMember (limit : Nat) : Nat → String → Json → Prop where
  | remark {depth : Nat} {name : String} (unknown : name ∉ keywordNames) (value : Json) :
    WellFormedMember limit depth name value
  | required {depth : Nat} (names : List String) :
    WellFormedMember limit depth "required" (.arr (names.map .str))
  | properties {depth : Nat} {inner : Json.Members}
    (each : ∀ entry ∈ inner, WellFormed limit (depth + 1) entry.2) :
    WellFormedMember limit depth "properties" (.obj inner)
  | dependencies {depth : Nat} {inner : Json.Members}
    (each : ∀ entry ∈ inner, WellFormedConstraint limit (depth + 1) entry.2) :
    WellFormedMember limit depth "dependencies" (.obj inner)

/-- The value may stand for what a trigger asks for. A list of names counts as no level. -/
inductive WellFormedConstraint (limit : Nat) : Nat → Json → Prop where
  | names {depth : Nat} (names : List String) :
    WellFormedConstraint limit depth (.arr (names.map .str))
  | schema {depth : Nat} {value : Json} (inside : WellFormed limit depth value) :
    WellFormedConstraint limit depth value

end

inductive Entrywise (related : α → β → Prop) : List (String × α) → List (String × β) → Prop where
  | nil : Entrywise related [] []
  | cons {name : String} {value : α} {read : β} {rest : List (String × α)}
    {others : List (String × β)} (here : related value read)
    (later : Entrywise related rest others) :
    Entrywise related ((name, value) :: rest) ((name, read) :: others)

theorem Entrywise.exists_of_mem {related : α → β → Prop} {entries : List (String × α)}
    {others : List (String × β)} (each : Entrywise related entries others) {name : String} {read : β}
    (member : (name, read) ∈ others) : ∃ value, (name, value) ∈ entries ∧ related value read := by
  induction each with
  | nil => cases member
  | cons here _ ih =>
    rcases List.mem_cons.mp member with same | other
    · cases same
      exact ⟨_, List.mem_cons_self, here⟩
    · obtain ⟨value, listed, found⟩ := ih other
      exact ⟨value, List.mem_cons_of_mem _ listed, found⟩

/-- A keyword is set if it is a member of the document's object, and then it has the entries of that
member. -/
inductive Stated (related : Json → β → Prop) : Option Json → Option (List (String × β)) → Prop where
  | absent : Stated related none none
  | present {inner : Json.Members} {entries : List (String × β)}
    (each : Entrywise related inner entries) : Stated related (some (.obj inner)) (some entries)

theorem Stated.exists_of_some {related : Json → β → Prop} {value? : Option Json}
    {entries : List (String × β)} (stated : Stated related value? (some entries)) :
    ∃ inner, value? = some (.obj inner) ∧ Entrywise related inner entries := by
  cases stated with
  | present each => exact ⟨_, rfl, each⟩

theorem Stated.exists_of_mem {related : Json → β → Prop} {value? : Option Json}
    {entries? : Option (List (String × β))} (stated : Stated related value? entries?)
    {name : String} {read : β} (listed : (name, read) ∈ entries?.getD []) :
    ∃ inner value, value? = some (.obj inner) ∧ (name, value) ∈ inner ∧ related value read := by
  cases stated with
  | absent => cases listed
  | present each =>
    obtain ⟨value, member, same⟩ := each.exists_of_mem listed
    exact ⟨_, value, rfl, member, same⟩

mutual

inductive Mirrors : Json → Schema → Prop where
  | bool (accepts : Bool) : Mirrors (.bool accepts) (.bool accepts)
  | object {members : Json.Members} {required? : Option (List String)}
    {properties? : Option (List (String × Schema))}
    {dependencies? : Option (List (String × Constraint Schema))} {annotations : Json.Members}
    (required : OrderedMap.get? members "required" =
      required?.map fun names => .arr (names.map .str))
    (properties : Stated Mirrors (OrderedMap.get? members "properties") properties?)
    (dependencies : Stated MirrorsConstraint (OrderedMap.get? members "dependencies")
      dependencies?)
    (others : annotations = members.filter fun entry => entry.1 ∉ keywordNames) :
    Mirrors (.obj members) (.object ⟨required?, properties?, dependencies?, annotations⟩)

/-- Arrays are lists of names, and all else is a schema. -/
inductive MirrorsConstraint : Json → Constraint Schema → Prop where
  | names (names : List String) : MirrorsConstraint (.arr (names.map .str)) (.names names)
  | schema {value : Json} {schema : Schema} (inside : Mirrors value schema) :
    MirrorsConstraint value (.schema schema)

end

theorem ofName?_eq_none_iff (name : String) :
    Keyword.ofName? name = none ↔ name ∉ keywordNames := by
  constructor
  · intro unknown member
    simp only [keywordNames, List.mem_cons, List.not_mem_nil, or_false] at member
    rcases member with rfl | rfl | rfl <;> cases unknown
  · intro unknown
    cases known : Keyword.ofName? name with
    | none => rfl
    | some keyword =>
      have same := Keyword.name_of_ofName? known
      subst same
      cases keyword <;> exact absurd (by decide) unknown

inductive ReadAs (limit : Nat) (path : Pointer) (depth : Nat) : String × Json → Member → Prop where
  | remark {name : String} (unknown : name ∉ keywordNames) (value : Json) :
    ReadAs limit path depth (name, value) (.remark name value)
  | required (names : List String) :
    ReadAs limit path depth ("required", .arr (names.map .str)) (.required names)
  | properties {inner : Json.Members} {entries : List (String × Schema)}
    (read : readProperties limit (path.key "properties") (depth + 1) inner = .ok entries) :
    ReadAs limit path depth ("properties", .obj inner) (.properties entries)
  | dependencies {inner : Json.Members} {entries : List (String × Constraint Schema)}
    (read : readDependencies limit (path.key "dependencies") (depth + 1) inner = .ok entries) :
    ReadAs limit path depth ("dependencies", .obj inner) (.dependencies entries)

theorem readMember_ok {limit : Nat} {path : Pointer} {depth : Nat} {entry : String × Json}
    {member : Member} (read : readMember limit path depth entry = .ok member) :
    ReadAs limit path depth entry member := by
  obtain ⟨name, value⟩ := entry
  unfold readMember at read
  cases known : Keyword.ofName? name with
  | none =>
    simp only [known] at read
    cases read
    exact .remark ((ofName?_eq_none_iff name).mp known) value
  | some keyword =>
    have same := Keyword.name_of_ofName? known
    subst same
    simp only [known] at read
    cases keyword with
    | required =>
      obtain ⟨names, readValue, rfl⟩ := map_eq_ok read
      rw [readRequired_ok readValue]
      exact .required names
    | properties =>
      cases value with
      | obj inner =>
        obtain ⟨entries, readInner, rfl⟩ := map_eq_ok read
        exact .properties readInner
      | _ => cases read
    | dependencies =>
      cases value with
      | obj inner =>
        obtain ⟨entries, readInner, rfl⟩ := map_eq_ok read
        exact .dependencies readInner
      | _ => cases read

theorem readMember_of_readAs {limit : Nat} {path : Pointer} {depth : Nat} {entry : String × Json}
    {member : Member} (read : ReadAs limit path depth entry member) :
    readMember limit path depth entry = .ok member := by
  cases read with
  | remark unknown value =>
    rw [readMember, (ofName?_eq_none_iff _).mpr unknown]
  | required names =>
    have readItems : readRequired (path.key "required") (.arr (names.map .str)) = .ok names :=
      readNames_map _ 0 names
    exact congrArg (Except.map Member.required) readItems
  | properties read => exact congrArg (Except.map Member.properties) read
  | dependencies read => exact congrArg (Except.map Member.dependencies) read

section Acceptance

variable {limit : Nat}

def Recognized (limit : Nat) (value : Json) : Prop :=
  ∀ path depth, Succeeds (readNode limit path depth value) ↔ WellFormed limit depth value

theorem succeeds_readConstraint {value : Json} (recognized : Recognized limit value)
    (path : Pointer) (depth : Nat) (trigger : String) :
    Succeeds (readConstraint limit path depth trigger value) ↔
      WellFormedConstraint limit depth value := by
  cases value with
  | arr items =>
    rw [readConstraint, succeeds_map]
    constructor
    · rintro ⟨names, read⟩
      rw [readNames_ok read]
      exact .names names
    · intro formed
      cases formed with
      | names names => exact ⟨names, readNames_map _ 0 names⟩
      | schema inside => cases inside
  | bool accepts | obj members =>
    rw [readConstraint, succeeds_map, recognized path depth]
    constructor
    · exact .schema
    · intro formed
      cases formed with
      | schema inside => exact inside
  | null | num value | str value =>
    apply iff_of_false (not_succeeds_error _)
    intro formed
    cases formed with
    | schema inside => cases inside

theorem succeeds_readMember {name : String} {value : Json}
    (recognized : ∀ inner, value = .obj inner → ∀ entry ∈ inner, Recognized limit entry.2)
    (path : Pointer) (depth : Nat) :
    Succeeds (readMember limit path depth (name, value)) ↔
      WellFormedMember limit depth name value := by
  constructor
  · rintro ⟨member, read⟩
    cases readMember_ok read with
    | remark unknown => exact .remark unknown value
    | required names => exact .required names
    | properties readInner =>
      apply WellFormedMember.properties
      intro entry inside
      apply (recognized _ rfl entry inside _ _).mp
      exact (succeeds_readProperties _ _ _ _).mp ⟨_, readInner⟩ entry inside
    | dependencies readInner =>
      apply WellFormedMember.dependencies
      intro entry inside
      apply (succeeds_readConstraint (recognized _ rfl entry inside) _ _ entry.1).mp
      exact (succeeds_readDependencies _ _ _ _).mp ⟨_, readInner⟩ entry inside
  · intro formed
    cases formed with
    | remark unknown => exact ⟨_, readMember_of_readAs (.remark unknown value)⟩
    | required names => exact ⟨_, readMember_of_readAs (.required names)⟩
    | @properties _ inner each =>
      have all : Succeeds (readProperties limit (path.key "properties") (depth + 1) inner) := by
        apply (succeeds_readProperties _ _ _ _).mpr
        intro entry inside
        exact (recognized _ rfl entry inside _ _).mpr (each entry inside)
      obtain ⟨entries, read⟩ := all
      exact ⟨_, readMember_of_readAs (.properties read)⟩
    | @dependencies _ inner each =>
      have all : Succeeds (readDependencies limit (path.key "dependencies") (depth + 1) inner) := by
        apply (succeeds_readDependencies _ _ _ _).mpr
        intro entry inside
        exact (succeeds_readConstraint (recognized _ rfl entry inside) _ _ _).mpr (each entry inside)
      obtain ⟨entries, read⟩ := all
      exact ⟨_, readMember_of_readAs (.dependencies read)⟩

theorem recognized (limit : Nat) (value : Json) : Recognized limit value := by
  induction value using Json.subschemaInduction with
  | step value inside =>
    -- Schemas inside stand one level deeper, so depth and path stay general in the hypothesis.
    intro path depth
    by_cases shallow : depth ≤ limit
    · cases value with
      | bool accepts =>
        rw [readNode_bool shallow]
        exact iff_of_true (succeeds_ok _) (.bool shallow accepts)
      | obj members =>
        have member : ∀ entry ∈ members, Succeeds (readMember limit path depth entry) ↔
            WellFormedMember limit depth entry.1 entry.2 := by
          rintro ⟨name, value⟩ listed
          apply succeeds_readMember
          rintro inner rfl entry
          exact inside members rfl name inner listed entry
        rw [succeeds_readNode_obj shallow]
        constructor
        · intro all
          exact .object shallow fun entry listed => (member entry listed).mp (all entry listed)
        · intro formed
          cases formed with
          | object _ each => exact fun entry listed => (member entry listed).mpr (each entry listed)
      | null | num value | str value | arr items =>
        rw [readNode_other shallow path (by simp [Json.kind]) (by simp [Json.kind])]
        apply iff_of_false (not_succeeds_error _)
        intro formed
        cases formed
    · rw [readNode_too_deep shallow]
      apply iff_of_false (not_succeeds_error _)
      intro formed
      cases formed <;> exact shallow ‹_›

end Acceptance

section Content

variable {limit : Nat} {path : Pointer} {depth : Nat}

theorem entrywise_of_mapM {read : String → Json → Except ε β} {related : Json → β → Prop}
    {members : Json.Members} {entries : List (String × β)}
    (done : members.mapM (readNamed read) = .ok entries)
    (each : ∀ entry ∈ members, ∀ result, read entry.1 entry.2 = .ok result →
      related entry.2 result) : Entrywise related members entries := by
  induction members generalizing entries with
  | nil =>
    cases done
    exact .nil
  | cons entry rest ih =>
    rw [List.mapM_cons] at done
    obtain ⟨first, here, others⟩ := bind_eq_ok done
    obtain ⟨later, there, built⟩ := bind_eq_ok others
    obtain ⟨result, readHere, rfl⟩ := map_eq_ok here
    cases built
    apply Entrywise.cons (each entry List.mem_cons_self result readHere)
    exact ih there fun other member => each other (List.mem_cons_of_mem _ member)

def Mirrored (limit : Nat) (value : Json) : Prop :=
  ∀ path depth schema, readNode limit path depth value = .ok schema → Mirrors value schema

theorem mirrors_of_readConstraint {value : Json} (mirrored : Mirrored limit value)
    {trigger : String} {constraint : Constraint Schema}
    (read : readConstraint limit path depth trigger value = .ok constraint) :
    MirrorsConstraint value constraint := by
  cases value with
  | arr items =>
    obtain ⟨names, readItems, rfl⟩ := map_eq_ok read
    rw [readNames_ok readItems]
    exact .names names
  | bool accepts | obj members =>
    obtain ⟨schema, readValue, rfl⟩ := map_eq_ok read
    exact .schema (mirrored path depth schema readValue)
  | null | num value | str value => cases read

theorem get?_remark {name keyword : String} (unknown : name ∉ keywordNames)
    (known : keyword ∈ keywordNames) (value : Json) (rest : Json.Members) :
    OrderedMap.get? ((name, value) :: rest) keyword = OrderedMap.get? rest keyword := by
  have apart : name ≠ keyword := by
    rintro rfl
    exact unknown known
  rw [OrderedMap.get?_cons, if_neg apart]

section Members

variable {members : Json.Members} {parts : List Member}
  (read : List.Forall₂ (fun entry member => readMember limit path depth entry = .ok member)
    members parts)

include read

theorem annotations_assemble :
    (assemble parts).annotations = members.filter fun entry => entry.1 ∉ keywordNames := by
  induction read with
  | nil => rfl
  | cons here _ ih =>
    cases readMember_ok here with
    | remark unknown value =>
      rw [List.filter_cons_of_pos (by simpa using unknown), ← ih]
      rfl
    | required | properties | dependencies => exact ih

theorem required?_assemble :
    OrderedMap.get? members "required" =
      (assemble parts).required?.map fun names => .arr (names.map .str) := by
  induction read with
  | nil => rfl
  | cons here _ ih =>
    cases readMember_ok here with
    | remark unknown value =>
      rw [get?_remark unknown (by decide)]
      exact ih
    | required => rfl
    | properties | dependencies => exact ih

theorem properties?_assemble
    (mirrored : ∀ name inner, (name, .obj inner) ∈ members → ∀ entry ∈ inner,
      Mirrored limit entry.2) :
    Stated Mirrors (OrderedMap.get? members "properties") (assemble parts).properties? := by
  induction read with
  | nil => exact .absent
  | cons here _ ih =>
    have later := ih fun name inner member => mirrored name inner (List.mem_cons_of_mem _ member)
    cases readMember_ok here with
    | remark unknown value =>
      rw [get?_remark unknown (by decide)]
      exact later
    | properties readInner =>
      rw [readProperties_eq_mapM] at readInner
      apply Stated.present
      apply entrywise_of_mapM readInner
      intro entry inside
      exact mirrored _ _ List.mem_cons_self entry inside _ _
    | required | dependencies => exact later

theorem dependencies?_assemble
    (mirrored : ∀ name inner, (name, .obj inner) ∈ members → ∀ entry ∈ inner,
      Mirrored limit entry.2) :
    Stated MirrorsConstraint (OrderedMap.get? members "dependencies")
      (assemble parts).dependencies? := by
  induction read with
  | nil => exact .absent
  | cons here _ ih =>
    have later := ih fun name inner member => mirrored name inner (List.mem_cons_of_mem _ member)
    cases readMember_ok here with
    | remark unknown value =>
      rw [get?_remark unknown (by decide)]
      exact later
    | dependencies readInner =>
      rw [readDependencies_eq_mapM] at readInner
      apply Stated.present
      apply entrywise_of_mapM readInner
      intro entry inside constraint
      exact mirrors_of_readConstraint (mirrored _ _ List.mem_cons_self entry inside)
    | required | properties => exact later

end Members

theorem mirrored (limit : Nat) (value : Json) : Mirrored limit value := by
  induction value using Json.subschemaInduction with
  | step value inside =>
    intro path depth schema read
    by_cases shallow : depth ≤ limit
    · cases value with
      | bool accepts =>
        rw [readNode_bool shallow] at read
        cases read
        exact .bool accepts
      | obj members =>
        rw [readNode_obj shallow] at read
        obtain ⟨parts, readParts, rfl⟩ := map_eq_ok read
        have each := forall₂_of_mapM readParts
        exact .object (required?_assemble each)
          (properties?_assemble each (inside members rfl))
          (dependencies?_assemble each (inside members rfl)) (annotations_assemble each)
      | null | num value | str value | arr items =>
        rw [readNode_other shallow path (by simp [Json.kind]) (by simp [Json.kind])] at read
        cases read
    · rw [readNode_too_deep shallow] at read
      cases read

end Content

/-- A document is read exactly if it is well formed within the limit, and the schema that is read
says all that the document says. -/
theorem ofJson_exact (limit : Nat) (document : Json) :
    ((∃ schema, ofJson limit document = .ok schema) ↔ WellFormed limit 0 document) ∧
      ∀ schema, ofJson limit document = .ok schema → Mirrors document schema :=
  ⟨recognized limit document .root 0, mirrored limit document .root 0⟩

end Schema

end SchemaCompiler
