import SchemaCompiler.Proofs.Schema.Grammar

/-!
Where reading fails. The path of a fault leads to a value that may not stand there, and it is the
first such place: the document up to it is a document that can be read.
-/

namespace SchemaCompiler

namespace OrderedMap

variable {κ α : Type} [DecidableEq κ] {earlier : OrderedMap κ α} {key : κ}

theorem get?_append_cons (fresh : key ∉ keys earlier) (value : α) (later : OrderedMap κ α) :
    get? (earlier ++ (key, value) :: later) key = some value := by
  induction earlier with
  | nil => exact if_pos rfl
  | cons entry rest ih =>
    have apart : entry.1 ≠ key := (List.ne_of_not_mem_cons fresh).symm
    rw [List.cons_append, get?_cons, if_neg apart]
    exact ih (List.not_mem_of_not_mem_cons fresh)

theorem takeWhile_append_cons (fresh : key ∉ keys earlier) (value : α) (later : OrderedMap κ α) :
    (earlier ++ (key, value) :: later).takeWhile (fun entry => entry.1 ≠ key) = earlier := by
  have all : ∀ entry ∈ earlier, decide (entry.1 ≠ key) = true := by
    intro entry member
    apply decide_eq_true
    rintro rfl
    exact fresh (List.mem_map_of_mem member)
  rw [List.takeWhile_append_of_pos all, List.takeWhile_cons_of_neg (by simp), List.append_nil]

end OrderedMap

namespace Json

def step? : Json → Segment → Option Json
  | obj members, .key name => OrderedMap.get? members name
  | arr items, .index position => items[position]?
  | _, _ => none

def at? : Json → List Segment → Option Json
  | value, [] => some value
  | value, segment :: rest => (value.step? segment).bind fun inner => inner.at? rest

/-- The value up to a segment, with `last?` for what stands there. -/
def upTo : Json → Segment → Option Json → Json
  | obj members, .key name, last? =>
    obj (members.takeWhile (fun entry => entry.1 ≠ name) ++ (last?.map (Prod.mk name)).toList)
  | arr items, .index position, last? => arr (items.take position ++ last?.toList)
  | value, _, _ => value

/-- The document before the place that a path leads to: without the value there and, in all that
the path goes through, without anything that comes after it. Before the root is nothing. -/
def before : Json → List Segment → Option Json
  | _, [] => none
  | value, segment :: rest =>
    (value.step? segment).map fun inner => value.upTo segment (inner.before rest)

end Json

def CompileFault.path? : CompileFault → Option Pointer
  | invalidSchema path _ => some path
  | keywordType _ path _ _ => some path
  | invalidDependency _ path _ => some path
  | maxDepthExceeded path _ => some path
  | unclosedBlock _ => none

namespace Schema

/-- The place of a schema, `depth` schemas below the root: by turns a keyword that holds schemas and
the name of one of its members. -/
inductive SchemaPath : Nat → Pointer → Prop where
  | root : SchemaPath 0 .root
  | member {depth : Nat} {path : Pointer} (outer : SchemaPath depth path) {keyword : String}
    (holds : keyword = "properties" ∨ keyword = "dependencies") (name : String) :
    SchemaPath (depth + 1) ((path.key keyword).key name)

/-- The fault says what is wrong with the value at its path. -/
inductive Blames (limit : Nat) : CompileFault → Json → Prop where
  | schema {depth : Nat} {path : Pointer} {value : Json} (place : SchemaPath depth path)
    (noBool : value.kind ≠ .boolean) (noObject : value.kind ≠ .object) :
    Blames limit (.invalidSchema path value.kind) value
  | keyword {depth : Nat} {path : Pointer} {value : Json} (place : SchemaPath depth path)
    (keyword : Keyword) (other : value.kind ≠ keyword.valueKind) :
    Blames limit (.keywordType keyword (path.key keyword.name) keyword.valueKind value.kind) value
  | requiredName {depth : Nat} {path : Pointer} {value : Json} (place : SchemaPath depth path)
    (position : Nat) (noString : value.kind ≠ .string) :
    Blames limit
      (.keywordType .required ((path.key "required").index position) .string value.kind) value
  | constraint {depth : Nat} {path : Pointer} {value : Json} (place : SchemaPath depth path)
    (trigger : String) (noArray : value.kind ≠ .array) (noObject : value.kind ≠ .object)
    (noBool : value.kind ≠ .boolean) :
    Blames limit
      (.invalidDependency trigger ((path.key "dependencies").key trigger) value.kind) value
  | dependencyName {depth : Nat} {path : Pointer} {value : Json} (place : SchemaPath depth path)
    (trigger : String) (position : Nat) (noString : value.kind ≠ .string) :
    Blames limit
      (.invalidDependency trigger (((path.key "dependencies").key trigger).index position)
        value.kind) value
  | depth {path : Pointer} {value : Json} (place : SchemaPath (limit + 1) path)
    (length : path.segments.length = 2 * (limit + 1)) :
    Blames limit (.maxDepthExceeded path limit) value

theorem SchemaPath.length_eq {depth : Nat} {path : Pointer} (place : SchemaPath depth path) :
    path.segments.length = 2 * depth := by
  induction place with
  | root => rfl
  | member _ _ _ ih =>
    simp only [Pointer.segments_key, List.length_append, List.length_singleton, ih]
    omega

/-- The path leads to the offender, and what comes before it can be read. -/
structure Located (reads : Json → Prop) (value : Json) (path : List Segment) (offender : Json) :
    Prop where
  leads : value.at? path = some offender
  readable : path ≠ [] → ∃ left, value.before path = some left ∧ reads left

namespace Located

variable {reads within : Json → Prop} {value offender : Json} {path : List Segment}

theorem here (reads : Json → Prop) (value : Json) : Located reads value [] value :=
  ⟨rfl, fun inner => absurd rfl inner⟩

theorem imp (located : Located within value path offender)
    (weaker : ∀ left, within left → reads left) : Located reads value path offender where
  leads := located.leads
  readable inner := by
    obtain ⟨left, cut, readable⟩ := located.readable inner
    exact ⟨left, cut, weaker left readable⟩

theorem key {earlier later : Json.Members} {name : String}
    (fresh : name ∉ OrderedMap.keys earlier) (located : Located within value path offender)
    (alone : reads (.obj earlier))
    (followed : ∀ left, within left → reads (.obj (earlier ++ [(name, left)]))) :
    Located reads (.obj (earlier ++ (name, value) :: later)) (.key name :: path) offender := by
  have found : (Json.obj (earlier ++ (name, value) :: later)).step? (.key name) = some value :=
    OrderedMap.get?_append_cons fresh value later
  constructor
  · rw [Json.at?, found]
    exact located.leads
  · intro _
    rw [Json.before, found, Option.map_some, Json.upTo,
      OrderedMap.takeWhile_append_cons fresh]
    -- The member itself goes if the path ends here; otherwise it stays, cut in the same way.
    cases path with
    | nil =>
      refine ⟨_, rfl, ?_⟩
      rw [Json.before, Option.map_none, Option.toList_none, List.append_nil]
      exact alone
    | cons segment rest =>
      obtain ⟨left, cut, readable⟩ := located.readable (List.cons_ne_nil _ _)
      refine ⟨_, rfl, ?_⟩
      rw [cut]
      exact followed left readable

/-- An item of an array. -/
theorem index {earlier : List Json} (alone : reads (.arr earlier)) (item : Json)
    (later : List Json) :
    Located reads (.arr (earlier ++ item :: later)) [.index earlier.length] item := by
  have found : (Json.arr (earlier ++ item :: later)).step? (.index earlier.length) = some item := by
    rw [Json.step?, List.getElem?_append_right (Nat.le_refl _), Nat.sub_self]
    rfl
  constructor
  · rw [Json.at?, found]
    rfl
  · intro _
    rw [Json.before, found, Option.map_some, Json.upTo, List.take_left, Json.before,
      Option.toList_none, List.append_nil]
    exact ⟨_, rfl, alone⟩

end Located

def Pinned (limit : Nat) (fault : CompileFault) (outer : Pointer) (reads : Json → Prop)
    (value : Json) : Prop :=
  ∃ inner offender, fault.path? = some ⟨outer.segments ++ inner⟩ ∧ Blames limit fault offender ∧
    Located reads value inner offender

namespace Pinned

variable {limit : Nat} {fault : CompileFault} {outer : Pointer} {reads within : Json → Prop}
  {value : Json}

theorem here (path : fault.path? = some outer) (blames : Blames limit fault value) :
    Pinned limit fault outer reads value := by
  refine ⟨[], value, ?_, blames, .here reads value⟩
  rw [path, List.append_nil]

theorem imp (pinned : Pinned limit fault outer within value)
    (weaker : ∀ left, within left → reads left) : Pinned limit fault outer reads value := by
  obtain ⟨inner, offender, path, blames, located⟩ := pinned
  exact ⟨inner, offender, path, blames, located.imp weaker⟩

/-- A traversal of the members of an object fails inside the first one that cannot be read. -/
theorem ofMembers {read : String × Json → Except CompileFault β} {members : Json.Members}
    (distinct : (OrderedMap.keys members).Nodup) (failed : members.mapM read = .error fault)
    (all : ∀ entries, (∀ entry ∈ entries, Succeeds (read entry)) → reads (.obj entries))
    (inside : ∀ name value, (name, value) ∈ members → read (name, value) = .error fault →
      Pinned limit fault (outer.key name) (fun left => Succeeds (read (name, left))) value) :
    Pinned limit fault outer reads (.obj members) := by
  obtain ⟨earlier, ⟨name, value⟩, later, rfl, readable, refused⟩ := mapM_error failed
  obtain ⟨inner, offender, path, blames, located⟩ :=
    inside name value (List.mem_append_right _ List.mem_cons_self) refused
  have fresh : name ∉ OrderedMap.keys earlier := by
    intro again
    rw [OrderedMap.keys, List.map_append] at distinct
    exact (List.nodup_append.mp distinct).2.2 name again name List.mem_cons_self rfl
  refine ⟨.key name :: inner, offender, ?_, blames, ?_⟩
  · rw [path, Pointer.segments_key, List.append_assoc, List.singleton_append]
  · apply located.key fresh (all earlier readable)
    intro left reading
    apply all
    intro entry member
    rcases List.mem_append.mp member with before | last
    · exact readable entry before
    · rw [List.mem_singleton.mp last]
      exact reading

/-- A list of names fails at its first item that is no string. -/
theorem ofNames {fault : Nat → Json.Kind → CompileFault} {items : List Json} {found : CompileFault}
    (failed : readNames fault 0 items = .error found)
    (path : ∀ position kind, (fault position kind).path? = some (outer.index position))
    (blames : ∀ position (item : Json), item.kind ≠ .string →
      Blames limit (fault position item.kind) item) :
    Pinned limit found outer (fun left => ∃ names : List String, left = .arr (names.map .str))
      (.arr items) := by
  obtain ⟨names, item, later, rfl, noString, rfl⟩ := readNames_error failed
  have located : Located (fun left => ∃ names : List String, left = .arr (names.map .str)) _
      [.index (names.map Json.str).length] item := .index ⟨names, rfl⟩ item later
  rw [List.length_map] at located
  rw [Nat.zero_add]
  exact ⟨_, item, path _ _, blames _ item noString, located⟩

end Pinned

section Readers

variable {limit depth : Nat} {path : Pointer} {fault : CompileFault}

theorem pinned_required (place : SchemaPath depth path) {value : Json}
    (failed : readRequired (path.key "required") value = .error fault) :
    Pinned limit fault (path.key "required")
      (fun left => Succeeds (readRequired (path.key "required") left)) value := by
  cases value with
  | arr items =>
    have pinned : Pinned limit fault (path.key "required") _ (.arr items) :=
      .ofNames failed (fun _ _ => rfl) fun position item => .requiredName place position
    apply pinned.imp
    rintro _ ⟨names, rfl⟩
    exact ⟨names, readNames_map _ 0 names⟩
  | null | bool accepts | num value | str value | obj members =>
    cases failed
    exact .here rfl (.keyword place .required (by simp [Json.kind, Keyword.valueKind]))

def Pinpointed (limit : Nat) (value : Json) : Prop :=
  value.hasDistinctKeys = true → ∀ path depth fault, SchemaPath depth path → depth ≤ limit + 1 →
    readNode limit path depth value = .error fault →
      Pinned limit fault path (fun left => Succeeds (readNode limit path depth left)) value

theorem succeeds_constraint_of_node {value : Json} (trigger : String)
    (read : Succeeds (readNode limit path depth value)) :
    Succeeds (readConstraint limit path depth trigger value) :=
  (succeeds_readConstraint (recognized limit value) path depth trigger).mpr
    (.schema ((recognized limit value path depth).mp read))

section Entries

variable {inner : Json.Members} (place : SchemaPath depth path) (shallow : depth ≤ limit)
  (distinct : (Json.obj inner).hasDistinctKeys = true)
  (pinpointed : ∀ entry ∈ inner, Pinpointed limit entry.2)

include place shallow distinct pinpointed

theorem pinned_properties
    (failed : readProperties limit (path.key "properties") (depth + 1) inner = .error fault) :
    Pinned limit fault (path.key "properties")
      (fun left => Succeeds (readMember limit path depth ("properties", left))) (.obj inner) := by
  obtain ⟨keys, below⟩ := Bool.and_eq_true_iff.mp distinct
  rw [readProperties_eq_mapM] at failed
  apply Pinned.ofMembers (of_decide_eq_true keys) failed
  · intro entries all
    apply (succeeds_map _ _).mpr
    rw [readProperties_eq_mapM]
    exact (succeeds_mapM entries).mpr all
  · intro name value listed refused
    have inside := pinpointed _ listed (Json.hasDistinctKeys_of_mem below listed) _ _ _
      (place.member (.inl rfl) name) (Nat.succ_le_succ shallow) (map_eq_error refused)
    exact inside.imp fun left read => (succeeds_map _ _).mpr read

theorem pinned_constraint {trigger : String} {value : Json} (listed : (trigger, value) ∈ inner)
    (failed : readConstraint limit ((path.key "dependencies").key trigger) (depth + 1) trigger
      value = .error fault) :
    Pinned limit fault ((path.key "dependencies").key trigger)
      (fun left => Succeeds (readConstraint limit ((path.key "dependencies").key trigger)
        (depth + 1) trigger left)) value := by
  cases value with
  | arr items =>
    have pinned : Pinned limit fault ((path.key "dependencies").key trigger) _ (.arr items) :=
      .ofNames (map_eq_error failed) (fun _ _ => rfl)
        fun position item => .dependencyName place trigger position
    apply pinned.imp
    rintro _ ⟨names, rfl⟩
    exact (succeeds_map _ _).mpr ⟨names, readNames_map _ 0 names⟩
  | bool accepts | obj members =>
    obtain ⟨-, below⟩ := Bool.and_eq_true_iff.mp distinct
    have inside := pinpointed _ listed (Json.hasDistinctKeys_of_mem below listed) _ _ _
      (place.member (.inr rfl) trigger) (Nat.succ_le_succ shallow) (map_eq_error failed)
    exact inside.imp fun left => succeeds_constraint_of_node trigger
  | null | num value | str value =>
    cases failed
    apply Pinned.here rfl
    apply Blames.constraint place trigger <;> simp [Json.kind]

theorem pinned_dependencies
    (failed : readDependencies limit (path.key "dependencies") (depth + 1) inner = .error fault) :
    Pinned limit fault (path.key "dependencies")
      (fun left => Succeeds (readMember limit path depth ("dependencies", left))) (.obj inner) := by
  obtain ⟨keys, -⟩ := Bool.and_eq_true_iff.mp distinct
  rw [readDependencies_eq_mapM] at failed
  apply Pinned.ofMembers (of_decide_eq_true keys) failed
  · intro entries all
    apply (succeeds_map _ _).mpr
    rw [readDependencies_eq_mapM]
    exact (succeeds_mapM entries).mpr all
  · intro trigger value listed refused
    have inside := pinned_constraint place shallow distinct pinpointed listed (map_eq_error refused)
    exact inside.imp fun left read => (succeeds_map _ _).mpr read

end Entries

theorem pinned_member (place : SchemaPath depth path) (shallow : depth ≤ limit) {name : String}
    {value : Json} (distinct : value.hasDistinctKeys = true)
    (pinpointed : ∀ inner, value = .obj inner → ∀ entry ∈ inner, Pinpointed limit entry.2)
    (failed : readMember limit path depth (name, value) = .error fault) :
    Pinned limit fault (path.key name)
      (fun left => Succeeds (readMember limit path depth (name, left))) value := by
  cases known : Keyword.ofName? name with
  | none =>
    simp only [readMember, known] at failed
    cases failed
  | some keyword =>
    have same := Keyword.name_of_ofName? known
    subst same
    simp only [readMember, known] at failed
    cases keyword with
    | required =>
      have pinned : Pinned limit fault (path.key "required") _ value :=
        pinned_required place (map_eq_error failed)
      exact pinned.imp fun left read => (succeeds_map _ _).mpr read
    | properties =>
      cases value with
      | obj inner =>
        exact pinned_properties place shallow distinct (pinpointed inner rfl) (map_eq_error failed)
      | null | bool accepts | num value | str value | arr items =>
        cases failed
        exact .here rfl (.keyword place .properties (by simp [Json.kind, Keyword.valueKind]))
    | dependencies =>
      cases value with
      | obj inner =>
        exact pinned_dependencies place shallow distinct (pinpointed inner rfl)
          (map_eq_error failed)
      | null | bool accepts | num value | str value | arr items =>
        cases failed
        exact .here rfl (.keyword place .dependencies (by simp [Json.kind, Keyword.valueKind]))

theorem pinpointed (limit : Nat) (value : Json) : Pinpointed limit value := by
  induction value using Json.subschemaInduction with
  | step value inside =>
    intro distinct path depth fault place bounded failed
    by_cases shallow : depth ≤ limit
    · cases value with
      | bool accepts =>
        rw [readNode_bool shallow] at failed
        cases failed
      | obj members =>
        obtain ⟨keys, below⟩ := Bool.and_eq_true_iff.mp distinct
        rw [readNode_obj shallow] at failed
        apply Pinned.ofMembers (of_decide_eq_true keys) (map_eq_error failed)
        · exact fun entries => (succeeds_readNode_obj shallow path entries).mpr
        · intro name value listed refused
          apply pinned_member place shallow (Json.hasDistinctKeys_of_mem below listed) _ refused
          rintro inner rfl
          exact inside members rfl name inner listed
      | null | num value | str value | arr items =>
        rw [readNode_other shallow path (by simp [Json.kind]) (by simp [Json.kind])] at failed
        cases failed
        exact .here rfl (.schema place (by simp [Json.kind]) (by simp [Json.kind]))
    · -- The first place too deep stands just below the limit, and no value was looked at.
      have limits : depth = limit + 1 := by omega
      subst limits
      rw [readNode_too_deep shallow] at failed
      cases failed
      exact .here rfl (.depth place place.length_eq)

end Readers

/-- A fault tells what is wrong at a place of the document, and that place is the first one where
anything is: the document before it can be read. -/
theorem ofJson_first_fault {limit : Nat} {document : Json} {fault : CompileFault}
    (distinct : document.hasDistinctKeys = true) (failed : ofJson limit document = .error fault) :
    ∃ path offender, fault.path? = some path ∧ document.at? path.segments = some offender ∧
      Blames limit fault offender ∧
      (path ≠ .root → ∃ left schema, document.before path.segments = some left ∧
        ofJson limit left = .ok schema) := by
  obtain ⟨inner, offender, path, blames, leads, readable⟩ :=
    pinpointed limit document distinct .root 0 fault .root (Nat.zero_le _) failed
  refine ⟨⟨inner⟩, offender, path, leads, blames, ?_⟩
  intro notRoot
  have notEmpty : inner ≠ [] := fun empty => notRoot (congrArg Pointer.mk empty)
  obtain ⟨left, cut, schema, read⟩ := readable notEmpty
  exact ⟨left, schema, cut, read⟩

section Orders

def faultyOrder : Json :=
  .obj [("title", .str "orders"),
    ("properties", .obj [("id", .bool true),
      ("order", .obj [("required", .arr [.str "id"]),
        ("dependencies", .obj [("card", .arr [.str "holder", .ofNat 5]), ("cash", .ofNat 7)])])]),
    ("required", .ofNat 3)]

def faultyName : CompileFault :=
  .invalidDependency "card"
    ((((Pointer.ofKeys ["properties", "order"]).key "dependencies").key "card").index 1) .number

theorem first_fault_of_order :
    faultyOrder.hasDistinctKeys = true ∧ ofJson 1 faultyOrder = .error faultyName ∧
      ∃ path offender, faultyName.path? = some path ∧
        faultyOrder.at? path.segments = some offender ∧ Blames 1 faultyName offender ∧
        (path ≠ .root → ∃ left schema, faultyOrder.before path.segments = some left ∧
          ofJson 1 left = .ok schema) := by
  have distinct : faultyOrder.hasDistinctKeys = true := by decide
  have failed : ofJson 1 faultyOrder = .error faultyName := rfl
  exact ⟨distinct, failed, ofJson_first_fault distinct failed⟩

/-- What is left for the reader: the second name of the card is gone, and so is what follows it. -/
example : faultyOrder.before [.key "properties", .key "order", .key "dependencies", .key "card",
      .index 1] =
    some (.obj [("title", .str "orders"),
      ("properties", .obj [("id", .bool true),
        ("order", .obj [("required", .arr [.str "id"]),
          ("dependencies", .obj [("card", .arr [.str "holder"])])])])]) := rfl

end Orders

end Schema

end SchemaCompiler
