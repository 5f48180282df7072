import Mathlib.Data.List.Forall2
import SchemaCompiler.Proofs.Schema.Reading

/-!
Reading goes from entry to entry. The readers of members, of properties and of dependencies are
traversals of their lists, so that they succeed where every entry can be read on its own and fail
with the fault of the first entry that cannot.
-/

namespace SchemaCompiler.Schema

def Succeeds (attempt : Except ε α) : Prop := ∃ result, attempt = .ok result

theorem succeeds_ok (result : α) : Succeeds (.ok result : Except ε α) := ⟨result, rfl⟩

theorem not_succeeds_error (fault : ε) : ¬ Succeeds (.error fault : Except ε α) := by
  rintro ⟨result, same⟩
  cases same

theorem succeeds_map (attempt : Except ε α) (build : α → β) :
    Succeeds (attempt.map build) ↔ Succeeds attempt := by
  cases attempt with
  | error fault => exact iff_of_false (not_succeeds_error fault) (not_succeeds_error fault)
  | ok result => exact iff_of_true (succeeds_ok (build result)) (succeeds_ok result)

theorem map_eq_error {attempt : Except ε α} {build : α → β} {fault : ε}
    (failed : attempt.map build = .error fault) : attempt = .error fault := by
  cases attempt with
  | error other => exact congrArg Except.error (Except.error.inj failed)
  | ok result => cases failed

section Traversal

variable {read : α → Except ε β}

theorem forall₂_of_mapM {items : List α} {results : List β} (done : items.mapM read = .ok results) :
    List.Forall₂ (fun item result => read item = .ok result) items results := by
  induction items generalizing results with
  | nil =>
    cases done
    exact .nil
  | cons item rest ih =>
    rw [List.mapM_cons] at done
    obtain ⟨result, here, others⟩ := bind_eq_ok done
    obtain ⟨later, there, built⟩ := bind_eq_ok others
    cases built
    exact .cons here (ih there)

theorem succeeds_mapM (items : List α) :
    Succeeds (items.mapM read) ↔ ∀ item ∈ items, Succeeds (read item) := by
  induction items with
  | nil => exact iff_of_true ⟨[], rfl⟩ (List.forall_mem_nil _)
  | cons item rest ih =>
    rw [List.mapM_cons, List.forall_mem_cons, ← ih]
    cases read item with
    | error fault =>
      exact iff_of_false (not_succeeds_error fault) fun both => not_succeeds_error fault both.1
    | ok result =>
      cases rest.mapM read with
      | error fault =>
        exact iff_of_false (not_succeeds_error fault) fun both => not_succeeds_error fault both.2
      | ok later => exact iff_of_true (succeeds_ok _) ⟨succeeds_ok result, succeeds_ok later⟩

theorem mapM_error {items : List α} {fault : ε} (failed : items.mapM read = .error fault) :
    ∃ earlier item later, items = earlier ++ item :: later ∧
      (∀ before ∈ earlier, Succeeds (read before)) ∧ read item = .error fault := by
  induction items with
  | nil => cases failed
  | cons item rest ih =>
    rw [List.mapM_cons] at failed
    cases here : read item with
    | error first =>
      rw [here] at failed
      cases failed
      exact ⟨[], item, rest, rfl, List.forall_mem_nil _, here⟩
    | ok result =>
      rw [here] at failed
      cases there : rest.mapM read with
      | error first =>
        rw [there] at failed
        cases failed
        obtain ⟨earlier, offender, later, split, readable, refused⟩ := ih there
        refine ⟨item :: earlier, offender, later, ?_, ?_, refused⟩
        · rw [split, List.cons_append]
        · exact List.forall_mem_cons.mpr ⟨⟨result, here⟩, readable⟩
      | ok later =>
        rw [there] at failed
        cases failed

end Traversal

theorem readNames_map (fault : Nat → Json.Kind → CompileFault) (position : Nat)
    (names : List String) : readNames fault position (names.map .str) = .ok names := by
  induction names generalizing position with
  | nil => rfl
  | cons name rest ih =>
    rw [List.map_cons, readNames, ih]
    rfl

theorem readNames_error {fault : Nat → Json.Kind → CompileFault} {position : Nat}
    {items : List Json} {found : CompileFault}
    (failed : readNames fault position items = .error found) :
    ∃ (names : List String) (item : Json) (later : List Json),
      items = names.map .str ++ item :: later ∧ item.kind ≠ .string ∧
        found = fault (position + names.length) item.kind := by
  induction items generalizing position with
  | nil => cases failed
  | cons item rest ih =>
    cases item with
    | str name =>
      rw [readNames] at failed
      cases there : readNames fault (position + 1) rest with
      | ok names =>
        rw [there] at failed
        cases failed
      | error other =>
        rw [there] at failed
        cases failed
        obtain ⟨names, offender, later, split, kind, same⟩ := ih there
        refine ⟨name :: names, offender, later, ?_, kind, ?_⟩
        · rw [split, List.map_cons, List.cons_append]
        · rw [same, List.length_cons, Nat.add_assoc, Nat.add_comm 1]
    | _ =>
      cases failed
      refine ⟨[], _, rest, rfl, ?_, rfl⟩
      rintro ⟨⟩

def readNamed (read : String → Json → Except ε β) (entry : String × Json) :
    Except ε (String × β) :=
  (read entry.1 entry.2).map (Prod.mk entry.1)

def readConstraint (limit : Nat) (path : Pointer) (depth : Nat) (trigger : String) :
    Json → Except CompileFault (Constraint Schema)
  | .arr items => (readTriggerNames trigger path items).map .names
  | .bool accepts => (readNode limit path depth (.bool accepts)).map .schema
  | .obj members => (readNode limit path depth (.obj members)).map .schema
  | other => .error (.invalidDependency trigger path other.kind)

inductive Member where
  | remark (name : String) (value : Json)
  | required (names : List String)
  | properties (entries : List (String × Schema))
  | dependencies (entries : List (String × Constraint Schema))

def Member.add : Member → SchemaObject Schema → SchemaObject Schema
  | remark name value, others =>
    { others with annotations := (name, value) :: others.annotations }
  | required names, others => { others with required? := some names }
  | properties entries, others => { others with properties? := some entries }
  | dependencies entries, others => { others with dependencies? := some entries }

def assemble (members : List Member) : SchemaObject Schema := members.foldr Member.add {}

def readMember (limit : Nat) (path : Pointer) (depth : Nat) (entry : String × Json) :
    Except CompileFault Member :=
  match Keyword.ofName? entry.1, entry.2 with
  | none, value => .ok (.remark entry.1 value)
  | some .required, value => (readRequired (path.key entry.1) value).map .required
  | some .properties, .obj members =>
    (readProperties limit (path.key entry.1) (depth + 1) members).map .properties
  | some .dependencies, .obj members =>
    (readDependencies limit (path.key entry.1) (depth + 1) members).map .dependencies
  | some keyword, other => .error (.keywordType keyword (path.key entry.1) .object other.kind)

section Readers

variable (limit : Nat) (path : Pointer) (depth : Nat)

theorem readProperties_eq_mapM (members : Json.Members) :
    readProperties limit path depth members =
      members.mapM (readNamed fun name value => readNode limit (path.key name) depth value) := by
  induction members with
  | nil => rfl
  | cons entry rest ih =>
    obtain ⟨name, value⟩ := entry
    rw [readProperties, List.mapM_cons, ih, readNamed]
    cases readNode limit (path.key name) depth value <;> rfl

theorem readDependencies_eq_mapM (members : Json.Members) :
    readDependencies limit path depth members =
      members.mapM (readNamed fun trigger value =>
        readConstraint limit (path.key trigger) depth trigger value) := by
  induction members with
  | nil => rfl
  | cons entry rest ih =>
    obtain ⟨trigger, value⟩ := entry
    unfold readDependencies
    rw [List.mapM_cons, ih, readNamed]
    cases value with
    | arr items =>
      simp only [readConstraint]
      cases readTriggerNames trigger (path.key trigger) items <;> rfl
    | bool accepts =>
      simp only [readConstraint]
      cases readNode limit (path.key trigger) depth (.bool accepts) <;> rfl
    | obj members =>
      simp only [readConstraint]
      cases readNode limit (path.key trigger) depth (.obj members) <;> rfl
    | _ => rfl

theorem succeeds_readProperties (members : Json.Members) :
    Succeeds (readProperties limit path depth members) ↔
      ∀ entry ∈ members, Succeeds (readNode limit (path.key entry.1) depth entry.2) := by
  rw [readProperties_eq_mapM, succeeds_mapM]
  simp only [readNamed, succeeds_map]

theorem succeeds_readDependencies (members : Json.Members) :
    Succeeds (readDependencies limit path depth members) ↔
      ∀ entry ∈ members,
        Succeeds (readConstraint limit (path.key entry.1) depth entry.1 entry.2) := by
  rw [readDependencies_eq_mapM, succeeds_mapM]
  simp only [readNamed, succeeds_map]

theorem readMembers_eq_mapM (members : Json.Members) :
    readMembers limit path depth members =
      (members.mapM (readMember limit path depth)).map assemble := by
  induction members with
  | nil => rfl
  | cons entry rest ih =>
    obtain ⟨name, value⟩ := entry
    unfold readMembers
    rw [List.mapM_cons, ih, readMember]
    -- Both sides read the member first and the rest after it, so the faults come in one order.
    cases Keyword.ofName? name with
    | none => cases rest.mapM (readMember limit path depth) <;> rfl
    | some keyword =>
      cases keyword with
      | required =>
        simp only
        cases readRequired (path.key name) value with
        | error fault => rfl
        | ok names => cases rest.mapM (readMember limit path depth) <;> rfl
      | properties =>
        cases value with
        | obj members =>
          simp only
          cases readProperties limit (path.key name) (depth + 1) members with
          | error fault => rfl
          | ok entries => cases rest.mapM (readMember limit path depth) <;> rfl
        | _ => rfl
      | dependencies =>
        cases value with
        | obj members =>
          simp only
          cases readDependencies limit (path.key name) (depth + 1) members with
          | error fault => rfl
          | ok entries => cases rest.mapM (readMember limit path depth) <;> rfl
        | _ => rfl

theorem readNode_bool {limit depth : Nat} (shallow : depth ≤ limit) (path : Pointer)
    (accepts : Bool) : readNode limit path depth (.bool accepts) = .ok (.bool accepts) := by
  rw [readNode, if_neg (Nat.not_lt.mpr shallow)]

theorem readNode_other {limit depth : Nat} (shallow : depth ≤ limit) (path : Pointer) {value : Json}
    (noBool : value.kind ≠ .boolean) (noObject : value.kind ≠ .object) :
    readNode limit path depth value = .error (.invalidSchema path value.kind) := by
  cases value with
  | bool accepts => exact absurd rfl noBool
  | obj members => exact absurd rfl noObject
  | _ =>
    unfold readNode
    rw [if_neg (Nat.not_lt.mpr shallow)]

theorem readNode_obj {limit depth : Nat} (shallow : depth ≤ limit) (path : Pointer)
    (members : Json.Members) :
    readNode limit path depth (.obj members) =
      (members.mapM (readMember limit path depth)).map fun read => .object (assemble read) := by
  rw [readNode, if_neg (Nat.not_lt.mpr shallow)]
  simp only [readMembers_eq_mapM]
  cases members.mapM (readMember limit path depth) <;> rfl

end Readers

theorem succeeds_readNode_obj {limit depth : Nat} (shallow : depth ≤ limit) (path : Pointer)
    (members : Json.Members) :
    Succeeds (readNode limit path depth (.obj members)) ↔
      ∀ entry ∈ members, Succeeds (readMember limit path depth entry) := by
  rw [readNode_obj shallow, succeeds_map, succeeds_mapM]

theorem readNode_too_deep {limit depth : Nat} (deep : ¬ depth ≤ limit) (path : Pointer)
    (value : Json) : readNode limit path depth value = .error (.maxDepthExceeded path limit) := by
  unfold readNode
  exact if_pos (Nat.lt_of_not_le deep)

end SchemaCompiler.Schema
