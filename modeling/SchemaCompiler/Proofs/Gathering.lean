import SchemaCompiler.Run.Structured
import SchemaCompiler.Validator

/-!
Collections of violations. All that is asked of the collection is that its list grows as violations
are added and collections combined, and that its other operations agree with that list. Whatever is
then made of single violations, of lists and of other collections is the list of its parts, and a
verdict holds what was reported.
-/

namespace SchemaCompiler

namespace Violation.Collection

/-- The operations of the collection agree with its list, which is all that there is to it. -/
structure Lawful {ν : Type} (collection : Violation.Collection ν) : Prop where
  toList_single : ∀ violation, collection.toList (collection.single violation) = [violation]
  toList_combine : ∀ left right,
    collection.toList (collection.combine left right) =
      collection.toList left ++ collection.toList right
  head?_toList : ∀ violations,
    (collection.toList violations).head? = some (collection.head violations)
  size_eq : ∀ violations, collection.size violations = (collection.toList violations).length
  items_eq : ∀ violations, collection.items violations = collection.toList violations
  ext : ∀ left right, collection.toList left = collection.toList right → left = right

inductive Assembly where
  | single (violation : Violation)
  | ofList (violations : List Violation)
  | combine (left right : Assembly)

namespace Assembly

def parts : Assembly → List Violation
  | single violation => [violation]
  | ofList violations => violations
  | combine left right => left.parts ++ right.parts

def HasGap : Assembly → Prop
  | single _ => False
  | ofList violations => violations = []
  | combine left right => left.HasGap ∨ right.HasGap

def build? {ν : Type} (collection : Violation.Collection ν) : Assembly → Option ν
  | single violation => some (collection.single violation)
  | ofList violations => collection.ofList? violations
  | combine left right => do
    let first ← left.build? collection
    let second ← right.build? collection
    some (collection.combine first second)

end Assembly

variable {ν : Type} {collection : Violation.Collection ν}

theorem ofList?_eq_none_iff (list : List Violation) :
    collection.ofList? list = none ↔ list = [] := by
  cases list with
  | nil => exact iff_of_true rfl rfl
  | cons head tail => exact iff_of_false (Option.some_ne_none _) (List.cons_ne_nil head tail)

theorem Assembly.build?_eq_none_iff (assembly : Assembly) :
    assembly.build? collection = none ↔ assembly.HasGap := by
  induction assembly with
  | single violation => exact iff_of_false (Option.some_ne_none _) id
  | ofList violations => exact ofList?_eq_none_iff violations
  | combine left right onLeft onRight =>
    rw [HasGap, ← onLeft, ← onRight, build?]
    cases left.build? collection with
    | none => exact iff_of_true rfl (.inl rfl)
    | some first =>
      cases right.build? collection with
      | none => exact iff_of_true rfl (.inr rfl)
      | some second => simp

namespace Lawful

variable (lawful : collection.Lawful)

include lawful

theorem toList_ne_nil (violations : ν) : collection.toList violations ≠ [] := by
  intro empty
  have head := lawful.head?_toList violations
  rw [empty] at head
  cases head

theorem toList_foldl (rest : List Violation) (violations : ν) :
    collection.toList
      (rest.foldl (fun violations next => collection.combine violations (collection.single next))
        violations) = collection.toList violations ++ rest := by
  induction rest generalizing violations with
  | nil => exact (List.append_nil _).symm
  | cons next rest ih =>
    calc collection.toList (rest.foldl _ (collection.combine violations (collection.single next)))
      _ = collection.toList (collection.combine violations (collection.single next)) ++ rest :=
        ih _
      _ = collection.toList violations ++ [next] ++ rest := by
        rw [lawful.toList_combine, lawful.toList_single]
      _ = collection.toList violations ++ next :: rest := List.append_assoc _ _ _

theorem toList_ofList? {list : List Violation} {violations : ν}
    (built : collection.ofList? list = some violations) : collection.toList violations = list := by
  cases list with
  | nil => cases built
  | cons head tail =>
    rw [ofList?, Option.some.injEq] at built
    rw [← built, lawful.toList_foldl, lawful.toList_single]
    rfl

theorem of_list {list : List Violation} {violations : ν}
    (built : collection.ofList? list = some violations) :
    collection.toList violations = list ∧ collection.items violations = list ∧
      collection.size violations = list.length ∧
      list.head? = some (collection.head violations) := by
  have same := lawful.toList_ofList? built
  refine ⟨same, ?_, ?_, ?_⟩
  · rw [lawful.items_eq, same]
  · rw [lawful.size_eq, same]
  · rw [← same, lawful.head?_toList]

theorem toList_build? (assembly : Assembly) {violations : ν}
    (built : assembly.build? collection = some violations) :
    collection.toList violations = assembly.parts := by
  induction assembly generalizing violations with
  | single violation =>
    rw [Assembly.build?, Option.some.injEq] at built
    rw [← built]
    exact lawful.toList_single violation
  | ofList violations => exact lawful.toList_ofList? built
  | combine left right onLeft onRight =>
    rw [Assembly.build?] at built
    cases first : left.build? collection with
    | none =>
      rw [first] at built
      cases built
    | some before =>
      cases second : right.build? collection with
      | none =>
        rw [first, second] at built
        cases built
      | some after =>
        rw [first, second] at built
        cases built
        rw [lawful.toList_combine, onLeft first, onRight second, Assembly.parts]

theorem combine_assoc (first second third : ν) :
    collection.combine (collection.combine first second) third =
      collection.combine first (collection.combine second third) := by
  apply lawful.ext
  simp only [lawful.toList_combine, List.append_assoc]

theorem atPath_eq (violations : ν) (path : Pointer) :
    collection.atPath violations path =
      (collection.toList violations).filter fun violation => violation.instancePath = path := by
  rw [atPath, lawful.items_eq]
  rfl

theorem withKeyword_eq (violations : ν) (keyword : String) :
    collection.withKeyword violations keyword =
      (collection.toList violations).filter fun violation => violation.keyword = keyword := by
  rw [withKeyword, lawful.items_eq]
  rfl

theorem atPath_combine (left right : ν) (path : Pointer) :
    collection.atPath (collection.combine left right) path =
      collection.atPath left path ++ collection.atPath right path := by
  simp only [lawful.atPath_eq, lawful.toList_combine, List.filter_append]

theorem withKeyword_combine (left right : ν) (keyword : String) :
    collection.withKeyword (collection.combine left right) keyword =
      collection.withKeyword left keyword ++ collection.withKeyword right keyword := by
  simp only [lawful.withKeyword_eq, lawful.toList_combine, List.filter_append]

end Lawful

end Violation.Collection

theorem Violations.lawful_collection : Violations.collection.Lawful where
  toList_single := toList_single
  toList_combine := toList_append
  head?_toList _ := rfl
  size_eq _ := rfl
  items_eq _ := rfl
  ext _ _ := toList_injective

namespace Verdict

open Violation (Collection)

/-- The conjunction of two verdicts is valid if both are; of two failures it combines the
violations. -/
structure Accumulates {ν : Type} (collection : Collection ν)
    (both : Verdict ν → Verdict ν → Verdict ν) : Prop where
  valid_valid : both .valid .valid = .valid
  valid_invalid : ∀ violations, both .valid (.invalid violations) = .invalid violations
  invalid_valid : ∀ violations, both (.invalid violations) .valid = .invalid violations
  invalid_invalid : ∀ left right,
    both (.invalid left) (.invalid right) = .invalid (collection.combine left right)

variable {ν : Type} {collection : Collection ν} {both : Verdict ν → Verdict ν → Verdict ν}

theorem accumulates_and : Accumulates Violations.collection and where
  valid_valid := rfl
  valid_invalid _ := rfl
  invalid_valid _ := rfl
  invalid_invalid _ _ := rfl

theorem isValid_gather (list : List Violation) :
    (gather collection list).isValid = list.isEmpty := by
  cases list <;> rfl

section

variable (lawful : collection.Lawful)

include lawful

theorem found_gather (list : List Violation) :
    (gather collection list).found collection = list := by
  unfold gather
  cases built : collection.ofList? list with
  | none => exact (Violation.Collection.ofList?_eq_none_iff list |>.mp built).symm
  | some violations => exact lawful.toList_ofList? built

theorem found_eq_nil_iff (verdict : Verdict ν) :
    verdict.found collection = [] ↔ verdict = .valid := by
  cases verdict with
  | valid => exact iff_of_true rfl rfl
  | invalid violations => exact iff_of_false (lawful.toList_ne_nil violations) (by simp)

theorem eq_of_found_eq {left right : Verdict ν}
    (same : left.found collection = right.found collection) : left = right := by
  cases left with
  | valid => exact ((found_eq_nil_iff lawful right).mp same.symm).symm
  | invalid before =>
    cases right with
    | valid => exact (found_eq_nil_iff lawful _).mp same
    | invalid after => exact congrArg invalid (lawful.ext before after same)

variable (accumulates : Accumulates collection both)

include accumulates

theorem found_both (left right : Verdict ν) :
    (both left right).found collection = left.found collection ++ right.found collection := by
  cases left with
  | valid =>
    cases right with
    | valid => rw [accumulates.valid_valid]; rfl
    | invalid violations => rw [accumulates.valid_invalid]; rfl
  | invalid before =>
    cases right with
    | valid => rw [accumulates.invalid_valid]; exact (List.append_nil _).symm
    | invalid after => rw [accumulates.invalid_invalid]; exact lawful.toList_combine before after

theorem both_assoc (first second third : Verdict ν) :
    both (both first second) third = both first (both second third) := by
  apply eq_of_found_eq lawful
  simp only [found_both lawful accumulates, List.append_assoc]

theorem found_foldl (first : Verdict ν) (others : List (Verdict ν)) :
    (others.foldl both first).found collection =
      (first :: others).flatMap fun verdict => verdict.found collection := by
  induction others generalizing first with
  | nil => exact (List.append_nil _).symm
  | cons second others ih =>
    rw [List.foldl_cons, ih, List.flatMap_cons, found_both lawful accumulates, List.append_assoc]
    rfl

theorem foldl_eq_valid_iff (first : Verdict ν) (others : List (Verdict ν)) :
    others.foldl both first = .valid ↔ ∀ verdict ∈ first :: others, verdict = .valid := by
  rw [← found_eq_nil_iff lawful, found_foldl lawful accumulates, List.flatMap_eq_nil_iff]
  simp only [found_eq_nil_iff lawful]

end

end Verdict

namespace Validator

open Violation (Collection)
open Violation.Collection (Assembly)

variable {ν : Type} {collection : Collection ν}

theorem found_validateIn (lawful : collection.Lawful) (validator : Validator)
    (subject : Instance) :
    (validator.validateIn collection subject).map (Verdict.found collection) =
      Run.run validator.code subject := by
  rw [validateIn]
  cases Run.run validator.code subject with
  | error fault => rfl
  | ok violations => exact congrArg Except.ok (Verdict.found_gather lawful violations)

theorem isValid_validateIn (validator : Validator) (subject : Instance) :
    (validator.validateIn collection subject).map Verdict.isValid =
      (Run.run validator.code subject).map List.isEmpty := by
  rw [validateIn]
  cases Run.run validator.code subject with
  | error fault => rfl
  | ok violations => exact congrArg Except.ok (Verdict.isValid_gather violations)

theorem isValid_eq (validator : Validator) (value : Json) :
    validator.isValid value = (Run.run validator.code { value }).map List.isEmpty := by
  rw [← @isValid_validateIn _ Violations.collection validator { value }, isValid, validate]
  cases validator.validateIn Violations.collection { value } <;> rfl

/-- There is a collection of every list but the empty one, and it agrees with the list. However a
collection is put together, its list is that of its parts from the left to the right, so that
combining is associative. The queries find what their condition asks for in that list, part by part.
A chain of verdicts is valid if all of them are; otherwise it fails with the violations of all of
them in order. And a validator fails with exactly what its code reports. -/
theorem validate_gathers_run (lawful : collection.Lawful)
    {both : Verdict ν → Verdict ν → Verdict ν} (accumulates : Verdict.Accumulates collection both) :
    (∀ list,
      (collection.ofList? list = none ↔ list = []) ∧
      ∀ violations, collection.ofList? list = some violations →
        collection.toList violations = list ∧ collection.items violations = list ∧
          collection.size violations = list.length ∧
          list.head? = some (collection.head violations)) ∧
    (∀ assembly : Assembly,
      (assembly.build? collection = none ↔ assembly.HasGap) ∧
      ∀ violations, assembly.build? collection = some violations →
        collection.toList violations = assembly.parts) ∧
    (∀ first second third,
      collection.combine (collection.combine first second) third =
        collection.combine first (collection.combine second third)) ∧
    (∀ violations path, collection.atPath violations path =
      (collection.toList violations).filter fun violation => violation.instancePath = path) ∧
    (∀ violations keyword, collection.withKeyword violations keyword =
      (collection.toList violations).filter fun violation => violation.keyword = keyword) ∧
    (∀ left right path, collection.atPath (collection.combine left right) path =
      collection.atPath left path ++ collection.atPath right path) ∧
    (∀ left right keyword, collection.withKeyword (collection.combine left right) keyword =
      collection.withKeyword left keyword ++ collection.withKeyword right keyword) ∧
    (∀ first second third, both (both first second) third = both first (both second third)) ∧
    (∀ first others,
      (others.foldl both first = .valid ↔ ∀ verdict ∈ first :: others, verdict = .valid) ∧
      (others.foldl both first).found collection =
        (first :: others).flatMap fun verdict => verdict.found collection) ∧
    (∀ (validator : Validator) (subject : Instance),
      (validator.validateIn collection subject).map (Verdict.found collection) =
        Run.run validator.code subject ∧
      (validator.validateIn collection subject).map Verdict.isValid =
        (Run.run validator.code subject).map List.isEmpty) ∧
    ∀ (validator : Validator) (value : Json),
      validator.isValid value = (Run.run validator.code { value }).map List.isEmpty := by
  refine ⟨fun list => ⟨Collection.ofList?_eq_none_iff list, fun violations => lawful.of_list⟩,
    fun assembly => ⟨assembly.build?_eq_none_iff, fun violations => lawful.toList_build? assembly⟩,
    lawful.combine_assoc, lawful.atPath_eq, lawful.withKeyword_eq, lawful.atPath_combine,
    lawful.withKeyword_combine, Verdict.both_assoc lawful accumulates, ?_, ?_, isValid_eq⟩
  · intro first others
    exact ⟨Verdict.foldl_eq_valid_iff lawful accumulates first others,
      Verdict.found_foldl lawful accumulates first others⟩
  · intro validator subject
    exact ⟨found_validateIn lawful validator subject, isValid_validateIn validator subject⟩

section Refusal

def refusing : Validator where
  code := [.fail ⟨"false schema", .data, .root, [], .falseSchema⟩]
  options := {}

def refusal : Violation where
  instancePath := .root
  schemaPath := .root
  keyword := "false schema"
  params := []
  message := "boolean schema is false"

def nameless : Violation where
  instancePath := .ofKeys ["guest"]
  schemaPath := .ofKeys ["required"]
  keyword := "required"
  params := [("missingProperty", .str "name")]
  message := "should have required property 'name'"

theorem validate_gathers_run_refusal :
    Violations.collection.Lawful ∧ Verdict.Accumulates Violations.collection Verdict.and ∧
      Run.run refusing.code { value := .null } = .ok [refusal] ∧
      (refusing.validate { value := .null }).map (Verdict.found Violations.collection) =
        .ok [refusal] ∧
      Violations.toList ⟨nameless, [refusal, nameless]⟩ = [nameless, refusal, nameless] ∧
      ([.valid, .invalid ⟨refusal, [nameless]⟩].foldl Verdict.and
        (.invalid ⟨nameless, []⟩)).found Violations.collection = [nameless, refusal, nameless] := by
  have ran : Run.run refusing.code { value := .null } = .ok [refusal] := by
    rw [Run.run, Run.runBlock_eq_execBlock]
    rfl
  obtain ⟨onList, -, -, -, -, -, -, -, onChain, onRun, -⟩ :=
    validate_gathers_run Violations.lawful_collection Verdict.accumulates_and
  refine ⟨Violations.lawful_collection, Verdict.accumulates_and, ran, ?_, ?_, (onChain _ _).2⟩
  · exact (onRun refusing _).1.trans ran
  · exact ((onList _).2 _ rfl).1

end Refusal

end Validator

end SchemaCompiler
