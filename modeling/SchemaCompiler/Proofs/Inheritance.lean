import SchemaCompiler.Proofs.Compilation
import SchemaCompiler.Proofs.Schema.Agreement

/-!
What a prototype does to a validation. Where only own properties count it does nothing at all, and
otherwise it acts as members that were copied into every object of the instance. The objects in a
prototype inherit from it as well, so the copies are made down to a depth; a schema looks no deeper
than it nests.
-/

namespace SchemaCompiler

namespace Run

@[simp] theorem lookup_own (prototype : Json.Members) (target : Json) (property : String) :
    lookup prototype target property true = target.get? property := by
  cases target with
  | obj members =>
    simp only [lookup, Json.get?, Json.members?, Option.bind_some]
    cases OrderedMap.get? members property <;> rfl
  | _ => rfl

theorem lookup_of_own {target value : Json} {property : String}
    (owns : target.get? property = some value) (prototype : Json.Members) (own : Bool) :
    lookup prototype target property own = some value := by
  cases target with
  | obj members =>
    simp only [Json.get?, Json.members?, Option.bind_some] at owns
    simp only [lookup, owns]
  | _ => cases owns

theorem lookup_nil (target : Json) (property : String) (own : Bool) :
    lookup [] target property own = target.get? property := by
  cases own with
  | true => exact lookup_own [] target property
  | false =>
    cases target with
    | obj members =>
      simp only [lookup, Json.get?, Json.members?, Option.bind_some]
      cases OrderedMap.get? members property <;> rfl
    | _ => rfl

/-- The value with what its objects inherit written into them, `depth` levels down. -/
def expand (prototype : Json.Members) : Nat → Json → Json
  | depth + 1, .obj members =>
    let inherited := prototype.filter fun entry => entry.1 ∉ OrderedMap.keys members
    .obj ((members ++ inherited).map fun entry => (entry.1, expand prototype depth entry.2))
  | _, value => value

@[simp] theorem kind_expand (prototype : Json.Members) (depth : Nat) (value : Json) :
    (expand prototype depth value).kind = value.kind := by
  cases depth <;> cases value <;> rfl

/-- A level of expansion turns what is inherited into members. -/
theorem get?_expand (prototype : Json.Members) (depth : Nat) (value : Json) (property : String) :
    (expand prototype (depth + 1) value).get? property =
      (lookup prototype value property false).map (expand prototype depth) := by
  cases value with
  | obj members =>
    have member : ∀ key, decide (key ∉ OrderedMap.keys members) =
        (OrderedMap.get? members key).isNone := by
      intro key
      rw [← Bool.coe_iff_coe, decide_eq_true_iff, Option.isNone_iff_eq_none]
      exact (OrderedMap.get?_eq_none_iff members key).symm
    simp only [expand, Json.get?, Json.members?, Option.bind_some, lookup, member]
    rw [OrderedMap.get?_map (fun _ => expand prototype depth), OrderedMap.get?_append,
      OrderedMap.get?_filter fun key => (OrderedMap.get? members key).isNone]
    cases found : OrderedMap.get? members property <;> rfl
  | _ => rfl

end Run

namespace Schema

open Run

section Presence

variable (prototype other : Json.Members)

theorem agreeTo_own (depth : Nat) (value : Json) :
    AgreeTo ⟨true, prototype⟩ ⟨true, other⟩ depth value value := by
  apply AgreeTo.ofSame
  · intro value property
    simp only [Presence.has_eq_isSome_lookup, lookup_own]
  · intro value property present
    simp only [Presence.has_eq_isSome_lookup, lookup_own] at present
    obtain ⟨inner, owns⟩ := Option.isSome_iff_exists.mp present
    simp only [Presence.valueAt_eq_getD_lookup, lookup_of_own owns]

theorem agreeTo_without_prototype (own otherwise : Bool) (depth : Nat) (value : Json) :
    AgreeTo ⟨own, []⟩ ⟨otherwise, []⟩ depth value value := by
  apply AgreeTo.ofSame
  · intro value property
    simp only [Presence.has_eq_isSome_lookup, lookup_nil]
  · intro value property present
    rfl

/-- An instance and its expansion agree as far as the expansion goes. -/
theorem agreeTo_expand {depth levels : Nat} (deep : depth < levels) (value : Json) :
    AgreeTo ⟨false, prototype⟩ ⟨true, []⟩ depth value (expand prototype levels value) := by
  have surface : ∀ levels value, Matches ⟨false, prototype⟩ ⟨true, []⟩ value
      (expand prototype (levels + 1) value) := by
    intro levels value
    refine ⟨(kind_expand _ _ _).symm, ?_⟩
    intro property
    simp only [Presence.has_eq_isSome_lookup, lookup_nil, get?_expand, Option.isSome_map]
  induction depth generalizing levels value with
  | zero =>
    obtain ⟨below, rfl⟩ : ∃ below, levels = below + 1 := ⟨levels - 1, by omega⟩
    exact surface below value
  | succ depth ih =>
    obtain ⟨below, rfl⟩ : ∃ below, levels = below + 1 := ⟨levels - 1, by omega⟩
    refine ⟨surface below value, ?_⟩
    intro property present
    rw [Presence.has_eq_isSome_lookup] at present
    obtain ⟨inner, found⟩ := Option.isSome_iff_exists.mp present
    have expanded : (expand prototype (below + 1) value).get? property =
        some (expand prototype below inner) := by
      rw [get?_expand, found, Option.map_some]
    simp only [Presence.valueAt_eq_getD_lookup, found, lookup_nil, expanded, Option.getD_some]
    exact ih (by omega) inner

end Presence

variable (schema : Schema) (value : Json)

theorem violationsOf_own (prototype other : Json.Members) :
    schema.violationsOf true ⟨value, prototype⟩ = schema.violationsOf true ⟨value, other⟩ :=
  indistinct _ _ schema schema.nesting value value .root .root (Nat.le_refl _)
    (agreeTo_own prototype other schema.nesting value)

theorem violationsOf_without_prototype (own otherwise : Bool) :
    schema.violationsOf own { value } = schema.violationsOf otherwise { value } :=
  indistinct _ _ schema schema.nesting value value .root .root (Nat.le_refl _)
    (agreeTo_without_prototype own otherwise schema.nesting value)

theorem violationsOf_expand (prototype : Json.Members) {levels : Nat}
    (deep : schema.nesting < levels) :
    schema.violationsOf false ⟨value, prototype⟩ =
      schema.violationsOf true { value := expand prototype levels value } :=
  indistinct _ _ schema schema.nesting value _ .root .root (Nat.le_refl _)
    (agreeTo_expand prototype deep value)

end Schema

namespace Validator

open Run

/-- A validator for which only own properties count reports the same whatever is inherited. -/
theorem run_ignores_prototype (policy : ErrorPolicy) (maxDepth : Nat) (schema : Schema) :
    ∃ validator, ofSchema ⟨true, policy, maxDepth⟩ schema = .ok validator ∧
      ∀ value prototype other, ∃ violations,
        run validator.code ⟨value, prototype⟩ = .ok violations ∧
          run validator.code ⟨value, other⟩ = .ok violations := by
  refine ⟨compiled ⟨true, policy, maxDepth⟩ schema, ofSchema_eq _ _, ?_⟩
  intro value prototype other
  refine ⟨_, run_compiled _ schema ⟨value, prototype⟩, ?_⟩
  rw [run_compiled, schema.violationsOf_own value other prototype]

/-- Inherited properties act as members copied into every object, deeper than the schema nests: a
validator for which they count reports what one for which they do not reports on the copies. Without
a prototype, both report the same on every value. -/
theorem run_expand (policy : ErrorPolicy) (maxDepth : Nat) (schema : Schema) {levels : Nat}
    (deep : schema.nesting < levels) :
    ∃ inheriting owning,
      ofSchema ⟨false, policy, maxDepth⟩ schema = .ok inheriting ∧
      ofSchema ⟨true, policy, maxDepth⟩ schema = .ok owning ∧
      (∀ value prototype, ∃ violations,
        run inheriting.code ⟨value, prototype⟩ = .ok violations ∧
          run owning.code { value := expand prototype levels value } = .ok violations) ∧
      ∀ value, ∃ violations,
        run inheriting.code { value } = .ok violations ∧
          run owning.code { value } = .ok violations := by
  refine ⟨compiled ⟨false, policy, maxDepth⟩ schema, compiled ⟨true, policy, maxDepth⟩ schema,
    ofSchema_eq _ _, ofSchema_eq _ _, ?_, ?_⟩
  · intro value prototype
    refine ⟨_, run_compiled _ schema ⟨value, prototype⟩, ?_⟩
    rw [run_compiled, schema.violationsOf_expand value prototype deep]
  · intro value
    refine ⟨_, run_compiled _ schema { value }, ?_⟩
    rw [run_compiled, schema.violationsOf_without_prototype value true false]

section Order

def holderPrototype : Json.Members := [("holder", .obj [("name", .str "none")])]

def holderSchema : Schema :=
  .object { properties? := some [("order", .object { properties? := some [("holder",
    .object { required? := some ["holder", "address"] })] })] }

theorem run_expand_holder :
    holderSchema.nesting < 3 ∧
      ∃ inheriting owning,
        ofSchema ⟨false, .accumulateAll, 2⟩ holderSchema = .ok inheriting ∧
        ofSchema ⟨true, .accumulateAll, 2⟩ holderSchema = .ok owning ∧
        ∃ violation,
          run inheriting.code ⟨.obj [("order", .obj [])], holderPrototype⟩ = .ok [violation] ∧
            run owning.code { value := expand holderPrototype 3 (.obj [("order", .obj [])]) } =
              .ok [violation] := by
  have deep : holderSchema.nesting < 3 := by decide
  obtain ⟨inheriting, owning, first, second, same, -⟩ :=
    run_expand .accumulateAll 2 holderSchema deep
  obtain ⟨violations, inherited, owned⟩ := same (.obj [("order", .obj [])]) holderPrototype
  rw [ofSchema_eq] at first
  cases first
  have reported := run_compiled ⟨false, .accumulateAll, 2⟩ holderSchema
    ⟨.obj [("order", .obj [])], holderPrototype⟩
  cases reported.symm.trans inherited
  exact ⟨deep, _, owning, ofSchema_eq _ _, second, _, reported, owned⟩

end Order

end Validator

end SchemaCompiler
