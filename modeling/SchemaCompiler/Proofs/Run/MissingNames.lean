import SchemaCompiler.Proofs.Run.Folding

/-!
The condition on missing names as an expression that is evaluated: it meets no fault, its value is
true if one of the names is missing, and it keeps the first such name and touches nothing else. How
the condition is written depends on how many names there are; what it does does not.
-/

namespace SchemaCompiler.Emit

open Code Run

/-- The value is an object with a member of that name, or with a prototype that has one where
inherited members count. -/
def Possesses (own : Bool) (prototype : Json.Members) (value : Json) (name : String) : Prop :=
  ∃ members, value = .obj members ∧
    (name ∈ OrderedMap.keys members ∨ own = false ∧ name ∈ OrderedMap.keys prototype)

/-- The value possesses the names up to this one, and not this one. -/
def FirstAbsent (own : Bool) (prototype : Json.Members) (value : Json) (names : List String)
    (first : String) : Prop :=
  ∃ earlier later, names = earlier ++ first :: later ∧
    (∀ name ∈ earlier, Possesses own prototype value name) ∧
    ¬ Possesses own prototype value first

theorem has_eq_true_iff (presence : Schema.Presence) (value : Json) (name : String) :
    presence.has value name = true ↔
      Possesses presence.own presence.prototype value name := by
  cases value with
  | obj members =>
    simp only [Schema.Presence.has, Possesses, Bool.or_eq_true, Bool.and_eq_true,
      Bool.not_eq_true', decide_eq_true_eq, Json.obj.injEq, exists_eq_left']
  | _ => simp [Schema.Presence.has, Possesses]

theorem has_eq_false_iff (presence : Schema.Presence) (value : Json) (name : String) :
    presence.has value name = false ↔
      ¬ Possesses presence.own presence.prototype value name := by
  rw [← has_eq_true_iff, Bool.not_eq_true]

section Names

variable {presence : Schema.Presence} {value : Json} {names : List String}

theorem missing_eq_nil_iff :
    Schema.missing presence value names = [] ↔
      ∀ name ∈ names, Possesses presence.own presence.prototype value name := by
  simp only [Schema.missing, List.filter_eq_nil_iff, Bool.not_eq_true', Bool.not_eq_false,
    has_eq_true_iff]

theorem firstAbsent_of_missing {first : String} {rest : List String}
    (found : Schema.missing presence value names = first :: rest) :
    FirstAbsent presence.own presence.prototype value names first := by
  have split := List.filter_eq_cons_iff.mp found
  rcases split with ⟨earlier, later, whole, possessed, absent, -⟩
  refine ⟨earlier, later, whole, ?_, ?_⟩
  · intro name member
    have kept := possessed name member
    rw [Bool.not_eq_true', Bool.not_eq_false] at kept
    exact (has_eq_true_iff presence value name).mp kept
  · rw [Bool.not_eq_true'] at absent
    exact (has_eq_false_iff presence value first).mp absent

end Names

/-- Where the data is bound, the condition on missing names meets no fault. It is true exactly if
the value does not possess one of the names; then the variable holds the first such name and no
other variable has changed. Otherwise none has. The data and the violations stay. -/
theorem eval_missingCondition (prototype : Json.Members) {context : Context}
    {location : Location} {state : State}
    (bound : OrderedMap.get? state.data context.data = some location) (names : List String)
    (missing : Name) :
    ∃ value after,
      eval prototype (missingCondition context names missing) state = .ok value after ∧
      (value.truthy = true ↔ ∃ name ∈ names,
        ¬ Possesses context.options.ownProperties prototype location.value name) ∧
      (value.truthy = true → ∃ first,
        FirstAbsent context.options.ownProperties prototype location.value names first ∧
        OrderedMap.get? after.vars missing = some (.str first) ∧
        ∀ other, other ≠ missing →
          OrderedMap.get? after.vars other = OrderedMap.get? state.vars other) ∧
      (value.truthy = false → after.vars = state.vars) ∧
      after.data = state.data ∧ after.violations = state.violations := by
  have holding := holds_missingCondition prototype bound names missing
  cases found : Schema.missing (context.presence prototype) location.value names with
  | nil =>
    rw [found, foundFirst] at holding
    rcases exists_eval_of_holds prototype holding with ⟨value, computed, outcome⟩
    have possessed := missing_eq_nil_iff.mp found
    refine ⟨value, state, computed, ?_, ?_, fun _ => rfl, rfl, rfl⟩
    · rw [outcome]
      constructor
      · intro impossible
        cases impossible
      · rintro ⟨name, member, absent⟩
        exact absurd (possessed name member) absent
    · rw [outcome]
      intro impossible
      cases impossible
  | cons first rest =>
    rw [found, foundFirst] at holding
    rcases exists_eval_of_holds prototype holding with ⟨value, computed, outcome⟩
    have isFirst := firstAbsent_of_missing found
    refine ⟨value, state.setVar missing (.str first), computed, ?_, ?_, ?_, rfl, rfl⟩
    · have someAbsent : ∃ name ∈ names,
          ¬ Possesses context.options.ownProperties prototype location.value name := by
        rcases isFirst with ⟨earlier, later, whole, -, absent⟩
        exact ⟨first, whole ▸ List.mem_append_right _ List.mem_cons_self, absent⟩
      exact iff_of_true outcome someAbsent
    · intro _
      refine ⟨first, isFirst, OrderedMap.get?_insert_self _ _ _, ?_⟩
      intro other apart
      exact OrderedMap.get?_insert_of_ne _ _ apart.symm
    · rw [outcome]
      intro impossible
      cases impossible

section Form

def formNames : List String := ["title", "", "name", ""]

def formPrototype : Json.Members := [("name", .str "form")]

def formContext : Context := .root .default Name.data

def formLocation : Location := ⟨.obj [("title", .str "Order")], .root⟩

def formState : State :=
  ⟨[(⟨"missing0"⟩, .str "name"), (⟨"valid0"⟩, .bool true)], [(Name.data, formLocation)], []⟩

theorem eval_missingCondition_form :
    OrderedMap.get? formState.data formContext.data = some formLocation ∧
      ∃ value after,
        eval formPrototype (missingCondition formContext formNames ⟨"missing0"⟩) formState =
          .ok value after ∧ value.truthy = true ∧
        (∃ first, FirstAbsent false formPrototype formLocation.value formNames first ∧
          OrderedMap.get? after.vars ⟨"missing0"⟩ = some (.str first)) ∧
        OrderedMap.get? after.vars ⟨"valid0"⟩ = some (.bool true) := by
  have bound : OrderedMap.get? formState.data formContext.data = some formLocation := rfl
  rcases eval_missingCondition formPrototype bound formNames ⟨"missing0"⟩ with
    ⟨value, after, computed, whenTrue, stored, -⟩
  have absent : ¬ Possesses false formPrototype formLocation.value "" :=
    (has_eq_false_iff (formContext.presence formPrototype) _ "").mp rfl
  have truthy : value.truthy = true := whenTrue.mpr ⟨"", by decide, absent⟩
  rcases stored truthy with ⟨first, isFirst, kept, others⟩
  have valid : OrderedMap.get? after.vars ⟨"valid0"⟩ = some (.bool true) :=
    (others ⟨"valid0"⟩ (by decide)).trans rfl
  exact ⟨bound, value, after, computed, truthy, ⟨first, isFirst, kept⟩, valid⟩

end Form

end SchemaCompiler.Emit
