import SchemaCompiler.Proofs.Run.Reports

/-!
The checks that ask for properties report one violation for each absent name, or the first of them
when the first failure ends the validation. Both forms find the same names in the same order.
-/

namespace SchemaCompiler.Emit

open Code Run

variable {context : Context} {prototype : Json.Members} {location : Location} {before : State}

def Tells (context : Context) (keyword : Keyword) (params : List (String × ParamValue))
    (location : Location) (violation : String → Violation) : Prop :=
  ∀ (param : ParamValue) (name : String) (state : State),
    OrderedMap.get? state.data context.data = some location →
    readParam param state = .ok (.str name) state →
    Run.report (keywordSite context keyword (params ++ [(missingParam, param)])) state =
      .ok () (state.add (violation name))

theorem tells_required (context : Context) (location : Location) :
    Tells context .required [] location (Schema.requiredViolation (context.place location)) := by
  intro param name state bound known
  have read : readParams [] ([] ++ [(missingParam, param)]) state = _ :=
    readParams_single known [] missingParam
  exact report_eq (keywordSite context .required _) read bound

theorem tells_dependency (context : Context) (location : Location) (trigger : String)
    (names : List String) :
    Tells context .dependencies (triggerParams trigger names) location
      (Schema.dependencyViolation (context.place location) trigger names) := by
  intro param name state bound known
  have read : readParams [] (triggerParams trigger names ++ [(missingParam, param)]) state = _ :=
    readParams_single known _ missingParam
  exact report_eq (keywordSite context .dependencies _) read bound

theorem reports_reportStmt {site : Site} {violation : Violation} {post : State → Prop}
    (told : Run.report site before = .ok () (before.add violation))
    (left : post (before.add violation)) :
    Reports prototype context.options.policy [reportStmt context site] before [violation] post := by
  unfold reportStmt
  cases context.options.policy with
  | accumulateAll => exact .ofReport told rfl left
  | stopAtFirst => exact .ofFail told rfl

section Names

variable {keyword : Keyword} {params : List (String × ParamValue)} {violation : String → Violation}
  (tells : Tells context keyword params location violation)

include tells

theorem reports_missingChecks
    (bound : OrderedMap.get? before.data context.data = some location) (names : List String) :
    Reports prototype context.options.policy (names.map (missingCheck context keyword params))
      before
      ((Schema.missing (context.presence prototype) location.value names).map violation)
      (Keeps nowhere nowhere before) := by
  induction names generalizing before with
  | nil => exact .nil (.refl before)
  | cons name rest ih =>
    have absence := holds_absent prototype bound name
    have told := tells (.literal (.str name)) name before bound rfl
    cases has : (context.presence prototype).has location.value name with
    | true =>
      rw [has] at absence
      have head : Reports prototype context.options.policy
          [missingCheck context keyword params name] before [] (· = before) :=
        .cond absence rfl (.nil rfl)
      rw [Schema.missing_cons_of_has has]
      apply head.quiet
      intro state left
      subst left
      exact ih bound
    | false =>
      rw [has] at absence
      have head : Reports prototype context.options.policy
          [missingCheck context keyword params name] before [violation name]
          (· = before.add (violation name)) :=
        .cond absence rfl (reports_reportStmt told rfl)
      rw [Schema.missing_cons_of_lacks has]
      apply head.append
      intro state left _ _
      subst left
      have still : OrderedMap.get? (before.add (violation name)).data context.data = some location :=
        bound
      have later := ih still
      exact later.imp fun after keeps => Keeps.trans (Keeps.add before (violation name)) keeps

theorem reports_firstMissing (stops : context.options.policy = .stopAtFirst)
    (bound : OrderedMap.get? before.data context.data = some location) {condition : Expr}
    {missing : Name} {names : List String} {rest : Writer} {supply : NameSupply}
    {more : List Violation} {post : State → Prop}
    (chosen : holds prototype condition before = foundFirst missing before names)
    (later : Reports prototype context.options.policy (rest.code supply) before more post) :
    Reports prototype context.options.policy
      ((writeFirstMissing context keyword params condition missing rest).code supply) before
      (names.map violation ++ more) post := by
  cases names with
  | nil => exact .cond chosen rfl later
  | cons name others =>
    have known : readParam (.var missing) (before.setVar missing (.str name)) =
        .ok (.str name) (before.setVar missing (.str name)) := by
      rw [readParam, readVariable, State.setVar, OrderedMap.get?_insert_self]
    have told := tells (.var missing) name (before.setVar missing (.str name)) bound known
    have reported : Reports prototype context.options.policy _ _ [violation name] fun _ => True :=
      reports_reportStmt told trivial
    exact .cond chosen rfl (reported.first_only stops)

end Names

def triggerFindings (context : Context) (prototype : Json.Members) (location : Location)
    (entry : String × List String) : List Violation :=
  if (context.presence prototype).has location.value entry.1 = true then
    (Schema.missing (context.presence prototype) location.value entry.2).map
      (Schema.dependencyViolation (context.place location) entry.1 entry.2)
  else []

theorem propertyDependencyViolations_eq (entries : List (String × Constraint Schema)) :
    Schema.propertyDependencyViolations (context.presence prototype) (context.place location)
        entries =
      (Dependencies.propertyHalf entries).flatMap (triggerFindings context prototype location) := by
  induction entries with
  | nil => rfl
  | cons entry rest ih =>
    obtain ⟨trigger, names | schema⟩ := entry
    · by_cases reserved : trigger = "__proto__"
      · simp only [Schema.propertyDependencyViolations, ih, Dependencies.propertyHalf,
          Dependencies.reservedTrigger, List.filterMap_cons, reserved, ne_eq, not_true_eq_false,
          false_and, if_false, if_true, List.nil_append]
      · simp only [Schema.propertyDependencyViolations, ih, Dependencies.propertyHalf,
          Dependencies.reservedTrigger, List.filterMap_cons, reserved, ne_eq, not_false_eq_true,
          true_and, if_false, List.flatMap_cons, triggerFindings]
        rfl
    · simp only [Schema.propertyDependencyViolations, ih, Dependencies.propertyHalf,
        List.filterMap_cons]

theorem holds_triggerCondition
    (bound : OrderedMap.get? before.data context.data = some location) (trigger : String)
    (names : List String) (missing : Name) :
    holds prototype
        (.allOf [present context trigger, missingCondition context names missing]) before =
      foundFirst missing before
        (if (context.presence prototype).has location.value trigger = true then
          Schema.missing (context.presence prototype) location.value names else []) := by
  rw [holds_allOf, holdsUntil, exec_bind_ok (holds_present prototype bound trigger),
    holdsUntil_single]
  cases (context.presence prototype).has location.value trigger with
  | true => exact holds_missingCondition prototype bound names missing
  | false => rfl

theorem reports_required (bound : OrderedMap.get? before.data context.data = some location)
    (names : List String) (supply : NameSupply) :
    Reports prototype context.options.policy ((writeRequired context names).code supply) before
      (Schema.requiredViolations (context.presence prototype) (context.place location) (some names))
      (Keeps supply.Pending nowhere before) := by
  unfold writeRequired
  split
  · next empty =>
    rw [List.isEmpty_iff.mp empty]
    exact .nil (.refl before)
  · cases policy : context.options.policy with
    | accumulateAll =>
      have checks : Reports prototype _ _ before _ _ :=
        reports_missingChecks (tells_required context location) bound names
      rw [policy] at checks
      exact checks.imp fun after keeps => keeps.ofNowhere
    | stopAtFirst =>
      apply Reports.declare .null rfl
      have still : OrderedMap.get? (before.setVar (supply.fresh missingStem).1 .null).data
          context.data = some location := bound
      have chosen := holds_missingCondition prototype still names
        (supply.fresh missingStem).1
      have left : Keeps supply.Pending nowhere before
          (before.setVar (supply.fresh missingStem).1 .null) :=
        .setVar before .null (supply.pending_fresh isStem_missing)
      have checks : Reports prototype _
          ((writeFirstMissing context .required [] _ _ .nothing).code (supply.fresh missingStem).2)
          _ _ _ :=
        reports_firstMissing (tells_required context location) policy still chosen (.nil left)
      rw [List.append_nil, policy] at checks
      exact checks

/-- A trigger finds what it finds before what stands after it, though that may stand inside it. -/
theorem reports_propertyDependency
    (bound : OrderedMap.get? before.data context.data = some location) (missing : Name)
    (trigger : String) (names : List String) {rest : Writer} {supply : NameSupply}
    {more : List Violation} {post : State → Prop}
    (later : ∀ state, Keeps nowhere nowhere before state →
      Reports prototype context.options.policy (rest.code supply) state more post) :
    Reports prototype context.options.policy
      ((writePropertyDependency context missing trigger names rest).code supply) before
      (triggerFindings context prototype location (trigger, names) ++ more) post := by
  unfold writePropertyDependency
  split
  · next empty =>
    have none : triggerFindings context prototype location (trigger, names) = [] := by
      rw [List.isEmpty_iff.mp empty, triggerFindings]
      split <;> rfl
    rw [none]
    exact later before (.refl before)
  · cases policy : context.options.policy with
    | accumulateAll =>
      have checks : Reports prototype _ _ before _ _ :=
        reports_missingChecks (tells_dependency context location trigger names) bound names
      rw [policy] at checks later
      have head : Reports prototype .accumulateAll
          [.cond (present context trigger)
            (names.map (missingCheck context .dependencies (triggerParams trigger names))) none]
          before (triggerFindings context prototype location (trigger, names))
          (Keeps nowhere nowhere before) := by
        apply Reports.cond (holds_present prototype bound trigger) rfl
        unfold triggerFindings
        split
        · exact checks
        · exact .nil (.refl before)
      exact head.append fun state keeps _ _ => later state keeps
    | stopAtFirst =>
      have checks := reports_firstMissing (tells_dependency context location trigger names) policy
        bound (holds_triggerCondition bound trigger names missing) (later before (.refl before))
      rw [policy] at checks
      have found : triggerFindings context prototype location (trigger, names) =
          (if (context.presence prototype).has location.value trigger = true then
            Schema.missing (context.presence prototype) location.value names else []).map
            (Schema.dependencyViolation (context.place location) trigger names) := by
        unfold triggerFindings
        split <;> rfl
      rw [found]
      exact checks

theorem reports_triggers (bound : OrderedMap.get? before.data context.data = some location)
    (missing : Name) (triggers : List (String × List String)) {rest : Writer}
    {supply : NameSupply} {more : List Violation} {post : State → Prop}
    (later : ∀ state, Keeps nowhere nowhere before state →
      Reports prototype context.options.policy (rest.code supply) state more post) :
    Reports prototype context.options.policy
      ((writeTriggers context missing rest triggers).code supply) before
      (triggers.flatMap (triggerFindings context prototype location) ++ more) post := by
  induction triggers generalizing before with
  | nil => exact later before (.refl before)
  | cons entry others ih =>
    obtain ⟨trigger, names⟩ := entry
    rw [List.flatMap_cons, List.append_assoc]
    apply reports_propertyDependency bound
    intro between keeps
    have still : OrderedMap.get? between.data context.data = some location :=
      (keeps.data context.data False.elim).trans bound
    exact ih still fun state further => later state (keeps.trans further)

/-- All triggers that ask for properties, and what stands after them or inside the last of them. -/
theorem reports_propertyDependencies
    (bound : OrderedMap.get? before.data context.data = some location)
    (triggers : List (String × List String)) {rest : Writer} {supply : NameSupply}
    {more : List Violation} {post : State → Prop}
    (later : ∀ names, supply.Precedes names → ∀ state, Keeps supply.Pending nowhere before state →
      Reports prototype context.options.policy (rest.code names) state more post) :
    Reports prototype context.options.policy
      ((writePropertyDependencies context triggers rest).code supply) before
      (triggers.flatMap (triggerFindings context prototype location) ++ more) post := by
  unfold writePropertyDependencies
  split
  · next empty =>
    rw [List.isEmpty_iff.mp empty]
    exact later supply (.refl supply) before (.refl before)
  · apply Reports.declare .null rfl
    have still : OrderedMap.get? (before.setVar (supply.fresh missingStem).1 .null).data
        context.data = some location := bound
    apply reports_triggers still
    intro state keeps
    apply later (supply.fresh missingStem).2 (supply.precedes_fresh missingStem) state
    have declared : Keeps supply.Pending nowhere before
        (before.setVar (supply.fresh missingStem).1 .null) :=
      .setVar before .null (supply.pending_fresh isStem_missing)
    exact declared.trans keeps.ofNowhere

end SchemaCompiler.Emit
