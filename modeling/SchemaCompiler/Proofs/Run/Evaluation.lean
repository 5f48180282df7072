import SchemaCompiler.Proofs.Presence
import SchemaCompiler.Run.Structured

/-!
What expressions and sites come to, by rules. There is a rule for each way in which an expression
can be evaluated and in which a site can be told, faults included, so that the rules always lead
somewhere; and where they lead is what is run.
-/

namespace SchemaCompiler.Run

open Code Schema

/-- The value of an expression, or the fault it meets, and the state that is left. The operands of a
connective are evaluated from the left until one of them decides. -/
inductive Evaluates (prototype : Json.Members) :
    Expr → State → EStateM.Result ExecFault State Json → Prop where
  | undefined (state : State) : Evaluates prototype .undefined state (.ok .null state)
  | bool (value : Bool) (state : State) :
    Evaluates prototype (.bool value) state (.ok (.bool value) state)
  | str (value : String) (state : State) :
    Evaluates prototype (.str value) state (.ok (.str value) state)
  | var {name : Name} {value : Json} {state : State}
    (known : OrderedMap.get? state.vars name = some value) :
    Evaluates prototype (.var name) state (.ok value state)
  | varUnknown {name : Name} {state : State} (unknown : OrderedMap.get? state.vars name = none) :
    Evaluates prototype (.var name) state (.error (.unboundName name.text) state)
  | not {operand : Expr} {value : Json} {state after : State}
    (inside : Evaluates prototype operand state (.ok value after)) :
    Evaluates prototype (.not operand) state (.ok (.bool !value.truthy) after)
  | notFault {operand : Expr} {fault : ExecFault} {state after : State}
    (inside : Evaluates prototype operand state (.error fault after)) :
    Evaluates prototype (.not operand) state (.error fault after)
  | andDone (state : State) : Evaluates prototype (.and []) state (.ok (.bool true) state)
  | andNext {operand : Expr} {rest : List Expr} {value : Json} {state between : State}
    {result : EStateM.Result ExecFault State Json}
    (first : Evaluates prototype operand state (.ok value between)) (holds : value.truthy = true)
    (later : Evaluates prototype (.and rest) between result) :
    Evaluates prototype (.and (operand :: rest)) state result
  | andStop {operand : Expr} {rest : List Expr} {value : Json} {state after : State}
    (first : Evaluates prototype operand state (.ok value after)) (fails : value.truthy = false) :
    Evaluates prototype (.and (operand :: rest)) state (.ok (.bool false) after)
  | andFault {operand : Expr} {rest : List Expr} {fault : ExecFault} {state after : State}
    (first : Evaluates prototype operand state (.error fault after)) :
    Evaluates prototype (.and (operand :: rest)) state (.error fault after)
  | orDone (state : State) : Evaluates prototype (.or []) state (.ok (.bool false) state)
  | orNext {operand : Expr} {rest : List Expr} {value : Json} {state between : State}
    {result : EStateM.Result ExecFault State Json}
    (first : Evaluates prototype operand state (.ok value between)) (fails : value.truthy = false)
    (later : Evaluates prototype (.or rest) between result) :
    Evaluates prototype (.or (operand :: rest)) state result
  | orStop {operand : Expr} {rest : List Expr} {value : Json} {state after : State}
    (first : Evaluates prototype operand state (.ok value after)) (holds : value.truthy = true) :
    Evaluates prototype (.or (operand :: rest)) state (.ok (.bool true) after)
  | orFault {operand : Expr} {rest : List Expr} {fault : ExecFault} {state after : State}
    (first : Evaluates prototype operand state (.error fault after)) :
    Evaluates prototype (.or (operand :: rest)) state (.error fault after)
  | isType {data : Name} {kind : Json.Kind} {location : Location} {state : State}
    (bound : OrderedMap.get? state.data data = some location) :
    Evaluates prototype (.isType data kind) state (.ok (.bool (location.value.kind == kind)) state)
  | isTypeUnbound {data : Name} {kind : Json.Kind} {state : State}
    (unbound : OrderedMap.get? state.data data = none) :
    Evaluates prototype (.isType data kind) state (.error (.unboundData data.text) state)
  | hasProperty {data : Name} {property : String} {own : Bool} {location : Location}
    {state : State} (bound : OrderedMap.get? state.data data = some location) :
    Evaluates prototype (.hasProperty data property own) state
      (.ok (.bool (Presence.has ⟨own, prototype⟩ location.value property)) state)
  | hasPropertyUnbound {data : Name} {property : String} {own : Bool} {state : State}
    (unbound : OrderedMap.get? state.data data = none) :
    Evaluates prototype (.hasProperty data property own) state
      (.error (.unboundData data.text) state)
  | bind {name : Name} {expr : Expr} {value : Json} {state after : State}
    (inside : Evaluates prototype expr state (.ok value after)) :
    Evaluates prototype (.bind name expr) state
      (.ok (.bool true) { after with vars := OrderedMap.insert after.vars name value })
  | bindFault {name : Name} {expr : Expr} {fault : ExecFault} {state after : State}
    (inside : Evaluates prototype expr state (.error fault after)) :
    Evaluates prototype (.bind name expr) state (.error fault after)
  | errorCount (state : State) :
    Evaluates prototype .errorCount state (.ok (.ofNat state.violations.length) state)
  | noErrorsSince {name : Name} {before : Json} {state : State}
    (known : OrderedMap.get? state.vars name = some before) :
    Evaluates prototype (.noErrorsSince name) state
      (.ok (.bool (before.asNat? == some state.violations.length)) state)
  | noErrorsSinceUnknown {name : Name} {state : State}
    (unknown : OrderedMap.get? state.vars name = none) :
    Evaluates prototype (.noErrorsSince name) state (.error (.unboundName name.text) state)

/-- The parameters of a site, read from the left after those that were read before. A name that
comes again keeps its place and takes the later value. -/
inductive Gathers (state : State) : Json.Members → List (String × ParamValue) →
    Except ExecFault Json.Members → Prop where
  | done (read : Json.Members) : Gathers state read [] (.ok read)
  | literal {read : Json.Members} {name : String} {value : Json}
    {rest : List (String × ParamValue)} {gathered : Except ExecFault Json.Members}
    (later : Gathers state (OrderedMap.insert read name value) rest gathered) :
    Gathers state read ((name, .literal value) :: rest) gathered
  | known {read : Json.Members} {name : String} {source : Name} {value : Json}
    {rest : List (String × ParamValue)} {gathered : Except ExecFault Json.Members}
    (known : OrderedMap.get? state.vars source = some value)
    (later : Gathers state (OrderedMap.insert read name value) rest gathered) :
    Gathers state read ((name, .var source) :: rest) gathered
  | unknown {read : Json.Members} {name : String} {source : Name}
    {rest : List (String × ParamValue)} (unknown : OrderedMap.get? state.vars source = none) :
    Gathers state read ((name, .var source) :: rest) (.error (.unboundName source.text))

/-- The violation that a site makes, or the fault it meets: its parameters are read first, and the
place in the instance after them. -/
inductive Tells (site : Site) (state : State) : Except ExecFault Violation → Prop where
  | violation {params : Json.Members} {location : Location}
    (gathered : Gathers state [] site.params (.ok params))
    (bound : OrderedMap.get? state.data site.data = some location) :
    Tells site state (.ok {
      instancePath := location.path
      schemaPath := site.schemaPath
      keyword := site.keyword
      params := site.wording.params params
      message := site.wording.message params })
  | unknown {fault : ExecFault} (gathered : Gathers state [] site.params (.error fault)) :
    Tells site state (.error fault)
  | unbound {params : Json.Members} (gathered : Gathers state [] site.params (.ok params))
    (unbound : OrderedMap.get? state.data site.data = none) :
    Tells site state (.error (.unboundData site.data.text))

section Total

variable (prototype : Json.Members)

mutual

theorem Evaluates.total :
    ∀ (expr : Expr) (state : State), ∃ result, Evaluates prototype expr state result
  | .undefined, state => ⟨_, .undefined state⟩
  | .bool value, state => ⟨_, .bool value state⟩
  | .str value, state => ⟨_, .str value state⟩
  | .var name, state => by
    cases known : OrderedMap.get? state.vars name with
    | none => exact ⟨_, .varUnknown known⟩
    | some value => exact ⟨_, .var known⟩
  | .not operand, state => by
    obtain ⟨result, inside⟩ := Evaluates.total operand state
    cases result with
    | ok value after => exact ⟨_, .not inside⟩
    | error fault after => exact ⟨_, .notFault inside⟩
  | .and operands, state => Evaluates.total_and operands state
  | .or operands, state => Evaluates.total_or operands state
  | .isType data kind, state => by
    cases bound : OrderedMap.get? state.data data with
    | none => exact ⟨_, .isTypeUnbound bound⟩
    | some location => exact ⟨_, .isType bound⟩
  | .hasProperty data property own, state => by
    cases bound : OrderedMap.get? state.data data with
    | none => exact ⟨_, .hasPropertyUnbound bound⟩
    | some location => exact ⟨_, .hasProperty bound⟩
  | .bind name expr, state => by
    obtain ⟨result, inside⟩ := Evaluates.total expr state
    cases result with
    | ok value after => exact ⟨_, .bind inside⟩
    | error fault after => exact ⟨_, .bindFault inside⟩
  | .errorCount, state => ⟨_, .errorCount state⟩
  | .noErrorsSince name, state => by
    cases known : OrderedMap.get? state.vars name with
    | none => exact ⟨_, .noErrorsSinceUnknown known⟩
    | some before => exact ⟨_, .noErrorsSince known⟩

theorem Evaluates.total_and : ∀ (operands : List Expr) (state : State),
    ∃ result, Evaluates prototype (.and operands) state result
  | [], state => ⟨_, .andDone state⟩
  | operand :: rest, state => by
    obtain ⟨result, first⟩ := Evaluates.total operand state
    cases result with
    | error fault after => exact ⟨_, .andFault first⟩
    | ok value between =>
      cases holds : value.truthy with
      | false => exact ⟨_, .andStop first holds⟩
      | true =>
        obtain ⟨result, later⟩ := Evaluates.total_and rest between
        exact ⟨result, .andNext first holds later⟩

theorem Evaluates.total_or : ∀ (operands : List Expr) (state : State),
    ∃ result, Evaluates prototype (.or operands) state result
  | [], state => ⟨_, .orDone state⟩
  | operand :: rest, state => by
    obtain ⟨result, first⟩ := Evaluates.total operand state
    cases result with
    | error fault after => exact ⟨_, .orFault first⟩
    | ok value between =>
      cases holds : value.truthy with
      | true => exact ⟨_, .orStop first holds⟩
      | false =>
        obtain ⟨result, later⟩ := Evaluates.total_or rest between
        exact ⟨result, .orNext first holds later⟩

end

theorem Gathers.total (state : State) (params : List (String × ParamValue)) :
    ∀ read, ∃ gathered, Gathers state read params gathered := by
  induction params with
  | nil => exact fun read => ⟨_, .done read⟩
  | cons entry rest ih =>
    intro read
    obtain ⟨name, value | source⟩ := entry
    · obtain ⟨gathered, later⟩ := ih (OrderedMap.insert read name value)
      exact ⟨gathered, .literal later⟩
    · cases known : OrderedMap.get? state.vars source with
      | none => exact ⟨_, .unknown known⟩
      | some value =>
        obtain ⟨gathered, later⟩ := ih (OrderedMap.insert read name value)
        exact ⟨gathered, .known known later⟩

theorem Tells.total (site : Site) (state : State) : ∃ told, Tells site state told := by
  obtain ⟨gathered, read⟩ := Gathers.total state site.params []
  cases gathered with
  | error fault => exact ⟨_, .unknown read⟩
  | ok params =>
    cases bound : OrderedMap.get? state.data site.data with
    | none => exact ⟨_, .unbound read bound⟩
    | some location => exact ⟨_, .violation read bound⟩

end Total

section Sound

variable {prototype : Json.Members}

theorem eval_and_cons (operand : Expr) (rest : List Expr) :
    eval prototype (.and (operand :: rest)) = eval prototype operand >>= fun value =>
      if value.truthy then eval prototype (.and rest) else pure (.bool false) := rfl

theorem eval_or_cons (operand : Expr) (rest : List Expr) :
    eval prototype (.or (operand :: rest)) = eval prototype operand >>= fun value =>
      if value.truthy then pure (.bool true) else eval prototype (.or rest) := rfl

theorem Evaluates.eval_eq {expr : Expr} {state : State}
    {result : EStateM.Result ExecFault State Json}
    (derived : Evaluates prototype expr state result) : eval prototype expr state = result := by
  induction derived with
  | undefined | bool | str | andDone | orDone | errorCount => rfl
  | var known => exact readVariable_eq known
  | varUnknown unknown => exact readVariable_eq_error unknown
  | not inside ih =>
    rw [eval, exec_bind_ok ih]
    rfl
  | notFault inside ih => rw [eval, exec_bind_error ih]
  | andNext first holds later onFirst onRest =>
    rw [eval_and_cons, exec_bind_ok onFirst, if_pos holds, onRest]
  | andStop first fails onFirst =>
    rw [eval_and_cons, exec_bind_ok onFirst, fails]
    rfl
  | andFault first onFirst => rw [eval_and_cons, exec_bind_error onFirst]
  | orNext first fails later onFirst onRest =>
    rw [eval_or_cons, exec_bind_ok onFirst, fails]
    exact onRest
  | orStop first holds onFirst =>
    rw [eval_or_cons, exec_bind_ok onFirst, if_pos holds]
    rfl
  | orFault first onFirst => rw [eval_or_cons, exec_bind_error onFirst]
  | isType bound =>
    rw [eval, exec_bind_ok (readData_eq bound)]
    rfl
  | isTypeUnbound unbound => rw [eval, exec_bind_error (readData_eq_error unbound)]
  | hasProperty bound =>
    rw [eval, exec_bind_ok (readData_eq bound), Presence.has_eq_isSome_lookup]
    rfl
  | hasPropertyUnbound unbound => rw [eval, exec_bind_error (readData_eq_error unbound)]
  | bind inside ih =>
    rw [eval, exec_bind_ok ih]
    rfl
  | bindFault inside ih => rw [eval, exec_bind_error ih]
  | noErrorsSince known =>
    rw [eval, exec_bind_ok (readVariable_eq known)]
    rfl
  | noErrorsSinceUnknown unknown => rw [eval, exec_bind_error (readVariable_eq_error unknown)]

def settled (state : State) : Except ExecFault α → EStateM.Result ExecFault State α
  | .ok value => .ok value state
  | .error fault => .error fault state

theorem Gathers.readParams_eq {state : State} {read : Json.Members}
    {params : List (String × ParamValue)} {gathered : Except ExecFault Json.Members}
    (derived : Gathers state read params gathered) :
    readParams read params state = settled state gathered := by
  induction derived with
  | done => rfl
  | literal later ih => rw [readParams_cons rfl, ih]
  | known known later ih =>
    have value : readParam (.var _) state = .ok _ state := readVariable_eq known
    rw [readParams_cons value, ih]
  | unknown unknown =>
    rw [readParams, readParam, exec_bind_error (readVariable_eq_error unknown)]
    rfl

theorem Tells.report_eq {site : Site} {state : State} {violation : Violation}
    (told : Tells site state (.ok violation)) :
    report site state = .ok () { state with violations := state.violations ++ [violation] } := by
  cases told with
  | violation gathered bound =>
    rw [report, exec_bind_ok gathered.readParams_eq, exec_bind_ok (readData_eq bound)]
    rfl

theorem Tells.report_eq_error {site : Site} {state : State} {fault : ExecFault}
    (told : Tells site state (.error fault)) : report site state = .error fault state := by
  cases told with
  | unknown gathered => rw [report, exec_bind_error gathered.readParams_eq]
  | unbound gathered unbound =>
    rw [report, exec_bind_ok gathered.readParams_eq, exec_bind_error (readData_eq_error unbound)]

end Sound

end SchemaCompiler.Run
