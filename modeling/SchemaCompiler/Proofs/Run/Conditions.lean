import SchemaCompiler.Emit.Missing
import SchemaCompiler.Proofs.Presence
import SchemaCompiler.Run.Structured

/-!
Expressions as conditions. A condition is judged by whether its value is true, and so judged the
folded connectives are the plain ones. The condition on missing names finds the first of them.
-/

namespace SchemaCompiler.Run

open Code

def State.setVar (state : State) (name : Name) (value : Json) : State :=
  { state with vars := OrderedMap.insert state.vars name value }

variable (prototype : Json.Members)

def holds (test : Expr) : Exec Bool := do
  let value ← eval prototype test
  pure value.truthy

/-- The conditions from the left, up to the first whose outcome is `stop`: whether all hold if that
is `false`, and whether some holds if it is `true`. -/
def holdsUntil (stop : Bool) : List Expr → Exec Bool
  | [] => pure !stop
  | test :: rest => do
    let outcome ← holds prototype test
    if outcome = stop then pure stop else holdsUntil stop rest

theorem holds_and (operands : List Expr) :
    holds prototype (.and operands) = holdsUntil prototype false operands := by
  induction operands with
  | nil => rfl
  | cons operand rest ih =>
    rw [holdsUntil, ← ih]
    simp only [holds, eval, evalAll, bind_assoc, pure_bind]
    congr 1
    funext value
    cases value.truthy <;> rfl

theorem holds_or (operands : List Expr) :
    holds prototype (.or operands) = holdsUntil prototype true operands := by
  induction operands with
  | nil => rfl
  | cons operand rest ih =>
    rw [holdsUntil, ← ih]
    simp only [holds, eval, evalAny, bind_assoc, pure_bind]
    congr 1
    funext value
    cases value.truthy <;> rfl

theorem holds_not (operand : Expr) :
    holds prototype (.not operand) =
      holds prototype operand >>= fun outcome => pure !outcome := by
  simp only [holds, eval, bind_assoc, pure_bind, Json.truthy]

theorem holdsUntil_single (stop : Bool) (test : Expr) :
    holdsUntil prototype stop [test] = holds prototype test := by
  have same : (fun outcome => if outcome = stop then pure stop else pure !stop) =
      (pure : Bool → Exec Bool) := by
    funext outcome
    cases outcome <;> cases stop <;> rfl
  simp only [holdsUntil, same, bind_pure]

theorem holdsUntil_append (stop : Bool) (left right : List Expr) :
    holdsUntil prototype stop (left ++ right) =
      holdsUntil prototype stop left >>= fun outcome =>
        if outcome = stop then pure stop else holdsUntil prototype stop right := by
  induction left with
  | nil => cases stop <;> rfl
  | cons test rest ih =>
    simp only [List.cons_append, holdsUntil, ih, bind_assoc]
    congr 1
    funext outcome
    cases outcome <;> cases stop <;> rfl

theorem holdsUntil_flatMap {stop : Bool} {expand : Expr → List Expr}
    (same : ∀ test, holdsUntil prototype stop (expand test) = holds prototype test)
    (tests : List Expr) :
    holdsUntil prototype stop (tests.flatMap expand) = holdsUntil prototype stop tests := by
  induction tests with
  | nil => rfl
  | cons test rest ih => rw [List.flatMap_cons, holdsUntil_append, same, ih, holdsUntil]

theorem holds_connect {stop : Bool} {connective : List Expr → Expr}
    (plain : ∀ operands, holds prototype (connective operands) = holdsUntil prototype stop operands)
    (operands : List Expr) :
    holds prototype (.connect connective operands) = holdsUntil prototype stop operands := by
  unfold Expr.connect
  split
  · exact (holdsUntil_single prototype stop _).symm
  · exact plain operands

theorem holdsUntil_conjuncts (test : Expr) :
    holdsUntil prototype false test.conjuncts = holds prototype test := by
  unfold Expr.conjuncts
  split
  · rfl
  · exact (holds_and prototype _).symm
  · exact holdsUntil_single prototype false _

theorem holdsUntil_disjuncts (test : Expr) :
    holdsUntil prototype true test.disjuncts = holds prototype test := by
  unfold Expr.disjuncts
  split
  · rfl
  · exact (holds_or prototype _).symm
  · exact holdsUntil_single prototype true _

theorem holds_allOf (tests : List Expr) :
    holds prototype (.allOf tests) = holdsUntil prototype false tests := by
  rw [Expr.allOf, holds_connect prototype (holds_and prototype),
    holdsUntil_flatMap prototype (holdsUntil_conjuncts prototype)]

theorem holds_anyOf (tests : List Expr) :
    holds prototype (.anyOf tests) = holdsUntil prototype true tests := by
  rw [Expr.anyOf, holds_connect prototype (holds_or prototype),
    holdsUntil_flatMap prototype (holdsUntil_disjuncts prototype)]

/-- A conditional runs the branch that its condition chooses; no branch is an empty one. -/
theorem execStmt_cond (test : Expr) (yes : Block) (no : Option Block) :
    execStmt prototype (.cond test yes no) =
      holds prototype test >>= fun outcome =>
        if outcome then execBlock prototype yes else execBlock prototype (no.getD []) := by
  cases no with
  | none => simp only [execStmt, holds, bind_assoc, pure_bind, Option.getD_none, execBlock]
  | some no => simp only [execStmt, holds, bind_assoc, pure_bind, Option.getD_some]

section Data

variable {data : Name} {location : Location} {state : State}
  (bound : OrderedMap.get? state.data data = some location)

include bound

theorem holds_isType (kind : Json.Kind) :
    holds prototype (.isType data kind) state = .ok (location.value.kind == kind) state := by
  simp only [holds, eval, bind_assoc, pure_bind, Json.truthy]
  rw [exec_bind_ok (readData_eq bound)]
  rfl

theorem holds_hasProperty (property : String) (own : Bool) :
    holds prototype (.hasProperty data property own) state =
      .ok (Schema.Presence.has ⟨own, prototype⟩ location.value property) state := by
  simp only [holds, eval, bind_assoc, pure_bind, Json.truthy, Schema.Presence.has_eq_isSome_lookup]
  rw [exec_bind_ok (readData_eq bound)]
  rfl

end Data

theorem holds_var {name : Name} {value : Json} {state : State}
    (known : OrderedMap.get? state.vars name = some value) :
    holds prototype (.var name) state = .ok value.truthy state := by
  have read : eval prototype (.var name) state = .ok value state := readVariable_eq known
  rw [holds, exec_bind_ok read]
  rfl

end SchemaCompiler.Run

namespace SchemaCompiler.Emit

open Code Run

variable (context : Context) (prototype : Json.Members)

def Context.presence : Schema.Presence := ⟨context.options.ownProperties, prototype⟩

def Context.place (location : Location) : Schema.Place :=
  ⟨location.value, location.path, context.schemaPath⟩

section Located

variable {context} {location : Location} {state : State}
  (bound : OrderedMap.get? state.data context.data = some location)

include bound

theorem holds_present (property : String) :
    holds prototype (present context property) state =
      .ok ((context.presence prototype).has location.value property) state :=
  holds_hasProperty prototype bound property context.options.ownProperties

theorem holds_absent (property : String) :
    holds prototype (absent context property) state =
      .ok (!(context.presence prototype).has location.value property) state := by
  rw [absent, Expr.absent_eq, holds_not]
  exact exec_bind_ok (holds_present prototype bound property)

def foundFirst (missing : Name) (state : State) : List String → EStateM.Result ExecFault State Bool
  | [] => .ok false state
  | name :: _ => .ok true (state.setVar missing (.str name))

theorem holds_missing_name (name : String) (missing : Name) :
    holds prototype (.allOf [absent context name, .bind missing (.str name)]) state =
      foundFirst missing state
        (Schema.missing (context.presence prototype) location.value [name]) := by
  rw [holds_allOf, holdsUntil, exec_bind_ok (holds_absent prototype bound name), holdsUntil_single]
  cases has : (context.presence prototype).has location.value name with
  | true => rw [Schema.missing_cons_of_has has]; rfl
  | false => rw [Schema.missing_cons_of_lacks has]; rfl

/-- The condition on missing names holds if one of them is absent, and then it has stored the first
such name and written to no other variable. -/
theorem holds_missingCondition (names : List String) (missing : Name) :
    holds prototype (missingCondition context names missing) state =
      foundFirst missing state
        (Schema.missing (context.presence prototype) location.value names) := by
  rw [missingCondition, holds_anyOf]
  induction names with
  | nil => rfl
  | cons name rest ih =>
    have first := holds_missing_name prototype bound name missing
    rw [List.map_cons, holdsUntil]
    cases has : (context.presence prototype).has location.value name with
    | true =>
      rw [Schema.missing_cons_of_has has] at first ⊢
      rw [exec_bind_ok first, ← ih]
      rfl
    | false =>
      rw [Schema.missing_cons_of_lacks has] at first ⊢
      rw [exec_bind_ok first]
      rfl

end Located

end SchemaCompiler.Emit
