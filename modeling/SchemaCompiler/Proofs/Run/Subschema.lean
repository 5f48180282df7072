import SchemaCompiler.Proofs.Emit.Buffered
import SchemaCompiler.Proofs.Run.Faithful

/-!
Subschemas in place. Whatever was written before and wherever the run stands, the code that is
appended for a subschema reports the violations of its value, tells whether there are any, and
leaves all that was known before as it was.
-/

namespace SchemaCompiler.Run

open Code

def Location.descend (prototype : Json.Members) (location : Location) : Option String → Location
  | none => location
  | some property =>
    ⟨Schema.Presence.valueAt ⟨false, prototype⟩ location.value property, location.path.key property⟩

structure State.Awaits (state : State) (supply : NameSupply) : Prop where
  vars : ∀ name, supply.Pending name → OrderedMap.get? state.vars name = none
  data : ∀ name, supply.Pending name → OrderedMap.get? state.data name = none

structure Retains (valid : Name) (before after : State) : Prop where
  vars : ∀ name value, name ≠ valid → OrderedMap.get? before.vars name = some value →
    OrderedMap.get? after.vars name = some value
  data : ∀ name location, OrderedMap.get? before.data name = some location →
    OrderedMap.get? after.data name = some location

theorem State.Awaits.retains {supply : NameSupply} {valid : Name} {before after : State}
    (awaits : before.Awaits supply)
    (keeps : Keeps (Emit.MemberName supply valid) supply.Pending before after) :
    Retains valid before after where
  vars name value apart known := by
    have kept : ¬ Emit.MemberName supply valid name := by
      rintro (same | pending)
      · exact apart same
      · cases known.symm.trans (awaits.vars name pending)
    exact (keeps.vars name kept).trans known
  data name location known := by
    have kept : ¬ supply.Pending name := by
      intro pending
      cases known.symm.trans (awaits.data name pending)
    exact (keeps.data name kept).trans known

theorem State.Awaits.stands {supply : NameSupply} {state : State} {context : Emit.Context}
    {location : Location} (awaits : state.Awaits supply)
    (bound : OrderedMap.get? state.data context.data = some location) :
    Emit.Stands context supply state location := by
  refine ⟨bound, ?_⟩
  intro pending
  cases bound.symm.trans (awaits.data context.data pending)

namespace Reports

variable {prototype : Json.Members} {policy : ErrorPolicy} {code : Block} {before : State}
  {found : List Violation} {post : State → Prop}

theorem runs_through (reports : Reports prototype policy code before found post)
    (goes : policy = .accumulateAll ∨ found = []) :
    ∃ after, runBlock prototype code before = .ok .fellThrough after ∧
      after.violations = before.violations ++ found ∧ post after := by
  rw [runBlock_eq_execBlock]
  cases reports with
  | through after ran grown left silent => exact ⟨after, ran, grown, left⟩
  | stopped first others after ran split grown stops =>
    rcases goes with accumulates | none
    · cases stops.symm.trans accumulates
    · cases split.symm.trans none

theorem halts (reports : Reports prototype policy code before found post)
    (stops : policy = .stopAtFirst) {first : Violation} {others : List Violation}
    (split : found = first :: others) :
    ∃ after, runBlock prototype code before = .ok .halted after ∧
      after.violations = before.violations ++ [first] := by
  rw [runBlock_eq_execBlock]
  cases reports with
  | through after ran grown left silent => cases split.symm.trans (silent stops)
  | stopped head tail after ran parts grown _ =>
    obtain ⟨rfl, -⟩ := List.cons.inj (split.symm.trans parts)
    exact ⟨after, ran, grown⟩

end Reports

end SchemaCompiler.Run

namespace SchemaCompiler.Emit

open Code Run

/-- The place of the subschema `member` of a keyword, where the schema around it looks at
`location`. -/
def subschemaPlace (prototype : Json.Members) (context : Context) (keyword member : String)
    (property? : Option String) (location : Location) : Schema.Place where
  value := (location.descend prototype property?).value
  instancePath := (location.descend prototype property?).path
  schemaPath := (context.schemaPath.key keyword).key member

theorem applySubschema_eq_append (context : Context) (keyword member : String)
    (property? : Option String) (valid : Name) (schema : Schema) (buffer : Buffer) :
    let writer := writeSubschema context keyword member property? valid fun inner =>
      write inner schema
    applySubschema context keyword member property? valid schema buffer =
      { buffer.append (writer.code buffer.names) with names := writer.after buffer.names } := by
  intro writer
  have applied : applySubschema context keyword member property? valid schema buffer =
      buffer.extend writer := by
    simp only [applySubschema, emit_eq_extend]
    exact leave_enter_eq_extend context keyword member property? valid
      (fun inner => write inner schema) buffer
  rw [applied, Buffer.extend_eq_append]

theorem reports_subschema {context : Context} {supply : NameSupply} {before : State}
    {location : Location} (stands : Stands context supply before location)
    (prototype : Json.Members) (schema : Schema) (keyword member : String)
    (property? : Option String) (valid : Name) :
    let found := schema.violations (context.presence prototype)
      (subschemaPlace prototype context keyword member property? location)
    Reports prototype context.options.policy
      ((writeSubschema context keyword member property? valid fun inner => write inner schema).code
        supply)
      before found (Applied supply valid found before) := by
  have body := faithful prototype schema
  cases property? with
  | none => exact reports_subschema_same body stands keyword member valid
  | some property => exact reports_subschema_property body stands keyword member property valid

/-- The code appended for a subschema does the same in every state in which the data of the context
is known and no name still to come is: unless it has to stop, it reports all violations of the
subschema, tells in `valid` whether there are any, and changes nothing else that was known;
otherwise it reports the first one and halts. -/
theorem applySubschema_compositional (context : Context) (keyword member : String)
    (property? : Option String) (valid : Name) (schema : Schema) (buffer : Buffer) :
    ∃ code names,
      applySubschema context keyword member property? valid schema buffer =
        { buffer.append code with names } ∧
      ∀ prototype before location,
        OrderedMap.get? before.data context.data = some location → before.Awaits buffer.names →
        let found := schema.violations (context.presence prototype)
          (subschemaPlace prototype context keyword member property? location)
        (context.options.policy = .accumulateAll ∨ found = [] →
          ∃ after, runBlock prototype code before = .ok .fellThrough after ∧
            after.violations = before.violations ++ found ∧
            OrderedMap.get? after.vars valid = some (.bool found.isEmpty) ∧
            Retains valid before after) ∧
        ∀ first others, context.options.policy = .stopAtFirst → found = first :: others →
          ∃ after, runBlock prototype code before = .ok .halted after ∧
            after.violations = before.violations ++ [first] := by
  refine ⟨_, _, applySubschema_eq_append context keyword member property? valid schema buffer, ?_⟩
  intro prototype before location bound awaits found
  have reports := reports_subschema (awaits.stands bound) prototype schema keyword member property?
    valid
  constructor
  · intro goes
    obtain ⟨after, ran, grown, applied⟩ := reports.runs_through goes
    exact ⟨after, ran, grown, applied.told, awaits.retains applied.keeps⟩
  · intro first others stops split
    exact reports.halts stops split

section Order

def orderGuard : Name × Buffer := (Buffer.empty.openIf (.isType .data .object)).fresh validStem

def orderContext : Context := .root { policy := .accumulateAll } .data

def orderLocation : Location := ⟨.obj [("order", .obj [("card", .null)])], .root⟩

def earlierViolation : Violation := Schema.requiredViolation ⟨orderLocation.value, .root, .root⟩ "id"

def orderState : State where
  vars := [(orderGuard.1, .bool true)]
  data := [(.data, orderLocation)]
  violations := [earlierViolation]

theorem awaits_order : orderState.Awaits orderGuard.2.names where
  vars name pending := by
    have apart : orderGuard.1 ≠ name := by
      rintro rfl
      exact NameSupply.not_pending_fresh _ isStem_valid pending
    exact if_neg apart
  data name pending := by
    have apart : Name.data ≠ name := by
      rintro rfl
      exact NameSupply.not_pending_data _ pending
    exact if_neg apart

theorem applySubschema_order :
    ∃ code names,
      applySubschema orderContext "properties" "order" (some "order") orderGuard.1
          (.object { required? := some ["card", "holder"] }) orderGuard.2 =
        { orderGuard.2.append code with names } ∧
      ∃ after, runBlock [] code orderState = .ok .fellThrough after ∧
        after.violations = [earlierViolation, Schema.requiredViolation
          ⟨.obj [("card", .null)], .ofKeys ["order"], .ofKeys ["properties", "order"]⟩ "holder"] ∧
        OrderedMap.get? after.vars orderGuard.1 = some (.bool false) ∧
        Retains orderGuard.1 orderState after := by
  obtain ⟨code, names, appended, runs⟩ := applySubschema_compositional orderContext "properties"
    "order" (some "order") orderGuard.1 (.object { required? := some ["card", "holder"] })
    orderGuard.2
  have bound : OrderedMap.get? orderState.data orderContext.data = some orderLocation := rfl
  obtain ⟨through, -⟩ := runs [] orderState orderLocation bound awaits_order
  obtain ⟨after, ran, grown, told, retained⟩ := through (.inl rfl)
  exact ⟨code, names, appended, after, ran, grown, told, retained⟩

end Order

end SchemaCompiler.Emit
