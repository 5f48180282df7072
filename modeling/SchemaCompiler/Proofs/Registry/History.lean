import Mathlib.Data.List.Induction
import SchemaCompiler.Proofs.Registry.Sharing
import SchemaCompiler.Proofs.Utf8

/-!
A registry over time. Whatever was called before and through which handles, the first document that
a name was registered with is the one that counts: all answers can be told from the registrations
that succeeded, they are the same through every handle, and a call that failed leaves no trace in
the answers to later ones.
-/

namespace SchemaCompiler.Registry

def reached (options : Options) (calls : List (Nat × Call)) : Session :=
  (Session.start options).after calls

def answer (options : Options) (calls : List (Nat × Call)) (handle : Nat) (call : Call) : Answer :=
  ((reached options calls).call handle call).2

def Accepted (options : Options) (calls : List (Nat × Call)) (name : String) (document : Json) :
    Prop :=
  ∃ before handle later, calls = before ++ (handle, .register name document) :: later ∧
    answer options before handle (.register name document) = .registered

/-- The answers to the next call through the handle, told from the registrations that were
accepted. -/
structure FirstWins (options : Options) (calls : List (Nat × Call)) (handle : Nat) : Prop where
  /-- A registration is accepted if the name is free and the document compiles. -/
  registered : ∀ name document,
    answer options calls handle (.register name document) = .registered ↔
      (∀ earlier, ¬ Accepted options calls name earlier) ∧
        ∃ validator, Validator.ofDocument options document = .ok validator
  /-- A name that is taken is a fault, also for a document that does not compile, and a name that is
  free is never found taken. -/
  duplicate : ∀ name document,
    answer options calls handle (.register name document) = .fault (.duplicateName name) ↔
      ∃ earlier, Accepted options calls name earlier
  /-- Under a free name, the fault is the one of reading the document. -/
  refused : ∀ name document fault, (∀ earlier, ¬ Accepted options calls name earlier) →
    Schema.ofJson options.maxDepth document = .error fault →
      answer options calls handle (.register name document) = .fault (.compile fault)
  /-- After a call that failed, all answers are as if it had not been made. -/
  traceless : ∀ call fault, answer options calls handle call = .fault fault → ∀ later other next,
    answer options (calls ++ (handle, call) :: later) other next =
      answer options (calls ++ later) other next
  /-- An accepted document validates under its name. -/
  found : ∀ name document, Accepted options calls name document →
    ∃ validator, Validator.ofDocument options document = .ok validator ∧
      answer options calls handle (.get name) = .validator (some validator) ∧
        ∀ value, ∃ verdict, validator.validate { value } = .ok verdict ∧
          answer options calls handle (.validate name value) = .verdict verdict
  /-- Under any other name nothing is found. -/
  unknown : ∀ name, (∀ document, ¬ Accepted options calls name document) →
    answer options calls handle (.get name) = .validator none ∧
      ∀ value, answer options calls handle (.validate name value) = .fault (.schemaNotFound name)
  /-- No call meets a fault of generated code. -/
  faultless : ∀ call fault, answer options calls handle call ≠ .fault (.exec fault)
  /-- The names are those accepted, in the order of their bytes. -/
  names : ∃ list, answer options calls handle .names = .names list ∧
    list.Pairwise (fun first second => utf8 first < utf8 second) ∧
      ∀ name, name ∈ list ↔ ∃ document, Accepted options calls name document
  /-- The exported document has the accepted documents under these names, in the same order. -/
  document : ∃ list definitions, answer options calls handle .names = .names list ∧
    answer options calls handle .document = .document (.obj [("$defs", .obj definitions)]) ∧
      OrderedMap.keys definitions = list ∧
        ∀ name document, (name, document) ∈ definitions ↔ Accepted options calls name document
  /-- Every other handle gives the same answers. -/
  shared : ∀ other, other < (reached options calls).handles.length →
    ∀ call, answer options calls other call = answer options calls handle call

inductive Storing (registry : Registry) : Call → Registry × Answer → Prop where
  | kept {call : Call} {answer : Answer} (notRegistered : answer ≠ .registered) :
    Storing registry call (registry, answer)
  | stored {name : String} {document : Json} {validator : Validator}
    (free : name ∉ registry.names)
    (compiles : Validator.ofDocument registry.options document = .ok validator) :
    Storing registry (.register name document)
      ({ registry with entries := place name ⟨document, validator⟩ registry.entries }, .registered)

section Step

variable (registry : Registry) (handles : Nat)

theorem storing (call : Call) : Storing registry call (registry.serve handles call) := by
  cases call with
  | register name document =>
    rw [serve]
    cases outcome : registry.register name document with
    | error fault =>
      refine .kept ?_
      rintro ⟨⟩
    | ok next =>
      have registers := registering registry name document
      rw [outcome] at registers
      cases registers with
      | stored free compiles => exact .stored free compiles
  | validate name value =>
    rw [serve]
    cases registry.validate name value <;> exact .kept (by rintro ⟨⟩)
  | _ => exact .kept (by rintro ⟨⟩)

theorem options_serve (call : Call) :
    (registry.serve handles call).1.options = registry.options := by
  have stores := storing registry handles call
  generalize registry.serve handles call = outcome at stores ⊢
  cases stores <;> rfl

theorem sound_serve (sound : Sound registry) (call : Call) :
    Sound (registry.serve handles call).1 := by
  have stores := storing registry handles call
  generalize registry.serve handles call = outcome at stores ⊢
  cases stores with
  | kept => exact sound
  | stored free compiles => exact sound.stored free compiles

theorem mem_documents_serve (call : Call) (name : String) (document : Json) :
    (name, document) ∈ (registry.serve handles call).1.documents ↔
      (name, document) ∈ registry.documents ∨
        call = .register name document ∧ (registry.serve handles call).2 = .registered := by
  have stores := storing registry handles call
  generalize registry.serve handles call = outcome at stores ⊢
  cases stores with
  | kept notRegistered => exact (or_iff_left fun both => notRegistered both.2).symm
  | @stored other written _ _ _ =>
    rw [(documents_stored registry other written _).mem_iff, List.mem_cons, or_comm]
    apply or_congr Iff.rfl
    constructor
    · intro here
      cases here
      exact ⟨rfl, rfl⟩
    · rintro ⟨here, -⟩
      cases here
      rfl

end Step

section Register

variable {registry : Registry} {handles : Nat} {name : String} {document : Json}

theorem serve_register_refused (free : name ∉ registry.names) {fault : CompileFault}
    (failed : Validator.ofDocument registry.options document = .error fault) :
    (registry.serve handles (.register name document)).2 = .fault (.compile fault) := by
  rw [serve, register_refused free failed]

theorem serve_register_eq_duplicateName_iff :
    (registry.serve handles (.register name document)).2 = .fault (.duplicateName name) ↔
      name ∈ registry.names := by
  rw [← register_eq_duplicateName_iff registry name document, serve]
  cases registry.register name document with
  | ok next => exact iff_of_false (by rintro ⟨⟩) (by rintro ⟨⟩)
  | error fault => simp only [Answer.fault.injEq, Except.error.injEq]

theorem serve_register_eq_registered_iff :
    (registry.serve handles (.register name document)).2 = .registered ↔
      name ∉ registry.names ∧
        ∃ validator, Validator.ofDocument registry.options document = .ok validator := by
  constructor
  · intro registered
    have stores := storing registry handles (.register name document)
    generalize registry.serve handles (.register name document) = outcome at stores registered
    cases stores with
    | kept notRegistered => exact absurd registered notRegistered
    | stored free compiles => exact ⟨free, _, compiles⟩
  · rintro ⟨free, validator, compiles⟩
    rw [serve, register_stored free compiles]

end Register

section Validate

variable {registry : Registry} {handles : Nat} {name : String} {value : Json}

theorem serve_validate_ok {verdict : Verdict}
    (validates : registry.validate name value = .ok verdict) :
    (registry.serve handles (.validate name value)).2 = .verdict verdict := by
  rw [serve, validates]

theorem serve_validate_error {fault : RegistryFault}
    (failed : registry.validate name value = .error fault) :
    (registry.serve handles (.validate name value)).2 = .fault fault := by
  rw [serve, failed]

end Validate

theorem serve_ne_exec {registry : Registry} (sound : Sound registry) (handles : Nat) {call : Call}
    {fault : ExecFault} : (registry.serve handles call).2 ≠ .fault (.exec fault) := by
  cases call with
  | register name document =>
    have registers := registering registry name document
    rw [serve]
    generalize registry.register name document = outcome at registers ⊢
    cases registers <;> rintro ⟨⟩
  | validate name value =>
    by_cases member : name ∈ registry.names
    · obtain ⟨document, listed⟩ := (mem_names_iff registry name).mp member
      obtain ⟨validator, -, -, validates⟩ := sound.validate_of_mem listed
      obtain ⟨verdict, -, valid⟩ := validates value
      rw [serve_validate_ok valid]
      rintro ⟨⟩
    · rw [serve_validate_error (validate_of_free member value)]
      rintro ⟨⟩
  | _ => rintro ⟨⟩

theorem accepted_append {options : Options} {calls : List (Nat × Call)} {handle : Nat} {call : Call}
    {name : String} {document : Json} :
    Accepted options (calls ++ [(handle, call)]) name document ↔
      Accepted options calls name document ∨
        call = .register name document ∧ answer options calls handle call = .registered := by
  constructor
  · rintro ⟨before, through, later, split, registered⟩
    rcases List.eq_nil_or_concat' later with rfl | ⟨front, last, rfl⟩
    · obtain ⟨rfl, same⟩ := List.append_inj' split rfl
      cases same
      exact .inr ⟨rfl, registered⟩
    · rw [← List.cons_append, ← List.append_assoc] at split
      obtain ⟨rfl, -⟩ := List.append_inj' split rfl
      exact .inl ⟨before, through, front, rfl, registered⟩
  · rintro (⟨before, through, later, rfl, registered⟩ | ⟨rfl, registered⟩)
    · exact ⟨before, through, later ++ [(handle, call)],
        by rw [List.append_assoc, List.cons_append], registered⟩
    · exact ⟨calls, handle, [], rfl, registered⟩

structure Recorded (options : Options) (calls : List (Nat × Call)) (registry : Registry) :
    Prop where
  sameOptions : registry.options = options
  sound : Sound registry
  mem_documents : ∀ name document,
    (name, document) ∈ registry.documents ↔ Accepted options calls name document

theorem recorded_nil (options : Options) : Recorded options [] (empty options) where
  sameOptions := rfl
  sound := sound_empty options
  mem_documents := by
    intro name document
    apply iff_of_false List.not_mem_nil
    rintro ⟨before, handle, later, split, -⟩
    exact List.append_ne_nil_of_right_ne_nil before (List.cons_ne_nil _ later) split.symm

theorem reached_append (options : Options) (calls : List (Nat × Call)) (handle : Nat)
    (call : Call) :
    reached options (calls ++ [(handle, call)]) = ((reached options calls).call handle call).1 :=
  Session.after_append _ calls [(handle, call)]

theorem Recorded.serve {options : Options} {calls : List (Nat × Call)} {registry : Registry}
    (recorded : Recorded options calls registry) (shares : (reached options calls).Shares registry)
    {handle : Nat} (held : handle < (reached options calls).handles.length) (call : Call) :
    Recorded options (calls ++ [(handle, call)])
      (registry.serve (reached options calls).handles.length call).1 where
  sameOptions := (options_serve registry _ call).trans recorded.sameOptions
  sound := sound_serve registry _ recorded.sound call
  mem_documents := by
    intro name document
    rw [accepted_append, answer, (shares.call held call).2, ← recorded.mem_documents]
    exact mem_documents_serve registry _ call name document

theorem Recorded.idle {options : Options} {calls : List (Nat × Call)} {registry : Registry}
    (recorded : Recorded options calls registry) {handle : Nat}
    (beyond : (reached options calls).handles.length ≤ handle) (call : Call) :
    Recorded options (calls ++ [(handle, call)]) registry where
  sameOptions := recorded.sameOptions
  sound := recorded.sound
  mem_documents := by
    intro name document
    rw [accepted_append, answer, Session.call_of_not_held beyond, ← recorded.mem_documents]
    exact (or_iff_left fun both => by cases both.2).symm

theorem recorded (options : Options) (calls : List (Nat × Call)) :
    ∃ registry, (reached options calls).Shares registry ∧ Recorded options calls registry := by
  -- A call is answered from what came before it, so the calls are taken from the last one on.
  induction calls using List.reverseRecOn with
  | nil => exact ⟨_, Session.shares_start options, recorded_nil options⟩
  | append_singleton calls last ih =>
    obtain ⟨handle, call⟩ := last
    obtain ⟨registry, shares, record⟩ := ih
    rw [reached_append]
    rcases Nat.lt_or_ge handle (reached options calls).handles.length with held | beyond
    · exact ⟨_, (shares.call held call).1, record.serve shares held call⟩
    · rw [Session.call_of_not_held beyond]
      exact ⟨registry, shares, record.idle beyond call⟩

namespace Recorded

variable {options : Options} {calls : List (Nat × Call)} {registry : Registry}
  (recorded : Recorded options calls registry)

include recorded

theorem mem_names_iff (name : String) :
    name ∈ registry.names ↔ ∃ document, Accepted options calls name document := by
  simp only [Registry.mem_names_iff, recorded.mem_documents]

theorem free_iff (name : String) :
    name ∉ registry.names ↔ ∀ document, ¬ Accepted options calls name document := by
  rw [recorded.mem_names_iff, not_exists]

end Recorded

/-- The first document that compiles under a name stays its document, whatever else is called. -/
theorem firstWins {options : Options} {calls : List (Nat × Call)} {handle : Nat}
    (held : handle < (reached options calls).handles.length) : FirstWins options calls handle := by
  obtain ⟨registry, shares, record⟩ := recorded options calls
  have told (call : Call) : answer options calls handle call = (registry.serve _ call).2 :=
    (shares.call held call).2
  constructor
  case registered =>
    intro name document
    rw [told, serve_register_eq_registered_iff, record.free_iff, record.sameOptions]
  case duplicate =>
    intro name document
    rw [told, serve_register_eq_duplicateName_iff, record.mem_names_iff]
  case refused =>
    intro name document fault free failed
    rw [told]
    apply serve_register_refused ((record.free_iff name).mpr free)
    rw [record.sameOptions]
    exact (Validator.ofDocument_eq_error_iff options document fault).mpr failed
  case traceless =>
    intro call fault failed later other next
    have unchanged : ((reached options calls).call handle call).1 = reached options calls :=
      Session.call_fault failed
    rw [answer, answer, reached, reached, Session.after_append, Session.after_cons,
      Session.after_append]
    exact congrArg (fun session : Session => ((session.after later).call other next).2) unchanged
  case found =>
    intro name document accepted
    obtain ⟨validator, compiles, found, validates⟩ :=
      record.sound.validate_of_mem ((record.mem_documents name document).mpr accepted)
    refine ⟨validator, record.sameOptions ▸ compiles,
      (told _).trans (congrArg Answer.validator found), ?_⟩
    intro value
    obtain ⟨verdict, here, there⟩ := validates value
    exact ⟨verdict, here, (told _).trans (serve_validate_ok there)⟩
  case unknown =>
    intro name unknown
    have free := (record.free_iff name).mpr unknown
    refine ⟨(told _).trans (congrArg Answer.validator (get?_of_free free)), ?_⟩
    exact fun value => (told _).trans (serve_validate_error (validate_of_free free value))
  case faultless =>
    intro call fault
    rw [told]
    exact serve_ne_exec record.sound _
  case names =>
    refine ⟨_, told .names, ?_, record.mem_names_iff⟩
    exact record.sound.ascending.imp utf8_lt_of_lt
  case document =>
    exact ⟨_, _, told .names, (told .document).trans (congrArg Answer.document (toJson_eq _)),
      keys_documents _, record.mem_documents⟩
  case shared =>
    intro other otherHeld call
    rw [answer, answer, shares.call_eq otherHeld held]

section Shop

def orderSchema : String × Json := ("order", .obj [("required", .arr [.str "id"])])

def billDependencies : String × Json :=
  ("bill", .obj [("dependencies", .obj [("card", .arr [.str "holder"])])])

/-- Two names are registered, the second one through a clone; the other registrations fail, and one
call names a handle that there is not. -/
def shopCalls : List (Nat × Call) :=
  [(0, .register orderSchema.1 orderSchema.2), (0, .clone),
    (1, .register billDependencies.1 billDependencies.2),
    (0, .register billDependencies.1 (.bool false)),
    (1, .register "stamp" (.obj [("required", .bool true)])),
    (2, .register "stamp" (.bool true)),
    (1, .validate "stamp" .null)]

theorem firstWins_shop :
    0 < (reached {} shopCalls).handles.length ∧
      Accepted {} shopCalls billDependencies.1 billDependencies.2 ∧
      answer {} shopCalls 0 (.register billDependencies.1 (.num (.int 1))) =
        .fault (.duplicateName "bill") ∧
      answer {} shopCalls 1 .names = answer {} shopCalls 0 .names := by
  have held : 0 < (reached {} shopCalls).handles.length := by decide
  have accepted : Accepted {} shopCalls billDependencies.1 billDependencies.2 :=
    ⟨shopCalls.take 2, 1, shopCalls.drop 3, rfl, rfl⟩
  have wins := firstWins held
  refine ⟨held, accepted, (wins.duplicate _ _).mpr ⟨_, accepted⟩, wins.shared 1 ?_ .names⟩
  decide

end Shop

end SchemaCompiler.Registry
