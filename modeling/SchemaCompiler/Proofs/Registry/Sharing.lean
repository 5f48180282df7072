import SchemaCompiler.Proofs.Registry.Entries

/-!
Handles on one registry. The session keeps a store for each handle to point at, but all handles ever
made point at the same one and have the same options. So every call is a call on one registry, and
it does not matter which handle it names.
-/

namespace SchemaCompiler.Registry

/-- A call on the registry itself, of which there are so many handles. -/
def serve (registry : Registry) (handles : Nat) : Call → Registry × Answer
  | .register name document =>
    match registry.register name document with
    | .ok next => (next, .registered)
    | .error fault => (registry, .fault fault)
  | .get name => (registry, .validator (registry.get? name))
  | .validate name value =>
    match registry.validate name value with
    | .ok verdict => (registry, .verdict verdict)
    | .error fault => (registry, .fault fault)
  | .names => (registry, .names registry.names)
  | .document => (registry, .document registry.toJson)
  | .options => (registry, .options registry.options)
  | .clone => (registry, .handle handles)

theorem register_options {registry next : Registry} {name : String} {document : Json}
    (registered : registry.register name document = .ok next) :
    next.options = registry.options := by
  have registers := registering registry name document
  rw [registered] at registers
  cases registers
  rfl

namespace Session

/-- There is one store, and every handle is a handle on this registry. -/
structure Shares (session : Session) (registry : Registry) : Prop where
  stores : session.stores = [registry.entries]
  handles : ∀ handle ∈ session.handles, handle = ⟨0, registry.options⟩

theorem shares_start (options : Options) : (start options).Shares (empty options) where
  stores := rfl
  handles := by
    intro handle member
    rw [List.mem_singleton.mp member]
    rfl

section Held

variable {session : Session}

theorem call_of_not_held {number : Nat} (beyond : session.handles.length ≤ number) (call : Call) :
    session.call number call = (session, .noHandle) := by
  rw [Session.call, List.getElem?_eq_none beyond]

theorem length_handles_call (number : Nat) (call : Call) :
    session.handles.length ≤ (session.call number call).1.handles.length := by
  unfold Session.call
  split
  · next handle found =>
    cases call with
    | register name document =>
      rw [callThrough]
      cases (session.registryAt handle).register name document <;> exact Nat.le_refl _
    | validate name value =>
      rw [callThrough]
      cases (session.registryAt handle).validate name value <;> exact Nat.le_refl _
    | clone =>
      rw [callThrough, List.length_append]
      exact Nat.le_add_right _ _
    | _ => exact Nat.le_refl _
  · exact Nat.le_refl _

theorem call_fault {number : Nat} {call : Call} {fault : RegistryFault}
    (failed : (session.call number call).2 = .fault fault) :
    (session.call number call).1 = session := by
  unfold Session.call at failed ⊢
  split
  · next handle found =>
    rw [found] at failed
    cases call with
    | register name document =>
      simp only [callThrough] at failed ⊢
      cases registered : (session.registryAt handle).register name document with
      | ok registry =>
        rw [registered] at failed
        cases failed
      | error other => rfl
    | validate name value =>
      rw [callThrough]
      cases (session.registryAt handle).validate name value <;> rfl
    | _ => cases failed
  · rfl

end Held

namespace Shares

variable {session : Session} {registry : Registry} (shares : session.Shares registry)

include shares

theorem registryAt : session.registryAt ⟨0, registry.options⟩ = registry := by
  rw [Session.registryAt, shares.stores]
  rfl

theorem write {next : Registry} (sameOptions : next.options = registry.options) :
    Shares { session with stores := session.stores.set 0 next.entries } next where
  stores := by rw [shares.stores, List.set_cons_zero]
  handles := sameOptions ▸ shares.handles

theorem clone : Shares { session with handles := session.handles ++ [⟨0, registry.options⟩] }
    registry where
  stores := shares.stores
  handles := by
    intro handle member
    rcases List.mem_append.mp member with old | new
    · exact shares.handles handle old
    · exact List.mem_singleton.mp new

/-- A call through any handle is a call on the registry. -/
theorem call {number : Nat} (held : number < session.handles.length) (call : Call) :
    (session.call number call).1.Shares (registry.serve session.handles.length call).1 ∧
      (session.call number call).2 = (registry.serve session.handles.length call).2 := by
  have same := shares.handles _ (List.getElem_mem held)
  rw [Session.call, List.getElem?_eq_getElem held, same]
  have reads := shares.registryAt
  cases call with
  | register name document =>
    simp only [callThrough, serve, reads]
    cases registered : registry.register name document with
    | error fault => exact ⟨shares, rfl⟩
    | ok next => exact ⟨shares.write (register_options registered), rfl⟩
  | validate name value =>
    simp only [callThrough, serve, reads]
    cases registry.validate name value <;> exact ⟨shares, rfl⟩
  | clone => exact ⟨shares.clone, rfl⟩
  | _ =>
    refine ⟨shares, ?_⟩
    simp only [callThrough, serve, reads]

/-- It does not matter which handle is called. -/
theorem call_eq {number other : Nat} (held : number < session.handles.length)
    (otherHeld : other < session.handles.length) (call : Call) :
    session.call number call = session.call other call := by
  have here := shares.handles _ (List.getElem_mem held)
  have there := shares.handles _ (List.getElem_mem otherHeld)
  rw [Session.call, Session.call, List.getElem?_eq_getElem held,
    List.getElem?_eq_getElem otherHeld, here, there]

end Shares

theorem after_append (session : Session) (left right : List (Nat × Call)) :
    session.after (left ++ right) = (session.after left).after right :=
  List.foldl_append

theorem after_cons (session : Session) (number : Nat) (call : Call) (later : List (Nat × Call)) :
    session.after ((number, call) :: later) = (session.call number call).1.after later := rfl

end Session

end SchemaCompiler.Registry
