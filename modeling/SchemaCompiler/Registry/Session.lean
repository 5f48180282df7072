import SchemaCompiler.Registry

/-!
A registry in use, through the first handle and the clones made of it. A handle knows the place of
its store and has options of its own; the clone of a handle is a handle on the same store.
-/

namespace SchemaCompiler.Registry

structure Handle where
  store : Nat
  options : Options

structure Session where
  stores : List (OrderedMap String Entry)
  /-- In the order in which they were made. -/
  handles : List Handle

inductive Call where
  | register (name : String) (document : Json)
  | get (name : String)
  | validate (name : String) (value : Json)
  | names
  | document
  | options
  | clone

inductive Answer where
  | registered
  | validator (found? : Option Validator)
  | verdict (verdict : Verdict)
  | names (list : List String)
  | document (document : Json)
  | options (options : Options)
  | handle (number : Nat)
  | fault (fault : RegistryFault)
  /-- The call was through a handle that nobody has made. -/
  | noHandle

namespace Session

def start (options : Options) : Session := ⟨[[]], [⟨0, options⟩]⟩

def registryAt (session : Session) (handle : Handle) : Registry :=
  ⟨handle.options, session.stores.getD handle.store []⟩

def callThrough (session : Session) (handle : Handle) : Call → Session × Answer
  | .register name document =>
    match (session.registryAt handle).register name document with
    | .ok registry =>
      ({ session with stores := session.stores.set handle.store registry.entries }, .registered)
    | .error fault => (session, .fault fault)
  | .get name => (session, .validator ((session.registryAt handle).get? name))
  | .validate name value =>
    match (session.registryAt handle).validate name value with
    | .ok verdict => (session, .verdict verdict)
    | .error fault => (session, .fault fault)
  | .names => (session, .names (session.registryAt handle).names)
  | .document => (session, .document (session.registryAt handle).toJson)
  | .options => (session, .options handle.options)
  | .clone =>
    ({ session with handles := session.handles ++ [handle] }, .handle session.handles.length)

/-- A call through the handle of that number; the handles are numbered from zero. -/
def call (session : Session) (number : Nat) (call : Call) : Session × Answer :=
  match session.handles[number]? with
  | some handle => session.callThrough handle call
  | none => (session, .noHandle)

def after (session : Session) (calls : List (Nat × Call)) : Session :=
  calls.foldl (fun session (number, call) => (session.call number call).1) session

end Session

end SchemaCompiler.Registry
