import SchemaCompiler.Validator

/-!
Validators by name. The first schema registered under a name stays; entries are kept in ascending
order of their names.
-/

namespace SchemaCompiler

structure Registry.Entry where
  document : Json
  validator : Validator

structure Registry where
  options : Options
  entries : OrderedMap String Registry.Entry

inductive RegistryFault where
  | duplicateName (name : String)
  | schemaNotFound (name : String)
  | compile (fault : CompileFault)
  | exec (fault : ExecFault)
  deriving DecidableEq, Repr

def RegistryFault.message : RegistryFault → String
  | duplicateName name => "schema '" ++ name ++ "' already registered"
  | schemaNotFound name => "schema '" ++ name ++ "' not found"
  | compile fault => fault.message
  | exec fault => fault.message

namespace Registry

def empty (options : Options) : Registry := ⟨options, []⟩

def place (name : String) (entry : Entry) : OrderedMap String Entry → OrderedMap String Entry
  | [] => [(name, entry)]
  | (first, old) :: rest =>
    if name < first then (name, entry) :: (first, old) :: rest
    else (first, old) :: place name entry rest

def store (registry : Registry) (name : String) (entry : Entry) : Except RegistryFault Registry :=
  match OrderedMap.get? registry.entries name with
  | some _ => .error (.duplicateName name)
  | none => .ok { registry with entries := place name entry registry.entries }

/-- A taken name is a fault also for a document that does not compile. The name is looked at once
more when the entry is stored, as another handle may have taken it in the meantime. -/
def register (registry : Registry) (name : String) (document : Json) :
    Except RegistryFault Registry :=
  match OrderedMap.get? registry.entries name with
  | some _ => .error (.duplicateName name)
  | none =>
    match Validator.ofDocument registry.options document with
    | .error fault => .error (.compile fault)
    | .ok validator => registry.store name ⟨document, validator⟩

def get? (registry : Registry) (name : String) : Option Validator :=
  (OrderedMap.get? registry.entries name).map Entry.validator

def names (registry : Registry) : List String := OrderedMap.keys registry.entries

def validate (registry : Registry) (name : String) (value : Json) : Except RegistryFault Verdict :=
  match registry.get? name with
  | none => .error (.schemaNotFound name)
  | some validator => (validator.validate { value }).mapError .exec

def toJson (registry : Registry) : Json :=
  .obj [("$defs", .obj (registry.entries.map fun (name, entry) => (name, entry.document)))]

end Registry

end SchemaCompiler
