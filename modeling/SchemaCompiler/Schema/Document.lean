import SchemaCompiler.Fault
import SchemaCompiler.Schema.Basic

/-!
Reading schemas from documents. The first fault in document order is the one reported, and a
schema position too deep is refused before its value is looked at.
-/

namespace SchemaCompiler.Schema

/-- The strings of an array; `fault` says what an item of another kind at a position means. -/
def readNames (fault : Nat → Json.Kind → CompileFault) :
    Nat → List Json → Except CompileFault (List String)
  | _, [] => .ok []
  | position, .str name :: rest => do
    let names ← readNames fault (position + 1) rest
    .ok (name :: names)
  | position, item :: _ => .error (fault position item.kind)

def readRequired (path : Pointer) (value : Json) : Except CompileFault (List String) :=
  match value with
  | .arr items =>
    readNames (fun i found => .keywordType .required (path.index i) .string found) 0 items
  | other => .error (.keywordType .required path .array other.kind)

def readTriggerNames (property : String) (path : Pointer) (items : List Json) :
    Except CompileFault (List String) :=
  readNames (fun i found => .invalidDependency property (path.index i) found) 0 items

mutual

/-- The schema at `path`, which is `depth` schemas below the root. -/
def readNode (limit : Nat) (path : Pointer) (depth : Nat) (value : Json) :
    Except CompileFault Schema :=
  if limit < depth then .error (.maxDepthExceeded path limit)
  else match value with
    | .bool accepts => .ok (.bool accepts)
    | .obj members => do
      let object ← readMembers limit path depth members
      .ok (.object object)
    | other => .error (.invalidSchema path other.kind)

def readMembers (limit : Nat) (path : Pointer) (depth : Nat) :
    List (String × Json) → Except CompileFault (SchemaObject Schema)
  | [] => .ok {}
  | (name, value) :: rest =>
    match Keyword.ofName? name with
    | none => do
      let object ← readMembers limit path depth rest
      .ok { object with annotations := (name, value) :: object.annotations }
    | some .required => do
      let names ← readRequired (path.key name) value
      let object ← readMembers limit path depth rest
      .ok { object with required? := some names }
    | some .properties =>
      match value with
      | .obj members => do
        let properties ← readProperties limit (path.key name) (depth + 1) members
        let object ← readMembers limit path depth rest
        .ok { object with properties? := some properties }
      | other => .error (.keywordType .properties (path.key name) .object other.kind)
    | some .dependencies =>
      match value with
      | .obj members => do
        let dependencies ← readDependencies limit (path.key name) (depth + 1) members
        let object ← readMembers limit path depth rest
        .ok { object with dependencies? := some dependencies }
      | other => .error (.keywordType .dependencies (path.key name) .object other.kind)

def readProperties (limit : Nat) (path : Pointer) (depth : Nat) :
    List (String × Json) → Except CompileFault (List (String × Schema))
  | [] => .ok []
  | (name, value) :: rest => do
    let schema ← readNode limit (path.key name) depth value
    let properties ← readProperties limit path depth rest
    .ok ((name, schema) :: properties)

def readDependencies (limit : Nat) (path : Pointer) (depth : Nat) :
    List (String × Json) → Except CompileFault (List (String × Constraint Schema))
  | [] => .ok []
  | (trigger, value) :: rest => do
    let constraint ← match value with
      | .arr items => (readTriggerNames trigger (path.key trigger) items).map .names
      | .bool _ => (readNode limit (path.key trigger) depth value).map .schema
      | .obj _ => (readNode limit (path.key trigger) depth value).map .schema
      | other => .error (.invalidDependency trigger (path.key trigger) other.kind)
    let dependencies ← readDependencies limit path depth rest
    .ok ((trigger, constraint) :: dependencies)

end

def ofJson (limit : Nat) (document : Json) : Except CompileFault Schema :=
  readNode limit .root 0 document

end SchemaCompiler.Schema
