import SchemaCompiler.Instance

/-!
Looking up properties while code runs.
-/

namespace SchemaCompiler

namespace Run

/-- A property of an object: its own member, or else an inherited one unless `own` is set. Other
values have no properties. -/
def lookup (prototype : Json.Members) (target : Json) (property : String) (own : Bool) :
    Option Json :=
  match target with
  | .obj members =>
    match OrderedMap.get? members property with
    | some value => some value
    | none => if own then none else OrderedMap.get? prototype property
  | _ => none

end Run

def Instance.lookup (subject : Instance) (target : Json) (property : String) (own : Bool) :
    Option Json :=
  Run.lookup subject.prototype target property own

end SchemaCompiler
