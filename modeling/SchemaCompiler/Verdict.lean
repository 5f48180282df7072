import SchemaCompiler.Violation

/-!
The outcome of a validation.
-/

namespace SchemaCompiler

inductive Verdict (ν : Type := Violations) where
  | valid
  | invalid (violations : ν)
  deriving Repr

namespace Verdict

variable {ν : Type}

def gather (collection : Violation.Collection ν) (list : List Violation) : Verdict ν :=
  match collection.ofList? list with
  | none => valid
  | some violations => invalid violations

def found (collection : Violation.Collection ν) : Verdict ν → List Violation
  | valid => []
  | invalid violations => collection.toList violations

def isValid : Verdict ν → Bool
  | valid => true
  | invalid _ => false

def ofViolations (list : List Violation) : Verdict := gather Violations.collection list

def violations (verdict : Verdict) : List Violation := verdict.found Violations.collection

/-- Both must be valid; the violations of both are kept, those of the first one first. -/
def and : Verdict → Verdict → Verdict
  | valid, right => right
  | invalid left, valid => invalid left
  | invalid left, invalid right => invalid (left ++ right)

end Verdict

end SchemaCompiler
