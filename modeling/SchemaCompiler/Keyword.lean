import SchemaCompiler.Json.Value

/-!
The keywords that produce checks. Every other member of a schema object is an annotation.
-/

namespace SchemaCompiler

inductive Keyword where
  | required
  | dependencies
  | properties
  deriving DecidableEq, Repr

namespace Keyword

/-- The keywords in the order in which the checks of one schema object are emitted, whatever their
order in the document. -/
def all : List Keyword := [required, dependencies, properties]

def name : Keyword → String
  | required => "required"
  | dependencies => "dependencies"
  | properties => "properties"

def ofName? (text : String) : Option Keyword := all.find? fun keyword => keyword.name == text

def appliesTo : Keyword → Json.Kind
  | required => .object
  | dependencies => .object
  | properties => .object

def valueKind : Keyword → Json.Kind
  | required => .array
  | dependencies => .object
  | properties => .object

@[simp] theorem ofName?_name (keyword : Keyword) : ofName? keyword.name = some keyword := by
  cases keyword <;> rfl

theorem eq_of_name_eq {keyword other : Keyword} (same : keyword.name = other.name) :
    keyword = other := by
  have known := congrArg ofName? same
  rwa [ofName?_name, ofName?_name, Option.some.injEq] at known

theorem name_of_ofName? {text : String} {keyword : Keyword}
    (known : ofName? text = some keyword) : keyword.name = text := by
  have found := List.find?_some known
  simpa using found

end Keyword

end SchemaCompiler
