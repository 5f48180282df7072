import SchemaCompiler.Keyword
import SchemaCompiler.Pointer

/-!
What can go wrong before an answer is reached: a schema document that does not compile, and
generated code that reads what it never wrote.
-/

namespace SchemaCompiler

inductive CompileFault where
  /-- A schema position holds neither an object nor a boolean. -/
  | invalidSchema (path : Pointer) (found : Json.Kind)
  /-- A keyword has a value of the wrong kind. -/
  | keywordType (keyword : Keyword) (path : Pointer) (expected found : Json.Kind)
  /-- A `dependencies` member is neither a list of names nor a schema. -/
  | invalidDependency (property : String) (path : Pointer) (found : Json.Kind)
  /-- A schema position lies below the deepest allowed level. -/
  | maxDepthExceeded (path : Pointer) (limit : Nat)
  /-- The code ends while conditionals are open. -/
  | unclosedBlock (count : Nat)
  deriving DecidableEq, Repr

def CompileFault.message : CompileFault → String
  | invalidSchema path found =>
    "schema at '" ++ path.fragment ++ "' must be an object or a boolean, found " ++ found.name
  | keywordType keyword path expected found =>
    "keyword '" ++ keyword.name ++ "' at '" ++ path.fragment ++ "' must be " ++ expected.name ++
      ", found " ++ found.name
  | invalidDependency property path found =>
    "dependency '" ++ property ++ "' at '" ++ path.fragment ++
      "' must be an array of strings or a schema, found " ++ found.name
  | maxDepthExceeded path limit =>
    "maximum schema depth " ++ toString limit ++ " exceeded at '" ++ path.fragment ++ "'"
  | unclosedBlock count => toString count ++ " conditional block(s) left open"

inductive ExecFault where
  /-- A variable is read before it is written. -/
  | unboundName (name : String)
  /-- A data reference is used before it is bound. -/
  | unboundData (name : String)
  deriving DecidableEq, Repr

def ExecFault.message : ExecFault → String
  | unboundName name => "variable '" ++ name ++ "' read before assignment"
  | unboundData name => "data reference '" ++ name ++ "' is not bound"

end SchemaCompiler
