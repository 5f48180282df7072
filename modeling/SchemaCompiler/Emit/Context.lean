import SchemaCompiler.Code.Name
import SchemaCompiler.Options
import SchemaCompiler.Pointer

/-!
Where the checks of a schema stand: the data they look at, their place in the schema document, and
the options in effect. The variables of the checks are named by what they hold.
-/

namespace SchemaCompiler.Emit

open Code

structure Context where
  options : Options
  data : Name
  schemaPath : Pointer
  /-- The number of subschemas around this place. -/
  depth : Nat
  deriving Repr

namespace Context

def root (options : Options) (data : Name) : Context := ⟨options, data, .root, 0⟩

def descend (context : Context) (keyword member : String) (data? : Option Name) : Context where
  options := context.options
  data := data?.getD context.data
  schemaPath := (context.schemaPath.key keyword).key member
  depth := context.depth + 1

end Context

def missingStem : String := "missing"

def validStem : String := "valid"

def beforeStem : String := "errs"

end SchemaCompiler.Emit
