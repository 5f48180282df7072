import SchemaCompiler.DependencyFailure
import SchemaCompiler.Keyword

/-!
How a failed check is put into words: from the raw parameters of the check, its message and the
parameters a violation shows. Code may bring words of its own; those of the keywords are here.
-/

namespace SchemaCompiler

structure Wording where
  message : Json.Members → String
  /-- The parameters that are shown. -/
  params : Json.Members → Json.Members

namespace Wording

def generic : Wording where
  message _ := "should pass keyword validation"
  params raw := raw

def required : Wording where
  message raw :=
    "should have required property '" ++
      (DependencyFailure.textAt? raw "missingProperty").getD "" ++ "'"
  params raw :=
    match OrderedMap.get? raw "missingProperty" with
    | none => []
    | some value => [("missingProperty", value)]

def dependencies : Wording where
  message raw := (DependencyFailure.ofParams raw).message
  params raw := (DependencyFailure.ofParams raw).params

def falseSchema : Wording where
  message _ := "boolean schema is false"
  params _ := []

/-- The words of a keyword's own violations; `properties` reports none of its own. -/
def ofKeyword? : Keyword → Option Wording
  | .required => some required
  | .dependencies => some dependencies
  | .properties => none

def ofKeyword (keyword : Keyword) : Wording := (ofKeyword? keyword).getD generic

end Wording

end SchemaCompiler
