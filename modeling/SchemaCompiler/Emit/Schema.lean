import SchemaCompiler.Emit.Missing
import SchemaCompiler.Schema.Dependencies

/-!
The checks of a schema, appended to a buffer. A subschema is checked in place, with its own data
reference and its own place in the schema; a variable then tells whether it found a violation.
-/

namespace SchemaCompiler.Emit

open Code

def falseSite (context : Context) : Site where
  keyword := "false schema"
  data := context.data
  schemaPath := context.schemaPath
  params := []
  wording := .falseSchema

def openGuard (context : Context) (keyword : Keyword) (buffer : Buffer) : Buffer :=
  buffer.openIf (.isType context.data keyword.appliesTo)

/-- Closes the guard that was opened at `depth`, after all that the checks inside left open. -/
def closeGuard (depth : Nat) (buffer : Buffer) : Buffer := buffer.closeTo depth

/-- Ends the validation if `valid` is false. If every failure is to be reported there is nothing to
do, since the failing checks have reported. -/
def settle (context : Context) (valid : Name) (buffer : Buffer) : Buffer :=
  match context.options.policy with
  | .accumulateAll => buffer
  | .stopAtFirst => ((buffer.openIf (.negate (.var valid))).push (.ret false)).closeIf

structure Entrance where
  context : Context
  /-- The variable that counted the violations before the checks. -/
  before : Name
  buffer : Buffer

def enter (context : Context) (keyword member : String) (property? : Option String)
    (buffer : Buffer) : Entrance :=
  match property? with
  | none =>
    let (before, buffer) := buffer.declare beforeStem .errorCount
    ⟨context.descend keyword member none, before, buffer⟩
  | some property =>
    let (data, buffer) := buffer.bindData context.data property
    let (before, buffer) := buffer.declare beforeStem .errorCount
    ⟨context.descend keyword member (some data), before, buffer⟩

def leave (entrance : Entrance) (valid : Name) (buffer : Buffer) : Buffer :=
  buffer.assign valid (.noErrorsSince entrance.before)

def emitRequiredKeyword (context : Context) : Option (List String) → Buffer → Buffer
  | none, buffer => buffer
  | some names, buffer =>
    closeGuard buffer.depth (emitRequired context names (openGuard context .required buffer))

mutual

def emit (context : Context) : Schema → Buffer → Buffer
  | .bool true, buffer => buffer
  | .bool false, buffer => report context (falseSite context) buffer
  | .object ⟨required?, properties?, dependencies?, _⟩, buffer =>
    emitPropertiesKeyword context properties?
      (emitDependenciesKeyword context dependencies? (emitRequiredKeyword context required? buffer))

def emitDependenciesKeyword (context : Context) :
    Option (List (String × Constraint Schema)) → Buffer → Buffer
  | none, buffer => buffer
  | some entries, buffer =>
    let (valid, opened) := (openGuard context .dependencies buffer).fresh validStem
    closeGuard buffer.depth
      (emitSchemaDependencies context valid entries
        (emitPropertyDependencies context (Dependencies.propertyHalf entries) opened))

def emitPropertiesKeyword (context : Context) : Option (List (String × Schema)) → Buffer → Buffer
  | none, buffer => buffer
  | some entries, buffer =>
    let (valid, opened) := (openGuard context .properties buffer).fresh validStem
    closeGuard buffer.depth (emitProperties context valid entries opened)

def emitSchemaDependencies (context : Context) (valid : Name) :
    List (String × Constraint Schema) → Buffer → Buffer
  | [], buffer => buffer
  | (_, .names _) :: rest, buffer => emitSchemaDependencies context valid rest buffer
  | (trigger, .schema schema) :: rest, buffer =>
    if trigger = Dependencies.reservedTrigger ∨ schema.alwaysValid = true then
      emitSchemaDependencies context valid rest buffer
    else
      let entrance := enter context Keyword.dependencies.name trigger none
        (buffer.openIf (present context trigger))
      let applied := leave entrance valid (emit entrance.context schema entrance.buffer)
      emitSchemaDependencies context valid rest
        (settle context valid (applied.openElse.assign valid (.bool true)).closeIf)

def emitProperties (context : Context) (valid : Name) : List (String × Schema) → Buffer → Buffer
  | [], buffer => buffer
  | (property, schema) :: rest, buffer =>
    if schema.alwaysValid = true then emitProperties context valid rest buffer
    else
      let entrance := enter context Keyword.properties.name property (some property)
        (buffer.openIf (present context property))
      let applied := leave entrance valid (emit entrance.context schema entrance.buffer)
      let branched := match context.options.policy with
        | .accumulateAll => applied
        | .stopAtFirst => applied.openElse.assign valid (.bool true)
      emitProperties context valid rest (settle context valid branched.closeIf)

end

def applySubschema (context : Context) (keyword member : String) (property? : Option String)
    (valid : Name) (schema : Schema) (buffer : Buffer) : Buffer :=
  let entrance := enter context keyword member property? buffer
  leave entrance valid (emit entrance.context schema entrance.buffer)

end SchemaCompiler.Emit
