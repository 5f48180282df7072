import SchemaCompiler.Code.Buffer
import SchemaCompiler.Emit.Context

/-!
The checks that ask for properties. When every failure is to be reported, each property has a check
of its own; when the first failure ends the validation, one condition looks for the first missing
property and keeps its name in a variable.
-/

namespace SchemaCompiler.Emit

open Code

def missingParam : String := "missingProperty"

/-- A report that ends the validation, unless every failure is to be reported. -/
def report (context : Context) (site : Site) (buffer : Buffer) : Buffer :=
  match context.options.policy with
  | .stopAtFirst => buffer.push (.fail site)
  | .accumulateAll => buffer.push (.report site)

def keywordSite (context : Context) (keyword : Keyword) (params : List (String × ParamValue)) :
    Site where
  keyword := keyword.name
  data := context.data
  schemaPath := context.schemaPath.key keyword.name
  params := params
  wording := .ofKeyword keyword

def present (context : Context) (property : String) : Expr :=
  .present context.data property context.options.ownProperties

def absent (context : Context) (property : String) : Expr :=
  .absent context.data property context.options.ownProperties

def missingCondition (context : Context) (names : List String) (missing : Name) : Expr :=
  .anyOf (names.map fun name => .allOf [absent context name, .bind missing (.str name)])

def reportEachMissing (context : Context) (keyword : Keyword)
    (params : List (String × ParamValue)) : List String → Buffer → Buffer
  | [], buffer => buffer
  | name :: rest, buffer =>
    let site := keywordSite context keyword (params ++ [(missingParam, .literal (.str name))])
    reportEachMissing context keyword params rest
      (report context site (buffer.openIf (absent context name))).closeIf

def reportFirstMissing (context : Context) (keyword : Keyword)
    (params : List (String × ParamValue)) (condition : Expr) (missing : Name) (buffer : Buffer) :
    Buffer :=
  let site := keywordSite context keyword (params ++ [(missingParam, .var missing)])
  (report context site (buffer.openIf condition)).openElse

def emitRequired (context : Context) (names : List String) (buffer : Buffer) : Buffer :=
  if names.isEmpty then buffer
  else match context.options.policy with
    | .accumulateAll => reportEachMissing context .required [] names buffer
    | .stopAtFirst =>
      let (missing, buffer) := buffer.declare missingStem .undefined
      reportFirstMissing context .required [] (missingCondition context names missing) missing
        buffer

def triggerParams (trigger : String) (names : List String) : List (String × ParamValue) :=
  [("property", .literal (.str trigger)),
   ("depsCount", .literal (.ofNat names.length)),
   ("deps", .literal (.str (DependencyFailure.joinNames names)))]

def emitPropertyDependency (context : Context) (missing : Name) (trigger : String)
    (names : List String) (buffer : Buffer) : Buffer :=
  if names.isEmpty then buffer
  else match context.options.policy with
    | .accumulateAll =>
      (reportEachMissing context .dependencies (triggerParams trigger names) names
        (buffer.openIf (present context trigger))).closeIf
    | .stopAtFirst =>
      reportFirstMissing context .dependencies (triggerParams trigger names)
        (.allOf [present context trigger, missingCondition context names missing]) missing buffer

/-- The variable is declared even if no trigger asks for any property. -/
def emitPropertyDependencies (context : Context) (triggers : OrderedMap String (List String))
    (buffer : Buffer) : Buffer :=
  if triggers.isEmpty then buffer
  else
    let (missing, buffer) := buffer.declare missingStem .undefined
    triggers.foldl (fun buffer (trigger, names) =>
      emitPropertyDependency context missing trigger names buffer) buffer

end SchemaCompiler.Emit
