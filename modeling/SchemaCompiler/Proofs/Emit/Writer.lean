import SchemaCompiler.Emit.Schema
import SchemaCompiler.Proofs.Code.FreshNames

/-!
Emission without a buffer. What a schema appends is a block that depends on the names still to come
and on nothing else, and the checks that stand in an else branch left open are part of it.
-/

namespace SchemaCompiler.Emit

open Code

structure Fragment where
  code : Block
  names : NameSupply

/-- Code to be written once it is known which names are still to come. -/
structure Writer where
  write : NameSupply → Fragment
  grows : ∀ names : NameSupply, names.Precedes (write names).names

namespace Writer

def code (writer : Writer) (names : NameSupply) : Block := (writer.write names).code

def after (writer : Writer) (names : NameSupply) : NameSupply := (writer.write names).names

def nothing : Writer where
  write names := ⟨[], names⟩
  grows := NameSupply.Precedes.refl

def stmts (block : Block) : Writer where
  write names := ⟨block, names⟩
  grows := NameSupply.Precedes.refl

def andThen (first second : Writer) : Writer where
  write names := ⟨first.code names ++ second.code (first.after names),
    second.after (first.after names)⟩
  grows names := (first.grows names).trans (second.grows (first.after names))

def cond (test : Expr) (yes : Writer) : Writer where
  write names := ⟨[.cond test (yes.code names) none], yes.after names⟩
  grows := yes.grows

def condElse (test : Expr) (yes no : Writer) : Writer where
  write names := ⟨[.cond test (yes.code names) (some (no.code (yes.after names)))],
    no.after (yes.after names)⟩
  grows names := (yes.grows names).trans (no.grows (yes.after names))

def fresh (stem : String) (body : Name → Writer) : Writer where
  write names := (body (names.fresh stem).1).write (names.fresh stem).2
  grows names := (names.precedes_fresh stem).trans ((body _).grows _)

def declare (stem : String) (value : Expr) (body : Name → Writer) : Writer :=
  fresh stem fun name => (stmts [.declare name value]).andThen (body name)

def bindData (parent : Name) (property : String) (body : Name → Writer) : Writer :=
  fresh Name.data.text fun name => (stmts [.bindData name parent property]).andThen (body name)

section Equations

variable (first second : Writer) (names : NameSupply) (stem : String)

@[simp] theorem code_stmts (block : Block) : (stmts block).code names = block := rfl

@[simp] theorem after_stmts (block : Block) : (stmts block).after names = names := rfl

@[simp] theorem code_andThen :
    (first.andThen second).code names = first.code names ++ second.code (first.after names) := rfl

@[simp] theorem after_andThen :
    (first.andThen second).after names = second.after (first.after names) := rfl

@[simp] theorem code_fresh (body : Name → Writer) :
    (fresh stem body).code names = (body (names.fresh stem).1).code (names.fresh stem).2 := rfl

@[simp] theorem after_fresh (body : Name → Writer) :
    (fresh stem body).after names = (body (names.fresh stem).1).after (names.fresh stem).2 := rfl

end Equations

end Writer

def reportStmt (context : Context) (site : Site) : Stmt :=
  match context.options.policy with
  | .stopAtFirst => .fail site
  | .accumulateAll => .report site

def missingCheck (context : Context) (keyword : Keyword) (params : List (String × ParamValue))
    (name : String) : Stmt :=
  let site := keywordSite context keyword (params ++ [(missingParam, .literal (.str name))])
  .cond (absent context name) [reportStmt context site] none

def writeFirstMissing (context : Context) (keyword : Keyword) (params : List (String × ParamValue))
    (condition : Expr) (missing : Name) (rest : Writer) : Writer :=
  let site := keywordSite context keyword (params ++ [(missingParam, .var missing)])
  .condElse condition (.stmts [reportStmt context site]) rest

def writeRequired (context : Context) (names : List String) : Writer :=
  if names.isEmpty then .nothing
  else match context.options.policy with
    | .accumulateAll => .stmts (names.map (missingCheck context .required []))
    | .stopAtFirst => .declare missingStem .undefined fun missing =>
      writeFirstMissing context .required [] (missingCondition context names missing) missing
        .nothing

def writePropertyDependency (context : Context) (missing : Name) (trigger : String)
    (names : List String) (rest : Writer) : Writer :=
  if names.isEmpty then rest
  else match context.options.policy with
    | .accumulateAll =>
      (Writer.cond (present context trigger)
        (.stmts (names.map (missingCheck context .dependencies (triggerParams trigger names))))
      ).andThen rest
    | .stopAtFirst =>
      writeFirstMissing context .dependencies (triggerParams trigger names)
        (.allOf [present context trigger, missingCondition context names missing]) missing rest

def writeTriggers (context : Context) (missing : Name) (rest : Writer) :
    List (String × List String) → Writer
  | [] => rest
  | (trigger, names) :: more =>
    writePropertyDependency context missing trigger names (writeTriggers context missing rest more)

def writePropertyDependencies (context : Context) (triggers : List (String × List String))
    (rest : Writer) : Writer :=
  if triggers.isEmpty then rest
  else .declare missingStem .undefined fun missing => writeTriggers context missing rest triggers

def writeSettle (context : Context) (valid : Name) : Writer :=
  match context.options.policy with
  | .accumulateAll => .nothing
  | .stopAtFirst => .stmts [.cond (.negate (.var valid)) [.ret false] none]

def writeSubschema (context : Context) (keyword member : String) (property? : Option String)
    (valid : Name) (body : Context → Writer) : Writer :=
  let counted (inner : Context) : Writer := .declare beforeStem .errorCount fun before =>
    (body inner).andThen (.stmts [.assign valid (.noErrorsSince before)])
  match property? with
  | none => counted (context.descend keyword member none)
  | some property => .bindData context.data property fun data =>
    counted (context.descend keyword member (some data))

def writeSchemaDependency (context : Context) (valid : Name) (trigger : String)
    (body : Context → Writer) : Writer :=
  (Writer.condElse (present context trigger)
    (writeSubschema context Keyword.dependencies.name trigger none valid body)
    (.stmts [.assign valid (.bool true)])).andThen (writeSettle context valid)

def writeProperty (context : Context) (valid : Name) (property : String)
    (body : Context → Writer) : Writer :=
  let applied := writeSubschema context Keyword.properties.name property (some property) valid body
  let branched : Writer := match context.options.policy with
    | .accumulateAll => .cond (present context property) applied
    | .stopAtFirst =>
      .condElse (present context property) applied (.stmts [.assign valid (.bool true)])
  branched.andThen (writeSettle context valid)

def guardTest (context : Context) (keyword : Keyword) : Expr :=
  .isType context.data keyword.appliesTo

def writeRequiredKeyword (context : Context) : Option (List String) → Writer
  | none => .nothing
  | some names => .cond (guardTest context .required) (writeRequired context names)

mutual

def write (context : Context) : Schema → Writer
  | .bool true => .nothing
  | .bool false => .stmts [reportStmt context (falseSite context)]
  | .object ⟨required?, properties?, dependencies?, _⟩ =>
    (writeRequiredKeyword context required?).andThen
      ((writeDependenciesKeyword context dependencies?).andThen
        (writePropertiesKeyword context properties?))

def writeDependenciesKeyword (context : Context) :
    Option (List (String × Constraint Schema)) → Writer
  | none => .nothing
  | some entries => .fresh validStem fun valid =>
    .cond (guardTest context .dependencies)
      (writePropertyDependencies context (Dependencies.propertyHalf entries)
        (writeSchemaDependencies context valid entries))

def writePropertiesKeyword (context : Context) : Option (List (String × Schema)) → Writer
  | none => .nothing
  | some entries => .fresh validStem fun valid =>
    .cond (guardTest context .properties) (writeProperties context valid entries)

def writeSchemaDependencies (context : Context) (valid : Name) :
    List (String × Constraint Schema) → Writer
  | [] => .nothing
  | (_, .names _) :: rest => writeSchemaDependencies context valid rest
  | (trigger, .schema schema) :: rest =>
    if trigger = Dependencies.reservedTrigger ∨ schema.alwaysValid = true then
      writeSchemaDependencies context valid rest
    else
      (writeSchemaDependency context valid trigger fun inner => write inner schema).andThen
        (writeSchemaDependencies context valid rest)

def writeProperties (context : Context) (valid : Name) : List (String × Schema) → Writer
  | [] => .nothing
  | (property, schema) :: rest =>
    if schema.alwaysValid = true then writeProperties context valid rest
    else
      (writeProperty context valid property fun inner => write inner schema).andThen
        (writeProperties context valid rest)

end

end SchemaCompiler.Emit
