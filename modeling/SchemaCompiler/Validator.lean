import SchemaCompiler.Emit.Schema
import SchemaCompiler.Run.Machine
import SchemaCompiler.Schema.Document
import SchemaCompiler.Verdict

/-!
Validators: schemas compiled once into code that runs on any number of instances.
-/

namespace SchemaCompiler

structure Validator where
  code : Code.Block
  options : Options

namespace Validator

def ofSchema (options : Options) (schema : Schema) : Except CompileFault Validator := do
  let code ← (Emit.emit (.root options .data) schema .empty).finish
  .ok ⟨code, options⟩

def ofDocument (options : Options) (document : Json) : Except CompileFault Validator := do
  let schema ← Schema.ofJson options.maxDepth document
  ofSchema options schema

def validateIn (validator : Validator) (collection : Violation.Collection ν)
    (subject : Instance) : Except ExecFault (Verdict ν) := do
  let violations ← Run.run validator.code subject
  .ok (.gather collection violations)

def validate (validator : Validator) (subject : Instance) : Except ExecFault Verdict :=
  validator.validateIn Violations.collection subject

def isValid (validator : Validator) (value : Json) : Except ExecFault Bool := do
  let verdict ← validator.validate { value }
  .ok verdict.isValid

end Validator

end SchemaCompiler
