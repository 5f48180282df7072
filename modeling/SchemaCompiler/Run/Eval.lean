import SchemaCompiler.Code.Stmt
import SchemaCompiler.Run.State

/-!
The value of an expression. Connectives and tests give booleans; the operands of a connective are
evaluated from the left until the outcome is known.
-/

namespace SchemaCompiler.Run

open Code

mutual

def eval (prototype : Json.Members) : Expr → Exec Json
  | .undefined => pure .null
  | .bool value => pure (.bool value)
  | .str value => pure (.str value)
  | .var name => readVariable name
  | .not operand => do
    let value ← eval prototype operand
    pure (.bool !value.truthy)
  | .and operands => evalAll prototype operands
  | .or operands => evalAny prototype operands
  | .isType data kind => do
    let location ← readData data
    pure (.bool (location.value.kind == kind))
  | .hasProperty data property own => do
    let location ← readData data
    pure (.bool (lookup prototype location.value property own).isSome)
  | .bind name expr => do
    let value ← eval prototype expr
    writeVariable name value
    pure (.bool true)
  | .errorCount => do
    let count ← violationCount
    pure (.ofNat count)
  | .noErrorsSince name => do
    let before ← readVariable name
    let count ← violationCount
    pure (.bool (before.asNat? == some count))

def evalAll (prototype : Json.Members) : List Expr → Exec Json
  | [] => pure (.bool true)
  | operand :: rest => do
    let value ← eval prototype operand
    if value.truthy then evalAll prototype rest else pure (.bool false)

def evalAny (prototype : Json.Members) : List Expr → Exec Json
  | [] => pure (.bool false)
  | operand :: rest => do
    let value ← eval prototype operand
    if value.truthy then pure (.bool true) else evalAny prototype rest

end

end SchemaCompiler.Run
