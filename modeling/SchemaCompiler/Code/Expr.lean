import SchemaCompiler.Code.Name
import SchemaCompiler.Json.Value

/-!
Expressions of generated code, and the constructors that fold what is known beforehand: negations
of literals and of negations, and connectives inside connectives of the same kind.
-/

namespace SchemaCompiler.Code

inductive Expr where
  /-- No value. -/
  | undefined
  | bool (value : Bool)
  | str (value : String)
  /-- The value of a variable. -/
  | var (name : Name)
  | not (operand : Expr)
  /-- True if every operand is; the operands after the first false one are not looked at. -/
  | and (operands : List Expr)
  /-- True if some operand is; the operands after the first true one are not looked at. -/
  | or (operands : List Expr)
  /-- The data is of the kind. -/
  | isType (data : Name) (kind : Json.Kind)
  /-- The data is an object with the property, as a member of its own if `own` is set. -/
  | hasProperty (data : Name) (property : String) (own : Bool)
  /-- Writes the value to a variable; true. -/
  | bind (name : Name) (value : Expr)
  /-- The number of violations so far. -/
  | errorCount
  /-- There are as many violations as the variable counted. -/
  | noErrorsSince (name : Name)
  deriving Repr

namespace Expr

def negate : Expr → Expr
  | bool value => bool !value
  | not operand => operand
  | other => not other

def conjuncts : Expr → List Expr
  | bool true => []
  | and operands => operands
  | other => [other]

def disjuncts : Expr → List Expr
  | bool false => []
  | or operands => operands
  | other => [other]

/-- A connective of one operand is that operand. -/
def connect (connective : List Expr → Expr) : List Expr → Expr
  | [operand] => operand
  | operands => connective operands

def allOf (exprs : List Expr) : Expr := connect and (exprs.flatMap conjuncts)

def anyOf (exprs : List Expr) : Expr := connect or (exprs.flatMap disjuncts)

def present (data : Name) (property : String) (own : Bool) : Expr := hasProperty data property own

def absent (data : Name) (property : String) (own : Bool) : Expr :=
  negate (present data property own)

@[simp] theorem absent_eq (data : Name) (property : String) (own : Bool) :
    absent data property own = not (hasProperty data property own) := rfl

section Gathering

-- What is gathered from an expression, from a connective operand by operand.
variable {gather : Expr → List α} (literal : ∀ value, gather (bool value) = [])

theorem gather_connect {connective : List Expr → Expr}
    (onConnective : ∀ operands, gather (connective operands) = operands.flatMap gather)
    {parts : Expr → List Expr} (onParts : ∀ expr, (parts expr).flatMap gather = gather expr)
    (exprs : List Expr) :
    gather (connect connective (exprs.flatMap parts)) = exprs.flatMap gather := by
  have flat : gather (connect connective (exprs.flatMap parts)) =
      (exprs.flatMap parts).flatMap gather := by
    unfold connect
    split
    · next operand single => rw [single, List.flatMap_singleton]
    · exact onConnective _
  simp only [flat, List.flatMap_assoc, onParts]

include literal

theorem gather_allOf (onAnd : ∀ operands, gather (and operands) = operands.flatMap gather)
    (exprs : List Expr) : gather (allOf exprs) = exprs.flatMap gather := by
  apply gather_connect onAnd
  intro expr
  unfold conjuncts
  split
  · exact (literal true).symm
  · exact (onAnd _).symm
  · exact List.flatMap_singleton gather _

theorem gather_anyOf (onOr : ∀ operands, gather (or operands) = operands.flatMap gather)
    (exprs : List Expr) : gather (anyOf exprs) = exprs.flatMap gather := by
  apply gather_connect onOr
  intro expr
  unfold disjuncts
  split
  · exact (literal false).symm
  · exact (onOr _).symm
  · exact List.flatMap_singleton gather _

end Gathering

end Expr

end SchemaCompiler.Code
