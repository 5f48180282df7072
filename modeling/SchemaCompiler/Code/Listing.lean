import SchemaCompiler.Code.Stmt
import SchemaCompiler.Json.Text

/-!
The listing of generated code: one statement a line, two blanks further in for each level. Blocks
may nest without bound, so the listing is written from a list of pending tasks, and a conditional
is replaced by the tasks of its branches.
-/

namespace SchemaCompiler.Code

namespace Expr

def isComparison : Expr → Bool
  | isType .. => true
  | hasProperty .. => true
  | _ => false

def isCompound : Expr → Bool
  | and _ => true
  | or _ => true
  | bind .. => true
  | _ => false

def parenthesise (needed : Bool) (text : String) : String :=
  if needed then "(" ++ text ++ ")" else text

/-- The operands with the sign of a connective between them, or the value of the connective
without operands. -/
def joinOperands (sign neutral : String) : List String → String
  | [] => neutral
  | operands => String.intercalate sign operands

mutual

def text : Expr → String
  | undefined => "undefined"
  | bool value => if value then "true" else "false"
  | str value => Json.quote value
  | var name => name.text
  | not operand => "!" ++ parenthesise (operand.isComparison || operand.isCompound) operand.text
  | and operands => joinOperands " && " "true" (operandTexts operands)
  | or operands => joinOperands " || " "false" (operandTexts operands)
  | isType data kind => "typeof " ++ data.text ++ " == " ++ Json.quote kind.name
  | hasProperty data property own =>
    data.text ++ "[" ++ Json.quote property ++ "] !== undefined" ++
      (if own then " && hasOwn(" ++ data.text ++ ", " ++ Json.quote property ++ ")" else "")
  | bind name value => name.text ++ " = " ++ value.text
  | errorCount => "errors"
  | noErrorsSince name => "errors === " ++ name.text

def operandTexts : List Expr → List String
  | [] => []
  | operand :: rest => parenthesise operand.isCompound operand.text :: operandTexts rest

end

end Expr

def ParamValue.text : ParamValue → String
  | literal value => value.compact
  | var name => name.text

def Site.text (site : Site) : String :=
  "report(" ++ Json.quote site.keyword ++ ", " ++ site.data.text ++ ", " ++
    Json.quote site.schemaPath.fragment ++ ", \x7b" ++
    String.intercalate ", " (site.params.map fun (key, value) => key ++ ": " ++ value.text) ++
    "\x7d);"

def indent (level : Nat) : String := String.ofList (List.replicate (2 * level) ' ')

def line (level : Nat) (text : String) : String := indent level ++ text ++ "\n"

def openLine (level : Nat) (test : Expr) : String := line level ("if (" ++ test.text ++ ") \x7b")

def elseLine (level : Nat) : String := line level "\x7d else \x7b"

def closeLine (level : Nat) : String := line level "\x7d"

def Stmt.simpleText (level : Nat) : Stmt → String
  | declare name .undefined => line level ("let " ++ name.text ++ ";")
  | declare name value => line level ("let " ++ name.text ++ " = " ++ value.text ++ ";")
  | assign name value => line level (name.text ++ " = " ++ value.text ++ ";")
  | bindData name parent property =>
    line level ("const " ++ name.text ++ " = " ++ parent.text ++ "[" ++ Json.quote property ++ "];")
  | cond .. => ""
  | report site => line level site.text
  | fail site => line level site.text ++ line level "return false;"
  | ret valid => line level ("return " ++ (if valid then "true" else "false") ++ ";")

inductive Task where
  | code (stmt : Stmt) (level : Nat)
  | line (text : String)

namespace Task

def weight : Task → Nat
  | code stmt _ => stmt.weight
  | line _ => 1

def totalWeight : List Task → Nat
  | [] => 0
  | task :: rest => task.weight + totalWeight rest

def ofBlock (level : Nat) (block : Block) : List Task := block.map fun stmt => .code stmt level

def ofBranches (level : Nat) (yes : Block) : Option Block → List Task
  | none => ofBlock (level + 1) yes ++ [.line (closeLine level)]
  | some no =>
    ofBlock (level + 1) yes ++ .line (elseLine level) ::
      (ofBlock (level + 1) no ++ [.line (closeLine level)])

theorem totalWeight_append (left right : List Task) :
    totalWeight (left ++ right) = totalWeight left + totalWeight right := by
  induction left with
  | nil => simp only [List.nil_append, totalWeight, Nat.zero_add]
  | cons task rest ih => simp only [List.cons_append, totalWeight, ih, Nat.add_assoc]

theorem totalWeight_ofBlock (level : Nat) (block : Block) :
    totalWeight (ofBlock level block) = Block.weight block := by
  induction block with
  | nil => rfl
  | cons stmt rest ih =>
    have tail : totalWeight (rest.map fun stmt => code stmt level) = Block.weight rest := ih
    simp only [ofBlock, List.map_cons, totalWeight, weight, Block.weight, tail]

theorem totalWeight_ofBranches (level : Nat) (test : Expr) (yes : Block) (no : Option Block) :
    totalWeight (ofBranches level yes no) < (Stmt.cond test yes no).weight := by
  cases no with
  | none =>
    simp only [ofBranches, totalWeight_append, totalWeight_ofBlock, totalWeight, weight,
      Stmt.weight]
    omega
  | some no =>
    simp only [ofBranches, totalWeight_append, totalWeight_ofBlock, totalWeight, weight,
      Stmt.weight]
    omega

theorem weight_pos (task : Task) : 0 < task.weight := by
  cases task with
  | line text => exact Nat.one_pos
  | code stmt level => exact stmt.weight_pos

def write (tasks : List Task) (out : String) : String :=
  match tasks with
  | [] => out
  | .line text :: rest => write rest (out ++ text)
  | .code (.cond test yes no) level :: rest =>
    write (ofBranches level yes no ++ rest) (out ++ openLine level test)
  | .code stmt level :: rest => write rest (out ++ stmt.simpleText level)
termination_by totalWeight tasks
decreasing_by
  · simp [totalWeight, weight]
  · have branches := totalWeight_ofBranches level test yes no
    rw [totalWeight_append, totalWeight, weight]
    omega
  · have positive := weight_pos (.code stmt level)
    rw [totalWeight]
    omega

end Task

def Block.text (block : Block) : String := Task.write (Task.ofBlock 0 block) ""

def Stmt.text (stmt : Stmt) : String := Block.text [stmt]

end SchemaCompiler.Code
