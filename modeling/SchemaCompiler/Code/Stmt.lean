import SchemaCompiler.Code.Expr
import SchemaCompiler.Pointer
import SchemaCompiler.Wording

/-!
Statements of generated code. A block is the list of its statements. Blocks may nest without bound,
so they are counted through from a list of pending ones; that count is the one by structure.
-/

namespace SchemaCompiler.Code

inductive ParamValue where
  | literal (value : Json)
  | var (name : Name)
  deriving Repr

structure Site where
  keyword : String
  /-- The data whose place in the instance is reported. -/
  data : Name
  schemaPath : Pointer
  params : List (String × ParamValue)
  wording : Wording

inductive Stmt where
  /-- Declares a variable. -/
  | declare (name : Name) (value : Expr)
  /-- Writes to a variable. -/
  | assign (name : Name) (value : Expr)
  /-- Binds a data reference to a property of another one. -/
  | bindData (name parent : Name) (property : String)
  | cond (test : Expr) (yes : List Stmt) (no : Option (List Stmt))
  /-- Reports a violation and goes on. -/
  | report (site : Site)
  /-- Reports a violation and ends the validation. -/
  | fail (site : Site)
  /-- Ends the validation. -/
  | ret (valid : Bool)

abbrev Block := List Stmt

namespace Stmt

def isDeclare : Stmt → Bool
  | declare .. => true
  | _ => false

def isAssign : Stmt → Bool
  | assign .. => true
  | _ => false

def isBindData : Stmt → Bool
  | bindData .. => true
  | _ => false

def isCond : Stmt → Bool
  | cond .. => true
  | _ => false

def hasElse : Stmt → Bool
  | cond _ _ (some _) => true
  | _ => false

def isReport : Stmt → Bool
  | report _ => true
  | _ => false

def isFail : Stmt → Bool
  | fail _ => true
  | _ => false

def isRet : Stmt → Bool
  | ret _ => true
  | _ => false

end Stmt

mutual

/-- A measure of a statement and all it holds. A conditional outweighs the statements of its
branches with two more for what visits them. -/
def Stmt.weight : Stmt → Nat
  | .cond _ yes none => Block.weight yes + 3
  | .cond _ yes (some no) => Block.weight yes + Block.weight no + 3
  | _ => 1

def Block.weight : List Stmt → Nat
  | [] => 0
  | stmt :: rest => stmt.weight + Block.weight rest

end

theorem Stmt.weight_pos (stmt : Stmt) : 0 < stmt.weight := by
  cases stmt with
  | cond test yes no => cases no <;> simp [weight]
  | _ => simp [weight]

theorem Block.weight_append (left right : Block) :
    Block.weight (left ++ right) = Block.weight left + Block.weight right := by
  induction left with
  | nil => simp [Block.weight]
  | cons stmt rest ih => simp [Block.weight, ih, Nat.add_assoc]

theorem Block.weight_yes_lt (test : Expr) (yes : Block) (no : Option Block) (rest : Block) :
    Block.weight (yes ++ rest) < Block.weight (.cond test yes no :: rest) := by
  rw [Block.weight_append]
  cases no <;> simp only [Block.weight, Stmt.weight] <;> omega

theorem Block.weight_no_lt (test : Expr) (yes : Block) (no : Option Block) (rest : Block) :
    Block.weight (no.getD [] ++ rest) < Block.weight (.cond test yes no :: rest) := by
  rw [Block.weight_append]
  cases no <;> simp only [Option.getD, Block.weight, Stmt.weight] <;> omega

theorem Block.weight_rest_lt (stmt : Stmt) (rest : Block) :
    Block.weight rest < Block.weight (stmt :: rest) := by
  have positive := stmt.weight_pos
  rw [Block.weight]
  omega

def Block.branches : List Stmt → List Block
  | [] => []
  | .cond _ yes no :: rest => yes :: (no.toList ++ Block.branches rest)
  | _ :: rest => Block.branches rest

/-- What adds up over blocks does not depend on their order. -/
theorem Block.additive_flatten_reverse {measure : Block → Nat}
    (append : ∀ left right, measure (left ++ right) = measure left + measure right)
    (blocks : List Block) : measure blocks.reverse.flatten = measure blocks.flatten := by
  induction blocks with
  | nil => rfl
  | cons block rest ih =>
    rw [List.reverse_cons, List.flatten_append, append, ih, List.flatten_singleton,
      List.flatten_cons, append, Nat.add_comm]

theorem Block.weight_branches (block : Block) :
    Block.weight (Block.branches block).flatten + (Block.branches block).length ≤
      Block.weight block := by
  induction block with
  | nil => simp [Block.branches, Block.weight]
  | cons stmt rest ih =>
    cases stmt with
    | cond test yes no =>
      cases no with
      | none =>
        simp only [Block.branches, Option.toList, List.nil_append, List.flatten_cons,
          List.length_cons, Block.weight_append, Block.weight, Stmt.weight]
        omega
      | some no =>
        simp only [Block.branches, Option.toList, List.cons_append, List.nil_append,
          List.flatten_cons, List.length_cons, Block.weight_append, Block.weight, Stmt.weight]
        omega
    | _ =>
      simp only [Block.branches, Block.weight]
      omega

/-- Counts on through pending blocks. The branches found in a block come before the blocks that wait
already, the last branch first. -/
def Block.countPending (select : Stmt → Bool) (count : Nat) (pending : List Block) : Nat :=
  match pending with
  | [] => count
  | block :: rest =>
    countPending select (count + block.countP select) ((Block.branches block).reverse ++ rest)
termination_by Block.weight pending.flatten + pending.length
decreasing_by
  have smaller := Block.weight_branches block
  have reversed := Block.additive_flatten_reverse Block.weight_append (Block.branches block)
  rw [List.flatten_append, Block.weight_append, reversed, List.length_append, List.length_reverse,
    List.flatten_cons, Block.weight_append, List.length_cons]
  omega

def Block.countWhere (select : Stmt → Bool) (block : Block) : Nat :=
  Block.countPending select 0 [block]

mutual

def Stmt.tally (select : Stmt → Bool) : Stmt → Nat
  | .cond test yes none => (select (.cond test yes none)).toNat + Block.tally select yes
  | .cond test yes (some no) =>
    (select (.cond test yes (some no))).toNat + Block.tally select yes + Block.tally select no
  | stmt => (select stmt).toNat

def Block.tally (select : Stmt → Bool) : List Stmt → Nat
  | [] => 0
  | stmt :: rest => stmt.tally select + Block.tally select rest

end

theorem Stmt.tally_cond (select : Stmt → Bool) (test : Expr) (yes : Block) (no : Option Block) :
    (Stmt.cond test yes no).tally select =
      (select (.cond test yes no)).toNat + Block.tally select yes +
        Block.tally select (no.getD []) := by
  cases no <;> rfl

theorem Block.tally_append (select : Stmt → Bool) (left right : Block) :
    Block.tally select (left ++ right) = Block.tally select left + Block.tally select right := by
  induction left with
  | nil => simp [Block.tally]
  | cons stmt rest ih => simp [Block.tally, ih, Nat.add_assoc]

theorem Block.tally_eq_countP_add (select : Stmt → Bool) (block : Block) :
    Block.tally select block =
      block.countP select + Block.tally select (Block.branches block).flatten := by
  induction block with
  | nil => rfl
  | cons stmt rest ih =>
    have here : (stmt :: rest).countP select = (select stmt).toNat + rest.countP select := by
      rw [List.countP_cons, Nat.add_comm]
      cases select stmt <;> rfl
    cases stmt with
    | cond test yes no =>
      cases no with
      | none =>
        simp only [Block.branches, Option.toList, List.nil_append, List.flatten_cons,
          Block.tally_append, Block.tally, Stmt.tally, here, ih]
        omega
      | some no =>
        simp only [Block.branches, Option.toList, List.cons_append, List.nil_append,
          List.flatten_cons, Block.tally_append, Block.tally, Stmt.tally, here, ih]
        omega
    | _ =>
      simp only [Block.branches, Block.tally, Stmt.tally, here, ih]
      omega

theorem Block.countPending_eq (select : Stmt → Bool) (count : Nat) (pending : List Block) :
    Block.countPending select count pending = count + Block.tally select pending.flatten := by
  fun_induction Block.countPending select count pending with
  | case1 count => rfl
  | case2 count block rest ih =>
    have reversed := Block.additive_flatten_reverse (Block.tally_append select)
      (Block.branches block)
    rw [ih, List.flatten_append, Block.tally_append, reversed, List.flatten_cons,
      Block.tally_append, Block.tally_eq_countP_add select block]
    omega

theorem Block.countWhere_eq_tally (select : Stmt → Bool) (block : Block) :
    Block.countWhere select block = Block.tally select block := by
  rw [Block.countWhere, Block.countPending_eq, List.flatten_singleton, Nat.zero_add]

/-- Blocks by the order in which they run: a conditional stands for either of its branches with
what follows it. -/
theorem Block.runInduction {motive : Block → Prop} (nil : motive [])
    (step : ∀ stmt rest, stmt.isCond = false → motive rest → motive (stmt :: rest))
    (cond : ∀ test yes no rest, motive (yes ++ rest) → motive (no.getD [] ++ rest) →
      motive (.cond test yes no :: rest)) : ∀ block, motive block
  | [] => nil
  | stmt :: rest => by
    have smaller := Block.weight_rest_lt stmt rest
    cases stmt with
    | cond test yes no =>
      have yesSmaller := Block.weight_yes_lt test yes no rest
      have noSmaller := Block.weight_no_lt test yes no rest
      exact cond test yes no rest (runInduction nil step cond (yes ++ rest))
        (runInduction nil step cond (no.getD [] ++ rest))
    | _ => exact step _ rest rfl (runInduction nil step cond rest)
termination_by block => Block.weight block

/-- Blocks by their structure: a conditional has the statements of its branches apart from those
that follow it. -/
theorem Block.induction {motive : Block → Prop} (nil : motive [])
    (step : ∀ stmt rest, stmt.isCond = false → motive rest → motive (stmt :: rest))
    (cond : ∀ test yes no rest, motive yes → motive (no.getD []) → motive rest →
      motive (.cond test yes no :: rest)) : ∀ block, motive block
  | [] => nil
  | stmt :: rest => by
    have smaller := Block.weight_rest_lt stmt rest
    cases stmt with
    | cond test yes no =>
      have yesSmaller := Block.weight_yes_lt test yes no rest
      have noSmaller := Block.weight_no_lt test yes no rest
      rw [Block.weight_append] at yesSmaller noSmaller
      have inYes : Block.weight yes < Block.weight (.cond test yes no :: rest) := by omega
      have inNo : Block.weight (no.getD []) < Block.weight (.cond test yes no :: rest) := by omega
      exact cond test yes no rest (Block.induction nil step cond yes)
        (Block.induction nil step cond (no.getD [])) (Block.induction nil step cond rest)
    | _ => exact step _ rest rfl (Block.induction nil step cond rest)
termination_by block => Block.weight block

end SchemaCompiler.Code
