import SchemaCompiler.Proofs.Run.Conditions

/-!
Folded conditions. Where all negations and connectives of a condition are rebuilt by the folding
constructors, the condition writes the same variables, meets the same faults and is true as often as
before. In a block, at any level, any of the conditions may therefore be folded.
-/

namespace SchemaCompiler.Code

mutual

/-- The expression with its negations and connectives folded, the innermost first. Other
expressions stay as they are, with all that stands inside them. -/
def Expr.fold : Expr → Expr
  | .not operand => .negate operand.fold
  | .and operands => .allOf (Expr.foldAll operands)
  | .or operands => .anyOf (Expr.foldAll operands)
  | other => other

def Expr.foldAll : List Expr → List Expr
  | [] => []
  | operand :: rest => operand.fold :: Expr.foldAll rest

end

/-- The second block is the first one with any of its conditions folded, at any level. -/
inductive Block.Folds : Block → Block → Prop where
  | nil : Folds [] []
  | keep (stmt : Stmt) {rest others : Block} (later : Folds rest others) :
    Folds (stmt :: rest) (stmt :: others)
  | cond {test chosen : Expr} {yes otherYes rest others : Block}
    (condition : chosen = test ∨ chosen = test.fold) (inYes : Folds yes otherYes)
    (later : Folds rest others) :
    Folds (.cond test yes none :: rest) (.cond chosen otherYes none :: others)
  | condElse {test chosen : Expr} {yes otherYes no otherNo rest others : Block}
    (condition : chosen = test ∨ chosen = test.fold) (inYes : Folds yes otherYes)
    (inNo : Folds no otherNo) (later : Folds rest others) :
    Folds (.cond test yes (some no) :: rest) (.cond chosen otherYes (some otherNo) :: others)

end SchemaCompiler.Code

namespace SchemaCompiler.Run

open Code

variable (prototype : Json.Members)

theorem holds_negate (operand : Expr) :
    holds prototype operand.negate = holds prototype operand >>= fun outcome => pure !outcome := by
  unfold Expr.negate
  split
  · rfl
  · next inner =>
    simp only [holds_not, bind_assoc, pure_bind, Bool.not_not, bind_pure]
  · exact holds_not prototype _

mutual

theorem holds_fold (test : Expr) : holds prototype test.fold = holds prototype test := by
  match test with
  | .not operand => rw [Expr.fold, holds_negate, holds_not, holds_fold operand]
  | .and operands => rw [Expr.fold, holds_allOf, holds_and, holdsUntil_foldAll false operands]
  | .or operands => rw [Expr.fold, holds_anyOf, holds_or, holdsUntil_foldAll true operands]
  | .undefined | .bool _ | .str _ | .var _ | .isType _ _ | .hasProperty _ _ _ | .bind _ _
  | .errorCount | .noErrorsSince _ => rfl

theorem holdsUntil_foldAll (stop : Bool) (tests : List Expr) :
    holdsUntil prototype stop (Expr.foldAll tests) = holdsUntil prototype stop tests := by
  match tests with
  | [] => rfl
  | test :: rest =>
    simp only [Expr.foldAll, holdsUntil, holds_fold test, holdsUntil_foldAll stop rest]

end

theorem holds_of_ok {test : Expr} {value : Json} {state after : State}
    (computed : eval prototype test state = .ok value after) :
    holds prototype test state = .ok value.truthy after := by
  rw [holds, exec_bind_ok computed]
  rfl

theorem holds_of_error {test : Expr} {fault : ExecFault} {state after : State}
    (faulted : eval prototype test state = .error fault after) :
    holds prototype test state = .error fault after := by
  rw [holds, exec_bind_error faulted]

theorem exists_eval_of_holds {test : Expr} {outcome : Bool} {state after : State}
    (holding : holds prototype test state = .ok outcome after) :
    ∃ value, eval prototype test state = .ok value after ∧ value.truthy = outcome := by
  cases computed : eval prototype test state with
  | error fault left =>
    rw [holds_of_error prototype computed] at holding
    cases holding
  | ok value left =>
    rw [holds_of_ok prototype computed] at holding
    cases holding
    exact ⟨value, rfl, rfl⟩

theorem eval_error_of_holds {test : Expr} {fault : ExecFault} {state after : State}
    (faulted : holds prototype test state = .error fault after) :
    eval prototype test state = .error fault after := by
  cases computed : eval prototype test state with
  | error other left =>
    rw [holds_of_error prototype computed] at faulted
    cases faulted
    rfl
  | ok value left =>
    rw [holds_of_ok prototype computed] at faulted
    cases faulted

/-- Conditions that hold alike either meet the same fault or have values that are true alike. -/
theorem eval_of_holds_eq {test other : Expr}
    (same : holds prototype other = holds prototype test) (state : State) :
    (∃ fault after, eval prototype test state = .error fault after ∧
      eval prototype other state = .error fault after) ∨
    ∃ value otherValue after, eval prototype test state = .ok value after ∧
      eval prototype other state = .ok otherValue after ∧ otherValue.truthy = value.truthy := by
  have outcomes : holds prototype other state = holds prototype test state := congrFun same state
  cases first : eval prototype test state with
  | error fault after =>
    have faulted := outcomes.trans (holds_of_error prototype first)
    exact .inl ⟨fault, after, rfl, eval_error_of_holds prototype faulted⟩
  | ok value after =>
    have holding := outcomes.trans (holds_of_ok prototype first)
    rcases exists_eval_of_holds prototype holding with ⟨otherValue, second, truthy⟩
    exact .inr ⟨value, otherValue, after, rfl, second, truthy⟩

theorem holds_folded {test chosen : Expr} (condition : chosen = test ∨ chosen = test.fold) :
    holds prototype chosen = holds prototype test := by
  rcases condition with same | folded
  · rw [same]
  · rw [folded, holds_fold]

theorem execBlock_folds {block other : Block} (folds : Block.Folds block other) :
    execBlock prototype other = execBlock prototype block := by
  induction folds with
  | nil => rfl
  | keep stmt later ih => simp only [execBlock, ih]
  | cond condition inYes later onYes onRest =>
    simp only [execBlock, execStmt_cond, holds_folded prototype condition, onYes, onRest]
  | condElse condition inYes inNo later onYes onNo onRest =>
    simp only [execBlock, execStmt_cond, holds_folded prototype condition, onYes, onRest,
      Option.getD_some, onNo]

/-- A folded expression meets the fault that the plain one meets, in the same state; where there is
none, both leave the same state and values that are true alike. Blocks that differ in what
conditions are folded do the same from every state. -/
theorem fold_preserves :
    (∀ expr state,
      (∃ fault after, eval prototype expr state = .error fault after ∧
        eval prototype expr.fold state = .error fault after) ∨
      ∃ value folded after, eval prototype expr state = .ok value after ∧
        eval prototype expr.fold state = .ok folded after ∧ folded.truthy = value.truthy) ∧
      ∀ block other, Block.Folds block other →
        runBlock prototype other = runBlock prototype block := by
  constructor
  · intro expr state
    exact eval_of_holds_eq prototype (holds_fold prototype expr) state
  · intro block other folds
    rw [runBlock_eq_execBlock, runBlock_eq_execBlock, execBlock_folds prototype folds]

section Greeting

def greetingTest : Expr :=
  .and [.not (.not (.var ⟨"name0"⟩)), .and [.bool true, .bind ⟨"greeting0"⟩ (.str "")]]

def foldedGreetingTest : Expr := .and [.var ⟨"name0"⟩, .bind ⟨"greeting0"⟩ (.str "")]

def greetingBlock (test : Expr) : Block :=
  [.declare ⟨"name0"⟩ (.str "guest"),
    .cond (.not (.bool false)) [.cond test [.ret true] (some [.ret false])] none]

theorem fold_preserves_greeting :
    greetingTest.fold = foldedGreetingTest ∧
      Block.Folds (greetingBlock greetingTest) (greetingBlock foldedGreetingTest) ∧
      runBlock [] (greetingBlock foldedGreetingTest) = runBlock [] (greetingBlock greetingTest) := by
  have inner : Block.Folds [.cond greetingTest [.ret true] (some [.ret false])]
      [.cond foldedGreetingTest [.ret true] (some [.ret false])] :=
    .condElse (.inr rfl) (.keep _ .nil) (.keep _ .nil) .nil
  have folds : Block.Folds (greetingBlock greetingTest) (greetingBlock foldedGreetingTest) :=
    .keep _ (.cond (.inl rfl) inner .nil)
  exact ⟨rfl, folds, (fold_preserves []).2 _ _ folds⟩

end Greeting

end SchemaCompiler.Run
