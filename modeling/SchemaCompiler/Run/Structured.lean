import SchemaCompiler.Run.Machine

/-!
Generated code read by its structure: statements run from the left, a conditional runs the branch
it chooses and then what follows it, and an ending or a fault skips all that remains. Main
statement: the frames of the machine do the same.
-/

namespace SchemaCompiler.Run

open Code

def Ending.andThen (next : Exec Ending) : Ending → Exec Ending
  | fellThrough => next
  | halted => pure halted

mutual

def execStmt (prototype : Json.Members) : Stmt → Exec Ending
  | .cond test yes none => do
    let value ← eval prototype test
    if value.truthy then execBlock prototype yes else pure .fellThrough
  | .cond test yes (some no) => do
    let value ← eval prototype test
    if value.truthy then execBlock prototype yes else execBlock prototype no
  | stmt => perform prototype stmt

def execBlock (prototype : Json.Members) : List Stmt → Exec Ending
  | [] => pure .fellThrough
  | stmt :: rest => do
    let ending ← execStmt prototype stmt
    ending.andThen (execBlock prototype rest)

end

def execBlocks (prototype : Json.Members) : List Block → Exec Ending
  | [] => pure .fellThrough
  | block :: rest => do
    let ending ← execBlock prototype block
    ending.andThen (execBlocks prototype rest)

theorem andThen_assoc (ending : Ending) (next last : Exec Ending) :
    (ending.andThen next >>= fun ending => ending.andThen last) =
      ending.andThen (next >>= fun ending => ending.andThen last) := by
  cases ending <;> rfl

theorem exec_bind_ok {first : Exec α} {next : α → Exec β} {state after : State} {value : α}
    (done : first state = .ok value after) : (first >>= next) state = next value after := by
  simp only [bind, EStateM.bind, done]

theorem exec_bind_error {first : Exec α} {next : α → Exec β} {state after : State}
    {fault : ExecFault} (faulted : first state = .error fault after) :
    (first >>= next) state = .error fault after := by
  simp only [bind, EStateM.bind, faulted]

theorem readParams_cons {param : ParamValue} {value : Json} {state : State}
    (known : readParam param state = .ok value state) (read : Json.Members) (name : String)
    (rest : List (String × ParamValue)) :
    readParams read ((name, param) :: rest) state =
      readParams (OrderedMap.insert read name value) rest state := by
  rw [readParams, exec_bind_ok known]

/-- Running two lists of statements is running the first and, if it fell through, the second. -/
theorem execBlock_append (prototype : Json.Members) (left right : Block) :
    execBlock prototype (left ++ right) =
      execBlock prototype left >>= fun ending => ending.andThen (execBlock prototype right) := by
  induction left with
  | nil => rfl
  | cons stmt rest ih =>
    simp only [List.cons_append, execBlock, ih, bind_assoc, andThen_assoc]

theorem execStmt_of_not_cond (prototype : Json.Members) (stmt : Stmt)
    (simple : stmt.isCond = false) : execStmt prototype stmt = perform prototype stmt := by
  cases stmt with
  | cond test yes no => simp [Stmt.isCond] at simple
  | _ => rfl

theorem execBlocks_nil_cons (prototype : Json.Members) (frames : List Block) :
    execBlocks prototype ([] :: frames) = execBlocks prototype frames := by
  simp only [execBlocks, execBlock, pure_bind, Ending.andThen]

theorem execBlocks_cons_cons (prototype : Json.Members) (stmt : Stmt) (rest : Block)
    (frames : List Block) :
    execBlocks prototype ((stmt :: rest) :: frames) =
      execStmt prototype stmt >>= fun ending =>
        ending.andThen (execBlocks prototype (rest :: frames)) := by
  simp only [execBlocks, execBlock, bind_assoc, andThen_assoc]

theorem isCond_eq_false {stmt : Stmt} (other : ∀ test yes no, stmt ≠ .cond test yes no) :
    stmt.isCond = false := by
  cases stmt with
  | cond test yes no => exact (other test yes no rfl).elim
  | _ => rfl

theorem runFrames_eq (prototype : Json.Members) (frames : List Block) (state : State) :
    runFrames prototype frames state = execBlocks prototype frames state := by
  fun_induction runFrames prototype frames state with
  | case1 => rfl
  | case2 state frames ih => rw [ih, execBlocks_nil_cons]
  | case3 state test yes no rest frames fault after faulted =>
    rw [execBlocks_cons_cons]
    cases no <;> simp only [execStmt, bind_assoc] <;> rw [exec_bind_error faulted]
  | case4 state test yes no rest frames value after done taken ih =>
    rw [ih, execBlocks_cons_cons]
    cases no <;> simp only [execStmt, bind_assoc] <;>
      rw [exec_bind_ok done, if_pos taken, execBlocks]
  | case5 state test yes rest frames value after done skipped no ih =>
    rw [ih, execBlocks_cons_cons]
    simp only [execStmt, bind_assoc]
    rw [exec_bind_ok done, if_neg skipped, execBlocks]
  | case6 state test yes rest frames value after done skipped ih =>
    rw [ih, execBlocks_cons_cons]
    simp only [execStmt, bind_assoc]
    rw [exec_bind_ok done, if_neg skipped]
    rfl
  | case7 state stmt rest frames other fault after faulted =>
    have simple := isCond_eq_false fun test yes no same => other test yes no same
    rw [execBlocks_cons_cons, execStmt_of_not_cond _ _ simple, exec_bind_error faulted]
  | case8 state stmt rest frames other after done ih =>
    have simple := isCond_eq_false fun test yes no same => other test yes no same
    rw [ih, execBlocks_cons_cons, execStmt_of_not_cond _ _ simple, exec_bind_ok done]
    rfl
  | case9 state stmt rest frames other after done =>
    have simple := isCond_eq_false fun test yes no same => other test yes no same
    rw [execBlocks_cons_cons, execStmt_of_not_cond _ _ simple, exec_bind_ok done]
    rfl

/-- The frames of the machine run a block as its structure says. -/
theorem runBlock_eq_execBlock (prototype : Json.Members) (block : Block) :
    runBlock prototype block = execBlock prototype block := by
  funext state
  rw [runBlock, runFrames_eq]
  simp only [execBlocks, bind, EStateM.bind]
  cases execBlock prototype block state with
  | error => rfl
  | ok ending after => cases ending <;> rfl

end SchemaCompiler.Run
