import Mathlib.Logic.Function.Iterate
import SchemaCompiler.Proofs.Run.Evaluation

/-!
The frames of the machine. A turn of the machine takes one statement from the innermost frame,
enters a branch or leaves a frame that is used up; no turn changes what the run comes to, and each
leaves less to be run. So the machine ends on every block, and it ends as the rules say that read the
block by its structure, with a rule for each thing that a statement can do.
-/

namespace SchemaCompiler.Run

open Code Schema

abbrev Outcome := EStateM.Result ExecFault State Ending

/-- What follows is run after an outcome only if that fell through. -/
def Outcome.resume (next : Exec Ending) : Outcome → Outcome
  | .ok .fellThrough state => next state
  | outcome => outcome

def Outcome.stops : Outcome → Bool
  | .ok .fellThrough _ => false
  | _ => true

theorem Outcome.resume_of_stops (next : Exec Ending) {outcome : Outcome}
    (stops : outcome.stops = true) : outcome.resume next = outcome := by
  cases outcome with
  | error fault after => rfl
  | ok ending after =>
    cases ending with
    | fellThrough => cases stops
    | halted => rfl

theorem Outcome.eq_fellThrough {outcome : Outcome} (continues : outcome.stops = false) :
    ∃ after, outcome = .ok .fellThrough after := by
  cases outcome with
  | error fault after => cases continues
  | ok ending after =>
    cases ending with
    | fellThrough => exact ⟨after, rfl⟩
    | halted => cases continues

/-- The outcome of a block by its structure. Statements run from the left, each with the effect that
its rule gives it. A conditional runs the branch it chooses to its end, and then what follows it
runs. A failed check that is to end the validation, a return and a fault, at whatever level, skip
all that remains of the block. -/
inductive BigStep (prototype : Json.Members) : Block → State → Outcome → Prop where
  | done (state : State) : BigStep prototype [] state (.ok .fellThrough state)
  | declare {name : Name} {expr : Expr} {rest : Block} {value : Json} {state between : State}
    {outcome : Outcome} (computed : Evaluates prototype expr state (.ok value between))
    (later : BigStep prototype rest
      { between with vars := OrderedMap.insert between.vars name value } outcome) :
    BigStep prototype (.declare name expr :: rest) state outcome
  | declareFault {name : Name} {expr : Expr} {rest : Block} {fault : ExecFault}
    {state after : State} (faulted : Evaluates prototype expr state (.error fault after)) :
    BigStep prototype (.declare name expr :: rest) state (.error fault after)
  | assign {name : Name} {expr : Expr} {rest : Block} {value : Json} {state between : State}
    {outcome : Outcome} (computed : Evaluates prototype expr state (.ok value between))
    (later : BigStep prototype rest
      { between with vars := OrderedMap.insert between.vars name value } outcome) :
    BigStep prototype (.assign name expr :: rest) state outcome
  | assignFault {name : Name} {expr : Expr} {rest : Block} {fault : ExecFault}
    {state after : State} (faulted : Evaluates prototype expr state (.error fault after)) :
    BigStep prototype (.assign name expr :: rest) state (.error fault after)
  | bindData {name parent : Name} {property : String} {rest : Block} {location : Location}
    {state : State} {outcome : Outcome}
    (bound : OrderedMap.get? state.data parent = some location)
    (later : BigStep prototype rest
      { state with
        data := OrderedMap.insert state.data name
          ⟨Presence.valueAt ⟨false, prototype⟩ location.value property,
            location.path.key property⟩ } outcome) :
    BigStep prototype (.bindData name parent property :: rest) state outcome
  | bindDataFault {name parent : Name} {property : String} {rest : Block} {state : State}
    (unbound : OrderedMap.get? state.data parent = none) :
    BigStep prototype (.bindData name parent property :: rest) state
      (.error (.unboundData parent.text) state)
  | report {site : Site} {rest : Block} {violation : Violation} {state : State}
    {outcome : Outcome} (told : Tells site state (.ok violation))
    (later : BigStep prototype rest
      { state with violations := state.violations ++ [violation] } outcome) :
    BigStep prototype (.report site :: rest) state outcome
  | reportFault {site : Site} {rest : Block} {fault : ExecFault} {state : State}
    (told : Tells site state (.error fault)) :
    BigStep prototype (.report site :: rest) state (.error fault state)
  | fail {site : Site} {rest : Block} {violation : Violation} {state : State}
    (told : Tells site state (.ok violation)) :
    BigStep prototype (.fail site :: rest) state
      (.ok .halted { state with violations := state.violations ++ [violation] })
  | failFault {site : Site} {rest : Block} {fault : ExecFault} {state : State}
    (told : Tells site state (.error fault)) :
    BigStep prototype (.fail site :: rest) state (.error fault state)
  | ret (valid : Bool) (rest : Block) (state : State) :
    BigStep prototype (.ret valid :: rest) state (.ok .halted state)
  | testFault {test : Expr} {yes rest : Block} {no : Option Block} {state after : State}
    {fault : ExecFault} (faulted : Evaluates prototype test state (.error fault after)) :
    BigStep prototype (.cond test yes no :: rest) state (.error fault after)
  | branch {test : Expr} {yes rest : Block} {no : Option Block} {state between after : State}
    {value : Json} {outcome : Outcome}
    (tested : Evaluates prototype test state (.ok value between))
    (inside : BigStep prototype (if value.truthy then yes else no.getD []) between
      (.ok .fellThrough after))
    (later : BigStep prototype rest after outcome) :
    BigStep prototype (.cond test yes no :: rest) state outcome
  | branchStop {test : Expr} {yes rest : Block} {no : Option Block} {state between : State}
    {value : Json} {outcome : Outcome}
    (tested : Evaluates prototype test state (.ok value between))
    (inside : BigStep prototype (if value.truthy then yes else no.getD []) between outcome)
    (stops : outcome.stops = true) : BigStep prototype (.cond test yes no :: rest) state outcome

inductive Machine where
  | running (frames : List Block) (state : State)
  | ended (outcome : Outcome)

namespace Machine

/-- One turn. A branch is entered as a new frame, in front of the frame of what follows it. -/
def advance (prototype : Json.Members) : Machine → Machine
  | ended outcome => ended outcome
  | running [] state => ended (.ok .fellThrough state)
  | running ([] :: frames) state => running frames state
  | running ((.cond test yes no :: rest) :: frames) state =>
    match eval prototype test state with
    | .error fault after => ended (.error fault after)
    | .ok value after =>
      if value.truthy then running (yes :: rest :: frames) after
      else match no with
        | some no => running (no :: rest :: frames) after
        | none => running (rest :: frames) after
  | running ((stmt :: rest) :: frames) state =>
    match perform prototype stmt state with
    | .error fault after => ended (.error fault after)
    | .ok .fellThrough after => running (rest :: frames) after
    | .ok .halted after => ended (.ok .halted after)

def outcome (prototype : Json.Members) : Machine → Outcome
  | running frames state => runFrames prototype frames state
  | ended outcome => outcome

def turns : Machine → Nat
  | running frames _ => remaining frames + 1
  | ended _ => 0

variable (prototype : Json.Members)

theorem outcome_advance (machine : Machine) :
    (machine.advance prototype).outcome prototype = machine.outcome prototype := by
  cases machine with
  | ended => rfl
  | running frames state =>
    change _ = runFrames prototype frames state
    fun_cases runFrames prototype frames state with
    | case1 => rfl
    | case2 frames => rfl
    | case3 test yes no rest frames fault after faulted => simp only [advance, faulted, outcome]
    | case4 test yes no rest frames value after done taken =>
      simp only [advance, done, taken, if_true, outcome]
    | case5 test yes rest frames value after done skipped no =>
      simp only [advance, done, skipped, outcome]
      rfl
    | case6 test yes rest frames value after done skipped =>
      simp only [advance, done, skipped, outcome]
      rfl
    | case7 stmt rest frames other fault after faulted =>
      simp only [advance, faulted, outcome]
    | case8 stmt rest frames other after done => simp only [advance, done, outcome]
    | case9 stmt rest frames other after done => simp only [advance, done, outcome]

/-- A turn is one turn less to go. -/
theorem turns_advance (machine : Machine) :
    (machine.advance prototype).turns ≤ machine.turns - 1 := by
  fun_cases advance prototype machine with
  | case1 outcome => exact Nat.le_refl 0
  | case2 => exact Nat.zero_le _
  | case3 frames =>
    simp only [turns, remaining]
    omega
  | case4 => exact Nat.zero_le _
  | case5 test yes no rest frames value after done taken =>
    cases no <;> simp only [turns, remaining, Block.weight, Stmt.weight] <;> omega
  | case6 test yes rest frames value after done skipped no =>
    simp only [turns, remaining, Block.weight, Stmt.weight]
    omega
  | case7 test yes rest frames value after done skipped =>
    simp only [turns, remaining, Block.weight, Stmt.weight]
    omega
  | case8 => exact Nat.zero_le _
  | case9 stmt rest frames other after done =>
    have positive := stmt.weight_pos
    simp only [turns, remaining, Block.weight]
    omega
  | case10 => exact Nat.zero_le _

theorem ended_of_turns {count : Nat} {machine : Machine} (enough : machine.turns ≤ count) :
    (advance prototype)^[count] machine = ended (machine.outcome prototype) := by
  induction count generalizing machine with
  | zero =>
    cases machine with
    | ended outcome => rfl
    | running frames state => cases enough
  | succ count ih =>
    have fewer := turns_advance prototype machine
    rw [Function.iterate_succ_apply, ih (by omega), outcome_advance]

end Machine

section Structure

variable (prototype : Json.Members)

theorem bind_andThen (first next : Exec Ending) (state : State) :
    (first >>= fun ending => ending.andThen next) state = Outcome.resume next (first state) := by
  simp only [bind, EStateM.bind]
  cases first state with
  | error fault after => rfl
  | ok ending after => cases ending <;> rfl

theorem execBlock_cons (stmt : Stmt) (rest : Block) (state : State) :
    execBlock prototype (stmt :: rest) state =
      Outcome.resume (execBlock prototype rest) (execStmt prototype stmt state) := by
  rw [execBlock, bind_andThen]

theorem execBlock_cons_cond {test : Expr} {value : Json} {state between : State}
    (tested : eval prototype test state = .ok value between) (yes rest : Block)
    (no : Option Block) :
    execBlock prototype (.cond test yes no :: rest) state =
      Outcome.resume (execBlock prototype rest)
        (execBlock prototype (if value.truthy then yes else no.getD []) between) := by
  have entered : execStmt prototype (.cond test yes no) state =
      execBlock prototype (if value.truthy then yes else no.getD []) between := by
    cases no <;> rw [execStmt, exec_bind_ok tested] <;> cases value.truthy <;> rfl
  rw [execBlock_cons, entered]

theorem execBlock_cons_cond_error {test : Expr} {fault : ExecFault} {state after : State}
    (faulted : eval prototype test state = .error fault after) (yes rest : Block)
    (no : Option Block) :
    execBlock prototype (.cond test yes no :: rest) state = .error fault after := by
  have stopped : execStmt prototype (.cond test yes no) state = .error fault after := by
    cases no <;> rw [execStmt, exec_bind_error faulted]
  rw [execBlock_cons, stopped]
  rfl

section Simple

variable {stmt : Stmt} (simple : stmt.isCond = false) {rest : Block} {state : State}

include simple

theorem execBlock_cons_fellThrough {between : State}
    (performed : perform prototype stmt state = .ok .fellThrough between) :
    execBlock prototype (stmt :: rest) state = execBlock prototype rest between := by
  rw [execBlock_cons, execStmt_of_not_cond prototype _ simple, performed]
  rfl

theorem execBlock_cons_stops {outcome : Outcome}
    (performed : perform prototype stmt state = outcome) (stops : outcome.stops = true) :
    execBlock prototype (stmt :: rest) state = outcome := by
  rw [execBlock_cons, execStmt_of_not_cond prototype _ simple, performed,
    Outcome.resume_of_stops _ stops]

end Simple

/-- What the rules derive is what is run. -/
theorem BigStep.execBlock_eq {block : Block} {state : State} {outcome : Outcome}
    (derived : BigStep prototype block state outcome) :
    execBlock prototype block state = outcome := by
  induction derived with
  | done state => rfl
  | declare computed later ih | assign computed later ih =>
    rw [execBlock_cons_fellThrough prototype rfl ?_, ih]
    rw [perform, exec_bind_ok computed.eval_eq]
    rfl
  | declareFault faulted | assignFault faulted =>
    refine execBlock_cons_stops prototype rfl ?_ rfl
    rw [perform, exec_bind_error faulted.eval_eq]
  | bindData bound later ih =>
    rw [execBlock_cons_fellThrough prototype rfl ?_, ih]
    rw [perform, exec_bind_ok (readData_eq bound), Presence.valueAt_eq_getD_lookup]
    rfl
  | bindDataFault unbound =>
    refine execBlock_cons_stops prototype rfl ?_ rfl
    rw [perform, exec_bind_error (readData_eq_error unbound)]
  | report told later ih =>
    rw [execBlock_cons_fellThrough prototype rfl ?_, ih]
    rw [perform, exec_bind_ok told.report_eq]
    rfl
  | fail told =>
    refine execBlock_cons_stops prototype rfl ?_ rfl
    rw [perform, exec_bind_ok told.report_eq]
    rfl
  | reportFault told | failFault told =>
    refine execBlock_cons_stops prototype rfl ?_ rfl
    rw [perform, exec_bind_error told.report_eq_error]
  | ret => exact execBlock_cons_stops prototype rfl rfl rfl
  | testFault faulted => exact execBlock_cons_cond_error prototype faulted.eval_eq _ _ _
  | branch tested inside later onBranch onRest =>
    rw [execBlock_cons_cond prototype tested.eval_eq, onBranch]
    exact onRest
  | branchStop tested inside stops ih =>
    rw [execBlock_cons_cond prototype tested.eval_eq, ih]
    exact Outcome.resume_of_stops _ stops

/-- From every state some rules apply to a block, to its end. -/
theorem BigStep.total (block : Block) (state : State) :
    ∃ outcome, BigStep prototype block state outcome := by
  induction block using Block.induction generalizing state with
  | nil => exact ⟨_, .done state⟩
  | step stmt rest simple ih =>
    cases stmt with
    | cond test yes no => cases simple
    | declare name expr =>
      obtain ⟨result, computed⟩ := Evaluates.total prototype expr state
      cases result with
      | error fault after => exact ⟨_, .declareFault computed⟩
      | ok value between =>
        obtain ⟨outcome, later⟩ := ih _
        exact ⟨outcome, .declare computed later⟩
    | assign name expr =>
      obtain ⟨result, computed⟩ := Evaluates.total prototype expr state
      cases result with
      | error fault after => exact ⟨_, .assignFault computed⟩
      | ok value between =>
        obtain ⟨outcome, later⟩ := ih _
        exact ⟨outcome, .assign computed later⟩
    | bindData name parent property =>
      cases bound : OrderedMap.get? state.data parent with
      | none => exact ⟨_, .bindDataFault bound⟩
      | some location =>
        obtain ⟨outcome, later⟩ := ih _
        exact ⟨outcome, .bindData bound later⟩
    | report site =>
      obtain ⟨result, told⟩ := Tells.total site state
      cases result with
      | error fault => exact ⟨_, .reportFault told⟩
      | ok violation =>
        obtain ⟨outcome, later⟩ := ih _
        exact ⟨outcome, .report told later⟩
    | fail site =>
      obtain ⟨result, told⟩ := Tells.total site state
      cases result with
      | error fault => exact ⟨_, .failFault told⟩
      | ok violation => exact ⟨_, .fail told⟩
    | ret valid => exact ⟨_, .ret valid rest state⟩
  | cond test yes no rest onYes onNo onRest =>
    obtain ⟨result, tested⟩ := Evaluates.total prototype test state
    cases result with
    | error fault after => exact ⟨_, .testFault tested⟩
    | ok value between =>
      have chosen : ∃ outcome,
          BigStep prototype (if value.truthy then yes else no.getD []) between outcome := by
        cases value.truthy with
        | true => exact onYes between
        | false => exact onNo between
      obtain ⟨outcome, inside⟩ := chosen
      cases stops : outcome.stops with
      | true => exact ⟨outcome, .branchStop tested inside stops⟩
      | false =>
        obtain ⟨after, rfl⟩ := Outcome.eq_fellThrough stops
        obtain ⟨outcome, later⟩ := onRest after
        exact ⟨outcome, .branch tested inside later⟩

/-- On every block and from every state, the machine ends after a number of turns that the block
bounds, with the one outcome that the rules give the block. Of two lists of statements in a row, the
second runs exactly if the first fell through, from the state that this left. -/
theorem runBlock_bigStep :
    (∀ block state, (Machine.advance prototype)^[Block.weight block + 2] (.running [block] state) =
      .ended (runBlock prototype block state)) ∧
      (∀ block state outcome, runBlock prototype block state = outcome ↔
        BigStep prototype block state outcome) ∧
      ∀ left right state, runBlock prototype (left ++ right) state =
        Outcome.resume (runBlock prototype right) (runBlock prototype left state) := by
  refine ⟨?_, ?_, ?_⟩
  · intro block state
    exact Machine.ended_of_turns prototype (Nat.le_refl _)
  · intro block state outcome
    rw [runBlock_eq_execBlock]
    constructor
    · rintro rfl
      obtain ⟨outcome, derived⟩ := BigStep.total prototype block state
      rwa [derived.execBlock_eq]
    · intro derived
      exact derived.execBlock_eq
  · intro left right state
    rw [runBlock_eq_execBlock, runBlock_eq_execBlock, runBlock_eq_execBlock, execBlock_append,
      bind_andThen]

end Structure

end SchemaCompiler.Run
