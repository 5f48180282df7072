import SchemaCompiler.Proofs.Code.Scope
import SchemaCompiler.Proofs.Run.Reports

/-!
Scopes are sound: code that is in scope on all its paths meets no fault, since the only faults are
reads of what was never written.
-/

namespace SchemaCompiler.Run

open Code

def State.Has (state : State) : Ref → Prop
  | .var name => ∃ value, OrderedMap.get? state.vars name = some value
  | .data name => ∃ location, OrderedMap.get? state.data name = some location

def State.Covers (state : State) (known : List Ref) : Prop := ∀ ref ∈ known, state.Has ref

theorem State.Covers.mono {state : State} {known fewer : List Ref} (covers : state.Covers known)
    (within : fewer ⊆ known) : state.Covers fewer := fun ref member => covers ref (within member)

theorem exists_get?_insert {map : OrderedMap Name α} {other : Name} (name : Name) (value : α)
    (present : ∃ stored, OrderedMap.get? map other = some stored) :
    ∃ stored, OrderedMap.get? (OrderedMap.insert map name value) other = some stored := by
  by_cases same : name = other
  · subst same
    exact ⟨value, OrderedMap.get?_insert_self _ _ _⟩
  · obtain ⟨stored, found⟩ := present
    exact ⟨stored, (OrderedMap.get?_insert_of_ne _ _ same).trans found⟩

def Completes (code : Exec α) (state : State) (post : α → State → Prop) : Prop :=
  ∃ value after, code state = .ok value after ∧ post value after

namespace Completes

variable {state : State} {known : List Ref}

theorem value (value : α) {post : α → State → Prop} (holds : post value state) :
    Completes (pure value) state post := ⟨value, state, rfl, holds⟩

theorem bind {first : Exec α} {next : α → Exec β} {middle : α → State → Prop}
    {post : β → State → Prop} (begins : Completes first state middle)
    (goesOn : ∀ value after, middle value after → Completes (next value) after post) :
    Completes (first >>= next) state post := by
  obtain ⟨value, between, done, reached⟩ := begins
  obtain ⟨result, after, finished, holds⟩ := goesOn value between reached
  refine ⟨result, after, ?_, holds⟩
  rw [exec_bind_ok done, finished]

theorem readVariable {name : Name} (covers : state.Covers known) (read : .var name ∈ known) :
    Completes (readVariable name) state fun _ after => after.Covers known := by
  obtain ⟨value, present⟩ := covers _ read
  refine ⟨value, state, ?_, covers⟩
  rw [Run.readVariable, present]

theorem readData {name : Name} (covers : state.Covers known) (read : .data name ∈ known) :
    Completes (readData name) state fun _ after => after.Covers known := by
  obtain ⟨location, bound⟩ := covers _ read
  exact ⟨location, state, readData_eq bound, covers⟩

theorem writeVariable (name : Name) (value : Json) (covers : state.Covers known) :
    Completes (writeVariable name value) state fun _ after => after.Covers (.var name :: known) := by
  refine ⟨(), state.setVar name value, rfl, ?_⟩
  intro ref member
  rcases List.mem_cons.mp member with rfl | old
  · exact ⟨value, OrderedMap.get?_insert_self _ _ _⟩
  · have present := covers ref old
    cases ref with
    | var other => exact exists_get?_insert name value present
    | data other => exact present

theorem writeData (name : Name) (location : Location) (covers : state.Covers known) :
    Completes (writeData name location) state fun _ after => after.Covers (.data name :: known) := by
  refine ⟨(), state.setData name location, rfl, ?_⟩
  intro ref member
  rcases List.mem_cons.mp member with rfl | old
  · exact ⟨location, OrderedMap.get?_insert_self _ _ _⟩
  · have present := covers ref old
    cases ref with
    | var other => exact present
    | data other => exact exists_get?_insert name location present

end Completes

variable (prototype : Json.Members)

mutual

theorem completes_eval : ∀ (expr : Expr) {state : State} {known : List Ref},
    state.Covers known → expr.reads ⊆ known →
      Completes (eval prototype expr) state fun _ after => after.Covers (known ++ expr.writes)
  | .undefined, _, known, covers, _ | .bool _, _, known, covers, _ | .str _, _, known, covers, _ => by
    rw [eval, Expr.writes, List.append_nil]
    exact .value _ covers
  | .var name, _, known, covers, reads => by
    rw [eval, Expr.writes, List.append_nil]
    exact .readVariable covers (reads List.mem_cons_self)
  | .not operand, _, known, covers, reads => by
    rw [eval, Expr.writes]
    exact (completes_eval operand covers reads).bind fun value after held => .value _ held
  | .and operands, _, known, covers, reads => completes_evalAll operands covers reads
  | .or operands, _, known, covers, reads => completes_evalAny operands covers reads
  | .isType data kind, _, known, covers, reads => by
    rw [eval, Expr.writes, List.append_nil]
    exact (Completes.readData covers (reads List.mem_cons_self)).bind
      fun value after held => .value _ held
  | .hasProperty data property own, _, known, covers, reads => by
    rw [eval, Expr.writes, List.append_nil]
    exact (Completes.readData covers (reads List.mem_cons_self)).bind
      fun value after held => .value _ held
  | .bind name operand, _, known, covers, reads => by
    rw [eval, Expr.writes]
    refine (completes_eval operand covers reads).bind fun value after held => ?_
    refine (Completes.writeVariable name value held).bind fun _ after held => .value _ ?_
    exact held.mono List.perm_middle.subset
  | .errorCount, _, known, covers, _ => by
    rw [eval, Expr.writes, List.append_nil]
    exact ⟨_, _, rfl, covers⟩
  | .noErrorsSince name, _, known, covers, reads => by
    rw [eval, Expr.writes, List.append_nil]
    refine (Completes.readVariable covers (reads List.mem_cons_self)).bind fun value after held => ?_
    exact ⟨_, _, rfl, held⟩

theorem completes_evalAll : ∀ (operands : List Expr) {state : State} {known : List Ref},
    state.Covers known → Expr.readsAll operands ⊆ known →
      Completes (evalAll prototype operands) state fun _ after =>
        after.Covers (known ++ Expr.writesFirst operands)
  | [], _, known, covers, _ => by
    rw [evalAll, Expr.writesFirst, List.append_nil]
    exact .value _ covers
  | operand :: rest, _, known, covers, reads => by
    obtain ⟨first, others⟩ := List.append_subset.mp reads
    rw [evalAll, Expr.writesFirst]
    refine (completes_eval operand covers first).bind fun value after held => ?_
    cases value.truthy with
    | true =>
      obtain ⟨last, final, done, more⟩ :=
        completes_evalAll rest held (List.Subset.trans others (List.subset_append_left _ _))
      exact ⟨last, final, done, more.mono (List.subset_append_left _ _)⟩
    | false => exact .value _ held

theorem completes_evalAny : ∀ (operands : List Expr) {state : State} {known : List Ref},
    state.Covers known → Expr.readsAll operands ⊆ known →
      Completes (evalAny prototype operands) state fun _ after =>
        after.Covers (known ++ Expr.writesFirst operands)
  | [], _, known, covers, _ => by
    rw [evalAny, Expr.writesFirst, List.append_nil]
    exact .value _ covers
  | operand :: rest, _, known, covers, reads => by
    obtain ⟨first, others⟩ := List.append_subset.mp reads
    rw [evalAny, Expr.writesFirst]
    refine (completes_eval operand covers first).bind fun value after held => ?_
    cases value.truthy with
    | true => exact .value _ held
    | false =>
      obtain ⟨last, final, done, more⟩ :=
        completes_evalAny rest held (List.Subset.trans others (List.subset_append_left _ _))
      exact ⟨last, final, done, more.mono (List.subset_append_left _ _)⟩

end

theorem completes_readParam {param : ParamValue} {state : State} {known : List Ref}
    (covers : state.Covers known) (reads : param.reads ⊆ known) :
    Completes (readParam param) state fun _ after => after.Covers known := by
  cases param with
  | literal value => exact .value _ covers
  | var name => exact .readVariable covers (reads List.mem_cons_self)

theorem completes_readParams (params : List (String × ParamValue)) {state : State}
    {known : List Ref} (covers : state.Covers known)
    (reads : params.flatMap (fun (_, value) => value.reads) ⊆ known) (read : Json.Members) :
    Completes (readParams read params) state fun _ after => after.Covers known := by
  induction params generalizing read state with
  | nil => exact .value _ covers
  | cons entry rest ih =>
    obtain ⟨first, others⟩ := List.append_subset.mp reads
    exact (completes_readParam covers first).bind fun value after held => ih held others _

theorem completes_report {site : Site} {state : State} {known : List Ref}
    (covers : state.Covers known) (reads : site.reads ⊆ known) :
    Completes (report site) state fun _ after => after.Covers known := by
  obtain ⟨bound, params⟩ := List.cons_subset.mp reads
  refine (completes_readParams site.params covers params []).bind fun values after held => ?_
  refine (Completes.readData held bound).bind fun location after held => ?_
  -- The new violation touches neither variables nor data.
  exact ⟨(), after.add _, rfl, fun ref member => by cases ref <;> exact held _ member⟩

/-- A statement writes what its step says, and it halts the run if it ends the validation. -/
theorem completes_perform {stmt : Stmt} (simple : stmt.isCond = false) {state : State}
    {known : List Ref} (covers : state.Covers known) (reads : Step.reads (.stmt stmt) ⊆ known) :
    Completes (perform prototype stmt) state fun ending after =>
      after.Covers (known ++ Step.writes (.stmt stmt)) ∧ (stmt.ends = true → ending = .halted) := by
  cases stmt with
  | cond test yes no => cases simple
  | declare name value | assign name value =>
    refine (completes_eval prototype value covers reads).bind fun value after held => ?_
    refine (Completes.writeVariable name value held).bind fun _ after held => .value _ ?_
    exact ⟨held.mono List.perm_middle.subset, fun ends => by cases ends⟩
  | bindData name parent property =>
    refine (Completes.readData covers (reads List.mem_cons_self)).bind fun location after held => ?_
    refine (Completes.writeData name _ held).bind fun _ after held => .value _ ?_
    exact ⟨held.mono (List.perm_append_singleton _ _).subset, fun ends => by cases ends⟩
  | report site =>
    refine (completes_report covers reads).bind fun _ after held => .value _ ?_
    exact ⟨(List.append_nil known).symm ▸ held, fun ends => by cases ends⟩
  | fail site =>
    refine (completes_report covers reads).bind fun _ after held => .value _ ?_
    exact ⟨(List.append_nil known).symm ▸ held, fun _ => rfl⟩
  | ret valid => exact .value _ ⟨(List.append_nil known).symm ▸ covers, fun _ => rfl⟩

theorem execBlock_cond (test : Expr) (yes : Block) (no : Option Block) (rest : Block) :
    execBlock prototype (.cond test yes no :: rest) =
      eval prototype test >>= fun value =>
        if value.truthy then execBlock prototype (yes ++ rest)
        else execBlock prototype (no.getD [] ++ rest) := by
  rw [execBlock, execStmt_cond]
  simp only [holds, bind_assoc, pure_bind, execBlock_append]
  congr 1
  funext value
  cases value.truthy <;> rfl

/-- Code in scope on all its paths runs to an end, from every state that has what it needs. -/
theorem completes_execBlock {block : Block} {known : List Ref} (inScope : AllInScope known block)
    {state : State} (covers : state.Covers known) :
    Completes (execBlock prototype block) state fun _ _ => True := by
  induction block using Block.runInduction generalizing known state with
  | nil => exact .value _ trivial
  | step stmt rest simple ih =>
    rw [execBlock, execStmt_of_not_cond _ _ simple]
    have performed := completes_perform prototype simple covers (inScope.reads_subset simple)
    refine performed.bind fun ending after both => ?_
    obtain ⟨held, halts⟩ := both
    cases ending with
    | halted => exact .value _ trivial
    | fellThrough =>
      cases ends : stmt.ends with
      | true => cases halts ends
      | false => exact ih (inScope.next simple ends) held
  | cond test yes no rest onYes onNo =>
    rw [execBlock_cond]
    refine (completes_eval prototype test covers inScope.test_subset).bind fun value after held => ?_
    cases value.truthy with
    | true => exact onYes inScope.onYes held
    | false => exact onNo inScope.onNo held

theorem run_of_allInScope {code : Block} (inScope : AllInScope [.data .data] code)
    (subject : Instance) : ∃ violations, run code subject = .ok violations := by
  have covers : (State.start subject.value).Covers [.data .data] := by
    intro ref member
    rcases List.mem_singleton.mp member with rfl
    exact ⟨_, rfl⟩
  obtain ⟨ending, after, done, -⟩ := completes_execBlock subject.prototype inScope covers
  refine ⟨after.violations, ?_⟩
  rw [run, runBlock_eq_execBlock, done]

end SchemaCompiler.Run
