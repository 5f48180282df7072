import SchemaCompiler.Proofs.Code.FreshNames
import SchemaCompiler.Proofs.Emit.Writer
import SchemaCompiler.Proofs.Run.Conditions

/-!
What a block reports: under one policy every violation it finds, under the other the first one,
after which the run has ended. Blocks that run one after another find what each of them finds.
-/

namespace SchemaCompiler

def ErrorPolicy.reported : ErrorPolicy → List Violation → List Violation
  | accumulateAll, found => found
  | stopAtFirst, found => found.take 1

namespace Run

open Code

def State.setData (state : State) (name : Name) (location : Location) : State :=
  { state with data := OrderedMap.insert state.data name location }

/-- Variables other than those `written`, and data references other than those `rebound`, are what
they were. -/
structure Keeps (written rebound : Name → Prop) (before after : State) : Prop where
  vars : ∀ name, ¬ written name →
    OrderedMap.get? after.vars name = OrderedMap.get? before.vars name
  data : ∀ name, ¬ rebound name →
    OrderedMap.get? after.data name = OrderedMap.get? before.data name

def nowhere (_ : Name) : Prop := False

namespace Keeps

variable {written rebound wider further : Name → Prop} {before between after : State}

theorem refl (state : State) : Keeps written rebound state state :=
  ⟨fun _ _ => rfl, fun _ _ => rfl⟩

theorem trans (first : Keeps written rebound before between)
    (second : Keeps written rebound between after) : Keeps written rebound before after where
  vars name apart := (second.vars name apart).trans (first.vars name apart)
  data name apart := (second.data name apart).trans (first.data name apart)

theorem mono (keeps : Keeps written rebound before after) (more : ∀ name, written name → wider name)
    (also : ∀ name, rebound name → further name) : Keeps wider further before after where
  vars name apart := keeps.vars name fun touched => apart (more name touched)
  data name apart := keeps.data name fun touched => apart (also name touched)

theorem ofNowhere (keeps : Keeps nowhere nowhere before after) :
    Keeps written rebound before after := keeps.mono (fun _ => False.elim) fun _ => False.elim

theorem setVar (state : State) {name : Name} (value : Json) (touched : written name) :
    Keeps written rebound state (state.setVar name value) where
  vars _ apart := OrderedMap.get?_insert_of_ne _ _ fun same => apart (same ▸ touched)
  data _ _ := rfl

theorem setData (state : State) {name : Name} (location : Location) (touched : rebound name) :
    Keeps written rebound state (state.setData name location) where
  vars _ _ := rfl
  data _ apart := OrderedMap.get?_insert_of_ne _ _ fun same => apart (same ▸ touched)

end Keeps

def State.add (state : State) (violation : Violation) : State :=
  { state with violations := state.violations ++ [violation] }

theorem Keeps.add {written rebound : Name → Prop} (state : State) (violation : Violation) :
    Keeps written rebound state (state.add violation) := ⟨fun _ _ => rfl, fun _ _ => rfl⟩

theorem readParams_single {param : ParamValue} {value : Json} {state : State}
    (known : readParam param state = .ok value state) (read : Json.Members) (name : String) :
    readParams read [(name, param)] state = .ok (OrderedMap.insert read name value) state := by
  rw [readParams_cons known]
  rfl

def violationAt (site : Site) (location : Location) (params : Json.Members) : Violation where
  instancePath := location.path
  schemaPath := site.schemaPath
  keyword := site.keyword
  params := site.wording.params params
  message := site.wording.message params

theorem report_eq (site : Site) {params : Json.Members} {location : Location} {state : State}
    (read : readParams [] site.params state = .ok params state)
    (bound : OrderedMap.get? state.data site.data = some location) :
    report site state = .ok () (state.add (violationAt site location params)) := by
  rw [report, exec_bind_ok read, exec_bind_ok (readData_eq bound)]
  rfl

/-- Run from `before`, the code finds `found` and reports what the policy asks for. Where it falls
through, `post` holds of the state it leaves. -/
inductive Reports (prototype : Json.Members) (policy : ErrorPolicy) (code : Block) (before : State)
    (found : List Violation) (post : State → Prop) : Prop where
  | through (after : State) (ran : execBlock prototype code before = .ok .fellThrough after)
    (grown : after.violations = before.violations ++ found) (left : post after)
    (silent : policy = .stopAtFirst → found = [])
  | stopped (first : Violation) (others : List Violation) (after : State)
    (ran : execBlock prototype code before = .ok .halted after) (split : found = first :: others)
    (grown : after.violations = before.violations ++ [first]) (stops : policy = .stopAtFirst)

theorem execBlock_single (prototype : Json.Members) (stmt : Stmt) :
    execBlock prototype [stmt] = execStmt prototype stmt := by
  have falls : (fun ending : Ending => ending.andThen (pure .fellThrough)) =
      (pure : Ending → Exec Ending) := by
    funext ending
    cases ending <;> rfl
  simp only [execBlock, falls, bind_pure]

namespace Reports

variable {prototype : Json.Members} {policy : ErrorPolicy} {code rest : Block} {before : State}
  {found more : List Violation} {post middle : State → Prop}

theorem nil (left : post before) : Reports prototype policy [] before [] post :=
  .through before rfl (List.append_nil _).symm left fun _ => rfl

theorem imp (reports : Reports prototype policy code before found middle)
    (weaker : ∀ after, middle after → post after) :
    Reports prototype policy code before found post := by
  cases reports with
  | through after ran grown left silent => exact .through after ran grown (weaker after left) silent
  | stopped first others after ran split grown stops =>
    exact .stopped first others after ran split grown stops

/-- Code that falls through is followed by what stands after it; code that stops is not. -/
theorem append (reports : Reports prototype policy code before found middle)
    (later : ∀ state, middle state → state.violations = before.violations ++ found →
      (policy = .stopAtFirst → found = []) → Reports prototype policy rest state more post) :
    Reports prototype policy (code ++ rest) before (found ++ more) post := by
  cases reports with
  | through between ran grown left silent =>
    have joined : execBlock prototype (code ++ rest) before = execBlock prototype rest between := by
      rw [execBlock_append, exec_bind_ok ran]
      rfl
    cases later between left grown silent with
    | through after done more_grown at_end quiet =>
      apply through after (joined.trans done) _ at_end
      · intro stops
        rw [silent stops, quiet stops, List.append_nil]
      · rw [more_grown, grown, List.append_assoc]
    | stopped first others after done split more_grown stops =>
      have none : found = [] := silent stops
      apply stopped first others after (joined.trans done) _ _ stops
      · rw [none, split, List.nil_append]
      · rw [more_grown, grown, none, List.append_nil]
  | stopped first others after ran split grown stops =>
    have joined : execBlock prototype (code ++ rest) before = .ok .halted after := by
      rw [execBlock_append, exec_bind_ok ran]
      rfl
    exact .stopped first (others ++ more) after joined (by rw [split, List.cons_append]) grown stops

theorem quiet (reports : Reports prototype policy code before [] middle)
    (later : ∀ state, middle state → Reports prototype policy rest state more post) :
    Reports prototype policy (code ++ rest) before more post :=
  reports.append fun state left _ _ => later state left

theorem ofStmt {stmt : Stmt} {after : State}
    (ran : execStmt prototype stmt before = .ok .fellThrough after)
    (same : after.violations = before.violations) (left : post after) :
    Reports prototype policy [stmt] before [] post := by
  apply through after _ _ left fun _ => rfl
  · rw [execBlock_single, ran]
  · rw [same, List.append_nil]

theorem cond {test : Expr} {yes : Block} {no : Option Block} {outcome : Bool} {between : State}
    (chosen : holds prototype test before = .ok outcome between)
    (same : between.violations = before.violations)
    (branch : Reports prototype policy (if outcome then yes else no.getD []) between found post) :
    Reports prototype policy [.cond test yes no] before found post := by
  have joined : execBlock prototype [.cond test yes no] before =
      execBlock prototype (if outcome then yes else no.getD []) between := by
    rw [execBlock_single, execStmt_cond, exec_bind_ok chosen]
    cases outcome <;> rfl
  cases branch with
  | through after ran grown left silent =>
    exact .through after (joined.trans ran) (same ▸ grown) left silent
  | stopped first others after ran split grown stops =>
    exact .stopped first others after (joined.trans ran) split (same ▸ grown) stops

theorem assign {name : Name} {expr : Expr} (value : Json)
    (computed : eval prototype expr before = .ok value before)
    (left : post (before.setVar name value)) :
    Reports prototype policy [.assign name expr] before [] post := by
  have ran : execStmt prototype (.assign name expr) before =
      .ok .fellThrough (before.setVar name value) := by
    simp only [execStmt, perform]
    rw [exec_bind_ok computed]
    rfl
  exact ofStmt ran rfl left

theorem declare {stem : String} {expr : Expr} (value : Json) {body : Name → Emit.Writer}
    {names : NameSupply} (computed : eval prototype expr before = .ok value before)
    (later : Reports prototype policy
      ((body (names.fresh stem).1).code (names.fresh stem).2)
      (before.setVar (names.fresh stem).1 value) found post) :
    Reports prototype policy ((Emit.Writer.declare stem expr body).code names) before found post := by
  have ran : execStmt prototype (.declare (names.fresh stem).1 expr) before =
      .ok .fellThrough (before.setVar (names.fresh stem).1 value) := by
    simp only [execStmt, perform]
    rw [exec_bind_ok computed]
    rfl
  have head : Reports prototype policy [.declare (names.fresh stem).1 expr] before []
      (· = before.setVar (names.fresh stem).1 value) := ofStmt ran rfl rfl
  exact head.quiet fun state left => left ▸ later

theorem bindData {parent : Name} {property : String} {body : Name → Emit.Writer}
    {names : NameSupply} {location : Location}
    (bound : OrderedMap.get? before.data parent = some location)
    (later : Reports prototype policy
      ((body (names.fresh Name.data.text).1).code (names.fresh Name.data.text).2)
      (before.setData (names.fresh Name.data.text).1
        ⟨Schema.Presence.valueAt ⟨false, prototype⟩ location.value property,
          location.path.key property⟩)
      found post) :
    Reports prototype policy ((Emit.Writer.bindData parent property body).code names) before found
      post := by
  have ran : execStmt prototype (.bindData (names.fresh Name.data.text).1 parent property) before =
      .ok .fellThrough (before.setData (names.fresh Name.data.text).1
        ⟨Schema.Presence.valueAt ⟨false, prototype⟩ location.value property,
          location.path.key property⟩) := by
    simp only [execStmt, perform, Schema.Presence.valueAt_eq_getD_lookup]
    rw [exec_bind_ok (readData_eq bound)]
    rfl
  have head : Reports prototype policy
      [.bindData (names.fresh Name.data.text).1 parent property] before []
      (· = before.setData (names.fresh Name.data.text).1 _) := ofStmt ran rfl rfl
  exact head.quiet fun state left => left ▸ later

theorem ofReport {site : Site} {violation : Violation}
    (told : report site before = .ok () (before.add violation))
    (accumulates : policy = .accumulateAll) (left : post (before.add violation)) :
    Reports prototype policy [.report site] before [violation] post := by
  have ran : execStmt prototype (.report site) before =
      .ok .fellThrough (before.add violation) := by
    simp only [execStmt, perform]
    rw [exec_bind_ok told]
    rfl
  rw [← execBlock_single] at ran
  apply through (before.add violation) ran rfl left
  intro stops
  cases stops.symm.trans accumulates

theorem ofFail {site : Site} {violation : Violation}
    (told : report site before = .ok () (before.add violation)) (stops : policy = .stopAtFirst) :
    Reports prototype policy [.fail site] before [violation] post := by
  have ran : execStmt prototype (.fail site) before = .ok .halted (before.add violation) := by
    simp only [execStmt, perform]
    rw [exec_bind_ok told]
    rfl
  rw [← execBlock_single] at ran
  exact .stopped violation [] (before.add violation) ran rfl rfl stops

/-- After the first violation nothing else matters. -/
theorem first_only {first : Violation} {others : List Violation} (stops : policy = .stopAtFirst)
    (reports : Reports prototype policy code before (first :: others) middle) :
    Reports prototype policy code before (first :: more) post := by
  cases reports with
  | through after ran grown left silent => cases silent stops
  | stopped head tail after ran split grown _ =>
    obtain ⟨rfl, -⟩ := List.cons.inj split
    exact .stopped first more after ran rfl grown stops

theorem run_eq {value : Json}
    (reports : Reports prototype policy code (.start value) found post) :
    run code ⟨value, prototype⟩ = .ok (policy.reported found) := by
  simp only [run, runBlock_eq_execBlock]
  cases reports with
  | through after ran grown left silent =>
    have all : policy.reported found = found := by
      cases policy with
      | accumulateAll => rfl
      | stopAtFirst => rw [silent rfl]; rfl
    rw [ran, all]
    exact congrArg Except.ok grown
  | stopped first others after ran split grown stops =>
    rw [ran, stops, split]
    exact congrArg Except.ok grown

end Reports

end Run

end SchemaCompiler
