import SchemaCompiler.Proofs.Compilation

/-!
The parameters that a violation shows. A wording reads the raw parameters of a check, fills in what
is not there or of another kind, and drops what it has no use for; of parameters in this form it
makes the same parameters and the same message. So whatever code reports, its message can be had
again from what it shows.
-/

namespace SchemaCompiler

namespace Wording

/-- Parameters in the form in which the wording shows them are shown as they are, with the message
of the raw ones. -/
structure Stable (wording : Wording) : Prop where
  params : ∀ raw, wording.params (wording.params raw) = wording.params raw
  message : ∀ raw, wording.message (wording.params raw) = wording.message raw

theorem stable_generic : generic.Stable := ⟨fun _ => rfl, fun _ => rfl⟩

theorem stable_falseSchema : falseSchema.Stable := ⟨fun _ => rfl, fun _ => rfl⟩

theorem stable_dependencies : dependencies.Stable where
  params _ := congrArg DependencyFailure.params (DependencyFailure.ofParams_params _)
  message _ := congrArg DependencyFailure.message (DependencyFailure.ofParams_params _)

theorem get?_params_required (raw : Json.Members) :
    OrderedMap.get? (required.params raw) "missingProperty" =
      OrderedMap.get? raw "missingProperty" := by
  dsimp only [required]
  cases OrderedMap.get? raw "missingProperty" with
  | none => simp only [OrderedMap.get?_nil]
  | some value => simp only [OrderedMap.get?_cons, ↓reduceIte]

theorem stable_required : required.Stable where
  params raw := by
    dsimp only [required]
    cases OrderedMap.get? raw "missingProperty" with
    | none => simp only [OrderedMap.get?_nil]
    | some value => simp only [OrderedMap.get?_cons, ↓reduceIte]
  message raw := by
    have same : DependencyFailure.textAt? (required.params raw) "missingProperty" =
        DependencyFailure.textAt? raw "missingProperty" :=
      congrArg (Option.bind · Json.asString?) (get?_params_required raw)
    let text (missing : Option String) : String :=
      "should have required property '" ++ missing.getD "" ++ "'"
    exact congrArg text same

/-- The wordings that the compiler itself gives to its checks. -/
def known : List Wording := [generic, required, dependencies, falseSchema]

theorem stable_of_mem_known {wording : Wording} (listed : wording ∈ known) : wording.Stable := by
  simp only [known, List.mem_cons, List.not_mem_nil, or_false] at listed
  rcases listed with rfl | rfl | rfl | rfl
  · exact stable_generic
  · exact stable_required
  · exact stable_dependencies
  · exact stable_falseSchema

theorem ofKeyword_mem_known (keyword : Keyword) : ofKeyword keyword ∈ known := by
  cases keyword <;> simp [ofKeyword, ofKeyword?, known]

end Wording

/-- Of the parameters that the violation shows, the wording makes these very parameters and the
message of the violation. -/
structure Violation.SaidBy (violation : Violation) (wording : Wording) : Prop where
  params : wording.params violation.params = violation.params
  message : wording.message violation.params = violation.message

namespace Code

mutual

def Stmt.sites : Stmt → List Site
  | .report site | .fail site => [site]
  | .cond _ yes none => Block.sites yes
  | .cond _ yes (some no) => Block.sites yes ++ Block.sites no
  | .declare .. | .assign .. | .bindData .. | .ret _ => []

def Block.sites : List Stmt → List Site
  | [] => []
  | stmt :: rest => stmt.sites ++ Block.sites rest

end

theorem Stmt.sites_cond (test : Expr) (yes : Block) (no : Option Block) :
    (Stmt.cond test yes no).sites = Block.sites yes ++ Block.sites (no.getD []) := by
  cases no with
  | none => exact (List.append_nil _).symm
  | some no => rfl

end Code

namespace Run

open Code

def stateLeft : EStateM.Result ExecFault State α → State
  | .ok _ state | .error _ state => state

/-- Where all violations were good before, the computation leaves good ones only. -/
def Upholds (good : Violation → Prop) (code : Exec α) : Prop :=
  ∀ state, (∀ violation ∈ state.violations, good violation) →
    ∀ violation ∈ (stateLeft (code state)).violations, good violation

namespace Upholds

variable {good : Violation → Prop}

theorem value (value : α) : Upholds good (pure value) := fun _ before => before

theorem bind {first : Exec α} {next : α → Exec β} (begins : Upholds good first)
    (goesOn : ∀ value, Upholds good (next value)) : Upholds good (first >>= next) := by
  intro state before
  have between := begins state before
  cases done : first state with
  | error fault after =>
    rw [done] at between
    rw [exec_bind_error done]
    exact between
  | ok value after =>
    rw [done] at between
    rw [exec_bind_ok done]
    exact goesOn value after between

theorem readVariable (name : Name) : Upholds good (readVariable name) := by
  intro state before
  unfold Run.readVariable
  split <;> exact before

theorem readData (name : Name) : Upholds good (readData name) := by
  intro state before
  unfold Run.readData
  split <;> exact before

theorem writeVariable (name : Name) (value : Json) : Upholds good (writeVariable name value) :=
  fun _ before => before

theorem writeData (name : Name) (location : Location) : Upholds good (writeData name location) :=
  fun _ before => before

theorem violationCount : Upholds good violationCount := fun _ before => before

theorem addViolation {violation : Violation} (new : good violation) :
    Upholds good (addViolation violation) := by
  intro state before other member
  rcases List.mem_append.mp member with old | last
  · exact before other old
  · rwa [List.mem_singleton.mp last]

end Upholds

section

variable {good : Violation → Prop} (prototype : Json.Members)

mutual

theorem upholds_eval : ∀ expr : Expr, Upholds good (eval prototype expr)
  | .undefined | .bool _ | .str _ => .value _
  | .var name => .readVariable name
  | .not operand => by
    rw [eval]
    exact (upholds_eval operand).bind fun _ => .value _
  | .and operands => upholds_evalAll operands
  | .or operands => upholds_evalAny operands
  | .isType data _ => (Upholds.readData data).bind fun _ => .value _
  | .hasProperty data _ _ => (Upholds.readData data).bind fun _ => .value _
  | .bind name operand => by
    rw [eval]
    exact (upholds_eval operand).bind fun value =>
      (Upholds.writeVariable name value).bind fun _ => .value _
  | .errorCount => Upholds.violationCount.bind fun _ => .value _
  | .noErrorsSince name =>
    (Upholds.readVariable name).bind fun _ => Upholds.violationCount.bind fun _ => .value _

theorem upholds_evalAll : ∀ operands : List Expr, Upholds good (evalAll prototype operands)
  | [] => .value _
  | operand :: rest => by
    rw [evalAll]
    refine (upholds_eval operand).bind fun value => ?_
    cases value.truthy with
    | true => exact upholds_evalAll rest
    | false => exact .value _

theorem upholds_evalAny : ∀ operands : List Expr, Upholds good (evalAny prototype operands)
  | [] => .value _
  | operand :: rest => by
    rw [evalAny]
    refine (upholds_eval operand).bind fun value => ?_
    cases value.truthy with
    | true => exact .value _
    | false => exact upholds_evalAny rest

end

theorem upholds_readParams (params : List (String × ParamValue)) :
    ∀ read, Upholds good (readParams read params) := by
  induction params with
  | nil => exact fun read => .value read
  | cons entry rest ih =>
    intro read
    obtain ⟨name, param⟩ := entry
    rw [readParams]
    refine .bind ?_ fun value => ih _
    cases param with
    | literal value => exact .value value
    | var name => exact .readVariable name

/-- A site reports one violation, the one it makes of the parameters it has read. -/
theorem upholds_report {site : Site}
    (made : ∀ location params, good (violationAt site location params)) :
    Upholds good (report site) :=
  (upholds_readParams site.params []).bind fun params =>
    (Upholds.readData site.data).bind fun location => .addViolation (made location params)

theorem upholds_perform {stmt : Stmt}
    (made : ∀ site ∈ stmt.sites, ∀ location params, good (violationAt site location params)) :
    Upholds good (perform prototype stmt) := by
  cases stmt with
  | declare name expr | assign name expr =>
    exact (upholds_eval prototype expr).bind fun value =>
      (Upholds.writeVariable name value).bind fun _ => .value _
  | bindData name parent property =>
    exact (Upholds.readData parent).bind fun location =>
      (Upholds.writeData name _).bind fun _ => .value _
  | cond test yes no => exact .value _
  | report site | fail site =>
    exact (upholds_report (made site List.mem_cons_self)).bind fun _ => .value _
  | ret valid => exact .value _

theorem upholds_execBlock (block : Block)
    (made : ∀ site ∈ Block.sites block, ∀ location params,
      good (violationAt site location params)) :
    Upholds good (execBlock prototype block) := by
  induction block using Block.induction with
  | nil => exact .value _
  | step stmt rest simple ih =>
    rw [Block.sites] at made
    have later := ih fun site member => made site (List.mem_append_right _ member)
    rw [execBlock, execStmt_of_not_cond _ _ simple]
    refine (upholds_perform prototype ?_).bind fun ending => ?_
    · exact fun site member => made site (List.mem_append_left _ member)
    · cases ending with
      | fellThrough => exact later
      | halted => exact .value _
  | cond test yes no rest onYes onNo onRest =>
    rw [Block.sites, Stmt.sites_cond, List.append_assoc] at made
    have later := onRest fun site member =>
      made site (List.mem_append_right _ (List.mem_append_right _ member))
    rw [execBlock, execStmt_cond]
    refine .bind (.bind ?_ fun outcome => ?_) fun ending => ?_
    · exact (upholds_eval prototype test).bind fun _ => .value _
    · cases outcome with
      | true => exact onYes fun site member => made site (List.mem_append_left _ member)
      | false =>
        exact onNo fun site member =>
          made site (List.mem_append_right _ (List.mem_append_left _ member))
    · cases ending with
      | fellThrough => exact later
      | halted => exact .value _

end

/-- Whatever code reports is what one of its sites makes of some parameters. -/
theorem exists_site_of_mem_run {code : Block} {subject : Instance} {violations : List Violation}
    (ran : run code subject = .ok violations) :
    ∀ violation ∈ violations, ∃ site ∈ Block.sites code, ∃ location params,
      violation = violationAt site location params := by
  have upheld : Upholds (fun violation => ∃ site ∈ Block.sites code, ∃ location params,
      violation = violationAt site location params) (execBlock subject.prototype code) :=
    upholds_execBlock subject.prototype code fun site member location params =>
      ⟨site, member, location, params, rfl⟩
  have kept := upheld (.start subject.value) fun _ none => by cases none
  rw [run, runBlock_eq_execBlock] at ran
  split at ran
  · next ending after done =>
    rw [done] at kept
    cases ran
    exact kept
  · cases ran

theorem violationAt_saidBy {site : Site} (stable : site.wording.Stable) (location : Location)
    (params : Json.Members) : (violationAt site location params).SaidBy site.wording where
  params := stable.params params
  message := stable.message params

end Run

/-- If the keyword of the violation has a name known to the compiler, then the wording of that
keyword says it. -/
def Violation.SaidByKeyword (violation : Violation) : Prop :=
  ∀ keyword : Keyword, violation.keyword = keyword.name → violation.SaidBy (.ofKeyword keyword)

theorem Violation.SaidBy.ofKeyword {violation : Violation} {keyword : Keyword}
    (said : violation.SaidBy (.ofKeyword keyword)) (named : violation.keyword = keyword.name) :
    violation.SaidByKeyword := by
  intro other same
  rwa [← Keyword.eq_of_name_eq (named.symm.trans same)]

namespace Schema

theorem saidByKeyword_false (place : Place) : (falseViolation place).SaidByKeyword := by
  intro keyword named
  cases keyword <;> simp [falseViolation, Keyword.name] at named

theorem saidByKeyword_required (place : Place) (name : String) :
    (requiredViolation place name).SaidByKeyword := by
  have said : (requiredViolation place name).SaidBy (.ofKeyword .required) := ⟨rfl, rfl⟩
  exact said.ofKeyword rfl

theorem saidByKeyword_dependency (place : Place) (trigger : String) (names : List String)
    (name : String) : (dependencyViolation place trigger names name).SaidByKeyword := by
  let failure := (DependencyFailure.ofNames trigger names).withMissing name
  have read : DependencyFailure.ofParams failure.params = failure :=
    DependencyFailure.ofParams_params failure
  have said : (dependencyViolation place trigger names name).SaidBy (.ofKeyword .dependencies) := by
    constructor
    · calc (DependencyFailure.ofParams failure.params).params
        _ = failure.params := by rw [read]
        _ = (dependencyViolation place trigger names name).params := rfl
    · calc (DependencyFailure.ofParams failure.params).message
        _ = failure.message := by rw [read]
        _ = (dependencyViolation place trigger names name).message := rfl
  exact said.ofKeyword rfl

theorem saidByKeyword_of_mem_violations (presence : Presence) (schema : Schema) (place : Place) :
    ∀ violation ∈ schema.violations presence place, violation.SaidByKeyword := by
  let anywhere (_ : Place) : Prop := True
  have all : ∀ place, anywhere place → ∀ violation ∈ schema.violations presence place,
      violation.SaidByKeyword :=
    forall_mem_violations presence (fun _ _ => id) (fun _ _ => id)
      (fun place _ => saidByKeyword_false place)
      (fun place name _ => saidByKeyword_required place name)
      (fun place trigger names name _ => saidByKeyword_dependency place trigger names name) schema
  exact all place trivial

end Schema

namespace Validator

open Code Run

theorem saidByKeyword_compiled (options : Options) (schema : Schema) (subject : Instance) :
    ∃ violations, run (compiled options schema).code subject = .ok violations ∧
      ∀ violation ∈ violations, violation.SaidByKeyword := by
  refine ⟨_, run_compiled options schema subject, fun violation reported => ?_⟩
  exact Schema.saidByKeyword_of_mem_violations _ schema _ violation (mem_of_mem_reported reported)

/-- A dependency failure is read back from its parameters. Parameters in the form in which one of
the compiler's wordings shows them are shown as they are, with the same message as the raw ones,
whatever these were. Whatever code reports, made by hand or compiled, one of its sites said of some
raw parameters; so if the wording of that site is as stable as the compiler's own are, then the
message can be had again from the parameters. What compiled code reports under the name of a keyword
is said by the wording of that keyword. -/
theorem message_of_shown_params :
    (∀ failure : DependencyFailure, .ofParams failure.params = failure) ∧
    (∀ wording ∈ Wording.known, ∀ raw : Json.Members,
      wording.params (wording.params raw) = wording.params raw ∧
        wording.message (wording.params raw) = wording.message raw) ∧
    (∀ (code : Block) (subject : Instance) (violations : List Violation),
      run code subject = .ok violations → ∀ violation ∈ violations,
        ∃ site ∈ Block.sites code, violation.keyword = site.keyword ∧
          (∃ raw, violation.params = site.wording.params raw ∧
            violation.message = site.wording.message raw) ∧
          (site.wording.Stable → violation.SaidBy site.wording)) ∧
    (∀ (options : Options) (schema : Schema), ∃ validator,
      ofSchema options schema = .ok validator ∧
        ∀ subject, ∃ violations, run validator.code subject = .ok violations ∧
          ∀ violation ∈ violations, violation.SaidByKeyword) ∧
    ∀ (options : Options) (document : Json) (validator : Validator),
      ofDocument options document = .ok validator →
        ∀ subject, ∃ violations, run validator.code subject = .ok violations ∧
          ∀ violation ∈ violations, violation.SaidByKeyword := by
  refine ⟨DependencyFailure.ofParams_params, ?_, ?_, ?_, ?_⟩
  · intro wording listed raw
    have stable := Wording.stable_of_mem_known listed
    exact ⟨stable.params raw, stable.message raw⟩
  · intro code subject violations ran violation reported
    obtain ⟨site, stands, location, params, rfl⟩ := exists_site_of_mem_run ran violation reported
    exact ⟨site, stands, rfl, ⟨params, rfl, rfl⟩,
      fun stable => violationAt_saidBy stable location params⟩
  · intro options schema
    exact ⟨_, ofSchema_eq options schema, saidByKeyword_compiled options schema⟩
  · intro options document validator compiles
    obtain ⟨schema, -, rfl⟩ := ofDocument_eq_ok compiles
    exact saidByKeyword_compiled options schema

def addressViolation : Violation where
  instancePath := .ofKeys ["order"]
  schemaPath := .ofKeys ["properties", "order", "dependencies"]
  keyword := "dependencies"
  params :=
    [("property", .str "card"), ("missingProperty", .str "address"), ("depsCount", .ofNat 2),
      ("deps", .str "holder, address")]
  message := "should have properties holder, address when property card is present"

theorem message_of_shown_params_order :
    ofDocument orderOptions orderDocument = .ok (compiled orderOptions orderSchema) ∧
      run (compiled orderOptions orderSchema).code orderInstance = .ok [addressViolation] ∧
      addressViolation.SaidBy .dependencies ∧
      ∃ site ∈ Block.sites (compiled orderOptions orderSchema).code,
        addressViolation.keyword = site.keyword ∧ site.wording ∈ Wording.known ∧
          addressViolation.SaidBy site.wording := by
  have compiles : ofDocument orderOptions orderDocument =
      .ok (compiled orderOptions orderSchema) := rfl
  have ran : run (compiled orderOptions orderSchema).code orderInstance =
      .ok [addressViolation] := run_compiled orderOptions orderSchema orderInstance
  obtain ⟨-, -, ofCode, -, ofDocuments⟩ := message_of_shown_params
  obtain ⟨violations, again, said⟩ := ofDocuments _ _ _ compiles orderInstance
  cases ran.symm.trans again
  obtain ⟨site, stands, named, -, saidBySite⟩ := ofCode _ _ _ ran _ List.mem_cons_self
  have wordings : (Block.sites (compiled orderOptions orderSchema).code).map Site.wording =
      [.dependencies, .dependencies] := rfl
  have known : site.wording ∈ Wording.known := by
    have one : site.wording ∈ [Wording.dependencies, .dependencies] :=
      wordings ▸ List.mem_map_of_mem stands
    have same : site.wording = .dependencies := by simpa using one
    exact same ▸ Wording.ofKeyword_mem_known .dependencies
  exact ⟨compiles, ran, said _ List.mem_cons_self .dependencies rfl, site, stands, named, known,
    saidBySite (Wording.stable_of_mem_known known)⟩

end Validator

end SchemaCompiler
