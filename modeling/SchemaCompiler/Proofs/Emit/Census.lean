import SchemaCompiler.Proofs.Code.Verbatim
import SchemaCompiler.Proofs.Emit.Writer
import SchemaCompiler.Proofs.Schema.Applied

/-!
How many statements of a kind the checks of a schema are. A selection of statements is judged on
code whose names and parameter keys all belong to some vocabulary; if it takes the reports alike and
nothing but outcomes, then the selected statements are counted on the schema alone.
-/

namespace SchemaCompiler.Emit

open Code

structure Vocabulary (good : String → Prop) : Prop where
  fresh : ∀ stem ∈ [missingStem, validStem, beforeStem, Name.data.text],
    ∀ number, good (numbered stem number).text
  key : ∀ key ∈ [missingParam, "property", "depsCount", "deps"], good key

/-- In code with good texts, the selection counts each report of the policy as `perReport`, each
statement that settles a subschema as `perExit`, and no statement but outcomes. -/
structure Selection (good : String → Prop) (select : Stmt → Bool) (policy : ErrorPolicy)
    (perReport perExit : Nat) : Prop extends Vocabulary good where
  report : ∀ context site, context.options.policy = policy → (∀ text ∈ site.verbatim, good text) →
    (select (reportStmt context site)).toNat = perReport
  exit : policy = .stopAtFirst → (select (.ret false)).toNat = perExit
  stay : policy = .accumulateAll → perExit = 0
  other : ∀ stmt : Stmt, stmt.isReport = false → stmt.isFail = false → stmt.isRet = false →
    (∀ text ∈ stmt.own, good text) → select stmt = false

def Counts (select : Stmt → Bool) (writer : Writer) (count : Nat) : Prop :=
  ∀ names, Block.tally select (writer.code names) = count

namespace Counts

variable {select : Stmt → Bool} {first second yes no : Writer} {firstCount secondCount : Nat}

theorem nothing : Counts select .nothing 0 := fun _ => rfl

theorem stmt {stmt : Stmt} (plain : stmt.isCond = false) :
    Counts select (.stmts [stmt]) (select stmt).toNat := by
  intro names
  rw [Writer.code_stmts, Block.tally, Block.tally, Nat.add_zero]
  cases stmt with
  | cond => simp [Stmt.isCond] at plain
  | _ => rfl

theorem andThen (onFirst : Counts select first firstCount)
    (onSecond : Counts select second secondCount) :
    Counts select (first.andThen second) (firstCount + secondCount) := by
  intro names
  rw [Writer.code_andThen, Block.tally_append, onFirst, onSecond]

theorem cond {test : Expr} (unselected : ∀ yes, select (.cond test yes none) = false)
    (onYes : Counts select yes firstCount) : Counts select (.cond test yes) firstCount := by
  intro names
  change Block.tally select [.cond test (yes.code names) none] = firstCount
  rw [Block.tally, Block.tally, Stmt.tally, unselected, onYes, Bool.toNat_false, Nat.zero_add,
    Nat.add_zero]

theorem condElse {test : Expr} (unselected : ∀ yes no, select (.cond test yes (some no)) = false)
    (onYes : Counts select yes firstCount) (onNo : Counts select no secondCount) :
    Counts select (.condElse test yes no) (firstCount + secondCount) := by
  intro names
  change Block.tally select
    [.cond test (yes.code names) (some (no.code (yes.after names)))] = firstCount + secondCount
  rw [Block.tally, Block.tally, Stmt.tally, unselected, onYes, onNo, Bool.toNat_false,
    Nat.zero_add, Nat.add_zero]

theorem fresh {stem : String} {body : Name → Writer}
    (onBody : ∀ number, Counts select (body (numbered stem number)) firstCount) :
    Counts select (.fresh stem body) firstCount :=
  fun names => onBody (names.count stem) _

theorem introduce {stem : String} {stmt : Name → Stmt} {body : Name → Writer}
    (plain : ∀ name, (stmt name).isCond = false)
    (unselected : ∀ number, select (stmt (numbered stem number)) = false)
    (onBody : ∀ number, Counts select (body (numbered stem number)) firstCount) :
    Counts select (.fresh stem fun name => (Writer.stmts [stmt name]).andThen (body name))
      firstCount := by
  apply fresh
  intro number
  have here : Counts select (.stmts [stmt (numbered stem number)]) _ := .stmt (plain _)
  rw [unselected, Bool.toNat_false] at here
  have both := here.andThen (onBody number)
  rwa [Nat.zero_add] at both

end Counts

structure Fits (good : String → Prop) (policy : ErrorPolicy) (context : Context) : Prop where
  same : context.options.policy = policy
  onData : good context.data.text

section Checks

variable {good : String → Prop} {select : Stmt → Bool} {policy : ErrorPolicy}
  {perReport perExit : Nat} (selection : Selection good select policy perReport perExit)
  {context : Context} (fits : Fits good policy context)

def GoodParams (good : String → Prop) (params : List (String × ParamValue)) : Prop :=
  ∀ param ∈ params, good param.1 ∧ ∀ text ∈ param.2.verbatim, good text

theorem GoodParams.append_one {params : List (String × ParamValue)}
    (onParams : GoodParams good params) {key : String} {value : ParamValue} (onKey : good key)
    (onValue : ∀ text ∈ value.verbatim, good text) :
    GoodParams good (params ++ [(key, value)]) := by
  intro param member
  rcases List.mem_append.mp member with old | new
  · exact onParams param old
  · rw [List.mem_singleton.mp new]
    exact ⟨onKey, onValue⟩

section

include fits

theorem Fits.good_of_data {test : Expr} (names : test.names = [context.data]) :
    ∀ name ∈ test.names, good name.text := by
  intro name member
  rw [names] at member
  rw [List.mem_singleton.mp member]
  exact fits.onData

theorem Fits.good_missingCondition (names : List String) {missing : Name}
    (onMissing : good missing.text) :
    ∀ name ∈ (missingCondition context names missing).names, good name.text := by
  intro name member
  rw [missingCondition, Expr.names_anyOf] at member
  obtain ⟨test, listed, inside⟩ := List.mem_flatMap.mp member
  obtain ⟨asked, -, rfl⟩ := List.mem_map.mp listed
  have either : name ∈ [context.data, missing] := by rwa [Expr.names_allOf] at inside
  rcases List.mem_cons.mp either with rfl | last
  · exact fits.onData
  · rwa [List.mem_singleton.mp last]

end

include selection

theorem goodParams_trigger (trigger : String) (names : List String) :
    GoodParams good (triggerParams trigger names) := by
  have onKeys : ∀ key ∈ ["property", "depsCount", "deps"], good key := fun key member =>
    selection.key key (List.mem_cons_of_mem _ member)
  have known : ∀ param ∈ triggerParams trigger names,
      param.1 ∈ ["property", "depsCount", "deps"] ∧ param.2.verbatim = [] := by
    simp [triggerParams, ParamValue.verbatim]
  intro param member
  obtain ⟨key, literal⟩ := known param member
  refine ⟨onKeys _ key, fun text inside => ?_⟩
  rw [literal] at inside
  cases inside

theorem unselected_cond {test : Expr} (onTest : ∀ name ∈ test.names, good name.text) (yes : Block)
    (no : Option Block) : select (.cond test yes no) = false := by
  apply selection.other _ rfl rfl rfl
  intro text member
  obtain ⟨name, mentioned, rfl⟩ := List.mem_map.mp member
  exact onTest name mentioned

theorem unselected_assign {name : Name} (onName : good name.text) {value : Expr}
    (onValue : ∀ name ∈ value.names, good name.text) : select (.assign name value) = false := by
  apply selection.other _ rfl rfl rfl
  intro text member
  rcases List.mem_cons.mp member with rfl | inValue
  · exact onName
  · obtain ⟨name, mentioned, rfl⟩ := List.mem_map.mp inValue
    exact onValue name mentioned

theorem counts_declare {stem : String}
    (listed : stem ∈ [missingStem, validStem, beforeStem, Name.data.text]) {value : Expr}
    (closed : value.names = []) {body : Name → Writer} {count : Nat}
    (onBody : ∀ name, good name.text → Counts select (body name) count) :
    Counts select (.declare stem value body) count := by
  refine .introduce (fun _ => rfl) (fun number => ?_) fun number =>
    onBody _ (selection.fresh stem listed number)
  apply selection.other _ rfl rfl rfl
  intro text member
  rw [Stmt.own, Expr.verbatim, closed] at member
  rw [List.mem_singleton.mp member]
  exact selection.fresh stem listed number

theorem counts_assign {name : Name} (onName : good name.text) {value : Expr}
    (onValue : ∀ name ∈ value.names, good name.text) :
    Counts select (.stmts [.assign name value]) 0 := by
  have here : Counts select (.stmts [.assign name value]) _ := .stmt rfl
  rwa [unselected_assign selection onName onValue] at here

include fits

theorem counts_report (site : Site) (onSite : ∀ text ∈ site.verbatim, good text) :
    Counts select (.stmts [reportStmt context site]) perReport := by
  have plain : (reportStmt context site).isCond = false := by
    unfold reportStmt
    cases context.options.policy <;> rfl
  rw [← selection.report context site fits.same onSite]
  exact .stmt plain

theorem counts_keywordReport (keyword : Keyword) {params : List (String × ParamValue)}
    (onParams : GoodParams good params) :
    Counts select (.stmts [reportStmt context (keywordSite context keyword params)]) perReport := by
  apply counts_report selection fits
  intro text member
  rcases List.mem_cons.mp member with rfl | inParams
  · exact fits.onData
  · obtain ⟨param, listed, inside⟩ := List.mem_flatMap.mp inParams
    obtain ⟨onKey, onValue⟩ := onParams param listed
    rcases List.mem_cons.mp inside with rfl | inValue
    · exact onKey
    · exact onValue text inValue

theorem counts_missingChecks (keyword : Keyword) {params : List (String × ParamValue)}
    (onParams : GoodParams good params) (names : List String) :
    Counts select (.stmts (names.map (missingCheck context keyword params)))
      (names.length * perReport) := by
  induction names with
  | nil =>
    rw [List.length_nil, Nat.zero_mul]
    exact .nothing
  | cons name rest ih =>
    have onAll : GoodParams good (params ++ [(missingParam, .literal (.str name))]) :=
      onParams.append_one (selection.key _ List.mem_cons_self) fun _ none => by cases none
    have check : Counts select (.stmts [missingCheck context keyword params name]) perReport :=
      .cond (fun yes => unselected_cond selection (fits.good_of_data rfl) yes none)
        (counts_keywordReport selection fits keyword onAll)
    rw [List.length_cons, Nat.add_mul, Nat.one_mul, Nat.add_comm]
    exact check.andThen ih

theorem counts_firstMissing (keyword : Keyword) {params : List (String × ParamValue)}
    (onParams : GoodParams good params) {condition : Expr}
    (onCondition : ∀ name ∈ condition.names, good name.text) {missing : Name}
    (onMissing : good missing.text) {rest : Writer} {count : Nat}
    (onRest : Counts select rest count) :
    Counts select (writeFirstMissing context keyword params condition missing rest)
      (perReport + count) := by
  have onAll : GoodParams good (params ++ [(missingParam, .var missing)]) := by
    refine onParams.append_one (selection.key _ List.mem_cons_self) fun text member => ?_
    rwa [List.mem_singleton.mp member]
  exact .condElse (fun yes no => unselected_cond selection onCondition yes (some no))
    (counts_keywordReport selection fits keyword onAll) onRest

theorem counts_required (names : List String) :
    Counts select (writeRequired context names) (policy.reportsFor names * perReport) := by
  have none : GoodParams good [] := fun _ member => by cases member
  cases names with
  | nil =>
    rw [ErrorPolicy.reportsFor_nil, Nat.zero_mul]
    exact .nothing
  | cons name rest =>
    cases policy with
    | accumulateAll =>
      simp only [writeRequired, List.isEmpty_cons, Bool.false_eq_true, ↓reduceIte, fits.same]
      exact counts_missingChecks selection fits .required none (name :: rest)
    | stopAtFirst =>
      simp only [writeRequired, List.isEmpty_cons, Bool.false_eq_true, ↓reduceIte, fits.same]
      change Counts select _ (1 * perReport)
      rw [Nat.one_mul]
      refine counts_declare selection (by decide) rfl fun missing onMissing => ?_
      exact counts_firstMissing selection fits .required none
        (fits.good_missingCondition _ onMissing) onMissing .nothing

theorem counts_propertyDependency {missing : Name} (onMissing : good missing.text)
    (trigger : String) (names : List String) {rest : Writer} {count : Nat}
    (onRest : Counts select rest count) :
    Counts select (writePropertyDependency context missing trigger names rest)
      (policy.reportsFor names * perReport + count) := by
  have onParams := goodParams_trigger selection trigger names
  cases names with
  | nil =>
    rw [ErrorPolicy.reportsFor_nil, Nat.zero_mul, Nat.zero_add]
    exact onRest
  | cons name more =>
    cases policy with
    | accumulateAll =>
      simp only [writePropertyDependency, List.isEmpty_cons, Bool.false_eq_true, ↓reduceIte,
        fits.same]
      have checks := counts_missingChecks selection fits .dependencies onParams (name :: more)
      exact .andThen (.cond
        (fun yes => unselected_cond selection (fits.good_of_data rfl) yes none) checks) onRest
    | stopAtFirst =>
      simp only [writePropertyDependency, List.isEmpty_cons, Bool.false_eq_true, ↓reduceIte,
        fits.same]
      change Counts select _ (1 * perReport + count)
      rw [Nat.one_mul]
      refine counts_firstMissing selection fits .dependencies onParams ?_ onMissing onRest
      intro other member
      rw [Expr.names_allOf] at member
      obtain ⟨test, listed, inside⟩ := List.mem_flatMap.mp member
      rcases List.mem_cons.mp listed with rfl | last
      · exact fits.good_of_data rfl other inside
      · rw [List.mem_singleton.mp last] at inside
        exact fits.good_missingCondition _ onMissing other inside

theorem counts_triggers {missing : Name} (onMissing : good missing.text)
    (triggers : List (String × List String)) {rest : Writer} {count : Nat}
    (onRest : Counts select rest count) :
    Counts select (writeTriggers context missing rest triggers)
      (((triggers.map Prod.snd).map policy.reportsFor).sum * perReport + count) := by
  induction triggers with
  | nil =>
    rw [List.map_nil, List.map_nil, List.sum_nil, Nat.zero_mul, Nat.zero_add]
    exact onRest
  | cons entry more ih =>
    rw [List.map_cons, List.map_cons, List.sum_cons, Nat.add_mul, Nat.add_assoc]
    exact counts_propertyDependency selection fits onMissing entry.1 entry.2 ih

theorem counts_propertyDependencies (triggers : List (String × List String)) {rest : Writer}
    {count : Nat} (onRest : Counts select rest count) :
    Counts select (writePropertyDependencies context triggers rest)
      (((triggers.map Prod.snd).map policy.reportsFor).sum * perReport + count) := by
  cases triggers with
  | nil =>
    rw [List.map_nil, List.map_nil, List.sum_nil, Nat.zero_mul, Nat.zero_add]
    exact onRest
  | cons entry more =>
    simp only [writePropertyDependencies, List.isEmpty_cons, Bool.false_eq_true, ↓reduceIte]
    exact counts_declare selection (by decide) rfl fun missing onMissing =>
      counts_triggers selection fits onMissing (entry :: more) onRest

theorem counts_settle {valid : Name} (onValid : good valid.text) :
    Counts select (writeSettle context valid) perExit := by
  cases policy with
  | accumulateAll =>
    simp only [writeSettle, fits.same]
    rw [selection.stay rfl]
    exact .nothing
  | stopAtFirst =>
    simp only [writeSettle, fits.same]
    have exits : Counts select (.stmts [.ret false]) _ := .stmt rfl
    rw [selection.exit rfl] at exits
    refine .cond (fun yes => unselected_cond selection ?_ yes none) exits
    intro name member
    rwa [List.mem_singleton.mp member]

section Subschemas

variable {valid : Name} (onValid : good valid.text) {body : Context → Writer} {count : Nat}
  (onBody : ∀ inner, Fits good policy inner → Counts select (body inner) count)

include onValid

theorem counts_branches (trigger : String) {applied : Writer}
    (onApplied : Counts select applied count) :
    Counts select (.condElse (present context trigger) applied
      (.stmts [.assign valid (.bool true)])) count := by
  have skipped : Counts select (.stmts [.assign valid (.bool true)]) 0 :=
    counts_assign selection onValid fun _ member => by cases member
  exact .condElse
    (fun yes no => unselected_cond selection (fits.good_of_data rfl) yes (some no))
    onApplied skipped

include onBody

theorem counts_subschema (keyword member : String) (property? : Option String) :
    Counts select (writeSubschema context keyword member property? valid body) count := by
  have counted : ∀ inner, Fits good policy inner →
      Counts select (.declare beforeStem .errorCount fun before =>
        (body inner).andThen (.stmts [.assign valid (.noErrorsSince before)])) count := by
    intro inner fits
    -- The subschema keeps its own count; the statements around it are neither reports nor exits.
    refine counts_declare selection (by decide) rfl fun before onBefore => ?_
    refine (onBody inner fits).andThen (counts_assign selection onValid fun name member => ?_)
    rwa [List.mem_singleton.mp member]
  cases property? with
  | none => exact counted _ ⟨fits.same, fits.onData⟩
  | some property =>
    have onFresh := selection.fresh Name.data.text (by decide)
    simp only [writeSubschema, Writer.bindData]
    refine .introduce (fun _ => rfl) (fun number => ?_) fun number =>
      counted _ ⟨fits.same, onFresh number⟩
    apply selection.other _ rfl rfl rfl
    intro text member
    rcases List.mem_cons.mp member with rfl | parent
    · exact onFresh number
    · rw [List.mem_singleton.mp parent]
      exact fits.onData

theorem counts_schemaDependency (trigger : String) :
    Counts select (writeSchemaDependency context valid trigger body) (count + perExit) := by
  have applied := counts_subschema selection fits onValid onBody Keyword.dependencies.name trigger
    none
  exact .andThen (counts_branches selection fits onValid trigger applied)
    (counts_settle selection fits onValid)

theorem counts_property (property : String) :
    Counts select (writeProperty context valid property body) (count + perExit) := by
  have applied := counts_subschema selection fits onValid onBody Keyword.properties.name property
    (some property)
  refine .andThen ?_ (counts_settle selection fits onValid)
  cases policy with
  | accumulateAll =>
    simp only [fits.same]
    exact .cond (fun yes => unselected_cond selection (fits.good_of_data rfl) yes none) applied
  | stopAtFirst =>
    simp only [fits.same]
    exact counts_branches selection fits onValid property applied

end Subschemas

end Checks

def census (policy : ErrorPolicy) (perReport perExit : Nat) (schema : Schema) : Nat :=
  schema.reports policy * perReport +
    (schema.applied.map fun node => node.reports policy * perReport + perExit).sum

def childCensus (policy : ErrorPolicy) (perReport perExit : Nat) (child : Schema) : Nat :=
  if child.alwaysValid then 0 else census policy perReport perExit child + perExit

theorem census_eq (policy : ErrorPolicy) (perReport perExit : Nat) (schema : Schema) :
    census policy perReport perExit schema =
      schema.reports policy * perReport +
        (schema.children.map (childCensus policy perReport perExit)).sum := by
  have below : ∀ child : Schema,
      (child.appliedChild.map fun node => node.reports policy * perReport + perExit).sum =
        childCensus policy perReport perExit child := by
    intro child
    unfold Schema.appliedChild childCensus
    split
    · rfl
    · rw [List.map_cons, List.sum_cons, census, Nat.add_right_comm]
  rw [census, Schema.sum_applied]
  simp only [below]

section Members

variable {good : String → Prop} {select : Stmt → Bool} {policy : ErrorPolicy}
  {perReport perExit : Nat} (selection : Selection good select policy perReport perExit)
  {context : Context} (fits : Fits good policy context) {valid : Name} (onValid : good valid.text)

def Counted (good : String → Prop) (select : Stmt → Bool) (policy : ErrorPolicy)
    (perReport perExit : Nat) (schema : Schema) : Prop :=
  ∀ context, Fits good policy context →
    Counts select (write context schema) (census policy perReport perExit schema)

include selection fits onValid

theorem counts_schemaDependencies (entries : List (String × Constraint Schema))
    (inner : ∀ trigger schema, (trigger, Constraint.schema schema) ∈ entries →
      Counted good select policy perReport perExit schema) :
    Counts select (writeSchemaDependencies context valid entries)
      ((entries.filterMap Dependencies.schemaAsked?).map
        (childCensus policy perReport perExit)).sum := by
  induction entries with
  | nil => exact .nothing
  | cons entry rest ih =>
    have later := ih fun trigger schema member =>
      inner trigger schema (List.mem_cons_of_mem _ member)
    obtain ⟨trigger, names | schema⟩ := entry
    · exact later
    · rw [List.filterMap_cons]
      by_cases reserved : trigger = Dependencies.reservedTrigger
      · simp only [writeSchemaDependencies, Dependencies.schemaAsked?, reserved, true_or, if_true]
        exact later
      · simp only [writeSchemaDependencies, Dependencies.schemaAsked?, reserved, false_or, if_false,
          List.map_cons, List.sum_cons]
        rw [childCensus]
        split
        · rw [Nat.zero_add]
          exact later
        · have here := counts_schemaDependency selection fits onValid
            (inner trigger schema List.mem_cons_self) trigger
          exact here.andThen later

theorem counts_properties (entries : List (String × Schema))
    (inner : ∀ entry ∈ entries, Counted good select policy perReport perExit entry.2) :
    Counts select (writeProperties context valid entries)
      ((entries.map Prod.snd).map (childCensus policy perReport perExit)).sum := by
  induction entries with
  | nil => exact .nothing
  | cons entry rest ih =>
    have later := ih fun entry member => inner entry (List.mem_cons_of_mem _ member)
    rw [List.map_cons, List.map_cons, List.sum_cons, writeProperties, childCensus]
    split
    · rw [Nat.zero_add]
      exact later
    · have here := counts_property selection fits onValid (inner entry List.mem_cons_self) entry.1
      exact here.andThen later

end Members

theorem map_snd_propertyHalf (entries : Dependencies) :
    (Dependencies.propertyHalf entries).map Prod.snd =
      entries.filterMap Dependencies.namesAsked? := by
  rw [Dependencies.propertyHalf, List.map_filterMap]
  congr 1
  funext entry
  obtain ⟨trigger, names | schema⟩ := entry
  · by_cases reserved : trigger = Dependencies.reservedTrigger <;>
      simp [Dependencies.namesAsked?, reserved]
  · rfl

/-- The selected statements of the checks of a schema can be counted on the schema. -/
theorem counted_write {good : String → Prop} {select : Stmt → Bool} {policy : ErrorPolicy}
    {perReport perExit : Nat} (selection : Selection good select policy perReport perExit)
    (schema : Schema) : Counted good select policy perReport perExit schema := by
  induction schema using Schema.induction with
  | bool accepts =>
    intro context fits
    cases accepts with
    | true =>
      have zero : census policy perReport perExit (.bool true) = 0 := by
        rw [census_eq]
        simp [Schema.reports, Schema.nameLists, Schema.children]
      rw [zero]
      exact .nothing
    | false =>
      have one : census policy perReport perExit (.bool false) = perReport := by
        rw [census_eq]
        simp [Schema.reports, Schema.nameLists, Schema.children]
      rw [one]
      apply counts_report selection fits
      intro text member
      rw [List.mem_singleton.mp member]
      exact fits.onData
  | object required? properties? dependencies? annotations properties dependencies =>
    intro context fits
    have onGuard (keyword : Keyword) (yes : Block) :
        select (.cond (guardTest context keyword) yes none) = false :=
      unselected_cond selection (fits.good_of_data rfl) yes none
    have onRequired : Counts select (writeRequiredKeyword context required?)
        ((required?.toList.map policy.reportsFor).sum * perReport) := by
      cases required? with
      | none =>
        rw [Option.toList, List.map_nil, List.sum_nil, Nat.zero_mul]
        exact .nothing
      | some names =>
        have checks := counts_required selection fits names
        rw [Option.toList, List.map_singleton, List.sum_singleton]
        exact .cond (onGuard .required) checks
    have onDependencies : Counts select (writeDependenciesKeyword context dependencies?)
        ((((dependencies?.getD []).filterMap Dependencies.namesAsked?).map policy.reportsFor).sum *
          perReport +
        (((dependencies?.getD []).filterMap Dependencies.schemaAsked?).map
          (childCensus policy perReport perExit)).sum) := by
      cases dependencies? with
      | none =>
        simp only [Option.getD, List.filterMap_nil, List.map_nil, List.sum_nil, Nat.zero_mul]
        exact .nothing
      | some entries =>
        rw [writeDependenciesKeyword, Option.getD, ← map_snd_propertyHalf]
        refine .fresh fun number => .cond (onGuard .dependencies) ?_
        apply counts_propertyDependencies selection fits
        exact counts_schemaDependencies selection fits
          (selection.fresh validStem (by decide) number) entries fun trigger schema member =>
            dependencies entries rfl trigger schema member
    have onProperties : Counts select (writePropertiesKeyword context properties?)
        (((properties?.getD []).map Prod.snd).map (childCensus policy perReport perExit)).sum := by
      cases properties? with
      | none => exact .nothing
      | some entries =>
        rw [writePropertiesKeyword]
        refine .fresh fun number => .cond (onGuard .properties) ?_
        exact counts_properties selection fits (selection.fresh validStem (by decide) number)
          entries fun entry member => properties entries rfl entry member
    have parts := onRequired.andThen (onDependencies.andThen onProperties)
    -- The census lists what the keywords ask for first and the children after that.
    rw [census_eq]
    simp only [Schema.reports, Schema.nameLists, Schema.children, List.map_append, List.sum_append,
      Nat.add_zero, Nat.add_mul]
    simp only [Nat.add_assoc] at parts ⊢
    exact parts

end SchemaCompiler.Emit
