import SchemaCompiler.Proofs.Code.Scope
import SchemaCompiler.Proofs.Emit.Writer

/-!
The scope of what schemas write. Every name comes from the supply and is introduced once, and all
that the checks of a schema need to be known before them is the data they look at. What they write
is not known after them, since any of it may stand in a branch; only the outcome of a subschema is,
which is assigned in both branches.
-/

namespace SchemaCompiler.Emit

open Code

/-- The names that the code introduces are different ones, and the supply has given them out. -/
structure Distinct (writer : Writer) : Prop where
  nodup : ∀ names, (Block.introduced (writer.code names)).Nodup
  pending : ∀ names, ∀ name ∈ Block.introduced (writer.code names), names.Pending name
  spent : ∀ names, ∀ name ∈ Block.introduced (writer.code names),
    ¬ (writer.after names).Pending name

namespace Distinct

variable {first second yes no : Writer}

theorem stmts {block : Block} (none : Block.introduced block = []) : Distinct (.stmts block) where
  nodup _ := by rw [Writer.code_stmts, none]; exact List.nodup_nil
  pending _ name member := by rw [Writer.code_stmts, none] at member; cases member
  spent _ name member := by rw [Writer.code_stmts, none] at member; cases member

theorem andThen (onFirst : Distinct first) (onSecond : Distinct second) :
    Distinct (first.andThen second) where
  nodup names := by
    rw [Writer.code_andThen, Block.introduced_append]
    refine List.nodup_append.mpr ⟨onFirst.nodup names, onSecond.nodup _, ?_⟩
    rintro name before _ later rfl
    exact onFirst.spent names name before (onSecond.pending _ name later)
  pending names name member := by
    rw [Writer.code_andThen, Block.introduced_append] at member
    rcases List.mem_append.mp member with before | later
    · exact onFirst.pending names name before
    · exact (onSecond.pending _ name later).of_precedes (first.grows names)
  spent names name member again := by
    rw [Writer.code_andThen, Block.introduced_append] at member
    rcases List.mem_append.mp member with before | later
    · exact onFirst.spent names name before (again.of_precedes (second.grows _))
    · exact onSecond.spent _ name later again

theorem introduced_cond (test : Expr) (names : NameSupply) :
    Block.introduced ((Writer.cond test yes).code names) = Block.introduced (yes.code names) :=
  List.append_nil _

theorem cond (test : Expr) (onYes : Distinct yes) : Distinct (.cond test yes) where
  nodup names := by rw [introduced_cond]; exact onYes.nodup names
  pending names := by rw [introduced_cond]; exact onYes.pending names
  spent names := by rw [introduced_cond]; exact onYes.spent names

theorem introduced_condElse (test : Expr) (names : NameSupply) :
    Block.introduced ((Writer.condElse test yes no).code names) =
      Block.introduced ((yes.andThen no).code names) := by
  rw [Writer.code_andThen, Block.introduced_append]
  exact List.append_nil _

theorem condElse (test : Expr) (onYes : Distinct yes) (onNo : Distinct no) :
    Distinct (.condElse test yes no) where
  nodup names := by rw [introduced_condElse]; exact (onYes.andThen onNo).nodup names
  pending names := by rw [introduced_condElse]; exact (onYes.andThen onNo).pending names
  spent names := by rw [introduced_condElse]; exact (onYes.andThen onNo).spent names

section Fresh

variable {stem : String} (proper : IsStem stem) {body : Name → Writer}
  (onBody : ∀ name, Distinct (body name))

include onBody

theorem fresh : Distinct (.fresh stem body) where
  nodup _ := (onBody _).nodup _
  pending names name member :=
    ((onBody _).pending _ name member).of_precedes (names.precedes_fresh stem)
  spent _ := (onBody _).spent _

include proper

theorem introduce {stmt : Name → Stmt} (introduces : ∀ name, (stmt name).introduced = [name]) :
    Distinct (.fresh stem fun name => (Writer.stmts [stmt name]).andThen (body name)) := by
  have introduced : ∀ names : NameSupply,
      Block.introduced ((Writer.fresh stem fun name =>
        (Writer.stmts [stmt name]).andThen (body name)).code names) =
      (names.fresh stem).1 ::
        Block.introduced ((body (names.fresh stem).1).code (names.fresh stem).2) := by
    intro names
    rw [Writer.code_fresh, Writer.code_andThen, Writer.code_stmts, Writer.after_stmts,
      List.singleton_append, Block.introduced, introduces, List.singleton_append]
  constructor
  · intro names
    rw [introduced]
    refine List.nodup_cons.mpr ⟨?_, (onBody _).nodup _⟩
    intro again
    exact names.not_pending_fresh proper ((onBody _).pending _ _ again)
  · intro names name member
    rw [introduced] at member
    rcases List.mem_cons.mp member with rfl | later
    · exact names.pending_fresh proper
    · exact ((onBody _).pending _ name later).of_precedes (names.precedes_fresh stem)
  · intro names name member again
    rw [introduced] at member
    rcases List.mem_cons.mp member with rfl | later
    · exact names.not_pending_fresh proper (again.of_precedes ((body _).grows _))
    · exact (onBody _).spent _ name later again

end Fresh

end Distinct

/-- Code that keeps to its scope: after it `post` is known, if `known` was before. -/
structure Tidy (known : List Ref) (writer : Writer) (post : List Ref) : Prop where
  leads : ∀ names, Leads known (writer.code names) post
  distinct : Distinct writer

namespace Tidy

variable {known middle post : List Ref} {writer first second yes no : Writer} {test : Expr}

theorem forget {fewer : List Ref} (tidy : Tidy known writer post) (less : fewer ⊆ post) :
    Tidy known writer fewer := ⟨fun names => (tidy.leads names).forget less, tidy.distinct⟩

theorem stmts {block : Block} (leads : Leads known block post)
    (none : Block.introduced block = []) : Tidy known (.stmts block) post :=
  ⟨fun _ => leads, .stmts none⟩

theorem nothing (known : List Ref) : Tidy known .nothing known := stmts (.nil known) rfl

theorem andThen (onFirst : Tidy known first middle) (onSecond : Tidy middle second post) :
    Tidy known (first.andThen second) post :=
  ⟨fun names => (onFirst.leads names).append (onSecond.leads _),
    onFirst.distinct.andThen onSecond.distinct⟩

theorem cond (reads : test.reads ⊆ known) (onYes : Tidy known yes known) :
    Tidy known (.cond test yes) known :=
  ⟨fun names => .cond reads (onYes.leads names) (.nil known), .cond test onYes.distinct⟩

theorem condElse (reads : test.reads ⊆ known) (onYes : Tidy known yes post)
    (onNo : Tidy known no post) : Tidy known (.condElse test yes no) post :=
  ⟨fun names => .cond reads (onYes.leads names) (onNo.leads _),
    .condElse test onYes.distinct onNo.distinct⟩

section Fresh

variable {stem : String} {body : Name → Writer}

theorem fresh (onBody : ∀ name, Tidy known (body name) post) : Tidy known (.fresh stem body) post :=
  ⟨fun _ => (onBody _).leads _, .fresh fun name => (onBody name).distinct⟩

theorem declare {value : Expr} (proper : IsStem stem) (reads : value.reads ⊆ known)
    (onBody : ∀ name, Tidy (.var name :: known) (body name) post) :
    Tidy known (.declare stem value body) post := by
  constructor
  · intro names
    exact .append (.wrote rfl reads List.mem_cons_self) ((onBody _).leads _)
  · exact .introduce proper (fun name => (onBody name).distinct) fun _ => rfl

theorem bindData {parent : Name} {property : String} (bound : .data parent ∈ known)
    (onBody : ∀ name, Tidy (.data name :: known) (body name) post) :
    Tidy known (.bindData parent property body) post := by
  have reads : [Ref.data parent] ⊆ known := List.cons_subset.mpr ⟨bound, List.nil_subset _⟩
  constructor
  · intro names
    exact .append (.wrote rfl reads List.mem_cons_self) ((onBody _).leads _)
  · exact .introduce isStem_data (fun name => (onBody name).distinct) fun _ => rfl

end Fresh

end Tidy

section Checks

variable {context : Context} {known : List Ref} (bound : .data context.data ∈ known)

theorem reads_missingCondition (context : Context) (names : List String) (missing : Name) :
    ∀ ref ∈ (missingCondition context names missing).reads, ref = .data context.data := by
  rw [missingCondition, Expr.reads_anyOf]
  induction names with
  | nil => intro ref read; cases read
  | cons name rest ih =>
    have first : (Expr.allOf [absent context name, .bind missing (.str name)]).reads =
        [.data context.data] := by
      rw [Expr.reads_allOf]
      rfl
    intro ref read
    rw [List.map_cons, Expr.readsAll, first] at read
    rcases List.mem_cons.mp read with here | later
    · exact here
    · exact ih ref later

theorem tidy_reportStmt (site : Site) (reads : site.reads ⊆ known) :
    Tidy known (.stmts [reportStmt context site]) known := by
  unfold reportStmt
  cases context.options.policy with
  | stopAtFirst => exact .stmts (.ending rfl reads known) rfl
  | accumulateAll =>
    have reports : Leads known [.report site] (known ++ []) := .step rfl reads
    rw [List.append_nil] at reports
    exact .stmts reports rfl

include bound

theorem data_subset : [Ref.data context.data] ⊆ known :=
  List.cons_subset.mpr ⟨bound, List.nil_subset known⟩

theorem guard_subset (keyword : Keyword) : (guardTest context keyword).reads ⊆ known :=
  data_subset bound

theorem present_subset (property : String) : (present context property).reads ⊆ known :=
  data_subset bound

theorem site_subset {params : List (String × ParamValue)} (keyword : Keyword)
    (reads : params.flatMap (fun (_, value) => value.reads) ⊆ known) :
    (keywordSite context keyword params).reads ⊆ known :=
  List.cons_subset.mpr ⟨bound, reads⟩

theorem missingCondition_subset (names : List String) (missing : Name) :
    (missingCondition context names missing).reads ⊆ known := by
  intro ref read
  rw [reads_missingCondition context names missing ref read]
  exact bound

theorem trigger_subset (trigger : String) (names : List String) (missing : Name) :
    (Expr.allOf [present context trigger, missingCondition context names missing]).reads ⊆
      known := by
  rw [Expr.reads_allOf, Expr.readsAll, Expr.readsAll, Expr.readsAll, List.append_nil]
  refine List.append_subset.mpr ⟨present_subset bound trigger, ?_⟩
  exact missingCondition_subset bound names missing

theorem tidy_missingChecks (keyword : Keyword) (params : List (String × ParamValue))
    (constant : params.flatMap (fun (_, value) => value.reads) = []) (names : List String) :
    Tidy known (.stmts (names.map (missingCheck context keyword params))) known := by
  have reads : ∀ name : String,
      (keywordSite context keyword
        (params ++ [(missingParam, .literal (.str name))])).reads ⊆ known := by
    intro name
    apply site_subset bound
    rw [List.flatMap_append, constant]
    exact List.nil_subset known
  induction names with
  | nil => exact .nothing known
  | cons name rest ih =>
    have check : Tidy known (.cond (absent context name) (.stmts [reportStmt context _])) known :=
      .cond (data_subset bound) (tidy_reportStmt _ (reads name))
    exact check.andThen ih

theorem tidy_firstMissing (keyword : Keyword) (params : List (String × ParamValue))
    (constant : params.flatMap (fun (_, value) => value.reads) = []) {condition : Expr}
    (test : condition.reads ⊆ known) {missing : Name} (declared : .var missing ∈ known)
    {rest : Writer} (onRest : Tidy known rest known) :
    Tidy known (writeFirstMissing context keyword params condition missing rest) known := by
  refine .condElse test (tidy_reportStmt _ (site_subset bound keyword ?_)) onRest
  rw [List.flatMap_append, constant]
  exact List.cons_subset.mpr ⟨declared, List.nil_subset known⟩

theorem tidy_required (names : List String) :
    Tidy known (writeRequired context names) known := by
  unfold writeRequired
  split
  · exact .nothing known
  · cases context.options.policy with
    | accumulateAll => exact tidy_missingChecks bound .required [] rfl names
    | stopAtFirst =>
      refine .declare isStem_missing (List.nil_subset known) fun missing => ?_
      have still : .data context.data ∈ .var missing :: known := List.mem_cons_of_mem _ bound
      have checked := tidy_firstMissing still .required [] rfl
        (missingCondition_subset still names missing) List.mem_cons_self (.nothing _)
      exact checked.forget (List.subset_cons_self _ _)

theorem tidy_propertyDependency {missing : Name} (declared : .var missing ∈ known)
    (trigger : String) (names : List String) {rest : Writer} (onRest : Tidy known rest known) :
    Tidy known (writePropertyDependency context missing trigger names rest) known := by
  unfold writePropertyDependency
  split
  · exact onRest
  · cases context.options.policy with
    | accumulateAll =>
      have checks := tidy_missingChecks bound .dependencies (triggerParams trigger names) rfl names
      exact .andThen (.cond (present_subset bound trigger) checks) onRest
    | stopAtFirst =>
      exact tidy_firstMissing bound .dependencies _ rfl (trigger_subset bound trigger names missing)
        declared onRest

theorem tidy_triggers {missing : Name} (declared : .var missing ∈ known) {rest : Writer}
    (onRest : Tidy known rest known) (triggers : List (String × List String)) :
    Tidy known (writeTriggers context missing rest triggers) known := by
  induction triggers with
  | nil => exact onRest
  | cons entry more ih => exact tidy_propertyDependency bound declared entry.1 entry.2 ih

theorem tidy_propertyDependencies (triggers : List (String × List String)) {rest : Writer}
    (onRest : ∀ known, .data context.data ∈ known → Tidy known rest known) :
    Tidy known (writePropertyDependencies context triggers rest) known := by
  unfold writePropertyDependencies
  split
  · exact onRest known bound
  · refine .declare isStem_missing (List.nil_subset known) fun missing => ?_
    have still : .data context.data ∈ .var missing :: known := List.mem_cons_of_mem _ bound
    have checked := tidy_triggers still List.mem_cons_self (onRest _ still) triggers
    exact checked.forget (List.subset_cons_self _ _)

end Checks

/-- Both branches assign the outcome of a subschema, which then is settled. -/
theorem Tidy.andThen_settle {context : Context} {known : List Ref} {branches : Writer}
    {valid : Name} (tidy : Tidy known branches (.var valid :: known)) :
    Tidy known (branches.andThen (writeSettle context valid)) known := by
  have forgets : known ⊆ .var valid :: known := List.subset_cons_self _ _
  unfold writeSettle
  cases context.options.policy with
  | accumulateAll => exact (tidy.forget forgets).andThen (.nothing known)
  | stopAtFirst =>
    have test : (Expr.negate (.var valid)).reads ⊆ .var valid :: known :=
      List.cons_subset.mpr ⟨List.mem_cons_self, List.nil_subset _⟩
    have leaves : Tidy (.var valid :: known) (.stmts [.ret false]) (.var valid :: known) :=
      .stmts (.ending rfl (List.nil_subset _) _) rfl
    exact (tidy.andThen (.cond test leaves)).forget forgets

theorem tidy_branches {context : Context} {known : List Ref} {valid : Name} {applied : Writer}
    (bound : .data context.data ∈ known) (property : String)
    (onApplied : Tidy known applied (.var valid :: known)) :
    Tidy known (.condElse (present context property) applied (.stmts [.assign valid (.bool true)]))
      (.var valid :: known) := by
  have skipped : Tidy known (.stmts [.assign valid (.bool true)]) (.var valid :: known) :=
    .stmts (.wrote rfl (List.nil_subset known) List.mem_cons_self) rfl
  exact .condElse (present_subset bound property) onApplied skipped

section Subschemas

variable {context : Context} {known : List Ref} (bound : .data context.data ∈ known)
  {body : Context → Writer}
  (onBody : ∀ inner known, .data inner.data ∈ known → Tidy known (body inner) known)

include bound onBody

theorem tidy_subschema (keyword member : String) (property? : Option String) (valid : Name) :
    Tidy known (writeSubschema context keyword member property? valid body)
      (.var valid :: known) := by
  have counted : ∀ (inner : Context) (known : List Ref), .data inner.data ∈ known →
      Tidy known (.declare beforeStem .errorCount fun before =>
        (body inner).andThen (.stmts [.assign valid (.noErrorsSince before)]))
        (.var valid :: known) := by
    intro inner known bound
    refine .declare isStem_before (List.nil_subset known) fun before => ?_
    have checks := onBody inner (.var before :: known) (List.mem_cons_of_mem _ bound)
    have assigned : Leads (.var before :: known) [.assign valid (.noErrorsSince before)]
        (.var valid :: .var before :: known) :=
      .wrote rfl (List.cons_subset_cons _ (List.nil_subset known)) List.mem_cons_self
    refine checks.andThen (.stmts (assigned.forget ?_) rfl)
    exact List.cons_subset_cons _ (List.subset_cons_self _ _)
  cases property? with
  | none => exact counted (context.descend keyword member none) known bound
  | some property =>
    refine .bindData bound fun data => ?_
    have inside := counted (context.descend keyword member (some data)) (.data data :: known)
      List.mem_cons_self
    exact inside.forget
      (List.cons_subset_cons _ (List.subset_cons_self _ _))

theorem tidy_schemaDependency (valid : Name) (trigger : String) :
    Tidy known (writeSchemaDependency context valid trigger body) known := by
  have applied := tidy_subschema bound onBody Keyword.dependencies.name trigger none valid
  exact (tidy_branches bound trigger applied).andThen_settle

/-- When every failure is reported, no else branch assigns the outcome, and nothing reads it. -/
theorem tidy_property (valid : Name) (property : String) :
    Tidy known (writeProperty context valid property body) known := by
  have applied := tidy_subschema bound onBody Keyword.properties.name property (some property) valid
  unfold writeProperty
  cases policy : context.options.policy with
  | accumulateAll =>
    have inside := applied.forget (List.subset_cons_self _ _)
    rw [writeSettle, policy]
    exact .andThen (.cond (present_subset bound property) inside) (.nothing known)
  | stopAtFirst => exact (tidy_branches bound property applied).andThen_settle

end Subschemas

section Members

variable {context : Context} {known : List Ref} (bound : .data context.data ∈ known) (valid : Name)

include bound

theorem tidy_schemaDependencies (entries : List (String × Constraint Schema))
    (inner : ∀ trigger schema, (trigger, Constraint.schema schema) ∈ entries →
      ∀ inner known, .data inner.data ∈ known → Tidy known (write inner schema) known) :
    Tidy known (writeSchemaDependencies context valid entries) known := by
  induction entries with
  | nil => exact .nothing known
  | cons entry rest ih =>
    have later := ih fun trigger schema member =>
      inner trigger schema (List.mem_cons_of_mem _ member)
    obtain ⟨trigger, names | schema⟩ := entry
    · exact later
    · unfold writeSchemaDependencies
      split
      · exact later
      · have here := tidy_schemaDependency bound (inner trigger schema List.mem_cons_self) valid
          trigger
        exact here.andThen later

theorem tidy_properties (entries : List (String × Schema))
    (inner : ∀ entry ∈ entries,
      ∀ inner known, .data inner.data ∈ known → Tidy known (write inner entry.2) known) :
    Tidy known (writeProperties context valid entries) known := by
  induction entries with
  | nil => exact .nothing known
  | cons entry rest ih =>
    have later := ih fun entry member => inner entry (List.mem_cons_of_mem _ member)
    unfold writeProperties
    split
    · exact later
    · have here := tidy_property bound (inner entry List.mem_cons_self) valid entry.1
      exact here.andThen later

end Members

/-- The checks of a schema need nothing to be known but the data they look at. -/
theorem tidy_write (context : Context) (schema : Schema) (known : List Ref)
    (bound : .data context.data ∈ known) : Tidy known (write context schema) known := by
  induction schema using Schema.induction generalizing context known with
  | bool accepts =>
    cases accepts with
    | true => exact .nothing known
    | false => exact tidy_reportStmt (falseSite context) (data_subset bound)
  | object required? properties? dependencies? annotations properties dependencies =>
    have onRequired : Tidy known (writeRequiredKeyword context required?) known := by
      cases required? with
      | none => exact .nothing known
      | some names => exact .cond (guard_subset bound .required) (tidy_required bound names)
    have onDependencies : Tidy known (writeDependenciesKeyword context dependencies?) known := by
      cases dependencies? with
      | none => exact .nothing known
      | some entries =>
        rw [writeDependenciesKeyword]
        refine .fresh fun valid => .cond (guard_subset bound .dependencies) ?_
        refine tidy_propertyDependencies bound _ fun known bound => ?_
        exact tidy_schemaDependencies bound valid entries fun trigger schema member inner known =>
          dependencies entries rfl trigger schema member inner known
    have onProperties : Tidy known (writePropertiesKeyword context properties?) known := by
      cases properties? with
      | none => exact .nothing known
      | some entries =>
        rw [writePropertiesKeyword]
        refine .fresh fun valid => .cond (guard_subset bound .properties) ?_
        exact tidy_properties bound valid entries fun entry member inner known =>
          properties entries rfl entry member inner known
    exact onRequired.andThen (onDependencies.andThen onProperties)

end SchemaCompiler.Emit
