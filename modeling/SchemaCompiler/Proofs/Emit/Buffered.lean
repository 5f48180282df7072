import SchemaCompiler.Proofs.Code.Appending
import SchemaCompiler.Proofs.Emit.Writer
import SchemaCompiler.Validator

/-!
Emission into a buffer appends what the writers write, at the place that is open innermost. Else
branches that a keyword leaves open are closed with its guard, so that nothing stays open.
-/

namespace SchemaCompiler.Code

open Emit (Writer)

namespace Buffer

def extend (buffer : Buffer) (writer : Writer) : Buffer :=
  { buffer.pushAll (writer.code buffer.names) with names := writer.after buffer.names }

theorem extend_eq_append (buffer : Buffer) (writer : Writer) :
    buffer.extend writer =
      { buffer.append (writer.code buffer.names) with names := writer.after buffer.names } := by
  rw [extend, pushAll_eq_append]

@[simp] theorem depth_extend (buffer : Buffer) (writer : Writer) :
    (buffer.extend writer).depth = buffer.depth := by
  rw [extend_eq_append]
  exact depth_append buffer (writer.code buffer.names)

@[simp] theorem depth_declare (buffer : Buffer) (stem : String) (value : Expr) :
    (buffer.declare stem value).2.depth = buffer.depth := depth_push _ _

theorem extend_stmt (buffer : Buffer) (stmt : Stmt) :
    buffer.extend (.stmts [stmt]) = buffer.push stmt := by
  have names := names_append buffer [stmt]
  rw [extend_eq_append, push_eq_append, Writer.code_stmts, Writer.after_stmts, ← names]

theorem extend_andThen (buffer : Buffer) (first second : Writer) :
    buffer.extend (first.andThen second) = (buffer.extend first).extend second := by
  simp only [extend_eq_append, Writer.code_andThen, Writer.after_andThen, append_withNames,
    append_append]

theorem extend_fresh (buffer : Buffer) (stem : String) (body : Name → Writer) :
    buffer.extend (.fresh stem body) =
      (buffer.fresh stem).2.extend (body (buffer.fresh stem).1) := by
  simp only [extend_eq_append, fresh, Writer.code_fresh, Writer.after_fresh, append_withNames]

theorem extend_declare (buffer : Buffer) (stem : String) (value : Expr) (body : Name → Writer) :
    buffer.extend (.declare stem value body) =
      (buffer.declare stem value).2.extend (body (buffer.declare stem value).1) := by
  rw [Writer.declare, extend_fresh, extend_andThen, extend_stmt]
  rfl

theorem extend_bindData (buffer : Buffer) (parent : Name) (property : String)
    (body : Name → Writer) :
    buffer.extend (.bindData parent property body) =
      (buffer.bindData parent property).2.extend (body (buffer.bindData parent property).1) := by
  rw [Writer.bindData, extend_fresh, extend_andThen, extend_stmt]
  rfl

theorem closeIf_extend (buffer : Buffer) (test : Expr) (yes : Writer) :
    ((buffer.openIf test).extend yes).closeIf = buffer.extend (.cond test yes) := by
  have names : (buffer.openIf test).names = buffer.names := rfl
  rw [extend_eq_append, closeIf_withNames, closeIf_append_openIf, names, extend_eq_append]
  rfl

theorem closeIf_extend_openElse (buffer : Buffer) (test : Expr) (yes no : Writer) :
    ((((buffer.openIf test).extend yes).openElse).extend no).closeIf =
      buffer.extend (.condElse test yes no) := by
  have names : (buffer.openIf test).names = buffer.names := rfl
  simp only [extend_eq_append, openElse_withNames, append_withNames, closeIf_withNames,
    closeIf_append_openElse, names]
  rfl

theorem repeat_succ (step : α → α) (count : Nat) (start : α) :
    Nat.repeat step (count + 1) start = Nat.repeat step count (step start) := by
  induction count with
  | zero => rfl
  | succ count ih => exact congrArg step ih

theorem closeTo_of_lt (buffer : Buffer) {depth : Nat} (deeper : depth < buffer.depth) :
    buffer.closeTo depth = buffer.closeIf.closeTo depth := by
  have steps : buffer.depth - depth = buffer.closeIf.depth - depth + 1 := by
    rw [depth_closeIf]
    omega
  rw [closeTo, steps, repeat_succ, closeTo]

theorem closeTo_of_le (buffer : Buffer) {depth : Nat} (shallow : buffer.depth ≤ depth) :
    buffer.closeTo depth = buffer := by
  rw [closeTo, Nat.sub_eq_zero_of_le shallow]
  rfl

theorem closeTo_extend (buffer : Buffer) (test : Expr) (yes : Writer) :
    ((buffer.openIf test).extend yes).closeTo buffer.depth = buffer.extend (.cond test yes) := by
  have deeper : buffer.depth < ((buffer.openIf test).extend yes).depth := by
    rw [depth_extend, depth_openIf]
    exact Nat.lt_succ_self _
  rw [closeTo_of_lt _ deeper, closeIf_extend]
  exact closeTo_of_le _ (Nat.le_of_eq (depth_extend _ _))

end Buffer

end SchemaCompiler.Code

namespace SchemaCompiler.Emit

open Code

theorem report_eq_extend (context : Context) (site : Site) (buffer : Buffer) :
    report context site buffer = buffer.extend (.stmts [reportStmt context site]) := by
  rw [Buffer.extend_stmt, report, reportStmt]
  cases context.options.policy <;> rfl

theorem reportEachMissing_eq_extend (context : Context) (keyword : Keyword)
    (params : List (String × ParamValue)) (names : List String) (buffer : Buffer) :
    reportEachMissing context keyword params names buffer =
      buffer.extend (.stmts (names.map (missingCheck context keyword params))) := by
  induction names generalizing buffer with
  | nil => rfl
  | cons name rest ih =>
    simp only [reportEachMissing, ih, report_eq_extend, Buffer.closeIf_extend]
    rw [← Buffer.extend_andThen]
    rfl

/-- A check left open on its else branch, closed after what follows it. -/
theorem closeTo_reportFirstMissing (context : Context) (keyword : Keyword)
    (params : List (String × ParamValue)) (condition : Expr) (missing : Name) (rest : Writer)
    {depth : Nat} (buffer : Buffer) (inside : depth ≤ buffer.depth) :
    ((reportFirstMissing context keyword params condition missing buffer).extend rest).closeTo
        depth =
      (buffer.extend (writeFirstMissing context keyword params condition missing rest)).closeTo
        depth := by
  simp only [reportFirstMissing, report_eq_extend]
  rw [Buffer.closeTo_of_lt, Buffer.closeIf_extend_openElse]
  · rfl
  · rw [Buffer.depth_extend, Buffer.depth_openElse, Buffer.depth_extend, Buffer.depth_openIf]
    omega

theorem closeTo_emitRequired (context : Context) (names : List String) {depth : Nat}
    (buffer : Buffer) (inside : depth ≤ buffer.depth) :
    (emitRequired context names buffer).closeTo depth =
      (buffer.extend (writeRequired context names)).closeTo depth := by
  unfold emitRequired writeRequired
  split
  · rfl
  · cases context.options.policy with
    | accumulateAll => simp only [reportEachMissing_eq_extend]
    | stopAtFirst =>
      simp only [Buffer.extend_declare]
      apply closeTo_reportFirstMissing context .required [] _ _ .nothing
      rw [Buffer.depth_declare]
      exact inside

theorem closeTo_emitPropertyDependency (context : Context) (missing : Name) (trigger : String)
    (names : List String) (rest : Writer) {depth : Nat} (buffer : Buffer)
    (inside : depth ≤ buffer.depth) :
    ((emitPropertyDependency context missing trigger names buffer).extend rest).closeTo depth =
      (buffer.extend (writePropertyDependency context missing trigger names rest)).closeTo
        depth := by
  unfold emitPropertyDependency writePropertyDependency
  split
  · rfl
  · cases context.options.policy with
    | accumulateAll =>
      simp only [reportEachMissing_eq_extend, Buffer.closeIf_extend, Buffer.extend_andThen]
    | stopAtFirst => exact closeTo_reportFirstMissing context .dependencies _ _ _ rest buffer inside

theorem depth_emitPropertyDependency (context : Context) (missing : Name) (trigger : String)
    (names : List String) (buffer : Buffer) :
    buffer.depth ≤ (emitPropertyDependency context missing trigger names buffer).depth := by
  unfold emitPropertyDependency
  split
  · exact Nat.le_refl _
  · cases context.options.policy with
    | accumulateAll =>
      simp only [reportEachMissing_eq_extend, Buffer.closeIf_extend, Buffer.depth_extend]
      exact Nat.le_refl _
    | stopAtFirst =>
      simp only [reportFirstMissing, report_eq_extend, Buffer.depth_openElse, Buffer.depth_extend,
        Buffer.depth_openIf]
      exact Nat.le_succ _

theorem closeTo_emitTriggers (context : Context) (missing : Name) (rest : Writer)
    (triggers : List (String × List String)) {depth : Nat} (buffer : Buffer)
    (inside : depth ≤ buffer.depth) :
    ((triggers.foldl (fun buffer (trigger, names) =>
        emitPropertyDependency context missing trigger names buffer) buffer).extend rest).closeTo
        depth =
      (buffer.extend (writeTriggers context missing rest triggers)).closeTo depth := by
  induction triggers generalizing buffer with
  | nil => rfl
  | cons entry more ih =>
    obtain ⟨trigger, names⟩ := entry
    have deeper := depth_emitPropertyDependency context missing trigger names buffer
    rw [List.foldl_cons, ih _ (Nat.le_trans inside deeper)]
    exact closeTo_emitPropertyDependency context missing trigger names _ buffer inside

theorem closeTo_emitPropertyDependencies (context : Context)
    (triggers : List (String × List String)) (rest : Writer) {depth : Nat} (buffer : Buffer)
    (inside : depth ≤ buffer.depth) :
    ((emitPropertyDependencies context triggers buffer).extend rest).closeTo depth =
      (buffer.extend (writePropertyDependencies context triggers rest)).closeTo depth := by
  unfold emitPropertyDependencies writePropertyDependencies
  split
  · rfl
  · simp only [Buffer.extend_declare]
    apply closeTo_emitTriggers
    rw [Buffer.depth_declare]
    exact inside

theorem settle_eq_extend (context : Context) (valid : Name) (buffer : Buffer) :
    settle context valid buffer = buffer.extend (writeSettle context valid) := by
  unfold settle writeSettle
  cases context.options.policy with
  | accumulateAll => rfl
  | stopAtFirst =>
    rw [← Buffer.extend_stmt, Buffer.closeIf_extend]
    rfl

/-- What was written inside a subschema stands between its entrance and its end. -/
theorem leave_enter_eq_extend (context : Context) (keyword member : String)
    (property? : Option String) (valid : Name) (body : Context → Writer) (buffer : Buffer) :
    leave (enter context keyword member property? buffer) valid
        ((enter context keyword member property? buffer).buffer.extend
          (body (enter context keyword member property? buffer).context)) =
      buffer.extend (writeSubschema context keyword member property? valid body) := by
  cases property? with
  | none =>
    simp only [enter, leave, writeSubschema, Buffer.assign, Buffer.extend_declare,
      Buffer.extend_andThen, Buffer.extend_stmt]
  | some property =>
    simp only [enter, leave, writeSubschema, Buffer.assign, Buffer.extend_bindData,
      Buffer.extend_declare, Buffer.extend_andThen, Buffer.extend_stmt]

theorem emitRequiredKeyword_eq_extend (context : Context) (required? : Option (List String))
    (buffer : Buffer) :
    emitRequiredKeyword context required? buffer =
      buffer.extend (writeRequiredKeyword context required?) := by
  cases required? with
  | none => rfl
  | some names =>
    simp only [emitRequiredKeyword, closeGuard, openGuard]
    rw [closeTo_emitRequired _ _ _ (Nat.le_succ _), Buffer.closeTo_extend]
    rfl

section Members

variable (context : Context) (valid : Name)

theorem emitSchemaDependencies_eq_extend (entries : List (String × Constraint Schema))
    (inner : ∀ trigger schema, (trigger, Constraint.schema schema) ∈ entries →
      ∀ context buffer, emit context schema buffer = buffer.extend (write context schema))
    (buffer : Buffer) :
    emitSchemaDependencies context valid entries buffer =
      buffer.extend (writeSchemaDependencies context valid entries) := by
  induction entries generalizing buffer with
  | nil => rfl
  | cons entry rest ih =>
    have later := ih fun trigger schema member => inner trigger schema (List.mem_cons_of_mem _ member)
    obtain ⟨trigger, names | schema⟩ := entry
    · exact later buffer
    · unfold emitSchemaDependencies writeSchemaDependencies
      split
      · exact later buffer
      · have body := inner trigger schema List.mem_cons_self
        have applied := leave_enter_eq_extend context Keyword.dependencies.name trigger none valid
          (fun inner => write inner schema) (buffer.openIf (present context trigger))
        simp only [later, body, applied, settle_eq_extend, Buffer.assign, ← Buffer.extend_stmt,
          Buffer.closeIf_extend_openElse, Buffer.extend_andThen, writeSchemaDependency]

theorem emitProperties_eq_extend (entries : List (String × Schema))
    (inner : ∀ entry ∈ entries,
      ∀ context buffer, emit context entry.2 buffer = buffer.extend (write context entry.2))
    (buffer : Buffer) :
    emitProperties context valid entries buffer =
      buffer.extend (writeProperties context valid entries) := by
  induction entries generalizing buffer with
  | nil => rfl
  | cons entry rest ih =>
    have later := ih fun entry member => inner entry (List.mem_cons_of_mem _ member)
    have body := inner entry List.mem_cons_self
    obtain ⟨property, schema⟩ := entry
    unfold emitProperties writeProperties
    split
    · exact later buffer
    · have applied := leave_enter_eq_extend context Keyword.properties.name property
        (some property) valid (fun inner => write inner schema)
        (buffer.openIf (present context property))
      simp only [later, body, applied, settle_eq_extend, writeProperty, Buffer.extend_andThen]
      cases context.options.policy with
      | accumulateAll => simp only [Buffer.closeIf_extend]
      | stopAtFirst =>
        simp only [Buffer.assign, ← Buffer.extend_stmt, Buffer.closeIf_extend_openElse]

theorem emitDependenciesKeyword_eq_extend
    (dependencies? : Option (List (String × Constraint Schema)))
    (inner : ∀ entries, dependencies? = some entries →
      ∀ trigger schema, (trigger, Constraint.schema schema) ∈ entries →
        ∀ context buffer, emit context schema buffer = buffer.extend (write context schema))
    (buffer : Buffer) :
    emitDependenciesKeyword context dependencies? buffer =
      buffer.extend (writeDependenciesKeyword context dependencies?) := by
  cases dependencies? with
  | none => rfl
  | some entries =>
    simp only [emitDependenciesKeyword, writeDependenciesKeyword, closeGuard]
    rw [emitSchemaDependencies_eq_extend _ _ entries (inner entries rfl),
      closeTo_emitPropertyDependencies _ _ _ _ (Nat.le_succ _), Buffer.extend_fresh]
    exact Buffer.closeTo_extend (buffer.fresh validStem).2 _ _

theorem emitPropertiesKeyword_eq_extend (properties? : Option (List (String × Schema)))
    (inner : ∀ entries, properties? = some entries → ∀ entry ∈ entries,
      ∀ context buffer, emit context entry.2 buffer = buffer.extend (write context entry.2))
    (buffer : Buffer) :
    emitPropertiesKeyword context properties? buffer =
      buffer.extend (writePropertiesKeyword context properties?) := by
  cases properties? with
  | none => rfl
  | some entries =>
    simp only [emitPropertiesKeyword, writePropertiesKeyword, closeGuard]
    rw [emitProperties_eq_extend _ _ entries (inner entries rfl), Buffer.extend_fresh]
    exact Buffer.closeTo_extend (buffer.fresh validStem).2 _ _

end Members

/-- Emission appends what is written, whatever the buffer holds already. -/
theorem emit_eq_extend (context : Context) (schema : Schema) (buffer : Buffer) :
    emit context schema buffer = buffer.extend (write context schema) := by
  induction schema using Schema.induction generalizing context buffer with
  | bool accepts =>
    cases accepts with
    | true => rfl
    | false => exact report_eq_extend context (falseSite context) buffer
  | object required? properties? dependencies? annotations properties dependencies =>
    have onDependencies := emitDependenciesKeyword_eq_extend context dependencies?
      fun entries given trigger schema member context buffer =>
        dependencies entries given trigger schema member context buffer
    have onProperties := emitPropertiesKeyword_eq_extend context properties?
      fun entries given entry member context buffer =>
        properties entries given entry member context buffer
    simp only [emit, write, Buffer.extend_andThen, emitRequiredKeyword_eq_extend, onDependencies,
      onProperties]

theorem emit_eq_append (context : Context) (schema : Schema) (buffer : Buffer) :
    emit context schema buffer =
      { buffer.append ((write context schema).code buffer.names) with
        names := (write context schema).after buffer.names } := by
  rw [emit_eq_extend, Buffer.extend_eq_append]

theorem depth_emit (context : Context) (schema : Schema) (buffer : Buffer) :
    (emit context schema buffer).depth = buffer.depth := by
  rw [emit_eq_extend, Buffer.depth_extend]

end SchemaCompiler.Emit

namespace SchemaCompiler.Validator

open Code Emit

/-- The validator of a schema: what the schema writes while all names are still to come. -/
def compiled (options : Options) (schema : Schema) : Validator :=
  ⟨(write (.root options .data) schema).code .initial, options⟩

/-- Every schema compiles, since no conditional is left open. -/
theorem ofSchema_eq (options : Options) (schema : Schema) :
    ofSchema options schema = .ok (compiled options schema) := by
  have closed : (emit (.root options .data) schema .empty).depth = 0 := depth_emit _ _ _
  have root := congrArg Buffer.root (emit_eq_append (.root options .data) schema .empty)
  rw [ofSchema, Buffer.finish, if_pos closed, root]
  rfl

/-- The only faults of compilation are those of reading. -/
theorem ofDocument_eq_error_iff (options : Options) (document : Json) (fault : CompileFault) :
    ofDocument options document = .error fault ↔
      Schema.ofJson options.maxDepth document = .error fault := by
  cases read : Schema.ofJson options.maxDepth document with
  | error found => simp only [ofDocument, read, bind, Except.bind, Except.error.injEq]
  | ok schema => simp only [ofDocument, read, bind, Except.bind, ofSchema_eq, reduceCtorEq]

/-- Emission lengthens the branch that is open innermost, or the root, and changes nothing else of
what was written before; by which code depends on the schema, its context and the names still to
come. So every schema compiles, and a document that can be read compiles. -/
theorem emission_in_place :
    (∀ context schema, ∃ (code : NameSupply → Block) (after : NameSupply → NameSupply),
      ∀ buffer : Buffer,
        emit context schema buffer =
          { buffer.append (code buffer.names) with names := after buffer.names } ∧
        (emit context schema buffer).depth = buffer.depth) ∧
      (∀ options schema, ∃ validator, ofSchema options schema = .ok validator) ∧
      ∀ options document fault, ofDocument options document = .error fault ↔
        Schema.ofJson options.maxDepth document = .error fault := by
  refine ⟨?_, ?_, ofDocument_eq_error_iff⟩
  · intro context schema
    refine ⟨(write context schema).code, (write context schema).after, ?_⟩
    intro buffer
    exact ⟨emit_eq_append context schema buffer, depth_emit context schema buffer⟩
  · intro options schema
    exact ⟨compiled options schema, ofSchema_eq options schema⟩

end SchemaCompiler.Validator
