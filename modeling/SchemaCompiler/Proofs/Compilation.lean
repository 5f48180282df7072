import SchemaCompiler.Proofs.Emit.Buffered
import SchemaCompiler.Proofs.Emit.Scope
import SchemaCompiler.Proofs.Run.Faithful
import SchemaCompiler.Proofs.Run.Scope
import SchemaCompiler.Proofs.Schema.Justified
import SchemaCompiler.Proofs.Schema.Outline

/-!
What compiled code reports. Every schema compiles, its code runs without a fault on every instance,
and what it reports are the violations that the schema itself gives the instance: all of them or
the first one, as the policy has it. That it runs without a fault can be seen from the code alone,
whose paths are all in scope.
-/

namespace SchemaCompiler.Validator

open Code Run

theorem stands_root (options : Options) (value : Json) :
    Emit.Stands (.root options .data) .initial (.start value) ⟨value, .root⟩ where
  bound := rfl
  old := NameSupply.not_pending_data _

theorem run_compiled (options : Options) (schema : Schema) (subject : Instance) :
    run (compiled options schema).code subject =
      .ok (options.policy.reported (schema.violationsOf options.ownProperties subject)) := by
  have reports := Emit.faithful subject.prototype schema (.root options .data) .initial
    (.start subject.value) ⟨subject.value, .root⟩ (stands_root options subject.value)
  exact reports.run_eq

theorem validate_compiled (options : Options) (schema : Schema) (subject : Instance) :
    (compiled options schema).validate subject =
      .ok (.ofViolations
        (options.policy.reported (schema.violationsOf options.ownProperties subject))) := by
  rw [validate, validateIn, run_compiled]
  rfl

theorem isValid_reported (policy : ErrorPolicy) (found : List Violation) :
    (Verdict.ofViolations (policy.reported found)).isValid = found.isEmpty := by
  cases policy <;> cases found <;> rfl

/-- Code that accumulates reports the violations of the schema, in their order. -/
theorem run_accumulateAll (own : Bool) (maxDepth : Nat) (schema : Schema) (subject : Instance) :
    ∃ validator, ofSchema ⟨own, .accumulateAll, maxDepth⟩ schema = .ok validator ∧
      run validator.code subject = .ok (schema.violationsOf own subject) := by
  refine ⟨_, ofSchema_eq ⟨own, .accumulateAll, maxDepth⟩ schema, ?_⟩
  exact run_compiled ⟨own, .accumulateAll, maxDepth⟩ schema subject

/-- Code that stops at the first violation reports the head of what accumulating code reports, and
both come to the same verdict. -/
theorem run_stopAtFirst (own : Bool) (maxDepth : Nat) (schema : Schema) (subject : Instance) :
    ∃ first every violations,
      ofSchema ⟨own, .stopAtFirst, maxDepth⟩ schema = .ok first ∧
      ofSchema ⟨own, .accumulateAll, maxDepth⟩ schema = .ok every ∧
      run every.code subject = .ok violations ∧
      run first.code subject = .ok (violations.take 1) ∧
      ∃ firstVerdict everyVerdict,
        first.validate subject = .ok firstVerdict ∧ every.validate subject = .ok everyVerdict ∧
        firstVerdict.isValid = everyVerdict.isValid := by
  let stopping : Options := ⟨own, .stopAtFirst, maxDepth⟩
  let accumulating : Options := ⟨own, .accumulateAll, maxDepth⟩
  refine ⟨compiled stopping schema, compiled accumulating schema, schema.violationsOf own subject,
    ofSchema_eq stopping schema, ofSchema_eq accumulating schema,
    run_compiled accumulating schema subject, run_compiled stopping schema subject,
    _, _, validate_compiled stopping schema subject, validate_compiled accumulating schema subject,
    ?_⟩
  rw [isValid_reported, isValid_reported]

theorem tidy_compiled (options : Options) (schema : Schema) :
    Emit.Tidy [.data .data] (Emit.write (.root options .data) schema) [.data .data] :=
  Emit.tidy_write (.root options .data) schema _ List.mem_cons_self

/-- Compiled code introduces no name twice and the root reference not at all. Along every path it
reads the root reference and what was written before, and so it meets no fault on any instance. -/
theorem wellScoped_ofSchema (options : Options) (schema : Schema) :
    ∃ validator, ofSchema options schema = .ok validator ∧
      (Block.introduced validator.code).Nodup ∧
      Name.data ∉ Block.introduced validator.code ∧
      (∀ before step later, Path validator.code (before ++ step :: later) →
        ∀ ref ∈ step.reads, ref = .data .data ∨ ∃ earlier ∈ before, ref ∈ earlier.writes) ∧
      ∀ subject, ∃ violations, run validator.code subject = .ok violations := by
  obtain ⟨leads, distinct⟩ := tidy_compiled options schema
  have inScope : AllInScope [.data .data] (compiled options schema).code := (leads _).allInScope
  refine ⟨compiled options schema, ofSchema_eq options schema, distinct.nodup .initial, ?_, ?_,
    run_of_allInScope inScope⟩
  · intro introduced
    exact NameSupply.not_pending_data _ (distinct.pending .initial _ introduced)
  · intro before step later path ref read
    rcases (inScope _ path).reads_written read with root | written
    · exact .inl (List.mem_singleton.mp root)
    · exact .inr written

theorem mem_of_mem_reported {policy : ErrorPolicy} {found : List Violation} {violation : Violation}
    (reported : violation ∈ policy.reported found) : violation ∈ found := by
  cases policy with
  | stopAtFirst => exact List.mem_of_mem_take reported
  | accumulateAll => exact reported

theorem ofDocument_eq_ok {options : Options} {document : Json} {validator : Validator}
    (compiles : ofDocument options document = .ok validator) :
    ∃ schema, Schema.ofJson options.maxDepth document = .ok schema ∧
      validator = compiled options schema := by
  obtain ⟨schema, read, made⟩ := Schema.bind_eq_ok compiles
  rw [ofSchema_eq] at made
  cases made
  exact ⟨schema, read, rfl⟩

theorem exists_verdict {options : Options} {document : Json} {validator : Validator}
    (compiles : ofDocument options document = .ok validator) (subject : Instance) :
    ∃ verdict, validator.validate subject = .ok verdict := by
  obtain ⟨schema, -, rfl⟩ := ofDocument_eq_ok compiles
  exact ⟨_, validate_compiled options schema subject⟩

/-- A document that compiles is compiled to the code of its outline. -/
theorem eq_compiled_outline {options : Options} {document : Json} {validator : Validator}
    (compiles : ofDocument options document = .ok validator) :
    validator = compiled options (Schema.outline document) := by
  obtain ⟨schema, read, rfl⟩ := ofDocument_eq_ok compiles
  have mirrors := Schema.mirrored options.maxDepth document .root 0 schema read
  rw [compiled, compiled, (Emit.writesLike_outline schema document mirrors).write]

/-- Everything reported is justified by the document and the instance: the paths lead to a part of
the document and to a value which fails it as the keyword and the parameters say. -/
theorem justified_of_ofDocument {options : Options} {document : Json} {validator : Validator}
    (distinct : document.hasDistinctKeys = true)
    (compiles : ofDocument options document = .ok validator) (subject : Instance) :
    ∃ violations, run validator.code subject = .ok violations ∧
      ∀ violation ∈ violations,
        Schema.Justified ⟨options.ownProperties, subject.prototype⟩ document subject.value
          violation := by
  obtain ⟨schema, read, rfl⟩ := ofDocument_eq_ok compiles
  refine ⟨_, run_compiled options schema subject, ?_⟩
  intro violation reported
  have found := mem_of_mem_reported reported
  exact Schema.justified_of_ofJson distinct read options.ownProperties subject violation found

section Order

def orderDocument : Json :=
  .obj [("properties", .obj [("order", .obj [("dependencies",
    .obj [("card", .arr [.str "holder", .str "address"])])])])]

def orderSchema : Schema :=
  .object { properties? := some [("order",
    .object { dependencies? := some [("card", .names ["holder", "address"])] })] }

def orderOptions : Options := { policy := .accumulateAll }

def orderInstance : Instance where
  value := .obj [("order", .obj [("card", .null), ("holder", .null)])]

theorem justified_order :
    orderDocument.hasDistinctKeys = true ∧
      ofDocument orderOptions orderDocument = .ok (compiled orderOptions orderSchema) ∧
      ∃ violation, run (compiled orderOptions orderSchema).code orderInstance = .ok [violation] ∧
        Schema.Justified ⟨false, []⟩ orderDocument orderInstance.value violation := by
  have distinct : orderDocument.hasDistinctKeys = true := by decide
  have compiles : ofDocument orderOptions orderDocument =
      .ok (compiled orderOptions orderSchema) := rfl
  have ran := run_compiled orderOptions orderSchema orderInstance
  obtain ⟨violations, reported, justified⟩ := justified_of_ofDocument distinct compiles orderInstance
  cases ran.symm.trans reported
  exact ⟨distinct, compiles, _, ran, justified _ List.mem_cons_self⟩

end Order

end SchemaCompiler.Validator
