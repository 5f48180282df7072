import SchemaCompiler.Proofs.Code.Newlines
import SchemaCompiler.Proofs.Emit.Buffered
import SchemaCompiler.Proofs.Emit.Census

/-!
The shape of compiled code. How often it reports and where it ends the validation can be counted on
the schema, for either policy; and how many lines it takes can be counted on the code.
-/

namespace SchemaCompiler

namespace Code

def Stmt.returns (valid : Bool) : Stmt → Bool
  | ret answer => answer == valid
  | _ => false

def Stmt.breaks (stmt : Stmt) : Bool := !decide (∀ text ∈ stmt.own, OneLine text)

theorem Stmt.breaks_eq_false_iff (stmt : Stmt) :
    stmt.breaks = false ↔ ∀ text ∈ stmt.own, OneLine text := by
  rw [breaks, Bool.not_eq_false', decide_eq_true_iff]

theorem Stmt.unbroken_of_toNat {stmt : Stmt} (none : stmt.breaks.toNat = 0) :
    ∀ text ∈ stmt.own, OneLine text :=
  stmt.breaks_eq_false_iff.mp (Bool.toNat_eq_zero.mp none)

theorem Block.unbroken_of_tally (block : Block) (none : Block.tally Stmt.breaks block = 0) :
    Block.Unbroken block := by
  induction block using Block.induction with
  | nil =>
    intro text member
    cases member
  | step stmt rest plain ih =>
    have here : stmt.breaks.toNat = 0 := by
      cases stmt with
      | cond => simp [Stmt.isCond] at plain
      | _ => exact Nat.eq_zero_of_add_eq_zero_right none
    intro text member
    rw [Block.verbatim, Stmt.verbatim_of_not_cond plain] at member
    rcases List.mem_append.mp member with inStmt | inRest
    · exact Stmt.unbroken_of_toNat here text inStmt
    · exact ih (Nat.eq_zero_of_add_eq_zero_left none) text inRest
  | cond test yes no rest inYes inNo inRest =>
    simp only [Block.tally, Stmt.tally_cond, Nat.add_eq_zero_iff] at none
    obtain ⟨⟨⟨here, onYes⟩, onNo⟩, onRest⟩ := none
    intro text member
    simp only [Block.verbatim, Stmt.verbatim_cond, List.mem_append] at member
    rcases member with ((inTest | inside) | inside) | inside
    · exact Stmt.unbroken_of_toNat here text inTest
    · exact inYes onYes text inside
    · exact inNo onNo text inside
    · exact inRest onRest text inside

end Code

namespace Emit

open Code

theorem vocabulary_any : Vocabulary fun _ => True := ⟨fun _ _ _ => trivial, fun _ _ => trivial⟩

theorem vocabulary_oneLine : Vocabulary OneLine where
  fresh := by
    intro stem listed number
    have onStem : OneLine stem := by
      have stems : ∀ stem ∈ [missingStem, validStem, beforeStem, Name.data.text], OneLine stem := by
        decide
      exact stems stem listed
    exact (OneLine.append_iff _ _).mpr ⟨onStem, .nat number⟩
  key := by decide

theorem selection_breaks (policy : ErrorPolicy) : Selection OneLine Stmt.breaks policy 0 0 where
  toVocabulary := vocabulary_oneLine
  report := by
    intro context site same onSite
    have unbroken : (reportStmt context site).breaks = false := by
      rw [Stmt.breaks_eq_false_iff, reportStmt]
      cases context.options.policy <;> exact onSite
    rw [unbroken, Bool.toNat_false]
  exit _ := rfl
  stay _ := rfl
  other stmt _ _ _ onStmt := stmt.breaks_eq_false_iff.mpr onStmt

section Outcomes

-- A selection of reports and of statements that end the validation.
variable {select : Stmt → Bool} (onlyOutcomes : ∀ stmt : Stmt, stmt.isReport = false →
  stmt.isFail = false → stmt.isRet = false → select stmt = false) {perReport perExit : Nat}

include onlyOutcomes

theorem selection_accumulateAll (onReport : ∀ site, (select (.report site)).toNat = perReport) :
    Selection (fun _ => True) select .accumulateAll perReport 0 where
  toVocabulary := vocabulary_any
  report := by
    intro context site same _
    rw [reportStmt, same]
    exact onReport site
  exit stops := by cases stops
  stay _ := rfl
  other stmt report fail ret _ := onlyOutcomes stmt report fail ret

theorem selection_stopAtFirst (onFail : ∀ site, (select (.fail site)).toNat = perReport)
    (onExit : (select (.ret false)).toNat = perExit) :
    Selection (fun _ => True) select .stopAtFirst perReport perExit where
  toVocabulary := vocabulary_any
  report := by
    intro context site same _
    rw [reportStmt, same]
    exact onFail site
  exit _ := onExit
  stay accumulates := by cases accumulates
  other stmt report fail ret _ := onlyOutcomes stmt report fail ret

end Outcomes

theorem sum_map_const (weight : Nat) (nodes : List Schema) :
    (nodes.map fun _ => weight).sum = nodes.length * weight := by
  induction nodes with
  | nil => rw [List.map_nil, List.sum_nil, List.length_nil, Nat.zero_mul]
  | cons node rest ih =>
    rw [List.map_cons, List.sum_cons, ih, List.length_cons, Nat.add_one_mul, Nat.add_comm]

theorem census_zero (policy : ErrorPolicy) (schema : Schema) : census policy 0 0 schema = 0 := by
  simp only [census, Nat.mul_zero, Nat.add_zero, sum_map_const]

theorem census_reports (policy : ErrorPolicy) (schema : Schema) :
    census policy 1 0 schema = ((schema :: schema.applied).map (Schema.reports policy)).sum := by
  simp only [census, Nat.mul_one, Nat.add_zero, List.map_cons, List.sum_cons]

theorem census_exits (policy : ErrorPolicy) (schema : Schema) :
    census policy 0 1 schema = schema.applied.length := by
  simp only [census, Nat.mul_zero, Nat.zero_add, sum_map_const, Nat.mul_one]

end Emit

namespace Validator

open Code Emit

theorem tally_compiled {good : String → Prop} {select : Stmt → Bool} {options : Options}
    {perReport perExit : Nat}
    (selection : Selection good select options.policy perReport perExit)
    (onData : good Name.data.text) (schema : Schema) :
    Block.tally select (compiled options schema).code =
      census options.policy perReport perExit schema :=
  counted_write selection schema (.root options .data) ⟨rfl, onData⟩ .initial

theorem countWhere_compiled {select : Stmt → Bool} {options : Options} {perReport perExit : Nat}
    (selection : Selection (fun _ => True) select options.policy perReport perExit)
    (schema : Schema) :
    Block.countWhere select (compiled options schema).code =
      census options.policy perReport perExit schema := by
  rw [Block.countWhere_eq_tally, tally_compiled selection trivial]

/-- The outcomes in the code of a schema. Code that accumulates neither fails nor returns, and
reports once for each name that some checked schema asks for and once for each `false`. Code that
stops reports only where it fails, once for each list that asks for any name and once for each
`false`, and returns only to settle a subschema. -/
theorem outcomes_ofSchema (own : Bool) (maxDepth : Nat) (schema : Schema) :
    ∃ every first,
      ofSchema ⟨own, .accumulateAll, maxDepth⟩ schema = .ok every ∧
      ofSchema ⟨own, .stopAtFirst, maxDepth⟩ schema = .ok first ∧
      (Block.countWhere Stmt.isFail every.code = 0 ∧
        Block.countWhere Stmt.isRet every.code = 0 ∧
        Block.countWhere Stmt.isReport every.code =
          ((schema :: schema.applied).map (Schema.reports .accumulateAll)).sum) ∧
      Block.countWhere Stmt.isReport first.code = 0 ∧
        Block.countWhere (Stmt.returns true) first.code = 0 ∧
        Block.countWhere Stmt.isFail first.code =
          ((schema :: schema.applied).map (Schema.reports .stopAtFirst)).sum ∧
        Block.countWhere (Stmt.returns false) first.code = schema.applied.length := by
  have noReturn (valid : Bool) (stmt : Stmt) (ret : stmt.isRet = false) :
      stmt.returns valid = false := by
    cases stmt with
    | ret => cases ret
    | _ => rfl
  refine ⟨_, _, ofSchema_eq _ schema, ofSchema_eq _ schema, ⟨?_, ?_, ?_⟩, ?_, ?_, ?_, ?_⟩
  · rw [countWhere_compiled (selection_accumulateAll (fun _ _ fail _ => fail) fun _ => rfl)]
    exact census_zero _ schema
  · rw [countWhere_compiled (selection_accumulateAll (fun _ _ _ ret => ret) fun _ => rfl)]
    exact census_zero _ schema
  · rw [countWhere_compiled (selection_accumulateAll (fun _ report _ _ => report) fun _ => rfl)]
    exact census_reports _ schema
  · rw [countWhere_compiled
      (selection_stopAtFirst (fun _ report _ _ => report) (fun _ => rfl) rfl)]
    exact census_zero _ schema
  · rw [countWhere_compiled
      (selection_stopAtFirst (fun stmt _ _ ret => noReturn true stmt ret) (fun _ => rfl) rfl)]
    exact census_zero _ schema
  · rw [countWhere_compiled
      (selection_stopAtFirst (fun _ _ fail _ => fail) (fun _ => rfl) rfl)]
    exact census_reports _ schema
  · rw [countWhere_compiled
      (selection_stopAtFirst (fun stmt _ _ ret => noReturn false stmt ret) (fun _ => rfl) rfl)]
    exact census_exits _ schema

theorem unbroken_compiled (options : Options) (schema : Schema) :
    Block.Unbroken (compiled options schema).code := by
  apply Block.unbroken_of_tally
  rw [tally_compiled (selection_breaks options.policy) (by decide), census_zero]

/-- A listing has as many lines as its block takes by the count of its statements, whatever strings
are quoted in it: for every block whose names and parameter keys hold no newline, and so for all
compiled code. -/
theorem lines_of_listing :
    (∀ block, Block.Unbroken block → newlines (Block.text block) = Block.lineCount block) ∧
      ∀ options schema, ∃ validator, ofSchema options schema = .ok validator ∧
        Block.Unbroken validator.code ∧
        newlines (Block.text validator.code) = Block.lineCount validator.code := by
  refine ⟨fun block unbroken => Block.newlines_text unbroken, fun options schema => ?_⟩
  have unbroken := unbroken_compiled options schema
  exact ⟨compiled options schema, ofSchema_eq options schema, unbroken,
    Block.newlines_text unbroken⟩

def severalLines : Block :=
  [.declare ⟨"missing0"⟩ (.str "\n"),
   .cond (.hasProperty .data "first\nsecond" true)
    [.fail
      { keyword := "required"
        data := .data
        schemaPath := Pointer.root.key "a\n\"b\"\n"
        params := [("missingProperty", .literal (.str "\n\n")), ("first", .var ⟨"missing0"⟩)]
        wording := .required }]
    (some [])]

theorem lines_of_severalLines :
    Block.Unbroken severalLines ∧ newlines (Block.text severalLines) = 6 := by
  have unbroken : Block.Unbroken severalLines := by
    have each : ∀ text ∈ Block.verbatim severalLines, OneLine text := by decide
    exact each
  have count : Block.lineCount severalLines = 6 := by
    simp only [Block.lineCount, Block.countWhere_eq_tally]
    rfl
  refine ⟨unbroken, ?_⟩
  rw [lines_of_listing.1 severalLines unbroken, count]

end Validator

end SchemaCompiler
