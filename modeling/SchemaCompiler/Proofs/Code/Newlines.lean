import SchemaCompiler.Proofs.Code.Listing
import SchemaCompiler.Proofs.Code.Verbatim
import SchemaCompiler.Proofs.Json.OneLine

/-!
The lines of a listing. Only names and parameter keys are taken over as they are; all other text in
a block is quoted. So if those hold no newline, the listing has one newline for each line that the
statements take, and these can be counted without printing.
-/

namespace SchemaCompiler.Code

/-- No name and no parameter key breaks the line that it stands on. -/
def Block.Unbroken (block : Block) : Prop := ∀ text ∈ Block.verbatim block, OneLine text

/-- The lines that the statements of a block take. A report that ends the validation takes two, and
so does a conditional without an else branch; an else branch takes one more. -/
def Block.lineCount (block : Block) : Nat :=
  Block.countWhere Stmt.isDeclare block + Block.countWhere Stmt.isAssign block +
    Block.countWhere Stmt.isBindData block + Block.countWhere Stmt.isReport block +
    Block.countWhere Stmt.isRet block + 2 * Block.countWhere Stmt.isFail block +
    2 * Block.countWhere Stmt.isCond block + Block.countWhere Stmt.hasElse block

def newlines (text : String) : Nat := text.toList.count '\n'

@[simp] theorem newlines_append (left right : String) :
    newlines (left ++ right) = newlines left + newlines right := by
  rw [newlines, String.toList_append, List.count_append]
  rfl

theorem newlines_of_oneLine {text : String} (plain : OneLine text) : newlines text = 0 :=
  List.count_eq_zero_of_not_mem plain

theorem newlines_lineAt (level : Nat) {text : String} (plain : OneLine text) :
    newlines (lineAt level text) = 1 := by
  have blanks : OneLine (String.ofList (List.replicate (2 * level) ' ')) := by
    rw [OneLine.ofList_iff]
    intro newline
    exact absurd (List.eq_of_mem_replicate newline) (by decide)
  have ending : newlines "\n" = 1 := by decide
  rw [lineAt, newlines_append, newlines_append, newlines_of_oneLine blanks,
    newlines_of_oneLine plain, ending]

section Texts

theorem oneLine_parenthesise (needed : Bool) {text : String} (plain : OneLine text) :
    OneLine (Expr.parenthesise needed text) := by
  cases needed with
  | false => exact plain
  | true =>
    simp only [Expr.parenthesise, ↓reduceIte, OneLine.append_iff]
    exact ⟨⟨by decide, plain⟩, by decide⟩

theorem oneLine_joinOperands {sign neutral : String} (onSign : OneLine sign)
    (onNeutral : OneLine neutral) {texts : List String} (each : ∀ text ∈ texts, OneLine text) :
    OneLine (Expr.joinOperands sign neutral texts) := by
  cases texts with
  | nil => exact onNeutral
  | cons text rest => exact OneLine.intercalate onSign each

mutual

theorem Expr.oneLine_text (expr : Expr) (plain : ∀ name ∈ expr.names, OneLine name.text) :
    OneLine expr.text := by
  match expr with
  | .undefined => decide
  | .bool true => decide
  | .bool false => decide
  | .str value => exact Json.oneLine_quote value
  | .var name => exact plain name List.mem_cons_self
  | .not operand =>
    rw [Expr.text, OneLine.append_iff]
    exact ⟨by decide, oneLine_parenthesise _ (Expr.oneLine_text operand plain)⟩
  | .and operands =>
    exact oneLine_joinOperands (by decide) (by decide) (Expr.oneLine_operandTexts operands plain)
  | .or operands =>
    exact oneLine_joinOperands (by decide) (by decide) (Expr.oneLine_operandTexts operands plain)
  | .isType data kind =>
    have onData := plain data List.mem_cons_self
    simp only [Expr.text, OneLine.append_iff]
    exact ⟨⟨⟨by decide, onData⟩, by decide⟩, Json.oneLine_quote kind.name⟩
  | .hasProperty data property own =>
    have onData := plain data List.mem_cons_self
    have onKey := Json.oneLine_quote property
    rw [Expr.text, OneLine.append_iff]
    constructor
    · simp only [OneLine.append_iff]
      exact ⟨⟨⟨onData, by decide⟩, onKey⟩, by decide⟩
    · cases own with
      | false => exact (by decide : OneLine "")
      | true =>
        simp only [↓reduceIte, OneLine.append_iff]
        exact ⟨⟨⟨⟨by decide, onData⟩, by decide⟩, onKey⟩, by decide⟩
  | .bind name value =>
    have onName := plain name List.mem_cons_self
    have onValue := Expr.oneLine_text value fun name member =>
      plain name (List.mem_cons_of_mem _ member)
    simp only [Expr.text, OneLine.append_iff]
    exact ⟨⟨onName, by decide⟩, onValue⟩
  | .errorCount => decide
  | .noErrorsSince name =>
    rw [Expr.text, OneLine.append_iff]
    exact ⟨by decide, plain name List.mem_cons_self⟩

theorem Expr.oneLine_operandTexts (operands : List Expr)
    (plain : ∀ name ∈ Expr.namesAll operands, OneLine name.text) :
    ∀ text ∈ Expr.operandTexts operands, OneLine text := by
  match operands with
  | [] =>
    intro text member
    cases member
  | operand :: rest =>
    have here := Expr.oneLine_text operand fun name member =>
      plain name (List.mem_append_left _ member)
    have later := Expr.oneLine_operandTexts rest fun name member =>
      plain name (List.mem_append_right _ member)
    intro text member
    rcases List.mem_cons.mp member with rfl | member
    · exact oneLine_parenthesise _ here
    · exact later text member

end

theorem Expr.oneLine_of_verbatim {expr : Expr} (plain : ∀ text ∈ expr.verbatim, OneLine text) :
    OneLine expr.text :=
  expr.oneLine_text fun _ member => plain _ (List.mem_map_of_mem member)

theorem ParamValue.oneLine_text (value : ParamValue)
    (plain : ∀ text ∈ value.verbatim, OneLine text) : OneLine value.text := by
  cases value with
  | literal value => exact value.oneLine_compact
  | var name => exact plain _ List.mem_cons_self

theorem Site.oneLine_text (site : Site) (plain : ∀ text ∈ site.verbatim, OneLine text) :
    OneLine site.text := by
  have onData := plain _ List.mem_cons_self
  unfold Site.text
  simp only [OneLine.append_iff]
  refine ⟨⟨⟨⟨⟨⟨⟨⟨by decide, Json.oneLine_quote _⟩, by decide⟩, onData⟩, by decide⟩,
    Json.oneLine_quote _⟩, by decide⟩, OneLine.intercalate (by decide) ?_⟩, by decide⟩
  intro text member
  obtain ⟨⟨key, value⟩, param, rfl⟩ := List.mem_map.mp member
  have taken : ∀ text ∈ key :: value.verbatim, OneLine text := fun text member =>
    plain text (List.mem_cons_of_mem _ (List.mem_flatMap.mpr ⟨_, param, member⟩))
  simp only [OneLine.append_iff]
  refine ⟨⟨taken key List.mem_cons_self, by decide⟩, ?_⟩
  exact value.oneLine_text fun text member => taken text (List.mem_cons_of_mem _ member)

theorem oneLine_declaration {name : Name} {value : Expr} (onName : OneLine name.text)
    (onValue : OneLine value.text) : OneLine (declaration name value) := by
  unfold declaration
  split
  · simp only [OneLine.append_iff]
    exact ⟨⟨by decide, onName⟩, by decide⟩
  · simp only [OneLine.append_iff]
    exact ⟨⟨⟨⟨by decide, onName⟩, by decide⟩, onValue⟩, by decide⟩

theorem Stmt.oneLine_sentences (stmt : Stmt) (plain : ∀ text ∈ stmt.verbatim, OneLine text) :
    ∀ text ∈ stmt.sentences, OneLine text := by
  have only {text : String} (one : OneLine text) : ∀ other ∈ [text], OneLine other := by
    intro other member
    rwa [List.mem_singleton.mp member]
  cases stmt with
  | declare name value =>
    have onName := plain _ List.mem_cons_self
    have onValue := Expr.oneLine_of_verbatim fun text member =>
      plain text (List.mem_cons_of_mem _ member)
    exact only (oneLine_declaration onName onValue)
  | assign name value =>
    have onName := plain _ List.mem_cons_self
    have onValue := Expr.oneLine_of_verbatim fun text member =>
      plain text (List.mem_cons_of_mem _ member)
    apply only
    simp only [OneLine.append_iff]
    exact ⟨⟨⟨onName, by decide⟩, onValue⟩, by decide⟩
  | bindData name parent property =>
    have onName := plain _ List.mem_cons_self
    have onParent := plain _ (List.mem_cons_of_mem _ List.mem_cons_self)
    apply only
    simp only [OneLine.append_iff]
    exact ⟨⟨⟨⟨⟨⟨by decide, onName⟩, by decide⟩, onParent⟩, by decide⟩,
      Json.oneLine_quote property⟩, by decide⟩
  | cond =>
    intro text member
    cases member
  | report site => exact only (site.oneLine_text plain)
  | fail site =>
    intro text member
    rcases List.mem_cons.mp member with rfl | second
    · exact site.oneLine_text plain
    · exact only (by decide) text second
  | ret valid =>
    apply only
    cases valid <;> decide

end Texts

theorem newlines_join_lines (level : Nat) {texts : List String}
    (each : ∀ text ∈ texts, OneLine text) :
    newlines (String.join (texts.map (lineAt level))) = texts.length := by
  induction texts with
  | nil => rfl
  | cons text rest ih =>
    have here := newlines_lineAt level (each text List.mem_cons_self)
    have later := ih fun text member => each text (List.mem_cons_of_mem _ member)
    rw [List.map_cons, String.join_cons, newlines_append, here, later, List.length_cons,
      Nat.add_comm]

theorem newlines_opening (level : Nat) {test : Expr} (plain : OneLine test.text) :
    newlines (lineAt level ("if (" ++ test.text ++ ") \x7b")) = 1 := by
  apply newlines_lineAt
  simp only [OneLine.append_iff]
  exact ⟨⟨by decide, plain⟩, by decide⟩

namespace Block

theorem lineCount_cons_of_not_cond {stmt : Stmt} (plain : stmt.isCond = false) (rest : Block) :
    lineCount (stmt :: rest) = stmt.sentences.length + lineCount rest := by
  simp only [lineCount, countWhere_eq_tally, Block.tally]
  cases stmt with
  | cond => simp [Stmt.isCond] at plain
  | _ =>
    simp only [Stmt.tally, Stmt.isDeclare, Stmt.isAssign, Stmt.isBindData, Stmt.isReport,
      Stmt.isRet, Stmt.isFail, Stmt.isCond, Stmt.hasElse, Bool.toNat_true, Bool.toNat_false,
      Stmt.sentences, List.length_cons, List.length_nil]
    omega

theorem lineCount_cons_cond (test : Expr) (yes : Block) (no : Option Block) (rest : Block) :
    lineCount (.cond test yes no :: rest) =
      2 + lineCount yes + (no.elim 0 fun no => 1 + lineCount no) + lineCount rest := by
  simp only [lineCount, countWhere_eq_tally, Block.tally]
  cases no with
  | none =>
    simp only [Stmt.tally, Stmt.isDeclare, Stmt.isAssign, Stmt.isBindData, Stmt.isReport,
      Stmt.isRet, Stmt.isFail, Stmt.isCond, Stmt.hasElse, Bool.toNat_true, Bool.toNat_false,
      Option.elim]
    omega
  | some no =>
    simp only [Stmt.tally, Stmt.isDeclare, Stmt.isAssign, Stmt.isBindData, Stmt.isReport,
      Stmt.isRet, Stmt.isFail, Stmt.isCond, Stmt.hasElse, Bool.toNat_true, Bool.toNat_false,
      Option.elim]
    omega

theorem unbroken_cons {stmt : Stmt} {rest : Block} (unbroken : Unbroken (stmt :: rest)) :
    (∀ text ∈ stmt.verbatim, OneLine text) ∧ Unbroken rest :=
  ⟨fun text member => unbroken text (List.mem_append_left _ member),
    fun text member => unbroken text (List.mem_append_right _ member)⟩

theorem unbroken_cond {test : Expr} {yes : Block} {no : Option Block}
    (onStmt : ∀ text ∈ (Stmt.cond test yes no).verbatim, OneLine text) :
    OneLine test.text ∧ Unbroken yes ∧ Unbroken (no.getD []) := by
  rw [Stmt.verbatim_cond] at onStmt
  refine ⟨Expr.oneLine_of_verbatim fun text member => ?_, fun text member => ?_,
    fun text member => onStmt text (List.mem_append_right _ member)⟩
  · exact onStmt text (List.mem_append_left _ (List.mem_append_left _ member))
  · exact onStmt text (List.mem_append_left _ (List.mem_append_right _ member))

theorem newlines_layout (block : Block) (unbroken : Unbroken block) (level : Nat) :
    newlines (layout level block) = lineCount block := by
  induction block using Block.induction generalizing level with
  | nil =>
    simp only [lineCount, countWhere_eq_tally]
    rfl
  | step stmt rest plain ih =>
    obtain ⟨onStmt, onRest⟩ := unbroken_cons unbroken
    have here := newlines_join_lines level (stmt.oneLine_sentences onStmt)
    rw [Block.layout, newlines_append, Stmt.layout_of_not_cond level plain, here, ih onRest,
      lineCount_cons_of_not_cond plain]
  | cond test yes no rest inYes inNo inRest =>
    obtain ⟨onStmt, onRest⟩ := unbroken_cons unbroken
    obtain ⟨onTest, onYes, onNo⟩ := unbroken_cond onStmt
    have inYes := inYes onYes (level + 1)
    have inNo := inNo onNo (level + 1)
    have opening := newlines_opening level onTest
    have turning : newlines (lineAt level "\x7d else \x7b") = 1 := newlines_lineAt level (by decide)
    have closing : newlines (lineAt level "\x7d") = 1 := newlines_lineAt level (by decide)
    rw [lineCount_cons_cond, Block.layout]
    cases no with
    | none =>
      simp only [Stmt.layout, newlines_append, opening, closing, inYes, inRest onRest, Option.elim]
      omega
    | some no =>
      simp only [Option.getD] at inNo
      simp only [Stmt.layout, newlines_append, opening, turning, closing, inYes, inNo,
        inRest onRest, Option.elim]
      omega

theorem newlines_text {block : Block} (unbroken : Unbroken block) :
    newlines (Block.text block) = lineCount block := by
  rw [Block.text_eq_layout, newlines_layout block unbroken]

end Block

end SchemaCompiler.Code
