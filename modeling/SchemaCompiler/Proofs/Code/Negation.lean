import SchemaCompiler.Proofs.Code.Tokens

/-!
What a negation covers in a listing. The sign of a negation binds tighter than the signs between
operands, so what is negated has to be a single operand: a literal, a name, a quoted string, another
negation, or an expression in parentheses. All expressions are written so after the sign of a
negation, except for the test that no violation was added: it is a comparison and gets no
parentheses.
-/

namespace SchemaCompiler.Code

namespace Token

def isParenthesis : Token → Bool
  | sign char => char == '(' || char == ')'
  | _ => false

def isOperator : Token → Bool
  | sign char => char == '=' || char == '&' || char == '|'
  | _ => false

inductive Balanced : List Token → Prop where
  | nil : Balanced []
  | cons {token : Token} {rest : List Token} (plain : token.isParenthesis = false)
    (later : Balanced rest) : Balanced (token :: rest)
  | group {inner rest : List Token} (closed : Balanced inner) (later : Balanced rest) :
    Balanced (.sign '(' :: (inner ++ .sign ')' :: rest))

def depthAfter (depth : Nat) (token : Token) : Nat :=
  if token = .sign '(' then depth + 1 else if token = .sign ')' then depth - 1 else depth

/-- The tokens in no parentheses, where `depth` parentheses are open at the start. -/
def outside : Nat → List Token → List Token
  | _, [] => []
  | 0, token :: rest => token :: outside (depthAfter 0 token) rest
  | depth + 1, token :: rest => outside (depthAfter (depth + 1) token) rest

def Exposed (tokens : List Token) : Prop := ∃ token ∈ outside 0 tokens, token.isOperator = true

/-- The tokens that a sign before them takes as a whole. -/
inductive Operand : List Token → Prop where
  | literal {text : String} (known : text ∈ ["undefined", "true", "false", "errors"]) :
    Operand [.word text]
  | name {name : Name} (proper : name.Proper) : Operand [.word name.text]
  | quoted (value : String) : Operand [.quoted value]
  | negation {tokens : List Token} (operand : Operand tokens) : Operand (.sign '!' :: tokens)
  | group (expr : Expr) (closed : Balanced expr.tokens) :
    Operand (.sign '(' :: (expr.tokens ++ [.sign ')']))

theorem Balanced.append {left right : List Token} (onLeft : Balanced left)
    (onRight : Balanced right) : Balanced (left ++ right) := by
  induction onLeft with
  | nil => exact onRight
  | cons plain later ih => exact .cons plain ih
  | group closed later _ ih =>
    rw [List.cons_append, List.append_assoc]
    exact .group closed ih

theorem Balanced.of_plain {tokens : List Token}
    (plain : tokens.any isParenthesis = false) : Balanced tokens := by
  induction tokens with
  | nil => exact .nil
  | cons token rest ih =>
    rw [List.any_cons, Bool.or_eq_false_iff] at plain
    exact .cons plain.1 (ih plain.2)

theorem depthAfter_of_plain {token : Token} (plain : token.isParenthesis = false) (depth : Nat) :
    depthAfter depth token = depth := by
  have notOpening : token ≠ .sign '(' := by
    rintro rfl
    cases plain
  have notClosing : token ≠ .sign ')' := by
    rintro rfl
    cases plain
  rw [depthAfter, if_neg notOpening, if_neg notClosing]

/-- In parentheses, nothing of a balanced text comes outside. -/
theorem outside_balanced_append {tokens : List Token} (balanced : Balanced tokens) (depth : Nat)
    (rest : List Token) : outside (depth + 1) (tokens ++ rest) = outside (depth + 1) rest := by
  induction balanced generalizing depth rest with
  | nil => rfl
  | cons plain later ih => rw [List.cons_append, outside, depthAfter_of_plain plain, ih]
  | @group inner others closed later onInner onLater =>
    calc outside (depth + 1) (.sign '(' :: (inner ++ .sign ')' :: others) ++ rest)
      _ = outside (depth + 2) (inner ++ (.sign ')' :: others ++ rest)) := by
        rw [List.cons_append, List.append_assoc]
        rfl
      _ = outside (depth + 2) (.sign ')' :: (others ++ rest)) := onInner (depth + 1) _
      _ = outside (depth + 1) (others ++ rest) := rfl
      _ = outside (depth + 1) rest := onLater depth rest

theorem Operand.not_exposed {tokens : List Token} (operand : Operand tokens) :
    ¬ Exposed tokens := by
  induction operand with
  | literal | name | quoted =>
    rintro ⟨token, member, operator⟩
    cases List.mem_singleton.mp member
    cases operator
  | negation operand ih =>
    rintro ⟨token, member, operator⟩
    rcases List.mem_cons.mp member with rfl | later
    · cases operator
    · exact ih ⟨token, later, operator⟩
  | group expr closed =>
    have only : outside 0 (.sign '(' :: (expr.tokens ++ [.sign ')'])) = [.sign '('] :=
      congrArg (List.cons _) (outside_balanced_append closed 0 [.sign ')'])
    rintro ⟨token, member, operator⟩
    rw [only] at member
    cases List.mem_singleton.mp member
    cases operator

def Reads (text : String) (tokens : List Token) : Prop :=
  Apart tokens ∧ spell tokens = text.toList

theorem Reads.unique {text : String} {tokens others : List Token} (reads : Reads text tokens)
    (alsoReads : Reads text others) : tokens = others :=
  spell_inj reads.1 alsoReads.1 (reads.2.trans alsoReads.2.symm)

end Token

def IsOperand (text : String) : Prop := ∃ tokens, Token.Reads text tokens ∧ Token.Operand tokens

/-- The text has a sign between operands that stands outside all parentheses and quotes. -/
def HasOperator (text : String) : Prop := ∃ tokens, Token.Reads text tokens ∧ Token.Exposed tokens

theorem Token.Reads.isOperand_iff {text : String} {tokens : List Token}
    (reads : Token.Reads text tokens) : IsOperand text ↔ Token.Operand tokens := by
  constructor
  · rintro ⟨others, alsoReads, operand⟩
    exact reads.unique alsoReads ▸ operand
  · intro operand
    exact ⟨tokens, reads, operand⟩

theorem Token.Reads.hasOperator_iff {text : String} {tokens : List Token}
    (reads : Token.Reads text tokens) : HasOperator text ↔ Token.Exposed tokens := by
  constructor
  · rintro ⟨others, alsoReads, exposed⟩
    exact reads.unique alsoReads ▸ exposed
  · intro exposed
    exact ⟨tokens, reads, exposed⟩

namespace Expr

inductive Negates : Expr → Expr → Prop where
  | here (operand : Expr) : Negates (not operand) operand
  | inNot {inner operand : Expr} (below : Negates inner operand) : Negates (not inner) operand
  | inAnd {operands : List Expr} {inner operand : Expr} (member : inner ∈ operands)
    (below : Negates inner operand) : Negates (and operands) operand
  | inOr {operands : List Expr} {inner operand : Expr} (member : inner ∈ operands)
    (below : Negates inner operand) : Negates (or operands) operand
  | inBind {name : Name} {inner operand : Expr} (below : Negates inner operand) :
    Negates (bind name inner) operand

def core : Expr → Expr
  | not operand => operand.core
  | other => other

def isCountTest : Expr → Bool
  | noErrorsSince _ => true
  | _ => false

def negandText (operand : Expr) : String :=
  parenthesise (operand.isComparison || operand.isCompound) operand.text

def negandTokens (operand : Expr) : List Token :=
  bracket (operand.isComparison || operand.isCompound) operand.tokens

theorem text_not (operand : Expr) : (not operand).text = "!" ++ operand.negandText := rfl

section Balance

open Token

theorem balanced_bracket (needed : Bool) {tokens : List Token} (balanced : Balanced tokens) :
    Balanced (bracket needed tokens) := by
  cases needed with
  | false => exact balanced
  | true => exact .group balanced .nil

theorem balanced_joinTokens {char : Char} (plain : (Token.sign char).isParenthesis = false)
    (neutral : String) {lists : List (List Token)} (each : ∀ list ∈ lists, Balanced list) :
    Balanced (joinTokens char neutral lists) := by
  have joint : Balanced (joint char) := .cons rfl (.cons plain (.cons plain (.cons rfl .nil)))
  cases lists with
  | nil => exact .cons rfl .nil
  | cons first rest =>
    refine (each first List.mem_cons_self).append ?_
    have others : ∀ list ∈ rest, Balanced list := fun list member =>
      each list (List.mem_cons_of_mem _ member)
    clear each
    induction rest with
    | nil => exact .nil
    | cons second rest ih =>
      rw [List.flatMap_cons]
      have here := joint.append (others second List.mem_cons_self)
      exact here.append (ih fun list member => others list (List.mem_cons_of_mem _ member))

mutual

/-- Names and quoted strings hold no parentheses, so those of an expression are its own. -/
theorem balanced_tokens (expr : Expr) : Balanced expr.tokens := by
  match expr with
  | .undefined | .bool _ | .str _ | .var _ | .errorCount => exact .cons rfl .nil
  | .not operand => exact .cons rfl (balanced_bracket _ (balanced_tokens operand))
  | .and operands => exact balanced_joinTokens rfl _ (balanced_operandTokens operands)
  | .or operands => exact balanced_joinTokens rfl _ (balanced_operandTokens operands)
  | .isType data kind => exact .of_plain rfl
  | .hasProperty data property false => exact .of_plain rfl
  | .hasProperty data property true =>
    have call : Balanced (.sign '(' :: ([.word data.text, .sign ',', .sign ' ', .quoted property] ++
        [.sign ')'])) := .group (.of_plain rfl) .nil
    have test : Balanced ((hasProperty data property false).tokens ++ joint '&' ++
        [.word "hasOwn"]) := .of_plain rfl
    exact test.append call
  | .bind name value => exact .cons rfl (.cons rfl (.cons rfl (.cons rfl (balanced_tokens value))))
  | .noErrorsSince name => exact .of_plain rfl

theorem balanced_operandTokens (operands : List Expr) :
    ∀ list ∈ operandTokens operands, Balanced list := by
  match operands with
  | [] =>
    intro list member
    cases member
  | operand :: rest =>
    have here := balanced_bracket operand.isCompound (balanced_tokens operand)
    have later := balanced_operandTokens rest
    intro list member
    rcases List.mem_cons.mp member with rfl | other
    · exact here
    · exact later list other

end

end Balance

theorem reads_negand (operand : Expr) (proper : ∀ name ∈ operand.names, name.Proper) :
    Token.Reads operand.negandText operand.negandTokens :=
  ⟨apart_bracket _ (apart_tokens operand proper), spell_bracket _ (spell_tokens operand)⟩

/-- What stands after the sign of a negation is a single operand unless it is a count test, which
may have further signs of negations before it. -/
theorem operand_negandTokens (operand : Expr) (proper : ∀ name ∈ operand.names, name.Proper)
    (other : operand.core.isCountTest = false) : Token.Operand operand.negandTokens := by
  match operand with
  | .undefined | .errorCount => exact .literal (by decide)
  | .bool true | .bool false => exact .literal (by decide)
  | .str value => exact .quoted value
  | .var name => exact .name (proper name List.mem_cons_self)
  | .not inner => exact .negation (operand_negandTokens inner proper other)
  | .and _ | .or _ | .isType _ _ | .hasProperty _ _ _ | .bind _ _ =>
    exact .group _ (balanced_tokens _)
  | .noErrorsSince _ => cases other

theorem exposed_negandTokens (operand : Expr) (count : operand.core.isCountTest = true) :
    Token.Exposed operand.negandTokens := by
  match operand with
  | .not inner =>
    rcases exposed_negandTokens inner count with ⟨token, member, operator⟩
    exact ⟨token, List.mem_cons_of_mem _ member, operator⟩
  | .noErrorsSince name =>
    exact ⟨.sign '=', List.mem_cons_of_mem _ (List.mem_cons_of_mem _ List.mem_cons_self), rfl⟩

theorem infix_bracket (needed : Bool) (tokens : List Token) :
    tokens <:+: bracket needed tokens := by
  cases needed with
  | false => exact List.infix_refl tokens
  | true => exact ⟨[.sign '('], [.sign ')'], rfl⟩

theorem infix_joinTokens (char : Char) (neutral : String) {lists : List (List Token)}
    {list : List Token} (member : list ∈ lists) : list <:+: joinTokens char neutral lists := by
  cases lists with
  | nil => cases member
  | cons first rest =>
    rcases List.mem_cons.mp member with rfl | later
    · exact (List.prefix_append list _).isInfix
    · rcases List.append_of_mem later with ⟨earlier, others, rfl⟩
      refine ⟨first ++ (earlier.flatMap fun operand => joint char ++ operand) ++ joint char,
        others.flatMap fun operand => joint char ++ operand, ?_⟩
      simp only [joinTokens, List.flatMap_append, List.flatMap_cons, List.append_assoc]

theorem operandTokens_eq_map (operands : List Expr) :
    operandTokens operands =
      operands.map fun operand => bracket operand.isCompound operand.tokens := by
  induction operands with
  | nil => rfl
  | cons operand rest ih => rw [operandTokens, ih, List.map_cons]

theorem infix_operandTokens (char : Char) (neutral : String) {operands : List Expr}
    {operand : Expr} (member : operand ∈ operands) :
    operand.tokens <:+: joinTokens char neutral (operandTokens operands) := by
  have bracketed : bracket operand.isCompound operand.tokens ∈ operandTokens operands := by
    rw [operandTokens_eq_map]
    exact List.mem_map_of_mem member
  exact (infix_bracket _ _).trans (infix_joinTokens char neutral bracketed)

theorem Negates.infix_tokens {expr operand : Expr} (negates : expr.Negates operand) :
    (not operand).tokens <:+: expr.tokens := by
  induction negates with
  | here operand => exact List.infix_refl _
  | inNot below ih => exact (ih.trans (infix_bracket _ _)).trans (List.suffix_cons _ _).isInfix
  | inAnd member below ih => exact ih.trans (infix_operandTokens '&' "true" member)
  | inOr member below ih => exact ih.trans (infix_operandTokens '|' "false" member)
  | inBind below ih => exact ih.trans ⟨[_, _, _, _], [], List.append_nil _⟩

theorem Negates.names_subset {expr operand : Expr} (negates : expr.Negates operand) :
    operand.names ⊆ expr.names := by
  induction negates with
  | here operand => exact List.Subset.refl _
  | inNot below ih => exact ih
  | inAnd member below ih | inOr member below ih =>
    intro name known
    rw [names, namesAll_eq_flatMap]
    exact List.mem_flatMap.mpr ⟨_, member, ih known⟩
  | inBind below ih =>
    intro name known
    exact List.mem_cons_of_mem _ (ih known)

theorem Negates.text_split {expr operand : Expr} (negates : expr.Negates operand) :
    ∃ before after, expr.text = before ++ "!" ++ operand.negandText ++ after := by
  rcases negates.infix_tokens with ⟨before, after, whole⟩
  refine ⟨String.ofList (Token.spell before), String.ofList (Token.spell after), ?_⟩
  have spelled : Token.spell (not operand).tokens = _ := spell_tokens (not operand)
  rw [← String.toList_inj, ← spell_tokens expr, ← whole, Token.spell_append, Token.spell_append,
    spelled, text_not]
  simp only [String.toList_append, String.toList_ofList, List.append_assoc]

/-- Wherever an expression negates an operand, the text after the sign is a single operand, with no
sign between operands outside parentheses and quotes, unless the operand is a count test or a chain
of negations of one. A count test is written as a bare comparison, and the sign covers only the
left-hand side of it. -/
theorem negation_covers {expr operand : Expr} (proper : ∀ name ∈ expr.names, name.Proper)
    (negates : expr.Negates operand) :
    ∃ text before after, (not operand).text = "!" ++ text ∧
      expr.text = before ++ "!" ++ text ++ after ∧
      (IsOperand text ↔ operand.core.isCountTest = false) ∧
      (HasOperator text ↔ operand.core.isCountTest = true) := by
  have inner : ∀ name ∈ operand.names, name.Proper := fun name known =>
    proper name (negates.names_subset known)
  have reads := reads_negand operand inner
  rcases negates.text_split with ⟨before, after, whole⟩
  refine ⟨operand.negandText, before, after, text_not operand, whole, ?_⟩
  rw [reads.isOperand_iff, reads.hasOperator_iff]
  cases count : operand.core.isCountTest with
  | false =>
    have single := operand_negandTokens operand inner count
    exact ⟨iff_of_true single rfl, iff_of_false single.not_exposed Bool.false_ne_true⟩
  | true =>
    have exposed := exposed_negandTokens operand count
    have notSingle : ¬ Token.Operand operand.negandTokens := fun single =>
      single.not_exposed exposed
    exact ⟨iff_of_false notSingle Bool.false_ne_true.symm, iff_of_true exposed rfl⟩

section Retry

theorem proper_errs0 : Name.Proper ⟨"errs0"⟩ :=
  .inr ⟨"errs".toList, ['0'], by decide, by decide, by decide, by decide, by decide⟩

def completed : Expr := hasProperty .data "completed (at" true

def retryTest : Expr := or [not completed, not (not (not (noErrorsSince ⟨"errs0"⟩)))]

theorem negation_covers_retry :
    (∀ name ∈ retryTest.names, name.Proper) ∧ retryTest.Negates completed ∧
      retryTest.Negates (noErrorsSince ⟨"errs0"⟩) ∧
      (∃ text, (not completed).text = "!" ++ text ∧ IsOperand text ∧ ¬ HasOperator text) ∧
      ∃ text, (not (noErrorsSince ⟨"errs0"⟩)).text = "!" ++ text ∧ HasOperator text := by
  have proper : ∀ name ∈ retryTest.names, name.Proper := by
    intro name member
    rcases List.mem_cons.mp member with rfl | later
    · exact .inl rfl
    · rw [List.mem_singleton.mp later]
      exact proper_errs0
  have first : retryTest.Negates completed := .inOr List.mem_cons_self (.here _)
  have second : retryTest.Negates (noErrorsSince ⟨"errs0"⟩) :=
    .inOr (List.mem_cons_of_mem _ List.mem_cons_self) (.inNot (.inNot (.here _)))
  refine ⟨proper, first, second, ?_, ?_⟩
  · rcases negation_covers proper first with ⟨text, _, _, written, -, single, bare⟩
    refine ⟨text, written, single.mpr rfl, ?_⟩
    intro operator
    cases bare.mp operator
  · rcases negation_covers proper second with ⟨text, _, _, written, -, -, bare⟩
    exact ⟨text, written, bare.mpr rfl⟩

theorem not_covered_count_test :
    ¬ ∀ (expr operand : Expr) (text : String), (∀ name ∈ expr.names, name.Proper) →
      expr.Negates operand → (not operand).text = "!" ++ text →
        IsOperand text ∧ ¬ HasOperator text := by
  intro covered
  have proper : ∀ name ∈ (noErrorsSince ⟨"errs0"⟩).names, name.Proper := by
    intro name member
    rw [List.mem_singleton.mp member]
    exact proper_errs0
  have written : (not (noErrorsSince ⟨"errs0"⟩)).text = "!" ++ "errors === errs0" := rfl
  have bare := (covered (not (noErrorsSince ⟨"errs0"⟩)) _ _ proper (.here _) written).2
  have reads := reads_negand (noErrorsSince ⟨"errs0"⟩) proper
  exact bare (reads.hasOperator_iff.mpr (exposed_negandTokens _ rfl))

end Retry

end Expr

end SchemaCompiler.Code
