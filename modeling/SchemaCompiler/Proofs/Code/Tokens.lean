import Mathlib.Data.List.TakeWhile
import SchemaCompiler.Code.Listing
import SchemaCompiler.Proofs.Code.Verbatim
import SchemaCompiler.Proofs.Json.Quoting

/-!
The text of an expression as a sequence of tokens: words, quoted strings, and single characters
that are neither. No word stands next to another one, so a text is split into its tokens in one way
only.
-/

namespace SchemaCompiler.Code

inductive Token where
  /-- A word or a name. -/
  | word (text : String)
  | quoted (value : String)
  | sign (char : Char)
  deriving DecidableEq, Repr

namespace Token

def chars : Token → List Char
  | word text => text.toList
  | quoted value => (Json.quote value).toList
  | sign char => [char]

def isWord : Token → Bool
  | word _ => true
  | _ => false

def spell (tokens : List Token) : List Char := tokens.flatMap chars

@[simp] theorem spell_nil : spell [] = [] := rfl

@[simp] theorem spell_cons (token : Token) (rest : List Token) :
    spell (token :: rest) = token.chars ++ spell rest := List.flatMap_cons

@[simp] theorem spell_append (left right : List Token) :
    spell (left ++ right) = spell left ++ spell right := List.flatMap_append

/-- A word is a run of letters and digits, and a sign neither stands in words nor opens a string. -/
def Proper : Token → Prop
  | word text => text.toList ≠ [] ∧ text.toList.all Char.isAlphanum = true
  | quoted _ => True
  | sign char => char.isAlphanum = false ∧ char ≠ '"'

instance : DecidablePred Proper
  | word text => inferInstanceAs
      (Decidable (text.toList ≠ [] ∧ text.toList.all Char.isAlphanum = true))
  | quoted _ => inferInstanceAs (Decidable True)
  | sign char => inferInstanceAs (Decidable (char.isAlphanum = false ∧ char ≠ '"'))

def Apart : List Token → Prop
  | [] => True
  | token :: rest =>
    token.Proper ∧ (token.isWord = true → ∀ next ∈ rest.head?, next.isWord = false) ∧ Apart rest

theorem exists_head {token : Token} (proper : token.Proper) :
    ∃ char rest, token.chars = char :: rest ∧ char.isAlphanum = token.isWord ∧
      (char = '"' ↔ ∃ value, token = quoted value) := by
  cases token with
  | word text =>
    obtain ⟨nonempty, letters⟩ := proper
    obtain ⟨char, rest, split⟩ := List.exists_cons_of_ne_nil nonempty
    have letter : char.isAlphanum = true :=
      List.all_eq_true.mp letters char (split ▸ List.mem_cons_self)
    refine ⟨char, rest, split, letter, ?_⟩
    constructor
    · intro quote
      rw [quote] at letter
      exact absurd letter (by decide)
    · rintro ⟨value, other⟩
      cases other
  | quoted value =>
    have opened : (Json.quote value).toList = _ := (List.append_nil _).symm.trans
      (Json.quote_append value [])
    have noLetter : '"'.isAlphanum = false := by decide
    exact ⟨_, _, opened, noLetter, ⟨fun _ => ⟨value, rfl⟩, fun _ => rfl⟩⟩
  | sign char =>
    refine ⟨char, [], rfl, proper.1, fun quote => absurd quote proper.2, ?_⟩
    rintro ⟨value, other⟩
    cases other

def Stops (token : Token) (rest : List Char) : Prop :=
  token.isWord = true → ∀ char ∈ rest.head?, char.isAlphanum = false

/-- A run of letters and digits ends where the next character is neither. -/
theorem run_append_inj {left right rest others : List Char}
    (onLeft : left.all Char.isAlphanum = true) (onRight : right.all Char.isAlphanum = true)
    (endLeft : ∀ char ∈ rest.head?, char.isAlphanum = false)
    (endRight : ∀ char ∈ others.head?, char.isAlphanum = false)
    (same : left ++ rest = right ++ others) : left = right ∧ rest = others := by
  have run {run rest : List Char} (letters : run.all Char.isAlphanum = true)
      (ends : ∀ char ∈ rest.head?, char.isAlphanum = false) :
      (run ++ rest).takeWhile Char.isAlphanum = run := by
    rw [List.takeWhile_append_of_pos (List.all_eq_true.mp letters)]
    cases rest with
    | nil => exact List.append_nil run
    | cons char rest =>
      rw [List.takeWhile_cons, ends char rfl]
      exact List.append_nil run
  have runs : left = right := by rw [← run onLeft endLeft, same, run onRight endRight]
  subst runs
  exact ⟨rfl, List.append_cancel_left same⟩

theorem chars_append_inj {left right : Token} {rest others : List Char} (onLeft : left.Proper)
    (onRight : right.Proper) (endLeft : left.Stops rest) (endRight : right.Stops others)
    (same : left.chars ++ rest = right.chars ++ others) : left = right ∧ rest = others := by
  -- Tokens of different kinds differ in their first characters.
  obtain ⟨char, more, split, word, quote⟩ := exists_head onLeft
  obtain ⟨other, _, otherSplit, otherWord, otherQuote⟩ := exists_head onRight
  have heads : char = other := by
    rw [split, otherSplit, List.cons_append, List.cons_append, List.cons.injEq] at same
    exact same.1
  subst heads
  cases left with
  | word text =>
    cases right with
    | word second =>
      obtain ⟨texts, rests⟩ := run_append_inj onLeft.2 onRight.2 (endLeft rfl) (endRight rfl) same
      exact ⟨congrArg Token.word (String.toList_inj.mp texts), rests⟩
    | quoted value => cases word.symm.trans otherWord
    | sign second => cases word.symm.trans otherWord
  | quoted value =>
    obtain ⟨second, rfl⟩ := otherQuote.mp (quote.mpr ⟨value, rfl⟩)
    obtain ⟨values, rests⟩ := Json.quote_append_inj same
    exact ⟨congrArg quoted values, rests⟩
  | sign first =>
    cases right with
    | word text => cases word.symm.trans otherWord
    | quoted value =>
      obtain ⟨value, other⟩ := quote.mp (otherQuote.mpr ⟨value, rfl⟩)
      cases other
    | sign second =>
      cases same
      exact ⟨rfl, rfl⟩

theorem Apart.stops {token : Token} {rest : List Token} (apart : Apart (token :: rest)) :
    token.Stops (spell rest) := by
  obtain ⟨-, next, later⟩ := apart
  intro word char first
  cases rest with
  | nil => cases first
  | cons second rest =>
    obtain ⟨head, more, split, kind, -⟩ := exists_head later.1
    rw [spell_cons, split] at first
    cases first
    rw [kind]
    exact next word second rfl

/-- A text is made of tokens in one way only. -/
theorem spell_inj {left right : List Token} (onLeft : Apart left) (onRight : Apart right)
    (same : spell left = spell right) : left = right := by
  have filled {token : Token} {rest : List Token} (apart : Apart (token :: rest)) :
      spell (token :: rest) ≠ [] := by
    obtain ⟨char, more, split, -⟩ := exists_head apart.1
    rw [spell_cons, split]
    exact List.cons_ne_nil _ _
  induction left generalizing right with
  | nil =>
    cases right with
    | nil => rfl
    | cons token rest => exact absurd same.symm (filled onRight)
  | cons token rest ih =>
    cases right with
    | nil => exact absurd same (filled onLeft)
    | cons other others =>
      rw [spell_cons, spell_cons] at same
      obtain ⟨tokens, rests⟩ :=
        chars_append_inj onLeft.1 onRight.1 onLeft.stops onRight.stops same
      rw [tokens, ih onLeft.2.2 onRight.2.2 rests]

theorem Apart.sign {char : Char} {rest : List Token} (proper : (Token.sign char).Proper)
    (apart : Apart rest) : Apart (.sign char :: rest) :=
  ⟨proper, fun word => (Bool.false_ne_true word).elim, apart⟩

theorem Apart.single {token : Token} (proper : token.Proper) : Apart [token] :=
  ⟨proper, fun _ _ next => (by cases next), trivial⟩

theorem Apart.quoted (value : String) {rest : List Token} (apart : Apart rest) :
    Apart (.quoted value :: rest) :=
  ⟨trivial, fun word => (Bool.false_ne_true word).elim, apart⟩

theorem Apart.word {text : String} {char : Char} {rest : List Token}
    (word : (Token.word text).Proper) (apart : Apart (.sign char :: rest)) :
    Apart (.word text :: .sign char :: rest) := by
  refine ⟨word, fun _ next first => ?_, apart⟩
  cases first
  rfl

theorem Apart.append {left right : List Token} (onLeft : Apart left) (onRight : Apart right)
    (noWord : ∀ next ∈ right.head?, next.isWord = false) : Apart (left ++ right) := by
  induction left with
  | nil => exact onRight
  | cons token rest ih =>
    obtain ⟨proper, next, later⟩ := onLeft
    refine ⟨proper, fun word other first => ?_, ih later⟩
    cases rest with
    | nil => exact noWord other first
    | cons second rest => exact next word other first

end Token

/-- A name as they are given out: the root reference, or letters followed by digits. -/
def Name.Proper (name : Name) : Prop :=
  name = .data ∨ ∃ stem digits : List Char, name.text.toList = stem ++ digits ∧
    stem ≠ [] ∧ stem.all Char.isAlpha = true ∧ digits ≠ [] ∧ digits.all Char.isDigit = true

theorem Name.Proper.word {name : Name} (proper : name.Proper) : (Token.word name.text).Proper := by
  rcases proper with rfl | ⟨stem, digits, split, filled, letters, -, numeric⟩
  · exact ⟨by decide, by decide⟩
  · constructor
    · rw [split]
      exact List.append_ne_nil_of_left_ne_nil filled digits
    · rw [split, List.all_append, Bool.and_eq_true, List.all_eq_true, List.all_eq_true]
      rw [List.all_eq_true] at letters numeric
      constructor
      · intro char member
        rw [Char.isAlphanum, letters char member, Bool.true_or]
      · intro char member
        rw [Char.isAlphanum, numeric char member, Bool.or_true]

def reservedWords : List String := ["undefined", "true", "false", "typeof", "errors", "hasOwn"]

theorem Name.Proper.not_reserved {name : Name} (proper : name.Proper) :
    name.text ∉ reservedWords := by
  rcases proper with rfl | ⟨stem, digits, split, -, -, filled, numeric⟩
  · decide
  · have noDigits : ∀ word ∈ reservedWords, word.toList.any Char.isDigit = false := by decide
    intro word
    obtain ⟨char, rest, digits⟩ := List.exists_cons_of_ne_nil filled
    subst digits
    have inName : char ∈ name.text.toList := split ▸ List.mem_append_right _ List.mem_cons_self
    have digit := List.all_eq_true.mp numeric char List.mem_cons_self
    exact List.any_eq_false.mp (noDigits _ word) char inName digit

namespace Expr

def joint (char : Char) : List Token := [.sign ' ', .sign char, .sign char, .sign ' ']

def bracket (needed : Bool) (tokens : List Token) : List Token :=
  if needed then .sign '(' :: (tokens ++ [.sign ')']) else tokens

def joinTokens (char : Char) (neutral : String) : List (List Token) → List Token
  | [] => [.word neutral]
  | first :: rest => first ++ rest.flatMap fun operand => joint char ++ operand

mutual

def tokens : Expr → List Token
  | undefined => [.word "undefined"]
  | bool value => [.word (if value then "true" else "false")]
  | str value => [.quoted value]
  | var name => [.word name.text]
  | not operand =>
    .sign '!' :: bracket (operand.isComparison || operand.isCompound) operand.tokens
  | and operands => joinTokens '&' "true" (operandTokens operands)
  | or operands => joinTokens '|' "false" (operandTokens operands)
  | isType data kind =>
    [.word "typeof", .sign ' ', .word data.text, .sign ' ', .sign '=', .sign '=', .sign ' ',
      .quoted kind.name]
  | hasProperty data property own =>
    .word data.text :: .sign '[' :: .quoted property :: .sign ']' :: .sign ' ' :: .sign '!' ::
      .sign '=' :: .sign '=' :: .sign ' ' :: .word "undefined" ::
      if own then
        joint '&' ++ [.word "hasOwn", .sign '(', .word data.text, .sign ',', .sign ' ',
          .quoted property, .sign ')']
      else []
  | bind name value => .word name.text :: .sign ' ' :: .sign '=' :: .sign ' ' :: value.tokens
  | errorCount => [.word "errors"]
  | noErrorsSince name =>
    [.word "errors", .sign ' ', .sign '=', .sign '=', .sign '=', .sign ' ', .word name.text]

def operandTokens : List Expr → List (List Token)
  | [] => []
  | operand :: rest => bracket operand.isCompound operand.tokens :: operandTokens rest

end

theorem spell_bracket (needed : Bool) {tokens : List Token} {text : String}
    (same : Token.spell tokens = text.toList) :
    Token.spell (bracket needed tokens) = (parenthesise needed text).toList := by
  cases needed <;> simp [bracket, parenthesise, Token.chars, same]

theorem spell_joinTokens {char : Char} {sign : String}
    (signs : Token.spell (joint char) = sign.toList) (neutral : String)
    {lists : List (List Token)} {texts : List String}
    (same : lists.map Token.spell = texts.map String.toList) :
    Token.spell (joinTokens char neutral lists) = (joinOperands sign neutral texts).toList := by
  have joined (first : String) (rest : List String) :
      (sign.intercalate (first :: rest)).toList =
        first.toList ++ (rest.map String.toList).flatMap fun operand => sign.toList ++ operand := by
    induction rest generalizing first with
    | nil => simp
    | cons second rest ih =>
      rw [String.intercalate_cons_cons, String.toList_append, String.toList_append, ih,
        List.map_cons, List.flatMap_cons, List.append_assoc, List.append_assoc]
  cases lists with
  | nil =>
    cases texts with
    | nil => exact List.append_nil _
    | cons => cases same
  | cons list lists =>
    cases texts with
    | nil => cases same
    | cons text texts =>
      rw [List.map_cons, List.map_cons, List.cons.injEq] at same
      have spelled (lists : List (List Token)) :
          Token.spell (lists.flatMap fun operand => joint char ++ operand) =
            (lists.map Token.spell).flatMap fun operand => sign.toList ++ operand := by
        induction lists with
        | nil => rfl
        | cons list lists ih =>
          simp only [List.flatMap_cons, List.map_cons, Token.spell_append, signs, ih]
      rw [joinTokens, Token.spell_append, same.1, spelled, same.2]
      exact (joined text texts).symm

mutual

theorem spell_tokens (expr : Expr) : Token.spell expr.tokens = expr.text.toList := by
  match expr with
  | .undefined => simp [tokens, text, Token.chars]
  | .bool value => cases value <;> simp [tokens, text, Token.chars]
  | .str value => simp [tokens, text, Token.chars]
  | .var name => simp [tokens, text, Token.chars]
  | .not operand =>
    have inner := spell_bracket (operand.isComparison || operand.isCompound) (spell_tokens operand)
    simp [tokens, text, Token.chars, inner]
  | .and operands => exact spell_joinTokens (by decide) _ (spell_operandTokens operands)
  | .or operands => exact spell_joinTokens (by decide) _ (spell_operandTokens operands)
  | .isType data kind => simp [tokens, text, Token.chars]
  | .hasProperty data property own => cases own <;> simp [tokens, text, Token.chars, joint]
  | .bind name value => simp [tokens, text, Token.chars, spell_tokens value]
  | .errorCount => simp [tokens, text, Token.chars]
  | .noErrorsSince name => simp [tokens, text, Token.chars]

theorem spell_operandTokens (operands : List Expr) :
    (operandTokens operands).map Token.spell = (operandTexts operands).map String.toList := by
  match operands with
  | [] => rfl
  | operand :: rest =>
    have here := spell_bracket operand.isCompound (spell_tokens operand)
    simp only [operandTokens, operandTexts, List.map_cons, here, spell_operandTokens rest]

end

theorem apart_bracket (needed : Bool) {tokens : List Token} (apart : Token.Apart tokens) :
    Token.Apart (bracket needed tokens) := by
  cases needed with
  | false => exact apart
  | true =>
    have closed : Token.Apart [.sign ')'] := .sign (by decide) trivial
    exact .sign (by decide) (apart.append closed (by decide))

theorem apart_joint {char : Char} (proper : (Token.sign char).Proper) {rest : List Token}
    (apart : Token.Apart rest) : Token.Apart (joint char ++ rest) :=
  .sign (by decide) (.sign proper (.sign proper (.sign (by decide) apart)))

theorem apart_joinTokens {char : Char} (proper : (Token.sign char).Proper) {neutral : String}
    (word : (Token.word neutral).Proper) {lists : List (List Token)}
    (each : ∀ list ∈ lists, Token.Apart list) : Token.Apart (joinTokens char neutral lists) := by
  cases lists with
  | nil => exact .single word
  | cons first rest =>
    have others : ∀ list ∈ rest, Token.Apart list := fun list member =>
      each list (List.mem_cons_of_mem _ member)
    have later : Token.Apart (rest.flatMap fun operand => joint char ++ operand) ∧
        ∀ next ∈ (rest.flatMap fun operand => joint char ++ operand).head?,
          next.isWord = false := by
      clear each
      induction rest with
      | nil => exact ⟨trivial, fun _ next => (by cases next)⟩
      | cons second rest ih =>
        obtain ⟨apart, noWord⟩ := ih fun list member => others list (List.mem_cons_of_mem _ member)
        rw [List.flatMap_cons, List.append_assoc]
        refine ⟨apart_joint proper ((others second List.mem_cons_self).append apart noWord), ?_⟩
        intro next first
        cases first
        rfl
    exact (each first List.mem_cons_self).append later.1 later.2

mutual

theorem apart_tokens (expr : Expr) (proper : ∀ name ∈ expr.names, name.Proper) :
    Token.Apart expr.tokens := by
  match expr with
  | .undefined => exact .single (by decide)
  | .bool true => exact .single (by decide)
  | .bool false => exact .single (by decide)
  | .str value => exact .single trivial
  | .var name => exact .single (proper name List.mem_cons_self).word
  | .not operand => exact .sign (by decide) (apart_bracket _ (apart_tokens operand proper))
  | .and operands =>
    exact apart_joinTokens (by decide) (by decide) (apart_operandTokens operands proper)
  | .or operands =>
    exact apart_joinTokens (by decide) (by decide) (apart_operandTokens operands proper)
  | .isType data kind =>
    have word := (proper data List.mem_cons_self).word
    have compared : Token.Apart [.sign ' ', .sign '=', .sign '=', .sign ' ', .quoted kind.name] :=
      .sign (by decide) (.sign (by decide) (.sign (by decide) (.sign (by decide)
        (.quoted kind.name trivial))))
    exact .word (by decide) (.sign (by decide) (.word word compared))
  | .hasProperty data property own =>
    have word := (proper data List.mem_cons_self).word
    have test {rest : List Token} (apart : Token.Apart (.word "undefined" :: rest)) :
        Token.Apart (.word data.text :: .sign '[' :: .quoted property :: .sign ']' :: .sign ' ' ::
          .sign '!' :: .sign '=' :: .sign '=' :: .sign ' ' :: .word "undefined" :: rest) :=
      .word word (.sign (by decide) (.quoted property (.sign (by decide) (.sign (by decide)
        (.sign (by decide) (.sign (by decide) (.sign (by decide) (.sign (by decide) apart))))))))
    have call : Token.Apart [.word "hasOwn", .sign '(', .word data.text, .sign ',', .sign ' ',
        .quoted property, .sign ')'] :=
      .word (by decide) (.sign (by decide) (.word word (.sign (by decide) (.sign (by decide)
        (.quoted property (.sign (by decide) trivial))))))
    cases own with
    | false => exact test (.single (by decide))
    | true => exact test (.word (by decide) (apart_joint (by decide) call))
  | .bind name value =>
    have word := (proper name List.mem_cons_self).word
    have inner := apart_tokens value fun name member => proper name (List.mem_cons_of_mem _ member)
    exact .word word (.sign (by decide) (.sign (by decide) (.sign (by decide) inner)))
  | .errorCount => exact .single (by decide)
  | .noErrorsSince name =>
    have word := (proper name List.mem_cons_self).word
    exact .word (by decide) (.sign (by decide) (.sign (by decide) (.sign (by decide)
      (.sign (by decide) (.sign (by decide) (.single word))))))

theorem apart_operandTokens (operands : List Expr)
    (proper : ∀ name ∈ namesAll operands, name.Proper) :
    ∀ list ∈ operandTokens operands, Token.Apart list := by
  match operands with
  | [] =>
    intro list member
    cases member
  | operand :: rest =>
    have here := apart_tokens operand fun name member => proper name (List.mem_append_left _ member)
    have later := apart_operandTokens rest fun name member =>
      proper name (List.mem_append_right _ member)
    intro list member
    rcases List.mem_cons.mp member with rfl | member
    · exact apart_bracket _ here
    · exact later list member

end

end Expr

end SchemaCompiler.Code
