import SchemaCompiler.Proofs.Code.Tokens

/-!
Reading expressions back from their tokens. Only connectives and bindings are put in parentheses, so
a reader has to tell from what follows where an operand ends. It reads every expression whose names
are proper and whose connectives have two operands or more; so no two of these have the same text.
-/

namespace SchemaCompiler.Code

namespace Expr

abbrev Read := List Token → Option (Expr × List Token)

def readKind : Read
  | .sign ' ' :: .word data :: .sign ' ' :: .sign '=' :: .sign '=' :: .sign ' ' :: .quoted kind ::
      rest => (Json.Kind.ofName? kind).map fun kind => (isType ⟨data⟩ kind, rest)
  | _ => none

def readCount : List Token → Expr × List Token
  | .sign ' ' :: .sign '=' :: .sign '=' :: .sign '=' :: .sign ' ' :: .word name :: rest =>
    (noErrorsSince ⟨name⟩, rest)
  | rest => (errorCount, rest)

/-- What follows the comparison of a property with `undefined`: the test for a member of its own, if
it is one. -/
def readOwn (data : Name) (property : String) : List Token → Expr × List Token
  | .sign ' ' :: .sign '&' :: .sign '&' :: .sign ' ' :: .word "hasOwn" :: .sign '(' :: .word _ ::
      .sign ',' :: .sign ' ' :: .quoted _ :: .sign ')' :: rest =>
    (hasProperty data property true, rest)
  | rest => (hasProperty data property false, rest)

def readNamed (full : Read) (name : Name) : Read
  | .sign '[' :: .quoted property :: .sign ']' :: .sign ' ' :: .sign '!' :: .sign '=' ::
      .sign '=' :: .sign ' ' :: .word "undefined" :: rest => some (readOwn name property rest)
  | .sign ' ' :: .sign '=' :: .sign ' ' :: rest =>
    (full rest).map fun (value, rest) => (bind name value, rest)
  | rest => some (var name, rest)

def readWord (full : Read) (word : String) (rest : List Token) : Option (Expr × List Token) :=
  if word = "undefined" then some (undefined, rest)
  else if word = "true" then some (bool true, rest)
  else if word = "false" then some (bool false, rest)
  else if word = "typeof" then readKind rest
  else if word = "errors" then some (readCount rest)
  else readNamed full ⟨word⟩ rest

def readOperand (full : Read) : Read
  | .sign '!' :: rest =>
    (readOperand full rest).map fun (operand, rest) => (not operand, rest)
  | .sign '(' :: rest =>
    match full rest with
    | some (inner, .sign ')' :: rest) => some (inner, rest)
    | _ => none
  | .quoted value :: rest => some (str value, rest)
  | .word word :: rest => readWord full word rest
  | _ => none

def readJoined (char : Char) (operand : Read) : Nat → List Token → Option (List Expr × List Token)
  | count + 1, .sign ' ' :: .sign first :: .sign second :: .sign ' ' :: rest =>
    if first = char ∧ second = char then do
      let (next, rest) ← operand rest
      let (more, rest) ← readJoined char operand count rest
      some (next :: more, rest)
    else some ([], .sign ' ' :: .sign first :: .sign second :: .sign ' ' :: rest)
  | _, rest => some ([], rest)

def readFull : Nat → Read
  | 0, _ => none
  | fuel + 1, tokens => do
    let (first, rest) ← readOperand (readFull fuel) tokens
    let (conjuncts, rest) ← readJoined '&' (readOperand (readFull fuel)) fuel rest
    let (disjuncts, rest) ← readJoined '|' (readOperand (readFull fuel)) fuel rest
    some (connect or (connect and (first :: conjuncts) :: disjuncts), rest)

inductive Ends : List Token → Prop where
  | done : Ends []
  | close (rest : List Token) : Ends (.sign ')' :: rest)

/-- What may follow an operand. A call of `hasOwn` after `&&` would belong to the operand. -/
inductive Follows : List Token → Prop where
  | ends {rest : List Token} (ends : Ends rest) : Follows rest
  | joined {char : Char} (sign : char = '&' ∨ char = '|') {rest : List Token}
      (noCall : ∀ more, rest ≠ .word "hasOwn" :: more) : Follows (joint char ++ rest)

mutual

def isConnected : Expr → Bool
  | not operand => operand.isConnected
  | and operands => decide (2 ≤ operands.length) && allConnected operands
  | or operands => decide (2 ≤ operands.length) && allConnected operands
  | bind _ value => value.isConnected
  | _ => true

def allConnected : List Expr → Bool
  | [] => true
  | operand :: rest => operand.isConnected && allConnected rest

end

mutual

def weight : Expr → Nat
  | not operand => operand.weight + 1
  | and operands => weightAll operands + 1
  | or operands => weightAll operands + 1
  | bind _ value => value.weight + 2
  | _ => 1

def weightAll : List Expr → Nat
  | [] => 0
  | operand :: rest => operand.weight + weightAll rest + 1

end

section Operands

variable {rest : List Token} (follows : Follows rest)

include follows

theorem readCount_of_follows : readCount rest = (errorCount, rest) := by
  unfold readCount
  split
  · rcases follows with ⟨_ | _⟩ | ⟨sign, noCall⟩
  · rfl

theorem readOwn_of_follows (data : Name) (property : String) :
    readOwn data property rest = (hasProperty data property false, rest) := by
  unfold readOwn
  split
  · rcases follows with ⟨_ | _⟩ | ⟨sign, noCall⟩
    exact (noCall _ rfl).elim
  · rfl

theorem readNamed_of_follows (full : Read) (name : Name) :
    readNamed full name rest = some (var name, rest) := by
  unfold readNamed
  split
  · rcases follows with ⟨_ | _⟩ | ⟨sign, noCall⟩
  · rcases follows with ⟨_ | _⟩ | ⟨sign, noCall⟩
  · rfl

end Operands

theorem readJoined_of_ends (char : Char) (operand : Read) (count : Nat) {rest : List Token}
    (ends : Ends rest) : readJoined char operand count rest = some ([], rest) := by
  cases ends <;> cases count <;> rfl

theorem readFull_operand {fuel : Nat} {tokens rest : List Token} {expr : Expr} (ends : Ends rest)
    (first : readOperand (readFull fuel) tokens = some (expr, rest)) :
    readFull (fuel + 1) tokens = some (expr, rest) := by
  simp only [readFull, first, readJoined_of_ends _ _ _ ends, Option.bind_eq_bind, Option.bind_some,
    connect]

/-- An operand begins with no call. -/
theorem no_call (expr : Expr) (proper : ∀ name ∈ expr.names, name.Proper) (rest : List Token) :
    ∀ more, bracket expr.isCompound expr.tokens ++ rest ≠ .word "hasOwn" :: more := by
  have other {name : Name} (proper : name.Proper) : name.text ≠ "hasOwn" := by
    intro call
    exact proper.not_reserved (call ▸ by decide)
  intro more same
  have head := congrArg List.head? same
  cases expr with
  | var name =>
    simp only [bracket, isCompound, tokens, List.cons_append, List.head?_cons, Option.some.injEq,
      Token.word.injEq, Bool.false_eq_true, ↓reduceIte] at head
    exact other (proper name List.mem_cons_self) head
  | hasProperty data property own =>
    simp only [bracket, isCompound, tokens, List.cons_append, List.head?_cons, Option.some.injEq,
      Token.word.injEq, Bool.false_eq_true, ↓reduceIte] at head
    exact other (proper data List.mem_cons_self) head
  | bool value => cases value <;> simp [bracket, isCompound, tokens] at head
  | _ => simp [bracket, isCompound, tokens] at head

theorem readWord_name {name : Name} (proper : name.Proper) (full : Read) (rest : List Token) :
    readWord full name.text rest = readNamed full name rest := by
  have other := proper.not_reserved
  simp only [reservedWords, List.mem_cons, not_or] at other
  obtain ⟨notUndefined, notTrue, notFalse, notTypeof, notErrors, -⟩ := other
  rw [readWord, if_neg notUndefined, if_neg notTrue, if_neg notFalse, if_neg notTypeof,
    if_neg notErrors]

structure ReadsBack (expr : Expr) : Prop where
  operand : ∀ fuel rest, expr.weight ≤ fuel → Follows rest →
    readOperand (readFull fuel) (bracket expr.isCompound expr.tokens ++ rest) = some (expr, rest)
  full : ∀ fuel rest, expr.weight < fuel → Ends rest →
    readFull fuel (expr.tokens ++ rest) = some (expr, rest)

theorem ReadsBack.of_operand {expr : Expr} (simple : expr.isCompound = false)
    (operand : ∀ fuel rest, expr.weight ≤ fuel → Follows rest →
      readOperand (readFull fuel) (expr.tokens ++ rest) = some (expr, rest)) : ReadsBack expr where
  operand := by
    intro fuel rest enough follows
    rw [simple]
    exact operand fuel rest enough follows
  full := by
    intro fuel rest enough ends
    cases fuel with
    | zero => cases enough
    | succ fuel =>
      exact readFull_operand ends (operand fuel rest (Nat.le_of_lt_succ enough) (.ends ends))

theorem readOperand_parenthesised {full : Read} {tokens rest : List Token} {expr : Expr}
    (inside : full (tokens ++ .sign ')' :: rest) = some (expr, .sign ')' :: rest)) :
    readOperand full (bracket true tokens ++ rest) = some (expr, rest) := by
  have opened : bracket true tokens ++ rest = .sign '(' :: (tokens ++ .sign ')' :: rest) := by
    rw [bracket, if_pos rfl, List.cons_append, List.append_assoc, List.singleton_append]
  simp only [opened, readOperand, inside]

theorem weight_pos (expr : Expr) : 0 < expr.weight := by
  cases expr <;> exact Nat.succ_pos _

theorem ReadsBack.of_full {expr : Expr} (compound : expr.isCompound = true)
    (full : ∀ fuel rest, expr.weight ≤ fuel + 1 → Ends rest →
      readFull (fuel + 1) (expr.tokens ++ rest) = some (expr, rest)) : ReadsBack expr := by
  have whole : ∀ fuel rest, expr.weight ≤ fuel → Ends rest →
      readFull fuel (expr.tokens ++ rest) = some (expr, rest) := by
    intro fuel rest enough ends
    obtain ⟨fuel, rfl⟩ := Nat.exists_eq_add_one.mpr (Nat.lt_of_lt_of_le expr.weight_pos enough)
    exact full fuel rest enough ends
  constructor
  · intro fuel rest enough follows
    rw [compound]
    exact readOperand_parenthesised (whole fuel _ enough (.close rest))
  · intro fuel rest enough ends
    exact whole fuel rest (Nat.le_of_lt enough) ends

theorem readsBack_not {operand : Expr} (inner : ReadsBack operand) : ReadsBack (not operand) := by
  refine .of_operand rfl fun fuel rest enough follows => ?_
  have smaller : operand.weight < fuel := enough
  have negated : readOperand (readFull fuel)
      (bracket (operand.isComparison || operand.isCompound) operand.tokens ++ rest) =
        some (operand, rest) := by
    have asOperand := inner.operand fuel rest (Nat.le_of_lt smaller) follows
    -- What is compound is in parentheses as any operand; a comparison is so under `!` only.
    cases compound : operand.isCompound with
    | true =>
      rw [compound] at asOperand
      rwa [Bool.or_true]
    | false =>
      rw [compound] at asOperand
      rw [Bool.or_false]
      cases operand.isComparison with
      | true => exact readOperand_parenthesised (inner.full fuel _ smaller (.close rest))
      | false => exact asOperand
  exact congrArg (Option.map fun (operand, rest) => (not operand, rest)) negated

/-- The value of a binding reaches as far as the binding does, so it is read as a whole. -/
theorem readsBack_bind {name : Name} (proper : name.Proper) {value : Expr}
    (inner : ReadsBack value) : ReadsBack (bind name value) := by
  refine .of_full rfl fun fuel rest enough ends => ?_
  have assigned := inner.full fuel rest (Nat.le_of_succ_le_succ enough) ends
  have named := readWord_name proper (readFull fuel)
    (.sign ' ' :: .sign '=' :: .sign ' ' :: (value.tokens ++ rest))
  have bound : readNamed (readFull fuel) name
      (.sign ' ' :: .sign '=' :: .sign ' ' :: (value.tokens ++ rest)) =
        some (bind name value, rest) := by
    simp only [readNamed, assigned, Option.map_some]
  exact readFull_operand ends (named.trans bound)

section Chains

def chain (char : Char) (operands : List Expr) : List Token :=
  (operandTokens operands).flatMap fun operand => joint char ++ operand

theorem chain_cons (char : Char) (operand : Expr) (operands : List Expr) (rest : List Token) :
    chain char (operand :: operands) ++ rest = joint char ++
      (bracket operand.isCompound operand.tokens ++ (chain char operands ++ rest)) := by
  simp only [chain, operandTokens, List.flatMap_cons, List.append_assoc]

variable {char : Char} (sign : char = '&' ∨ char = '|') {rest : List Token} (ends : Ends rest)

include sign ends

theorem follows_chain {operands : List Expr} (proper : ∀ name ∈ namesAll operands, name.Proper) :
    Follows (chain char operands ++ rest) := by
  cases operands with
  | nil => exact .ends ends
  | cons operand operands =>
    rw [chain_cons]
    exact .joined sign (no_call operand (fun name member =>
      proper name (List.mem_append_left _ member)) _)

theorem readJoined_chain {fuel : Nat} {operands : List Expr}
    (each : ∀ operand ∈ operands, ReadsBack operand)
    (proper : ∀ name ∈ namesAll operands, name.Proper) (enough : weightAll operands ≤ fuel)
    {count : Nat} (all : operands.length ≤ count) :
    readJoined char (readOperand (readFull fuel)) count (chain char operands ++ rest) =
      some (operands, rest) := by
  induction operands generalizing count with
  | nil => exact readJoined_of_ends _ _ _ ends
  | cons operand operands ih =>
    rw [weightAll] at enough
    have others : ∀ name ∈ namesAll operands, name.Proper := fun name member =>
      proper name (List.mem_append_right _ member)
    cases count with
    | zero => cases all
    | succ count =>
      have here := (each operand List.mem_cons_self).operand fuel (chain char operands ++ rest)
        (by omega) (follows_chain sign ends others)
      have later := ih (fun operand member => each operand (List.mem_cons_of_mem _ member)) others
        (by omega) (Nat.le_of_succ_le_succ all)
      simp only [chain_cons, joint, List.cons_append, List.nil_append, readJoined, and_self,
        ↓reduceIte, here, later, Option.bind_eq_bind, Option.bind_some]

end Chains

theorem length_le_weightAll (operands : List Expr) : operands.length ≤ weightAll operands := by
  induction operands with
  | nil => exact Nat.le_refl 0
  | cons operand operands ih =>
    rw [weightAll, List.length_cons]
    omega

/-- A disjunction does not go on as a conjunction. -/
theorem readJoined_other (operand : Read) (count : Nat) (next : Expr) (more : List Expr)
    (rest : List Token) :
    readJoined '&' operand count (chain '|' (next :: more) ++ rest) =
      some ([], chain '|' (next :: more) ++ rest) := by
  cases count with
  | zero => rfl
  | succ count =>
    have differ : ¬ ('|' = '&' ∧ '|' = '&') := by decide
    simp only [chain_cons, joint, List.cons_append, List.nil_append, readJoined, if_neg differ]

section Connectives

variable {first second : Expr} {more : List Expr}
  (each : ∀ operand ∈ first :: second :: more, ReadsBack operand)
  (proper : ∀ name ∈ namesAll (first :: second :: more), name.Proper)

include each proper

/-- The operands of a connective are read one by one, wherever it ends. -/
theorem readOperands {char : Char} (sign : char = '&' ∨ char = '|') {fuel : Nat}
    (enough : weightAll (first :: second :: more) ≤ fuel) {rest : List Token} (ends : Ends rest) :
    readOperand (readFull fuel) (bracket first.isCompound first.tokens ++
        (chain char (second :: more) ++ rest)) =
      some (first, chain char (second :: more) ++ rest) ∧
    readJoined char (readOperand (readFull fuel)) fuel (chain char (second :: more) ++ rest) =
      some (second :: more, rest) := by
  have others : ∀ name ∈ namesAll (second :: more), name.Proper := fun name member =>
    proper name (List.mem_append_right _ member)
  have length := length_le_weightAll (second :: more)
  rw [weightAll] at enough
  constructor
  · exact (each first List.mem_cons_self).operand fuel _ (by omega) (follows_chain sign ends others)
  · exact readJoined_chain sign ends (fun operand member =>
      each operand (List.mem_cons_of_mem _ member)) others (by omega) (by omega)

theorem readsBack_and : ReadsBack (and (first :: second :: more)) := by
  refine .of_full rfl fun fuel rest enough ends => ?_
  obtain ⟨head, tail⟩ := readOperands each proper (.inl rfl) (Nat.le_of_succ_le_succ enough) ends
  have apart : (and (first :: second :: more)).tokens ++ rest =
      bracket first.isCompound first.tokens ++ (chain '&' (second :: more) ++ rest) :=
    List.append_assoc _ _ _
  simp only [apart, readFull, head, tail, readJoined_of_ends _ _ _ ends, Option.bind_eq_bind,
    Option.bind_some, connect]

theorem readsBack_or : ReadsBack (or (first :: second :: more)) := by
  refine .of_full rfl fun fuel rest enough ends => ?_
  obtain ⟨head, tail⟩ := readOperands each proper (.inr rfl) (Nat.le_of_succ_le_succ enough) ends
  have apart : (or (first :: second :: more)).tokens ++ rest =
      bracket first.isCompound first.tokens ++ (chain '|' (second :: more) ++ rest) :=
    List.append_assoc _ _ _
  simp only [apart, readFull, head, tail, readJoined_other, Option.bind_eq_bind,
    Option.bind_some, connect]

end Connectives

mutual

theorem readsBack (expr : Expr) (connected : expr.isConnected = true)
    (proper : ∀ name ∈ expr.names, name.Proper) : ReadsBack expr := by
  match expr with
  | .undefined => exact .of_operand rfl fun _ _ _ _ => rfl
  | .bool true => exact .of_operand rfl fun _ _ _ _ => rfl
  | .bool false => exact .of_operand rfl fun _ _ _ _ => rfl
  | .str value => exact .of_operand rfl fun _ _ _ _ => rfl
  | .var name =>
    refine .of_operand rfl fun fuel rest _ follows => ?_
    have named := readWord_name (proper name List.mem_cons_self) (readFull fuel) rest
    rw [readNamed_of_follows follows] at named
    exact named
  | .not operand => exact readsBack_not (readsBack operand connected proper)
  | .and (first :: second :: more) =>
    have parts := (Bool.and_eq_true_iff.mp connected).2
    exact readsBack_and (readsBackAll (first :: second :: more) parts proper) proper
  | .and [] | .and [_] => cases connected
  | .or (first :: second :: more) =>
    have parts := (Bool.and_eq_true_iff.mp connected).2
    exact readsBack_or (readsBackAll (first :: second :: more) parts proper) proper
  | .or [] | .or [_] => cases connected
  | .isType data kind =>
    refine .of_operand rfl fun fuel rest _ _ => ?_
    exact congrArg (Option.map fun kind => (isType data kind, rest)) kind.ofName?_name
  | .hasProperty data property own =>
    refine .of_operand rfl fun fuel rest _ follows => ?_
    have named := readWord_name (proper data List.mem_cons_self) (readFull fuel)
    cases own with
    | true => exact named _
    | false =>
      -- Nothing that may follow is read as the call that would make it a test for an own member.
      have ended := congrArg some (readOwn_of_follows follows data property)
      exact (named _).trans ended
  | .bind name value =>
    have inner := readsBack value connected fun name member =>
      proper name (List.mem_cons_of_mem _ member)
    exact readsBack_bind (proper name List.mem_cons_self) inner
  | .errorCount =>
    refine .of_operand rfl fun fuel rest _ follows => ?_
    exact congrArg some (readCount_of_follows follows)
  | .noErrorsSince name => exact .of_operand rfl fun _ _ _ _ => rfl

theorem readsBackAll (operands : List Expr) (connected : allConnected operands = true)
    (proper : ∀ name ∈ namesAll operands, name.Proper) :
    ∀ operand ∈ operands, ReadsBack operand := by
  match operands with
  | [] =>
    intro operand member
    cases member
  | first :: rest =>
    obtain ⟨onFirst, onRest⟩ := Bool.and_eq_true_iff.mp connected
    have here := readsBack first onFirst fun name member =>
      proper name (List.mem_append_left _ member)
    have later := readsBackAll rest onRest fun name member =>
      proper name (List.mem_append_right _ member)
    intro operand member
    rcases List.mem_cons.mp member with rfl | member
    · exact here
    · exact later operand member

end

/-- An expression can be read back from its text: expressions with the same text are the same, as
long as every connective has two operands or more and all names are proper. -/
theorem eq_of_text_eq {first second : Expr} (firstConnected : first.isConnected = true)
    (secondConnected : second.isConnected = true)
    (firstProper : ∀ name ∈ first.names, name.Proper)
    (secondProper : ∀ name ∈ second.names, name.Proper) (same : first.text = second.text) :
    first = second := by
  have spelled : Token.spell first.tokens = Token.spell second.tokens := by
    rw [spell_tokens, spell_tokens, same]
  have tokens : first.tokens = second.tokens :=
    Token.spell_inj (apart_tokens first firstProper) (apart_tokens second secondProper) spelled
  -- With fuel for both, the same tokens are read once as the one and once as the other.
  let fuel := first.weight + second.weight + 1
  have readFirst := (readsBack first firstConnected firstProper).full fuel [] (by omega) .done
  have readSecond := (readsBack second secondConnected secondProper).full fuel [] (by omega) .done
  rw [tokens, readSecond] at readFirst
  cases readFirst
  rfl

-- A connective of one operand has the text of that operand.
example : (and [errorCount]).text = errorCount.text := by decide

def ownMember : Expr :=
  and [hasProperty .data "a\"] && b" true, or [var ⟨"valid0"⟩, not (noErrorsSince ⟨"errs12"⟩)]]

def foldedMember : Expr :=
  allOf [bool true, present .data "a\"] && b" true,
    anyOf [or [var ⟨"valid0"⟩], negate (noErrorsSince ⟨"errs12"⟩)]]

theorem ownMember_eq_folded :
    ownMember.isConnected = true ∧ foldedMember.isConnected = true ∧
      (∀ name ∈ ownMember.names, name.Proper) ∧ (∀ name ∈ foldedMember.names, name.Proper) ∧
      ownMember.text = foldedMember.text ∧ ownMember = foldedMember := by
  have proper : ∀ name ∈ [.data, ⟨"valid0"⟩, ⟨"errs12"⟩], Name.Proper name := by
    intro name member
    rcases List.mem_cons.mp member with rfl | member
    · exact .inl rfl
    rcases List.mem_cons.mp member with rfl | member
    · exact .inr ⟨"valid".toList, ['0'], by decide, by decide, by decide, by decide, by decide⟩
    rw [List.mem_singleton.mp member]
    exact .inr ⟨"errs".toList, ['1', '2'], by decide, by decide, by decide, by decide, by decide⟩
  exact ⟨rfl, rfl, proper, proper, rfl, eq_of_text_eq rfl rfl proper proper rfl⟩

end Expr

end SchemaCompiler.Code
