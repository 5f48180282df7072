import SchemaCompiler.Code.Expr

/-!
Normal forms of expressions. In normal form nothing is left to fold, at any depth: no negation
stands before a literal or another negation, no connective has a single operand, and none has an
operand that it would take in or leave out. The folding constructors build the expressions in normal
form and no others; on them negation undoes itself, and connectives may be regrouped.
-/

namespace SchemaCompiler.Code.Expr

mutual

def parts : Expr → List Expr
  | .not operand => .not operand :: operand.parts
  | .and operands => .and operands :: partsAll operands
  | .or operands => .or operands :: partsAll operands
  | .bind name value => .bind name value :: value.parts
  | other => [other]

def partsAll : List Expr → List Expr
  | [] => []
  | operand :: rest => operand.parts ++ partsAll rest

end

/-- A connective neither takes in the operands of the expression nor leaves it out. -/
def StandsIn (connective : List Expr → Expr) (neutral : Bool) (operand : Expr) : Prop :=
  (∀ inner, operand ≠ connective inner) ∧ operand ≠ .bool neutral

def SettledOperands (connective : List Expr → Expr) (neutral : Bool) (operands : List Expr) :
    Prop :=
  (operands = [] ∨ 2 ≤ operands.length) ∧ ∀ operand ∈ operands, StandsIn connective neutral operand

def Settled : Expr → Prop
  | .not operand => (∀ inner, operand ≠ .not inner) ∧ ∀ value, operand ≠ .bool value
  | .and operands => SettledOperands .and true operands
  | .or operands => SettledOperands .or false operands
  | _ => True

def Normal (expr : Expr) : Prop := ∀ part ∈ expr.parts, part.Settled

/-- Expressions whose negations and connectives are all made by the folding constructors. -/
inductive Folded : Expr → Prop where
  | undefined : Folded .undefined
  | bool (value : Bool) : Folded (.bool value)
  | str (value : String) : Folded (.str value)
  | var (name : Name) : Folded (.var name)
  | isType (data : Name) (kind : Json.Kind) : Folded (.isType data kind)
  | hasProperty (data : Name) (property : String) (own : Bool) :
    Folded (.hasProperty data property own)
  | errorCount : Folded .errorCount
  | noErrorsSince (name : Name) : Folded (.noErrorsSince name)
  | bind (name : Name) {value : Expr} (folded : Folded value) : Folded (.bind name value)
  | negate {operand : Expr} (folded : Folded operand) : Folded operand.negate
  | allOf {exprs : List Expr} (folded : ∀ expr ∈ exprs, Folded expr) : Folded (allOf exprs)
  | anyOf {exprs : List Expr} (folded : ∀ expr ∈ exprs, Folded expr) : Folded (anyOf exprs)

theorem mem_partsAll_iff {part : Expr} {operands : List Expr} :
    part ∈ partsAll operands ↔ ∃ operand ∈ operands, part ∈ operand.parts := by
  induction operands with
  | nil => simp [partsAll]
  | cons operand rest ih => simp [partsAll, ih]

theorem normal_leaf {expr : Expr} (leaf : expr.parts = [expr]) (settled : expr.Settled) :
    expr.Normal := by
  intro part member
  rw [leaf] at member
  rwa [List.mem_singleton.mp member]

theorem normal_cons_iff {expr inner : Expr} (around : expr.parts = expr :: inner.parts) :
    expr.Normal ↔ expr.Settled ∧ inner.Normal := by
  simp only [Normal, around, List.forall_mem_cons]

theorem normal_not_iff (operand : Expr) :
    (not operand).Normal ↔ (not operand).Settled ∧ operand.Normal :=
  normal_cons_iff rfl

theorem normal_bind_iff (name : Name) (value : Expr) : (bind name value).Normal ↔ value.Normal := by
  have around : (bind name value).Normal ↔ True ∧ value.Normal := normal_cons_iff rfl
  rw [around, true_and]

theorem negate_eq_not {operand : Expr} (settled : (not operand).Settled) :
    operand.negate = not operand := by
  cases operand with
  | bool value => exact absurd rfl (settled.2 value)
  | not inner => exact absurd rfl (settled.1 inner)
  | _ => rfl

theorem normal_negate {operand : Expr} (normal : operand.Normal) : operand.negate.Normal := by
  cases operand with
  | bool value => exact normal_leaf rfl trivial
  | not inner => exact ((normal_not_iff inner).mp normal).2
  | _ => exact (normal_not_iff _).mpr ⟨by simp [Settled], normal⟩

theorem negate_negate {expr : Expr} (normal : expr.Normal) : expr.negate.negate = expr := by
  cases expr with
  | bool value => simp only [negate, Bool.not_not]
  | not operand => exact negate_eq_not ((normal_not_iff operand).mp normal).1
  | _ => rfl

/-- What folding needs to know of a connective, of the literal that it leaves out, and of the
operands that an expression contributes to it. -/
structure Flattens (connective : List Expr → Expr) (neutral : Bool)
    (contribute : Expr → List Expr) : Prop where
  taken : ∀ operands, contribute (connective operands) = operands
  dropped : contribute (.bool neutral) = []
  alone : ∀ {operand}, StandsIn connective neutral operand → contribute operand = [operand]
  inside : ∀ operands, (connective operands).parts = connective operands :: partsAll operands
  settled : ∀ operands, (connective operands).Settled ↔ SettledOperands connective neutral operands

theorem flattens_and : Flattens .and true conjuncts where
  taken _ := rfl
  dropped := rfl
  alone {operand} stands := by
    cases operand with
    | and inner => exact absurd rfl (stands.1 inner)
    | bool value =>
      cases value with
      | true => exact absurd rfl stands.2
      | false => rfl
    | _ => rfl
  inside _ := rfl
  settled _ := Iff.rfl

theorem flattens_or : Flattens .or false disjuncts where
  taken _ := rfl
  dropped := rfl
  alone {operand} stands := by
    cases operand with
    | or inner => exact absurd rfl (stands.1 inner)
    | bool value =>
      cases value with
      | true => rfl
      | false => exact absurd rfl stands.2
    | _ => rfl
  inside _ := rfl
  settled _ := Iff.rfl

section Connectives

variable {connective : List Expr → Expr} {neutral : Bool} {contribute : Expr → List Expr}
  (flattens : Flattens connective neutral contribute)

include flattens

theorem normal_connective_iff (operands : List Expr) :
    (connective operands).Normal ↔
      SettledOperands connective neutral operands ∧ ∀ operand ∈ operands, operand.Normal := by
  have below : (∀ part ∈ partsAll operands, part.Settled) ↔
      ∀ operand ∈ operands, operand.Normal := by
    constructor
    · intro settled operand member part inside
      exact settled part (mem_partsAll_iff.mpr ⟨operand, member, inside⟩)
    · intro normal part inside
      rcases mem_partsAll_iff.mp inside with ⟨operand, member, within⟩
      exact normal operand member part within
  simp only [Normal, flattens.inside, List.forall_mem_cons, flattens.settled] at below ⊢
  rw [below]

/-- An expression in normal form contributes operands that a connective keeps as they are. -/
theorem stands_of_contributed {expr : Expr} (normal : expr.Normal) :
    ∀ operand ∈ contribute expr, StandsIn connective neutral operand ∧ operand.Normal := by
  intro operand member
  by_cases stands : StandsIn connective neutral expr
  · rw [flattens.alone stands] at member
    rw [List.mem_singleton.mp member]
    exact ⟨stands, normal⟩
  · rcases Classical.not_and_iff_not_or_not.mp stands with taken | dropped
    · rcases Classical.not_forall.mp taken with ⟨operands, same⟩
      rw [Classical.not_not.mp same] at normal member
      rw [flattens.taken] at member
      have each := (normal_connective_iff flattens operands).mp normal
      exact ⟨each.1.2 operand member, each.2 operand member⟩
    · rw [Classical.not_not.mp dropped, flattens.dropped] at member
      cases member

theorem stands_of_flattened {exprs : List Expr} (normal : ∀ expr ∈ exprs, expr.Normal) :
    ∀ operand ∈ exprs.flatMap contribute,
      StandsIn connective neutral operand ∧ operand.Normal := by
  intro operand member
  rcases List.mem_flatMap.mp member with ⟨expr, listed, contributed⟩
  exact stands_of_contributed flattens (normal expr listed) operand contributed

theorem normal_connect {operands : List Expr}
    (kept : ∀ operand ∈ operands, StandsIn connective neutral operand ∧ operand.Normal) :
    (connect connective operands).Normal := by
  have several (long : operands = [] ∨ 2 ≤ operands.length) : (connective operands).Normal :=
    (normal_connective_iff flattens operands).mpr
      ⟨⟨long, fun operand member => (kept operand member).1⟩,
        fun operand member => (kept operand member).2⟩
  match operands with
  | [] => exact several (.inl rfl)
  | [operand] => exact (kept operand List.mem_cons_self).2
  | first :: second :: rest => exact several (.inr (by simp))

theorem contribute_connect {operands : List Expr}
    (kept : ∀ operand ∈ operands, StandsIn connective neutral operand ∧ operand.Normal) :
    contribute (connect connective operands) = operands := by
  match operands with
  | [] => exact flattens.taken []
  | [operand] => exact flattens.alone (kept operand List.mem_cons_self).1
  | first :: second :: rest => exact flattens.taken _

theorem normal_flattened {exprs : List Expr} (normal : ∀ expr ∈ exprs, expr.Normal) :
    (connect connective (exprs.flatMap contribute)).Normal :=
  normal_connect flattens (stands_of_flattened flattens normal)

theorem connect_regroup {left right : List Expr} (onLeft : ∀ expr ∈ left, expr.Normal)
    (onRight : ∀ expr ∈ right, expr.Normal) :
    connect connective ((left ++ right).flatMap contribute) =
      connect connective ([connect connective (left.flatMap contribute),
        connect connective (right.flatMap contribute)].flatMap contribute) := by
  have first := contribute_connect flattens (stands_of_flattened flattens onLeft)
  have second := contribute_connect flattens (stands_of_flattened flattens onRight)
  simp only [List.flatMap_cons, List.flatMap_nil, List.append_nil, List.flatMap_append, first,
    second]

/-- In normal form a connective is what its operands are folded to. -/
theorem connect_operands {operands : List Expr}
    (settled : SettledOperands connective neutral operands) :
    connect connective (operands.flatMap contribute) = connective operands := by
  have alone : operands.map contribute = operands.map fun operand => [operand] :=
    List.map_congr_left fun operand member => flattens.alone (settled.2 operand member)
  have same : operands.flatMap contribute = operands := by
    rw [List.flatMap_def, alone, ← List.flatMap_def, List.flatMap_singleton']
  rw [same]
  rcases settled.1 with rfl | long
  · rfl
  · match operands with
    | _ :: _ :: _ => rfl

end Connectives

theorem Folded.normal {expr : Expr} (folded : Folded expr) : expr.Normal := by
  induction folded with
  | bind name folded ih => exact (normal_bind_iff name _).mpr ih
  | negate folded ih => exact normal_negate ih
  | allOf folded ih => exact normal_flattened flattens_and ih
  | anyOf folded ih => exact normal_flattened flattens_or ih
  | _ => exact normal_leaf rfl trivial

mutual

theorem folded_of_normal : ∀ expr : Expr, expr.Normal → Folded expr
  | .undefined, _ => .undefined
  | .bool value, _ => .bool value
  | .str value, _ => .str value
  | .var name, _ => .var name
  | .isType data kind, _ => .isType data kind
  | .hasProperty data property own, _ => .hasProperty data property own
  | .errorCount, _ => .errorCount
  | .noErrorsSince name, _ => .noErrorsSince name
  | .bind name value, normal =>
    .bind name (folded_of_normal value ((normal_bind_iff name value).mp normal))
  | .not operand, normal => by
    have inner := (normal_not_iff operand).mp normal
    rw [← negate_eq_not inner.1]
    exact .negate (folded_of_normal operand inner.2)
  | .and operands, normal => by
    have inner := (normal_connective_iff flattens_and operands).mp normal
    rw [← connect_operands flattens_and inner.1]
    exact .allOf (folded_all_of_normal operands inner.2)
  | .or operands, normal => by
    have inner := (normal_connective_iff flattens_or operands).mp normal
    rw [← connect_operands flattens_or inner.1]
    exact .anyOf (folded_all_of_normal operands inner.2)

theorem folded_all_of_normal : ∀ operands : List Expr, (∀ operand ∈ operands, operand.Normal) →
    ∀ operand ∈ operands, Folded operand
  | [], _ => fun _ member => by cases member
  | first :: rest, normal => by
    rcases List.forall_mem_cons.mp normal with ⟨here, later⟩
    exact List.forall_mem_cons.mpr ⟨folded_of_normal first here, folded_all_of_normal rest later⟩

end

/-- The folding constructors build the expressions in normal form and no others. On what they build,
negating twice changes nothing, and folding a list at once is folding it in two halves. -/
theorem folded_iff_normal :
    (∀ expr, Folded expr ↔ expr.Normal) ∧
      (∀ expr, Folded expr → expr.negate.negate = expr) ∧
      ∀ left right, (∀ expr ∈ left, Folded expr) → (∀ expr ∈ right, Folded expr) →
        allOf (left ++ right) = allOf [allOf left, allOf right] ∧
          anyOf (left ++ right) = anyOf [anyOf left, anyOf right] := by
  refine ⟨fun expr => ⟨Folded.normal, folded_of_normal expr⟩, ?_, ?_⟩
  · intro expr folded
    exact negate_negate folded.normal
  · intro left right onLeft onRight
    have normalLeft : ∀ expr ∈ left, expr.Normal := fun expr member => (onLeft expr member).normal
    have normalRight : ∀ expr ∈ right, expr.Normal := fun expr member =>
      (onRight expr member).normal
    exact ⟨connect_regroup flattens_and normalLeft normalRight,
      connect_regroup flattens_or normalLeft normalRight⟩

section Voucher

def voucherFault : Expr :=
  anyOf [negate (negate (negate (.var ⟨"valid0"⟩))), anyOf [],
    negate (.hasProperty ⟨"data1"⟩ "code" false)]

def voucherTest : Expr :=
  allOf [.hasProperty .data "voucher" true, allOf [voucherFault, .bool true]]

theorem folded_voucherTest : Folded voucherTest := by
  have nothing : Folded (anyOf []) := .anyOf fun _ member => by cases member
  have wrong : Folded (negate (negate (negate (.var ⟨"valid0"⟩)))) :=
    .negate (.negate (.negate (.var _)))
  have codeless : Folded (negate (.hasProperty ⟨"data1"⟩ "code" false)) :=
    .negate (.hasProperty _ _ _)
  have fault : Folded voucherFault := .anyOf (by simp [nothing, wrong, codeless])
  have inner : Folded (allOf [voucherFault, .bool true]) := .allOf (by simp [fault, Folded.bool])
  exact .allOf (by simp [inner, Folded.hasProperty])

theorem folded_iff_normal_voucher :
    Folded voucherTest ∧ voucherTest.Normal ∧ voucherTest.negate.negate = voucherTest ∧
      allOf ([voucherTest] ++ [voucherTest.negate, .bool true]) =
        allOf [allOf [voucherTest], allOf [voucherTest.negate, .bool true]] ∧
      anyOf ([voucherTest] ++ [voucherTest.negate, .bool true]) =
        anyOf [anyOf [voucherTest], anyOf [voucherTest.negate, .bool true]] := by
  have folded := folded_voucherTest
  have onLeft : ∀ expr ∈ [voucherTest], Folded expr := by simp [folded]
  have onRight : ∀ expr ∈ [voucherTest.negate, .bool true], Folded expr := by
    simp [Folded.negate folded, Folded.bool]
  exact ⟨folded, (folded_iff_normal.1 voucherTest).mp folded, folded_iff_normal.2.1 _ folded,
    folded_iff_normal.2.2 _ _ onLeft onRight⟩

end Voucher

/-- Outside the normal form negation need not undo itself. -/
example : (Expr.not (.bool true)).negate.negate = .bool false := rfl

end SchemaCompiler.Code.Expr
