import Mathlib.Data.List.Induction
import Mathlib.Data.List.Nodup
import SchemaCompiler.Proofs.Code.Events
import SchemaCompiler.Proofs.Code.FreshNames

/-!
Which names made for one buffer differ. The numbers of a stem only grow, so names of one stem differ
from each other and from the root reference. A name does not show where its stem ends, though: the
first name of `stem ++ number` is the one that `stem` comes to at ten times the number. So names
differ exactly as long as no stem comes that far.
-/

namespace SchemaCompiler.Code

inductive Naming where
  | fresh (stem : String)
  | declare (stem : String) (value : Expr)
  | bindData (parent : Name) (property : String)

def Naming.stem : Naming → String
  | fresh stem => stem
  | declare stem _ => stem
  | bindData _ _ => Name.data.text

inductive Emission where
  | name (naming : Naming)
  | write (call : Call)

def Emission.stem? : Emission → Option String
  | name naming => some naming.stem
  | write _ => none

structure Made where
  stem : String
  name : Name

namespace Buffer

def make (buffer : Buffer) : Naming → Name × Buffer
  | .fresh stem => buffer.fresh stem
  | .declare stem value => buffer.declare stem value
  | .bindData parent property => buffer.bindData parent property

def made (buffer : Buffer) : List Emission → List Made
  | [] => []
  | .name naming :: rest =>
    ⟨naming.stem, (buffer.make naming).1⟩ :: (buffer.make naming).2.made rest
  | .write call :: rest => (buffer.call call).made rest

end Buffer

theorem toDigits_of_toDigits_append {front back : List Char} (nonempty : front ≠ []) {number : Nat}
    (split : Nat.toDigits 10 number = front ++ back) (more : back ≠ []) :
    ∃ leading, 0 < leading ∧ 10 * leading ≤ number ∧ front = Nat.toDigits 10 leading := by
  -- The last digit goes with a division by ten, until no digit is left of the second part.
  induction back using List.reverseRecOn generalizing number with
  | nil => exact absurd rfl more
  | append_singleton earlier last ih =>
    have positive := List.length_pos_iff.mpr nonempty
    have long : 10 ≤ number := by
      rcases Nat.lt_or_ge number 10 with short | long
      · have lengths := congrArg List.length split
        rw [Nat.toDigits_of_lt_base short] at lengths
        simp only [List.length_singleton, List.length_append] at lengths
        omega
      · exact long
    rw [Nat.toDigits_of_base_le (by decide) long, ← List.append_assoc] at split
    have shorter := (List.append_inj' split rfl).1
    cases earlier with
    | nil =>
      rw [List.append_nil] at shorter
      exact ⟨number / 10, by omega, by omega, shorter.symm⟩
    | cons first others =>
      rcases ih shorter (List.cons_ne_nil first others) with ⟨leading, above, below, same⟩
      exact ⟨leading, above, by omega, same⟩

/-- The longer stem is the shorter one followed by a positive number, and ten times that number is
at most `number`. -/
def Reaches (shorter : String) (number : Nat) (longer : String) : Prop :=
  ∃ extra, 0 < extra ∧ 10 * extra ≤ number ∧ longer = shorter ++ toString extra

theorem reaches_of_toList {shorter longer : String} {extra : List Char} {number second : Nat}
    (longerText : longer.toList = shorter.toList ++ extra)
    (split : Nat.toDigits 10 number = extra ++ Nat.toDigits 10 second) (apart : shorter ≠ longer) :
    Reaches shorter number longer := by
  have nonempty : extra ≠ [] := by
    intro none
    rw [none, List.append_nil] at longerText
    exact apart (String.toList_inj.mp longerText).symm
  rcases toDigits_of_toDigits_append nonempty split Nat.toDigits_ne_nil with
    ⟨leading, positive, below, same⟩
  refine ⟨leading, positive, below, String.toList_inj.mp ?_⟩
  rw [longerText, same]
  exact (toList_numbered shorter leading).symm

/-- Names can only be equal if their stems and numbers are, or if the number of one begins with what
the stem of the other has more. -/
theorem reaches_of_numbered_eq {stem other : String} {number second : Nat}
    (same : numbered stem number = numbered other second) :
    (stem = other ∧ number = second) ∨ Reaches stem number other ∨ Reaches other second stem := by
  have texts : stem.toList ++ Nat.toDigits 10 number = other.toList ++ Nat.toDigits 10 second := by
    rw [← toList_numbered, ← toList_numbered, same]
  by_cases stems : stem = other
  · subst stems
    exact .inl ⟨rfl, number_eq_of_numbered_eq same⟩
  · rcases List.append_eq_append_iff.mp texts with ⟨extra, longer, split⟩ | ⟨extra, longer, split⟩
    · exact .inr (.inl (reaches_of_toList longer split stems))
    · exact .inr (.inr (reaches_of_toList longer split fun equal => stems equal.symm))

/-- Where a stem extends another one, the tenfold of the number leads to the same name. -/
theorem numbered_zero_eq {stem : String} {number : Nat} (positive : 0 < number) :
    numbered (stem ++ toString number) 0 = numbered stem (10 * number) := by
  have digits : Nat.toDigits 10 number ++ Nat.toDigits 10 0 = Nat.toDigits 10 (10 * number + 0) :=
    Nat.toDigits_append_toDigits (by decide) positive (by decide)
  have texts : (numbered (stem ++ toString number) 0).text.toList =
      (numbered stem (10 * number)).text.toList := by
    have longer : (stem ++ toString number).toList = stem.toList ++ Nat.toDigits 10 number :=
      toList_numbered stem number
    rw [toList_numbered, toList_numbered, longer, List.append_assoc, digits, Nat.add_zero]
  exact congrArg Name.mk (String.toList_inj.mp texts)

namespace NameSupply

def drawn (supply : NameSupply) : List String → List Made
  | [] => []
  | stem :: rest => ⟨stem, (supply.fresh stem).1⟩ :: (supply.fresh stem).2.drawn rest

theorem stems_drawn (supply : NameSupply) (stems : List String) :
    (supply.drawn stems).map Made.stem = stems := by
  induction stems generalizing supply with
  | nil => rfl
  | cons stem rest ih => rw [drawn, List.map_cons, ih]

theorem count_fresh_add_count (supply : NameSupply) (stem : String) (rest : List String)
    (other : String) :
    (supply.fresh stem).2.count other + rest.count other =
      supply.count other + (stem :: rest).count other := by
  by_cases here : stem = other
  · rw [count_fresh, if_pos here, here, List.count_cons_self]
    omega
  · rw [count_fresh, if_neg here, List.count_cons_of_ne here]

theorem numbered_of_mem_drawn (supply : NameSupply) (stems : List String) :
    ∀ made ∈ supply.drawn stems, ∃ number, supply.count made.stem ≤ number ∧
      number < supply.count made.stem + stems.count made.stem ∧
      made.name = numbered made.stem number := by
  induction stems generalizing supply with
  | nil => intro made member; cases member
  | cons stem rest ih =>
    intro made member
    rcases List.mem_cons.mp member with rfl | later
    · refine ⟨supply.count stem, Nat.le_refl _, ?_, rfl⟩
      change supply.count stem < supply.count stem + (stem :: rest).count stem
      rw [List.count_cons_self]
      omega
    · rcases ih (supply.fresh stem).2 made later with ⟨number, reached, below, same⟩
      rw [count_fresh_add_count] at below
      exact ⟨number, Nat.le_trans (supply.precedes_fresh stem made.stem) reached, below, same⟩

theorem mem_drawn (supply : NameSupply) (stems : List String) {stem : String} {number : Nat}
    (reached : supply.count stem ≤ number) (below : number < supply.count stem + stems.count stem) :
    (⟨stem, numbered stem number⟩ : Made) ∈ supply.drawn stems := by
  induction stems generalizing supply with
  | nil =>
    rw [List.count_nil] at below
    omega
  | cons head rest ih =>
    rw [← count_fresh_add_count] at below
    by_cases now : head = stem ∧ number = supply.count stem
    · rw [now.2, ← now.1]
      exact List.mem_cons_self
    · apply List.mem_cons_of_mem
      apply ih (supply.fresh head).2 _ below
      rw [count_fresh]
      split
      · next here =>
        have passed : number ≠ supply.count stem := fun same => now ⟨here, same⟩
        rw [here]
        omega
      · exact reached

/-- Two names are equal only where the stem of one reaches the stem of the other. -/
theorem reaches_of_drawn (supply : NameSupply) (stems : List String) :
    (supply.drawn stems).Pairwise fun first second => first.name = second.name →
      ∃ shorter number longer, longer ∈ stems ∧
        number < supply.count shorter + stems.count shorter ∧ Reaches shorter number longer := by
  induction stems generalizing supply with
  | nil => exact .nil
  | cons stem rest ih =>
    refine .cons ?_ ((ih (supply.fresh stem).2).imp fun meets same => ?_)
    · intro made later same
      rcases numbered_of_mem_drawn _ rest made later with ⟨number, reached, below, named⟩
      have equal : numbered stem (supply.count stem) = numbered made.stem number := same.trans named
      have listed : made.stem ∈ rest := by
        rw [← stems_drawn (supply.fresh stem).2 rest]
        exact List.mem_map_of_mem later
      rcases reaches_of_numbered_eq equal with ⟨stems, numbers⟩ | reaches | reaches
      · rw [count_fresh, if_pos stems] at reached
        omega
      · refine ⟨stem, _, made.stem, List.mem_cons_of_mem _ listed, ?_, reaches⟩
        rw [List.count_cons_self]
        omega
      · rw [count_fresh_add_count] at below
        exact ⟨made.stem, number, stem, List.mem_cons_self, below, reaches⟩
    · rcases meets same with ⟨shorter, number, longer, listed, below, reaches⟩
      rw [count_fresh_add_count] at below
      exact ⟨shorter, number, longer, List.mem_cons_of_mem _ listed, below, reaches⟩

theorem count_initial (stem : String) :
    initial.count stem = if Name.data.text = stem then 1 else 0 := by
  rw [count, initial, OrderedMap.get?_cons]
  split <;> rfl

theorem nodup_drawn_iff (stems : List String) :
    ((initial.drawn stems).map Made.name).Nodup ↔
      ∀ stem number, 0 < number → stem ++ toString number ∈ stems →
        initial.count stem + stems.count stem ≤ 10 * number := by
  constructor
  · intro distinct stem number positive listed
    have unlike : Name.data.text ≠ stem ++ toString number := fun same =>
      data_ne_numbered stem number (congrArg Name.mk same)
    have none : initial.count (stem ++ toString number) = 0 := by rw [count_initial, if_neg unlike]
    have few : initial.count stem ≤ 1 := by
      rw [count_initial]
      split <;> omega
    apply Nat.le_of_not_lt
    intro far
    have first : (⟨stem ++ toString number, numbered (stem ++ toString number) 0⟩ : Made) ∈
        initial.drawn stems := by
      have some := List.count_pos_iff.mpr listed
      exact mem_drawn initial stems (by omega) (by omega)
    have again : (⟨stem, numbered stem (10 * number)⟩ : Made) ∈ initial.drawn stems :=
      mem_drawn initial stems (by omega) far
    have equal := List.inj_on_of_nodup_map distinct first again (numbered_zero_eq positive)
    have shorter : stem ++ toString number = stem := congrArg Made.stem equal
    have texts : stem.toList ++ Nat.toDigits 10 number = stem.toList ++ [] := by
      rw [List.append_nil, ← toList_numbered]
      exact congrArg String.toList shorter
    exact Nat.toDigits_ne_nil (List.append_cancel_left texts)
  · intro room
    rw [List.Nodup, List.pairwise_map]
    refine (reaches_of_drawn initial stems).imp fun meets same => ?_
    rcases meets same with ⟨stem, number, longer, listed, below, extra, positive, reached, rfl⟩
    have bound := room stem extra positive listed
    omega

end NameSupply

namespace Buffer

theorem names_push (buffer : Buffer) (stmt : Stmt) : (buffer.push stmt).names = buffer.names := by
  rw [push_eq_append, names_append]

theorem names_perform (buffer : Buffer) (event : Event) :
    (buffer.perform event).names = buffer.names := by
  rcases buffer with ⟨root, frames, names⟩
  cases event with
  | push stmt => exact names_push ⟨root, frames, names⟩ stmt
  | openIf test => rfl
  | openElse => cases frames <;> rfl
  | closeIf =>
    cases frames with
    | nil => rfl
    | cons frame outer => exact names_push ⟨root, outer, names⟩ frame.stmt

theorem names_replay (events : List Event) (buffer : Buffer) :
    (buffer.replay events).names = buffer.names := by
  induction events generalizing buffer with
  | nil => rfl
  | cons event rest ih => exact (ih (buffer.perform event)).trans (names_perform buffer event)

/-- Only calls for a name take one from the supply. -/
theorem names_call (buffer : Buffer) (call : Call) : (buffer.call call).names = buffer.names := by
  cases call with
  | event event => exact names_perform buffer event
  | closeTo depth =>
    rw [Buffer.call, closeTo_eq_replay]
    exact names_replay _ buffer

theorem make_eq_fresh (buffer : Buffer) (naming : Naming) :
    (buffer.make naming).1 = (buffer.names.fresh naming.stem).1 ∧
      (buffer.make naming).2.names = (buffer.names.fresh naming.stem).2 := by
  cases naming with
  | fresh stem => exact ⟨rfl, rfl⟩
  | declare stem value => exact ⟨rfl, names_push _ _⟩
  | bindData parent property => exact ⟨rfl, names_push _ _⟩

/-- The names depend on the stems alone. -/
theorem made_eq_drawn (emissions : List Emission) (buffer : Buffer) :
    buffer.made emissions = buffer.names.drawn (emissions.filterMap Emission.stem?) := by
  induction emissions generalizing buffer with
  | nil => rfl
  | cons emission rest ih =>
    cases emission with
    | name naming =>
      rcases make_eq_fresh buffer naming with ⟨name, names⟩
      rw [made, ih, name, names]
      rfl
    | write call =>
      rw [made, ih, names_call]
      rfl

theorem nodup_made_of_isStem {emissions : List Emission}
    (proper : ∀ stem ∈ emissions.filterMap Emission.stem?, IsStem stem) :
    ((empty.made emissions).map Made.name).Nodup := by
  rw [made_eq_drawn]
  refine (NameSupply.nodup_drawn_iff _).mpr fun stem number positive listed => ?_
  have split : (stem ++ toString number).toList = stem.toList ++ Nat.toDigits 10 number :=
    toList_numbered stem number
  have digits := isDigit_of_mem_digits number
  exact absurd (eq_nil_of_digits (proper _ listed) split digits) Nat.toDigits_ne_nil

/-- No name is the root reference. All names differ exactly if a stem that stands before a positive
number in another stem has at most ten times that number of names; of the stem of the root reference,
the root reference is one. -/
theorem nodup_made_iff (emissions : List Emission) :
    (∀ made ∈ empty.made emissions, made.name ≠ Name.data) ∧
      (((empty.made emissions).map Made.name).Nodup ↔
        ∀ stem number, 0 < number →
          stem ++ toString number ∈ emissions.filterMap Emission.stem? →
            NameSupply.initial.count stem + (emissions.filterMap Emission.stem?).count stem ≤
              10 * number) := by
  rw [made_eq_drawn]
  refine ⟨?_, NameSupply.nodup_drawn_iff _⟩
  intro made member same
  rcases NameSupply.numbered_of_mem_drawn _ _ made member with ⟨number, -, -, named⟩
  exact data_ne_numbered made.stem number (same.symm.trans named)

theorem not_nodup_made_eleven :
    ¬ ((empty.made (List.replicate 11 (.name (.fresh "a")) ++ [.name (.fresh "a1")])).map
      Made.name).Nodup := by
  decide

end Buffer

end SchemaCompiler.Code
