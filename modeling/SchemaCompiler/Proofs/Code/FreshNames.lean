import SchemaCompiler.Emit.Context

/-!
Which names a supply may still give out. A name is a stem and a number, and of stems that do not
end in a digit both can be read off it; so a name that was given out never comes again.
-/

namespace SchemaCompiler.Code

def numbered (stem : String) (number : Nat) : Name := ⟨stem ++ toString number⟩

/-- A text that ends where the number of a name begins. -/
def IsStem (stem : String) : Prop := ∀ last, stem.toList.getLast? = some last → ¬ last.isDigit

theorem isStem_data : IsStem Name.data.text := by
  intro last ends
  cases ends
  decide

theorem isStem_missing : IsStem Emit.missingStem := by
  intro last ends
  cases ends
  decide

theorem isStem_valid : IsStem Emit.validStem := by
  intro last ends
  cases ends
  decide

theorem isStem_before : IsStem Emit.beforeStem := by
  intro last ends
  cases ends
  decide

theorem toList_numbered (stem : String) (number : Nat) :
    (numbered stem number).text.toList = stem.toList ++ Nat.toDigits 10 number := by
  simp only [numbered, Nat.toString_eq_ofList_toDigits, String.toList_append, String.toList_ofList]

theorem eq_nil_of_digits {text : String} {left digits : List Char} (proper : IsStem text)
    (split : text.toList = left ++ digits) (numeric : ∀ char ∈ digits, char.isDigit) :
    digits = [] := by
  cases last : digits.getLast? with
  | none => exact List.getLast?_eq_none_iff.mp last
  | some char =>
    have final : text.toList.getLast? = some char := by
      rw [split, List.getLast?_append, last]
      rfl
    have digit : char.isDigit := numeric char (List.mem_of_getLast? last)
    exact absurd digit (proper char final)

theorem isDigit_of_mem_digits (number : Nat) :
    ∀ char ∈ Nat.toDigits 10 number, char.isDigit := by
  intro char member
  exact Nat.isDigit_of_mem_toDigits (by decide) (by decide) member

theorem stem_eq_of_numbered_eq {stem other : String} {number second : Nat}
    (proper : IsStem stem) (otherProper : IsStem other)
    (same : numbered stem number = numbered other second) : stem = other := by
  have texts : stem.toList ++ Nat.toDigits 10 number = other.toList ++ Nat.toDigits 10 second := by
    rw [← toList_numbered, ← toList_numbered, same]
  apply String.toList_inj.mp
  rcases List.append_eq_append_iff.mp texts with ⟨extra, longer, split⟩ | ⟨extra, longer, split⟩
  · have numeric : ∀ char ∈ extra, char.isDigit := by
      intro char member
      exact isDigit_of_mem_digits number char (split ▸ List.mem_append_left _ member)
    rw [longer, eq_nil_of_digits otherProper longer numeric, List.append_nil]
  · have numeric : ∀ char ∈ extra, char.isDigit := by
      intro char member
      exact isDigit_of_mem_digits second char (split ▸ List.mem_append_left _ member)
    rw [longer, eq_nil_of_digits proper longer numeric, List.append_nil]

theorem number_eq_of_numbered_eq {stem : String} {number second : Nat}
    (same : numbered stem number = numbered stem second) : number = second := by
  have texts : stem.toList ++ Nat.toDigits 10 number = stem.toList ++ Nat.toDigits 10 second := by
    rw [← toList_numbered, ← toList_numbered, same]
  have digits : Nat.toDigits 10 number = Nat.toDigits 10 second := List.append_cancel_left texts
  calc
    number = Nat.ofDigitChars 10 (Nat.toDigits 10 number) 0 := Nat.ofDigitChars_ten_toDigits.symm
    _ = Nat.ofDigitChars 10 (Nat.toDigits 10 second) 0 := by rw [digits]
    _ = second := Nat.ofDigitChars_ten_toDigits

theorem data_ne_numbered (stem : String) (number : Nat) : Name.data ≠ numbered stem number := by
  intro same
  have split : Name.data.text.toList = stem.toList ++ Nat.toDigits 10 number := by
    rw [← toList_numbered, ← same]
  exact Nat.toDigits_ne_nil (eq_nil_of_digits isStem_data split (isDigit_of_mem_digits number))

namespace NameSupply

def Pending (supply : NameSupply) (name : Name) : Prop :=
  ∃ stem number, IsStem stem ∧ supply.count stem ≤ number ∧ name = numbered stem number

def Precedes (earlier later : NameSupply) : Prop := ∀ stem, earlier.count stem ≤ later.count stem

theorem Precedes.refl (supply : NameSupply) : supply.Precedes supply := fun _ => Nat.le_refl _

theorem Precedes.trans {first second third : NameSupply} (left : first.Precedes second)
    (right : second.Precedes third) : first.Precedes third :=
  fun stem => Nat.le_trans (left stem) (right stem)

theorem precedes_fresh (supply : NameSupply) (stem : String) :
    supply.Precedes (supply.fresh stem).2 := by
  intro other
  rw [count_fresh]
  split
  · next same => rw [same]; exact Nat.le_succ _
  · exact Nat.le_refl _

theorem Pending.of_precedes {earlier later : NameSupply} {name : Name}
    (pending : later.Pending name) (order : earlier.Precedes later) : earlier.Pending name := by
  obtain ⟨stem, number, proper, reached, same⟩ := pending
  exact ⟨stem, number, proper, Nat.le_trans (order stem) reached, same⟩

theorem pending_fresh (supply : NameSupply) {stem : String} (proper : IsStem stem) :
    supply.Pending (supply.fresh stem).1 :=
  ⟨stem, supply.count stem, proper, Nat.le_refl _, rfl⟩

theorem not_pending_fresh (supply : NameSupply) {stem : String} (proper : IsStem stem) :
    ¬ (supply.fresh stem).2.Pending (supply.fresh stem).1 := by
  rintro ⟨other, number, otherProper, reached, same⟩
  have given : numbered stem (supply.count stem) = numbered other number := same
  have stems := stem_eq_of_numbered_eq proper otherProper given
  subst stems
  have numbers := number_eq_of_numbered_eq given
  rw [count_fresh, if_pos rfl] at reached
  omega

theorem not_pending_data (supply : NameSupply) : ¬ supply.Pending Name.data := by
  rintro ⟨stem, number, -, -, same⟩
  exact data_ne_numbered stem number same

end NameSupply

end SchemaCompiler.Code
