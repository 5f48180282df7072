import Mathlib.Tactic.SplitIfs
import SchemaCompiler.Json.Text
import SchemaCompiler.Proofs.Code.FreshNames

/-!
Texts without a newline. The compact text of a JSON value is one: a newline in a string is escaped,
and numbers are written with digits, signs, a point and an exponent.
-/

namespace SchemaCompiler

def OneLine (text : String) : Prop := '\n' ∉ text.toList

namespace OneLine

instance (text : String) : Decidable (OneLine text) :=
  inferInstanceAs (Decidable ('\n' ∉ text.toList))

@[simp] theorem append_iff (left right : String) :
    OneLine (left ++ right) ↔ OneLine left ∧ OneLine right := by
  simp only [OneLine, String.toList_append, List.mem_append, not_or]

@[simp] theorem ofList_iff (chars : List Char) : OneLine (String.ofList chars) ↔ '\n' ∉ chars := by
  rw [OneLine, String.toList_ofList]

theorem intercalate {sign : String} (plain : OneLine sign) {texts : List String}
    (each : ∀ text ∈ texts, OneLine text) : OneLine (sign.intercalate texts) := by
  induction texts with
  | nil =>
    rw [String.intercalate_nil]
    decide
  | cons text rest ih =>
    have here := each text List.mem_cons_self
    have later := ih fun text member => each text (List.mem_cons_of_mem _ member)
    cases rest with
    | nil => rwa [String.intercalate_singleton]
    | cons next rest =>
      rw [String.intercalate_cons_cons, append_iff, append_iff]
      exact ⟨⟨here, plain⟩, later⟩

theorem nat (number : Nat) : OneLine (toString number) := by
  rw [Nat.toString_eq_ofList_toDigits, ofList_iff]
  intro newline
  exact absurd (Code.isDigit_of_mem_digits number _ newline) (by decide)

theorem int (number : Int) : OneLine (toString number) := by
  cases number with
  | ofNat count => exact nat count
  | negSucc count => exact (append_iff "-" _).mpr ⟨by decide, nat (count + 1)⟩

end OneLine

namespace Json

theorem Decimal.oneLine_zeros (count : Nat) : OneLine (Decimal.zeros count) := by
  rw [Decimal.zeros, OneLine.ofList_iff]
  intro newline
  exact absurd (List.eq_of_mem_replicate newline) (by decide)

theorem Decimal.oneLine_textUnsigned {digits : String} (plain : OneLine digits) (exponent : Int) :
    OneLine (Decimal.textUnsigned digits exponent) := by
  have taken (count : Nat) : OneLine (String.ofList (digits.toList.take count)) :=
    (OneLine.ofList_iff _).mpr fun newline => plain (List.mem_of_mem_take newline)
  have dropped (count : Nat) : OneLine (String.ofList (digits.toList.drop count)) :=
    (OneLine.ofList_iff _).mpr fun newline => plain (List.mem_of_mem_drop newline)
  have point : OneLine "." := by decide
  unfold Decimal.textUnsigned
  dsimp only
  split
  · simp only [OneLine.append_iff]
    exact ⟨⟨plain, Decimal.oneLine_zeros _⟩, by decide⟩
  · split
    · simp only [OneLine.append_iff]
      exact ⟨⟨taken _, point⟩, dropped _⟩
    · split
      · simp only [OneLine.append_iff]
        exact ⟨⟨by decide, Decimal.oneLine_zeros _⟩, plain⟩
      · have fraction : OneLine (if String.ofList (digits.toList.drop 1) = "" then ""
            else "." ++ String.ofList (digits.toList.drop 1)) := by
          split
          · decide
          · exact (OneLine.append_iff _ _).mpr ⟨point, dropped 1⟩
        simp only [OneLine.append_iff]
        exact ⟨⟨⟨taken 1, fraction⟩, by decide⟩, OneLine.int _⟩

theorem Number.oneLine_text (number : Number) : OneLine number.text := by
  cases number with
  | int value => exact OneLine.int value
  | decimal value =>
    rw [Number.text, Decimal.text, OneLine.append_iff]
    refine ⟨?_, Decimal.oneLine_textUnsigned (OneLine.nat _) _⟩
    split <;> decide

theorem newline_not_mem_escape (char : Char) : '\n' ∉ escape char := by
  have digits : ∀ code, code < 32 →
      '\n' ∉ ['\\', 'u', '0', '0', Nat.digitChar (code / 16), Nat.digitChar (code % 16)] := by
    decide
  unfold escape
  split_ifs with quote slash backspace feed newline ret tab control
  · decide
  · decide
  · decide
  · decide
  · decide
  · decide
  · decide
  · exact digits char.toNat control
  · intro same
    exact newline (List.mem_singleton.mp same).symm

theorem oneLine_quote (text : String) : OneLine (quote text) := by
  rw [quote, OneLine.ofList_iff]
  intro newline
  rcases List.mem_cons.mp newline with quote | later
  · exact absurd quote (by decide)
  · rcases List.mem_append.mp later with inside | quote
    · obtain ⟨char, -, escaped⟩ := List.mem_flatMap.mp inside
      exact newline_not_mem_escape char escaped
    · exact absurd (List.mem_singleton.mp quote) (by decide)

mutual

theorem oneLine_compact (value : Json) : OneLine value.compact := by
  match value with
  | .null => decide
  | .bool true => decide
  | .bool false => decide
  | .num number => exact number.oneLine_text
  | .str text => exact oneLine_quote text
  | .arr items =>
    have inside := OneLine.intercalate (by decide : OneLine ",") (oneLine_compactItems items)
    rw [compact, OneLine.append_iff, OneLine.append_iff]
    exact ⟨⟨by decide, inside⟩, by decide⟩
  | .obj members =>
    have inside := OneLine.intercalate (by decide : OneLine ",") (oneLine_compactMembers members)
    rw [compact, OneLine.append_iff, OneLine.append_iff]
    exact ⟨⟨by decide, inside⟩, by decide⟩

theorem oneLine_compactItems (items : List Json) : ∀ text ∈ compactItems items, OneLine text := by
  match items with
  | [] =>
    intro text member
    cases member
  | item :: rest =>
    intro text member
    rcases List.mem_cons.mp member with rfl | later
    · exact oneLine_compact item
    · exact oneLine_compactItems rest text later

theorem oneLine_compactMembers (members : List (String × Json)) :
    ∀ text ∈ compactMembers members, OneLine text := by
  match members with
  | [] =>
    intro text member
    cases member
  | (key, value) :: rest =>
    intro text member
    rcases List.mem_cons.mp member with rfl | later
    · simp only [OneLine.append_iff]
      exact ⟨⟨oneLine_quote key, by decide⟩, oneLine_compact value⟩
    · exact oneLine_compactMembers rest text later

end

end Json

end SchemaCompiler
