import Mathlib.Tactic.SplitIfs

/-!
Texts and their bytes. Texts are compared character by character; comparing the bytes that encode
them comes to the same order.
-/

namespace SchemaCompiler

def utf8 (text : String) : List UInt8 := text.toUTF8.data.toList

theorem utf8_eq_flatMap (text : String) :
    utf8 text = text.toList.flatMap String.utf8EncodeChar := by
  have encoded : (String.ofList text.toList).toByteArray = text.toList.utf8Encode :=
    String.toByteArray_ofList
  rw [String.ofList_toList] at encoded
  rw [utf8, String.toUTF8_eq_toByteArray, encoded, List.utf8Encode, List.toList_data_toByteArray]

theorem byte_lt_iff {m n : Nat} (first : m < 256) (second : n < 256) :
    UInt8.ofNat m < UInt8.ofNat n ↔ m < n :=
  UInt8.ofNat_lt_iff_lt first second

theorem byte_eq_iff {m n : Nat} (first : m < 256) (second : n < 256) :
    UInt8.ofNat m = UInt8.ofNat n ↔ m = n := by
  rw [← UInt8.toNat_inj, UInt8.toNat_ofNat', UInt8.toNat_ofNat', Nat.mod_eq_of_lt first,
    Nat.mod_eq_of_lt second]

theorem code_lt (character : Char) : character.val.toNat < 0x110000 := by
  rcases character.valid with low | ⟨-, high⟩
  · omega
  · exact high

/-- The bytes of the lesser character come first, whatever follows either of them: no character's
bytes are the beginning of another's. -/
theorem utf8EncodeChar_lt {first second : Char} (less : first < second) (rest others : List UInt8) :
    String.utf8EncodeChar first ++ rest < String.utf8EncodeChar second ++ others := by
  have codes : first.val.toNat < second.val.toNat := less
  have bound := code_lt second
  -- A code is written in digits to the base 64, each the remainder of the quotient before.
  have thirdDigit : ∀ code : Nat, code / 4096 = code / 64 / 64 := by omega
  have fourthDigit : ∀ code : Nat, code / 262144 = code / 64 / 64 / 64 := by omega
  unfold String.utf8EncodeChar
  generalize first.val.toNat = m at *
  generalize second.val.toNat = n at *
  dsimp only
  split_ifs <;>
    simp (disch := omega) only [List.cons_append, List.nil_append, List.cons_lt_cons_iff,
      byte_lt_iff, byte_eq_iff, thirdDigit, fourthDigit] <;>
    omega

theorem utf8_lt_of_lt {first second : String} (less : first < second) :
    utf8 first < utf8 second := by
  have characters : List.Lex (· < ·) first.toList second.toList := less
  rw [utf8_eq_flatMap, utf8_eq_flatMap]
  generalize first.toList = left at characters
  generalize second.toList = right at characters
  induction characters with
  | @nil character rest =>
    obtain ⟨byte, bytes, encoded⟩ := List.exists_cons_of_ne_nil
      (String.utf8EncodeChar_ne_nil (c := character))
    rw [List.flatMap_nil, List.flatMap_cons, encoded]
    exact List.nil_lt_cons _ _
  | rel lower => exact utf8EncodeChar_lt lower _ _
  | cons _ ih =>
    rw [List.flatMap_cons, List.flatMap_cons]
    exact List.append_left_lt ih

/-- A text is read back from its own bytes, and from no others. -/
theorem fromUTF8?_eq_some_iff {bytes : List UInt8} {text : String} :
    String.fromUTF8? bytes.toByteArray = some text ↔ utf8 text = bytes := by
  constructor
  · intro read
    unfold String.fromUTF8? at read
    split at read
    · rw [← Option.some.inj read]
      exact List.toList_data_toByteArray
    · cases read
  · rintro rfl
    have whole : (utf8 text).toByteArray = text.toByteArray := by
      apply ByteArray.ext
      rw [List.data_toByteArray, utf8, Array.toArray_toList, String.toUTF8_eq_toByteArray]
    rw [whole, String.fromUTF8?, dif_pos text.isValidUTF8]
    rfl

/-- The byte of an ASCII character is in the bytes of that character alone. -/
theorem count_utf8EncodeChar {ascii : Char} (low : ascii.toNat < 128) (char : Char) :
    (String.utf8EncodeChar char).count (UInt8.ofNat ascii.toNat) = [char].count ascii := by
  have bound := code_lt char
  have same : char = ascii ↔ char.val.toNat = ascii.toNat := by
    rw [← Char.toNat_inj]
    rfl
  simp only [List.count_singleton, beq_iff_eq, same]
  unfold String.utf8EncodeChar
  generalize char.val.toNat = code at *
  generalize ascii.toNat = wanted at *
  dsimp only
  split_ifs <;>
    simp (disch := omega) only [List.count_cons, List.count_nil, beq_iff_eq, byte_eq_iff] <;>
    split_ifs <;> omega

/-- If every single item is written with the marks that it has itself, so is a list of items. -/
theorem count_flatMap_of_each {α β : Type} [BEq α] [BEq β] {write : α → List β} {wanted : α}
    {mark : β} (each : ∀ item, (write item).count mark = [item].count wanted) (items : List α) :
    (items.flatMap write).count mark = items.count wanted := by
  induction items with
  | nil => rfl
  | cons item rest ih =>
    rw [List.flatMap_cons, List.count_append, each, ih, ← List.count_append, List.singleton_append]

theorem count_utf8 {ascii : Char} (low : ascii.toNat < 128) (text : String) :
    (utf8 text).count (UInt8.ofNat ascii.toNat) = text.toList.count ascii := by
  rw [utf8_eq_flatMap, count_flatMap_of_each (count_utf8EncodeChar low)]

end SchemaCompiler
