import SchemaCompiler.Json.Reader
import SchemaCompiler.Proofs.Utf8

/-!
Texts as addresses write them. A percent sign with two hexadecimal digits stands for one byte of a
text in UTF-8, and every other character for itself. What is read in place of such an escape has
fewer percent signs and twos than the escape, so a text with an escape is never read as itself, nor
as a text with the same characters in another order.
-/

namespace SchemaCompiler.Percent

/-- What becomes of a percent sign without two digits behind it: it is kept, or the text is
refused. -/
inductive Stray where
  | kept
  | refused

def byte? (high low : Char) : Option UInt8 := do
  let high ← Json.Reader.hexValue? high
  let low ← Json.Reader.hexValue? low
  return UInt8.ofNat (16 * high + low)

def Stray.read : Stray → Option (List UInt8) → Option (List UInt8)
  | kept, rest => rest.map (String.utf8EncodeChar '%' ++ ·)
  | refused, _ => none

def decode (stray : Stray) : List Char → Option (List UInt8)
  | [] => some []
  | '%' :: high :: low :: rest =>
    match byte? high low with
    | some byte => (decode stray rest).map (byte :: ·)
    | none => stray.read (decode stray (high :: low :: rest))
  | '%' :: rest => stray.read (decode stray rest)
  | char :: rest => (decode stray rest).map (String.utf8EncodeChar char ++ ·)

def read (stray : Stray) (encoded : List Char) : Option String := do
  let bytes ← decode stray encoded
  String.fromUTF8? bytes.toByteArray

def Stray.Sign : Stray → List Char → Prop
  | kept, word => ∃ high low, (byte? high low).isSome ∧ word = ['%', high, low]
  | refused, word => word = ['%']

def Stray.Misreads (stray : Stray) (text : List Char) : Prop :=
  ∃ word, stray.Sign word ∧ word <:+: text

variable {stray : Stray}

section Signs

theorem isSome_byte?_iff (high low : Char) :
    (byte? high low).isSome ↔
      (Json.Reader.hexValue? high).isSome ∧ (Json.Reader.hexValue? low).isSome := by
  cases first : Json.Reader.hexValue? high <;> cases second : Json.Reader.hexValue? low <;>
    simp [byte?, first, second]

theorem Stray.Sign.eq_cons {word : List Char} (sign : stray.Sign word) :
    ∃ digits, word = '%' :: digits := by
  cases stray with
  | kept =>
    obtain ⟨high, low, -, rfl⟩ := sign
    exact ⟨_, rfl⟩
  | refused => exact ⟨[], sign⟩

theorem Stray.Sign.not_mem {word : List Char} (sign : stray.Sign word) {char : Char}
    (noSign : char ≠ '%') (noDigit : Json.Reader.hexValue? char = none) : char ∉ word := by
  intro member
  cases stray with
  | kept =>
    obtain ⟨high, low, digits, rfl⟩ := sign
    have both := (isSome_byte?_iff high low).mp digits
    simp only [List.mem_cons, List.not_mem_nil, or_false] at member
    rcases member with rfl | rfl | rfl
    · exact noSign rfl
    · rw [noDigit] at both
      exact Bool.false_ne_true both.1
    · rw [noDigit] at both
      exact Bool.false_ne_true both.2
  | refused =>
    have alone : word = ['%'] := sign
    rw [alone] at member
    exact noSign (List.mem_singleton.mp member)

theorem not_misreads_nil : ¬ stray.Misreads [] := by
  rintro ⟨word, sign, inside⟩
  obtain ⟨digits, rfl⟩ := sign.eq_cons
  cases List.infix_nil.mp inside

theorem misreads_cons {rest : List Char} (char : Char) (misread : stray.Misreads rest) :
    stray.Misreads (char :: rest) := by
  obtain ⟨word, sign, inside⟩ := misread
  exact ⟨word, sign, List.infix_cons inside⟩

end Signs

section Faithful

theorem decode_stray {rest : List Char}
    (noEscape : ∀ high low after, rest = high :: low :: after → byte? high low = none) :
    decode stray ('%' :: rest) = stray.read (decode stray rest) := by
  rcases rest with _ | ⟨high, _ | ⟨low, after⟩⟩
  · rfl
  · rfl
  · rw [decode, noEscape high low after rfl]

-- What both readers make of an escape, and what each makes of a percent sign at the end.
example : decode .kept "%C3%A9%".toList = some [0xC3, 0xA9, 0x25] ∧
    decode .refused "%C3%A9%".toList = none := by decide

theorem decode_plain {char : Char} (other : char ≠ '%') (rest : List Char) :
    decode stray (char :: rest) = (decode stray rest).map (String.utf8EncodeChar char ++ ·) :=
  decode.eq_4 stray char rest (fun _ _ _ sign _ => other sign) other

theorem decode_of_not_misreads {text : List Char} (faithful : ¬ stray.Misreads text) :
    decode stray text = some (text.flatMap String.utf8EncodeChar) := by
  induction text with
  | nil => rfl
  | cons char rest ih =>
    have later := ih (mt (misreads_cons char) faithful)
    by_cases sign : char = '%'
    · subst sign
      cases stray with
      | kept =>
        have noEscape : ∀ high low after, rest = high :: low :: after → byte? high low = none := by
          rintro high low after rfl
          cases escape : byte? high low with
          | none => rfl
          | some byte =>
            have word : Stray.kept.Sign ['%', high, low] :=
              ⟨high, low, Option.isSome_of_eq_some escape, rfl⟩
            exact absurd ⟨_, word, (List.prefix_append ['%', high, low] after).isInfix⟩ faithful
        rw [decode_stray noEscape, later]
        rfl
      | refused => exact absurd ⟨['%'], rfl, (List.prefix_append ['%'] rest).isInfix⟩ faithful
    · rw [decode_plain sign, later, Option.map_some, List.flatMap_cons]

theorem read_eq_some_iff {encoded : List Char} {text : String} :
    read stray encoded = some text ↔ decode stray encoded = some (utf8 text) := by
  constructor
  · intro given
    obtain ⟨bytes, decoded, valid⟩ := Option.bind_eq_some_iff.mp given
    rw [decoded, fromUTF8?_eq_some_iff.mp valid]
  · intro decoded
    exact Option.bind_eq_some_iff.mpr ⟨_, decoded, fromUTF8?_eq_some_iff.mpr rfl⟩

theorem read_of_not_misreads {text : String} (faithful : ¬ stray.Misreads text.toList) :
    read stray text.toList = some text := by
  rw [read_eq_some_iff, decode_of_not_misreads faithful, utf8_eq_flatMap]

end Faithful

section Marks

def marks (bytes : List UInt8) : Nat := bytes.count 0x25 + bytes.count 0x32

theorem marks_append (left right : List UInt8) :
    marks (left ++ right) = marks left + marks right := by
  simp only [marks, List.count_append]
  omega

theorem marks_utf8 (text : String) :
    marks (utf8 text) = text.toList.count '%' + text.toList.count '2' := by
  have sign : '%'.toNat < 128 := by decide
  have two : '2'.toNat < 128 := by decide
  rw [← count_utf8 sign, ← count_utf8 two]
  rfl

theorem lt_and_eq_two_of_digit {char : Char} {value : Nat}
    (digit : Json.Reader.hexValue? char = some value) : value < 16 ∧ (value = 2 → char = '2') := by
  have two : char = '2' ↔ char.toNat = 50 := Char.toNat_inj.symm
  rw [two]
  unfold Json.Reader.hexValue? at digit
  split_ifs at digit with decimal lower upper
  · have low : 48 ≤ char.toNat := decimal.1
    have high : char.toNat ≤ 57 := decimal.2
    have read : char.toNat - 48 = value := Option.some.inj digit
    omega
  · have low : 97 ≤ char.toNat := lower.1
    have high : char.toNat ≤ 102 := lower.2
    have read : char.toNat - 97 + 10 = value := Option.some.inj digit
    omega
  · have low : 65 ≤ char.toNat := upper.1
    have high : char.toNat ≤ 70 := upper.2
    have read : char.toNat - 65 + 10 = value := Option.some.inj digit
    omega

/-- The byte of a percent sign is written `25`, and that of a two `32`: with the percent sign in
front, an escape has more of them than its byte. -/
theorem marks_escape {high low : Char} {byte : UInt8} (escape : byte? high low = some byte) :
    marks [byte] < marks (['%', high, low].flatMap String.utf8EncodeChar) := by
  obtain ⟨first, firstDigit, rest⟩ := Option.bind_eq_some_iff.mp escape
  obtain ⟨second, secondDigit, written⟩ := Option.bind_eq_some_iff.mp rest
  have value : byte = UInt8.ofNat (16 * first + second) := (Option.some.inj written).symm
  obtain ⟨firstLow, firstTwo⟩ := lt_and_eq_two_of_digit firstDigit
  obtain ⟨secondLow, secondTwo⟩ := lt_and_eq_two_of_digit secondDigit
  have sign : marks (String.utf8EncodeChar '%') = 1 := by decide
  have two : marks (String.utf8EncodeChar '2') = 1 := by decide
  have total : marks (['%', high, low].flatMap String.utf8EncodeChar) =
      1 + (marks (String.utf8EncodeChar high) + marks (String.utf8EncodeChar low)) := by
    simp only [List.flatMap_cons, List.flatMap_nil, List.append_nil, marks_append, sign]
  rw [total]
  by_cases isSign : byte = 0x25
  · have code : 16 * first + second = 37 :=
      (byte_eq_iff (by omega) (by decide)).mp (value.symm.trans isSign)
    have one : marks [byte] = 1 := by rw [isSign]; decide
    rw [firstTwo (by omega), two, one]
    omega
  · by_cases isTwo : byte = 0x32
    · have code : 16 * first + second = 50 :=
        (byte_eq_iff (by omega) (by decide)).mp (value.symm.trans isTwo)
      have one : marks [byte] = 1 := by rw [isTwo]; decide
      rw [secondTwo (by omega), two, one]
      omega
    · have none : marks [byte] = 0 := by
        simp only [marks, List.count_singleton, beq_iff_eq, isSign, isTwo, if_false]
      omega

/-- The bytes have no more percent signs and twos than the text, and fewer if it was misread. -/
def Lighter (stray : Stray) (text : List Char) (bytes : List UInt8) : Prop :=
  marks bytes ≤ marks (text.flatMap String.utf8EncodeChar) ∧
    (stray.Misreads text → marks bytes < marks (text.flatMap String.utf8EncodeChar))

theorem lighter_cons {char : Char} {rest : List Char} {bytes : List UInt8}
    (front : ∀ word, stray.Sign word → ¬ word <+: char :: rest)
    (lighter : Lighter stray rest bytes) :
    Lighter stray (char :: rest) (String.utf8EncodeChar char ++ bytes) := by
  unfold Lighter
  rw [List.flatMap_cons, marks_append, marks_append]
  refine ⟨Nat.add_le_add_left lighter.1 _, ?_⟩
  rintro ⟨word, sign, inside⟩
  rcases List.infix_cons_iff.mp inside with first | later
  · exact absurd first (front word sign)
  · exact Nat.add_lt_add_left (lighter.2 ⟨word, sign, later⟩) _

theorem lighter_stray {rest : List Char} {bytes : List UInt8}
    (noEscape : ∀ high low after, rest = high :: low :: after → byte? high low = none)
    (decoded : stray.read (decode stray rest) = some bytes)
    (lighter : ∀ later, decode stray rest = some later → Lighter stray rest later) :
    Lighter stray ('%' :: rest) bytes := by
  cases stray with
  | kept =>
    obtain ⟨later, read, rfl⟩ := Option.map_eq_some_iff.mp decoded
    refine lighter_cons ?_ (lighter later read)
    rintro word ⟨high, low, digits, rfl⟩ ⟨after, front⟩
    rw [noEscape high low after (List.cons.inj front).2.symm] at digits
    exact Bool.false_ne_true digits
  | refused => cases decoded

theorem lighter_decode {text : List Char} {bytes : List UInt8}
    (decoded : decode stray text = some bytes) : Lighter stray text bytes := by
  fun_induction decode stray text generalizing bytes with
  | case1 =>
    rw [← Option.some.inj decoded]
    exact ⟨Nat.le_refl _, fun misread => absurd misread not_misreads_nil⟩
  | case2 high low rest byte escape ih =>
    obtain ⟨later, read, rfl⟩ := Option.map_eq_some_iff.mp decoded
    have front := marks_escape escape
    have back := (ih read).1
    have fewer : marks (byte :: later) <
        marks (('%' :: high :: low :: rest).flatMap String.utf8EncodeChar) := by
      have split : '%' :: high :: low :: rest = ['%', high, low] ++ rest := rfl
      rw [split, List.flatMap_append, ← List.singleton_append, marks_append, marks_append]
      omega
    exact ⟨Nat.le_of_lt fewer, fun _ => fewer⟩
  | case3 high low rest noEscape ih =>
    refine lighter_stray ?_ decoded fun later read => ih read
    intro first second after same
    obtain ⟨firstSame, same⟩ := List.cons.inj same
    rw [← firstSame, ← (List.cons.inj same).1]
    exact noEscape
  | case4 rest short ih =>
    refine lighter_stray ?_ decoded fun later read => ih read
    intro first second after same
    exact absurd same (short first second after)
  | case5 char rest short other ih =>
    obtain ⟨later, read, rfl⟩ := Option.map_eq_some_iff.mp decoded
    refine lighter_cons ?_ (ih read)
    intro word sign front
    obtain ⟨digits, rfl⟩ := sign.eq_cons
    exact other (List.cons_prefix_cons.mp front).1.symm

/-- A text that is misread has more percent signs and twos than what is read. -/
theorem count_lt_of_misreads {text decoded : String} (given : read stray text.toList = some decoded)
    (misread : stray.Misreads text.toList) :
    decoded.toList.count '%' + decoded.toList.count '2' <
      text.toList.count '%' + text.toList.count '2' := by
  have lighter := (lighter_decode (read_eq_some_iff.mp given)).2 misread
  rwa [← utf8_eq_flatMap, marks_utf8, marks_utf8] at lighter

end Marks

end SchemaCompiler.Percent
