import SchemaCompiler.Proofs.Compilation

/-!
Pointers read back from their texts. No segment writes a slash, so the slashes of a text are those
between segments; and a tilde is always followed by the digit that says what it stands for, provided
that slashes are put back before tildes. A text tells a position from a key of the same digits in no
way, so only pointers made of keys are determined by it, as all those of violations are.
-/

namespace SchemaCompiler

/-- Two characters in a row, wherever they stand, replaced by one; from the left. -/
def replacePair (first second char : Char) : List Char → List Char
  | left :: right :: rest =>
    if left = first ∧ right = second then char :: replacePair first second char rest
    else left :: replacePair first second char (right :: rest)
  | rest => rest

section Replacing

variable {first second char : Char}

theorem replacePair_pair (rest : List Char) :
    replacePair first second char (first :: second :: rest) =
      char :: replacePair first second char rest := by
  rw [replacePair, if_pos ⟨rfl, rfl⟩]

theorem replacePair_cons_of_ne {left : Char} (other : left ≠ first) (rest : List Char) :
    replacePair first second char (left :: rest) =
      left :: replacePair first second char rest := by
  cases rest with
  | nil => rfl
  | cons right rest => rw [replacePair, if_neg fun both => other both.1]

theorem replacePair_cons_cons_of_ne {right : Char} (other : right ≠ second) (rest : List Char) :
    replacePair first second char (first :: right :: rest) =
      first :: replacePair first second char (right :: rest) := by
  rw [replacePair, if_neg fun both => other both.2]

theorem replacePair_of_not_mem {text : List Char} (absent : first ∉ text) :
    replacePair first second char text = text := by
  induction text with
  | nil => rfl
  | cons left rest ih =>
    obtain ⟨other, later⟩ := not_or.mp (mt List.mem_cons.mpr absent)
    rw [replacePair_cons_of_ne (Ne.symm other), ih later]

theorem replacePair_flatMap {write left : Char → List Char}
    (each : ∀ written rest, replacePair first second char (write written ++ rest) =
      left written ++ replacePair first second char rest) (text : List Char) :
    replacePair first second char (text.flatMap write) = text.flatMap left := by
  induction text with
  | nil => rfl
  | cons written rest ih => rw [List.flatMap_cons, each, ih, List.flatMap_cons]

end Replacing

namespace Segment

def name : Segment → String
  | key name => name
  | index position => toString position

def unescape (piece : String) : String :=
  String.ofList (replacePair '~' '0' '~' (replacePair '~' '1' '/' piece.toList))

def escapeTilde (char : Char) : List Char := if char = '~' then ['~', '0'] else [char]

theorem replace_slashes (name : List Char) :
    replacePair '~' '1' '/' (name.flatMap escape) = name.flatMap escapeTilde := by
  apply replacePair_flatMap
  intro char rest
  by_cases tilde : char = '~'
  · -- The zero after the tilde keeps it from taking a one that follows.
    rw [tilde]
    have zero : '0' ≠ '~' := by decide
    have noOne : '0' ≠ '1' := by decide
    exact (replacePair_cons_cons_of_ne noOne rest).trans
      (congrArg _ (replacePair_cons_of_ne zero rest))
  · by_cases slash : char = '/'
    · rw [slash]
      exact replacePair_pair rest
    · rw [escape, if_neg tilde, if_neg slash, escapeTilde, if_neg tilde]
      exact replacePair_cons_of_ne tilde rest

theorem replace_tildes (name : List Char) :
    replacePair '~' '0' '~' (name.flatMap escapeTilde) = name := by
  have replaced : replacePair '~' '0' '~' (name.flatMap escapeTilde) =
      name.flatMap fun char => [char] := by
    apply replacePair_flatMap
    intro char rest
    by_cases tilde : char = '~'
    · rw [tilde]
      exact replacePair_pair rest
    · rw [escapeTilde, if_neg tilde]
      exact replacePair_cons_of_ne tilde rest
  rw [replaced, List.flatMap_singleton']

theorem not_mem_digits {char : Char} (noDigit : char.isDigit = false) (position : Nat) :
    char ∉ (toString position).toList := by
  rw [Nat.toString_eq_ofList_toDigits, String.toList_ofList]
  intro member
  exact Bool.false_ne_true (noDigit.symm.trans (Code.isDigit_of_mem_digits position char member))

theorem unescape_text (segment : Segment) : unescape segment.text = segment.name := by
  cases segment with
  | key name =>
    rw [unescape, text, String.toList_ofList, replace_slashes, replace_tildes, String.ofList_toList]
    rfl
  | index position =>
    have noTilde : '~' ∉ (toString position).toList := not_mem_digits (by decide) position
    rw [unescape, text, replacePair_of_not_mem noTilde, replacePair_of_not_mem noTilde,
      String.ofList_toList]
    rfl

theorem slash_not_mem_text (segment : Segment) : '/' ∉ segment.text.toList := by
  cases segment with
  | key name =>
    rw [text, String.toList_ofList, List.mem_flatMap]
    rintro ⟨char, -, written⟩
    unfold escape at written
    split at written
    · exact absurd written (by decide)
    · split at written
      · exact absurd written (by decide)
      · next slash => exact slash (List.mem_singleton.mp written).symm
  | index position => exact not_mem_digits (by decide) position

end Segment

namespace Pointer

def pieces (text : String) : List String := (text.split '/').toList.map String.Slice.copy

def decode (text : String) : List String := ((pieces text).drop 1).map Segment.unescape

theorem textSegments_eq_intercalate (segments : List Segment) :
    textSegments segments = "/".intercalate ("" :: segments.map Segment.text) := by
  induction segments with
  | nil => rw [List.map_nil, String.intercalate_singleton, textSegments]
  | cons segment rest ih =>
    rw [textSegments, ih, List.map_cons, String.intercalate_cons_cons, String.empty_append]
    cases rest with
    | nil => simp
    | cons next rest => simp [String.intercalate_cons_cons, String.append_assoc]

theorem pieces_text (pointer : Pointer) :
    pieces pointer.text = "" :: pointer.segments.map Segment.text := by
  have plain : ∀ piece ∈ "" :: pointer.segments.map Segment.text, '/' ∉ piece.toList := by
    intro piece member
    rcases List.mem_cons.mp member with rfl | member
    · decide
    · obtain ⟨segment, -, rfl⟩ := List.mem_map.mp member
      exact segment.slash_not_mem_text
  have split := String.toList_split_intercalate plain
  rw [if_neg (List.cons_ne_nil _ _)] at split
  rw [pieces, text, textSegments_eq_intercalate]
  exact split

theorem decode_text (pointer : Pointer) :
    decode pointer.text = pointer.segments.map Segment.name := by
  rw [decode, pieces_text, List.drop_one, List.tail_cons, List.map_map]
  exact List.map_congr_left fun segment _ => segment.unescape_text

theorem text_eq_empty_iff (pointer : Pointer) : pointer.text = "" ↔ pointer.isRoot = true := by
  obtain ⟨segments⟩ := pointer
  cases segments with
  | nil => exact iff_of_true rfl rfl
  | cons segment rest =>
    have filled : textSegments (segment :: rest) ≠ "" := by
      intro empty
      have chars := congrArg String.toList empty
      simp [textSegments] at chars
    exact iff_of_false filled Bool.false_ne_true

theorem map_name_ofKeys (names : List String) :
    (ofKeys names).segments.map Segment.name = names := by
  rw [ofKeys, List.map_map]
  exact List.map_id names

theorem ofKeys_eq_iff (names others : List String) :
    ofKeys names = ofKeys others ↔ (ofKeys names).text = (ofKeys others).text := by
  constructor
  · exact congrArg text
  · intro same
    have decoded := congrArg decode same
    rw [decode_text, decode_text, map_name_ofKeys, map_name_ofKeys] at decoded
    rw [decoded]

def IsKeyed (pointer : Pointer) : Prop := ∃ names, pointer = ofKeys names

theorem isKeyed_root : root.IsKeyed := ⟨[], rfl⟩

theorem IsKeyed.key {pointer : Pointer} (keyed : pointer.IsKeyed) (name : String) :
    (pointer.key name).IsKeyed := by
  obtain ⟨names, rfl⟩ := keyed
  exact ⟨names ++ [name], Schema.ofKeys_key names name⟩

theorem isKeyed_of_mem_violationsOf {own : Bool} {schema : Schema} {subject : Instance}
    {violation : Violation} (found : violation ∈ schema.violationsOf own subject) :
    violation.instancePath.IsKeyed ∧ violation.schemaPath.IsKeyed :=
  Schema.paths_of_mem_violations (fun _ name keyed => keyed.key name)
    (fun _ name keyed => keyed.key name) _ schema _ isKeyed_root isKeyed_root violation found

/-- The text of a pointer decodes to the names of its segments, and is empty for the root alone. So
the text determines a pointer made of keys, and both paths of every violation that a validator
reports are such pointers. -/
theorem text_decodes :
    (∀ pointer : Pointer,
      (pieces pointer.text).head? = some "" ∧
        decode pointer.text = pointer.segments.map Segment.name ∧
        (pointer.text = "" ↔ pointer.isRoot = true)) ∧
    (∀ names others : List String,
      ofKeys names = ofKeys others ↔ (ofKeys names).text = (ofKeys others).text) ∧
    ∀ (options : Options) (schema : Schema) (subject : Instance),
      ∃ validator violations, Validator.ofSchema options schema = .ok validator ∧
        Run.run validator.code subject = .ok violations ∧
        ∀ violation ∈ violations, violation.instancePath.IsKeyed ∧ violation.schemaPath.IsKeyed := by
  refine ⟨fun pointer => ⟨?_, decode_text pointer, text_eq_empty_iff pointer⟩, ofKeys_eq_iff, ?_⟩
  · rw [pieces_text, List.head?_cons]
  · intro options schema subject
    refine ⟨_, _, Validator.ofSchema_eq options schema,
      Validator.run_compiled options schema subject, ?_⟩
    intro violation reported
    exact isKeyed_of_mem_violationsOf (Validator.mem_of_mem_reported reported)

-- A position has the text of a key.
example : (root.index 10).text = (root.key "10").text := by decide

end Pointer

end SchemaCompiler
