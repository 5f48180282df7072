import Mathlib.Data.List.Induction
import SchemaCompiler.Proofs.PercentDecoding
import SchemaCompiler.Proofs.Pointer

/-!
Fragments read back as addresses are read. A pointer's text goes into its fragment as it stands, so a
percent sign of a name is one of the address: the fragment leads back to the names exactly if no name
holds an escape of addresses. The escapes of pointers neither make nor break such an escape. Where
there is one, percent signs or twos are lost in reading it, and decoding a pointer brings none back,
so some name has changed.
-/

namespace SchemaCompiler

open Percent

theorem count_replacePair_le {first second char wanted : Char} (other : char ≠ wanted)
    (text : List Char) : (replacePair first second char text).count wanted ≤ text.count wanted := by
  fun_induction replacePair first second char text with
  | case1 left right rest both ih =>
    rw [List.count_cons_of_ne other]
    exact Nat.le_trans ih ((List.sublist_append_right [left, right] rest).count_le wanted)
  | case2 left right rest both ih =>
    rw [List.count_cons, List.count_cons (l := right :: rest)]
    exact Nat.add_le_add_right ih _
  | case3 rest short => exact Nat.le_refl _

namespace Segment

def Untouched (char : Char) : Prop := char ∉ ['~', '/', '0', '1']

instance (char : Char) : Decidable (Untouched char) :=
  inferInstanceAs (Decidable (char ∉ ['~', '/', '0', '1']))

theorem Untouched.ne {wanted char : Char} (untouched : Untouched wanted)
    (touched : char ∈ ['~', '/', '0', '1']) : char ≠ wanted := by
  rintro rfl
  exact untouched touched

theorem escape_cases (char : Char) :
    (∃ digit, escape char = ['~', digit] ∧ (digit = '0' ∨ digit = '1') ∧
      (char = '~' ∨ char = '/')) ∨
    escape char = [char] := by
  unfold escape
  split_ifs with tilde slash
  · exact .inl ⟨'0', rfl, .inl rfl, .inl tilde⟩
  · exact .inl ⟨'1', rfl, .inr rfl, .inr slash⟩
  · exact .inr rfl

theorem prefix_flatMap_escape {word : List Char} (noTilde : '~' ∉ word) (noSlash : '/' ∉ word)
    (text : List Char) : word <+: text.flatMap escape ↔ word <+: text := by
  induction word generalizing text with
  | nil => exact iff_of_true List.nil_prefix List.nil_prefix
  | cons first word ih =>
    obtain ⟨firstTilde, noTilde⟩ := not_or.mp (mt List.mem_cons.mpr noTilde)
    obtain ⟨firstSlash, noSlash⟩ := not_or.mp (mt List.mem_cons.mpr noSlash)
    cases text with
    | nil => exact Iff.rfl
    | cons char text =>
      rw [List.flatMap_cons]
      rcases escape_cases char with ⟨digit, written, -, escaped⟩ | written
      · rw [written]
        refine iff_of_false ?_ ?_
        · intro front
          exact firstTilde (List.cons_prefix_cons.mp front).1.symm
        · intro front
          have same : first = char := (List.cons_prefix_cons.mp front).1
          rcases escaped with tilde | slash
          · exact firstTilde (same.trans tilde).symm
          · exact firstSlash (same.trans slash).symm
      · rw [written, List.singleton_append, List.cons_prefix_cons, List.cons_prefix_cons,
          ih noTilde noSlash]

/-- Escaping neither makes nor breaks a word that starts with a percent sign. -/
theorem infix_flatMap_escape {digits : List Char} (noTilde : '~' ∉ '%' :: digits)
    (noSlash : '/' ∉ '%' :: digits) (text : List Char) :
    '%' :: digits <:+: text.flatMap escape ↔ '%' :: digits <:+: text := by
  induction text with
  | nil => exact Iff.rfl
  | cons char text ih =>
    have here := prefix_flatMap_escape noTilde noSlash (char :: text)
    rw [List.infix_cons_iff, ← here, ← ih, List.flatMap_cons]
    rcases escape_cases char with ⟨digit, written, binary, -⟩ | written
    · -- The digit of the escape starts no such word.
      have noStart : ¬ '%' :: digits <+: digit :: text.flatMap escape := by
        intro front
        have same : '%' = digit := (List.cons_prefix_cons.mp front).1
        rcases binary with zero | one
        · exact absurd (same.trans zero) (by decide)
        · exact absurd (same.trans one) (by decide)
      rw [written, List.cons_append, List.singleton_append, List.infix_cons_iff,
        List.infix_cons_iff, or_iff_right noStart]
    · rw [written, List.singleton_append, List.infix_cons_iff]

theorem misreads_text_iff {stray : Stray} (segment : Segment) :
    stray.Misreads segment.text.toList ↔ stray.Misreads segment.name.toList := by
  cases segment with
  | key name =>
    refine exists_congr fun word => and_congr_right fun sign => ?_
    have noTilde : '~' ∉ word := sign.not_mem (by decide) (by decide)
    have noSlash : '/' ∉ word := sign.not_mem (by decide) (by decide)
    obtain ⟨digits, rfl⟩ := sign.eq_cons
    rw [text, String.toList_ofList]
    exact infix_flatMap_escape noTilde noSlash _
  | index position => exact Iff.rfl

section Counting

variable {wanted : Char} (untouched : Untouched wanted)

include untouched

theorem count_escape (char : Char) : (escape char).count wanted = [char].count wanted := by
  have noTilde : '~' ≠ wanted := untouched.ne (by decide)
  have noSlash : '/' ≠ wanted := untouched.ne (by decide)
  have noZero : '0' ≠ wanted := untouched.ne (by decide)
  have noOne : '1' ≠ wanted := untouched.ne (by decide)
  unfold escape
  split_ifs with tilde slash
  · rw [tilde, List.count_cons_of_ne noTilde, List.count_cons_of_ne noZero,
      List.count_cons_of_ne noTilde]
  · rw [slash, List.count_cons_of_ne noTilde, List.count_cons_of_ne noOne,
      List.count_cons_of_ne noSlash]
  · rfl

theorem count_text (segment : Segment) :
    segment.text.toList.count wanted = segment.name.toList.count wanted := by
  cases segment with
  | key name =>
    rw [text, String.toList_ofList, count_flatMap_of_each (count_escape untouched)]
    rfl
  | index position => rfl

theorem count_unescape_le (piece : String) :
    (unescape piece).toList.count wanted ≤ piece.toList.count wanted := by
  rw [unescape, String.toList_ofList]
  exact Nat.le_trans (count_replacePair_le (untouched.ne (by decide)) _)
    (count_replacePair_le (untouched.ne (by decide)) _)

end Counting

end Segment

theorem eq_nil_of_prefix_slash {word right : List Char} (noSlash : '/' ∉ word)
    (front : word <+: '/' :: right) : word = [] := by
  cases word with
  | nil => rfl
  | cons first word =>
    rw [(List.cons_prefix_cons.mp front).1] at noSlash
    exact absurd List.mem_cons_self noSlash

/-- A word without a slash stands on one side of each slash. -/
theorem infix_around_slash {word : List Char} (noSlash : '/' ∉ word) (left right : List Char) :
    word <:+: left ++ '/' :: right ↔ word <:+: left ∨ word <:+: right := by
  constructor
  · intro inside
    rcases List.infix_append_iff.mp inside with first | second | ⟨front, back, rfl, ends, starts⟩
    · exact .inl first
    · rcases List.infix_cons_iff.mp second with starts | later
      · rw [eq_nil_of_prefix_slash noSlash starts]
        exact .inl List.nil_prefix.isInfix
      · exact .inr later
    · have noSlashBehind : '/' ∉ back := fun member =>
        noSlash (List.mem_append_right front member)
      rw [eq_nil_of_prefix_slash noSlashBehind starts, List.append_nil]
      exact .inl ends.isInfix
  · rintro (first | second)
    · exact List.infix_append_of_infix_left first
    · exact List.infix_append_of_infix_right (List.infix_cons second)

theorem misreads_around_slash {stray : Stray} (left right : List Char) :
    stray.Misreads (left ++ '/' :: right) ↔ stray.Misreads left ∨ stray.Misreads right := by
  have split : ∀ word, stray.Sign word →
      (word <:+: left ++ '/' :: right ↔ word <:+: left ∨ word <:+: right) := fun word sign =>
    infix_around_slash (sign.not_mem (by decide) (by decide)) left right
  constructor
  · rintro ⟨word, sign, inside⟩
    rcases (split word sign).mp inside with first | second
    · exact .inl ⟨word, sign, first⟩
    · exact .inr ⟨word, sign, second⟩
  · rintro (⟨word, sign, first⟩ | ⟨word, sign, second⟩)
    · exact ⟨word, sign, (split word sign).mpr (.inl first)⟩
    · exact ⟨word, sign, (split word sign).mpr (.inr second)⟩

theorem flatten_sublist_intercalate (separator : List Char) (parts : List (List Char)) :
    parts.flatten.Sublist (separator.intercalate parts) := by
  induction parts with
  | nil => exact List.Sublist.refl _
  | cons part parts ih =>
    cases parts with
    | nil => simp
    | cons next parts =>
      rw [List.flatten_cons, List.intercalate_cons_cons, List.append_assoc]
      exact (List.Sublist.refl part).append (ih.trans (List.sublist_append_right _ _))

namespace Pointer

def decodeFragment (stray : Stray) (fragment : String) : Option (List String) :=
  match fragment.toList with
  | '#' :: encoded => (read stray encoded).map decode
  | _ => none

theorem decodeFragment_fragment (stray : Stray) (pointer : Pointer) :
    decodeFragment stray pointer.fragment = (read stray pointer.text.toList).map decode := by
  have written : pointer.fragment.toList = '#' :: pointer.text.toList := by
    rw [fragment, String.toList_append]
    rfl
  rw [decodeFragment, written]
  rfl

/-- The text of a pointer is misread where one of its names is. -/
theorem misreads_textSegments_iff {stray : Stray} (segments : List Segment) :
    stray.Misreads (textSegments segments).toList ↔
      ∃ segment ∈ segments, stray.Misreads segment.name.toList := by
  induction segments using List.reverseRecOn with
  | nil =>
    refine iff_of_false not_misreads_nil ?_
    rintro ⟨segment, member, -⟩
    cases member
  | append_singleton segments segment ih =>
    have written : (textSegments (segments ++ [segment])).toList =
        (textSegments segments).toList ++ '/' :: segment.text.toList := by
      rw [textSegments_append, String.toList_append]
      simp [textSegments]
    rw [written, misreads_around_slash, Segment.misreads_text_iff, ih]
    simp [or_and_right, exists_or]

def nameChars (names : List String) : List Char := names.flatMap String.toList

theorem count_nameChars_cons (wanted : Char) (name : String) (names : List String) :
    (nameChars (name :: names)).count wanted =
      name.toList.count wanted + (nameChars names).count wanted := by
  rw [nameChars, List.flatMap_cons, List.count_append]
  rfl

theorem pieces_sublist (text : String) : (nameChars (pieces text)).Sublist text.toList := by
  have joined := flatten_sublist_intercalate ['/'] (text.toList.splitOn '/')
  rw [List.intercalate_splitOn] at joined
  rw [nameChars, pieces, String.toList_split_char, List.flatMap_map]
  simpa only [String.toList_ofList, List.flatMap_id'] using joined

section Counting

variable {wanted : Char} (untouched : Segment.Untouched wanted)

include untouched

theorem count_textSegments (segments : List Segment) :
    (textSegments segments).toList.count wanted =
      (nameChars (segments.map Segment.name)).count wanted := by
  induction segments with
  | nil => rfl
  | cons segment rest ih =>
    have noSlash : '/' ≠ wanted := untouched.ne (by decide)
    have slash : "/".toList.count wanted = 0 := List.count_cons_of_ne noSlash
    rw [textSegments, String.toList_append, String.toList_append, List.count_append,
      List.count_append, slash, segment.count_text untouched, ih, List.map_cons,
      count_nameChars_cons, Nat.zero_add]

theorem count_map_unescape_le (pieces : List String) :
    (nameChars (pieces.map Segment.unescape)).count wanted ≤ (nameChars pieces).count wanted := by
  induction pieces with
  | nil => exact Nat.le_refl _
  | cons piece rest ih =>
    rw [List.map_cons, count_nameChars_cons, count_nameChars_cons]
    exact Nat.add_le_add (Segment.count_unescape_le untouched piece) ih

theorem count_decode_le (text : String) :
    (nameChars (decode text)).count wanted ≤ text.toList.count wanted := by
  have dropped : (nameChars ((pieces text).drop 1)).Sublist (nameChars (pieces text)) := by
    cases pieces text with
    | nil => exact List.Sublist.refl _
    | cons piece rest => exact List.sublist_append_right _ _
  exact Nat.le_trans (count_map_unescape_le untouched _)
    ((dropped.trans (pieces_sublist text)).count_le wanted)

end Counting

theorem decodeFragment_eq_names_iff (stray : Stray) (pointer : Pointer) :
    decodeFragment stray pointer.fragment = some (pointer.segments.map Segment.name) ↔
      ∀ segment ∈ pointer.segments, ¬ stray.Misreads segment.name.toList := by
  have misreads : stray.Misreads pointer.text.toList ↔
      ∃ segment ∈ pointer.segments, stray.Misreads segment.name.toList :=
    misreads_textSegments_iff pointer.segments
  rw [decodeFragment_fragment]
  constructor
  · intro decoded segment member misread
    obtain ⟨reached, given, names⟩ := Option.map_eq_some_iff.mp decoded
    have fewer := count_lt_of_misreads given (misreads.mpr ⟨segment, member, misread⟩)
    have atMost : ∀ wanted, Segment.Untouched wanted →
        pointer.text.toList.count wanted ≤ reached.toList.count wanted := by
      intro wanted untouched
      rw [text, count_textSegments untouched, ← names]
      exact count_decode_le untouched reached
    have signs := atMost '%' (by decide)
    have twos := atMost '2' (by decide)
    omega
  · intro faithful
    have whole : ¬ stray.Misreads pointer.text.toList := by
      intro misread
      obtain ⟨segment, member, misread⟩ := misreads.mp misread
      exact faithful segment member misread
    rw [read_of_not_misreads whole, Option.map_some, decode_text]

theorem decodeFragment_ofKeys {stray : Stray} {names : List String}
    (faithful : ∀ name ∈ names, ¬ stray.Misreads name.toList) :
    decodeFragment stray (ofKeys names).fragment = some names := by
  have leadsBack := (decodeFragment_eq_names_iff stray (ofKeys names)).mpr
  rw [map_name_ofKeys] at leadsBack
  apply leadsBack
  intro segment member
  obtain ⟨name, listed, rfl⟩ := List.mem_map.mp member
  exact faithful name listed

theorem ofKeys_eq_iff_decodeFragment {stray : Stray} {names others : List String}
    (faithful : ∀ name ∈ names ++ others, ¬ stray.Misreads name.toList) :
    ofKeys names = ofKeys others ↔
      decodeFragment stray (ofKeys names).fragment =
        decodeFragment stray (ofKeys others).fragment := by
  have first := decodeFragment_ofKeys fun name member =>
    faithful name (List.mem_append_left others member)
  have second := decodeFragment_ofKeys fun name member =>
    faithful name (List.mem_append_right names member)
  rw [first, second]
  constructor
  · intro same
    rw [← map_name_ofKeys names, same, map_name_ofKeys]
  · intro same
    rw [Option.some.inj same]

/-- A fragment leads back to the names of its pointer exactly if none of them holds what readers of
addresses take for an escape. Pointers made of such keys are told apart by their fragments. -/
theorem fragment_decodes_iff (stray : Stray) :
    (∀ pointer : Pointer,
      decodeFragment stray pointer.fragment = some (pointer.segments.map Segment.name) ↔
        ∀ segment ∈ pointer.segments, ¬ stray.Misreads segment.name.toList) ∧
    ∀ names others : List String,
      (∀ name ∈ names ++ others, ¬ stray.Misreads name.toList) →
        (ofKeys names = ofKeys others ↔
          decodeFragment stray (ofKeys names).fragment =
            decodeFragment stray (ofKeys others).fragment) :=
  ⟨decodeFragment_eq_names_iff stray, fun _ _ => ofKeys_eq_iff_decodeFragment⟩

theorem not_misreads_discount :
    ∀ name ∈ ["50%", "a/b"] ++ ["%4g", "m~é"], ¬ Stray.kept.Misreads name.toList := by
  intro name member
  rintro ⟨word, ⟨high, low, digits, rfl⟩, inside⟩
  simp only [List.cons_append, List.nil_append, List.mem_cons, List.not_mem_nil, or_false] at member
  rcases member with rfl | rfl | rfl | rfl
  · simp [List.infix_cons_iff] at inside
  · simp [List.infix_cons_iff] at inside
  · obtain ⟨rfl, rfl⟩ : high = '4' ∧ low = 'g' := by simpa [List.infix_cons_iff] using inside
    exact absurd digits (by decide)
  · simp [List.infix_cons_iff] at inside

theorem fragment_decodes_iff_discount :
    (∀ name ∈ ["50%", "a/b"] ++ ["%4g", "m~é"], ¬ Stray.kept.Misreads name.toList) ∧
      decodeFragment .kept (ofKeys ["50%", "a/b"]).fragment = some ["50%", "a/b"] ∧
      decodeFragment .kept (ofKeys ["50%", "a/b"]).fragment ≠
        decodeFragment .kept (ofKeys ["%4g", "m~é"]).fragment := by
  have clean := not_misreads_discount
  obtain ⟨leadsBack, apart⟩ := fragment_decodes_iff .kept
  refine ⟨clean, (leadsBack (ofKeys ["50%", "a/b"])).mpr ?_, ?_⟩
  · intro segment member
    obtain ⟨key, listed, rfl⟩ := List.mem_map.mp member
    exact clean key (List.mem_append_left _ listed)
  · intro same
    exact absurd ((apart _ _ clean).mpr same) (by decide)

theorem not_fragment_decodes_letter :
    (¬ ∃ stray, decodeFragment stray (ofKeys ["%41"]).fragment = some ["%41"]) ∧
      (∀ stray, decodeFragment stray (ofKeys ["%41"]).fragment =
        decodeFragment stray (ofKeys ["A"]).fragment) ∧
      ofKeys ["%41"] ≠ ofKeys ["A"] := by
  have letter : ∀ (stray : Stray) (key : String), key = "%41" ∨ key = "A" →
      decodeFragment stray (ofKeys [key]).fragment = some ["A"] := by
    intro stray key which
    have given : read stray (ofKeys [key]).text.toList = some (ofKeys ["A"]).text := by
      rw [read_eq_some_iff, utf8_eq_flatMap]
      rcases which with rfl | rfl <;> cases stray <;> decide
    rw [decodeFragment_fragment, given, Option.map_some, decode_text]
    rfl
  refine ⟨?_, ?_, by decide⟩
  · rintro ⟨stray, same⟩
    rw [letter stray "%41" (.inl rfl)] at same
    exact absurd same (by decide)
  · intro stray
    rw [letter stray "%41" (.inl rfl), letter stray "A" (.inr rfl)]

end Pointer

end SchemaCompiler
