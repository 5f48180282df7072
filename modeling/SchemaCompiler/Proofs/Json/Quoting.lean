import Mathlib.Tactic.SplitIfs
import SchemaCompiler.Json.Reader
import SchemaCompiler.Json.Text

/-!
Quoted strings. Reading a string literal gives the string that was quoted and leaves what follows
it. So a quoted string is told apart from every other one, whatever stands behind it.
-/

namespace SchemaCompiler.Json

namespace Reader

theorem hexCode?_control : ∀ code, code < 32 →
    hexCode? '0' '0' (Nat.digitChar (code / 16)) (Nat.digitChar (code % 16)) = some code ∧
      isHighSurrogate code = false ∧ isLowSurrogate code = false := by
  decide

theorem string?_control (read : List Char) {char : Char} (control : char.toNat < 32)
    (rest : List Char) :
    string? read ('\\' :: 'u' :: '0' :: '0' :: Nat.digitChar (char.toNat / 16) ::
      Nat.digitChar (char.toNat % 16) :: rest) = string? (char :: read) rest := by
  obtain ⟨code, high, low⟩ := hexCode?_control char.toNat control
  simp only [string?, code, high, low, Bool.false_eq_true, ↓reduceIte, Char.ofNat_toNat]

theorem string?_plain (read : List Char) {char : Char} (notQuote : char ≠ '"')
    (notSlash : char ≠ '\\') (visible : ¬ char.toNat < 32) (rest : List Char) :
    string? read (char :: rest) = string? (char :: read) rest := by
  rw [string?.eq_4 read char rest notQuote (fun _ _ _ _ _ slash _ => notSlash slash)
    (fun _ _ slash _ => notSlash slash), if_neg visible]

theorem string?_escape (read : List Char) (char : Char) (rest : List Char) :
    string? read (escape char ++ rest) = string? (char :: read) rest := by
  unfold escape
  split_ifs with quote slash backspace feed newline ret tab control
  · rw [quote]; rfl
  · rw [slash]; rfl
  · rw [backspace]; rfl
  · rw [feed]; rfl
  · rw [newline]; rfl
  · rw [ret]; rfl
  · rw [tab]; rfl
  · exact string?_control read control rest
  · exact string?_plain read quote slash control rest

theorem string?_escapes (read text rest : List Char) :
    string? read (text.flatMap escape ++ '"' :: rest) =
      some (String.ofList (read.reverse ++ text), rest) := by
  induction text generalizing read with
  | nil => rw [List.append_nil]; rfl
  | cons char text ih =>
    rw [List.flatMap_cons, List.append_assoc, string?_escape, ih, List.reverse_cons,
      List.append_assoc, List.singleton_append]

end Reader

theorem quote_append (text : String) (rest : List Char) :
    (quote text).toList ++ rest = '"' :: (text.toList.flatMap escape ++ '"' :: rest) := by
  rw [quote, String.toList_ofList, List.cons_append, List.append_assoc, List.singleton_append]

theorem quote_append_inj {left right : String} {rest others : List Char}
    (same : (quote left).toList ++ rest = (quote right).toList ++ others) :
    left = right ∧ rest = others := by
  rw [quote_append, quote_append, List.cons.injEq] at same
  have read := congrArg (Reader.string? []) same.2
  rw [Reader.string?_escapes, Reader.string?_escapes, Option.some.injEq, Prod.mk.injEq] at read
  simpa only [List.reverse_nil, List.nil_append, String.ofList_toList] using read

end SchemaCompiler.Json
