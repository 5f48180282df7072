import SchemaCompiler.Schema.Document

/-!
Documents as they are read. Members are lists here; that a key leads to one value only is what
`hasDistinctKeys` says of a document. A list of names that was read is the array of those names.
-/

namespace SchemaCompiler

namespace Json

def follow (document : Json) : List String → Option Json
  | [] => some document
  | key :: rest => (document.get? key).bind fun value => value.follow rest

theorem follow_append (document : Json) (left right : List String) :
    document.follow (left ++ right) =
      (document.follow left).bind fun value => value.follow right := by
  induction left generalizing document with
  | nil => rfl
  | cons key rest ih =>
    cases found : document.get? key with
    | none => simp only [List.cons_append, follow, found, Option.bind_none]
    | some value => simp only [List.cons_append, follow, found, Option.bind_some, ih]

theorem follow_key {document value : Json} {keys : List String}
    (found : document.follow keys = some value) (key : String) :
    document.follow (keys ++ [key]) = value.get? key := by
  rw [follow_append, found, Option.bind_some]
  exact Option.bind_fun_some (value.get? key)

mutual

def hasDistinctKeys : Json → Bool
  | obj members => decide (OrderedMap.keys members).Nodup && haveDistinctKeys members
  | arr items => itemsHaveDistinctKeys items
  | null | bool _ | num _ | str _ => true

def haveDistinctKeys : List (String × Json) → Bool
  | [] => true
  | (_, value) :: rest => value.hasDistinctKeys && haveDistinctKeys rest

def itemsHaveDistinctKeys : List Json → Bool
  | [] => true
  | item :: rest => item.hasDistinctKeys && itemsHaveDistinctKeys rest

end

theorem hasDistinctKeys_of_mem {members : Members} {entry : String × Json}
    (distinct : haveDistinctKeys members = true) (member : entry ∈ members) :
    entry.2.hasDistinctKeys = true := by
  induction members with
  | nil => cases member
  | cons first rest ih =>
    obtain ⟨here, later⟩ := Bool.and_eq_true_iff.mp distinct
    rcases List.mem_cons.mp member with rfl | other
    · exact here
    · exact ih later other

theorem hasDistinctKeys_get? {value inner : Json} {key : String}
    (distinct : value.hasDistinctKeys = true) (found : value.get? key = some inner) :
    inner.hasDistinctKeys = true := by
  cases value with
  | obj members =>
    obtain ⟨-, below⟩ := Bool.and_eq_true_iff.mp distinct
    exact hasDistinctKeys_of_mem below (OrderedMap.mem_of_get? found)
  | _ => cases found

theorem get?_of_mem {members : Members} {key : String} {value : Json}
    (distinct : (obj members).hasDistinctKeys = true) (member : (key, value) ∈ members) :
    (obj members).get? key = some value := by
  obtain ⟨keys, -⟩ := Bool.and_eq_true_iff.mp distinct
  exact OrderedMap.get?_of_mem (of_decide_eq_true keys) member

end Json

namespace Schema

theorem bind_eq_ok {first : Except ε α} {next : α → Except ε β} {result : β}
    (done : (first >>= next) = .ok result) :
    ∃ value, first = .ok value ∧ next value = .ok result := by
  cases first with
  | error fault => cases done
  | ok value => exact ⟨value, rfl, done⟩

theorem map_eq_ok {first : Except ε α} {build : α → β} {result : β}
    (done : first.map build = .ok result) : ∃ value, first = .ok value ∧ build value = result := by
  cases first with
  | error fault => cases done
  | ok value => exact ⟨value, rfl, Except.ok.inj done⟩

theorem readNames_ok {fault : Nat → Json.Kind → CompileFault} {position : Nat} {items : List Json}
    {names : List String} (read : readNames fault position items = .ok names) :
    items = names.map .str := by
  induction items generalizing position names with
  | nil =>
    cases read
    rfl
  | cons item rest ih =>
    cases item with
    | str name =>
      obtain ⟨later, readLater, built⟩ := bind_eq_ok read
      cases built
      rw [ih readLater, List.map_cons]
    | _ => cases read

theorem readRequired_ok {path : Pointer} {value : Json} {names : List String}
    (read : readRequired path value = .ok names) : value = .arr (names.map .str) := by
  cases value with
  | arr items => exact congrArg Json.arr (readNames_ok read)
  | _ => cases read

end Schema

end SchemaCompiler
