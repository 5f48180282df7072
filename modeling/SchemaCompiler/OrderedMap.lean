/-!
Finite maps as lists of entries, one entry a key, in the order in which the keys first came.
Inserting keeps the keys distinct; a look-up after an insertion gives the new value at its key and
the old one elsewhere.
-/

namespace SchemaCompiler

abbrev OrderedMap (κ α : Type) := List (κ × α)

namespace OrderedMap

variable {κ α : Type} [DecidableEq κ]

def get? : OrderedMap κ α → κ → Option α
  | [], _ => none
  | (first, value) :: rest, key => if first = key then some value else get? rest key

/-- Writes the value at `key`: a known key keeps its place, a new one goes to the end. -/
def insert : OrderedMap κ α → κ → α → OrderedMap κ α
  | [], key, value => [(key, value)]
  | (first, old) :: rest, key, value =>
    if first = key then (first, value) :: rest else (first, old) :: insert rest key value

def ofList (pairs : List (κ × α)) : OrderedMap κ α :=
  pairs.foldl (fun map pair => insert map pair.1 pair.2) []

def keys (map : OrderedMap κ α) : List κ := map.map Prod.fst

@[simp] theorem get?_nil (key : κ) : get? ([] : OrderedMap κ α) key = none := rfl

theorem get?_cons (first key : κ) (value : α) (rest : OrderedMap κ α) :
    get? ((first, value) :: rest) key = if first = key then some value else get? rest key := rfl

theorem get?_insert (map : OrderedMap κ α) (key other : κ) (value : α) :
    get? (insert map key value) other = if key = other then some value else get? map other := by
  induction map with
  | nil => rfl
  | cons entry rest ih =>
    obtain ⟨first, old⟩ := entry
    by_cases here : first = key
    · subst first
      by_cases same : key = other <;> simp [insert, get?_cons, same]
    · by_cases same : first = other
      · subst first
        have apart : key ≠ other := fun equal => here equal.symm
        simp [insert, get?_cons, here, apart]
      · simp [insert, get?_cons, here, same, ih]

@[simp] theorem get?_insert_self (map : OrderedMap κ α) (key : κ) (value : α) :
    get? (insert map key value) key = some value := by
  rw [get?_insert, if_pos rfl]

theorem get?_insert_of_ne (map : OrderedMap κ α) {key other : κ} (value : α)
    (apart : key ≠ other) : get? (insert map key value) other = get? map other := by
  rw [get?_insert, if_neg apart]

theorem keys_insert (map : OrderedMap κ α) (key : κ) (value : α) :
    keys (insert map key value) = if key ∈ keys map then keys map else keys map ++ [key] := by
  induction map with
  | nil => rfl
  | cons entry rest ih =>
    obtain ⟨first, old⟩ := entry
    by_cases here : first = key
    · simp [insert, keys, here]
    · have apart : key ≠ first := fun equal => here equal.symm
      have tail : List.map Prod.fst (insert rest key value) = _ := ih
      by_cases member : key ∈ keys rest
      · have known : key ∈ List.map Prod.fst rest := member
        simp only [insert, here, if_false, keys, List.map_cons, tail, if_true,
          List.mem_cons, known, or_true]
      · have unknown : key ∉ List.map Prod.fst rest := member
        simp only [insert, here, if_false, keys, List.map_cons, tail, List.mem_cons,
          apart, unknown, or_self, List.cons_append]

theorem insert_of_not_mem {map : OrderedMap κ α} {key : κ} (unknown : key ∉ keys map)
    (value : α) : insert map key value = map ++ [(key, value)] := by
  induction map with
  | nil => rfl
  | cons entry rest ih =>
    have apart : entry.1 ≠ key := by
      rintro rfl
      exact unknown List.mem_cons_self
    have later : key ∉ keys rest := fun member => unknown (List.mem_cons_of_mem _ member)
    rw [insert, if_neg apart, ih later, List.cons_append]

theorem mem_of_get? {map : OrderedMap κ α} {key : κ} {value : α}
    (found : get? map key = some value) : (key, value) ∈ map := by
  induction map with
  | nil => cases found
  | cons entry rest ih =>
    obtain ⟨first, old⟩ := entry
    rw [get?_cons] at found
    split at found
    · next same =>
      cases found
      exact same ▸ List.mem_cons_self
    · exact List.mem_cons_of_mem _ (ih found)

theorem get?_of_mem {map : OrderedMap κ α} {key : κ} {value : α} (distinct : (keys map).Nodup)
    (member : (key, value) ∈ map) : get? map key = some value := by
  induction map with
  | nil => cases member
  | cons entry rest ih =>
    obtain ⟨fresh, later⟩ := List.nodup_cons.mp distinct
    rw [get?_cons]
    rcases List.mem_cons.mp member with rfl | other
    · exact if_pos rfl
    · have apart : entry.1 ≠ key := by
        rintro rfl
        exact fresh (List.mem_map.mpr ⟨_, other, rfl⟩)
      rw [if_neg apart]
      exact ih later other

theorem get?_eq_some_iff {map : OrderedMap κ α} (distinct : (keys map).Nodup) (key : κ)
    (value : α) : get? map key = some value ↔ (key, value) ∈ map :=
  ⟨mem_of_get?, get?_of_mem distinct⟩

theorem get?_eq_none_iff (map : OrderedMap κ α) (key : κ) :
    get? map key = none ↔ key ∉ keys map := by
  induction map with
  | nil => simp [keys]
  | cons entry rest ih =>
    obtain ⟨first, value⟩ := entry
    by_cases here : first = key
    · simp [get?_cons, keys, here]
    · have apart : key ≠ first := fun equal => here equal.symm
      simpa [get?_cons, keys, here, apart] using ih

theorem isSome_get?_iff (map : OrderedMap κ α) (key : κ) :
    (get? map key).isSome = true ↔ key ∈ keys map := by
  rw [Option.isSome_iff_ne_none, ne_eq, get?_eq_none_iff, Decidable.not_not]

theorem get?_eq_find? (map : OrderedMap κ α) (key : κ) :
    get? map key = (map.find? fun entry => entry.1 == key).map Prod.snd := by
  induction map with
  | nil => rfl
  | cons entry rest ih =>
    obtain ⟨first, value⟩ := entry
    by_cases here : first = key <;> simp [get?_cons, here, ih]

theorem get?_perm {left right : OrderedMap κ α} (distinct : (keys left).Nodup)
    (same : left.Perm right) (key : κ) : get? left key = get? right key := by
  have sameKeys : (keys left).Perm (keys right) := same.map Prod.fst
  cases found : get? left key with
  | none =>
    have unknown := (get?_eq_none_iff left key).mp found
    have unknownThere : key ∉ keys right := fun member => unknown (sameKeys.mem_iff.mpr member)
    exact ((get?_eq_none_iff right key).mpr unknownThere).symm
  | some value =>
    have member := same.mem_iff.mp (mem_of_get? found)
    exact (get?_of_mem (sameKeys.nodup_iff.mp distinct) member).symm

theorem get?_append (left right : OrderedMap κ α) (key : κ) :
    get? (left ++ right) key = (get? left key).or (get? right key) := by
  induction left with
  | nil => rfl
  | cons entry rest ih =>
    obtain ⟨first, value⟩ := entry
    by_cases here : first = key <;> simp [get?_cons, here, ih]

/-- Another value at an entry is found at its key, if anything of the entry is found at all. -/
theorem get?_replace (earlier later : OrderedMap κ α) (name key : κ) (value other : α) :
    get? (earlier ++ (name, value) :: later) key = get? (earlier ++ (name, other) :: later) key ∨
      name = key ∧ get? (earlier ++ (name, value) :: later) key = some value ∧
        get? (earlier ++ (name, other) :: later) key = some other := by
  simp only [get?_append, get?_cons]
  cases get? earlier key with
  | some found => exact .inl rfl
  | none =>
    by_cases here : name = key
    · exact .inr (by simp [here])
    · exact .inl (by simp [here])

theorem get?_map (change : κ → α → β) (map : OrderedMap κ α) (key : κ) :
    get? (map.map fun entry => (entry.1, change entry.1 entry.2)) key =
      (get? map key).map (change key) := by
  induction map with
  | nil => rfl
  | cons entry rest ih =>
    obtain ⟨first, value⟩ := entry
    by_cases here : first = key <;> simp [get?_cons, here, ih]

theorem get?_filter (keep : κ → Bool) (map : OrderedMap κ α) (key : κ) :
    get? (map.filter fun entry => keep entry.1) key =
      if keep key = true then get? map key else none := by
  induction map with
  | nil => simp
  | cons entry rest ih =>
    obtain ⟨first, value⟩ := entry
    by_cases here : first = key
    · subst here
      cases kept : keep first <;> simp [get?_cons, kept, ih]
    · cases kept : keep first <;> simp [get?_cons, here, kept, ih]

end OrderedMap

end SchemaCompiler
