import Mathlib.Data.List.Induction
import SchemaCompiler.Proofs.Schema.Traversal
import SchemaCompiler.Schema.Dependencies

/-!
Maps that are put together write by write, and the halves of a `dependencies` object. However a map
came about, its keys are distinct; so the halves, which are written entry by entry as well, are the
parts of the map by the kind of the entries, each in the order of the map.
-/

namespace SchemaCompiler

namespace OrderedMap

variable {κ α : Type} [DecidableEq κ]

theorem ofList_concat (pairs : List (κ × α)) (last : κ × α) :
    ofList (pairs ++ [last]) = insert (ofList pairs) last.1 last.2 := by
  rw [ofList, List.foldl_append]
  rfl

theorem keys_ofList (pairs : List (κ × α)) :
    keys (ofList pairs) = (pairs.map Prod.fst).eraseDups := by
  induction pairs using List.reverseRecOn with
  | nil => rfl
  | append_singleton pairs last ih =>
    rw [ofList_concat, keys_insert, ih, List.map_append, List.eraseDups_append]
    by_cases known : last.1 ∈ pairs.map Prod.fst
    · have written := List.mem_eraseDups.mpr known
      rw [if_pos written]
      simp [List.removeAll, known]
    · have unwritten : last.1 ∉ (pairs.map Prod.fst).eraseDups :=
        fun written => known (List.mem_eraseDups.mp written)
      rw [if_neg unwritten]
      simp [List.removeAll, known, List.eraseDups_cons]

theorem get?_ofList (pairs : List (κ × α)) (key : κ) :
    get? (ofList pairs) key = get? pairs.reverse key := by
  induction pairs using List.reverseRecOn with
  | nil => rfl
  | append_singleton pairs last ih =>
    rw [ofList_concat, get?_insert, ih, List.reverse_concat, get?_cons]

theorem nodup_keys_insert {map : OrderedMap κ α} (distinct : (keys map).Nodup) (key : κ)
    (value : α) : (keys (insert map key value)).Nodup := by
  rw [keys_insert]
  split
  · exact distinct
  · next unknown =>
    refine List.nodup_append.mpr ⟨distinct, List.pairwise_singleton _ key, ?_⟩
    intro other member new same
    rw [List.mem_singleton.mp same]
    rintro rfl
    exact unknown member

theorem nodup_keys_ofList (pairs : List (κ × α)) : (keys (ofList pairs)).Nodup := by
  induction pairs using List.reverseRecOn with
  | nil => exact List.nodup_nil
  | append_singleton pairs last ih =>
    rw [ofList_concat]
    exact nodup_keys_insert ih last.1 last.2

end OrderedMap

def Constraint.isNames : Constraint σ → Bool
  | names _ => true
  | schema _ => false

namespace Dependencies

/-- How a map of constraints comes about: collected from pairs, or read from the members of an
object, which have distinct names. -/
inductive Arises : Dependencies → Prop where
  | collected (pairs : List (String × Constraint Schema)) : Arises (OrderedMap.ofList pairs)
  | read {limit depth : Nat} {path : Pointer} {members : Json.Members} {map : Dependencies}
    (distinct : (OrderedMap.keys members).Nodup)
    (done : Schema.readDependencies limit path depth members = .ok map) : Arises map

theorem keys_readDependencies {limit depth : Nat} {path : Pointer} {members : Json.Members}
    {map : Dependencies} (done : Schema.readDependencies limit path depth members = .ok map) :
    OrderedMap.keys map = OrderedMap.keys members := by
  rw [Schema.readDependencies_eq_mapM] at done
  have each := Schema.forall₂_of_mapM done
  clear done
  induction each with
  | nil => rfl
  | cons read _ ih =>
    rcases Schema.map_eq_ok read with ⟨constraint, -, rfl⟩
    simp only [OrderedMap.keys, List.map_cons] at ih ⊢
    rw [ih]

theorem mem_readDependencies {limit depth : Nat} {path : Pointer} {members : Json.Members}
    {map : Dependencies} (done : Schema.readDependencies limit path depth members = .ok map)
    {key : String} {value : Json} (member : (key, value) ∈ members) :
    ∃ constraint, Schema.readDependencies limit path depth [(key, value)] =
      .ok [(key, constraint)] ∧ (key, constraint) ∈ map := by
  rw [Schema.readDependencies_eq_mapM] at done
  have each := Schema.forall₂_of_mapM done
  clear done
  induction each with
  | nil => cases member
  | cons read _ ih =>
    rcases List.mem_cons.mp member with rfl | later
    · have alone := Schema.readDependencies_eq_mapM limit path depth [(key, value)]
      rw [List.mapM_cons, read] at alone
      rcases Schema.map_eq_ok read with ⟨constraint, -, rfl⟩
      exact ⟨constraint, alone, List.mem_cons_self⟩
    · rcases ih later with ⟨constraint, alone, listed⟩
      exact ⟨constraint, alone, List.mem_cons_of_mem _ listed⟩

theorem Arises.distinct {map : Dependencies} (arises : Arises map) :
    (OrderedMap.keys map).Nodup := by
  cases arises with
  | collected pairs => exact OrderedMap.nodup_keys_ofList pairs
  | read distinct done => rwa [keys_readDependencies done]

section Halves

variable (map : Dependencies)

theorem map_propertyHalf :
    (map.propertyHalf.map fun entry => (entry.1, Constraint.names entry.2)) =
      map.filter fun entry => entry.1 ≠ reservedTrigger ∧ entry.2.isNames = true := by
  rw [propertyHalf, List.map_filterMap, ← List.filterMap_eq_filter]
  apply List.filterMap_congr
  rintro ⟨trigger, list | schema⟩ -
  · by_cases reserved : trigger = reservedTrigger <;>
      simp [Option.guard, Constraint.isNames, reserved]
  · simp [Option.guard, Constraint.isNames]

theorem map_schemaHalf :
    (map.schemaHalf.map fun entry => (entry.1, Constraint.schema entry.2)) =
      map.filter fun entry => entry.1 ≠ reservedTrigger ∧ entry.2.isNames = false := by
  rw [schemaHalf, List.map_filterMap, ← List.filterMap_eq_filter]
  apply List.filterMap_congr
  rintro ⟨trigger, list | schema⟩ -
  · simp [Option.guard, Constraint.isNames]
  · by_cases reserved : trigger = reservedTrigger <;>
      simp [Option.guard, Constraint.isNames, reserved]

variable {map}

theorem mem_propertyHalf {trigger : String} {list : List String} :
    (trigger, list) ∈ map.propertyHalf ↔
      (trigger, Constraint.names list) ∈ map ∧ trigger ≠ reservedTrigger := by
  have kept : (trigger, Constraint.names (σ := Schema) list) ∈
      map.propertyHalf.map (fun entry => (entry.1, Constraint.names entry.2)) ↔
        (trigger, list) ∈ map.propertyHalf := by
    simp
  rw [← kept, map_propertyHalf, List.mem_filter]
  simp [Constraint.isNames]

theorem mem_schemaHalf {trigger : String} {schema : Schema} :
    (trigger, schema) ∈ map.schemaHalf ↔
      (trigger, Constraint.schema schema) ∈ map ∧ trigger ≠ reservedTrigger := by
  have kept : (trigger, Constraint.schema schema) ∈
      map.schemaHalf.map (fun entry => (entry.1, Constraint.schema entry.2)) ↔
        (trigger, schema) ∈ map.schemaHalf := by
    simp
  rw [← kept, map_schemaHalf, List.mem_filter]
  simp [Constraint.isNames]

variable (map)

theorem keys_propertyHalf_sublist :
    (OrderedMap.keys map.propertyHalf).Sublist (OrderedMap.keys map) := by
  have kept : OrderedMap.keys map.propertyHalf =
      (map.propertyHalf.map fun entry => (entry.1, Constraint.names (σ := Schema) entry.2)).map
        Prod.fst := by
    rw [List.map_map]
    rfl
  rw [kept, map_propertyHalf]
  exact List.filter_sublist.map Prod.fst

theorem keys_schemaHalf_sublist :
    (OrderedMap.keys map.schemaHalf).Sublist (OrderedMap.keys map) := by
  have kept : OrderedMap.keys map.schemaHalf =
      (map.schemaHalf.map fun entry => (entry.1, Constraint.schema entry.2)).map Prod.fst := by
    rw [List.map_map]
    rfl
  rw [kept, map_schemaHalf]
  exact List.filter_sublist.map Prod.fst

theorem propertyHalf_concat (last : String × Constraint Schema) :
    propertyHalf (map ++ [last]) = map.propertyHalf ++ propertyHalf [last] :=
  List.filterMap_append

theorem schemaHalf_concat (last : String × Constraint Schema) :
    schemaHalf (map ++ [last]) = map.schemaHalf ++ schemaHalf [last] :=
  List.filterMap_append

theorem split_concat (last : String × Constraint Schema) :
    split (map ++ [last]) = route map.split last := by
  rw [split, List.foldl_append]
  rfl

variable {map}

/-- Where keys are distinct no write finds its key written, so each half grows at its end. -/
theorem split_eq (distinct : (OrderedMap.keys map).Nodup) :
    map.split = (map.propertyHalf, map.schemaHalf) := by
  induction map using List.reverseRecOn with
  | nil => rfl
  | append_singleton map last ih =>
    rw [OrderedMap.keys, List.map_append] at distinct
    rcases List.nodup_append.mp distinct with ⟨earlier, -, apart⟩
    have fresh : last.1 ∉ OrderedMap.keys map :=
      fun known => apart _ known _ (List.mem_singleton.mpr rfl) rfl
    have freshList := fun known => fresh ((keys_propertyHalf_sublist map).subset known)
    have freshSchema := fun known => fresh ((keys_schemaHalf_sublist map).subset known)
    rw [split_concat, propertyHalf_concat, schemaHalf_concat, ih earlier]
    obtain ⟨trigger, list | schema⟩ := last
    · by_cases reserved : trigger = reservedTrigger
      · simp [route, propertyHalf, schemaHalf, reserved]
      · have grown : OrderedMap.insert (propertyHalf map) trigger list = _ :=
          OrderedMap.insert_of_not_mem freshList list
        simp only [route, if_neg reserved, grown]
        simp [propertyHalf, schemaHalf, reserved]
    · by_cases reserved : trigger = reservedTrigger
      · simp [route, propertyHalf, schemaHalf, reserved]
      · have grown : OrderedMap.insert (schemaHalf map) trigger schema = _ :=
          OrderedMap.insert_of_not_mem freshSchema schema
        simp only [route, if_neg reserved, grown]
        simp [propertyHalf, schemaHalf, reserved]

/-- No trigger is in both halves, and each is in its own once. -/
theorem nodup_keys_halves (distinct : (OrderedMap.keys map).Nodup) :
    (OrderedMap.keys map.propertyHalf ++ OrderedMap.keys map.schemaHalf).Nodup := by
  refine List.nodup_append.mpr ⟨(keys_propertyHalf_sublist map).nodup distinct,
    (keys_schemaHalf_sublist map).nodup distinct, ?_⟩
  intro trigger inLists other inSchemas same
  subst same
  rcases List.mem_map.mp inLists with ⟨⟨_, list⟩, listed, rfl⟩
  rcases List.mem_map.mp inSchemas with ⟨⟨_, schema⟩, asked, same⟩
  cases same
  have asList := OrderedMap.get?_of_mem distinct (mem_propertyHalf.mp listed).1
  have asSchema := OrderedMap.get?_of_mem distinct (mem_schemaHalf.mp asked).1
  cases asList.symm.trans asSchema

theorem mem_keys_halves (key : String) :
    key ∈ OrderedMap.keys map.propertyHalf ∨ key ∈ OrderedMap.keys map.schemaHalf ↔
      key ∈ OrderedMap.keys map ∧ key ≠ reservedTrigger := by
  constructor
  · rintro (member | member)
    · rcases List.mem_map.mp member with ⟨entry, listed, rfl⟩
      have facts := mem_propertyHalf.mp listed
      exact ⟨List.mem_map.mpr ⟨_, facts.1, rfl⟩, facts.2⟩
    · rcases List.mem_map.mp member with ⟨entry, listed, rfl⟩
      have facts := mem_schemaHalf.mp listed
      exact ⟨List.mem_map.mpr ⟨_, facts.1, rfl⟩, facts.2⟩
  · rintro ⟨member, unreserved⟩
    rcases List.mem_map.mp member with ⟨⟨trigger, list | schema⟩, listed, rfl⟩
    · exact .inl (List.mem_map.mpr ⟨_, mem_propertyHalf.mpr ⟨listed, unreserved⟩, rfl⟩)
    · exact .inr (List.mem_map.mpr ⟨_, mem_schemaHalf.mpr ⟨listed, unreserved⟩, rfl⟩)

end Halves

/-- The two maps are the parts of a map by kind, its reserved trigger left out: the entries as they
are and in the order of the map, no key in both and none lost. -/
structure Partition (map : Dependencies) (lists : OrderedMap String (List String))
    (schemas : OrderedMap String Schema) : Prop where
  lists_eq : (lists.map fun entry => (entry.1, Constraint.names entry.2)) =
    map.filter fun entry => entry.1 ≠ reservedTrigger ∧ entry.2.isNames = true
  schemas_eq : (schemas.map fun entry => (entry.1, Constraint.schema entry.2)) =
    map.filter fun entry => entry.1 ≠ reservedTrigger ∧ entry.2.isNames = false
  distinct : (OrderedMap.keys lists ++ OrderedMap.keys schemas).Nodup
  covers : ∀ key, key ∈ OrderedMap.keys lists ∨ key ∈ OrderedMap.keys schemas ↔
    key ∈ OrderedMap.keys map ∧ key ≠ reservedTrigger
  get?_lists : ∀ key list, OrderedMap.get? lists key = some list ↔
    OrderedMap.get? map key = some (.names list) ∧ key ≠ reservedTrigger
  get?_schemas : ∀ key schema, OrderedMap.get? schemas key = some schema ↔
    OrderedMap.get? map key = some (.schema schema) ∧ key ≠ reservedTrigger

theorem partition_split {map : Dependencies} (distinct : (OrderedMap.keys map).Nodup) :
    Partition map map.split.1 map.split.2 := by
  have onLists := (keys_propertyHalf_sublist map).nodup distinct
  have onSchemas := (keys_schemaHalf_sublist map).nodup distinct
  rw [split_eq distinct]
  constructor
  · exact map_propertyHalf map
  · exact map_schemaHalf map
  · exact nodup_keys_halves distinct
  · exact mem_keys_halves
  · intro key list
    rw [OrderedMap.get?_eq_some_iff onLists, OrderedMap.get?_eq_some_iff distinct, mem_propertyHalf]
  · intro key schema
    rw [OrderedMap.get?_eq_some_iff onSchemas, OrderedMap.get?_eq_some_iff distinct, mem_schemaHalf]

/-- The keys of a map that was collected are those of the pairs in the order of their first
occurrences, each with the last value given for it; a map that was read has the keys of the object,
each with what its own member says. Either way the keys are distinct, and splitting the map writes
exactly its two parts. -/
theorem split_partitions :
    (∀ pairs : List (String × Constraint Schema),
      OrderedMap.keys (OrderedMap.ofList pairs) = (pairs.map Prod.fst).eraseDups ∧
        ∀ key, OrderedMap.get? (OrderedMap.ofList pairs) key = OrderedMap.get? pairs.reverse key) ∧
    (∀ (limit depth : Nat) (path : Pointer) (members : Json.Members) (map : Dependencies),
      (OrderedMap.keys members).Nodup →
      Schema.readDependencies limit path depth members = .ok map →
        OrderedMap.keys map = OrderedMap.keys members ∧
          ∀ key value, (key, value) ∈ members →
            ∃ constraint, Schema.readDependencies limit path depth [(key, value)] =
                .ok [(key, constraint)] ∧
              OrderedMap.get? map key = some constraint) ∧
    ∀ map : Dependencies, Arises map →
      (OrderedMap.keys map).Nodup ∧ Partition map map.split.1 map.split.2 ∧
        map.split = (map.propertyHalf, map.schemaHalf) := by
  refine ⟨fun pairs => ⟨OrderedMap.keys_ofList pairs, OrderedMap.get?_ofList pairs⟩, ?_, ?_⟩
  · intro limit depth path members map distinct done
    have sameKeys := keys_readDependencies done
    refine ⟨sameKeys, fun key value member => ?_⟩
    rcases mem_readDependencies done member with ⟨constraint, alone, listed⟩
    exact ⟨constraint, alone, OrderedMap.get?_of_mem (sameKeys ▸ distinct) listed⟩
  · intro map arises
    exact ⟨arises.distinct, partition_split arises.distinct, split_eq arises.distinct⟩

section Coupons

def couponPairs : List (String × Constraint Schema) :=
  [("coupon", .names ["code"]), ("__proto__", .names ["code"]), ("gift", .schema (.bool true)),
    ("coupon", .schema (.bool false)), ("card", .names [])]

def couponMembers : Json.Members :=
  [("card", .arr [.str "holder"]), ("gift", .bool false), ("__proto__", .obj [])]

def couponTriggers : Dependencies :=
  [("card", .names ["holder"]), ("gift", .schema (.bool false)), ("__proto__", .schema (.object {}))]

theorem split_coupons :
    (OrderedMap.keys couponMembers).Nodup ∧
      Schema.readDependencies 3 .root 1 couponMembers = .ok couponTriggers ∧
      OrderedMap.get? couponTriggers "gift" = some (.schema (.bool false)) ∧
      Partition (OrderedMap.ofList couponPairs) [("card", [])]
        [("coupon", .bool false), ("gift", .bool true)] ∧
      Partition couponTriggers [("card", ["holder"])] [("gift", .bool false)] := by
  have distinct : (OrderedMap.keys couponMembers).Nodup := by decide
  have done : Schema.readDependencies 3 .root 1 couponMembers = .ok couponTriggers := rfl
  have member : ("gift", Json.bool false) ∈ couponMembers := .tail _ (.head _)
  rcases (split_partitions.2.1 3 1 .root couponMembers couponTriggers distinct done).2 _ _ member
    with ⟨constraint, alone, found⟩
  cases alone
  exact ⟨distinct, done, found, (split_partitions.2.2 _ (.collected couponPairs)).2.1,
    (split_partitions.2.2 _ (.read distinct done)).2.1⟩

end Coupons

end Dependencies

end SchemaCompiler
