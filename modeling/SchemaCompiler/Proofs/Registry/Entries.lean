import SchemaCompiler.Proofs.Compilation
import SchemaCompiler.Registry.Session

/-!
What a registry holds: names in ascending order, each with a document and the validator that the
document compiles to. Registering adds one entry to these or changes nothing, and the documents
alone determine the registry.
-/

namespace SchemaCompiler.Registry

theorem place_perm (name : String) (entry : Entry) (entries : OrderedMap String Entry) :
    (place name entry entries).Perm ((name, entry) :: entries) := by
  induction entries with
  | nil => exact .refl _
  | cons first rest ih =>
    rw [place]
    split
    · exact .refl _
    · exact (ih.cons first).trans (.swap _ _ rest)

theorem ascending_place {name : String} {entries : OrderedMap String Entry}
    (ascending : (OrderedMap.keys entries).Pairwise (· < ·))
    (free : name ∉ OrderedMap.keys entries) (entry : Entry) :
    (OrderedMap.keys (place name entry entries)).Pairwise (· < ·) := by
  induction entries with
  | nil => exact List.pairwise_singleton _ _
  | cons first rest ih =>
    obtain ⟨least, later⟩ := List.pairwise_cons.mp ascending
    have apart : name ≠ first.1 := List.ne_of_not_mem_cons free
    have freeLater : name ∉ OrderedMap.keys rest := List.not_mem_of_not_mem_cons free
    rw [place]
    split
    · next before =>
      apply List.pairwise_cons.mpr ⟨?_, ascending⟩
      intro other member
      rcases List.mem_cons.mp member with rfl | member
      · exact before
      · exact String.lt_trans before (least other member)
    · next notBefore =>
      have after : first.1 < name :=
        Std.lt_of_le_of_ne (String.not_lt.mp notBefore) apart.symm
      apply List.pairwise_cons.mpr ⟨?_, ih later freeLater⟩
      intro other member
      have placed := ((place_perm name entry rest).map Prod.fst).mem_iff.mp member
      rcases List.mem_cons.mp placed with rfl | member
      · exact after
      · exact least other member

def documents (registry : Registry) : Json.Members :=
  registry.entries.map fun entry => (entry.1, entry.2.document)

theorem toJson_eq (registry : Registry) :
    registry.toJson = .obj [("$defs", .obj registry.documents)] := rfl

theorem keys_documents (registry : Registry) :
    OrderedMap.keys registry.documents = registry.names := by
  simp only [OrderedMap.keys, documents, names, List.map_map]
  rfl

theorem mem_names_iff (registry : Registry) (name : String) :
    name ∈ registry.names ↔ ∃ document, (name, document) ∈ registry.documents := by
  rw [← keys_documents]
  constructor
  · intro member
    obtain ⟨⟨_, document⟩, listed, rfl⟩ := List.mem_map.mp member
    exact ⟨document, listed⟩
  · rintro ⟨document, listed⟩
    exact List.mem_map.mpr ⟨_, listed, rfl⟩

theorem get?_of_free {registry : Registry} {name : String}
    (free : name ∉ registry.names) :
    registry.get? name = none := by
  rw [get?, (OrderedMap.get?_eq_none_iff registry.entries name).mpr free, Option.map_none]

theorem validate_of_free {registry : Registry} {name : String}
    (free : name ∉ registry.names) (value : Json) :
    registry.validate name value = .error (.schemaNotFound name) := by
  rw [validate, get?_of_free free]

/-- The names ascend, and every validator is what its document compiles to. -/
structure Sound (registry : Registry) : Prop where
  ascending : registry.names.Pairwise (· < ·)
  compiled : ∀ name entry, (name, entry) ∈ registry.entries →
    Validator.ofDocument registry.options entry.document = .ok entry.validator

theorem sound_empty (options : Options) : Sound (empty options) where
  ascending := .nil
  compiled := fun _ _ member => by cases member

/-- What registering does: a taken name and a document that does not compile are faults, and all
else becomes one more entry. -/
inductive Registering (registry : Registry) (name : String) (document : Json) :
    Except RegistryFault Registry → Prop where
  | taken (member : name ∈ registry.names) :
    Registering registry name document (.error (.duplicateName name))
  | refused (free : name ∉ registry.names) {fault : CompileFault}
    (failed : Validator.ofDocument registry.options document = .error fault) :
    Registering registry name document (.error (.compile fault))
  | stored (free : name ∉ registry.names) {validator : Validator}
    (compiles : Validator.ofDocument registry.options document = .ok validator) :
    Registering registry name document
      (.ok { registry with entries := place name ⟨document, validator⟩ registry.entries })

section Register

variable {registry : Registry} {name : String} {document : Json}

theorem register_taken (member : name ∈ registry.names) :
    registry.register name document = .error (.duplicateName name) := by
  rw [register]
  cases found : OrderedMap.get? registry.entries name with
  | some entry => rfl
  | none => exact absurd member ((OrderedMap.get?_eq_none_iff registry.entries name).mp found)

theorem register_refused (free : name ∉ registry.names) {fault : CompileFault}
    (failed : Validator.ofDocument registry.options document = .error fault) :
    registry.register name document = .error (.compile fault) := by
  rw [register, (OrderedMap.get?_eq_none_iff registry.entries name).mpr free, failed]

/-- Where nothing comes between the two looks at the name, the second one never finds it taken. -/
theorem store_free (free : name ∉ registry.names) (entry : Entry) :
    registry.store name entry =
      .ok { registry with entries := place name entry registry.entries } := by
  rw [store, (OrderedMap.get?_eq_none_iff registry.entries name).mpr free]

theorem register_stored (free : name ∉ registry.names) {validator : Validator}
    (compiles : Validator.ofDocument registry.options document = .ok validator) :
    registry.register name document =
      .ok { registry with entries := place name ⟨document, validator⟩ registry.entries } := by
  rw [register, (OrderedMap.get?_eq_none_iff registry.entries name).mpr free, compiles]
  exact store_free free _

end Register

theorem registering (registry : Registry) (name : String) (document : Json) :
    Registering registry name document (registry.register name document) := by
  by_cases member : name ∈ registry.names
  · rw [register_taken member]
    exact .taken member
  · cases compiles : Validator.ofDocument registry.options document with
    | error fault =>
      rw [register_refused member compiles]
      exact .refused member compiles
    | ok validator =>
      rw [register_stored member compiles]
      exact .stored member compiles

theorem register_eq_duplicateName_iff (registry : Registry) (name : String) (document : Json) :
    registry.register name document = .error (.duplicateName name) ↔ name ∈ registry.names := by
  constructor
  · intro refused
    have registers := registering registry name document
    rw [refused] at registers
    cases registers with
    | taken member => exact member
  · exact register_taken

theorem documents_stored (registry : Registry) (name : String) (document : Json)
    (validator : Validator) :
    (documents { registry with entries := place name ⟨document, validator⟩ registry.entries }).Perm
      ((name, document) :: registry.documents) :=
  (place_perm name ⟨document, validator⟩ registry.entries).map _

/-- A document and the options leave no choice of the validator. -/
theorem entries_eq_of_documents_eq {options : Options} {left right : OrderedMap String Entry}
    (leftCompiled : ∀ name entry, (name, entry) ∈ left →
      Validator.ofDocument options entry.document = .ok entry.validator)
    (rightCompiled : ∀ name entry, (name, entry) ∈ right →
      Validator.ofDocument options entry.document = .ok entry.validator)
    (same : (left.map fun entry => (entry.1, entry.2.document)) =
      right.map fun entry => (entry.1, entry.2.document)) : left = right := by
  induction left generalizing right with
  | nil => exact (List.map_eq_nil_iff.mp same.symm).symm
  | cons first rest ih =>
    cases right with
    | nil => cases same
    | cons second others =>
      obtain ⟨name, document, validator⟩ := first
      obtain ⟨otherName, otherDocument, otherValidator⟩ := second
      obtain ⟨here, later⟩ := List.cons.inj same
      cases here
      have one := leftCompiled name _ List.mem_cons_self
      have other := rightCompiled name _ List.mem_cons_self
      cases one.symm.trans other
      rw [ih (fun name entry member => leftCompiled name entry (List.mem_cons_of_mem _ member))
        (fun name entry member => rightCompiled name entry (List.mem_cons_of_mem _ member)) later]

namespace Sound

variable {registry : Registry} (sound : Sound registry)

include sound

theorem distinct : (OrderedMap.keys registry.entries).Nodup :=
  sound.ascending.imp String.ne_of_lt

theorem stored {name : String} {document : Json} {validator : Validator}
    (free : name ∉ registry.names)
    (compiles : Validator.ofDocument registry.options document = .ok validator) :
    Sound { registry with entries := place name ⟨document, validator⟩ registry.entries } where
  ascending := ascending_place sound.ascending free _
  compiled := by
    intro other entry member
    rcases List.mem_cons.mp ((place_perm _ _ _).mem_iff.mp member) with same | member
    · cases same
      exact compiles
    · exact sound.compiled other entry member

theorem get?_of_mem {name : String} {document : Json} (member : (name, document) ∈ registry.documents) :
    ∃ validator, Validator.ofDocument registry.options document = .ok validator ∧
      registry.get? name = some validator := by
  obtain ⟨⟨_, entry⟩, listed, same⟩ := List.mem_map.mp member
  cases same
  refine ⟨entry.validator, sound.compiled _ entry listed, ?_⟩
  rw [get?, OrderedMap.get?_of_mem sound.distinct listed, Option.map_some]

theorem validate_of_mem {name : String} {document : Json}
    (member : (name, document) ∈ registry.documents) :
    ∃ validator, Validator.ofDocument registry.options document = .ok validator ∧
      registry.get? name = some validator ∧
        ∀ value, ∃ verdict, validator.validate { value } = .ok verdict ∧
          registry.validate name value = .ok verdict := by
  obtain ⟨validator, compiles, found⟩ := sound.get?_of_mem member
  refine ⟨validator, compiles, found, ?_⟩
  intro value
  obtain ⟨verdict, validates⟩ := Validator.exists_verdict compiles { value }
  refine ⟨verdict, validates, ?_⟩
  rw [validate, found]
  exact congrArg (Except.mapError RegistryFault.exec) validates

theorem ascending_documents :
    registry.documents.Pairwise fun first second => first.1 < second.1 := by
  have ascending := sound.ascending
  rw [← keys_documents] at ascending
  exact List.pairwise_map.mp ascending

/-- Registries with the same options and the same documents, in whatever order these are given, are
the same. -/
theorem eq_of_documents_perm {other : Registry} (otherSound : Sound other)
    (options : registry.options = other.options)
    (same : registry.documents.Perm other.documents) : registry = other := by
  have documents : registry.documents = other.documents :=
    same.eq_of_pairwise (fun _ _ _ _ before after => absurd after (String.lt_asymm before))
      sound.ascending_documents otherSound.ascending_documents
  have entries : registry.entries = other.entries :=
    entries_eq_of_documents_eq sound.compiled (options ▸ otherSound.compiled) documents
  cases registry
  cases other
  cases options
  cases entries
  rfl

end Sound

end SchemaCompiler.Registry
