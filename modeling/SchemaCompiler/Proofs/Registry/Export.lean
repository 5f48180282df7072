import SchemaCompiler.Proofs.Registry.History

/-!
Export and import. The exported document has all that a registry holds: registering its members on
an empty registry with the same options, in whatever order they come, leaves a registry with the
same answers.
-/

namespace SchemaCompiler.Registry

def through (handle : Nat) (calls : List Call) : List (Nat × Call) :=
  calls.map fun call => (handle, call)

def imports (members : Json.Members) : List (Nat × Call) :=
  members.map fun member => (0, .register member.1 member.2)

theorem imports_append (left right : Json.Members) :
    imports (left ++ right) = imports left ++ imports right :=
  List.map_append

/-- Importing the members in this order undoes the export through the handle: every registration
succeeds, and the answers are those after the calls, also to whatever is called later. The one thing
that differs is how many handles there are. -/
structure Restored (options : Options) (calls : List (Nat × Call)) (handle : Nat)
    (order : Json.Members) : Prop where
  registered : ∀ before name document later, order = before ++ (name, document) :: later →
    answer options (imports before) 0 (.register name document) = .registered
  names : answer options (imports order) 0 .names = answer options calls handle .names
  document : answer options (imports order) 0 .document = answer options calls handle .document
  validate : ∀ name value, answer options (imports order) 0 (.validate name value) =
    answer options calls handle (.validate name value)
  later : ∀ later next, next ≠ .clone →
    answer options (imports order ++ through 0 later) 0 next =
      answer options (calls ++ through handle later) handle next

theorem held_first (options : Options) (calls : List (Nat × Call)) :
    0 < (reached options calls).handles.length := by
  induction calls using List.reverseRecOn with
  | nil => exact Nat.one_pos
  | append_singleton calls last ih =>
    rw [reached, Session.after_append]
    exact Nat.lt_of_lt_of_le ih (Session.length_handles_call last.1 last.2)

/-- Only the number of a new handle depends on how many there are. -/
theorem serve_congr (registry : Registry) (handles others : Nat) (call : Call) :
    (registry.serve handles call).1 = (registry.serve others call).1 ∧
      (call ≠ .clone → (registry.serve handles call).2 = (registry.serve others call).2) := by
  cases call with
  | clone => exact ⟨rfl, fun other => absurd rfl other⟩
  | _ => exact ⟨rfl, fun _ => rfl⟩

/-- Two sessions on one registry answer alike, whatever is called. -/
theorem Session.Shares.call_through {left right : Session} {registry : Registry}
    (onLeft : left.Shares registry) (onRight : right.Shares registry) {number other : Nat}
    (held : number < left.handles.length) (otherHeld : other < right.handles.length)
    (later : List Call) {next : Call} (notClone : next ≠ .clone) :
    ((left.after (through number later)).call number next).2 =
      ((right.after (through other later)).call other next).2 := by
  -- The calls change the registry that both sessions share, so it stays general.
  induction later generalizing left right registry with
  | nil =>
    obtain ⟨-, leftTold⟩ := onLeft.call held next
    obtain ⟨-, rightTold⟩ := onRight.call otherHeld next
    exact leftTold.trans (((serve_congr _ _ _ next).2 notClone).trans rightTold.symm)
  | cons call later ih =>
    obtain ⟨leftShares, -⟩ := onLeft.call held call
    obtain ⟨rightShares, -⟩ := onRight.call otherHeld call
    rw [(serve_congr registry left.handles.length right.handles.length call).1] at leftShares
    exact ih leftShares rightShares (Nat.lt_of_lt_of_le held (Session.length_handles_call _ _))
      (Nat.lt_of_lt_of_le otherHeld (Session.length_handles_call _ _))

theorem documents_serve_registered {registry : Registry} {handles : Nat} {name : String}
    {document : Json}
    (registered : (registry.serve handles (.register name document)).2 = .registered) :
    (registry.serve handles (.register name document)).1.documents.Perm
      ((name, document) :: registry.documents) := by
  have stores := storing registry handles (.register name document)
  generalize registry.serve handles (.register name document) = outcome at stores registered ⊢
  cases stores with
  | kept notRegistered => exact absurd registered notRegistered
  | stored => exact documents_stored registry name document _

structure Importable (options : Options) (members : Json.Members) : Prop where
  distinct : (OrderedMap.keys members).Nodup
  compiles : ∀ name document, (name, document) ∈ members →
    ∃ validator, Validator.ofDocument options document = .ok validator

namespace Importable

variable {options : Options} {members : Json.Members}

theorem perm {order : Json.Members} (importable : Importable options members)
    (permuted : order.Perm members) : Importable options order where
  distinct := (permuted.map Prod.fst).nodup_iff.mpr importable.distinct
  compiles := fun name document member =>
    importable.compiles name document (permuted.mem_iff.mp member)

theorem left {later : Json.Members} (importable : Importable options (members ++ later)) :
    Importable options members where
  distinct := by
    have distinct := importable.distinct
    rw [OrderedMap.keys, List.map_append] at distinct
    exact (List.nodup_append.mp distinct).1
  compiles := fun name document member =>
    importable.compiles name document (List.mem_append_left later member)

theorem registered {name : String} {document : Json} {later : Json.Members}
    (importable : Importable options (members ++ (name, document) :: later)) {registry : Registry}
    (shares : (reached options (imports members)).Shares registry)
    (sameOptions : registry.options = options) (stored : registry.documents.Perm members) :
    answer options (imports members) 0 (.register name document) = .registered := by
  rw [answer, (shares.call (held_first options _) _).2]
  apply serve_register_eq_registered_iff.mpr
  constructor
  · have storedNames := stored.map Prod.fst
    have distinct := importable.distinct
    rw [OrderedMap.keys, List.map_append] at distinct
    intro taken
    rw [← keys_documents] at taken
    have before : name ∈ members.map Prod.fst := storedNames.mem_iff.mp taken
    exact (List.nodup_append.mp distinct).2.2 name before name List.mem_cons_self rfl
  · rw [sameOptions]
    exact importable.compiles name document (List.mem_append_right members List.mem_cons_self)

theorem recorded_imports (importable : Importable options members) :
    ∃ registry, (reached options (imports members)).Shares registry ∧
      Recorded options (imports members) registry ∧ registry.documents.Perm members := by
  induction members using List.reverseRecOn with
  | nil => exact ⟨_, Session.shares_start options, recorded_nil options, .refl _⟩
  | append_singleton earlier last ih =>
    obtain ⟨registry, shares, record, stored⟩ := ih importable.left
    have held := held_first options (imports earlier)
    have registered := importable.registered shares record.sameOptions stored
    have served := shares.call held (.register last.1 last.2)
    have grown := documents_serve_registered (served.2.symm.trans registered)
    have whole : imports (earlier ++ [last]) =
        imports earlier ++ [(0, .register last.1 last.2)] := imports_append earlier [last]
    rw [whole, reached_append]
    refine ⟨_, served.1, record.serve shares held _, ?_⟩
    exact (grown.trans (stored.cons last)).trans (List.perm_append_singleton last earlier).symm

end Importable

theorem Sound.importable {registry : Registry} (sound : Sound registry) :
    Importable registry.options registry.documents where
  distinct := by
    rw [keys_documents]
    exact sound.distinct
  compiles := by
    intro name document member
    obtain ⟨validator, compiles, -⟩ := sound.get?_of_mem member
    exact ⟨validator, compiles⟩

/-- What a registry exports through any of its handles can be imported in any order, and gives a
registry like it. -/
theorem import_export {options : Options} {calls : List (Nat × Call)} {handle : Nat}
    (held : handle < (reached options calls).handles.length) :
    ∃ definitions,
      answer options calls handle .document = .document (.obj [("$defs", .obj definitions)]) ∧
        ∀ order, order.Perm definitions → Restored options calls handle order := by
  obtain ⟨exporter, exports, record⟩ := recorded options calls
  refine ⟨_, (exports.call held _).2.trans (congrArg Answer.document (toJson_eq _)), ?_⟩
  intro order permuted
  have importable : Importable options order :=
    (record.sameOptions ▸ record.sound.importable).perm permuted
  obtain ⟨importer, imported, importRecord, stored⟩ := importable.recorded_imports
  have same : importer = exporter :=
    importRecord.sound.eq_of_documents_perm record.sound
      (importRecord.sameOptions.trans record.sameOptions.symm) (stored.trans permuted)
  rw [same] at imported
  have alike (later : List Call) (next : Call) (notClone : next ≠ .clone) :
      answer options (imports order ++ through 0 later) 0 next =
        answer options (calls ++ through handle later) handle next := by
    rw [answer, answer, reached, reached, Session.after_append, Session.after_append]
    exact imported.call_through exports (held_first options _) held later notClone
  have now (next : Call) (notClone : next ≠ .clone) :
      answer options (imports order) 0 next = answer options calls handle next := by
    simpa only [through, List.map_nil, List.append_nil] using alike [] next notClone
  constructor
  case registered =>
    rintro before name document later rfl
    obtain ⟨registry, shares, recordBefore, storedBefore⟩ := importable.left.recorded_imports
    exact importable.registered shares recordBefore.sameOptions storedBefore
  case names => exact now .names (by rintro ⟨⟩)
  case document => exact now .document (by rintro ⟨⟩)
  case validate => exact fun name value => now (.validate name value) (by rintro ⟨⟩)
  case later => exact alike

section Shop

theorem import_export_shop :
    1 < (reached {} shopCalls).handles.length ∧
      answer {} shopCalls 1 .document =
        .document (.obj [("$defs", .obj [billDependencies, orderSchema])]) ∧
      [orderSchema, billDependencies].Perm [billDependencies, orderSchema] ∧
        answer {} (imports []) 0 (.register orderSchema.1 orderSchema.2) = .registered ∧
        answer {} (imports [orderSchema]) 0
          (.register billDependencies.1 billDependencies.2) = .registered ∧
        answer {} (imports [orderSchema, billDependencies]) 0 .names = .names ["bill", "order"] ∧
        Restored {} shopCalls 1 [orderSchema, billDependencies] := by
  have held : 1 < (reached {} shopCalls).handles.length := by decide
  obtain ⟨definitions, exported, restores⟩ := import_export held
  have listed : answer {} shopCalls 1 .document =
      .document (.obj [("$defs", .obj [billDependencies, orderSchema])]) := rfl
  cases listed.symm.trans exported
  have permuted : [orderSchema, billDependencies].Perm [billDependencies, orderSchema] :=
    .swap _ _ []
  have restored := restores _ permuted
  have first := restored.registered [] _ _ [billDependencies] rfl
  have second := restored.registered [orderSchema] _ _ [] rfl
  exact ⟨held, listed, permuted, first, second, restored.names.trans rfl, restored⟩

end Shop

end SchemaCompiler.Registry
