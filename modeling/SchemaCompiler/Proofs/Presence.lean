import SchemaCompiler.Run.Lookup
import SchemaCompiler.Schema.Violations

/-!
What code finds when it looks a property up is what is present by membership.
-/

namespace SchemaCompiler.Schema.Presence

open Run

/-- An own member is found first, and an inherited one only where inherited members count. -/
theorem has_eq_isSome_lookup (presence : Presence) (value : Json) (property : String) :
    presence.has value property =
      (lookup presence.prototype value property presence.own).isSome := by
  cases value with
  | obj members =>
    rw [Bool.eq_iff_iff]
    simp only [has, lookup, Bool.or_eq_true, Bool.and_eq_true, Bool.not_eq_true',
      decide_eq_true_eq, ← OrderedMap.isSome_get?_iff]
    cases OrderedMap.get? members property with
    | some value => simp
    | none => cases presence.own <;> simp
  | _ => rfl

theorem valueAt_eq_getD_lookup (presence : Presence) (value : Json) (property : String) :
    presence.valueAt value property =
      (lookup presence.prototype value property false).getD .null := by
  cases value with
  | obj members =>
    have found : lookup presence.prototype (.obj members) property false =
        OrderedMap.get? (members ++ presence.prototype) property := by
      rw [OrderedMap.get?_append, lookup]
      cases OrderedMap.get? members property <;> rfl
    rw [found, OrderedMap.get?_eq_find?, valueAt]
    cases List.find? (fun member => member.1 == property) (members ++ presence.prototype) <;> rfl
  | _ => rfl

end SchemaCompiler.Schema.Presence
