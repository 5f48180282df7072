import SchemaCompiler.Proofs.Compilation
import SchemaCompiler.Proofs.Schema.Alike

/-!
What a validator observes of an instance: whether the values along the schema are objects, and which
of the mentioned properties are present on them. The order of members, members that the schema does
not mention, and what scalars and arrays hold make no difference to what is reported.
-/

namespace SchemaCompiler.Validator

open Run Schema

/-- A validator reports the same of values that look the same to its schema. -/
theorem run_alike (options : Options) (schema : Schema) :
    ∃ validator, ofSchema options schema = .ok validator ∧
      ∀ prototype first second,
        Alike ⟨options.ownProperties, prototype⟩ ⟨options.ownProperties, prototype⟩ schema
            first second →
          ∃ violations, run validator.code ⟨first, prototype⟩ = .ok violations ∧
            run validator.code ⟨second, prototype⟩ = .ok violations := by
  refine ⟨compiled options schema, ofSchema_eq options schema, ?_⟩
  intro prototype first second alike
  have same : schema.violationsOf options.ownProperties ⟨first, prototype⟩ =
      schema.violationsOf options.ownProperties ⟨second, prototype⟩ :=
    alike.violations_eq .root .root
  refine ⟨_, run_compiled options schema ⟨first, prototype⟩, ?_⟩
  rw [run_compiled, same]

section Parcel

def parcelSchema : Schema :=
  .object {
    required? := some ["address"]
    dependencies? := some [("gift", .schema (.object {
      properties? := some [("card", .object { required? := some ["text"] })] }))] }

def parcelOptions : Options := { policy := .accumulateAll }

def parcelPrototype : Json.Members := [("card", .obj [("signed", .bool true)])]

def plainParcel : Json := .obj [("gift", .null)]

def fancyParcel : Json :=
  .obj [("weight", .ofNat 2), ("card", .obj [("paper", .str "laid")]), ("gift", .arr [.null])]

theorem run_alike_parcel :
    Alike ⟨false, parcelPrototype⟩ ⟨false, parcelPrototype⟩ parcelSchema plainParcel fancyParcel ∧
      ∃ validator address text, ofSchema parcelOptions parcelSchema = .ok validator ∧
        run validator.code ⟨plainParcel, parcelPrototype⟩ = .ok [address, text] ∧
          run validator.code ⟨fancyParcel, parcelPrototype⟩ = .ok [address, text] := by
  have alike : Alike ⟨false, parcelPrototype⟩ ⟨false, parcelPrototype⟩ parcelSchema plainParcel
      fancyParcel := by
    apply Alike.objects rfl rfl (by decide)
    · intro trigger schema member _ _
      cases List.mem_singleton.mp member
      apply Alike.objects rfl rfl (by decide)
      · rintro _ _ ⟨⟩
      · intro property schema member _
        cases List.mem_singleton.mp member
        apply Alike.objects rfl rfl (by decide)
        · rintro _ _ ⟨⟩
        · rintro _ _ ⟨⟩
    · rintro _ _ ⟨⟩
  obtain ⟨validator, compiles, observes⟩ := run_alike parcelOptions parcelSchema
  obtain ⟨violations, here, there⟩ := observes parcelPrototype plainParcel fancyParcel alike
  rw [ofSchema_eq] at compiles
  cases compiles
  have reported := run_compiled parcelOptions parcelSchema ⟨plainParcel, parcelPrototype⟩
  cases reported.symm.trans here
  exact ⟨alike, _, _, _, ofSchema_eq _ _, reported, there⟩

end Parcel

end SchemaCompiler.Validator
