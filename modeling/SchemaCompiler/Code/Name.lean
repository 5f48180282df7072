import SchemaCompiler.OrderedMap

/-!
Names of variables and data references, and the supply of new ones.
-/

namespace SchemaCompiler.Code

structure Name where
  text : String
  deriving DecidableEq, Repr

def Name.data : Name := ⟨"data"⟩

structure NameSupply where
  counters : OrderedMap String Nat

namespace NameSupply

/-- The root reference counts as the first name of its stem. -/
def initial : NameSupply := ⟨[(Name.data.text, 1)]⟩

def count (supply : NameSupply) (stem : String) : Nat :=
  (OrderedMap.get? supply.counters stem).getD 0

def fresh (supply : NameSupply) (stem : String) : Name × NameSupply :=
  (⟨stem ++ toString (supply.count stem)⟩,
    ⟨OrderedMap.insert supply.counters stem (supply.count stem + 1)⟩)

@[simp] theorem fst_fresh (supply : NameSupply) (stem : String) :
    (supply.fresh stem).1 = ⟨stem ++ toString (supply.count stem)⟩ := rfl

theorem count_fresh (supply : NameSupply) (stem other : String) :
    (supply.fresh stem).2.count other =
      if stem = other then supply.count stem + 1 else supply.count other := by
  simp only [fresh, count, OrderedMap.get?_insert]
  split <;> rfl

end NameSupply

end SchemaCompiler.Code
