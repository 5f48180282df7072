import SchemaCompiler.Code.Name
import SchemaCompiler.Fault
import SchemaCompiler.Run.Lookup
import SchemaCompiler.Violation

/-!
What generated code works on while it runs. A run that meets a fault still has a state, the one in
which the fault arose.
-/

namespace SchemaCompiler.Run

open Code

structure Location where
  value : Json
  path : Pointer
  deriving Repr

structure State where
  vars : OrderedMap Name Json
  data : OrderedMap Name Location
  /-- In the order in which they were reported. -/
  violations : List Violation
  deriving Repr

def State.start (value : Json) : State := ⟨[], [(Name.data, ⟨value, .root⟩)], []⟩

abbrev Exec := EStateM ExecFault State

def readVariable (name : Name) : Exec Json := fun state =>
  match OrderedMap.get? state.vars name with
  | some value => .ok value state
  | none => .error (.unboundName name.text) state

def writeVariable (name : Name) (value : Json) : Exec Unit := fun state =>
  .ok () { state with vars := OrderedMap.insert state.vars name value }

def readData (name : Name) : Exec Location := fun state =>
  match OrderedMap.get? state.data name with
  | some location => .ok location state
  | none => .error (.unboundData name.text) state

def writeData (name : Name) (location : Location) : Exec Unit := fun state =>
  .ok () { state with data := OrderedMap.insert state.data name location }

section Reading

variable {name : Name} {state : State}

theorem readVariable_eq {value : Json} (known : OrderedMap.get? state.vars name = some value) :
    readVariable name state = .ok value state := by
  rw [readVariable, known]

theorem readVariable_eq_error (unknown : OrderedMap.get? state.vars name = none) :
    readVariable name state = .error (.unboundName name.text) state := by
  rw [readVariable, unknown]

theorem readData_eq {location : Location}
    (bound : OrderedMap.get? state.data name = some location) :
    readData name state = .ok location state := by
  rw [readData, bound]

theorem readData_eq_error (unbound : OrderedMap.get? state.data name = none) :
    readData name state = .error (.unboundData name.text) state := by
  rw [readData, unbound]

end Reading

def violationCount : Exec Nat := fun state => .ok state.violations.length state

def addViolation (violation : Violation) : Exec Unit := fun state =>
  .ok () { state with violations := state.violations ++ [violation] }

end SchemaCompiler.Run
