import SchemaCompiler.Code.Stmt
import SchemaCompiler.Fault

/-!
Writing code statement by statement. A conditional is opened, may be switched once to its else
branch, and is closed; what is pushed in between lands in the branch that is open innermost. A
switch or a close that finds nothing to act on changes nothing.
-/

namespace SchemaCompiler.Code

structure Frame where
  test : Expr
  yes : Block
  no : Option Block

namespace Frame

def start (test : Expr) : Frame := ⟨test, [], none⟩

def push (frame : Frame) (stmt : Stmt) : Frame :=
  match frame.no with
  | none => { frame with yes := frame.yes ++ [stmt] }
  | some no => { frame with no := some (no ++ [stmt]) }

def turn (frame : Frame) : Frame :=
  match frame.no with
  | none => { frame with no := some [] }
  | some _ => frame

def stmt (frame : Frame) : Stmt := .cond frame.test frame.yes frame.no

end Frame

/-- The code written so far, the open conditionals with the innermost first, and the names still
to come. -/
structure Buffer where
  root : Block
  frames : List Frame
  names : NameSupply

namespace Buffer

def empty : Buffer := ⟨[], [], .initial⟩

def depth (buffer : Buffer) : Nat := buffer.frames.length

def push (buffer : Buffer) (stmt : Stmt) : Buffer :=
  match buffer.frames with
  | [] => { buffer with root := buffer.root ++ [stmt] }
  | frame :: rest => { buffer with frames := frame.push stmt :: rest }

def openIf (buffer : Buffer) (test : Expr) : Buffer :=
  { buffer with frames := Frame.start test :: buffer.frames }

def openElse (buffer : Buffer) : Buffer :=
  match buffer.frames with
  | [] => buffer
  | frame :: rest => { buffer with frames := frame.turn :: rest }

def closeIf (buffer : Buffer) : Buffer :=
  match buffer.frames with
  | [] => buffer
  | frame :: rest => push { buffer with frames := rest } frame.stmt

/-- Closes conditionals until at most `depth` are open. -/
def closeTo (buffer : Buffer) (depth : Nat) : Buffer :=
  Nat.repeat closeIf (buffer.depth - depth) buffer

def fresh (buffer : Buffer) (stem : String) : Name × Buffer :=
  let (name, names) := buffer.names.fresh stem
  (name, { buffer with names })

def declare (buffer : Buffer) (stem : String) (value : Expr) : Name × Buffer :=
  let (name, buffer) := buffer.fresh stem
  (name, buffer.push (.declare name value))

def assign (buffer : Buffer) (name : Name) (value : Expr) : Buffer :=
  buffer.push (.assign name value)

def bindData (buffer : Buffer) (parent : Name) (property : String) : Name × Buffer :=
  let (name, buffer) := buffer.fresh Name.data.text
  (name, buffer.push (.bindData name parent property))

/-- The finished code; every conditional must be closed. -/
def finish (buffer : Buffer) : Except CompileFault Block :=
  if buffer.depth = 0 then .ok buffer.root else .error (.unclosedBlock buffer.depth)

@[simp] theorem depth_empty : empty.depth = 0 := rfl

@[simp] theorem depth_push (buffer : Buffer) (stmt : Stmt) :
    (buffer.push stmt).depth = buffer.depth := by
  obtain ⟨root, frames, names⟩ := buffer
  cases frames <;> rfl

@[simp] theorem depth_openIf (buffer : Buffer) (test : Expr) :
    (buffer.openIf test).depth = buffer.depth + 1 := rfl

@[simp] theorem depth_openElse (buffer : Buffer) : buffer.openElse.depth = buffer.depth := by
  obtain ⟨root, frames, names⟩ := buffer
  cases frames <;> rfl

@[simp] theorem depth_closeIf (buffer : Buffer) : buffer.closeIf.depth = buffer.depth - 1 := by
  obtain ⟨root, frames, names⟩ := buffer
  cases frames with
  | nil => rfl
  | cons frame rest => exact depth_push ⟨root, rest, names⟩ frame.stmt

@[simp] theorem depth_fresh (buffer : Buffer) (stem : String) :
    (buffer.fresh stem).2.depth = buffer.depth := rfl

end Buffer

end SchemaCompiler.Code
