import SchemaCompiler.Run.Eval

/-!
Running generated code. Blocks may nest without bound, so what remains of the blocks that were
entered is kept in a list of frames, the innermost first.
-/

namespace SchemaCompiler.Run

open Code

inductive Ending where
  /-- After its last statement. -/
  | fellThrough
  /-- At a statement that ends the validation. -/
  | halted
  deriving DecidableEq, Repr

def readParam : ParamValue → Exec Json
  | .literal value => pure value
  | .var name => readVariable name

/-- The parameters read so far, followed by the given ones. A repeated name keeps its place and
takes the later value. -/
def readParams (read : Json.Members) : List (String × ParamValue) → Exec Json.Members
  | [] => pure read
  | (name, param) :: rest => do
    let value ← readParam param
    readParams (OrderedMap.insert read name value) rest

def report (site : Site) : Exec Unit := do
  let params ← readParams [] site.params
  let location ← readData site.data
  addViolation {
    instancePath := location.path
    schemaPath := site.schemaPath
    keyword := site.keyword
    params := site.wording.params params
    message := site.wording.message params }

/-- Performs a statement that is no conditional. A property that is not there binds `null`. -/
def perform (prototype : Json.Members) : Stmt → Exec Ending
  | .declare name expr => do
    let value ← eval prototype expr
    writeVariable name value
    pure .fellThrough
  | .assign name expr => do
    let value ← eval prototype expr
    writeVariable name value
    pure .fellThrough
  | .bindData name parent property => do
    let location ← readData parent
    let value := (lookup prototype location.value property false).getD .null
    writeData name ⟨value, location.path.key property⟩
    pure .fellThrough
  | .cond .. => pure .fellThrough
  | .report site => do
    report site
    pure .fellThrough
  | .fail site => do
    report site
    pure .halted
  | .ret _ => pure .halted

def remaining : List Block → Nat
  | [] => 0
  | block :: frames => Block.weight block + 1 + remaining frames

def runFrames (prototype : Json.Members) (frames : List Block) (state : State) :
    EStateM.Result ExecFault State Ending :=
  match frames with
  | [] => .ok .fellThrough state
  | [] :: frames => runFrames prototype frames state
  | (.cond test yes no :: rest) :: frames =>
    match eval prototype test state with
    | .error fault state => .error fault state
    | .ok value state =>
      if value.truthy then runFrames prototype (yes :: rest :: frames) state
      else match no with
        | some no => runFrames prototype (no :: rest :: frames) state
        | none => runFrames prototype (rest :: frames) state
  | (stmt :: rest) :: frames =>
    match perform prototype stmt state with
    | .error fault state => .error fault state
    | .ok .fellThrough state => runFrames prototype (rest :: frames) state
    | .ok .halted state => .ok .halted state
termination_by remaining frames
decreasing_by
  · rw [remaining]; omega
  · cases no <;> simp only [remaining, Block.weight, Stmt.weight] <;> omega
  · simp only [remaining, Block.weight, Stmt.weight]; omega
  · simp only [remaining, Block.weight, Stmt.weight]; omega
  · have positive := stmt.weight_pos
    simp only [remaining, Block.weight]; omega

def runBlock (prototype : Json.Members) (block : Block) : Exec Ending :=
  runFrames prototype [block]

def run (code : Block) (subject : Instance) : Except ExecFault (List Violation) :=
  match runBlock subject.prototype code (.start subject.value) with
  | .ok _ state => .ok state.violations
  | .error fault _ => .error fault

end SchemaCompiler.Run
