import SchemaCompiler.Proofs.Code.Appending

/-!
Writing a block and reading it back. What has been done to a buffer can be read off it at any time:
first the events of the finished code, then, from the outermost open conditional inwards, those of
the branches it has so far. Every call adds its own events at the end of this and changes nothing
before it.
-/

namespace SchemaCompiler.Code

namespace Event

def isOpen : Event → Bool
  | openIf _ => true
  | _ => false

def isClose : Event → Bool
  | closeIf => true
  | _ => false

def spelled : Event → List Event
  | push stmt => stmt.events
  | event => [event]

end Event

inductive Call where
  | event (event : Event)
  | closeTo (depth : Nat)

/-- The open conditionals with the innermost first: whether each has gone over to its else
branch. -/
abbrev Nesting := List Bool

namespace Nesting

/-- What is open after an event that has something to act on: an else branch needs an open
conditional without one, a close an open conditional. -/
def after? : Nesting → Event → Option Nesting
  | nesting, .push _ => some nesting
  | nesting, .openIf _ => some (false :: nesting)
  | false :: outer, .openElse => some (true :: outer)
  | _ :: outer, .closeIf => some outer
  | _, _ => none

/-- The events of calls that all have something to act on, with the closing of several conditionals
written out. -/
def spell? (nesting : Nesting) : List Call → Option (List Event)
  | [] => some []
  | .event event :: rest => do
    let inner ← nesting.after? event
    let events ← spell? inner rest
    some (event.spelled ++ events)
  | .closeTo depth :: rest => do
    let closed := nesting.length - depth
    let events ← spell? (nesting.drop closed) rest
    some (List.replicate closed .closeIf ++ events)

end Nesting

theorem Stmt.events_of_not_cond {stmt : Stmt} (plain : stmt.isCond = false) :
    stmt.events = [.push stmt] := by
  cases stmt with
  | cond => simp [isCond] at plain
  | _ => rfl

namespace Block

theorem events_append (left right : Block) :
    Block.events (left ++ right) = Block.events left ++ Block.events right := by
  induction left with
  | nil => rfl
  | cons stmt rest ih => simp [Block.events, ih]

@[simp] theorem events_singleton (stmt : Stmt) : Block.events [stmt] = stmt.events := by
  simp [Block.events]

theorem countP_isOpen_events (block : Block) :
    (Block.events block).countP Event.isOpen = (Block.events block).countP Event.isClose := by
  induction block using Block.induction with
  | nil => rfl
  | step stmt rest plain ih =>
    simp [Block.events, Stmt.events_of_not_cond plain, Event.isOpen, Event.isClose, ih]
  | cond test yes no rest inYes inNo inRest =>
    cases no with
    | none =>
      simp only [Block.events, Stmt.events, List.cons_append, List.append_assoc, List.nil_append,
        List.countP_cons, List.countP_append, Event.isOpen, Event.isClose, Bool.false_eq_true,
        ↓reduceIte]
      omega
    | some no =>
      have inElse : (Block.events no).countP Event.isOpen =
        (Block.events no).countP Event.isClose := inNo
      simp only [Block.events, Stmt.events, List.cons_append, List.append_assoc, List.nil_append,
        List.countP_cons, List.countP_append, Event.isOpen, Event.isClose, Bool.false_eq_true,
        ↓reduceIte]
      omega

end Block

namespace Frame

def written (frame : Frame) : List Event :=
  .openIf frame.test :: Block.events frame.yes ++
    match frame.no with
    | none => []
    | some no => .openElse :: Block.events no

theorem written_append (frame : Frame) (block : Block) :
    (frame.append block).written = frame.written ++ Block.events block := by
  rcases frame with ⟨test, yes, _ | no⟩ <;> simp [append, written, Block.events_append]

theorem events_stmt (frame : Frame) : frame.stmt.events = frame.written ++ [.closeIf] := by
  rcases frame with ⟨test, yes, _ | no⟩ <;> simp [stmt, written, Stmt.events]

theorem countP_isOpen_written (frame : Frame) :
    frame.written.countP Event.isOpen = frame.written.countP Event.isClose + 1 := by
  have balanced := Block.countP_isOpen_events [frame.stmt]
  rw [Block.events_singleton, events_stmt] at balanced
  simpa [Event.isOpen, Event.isClose] using balanced

end Frame

namespace Buffer

def call (buffer : Buffer) : Call → Buffer
  | .event event => buffer.perform event
  | .closeTo depth => buffer.closeTo depth

def callAll (buffer : Buffer) (calls : List Call) : Buffer := calls.foldl call buffer

def nesting (buffer : Buffer) : Nesting := buffer.frames.map (·.no.isSome)

def written (buffer : Buffer) : List Event :=
  Block.events buffer.root ++ buffer.frames.reverse.flatMap Frame.written

@[simp] theorem length_nesting (buffer : Buffer) : buffer.nesting.length = buffer.depth :=
  List.length_map _

theorem written_cons (root : Block) (frame : Frame) (outer : List Frame) (names : NameSupply) :
    written ⟨root, frame :: outer, names⟩ = written ⟨root, outer, names⟩ ++ frame.written := by
  simp [written]

theorem written_append (buffer : Buffer) (block : Block) :
    (buffer.append block).written = buffer.written ++ Block.events block := by
  rcases buffer with ⟨root, _ | ⟨frame, outer⟩, names⟩
  · simp [append, written, Block.events_append]
  · simp [append, written_cons, Frame.written_append]

theorem nesting_append (buffer : Buffer) (block : Block) :
    (buffer.append block).nesting = buffer.nesting := by
  rcases buffer with ⟨root, _ | ⟨⟨test, yes, _ | no⟩, outer⟩, names⟩ <;> rfl

theorem written_push (buffer : Buffer) (stmt : Stmt) :
    (buffer.push stmt).written = buffer.written ++ stmt.events := by
  rw [push_eq_append, written_append, Block.events_singleton]

theorem nesting_push (buffer : Buffer) (stmt : Stmt) : (buffer.push stmt).nesting = buffer.nesting := by
  rw [push_eq_append, nesting_append]

theorem perform_admitted (buffer : Buffer) (event : Event) {inner : Nesting}
    (admitted : buffer.nesting.after? event = some inner) :
    (buffer.perform event).nesting = inner ∧
      (buffer.perform event).written = buffer.written ++ event.spelled := by
  rcases buffer with ⟨root, frames, names⟩
  cases event with
  | push stmt =>
    have same : nesting ⟨root, frames, names⟩ = inner := Option.some.inj admitted
    exact ⟨(nesting_push _ stmt).trans same, written_push _ stmt⟩
  | openIf test =>
    have opened : false :: nesting ⟨root, frames, names⟩ = inner := Option.some.inj admitted
    refine ⟨opened, ?_⟩
    simp [perform, openIf, written_cons, Frame.start, Frame.written, Event.spelled, Block.events]
  | openElse =>
    rcases frames with _ | ⟨⟨test, yes, _ | no⟩, outer⟩
    · simp [nesting, Nesting.after?] at admitted
    · have turned : true :: nesting ⟨root, outer, names⟩ = inner := Option.some.inj admitted
      refine ⟨turned, ?_⟩
      simp [perform, openElse, Frame.turn, written_cons, Frame.written, Event.spelled,
        Block.events]
    · simp [nesting, Nesting.after?] at admitted
  | closeIf =>
    rcases frames with _ | ⟨frame, outer⟩
    · simp [nesting, Nesting.after?] at admitted
    · have closed : nesting ⟨root, outer, names⟩ = inner := by
        cases turned : frame.no.isSome <;>
          simpa [nesting, turned, Nesting.after?] using admitted
      refine ⟨(nesting_push _ frame.stmt).trans closed, ?_⟩
      calc
        _ = written ⟨root, outer, names⟩ ++ frame.stmt.events := written_push _ frame.stmt
        _ = written ⟨root, outer, names⟩ ++ frame.written ++ [.closeIf] := by
          rw [Frame.events_stmt, List.append_assoc]
        _ = _ := congrArg (· ++ [Event.closeIf]) (written_cons root frame outer names).symm

theorem after?_closeIf (buffer : Buffer) (isOpen : 0 < buffer.depth) :
    buffer.nesting.after? .closeIf = some (buffer.nesting.drop 1) := by
  rcases buffer with ⟨root, _ | ⟨⟨test, yes, _ | no⟩, outer⟩, names⟩
  · exact absurd isOpen (Nat.lt_irrefl 0)
  · rfl
  · rfl

/-- Closing down to a depth is closing one conditional after another. -/
theorem closeTo_eq_replay (buffer : Buffer) (depth : Nat) :
    buffer.closeTo depth = buffer.replay (List.replicate (buffer.depth - depth) .closeIf) := by
  rw [closeTo]
  induction buffer.depth - depth with
  | zero => rfl
  | succ count ih =>
    calc
      _ = (Nat.repeat closeIf count buffer).closeIf := rfl
      _ = (buffer.replay (List.replicate count .closeIf)).replay [.closeIf] := by rw [ih]; rfl
      _ = _ := by rw [← replay_append, ← List.replicate_succ']

theorem replay_closes (count : Nat) (buffer : Buffer) (enough : count ≤ buffer.depth) :
    (buffer.replay (List.replicate count .closeIf)).nesting = buffer.nesting.drop count ∧
      (buffer.replay (List.replicate count .closeIf)).written =
        buffer.written ++ List.replicate count .closeIf := by
  induction count generalizing buffer with
  | zero => simp [replay]
  | succ count ih =>
    have admitted := after?_closeIf buffer (by omega)
    have first := perform_admitted buffer .closeIf admitted
    have left : count ≤ buffer.closeIf.depth := by
      rw [depth_closeIf]
      omega
    have others := ih buffer.closeIf left
    constructor
    · calc
        _ = buffer.closeIf.nesting.drop count := others.1
        _ = (buffer.nesting.drop 1).drop count := congrArg (List.drop count) first.1
        _ = buffer.nesting.drop (count + 1) := by rw [List.drop_drop, Nat.add_comm]
    · calc
        _ = buffer.closeIf.written ++ List.replicate count .closeIf := others.2
        _ = buffer.written ++ [.closeIf] ++ List.replicate count .closeIf :=
          congrArg (· ++ List.replicate count .closeIf) first.2
        _ = _ := by rw [List.append_assoc, List.replicate_succ, List.singleton_append]

theorem depth_closeTo (buffer : Buffer) (depth : Nat) :
    (buffer.closeTo depth).depth = min buffer.depth depth := by
  have closed := (replay_closes (buffer.depth - depth) buffer (Nat.sub_le _ _)).1
  rw [← length_nesting, closeTo_eq_replay, closed, List.length_drop, length_nesting]
  omega

/-- Calls that have something to act on add their events to what was written. -/
theorem written_callAll (calls : List Call) (buffer : Buffer) {events : List Event}
    (proper : buffer.nesting.spell? calls = some events) :
    (buffer.callAll calls).written = buffer.written ++ events := by
  induction calls generalizing buffer events with
  | nil =>
    obtain rfl : [] = events := Option.some.inj proper
    exact (List.append_nil _).symm
  | cons call rest ih =>
    cases call with
    | event event =>
      simp only [Nesting.spell?, Option.bind_eq_bind, Option.bind_eq_some_iff] at proper
      rcases proper with ⟨inner, admitted, later, spelled, joined⟩
      have first := perform_admitted buffer event admitted
      rw [← first.1] at spelled
      calc
        _ = (buffer.perform event).written ++ later := ih (buffer.perform event) spelled
        _ = buffer.written ++ event.spelled ++ later := by rw [first.2]
        _ = buffer.written ++ events := by
          rw [List.append_assoc, Option.some.inj joined]
    | closeTo depth =>
      simp only [Nesting.spell?, Option.bind_eq_bind, Option.bind_eq_some_iff,
        length_nesting] at proper
      rcases proper with ⟨later, spelled, joined⟩
      have first := replay_closes (buffer.depth - depth) buffer (Nat.sub_le _ _)
      rw [← closeTo_eq_replay] at first
      rw [← first.1] at spelled
      calc
        _ = (buffer.closeTo depth).written ++ later := ih (buffer.closeTo depth) spelled
        _ = buffer.written ++ List.replicate (buffer.depth - depth) .closeIf ++ later := by
          rw [first.2]
        _ = buffer.written ++ events := by
          rw [List.append_assoc, Option.some.inj joined]

theorem countP_isOpen_written (buffer : Buffer) :
    buffer.written.countP Event.isOpen = buffer.written.countP Event.isClose + buffer.depth := by
  rcases buffer with ⟨root, frames, names⟩
  induction frames with
  | nil => simpa [written, depth] using Block.countP_isOpen_events root
  | cons frame outer ih =>
    have inner := frame.countP_isOpen_written
    have opened : depth ⟨root, frame :: outer, names⟩ = depth ⟨root, outer, names⟩ + 1 := rfl
    rw [written_cons, List.countP_append, List.countP_append, opened]
    omega

theorem finish_of_depth_eq_zero {buffer : Buffer} (closed : buffer.depth = 0) :
    ∃ block, buffer.finish = .ok block ∧ Block.events block = buffer.written := by
  have noFrames : buffer.frames = [] := List.eq_nil_of_length_eq_zero closed
  refine ⟨buffer.root, if_pos closed, ?_⟩
  simp [written, noFrames]

theorem finish_eq_error (buffer : Buffer) (fault : CompileFault) :
    buffer.finish = .error fault ↔ 0 < buffer.depth ∧ fault = .unclosedBlock buffer.depth := by
  by_cases closed : buffer.depth = 0
  · simp [finish, closed]
  · have isOpen : 0 < buffer.depth := Nat.pos_of_ne_zero closed
    simp [finish, closed, isOpen, eq_comm]

/-- Replaying the events of a block writes the block. -/
theorem replay_events (block : Block) (buffer : Buffer) :
    buffer.replay (Block.events block) = buffer.append block := by
  induction block using Block.induction generalizing buffer with
  | nil => exact (append_nil buffer).symm
  | step stmt rest plain ih =>
    calc
      _ = (buffer.push stmt).replay (Block.events rest) := by
        rw [Block.events, Stmt.events_of_not_cond plain]
        rfl
      _ = (buffer.append [stmt]).append rest := by rw [ih, push_eq_append]
      _ = buffer.append (stmt :: rest) := append_append buffer [stmt] rest
  | cond test yes no rest inYes inNo inRest =>
    have whole : buffer.replay (Stmt.events (.cond test yes no)) =
        buffer.append [.cond test yes no] := by
      cases no with
      | none =>
        calc
          _ = ((buffer.openIf test).replay (Block.events yes)).closeIf :=
            replay_append (buffer.openIf test) (Block.events yes) [.closeIf]
          _ = ((buffer.openIf test).append yes).closeIf := by rw [inYes]
          _ = _ := closeIf_append_openIf buffer test yes
      | some no =>
        calc
          _ = ((buffer.openIf test).replay (Block.events yes)).openElse.replay
                (Block.events no ++ [.closeIf]) :=
            replay_append (buffer.openIf test) (Block.events yes) _
          _ = (((buffer.openIf test).append yes).openElse.replay (Block.events no)).closeIf := by
            rw [inYes, replay_append]
            rfl
          _ = (((buffer.openIf test).append yes).openElse.append no).closeIf :=
            congrArg closeIf (inNo _)
          _ = _ := closeIf_append_openElse buffer test yes no
    calc
      _ = (buffer.replay (Stmt.events (.cond test yes no))).replay (Block.events rest) :=
        replay_append buffer _ _
      _ = (buffer.append [.cond test yes no]).append rest := by rw [whole, inRest]
      _ = buffer.append (.cond test yes no :: rest) := append_append buffer _ rest

/-- A buffer and the reading of blocks are inverse to each other. Calls that have something to act on
leave as many conditionals open as they opened and did not close; the code can be finished when
none is open, and reads as the calls do. Writing what was read from a block gives the block. -/
theorem finish_inverse :
    (∀ calls events, Nesting.spell? [] calls = some events →
      let buffer := empty.callAll calls
      events.countP Event.isOpen = events.countP Event.isClose + buffer.depth ∧
        (∀ depth, (buffer.closeTo depth).depth = min buffer.depth depth ∧
          buffer.closeTo depth =
            buffer.replay (List.replicate (buffer.depth - depth) .closeIf)) ∧
        (∀ fault, buffer.finish = .error fault ↔
          0 < buffer.depth ∧ fault = .unclosedBlock buffer.depth) ∧
        (buffer.depth = 0 → ∃ block, buffer.finish = .ok block ∧ Block.events block = events)) ∧
      ∀ block, (empty.replay (Block.events block)).finish = .ok block := by
  constructor
  · intro calls events proper buffer
    have reads : buffer.written = events := written_callAll calls empty proper
    refine ⟨?_, ?_, buffer.finish_eq_error, ?_⟩
    · rw [← reads]
      exact buffer.countP_isOpen_written
    · intro depth
      exact ⟨buffer.depth_closeTo depth, buffer.closeTo_eq_replay depth⟩
    · intro closed
      rw [← reads]
      exact finish_of_depth_eq_zero closed
  · intro block
    rw [replay_events]
    rfl

def chain (test : Expr) : List Call :=
  [.event (.openIf test), .event (.push (.ret true)), .event .openElse, .event (.openIf test.negate),
    .event .openElse, .event (.push (.cond test [.ret true] (some []))), .closeTo 0,
    .event (.push (.ret false))]

theorem finish_inverse_chain :
    let events := [.openIf .errorCount, .push (.ret true), .openElse,
      .openIf (.not .errorCount), .openElse, .openIf .errorCount, .push (.ret true), .openElse,
      .closeIf, .closeIf, .closeIf, .push (.ret false)]
    Nesting.spell? [] (chain .errorCount) = some events ∧
      (empty.callAll (chain .errorCount)).depth = 0 ∧
      ∃ block, (empty.callAll (chain .errorCount)).finish = .ok block ∧
        Block.events block = events := by
  intro events
  have proper : Nesting.spell? [] (chain .errorCount) = some events := rfl
  have closed : (empty.callAll (chain .errorCount)).depth = 0 := rfl
  have inverse := finish_inverse.1 (chain .errorCount) events proper
  exact ⟨proper, closed, inverse.2.2.2 closed⟩

end Buffer

end SchemaCompiler.Code
