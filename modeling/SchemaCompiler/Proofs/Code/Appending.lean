import SchemaCompiler.Code.Event

/-!
Where a buffer is written. Code goes to the end of the branch that is open innermost, or to the end
of the root if no conditional is open, and all else stays what it was.
-/

namespace SchemaCompiler.Code

namespace Frame

def append (frame : Frame) (block : Block) : Frame :=
  match frame.no with
  | none => { frame with yes := frame.yes ++ block }
  | some no => { frame with no := some (no ++ block) }

theorem append_nil (frame : Frame) : frame.append [] = frame := by
  obtain ⟨test, yes, _ | no⟩ := frame <;> simp only [append, List.append_nil]

theorem append_append (frame : Frame) (left right : Block) :
    (frame.append left).append right = frame.append (left ++ right) := by
  obtain ⟨test, yes, _ | no⟩ := frame <;> simp only [append, List.append_assoc]

end Frame

namespace Buffer

def append (buffer : Buffer) (block : Block) : Buffer :=
  match buffer.frames with
  | [] => { buffer with root := buffer.root ++ block }
  | frame :: rest => { buffer with frames := frame.append block :: rest }

theorem append_nil (buffer : Buffer) : buffer.append [] = buffer := by
  obtain ⟨root, _ | ⟨frame, rest⟩, names⟩ := buffer
  · simp only [append, List.append_nil]
  · simp only [append, Frame.append_nil]

theorem append_append (buffer : Buffer) (left right : Block) :
    (buffer.append left).append right = buffer.append (left ++ right) := by
  obtain ⟨root, _ | ⟨frame, rest⟩, names⟩ := buffer
  · simp only [append, List.append_assoc]
  · simp only [append, Frame.append_append]

@[simp] theorem names_append (buffer : Buffer) (block : Block) :
    (buffer.append block).names = buffer.names := by
  obtain ⟨root, frames, names⟩ := buffer
  cases frames <;> rfl

@[simp] theorem depth_append (buffer : Buffer) (block : Block) :
    (buffer.append block).depth = buffer.depth := by
  obtain ⟨root, frames, names⟩ := buffer
  cases frames <;> rfl

theorem append_withNames (buffer : Buffer) (names : NameSupply) (block : Block) :
    { buffer with names }.append block = { buffer.append block with names } := by
  obtain ⟨root, frames, old⟩ := buffer
  cases frames <;> rfl

theorem push_eq_append (buffer : Buffer) (stmt : Stmt) :
    buffer.push stmt = buffer.append [stmt] := by
  obtain ⟨root, _ | ⟨⟨test, yes, _ | no⟩, rest⟩, names⟩ := buffer <;> rfl

theorem push_withNames (buffer : Buffer) (names : NameSupply) (stmt : Stmt) :
    { buffer with names }.push stmt = { buffer.push stmt with names } := by
  rw [push_eq_append, push_eq_append, append_withNames]

theorem openElse_withNames (buffer : Buffer) (names : NameSupply) :
    { buffer with names }.openElse = { buffer.openElse with names } := by
  rcases buffer with ⟨root, _ | ⟨frame, outer⟩, old⟩ <;> rfl

theorem closeIf_withNames (buffer : Buffer) (names : NameSupply) :
    { buffer with names }.closeIf = { buffer.closeIf with names } := by
  rcases buffer with ⟨root, _ | ⟨frame, outer⟩, old⟩
  · rfl
  · exact push_withNames ⟨root, outer, old⟩ names frame.stmt

theorem pushAll_eq_append (buffer : Buffer) (block : Block) :
    buffer.pushAll block = buffer.append block := by
  induction block generalizing buffer with
  | nil => exact (append_nil buffer).symm
  | cons stmt rest ih =>
    calc
      buffer.pushAll (stmt :: rest) = (buffer.push stmt).append rest := ih (buffer.push stmt)
      _ = (buffer.append [stmt]).append rest := by rw [push_eq_append]
      _ = buffer.append (stmt :: rest) := append_append buffer [stmt] rest

theorem closeIf_append_openIf (buffer : Buffer) (test : Expr) (yes : Block) :
    ((buffer.openIf test).append yes).closeIf = buffer.append [.cond test yes none] := by
  rw [← push_eq_append]
  rfl

theorem closeIf_append_openElse (buffer : Buffer) (test : Expr) (yes no : Block) :
    (((buffer.openIf test).append yes).openElse.append no).closeIf =
      buffer.append [.cond test yes (some no)] := by
  rw [← push_eq_append]
  rfl

end Buffer

end SchemaCompiler.Code
