import SchemaCompiler.Code.Buffer

/-!
Blocks as sequences of events: statements, and the opening, turning and closing of conditionals.
The events of a block are what has to be done to a buffer to write it.
-/

namespace SchemaCompiler.Code

inductive Event where
  /-- A statement that is no conditional. -/
  | push (stmt : Stmt)
  | openIf (test : Expr)
  | openElse
  | closeIf

mutual

def Stmt.events : Stmt → List Event
  | .cond test yes none => .openIf test :: (Block.events yes ++ [.closeIf])
  | .cond test yes (some no) =>
    .openIf test :: (Block.events yes ++ .openElse :: (Block.events no ++ [.closeIf]))
  | stmt => [.push stmt]

def Block.events : List Stmt → List Event
  | [] => []
  | stmt :: rest => stmt.events ++ Block.events rest

end

namespace Buffer

def perform (buffer : Buffer) : Event → Buffer
  | .push stmt => buffer.push stmt
  | .openIf test => buffer.openIf test
  | .openElse => buffer.openElse
  | .closeIf => buffer.closeIf

def replay (buffer : Buffer) (events : List Event) : Buffer := events.foldl perform buffer

def pushAll (buffer : Buffer) (block : Block) : Buffer := block.foldl push buffer

theorem replay_append (buffer : Buffer) (left right : List Event) :
    buffer.replay (left ++ right) = (buffer.replay left).replay right := List.foldl_append

end Buffer

end SchemaCompiler.Code
