import SchemaCompiler.Code.Layout

/-!
Listings by the structure of the code. A statement that is no conditional says one thing a line, at
whatever level it stands; what the pending tasks write is the layout of the code they hold; and the
listing of a block is the listings of its statements, one after the other.
-/

namespace SchemaCompiler.Code

theorem Block.layout_singleton (level : Nat) (stmt : Stmt) :
    Block.layout level [stmt] = stmt.layout level := String.append_empty

theorem Stmt.text_eq_layout (stmt : Stmt) : stmt.text = stmt.layout 0 := by
  rw [Stmt.text, Block.text_eq_layout, Block.layout_singleton]

theorem Block.layout_eq_join (level : Nat) (block : Block) :
    Block.layout level block = String.join (block.map (Stmt.layout level)) := by
  induction block with
  | nil => rfl
  | cons stmt rest ih => rw [Block.layout, ih, List.map_cons, String.join_cons]

/-- The work list writes a block at any level, after whatever was written before, as the layout has
it by structure. So the listing is the layout at the outermost level, in which a statement's lines
are all indented alike, and it is put together from the listings of the statements. -/
theorem Block.listing_by_structure :
    (∀ level stmt,
      Stmt.simpleText level stmt = String.join (stmt.sentences.map (lineAt level))) ∧
    (∀ level block out,
      Task.write (Task.ofBlock level block) out = out ++ Block.layout level block) ∧
    (∀ block, Block.text block = Block.layout 0 block) ∧
    ∀ block, Block.text block = String.join (block.map Stmt.text) := by
  refine ⟨Stmt.simpleText_eq, ?_, Block.text_eq_layout, ?_⟩
  · intro level block out
    rw [Task.write_eq, Task.layoutAll_ofBlock]
  · intro block
    have statements : block.map Stmt.text = block.map (Stmt.layout 0) :=
      List.map_congr_left fun stmt _ => stmt.text_eq_layout
    rw [Block.text_eq_layout, Block.layout_eq_join, statements]

end SchemaCompiler.Code
