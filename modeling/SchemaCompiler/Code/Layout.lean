import SchemaCompiler.Code.Listing

/-!
The layout of code by its structure, written out without the tasks of the listing: each line has two
blanks for each level in front and ends with a newline, a conditional is its opening line, its
branches one level further in with the else line between them, and its closing line. Main statement:
the listing is the layout at the outermost level.
-/

namespace SchemaCompiler.Code

def lineAt (level : Nat) (text : String) : String :=
  String.ofList (List.replicate (2 * level) ' ') ++ text ++ "\n"

/-- A declaration without a value leaves it out. -/
def declaration (name : Name) : Expr → String
  | .undefined => "let " ++ name.text ++ ";"
  | value => "let " ++ name.text ++ " = " ++ value.text ++ ";"

/-- What a statement that is no conditional says, one line each. -/
def Stmt.sentences : Stmt → List String
  | declare name value => [declaration name value]
  | assign name value => [name.text ++ " = " ++ value.text ++ ";"]
  | bindData name parent property =>
    ["const " ++ name.text ++ " = " ++ parent.text ++ "[" ++ Json.quote property ++ "];"]
  | cond .. => []
  | report site => [site.text]
  | fail site => [site.text, "return false;"]
  | ret valid => ["return " ++ (if valid then "true" else "false") ++ ";"]

mutual

def Stmt.layout (level : Nat) : Stmt → String
  | .cond test yes none =>
    lineAt level ("if (" ++ test.text ++ ") \x7b") ++ Block.layout (level + 1) yes ++
      lineAt level "\x7d"
  | .cond test yes (some no) =>
    lineAt level ("if (" ++ test.text ++ ") \x7b") ++ Block.layout (level + 1) yes ++
      lineAt level "\x7d else \x7b" ++ Block.layout (level + 1) no ++ lineAt level "\x7d"
  | stmt => String.join (stmt.sentences.map (lineAt level))

def Block.layout (level : Nat) : List Stmt → String
  | [] => ""
  | stmt :: rest => stmt.layout level ++ Block.layout level rest

end

section Lines

variable (level : Nat)

theorem line_eq (text : String) : line level text = lineAt level text := rfl

theorem openLine_eq (test : Expr) :
    openLine level test = lineAt level ("if (" ++ test.text ++ ") \x7b") := rfl

theorem elseLine_eq : elseLine level = lineAt level "\x7d else \x7b" := rfl

theorem closeLine_eq : closeLine level = lineAt level "\x7d" := rfl

theorem Stmt.simpleText_eq (stmt : Stmt) :
    stmt.simpleText level = String.join (stmt.sentences.map (lineAt level)) := by
  cases stmt with
  | declare name value =>
    have said : simpleText level (declare name value) = lineAt level (declaration name value) := by
      cases value <;> rfl
    rw [said, sentences, List.map_singleton, String.join_cons, String.join_nil,
      String.append_empty]
  | _ =>
    simp only [simpleText, line_eq, sentences, List.map_nil, List.map_cons, String.join_nil,
      String.join_cons, String.append_empty]

theorem Stmt.layout_of_not_cond {stmt : Stmt} (plain : stmt.isCond = false) :
    stmt.layout level = String.join (stmt.sentences.map (lineAt level)) := by
  cases stmt with
  | cond => simp [isCond] at plain
  | _ => rfl

end Lines

namespace Task

def layout : Task → String
  | code stmt level => stmt.layout level
  | line text => text

def layoutAll : List Task → String
  | [] => ""
  | task :: rest => task.layout ++ layoutAll rest

theorem layoutAll_append (left right : List Task) :
    layoutAll (left ++ right) = layoutAll left ++ layoutAll right := by
  induction left with
  | nil => simp only [List.nil_append, layoutAll, String.empty_append]
  | cons task rest ih => simp only [List.cons_append, layoutAll, ih, String.append_assoc]

theorem layoutAll_ofBlock (level : Nat) (block : Block) :
    layoutAll (ofBlock level block) = Block.layout level block := by
  induction block with
  | nil => rfl
  | cons stmt rest ih =>
    have tail : layoutAll (rest.map fun stmt => code stmt level) = _ := ih
    simp only [ofBlock, List.map_cons, layoutAll, layout, Block.layout, tail]

theorem layout_cond (level : Nat) (test : Expr) (yes : Block) (no : Option Block) :
    (Stmt.cond test yes no).layout level =
      openLine level test ++ layoutAll (ofBranches level yes no) := by
  cases no with
  | none =>
    simp only [Stmt.layout, ofBranches, layoutAll_append, layoutAll_ofBlock, layoutAll, layout,
      openLine_eq, closeLine_eq, String.append_empty, String.append_assoc]
  | some no =>
    simp only [Stmt.layout, ofBranches, layoutAll_append, layoutAll_ofBlock, layoutAll, layout,
      openLine_eq, elseLine_eq, closeLine_eq, String.append_empty, String.append_assoc]

theorem write_eq (tasks : List Task) (out : String) : write tasks out = out ++ layoutAll tasks := by
  fun_induction write tasks out with
  | case1 out => simp only [layoutAll, String.append_empty]
  | case2 out text rest ih => simp only [ih, layoutAll, layout, String.append_assoc]
  | case3 out test yes no level rest ih =>
    simp only [ih, layoutAll, layout, layout_cond, layoutAll_append, String.append_assoc]
  | case4 out stmt level rest other ih =>
    have plain : stmt.isCond = false := by
      cases stmt with
      | cond test yes no => exact (other test yes no rfl).elim
      | _ => rfl
    rw [ih, layoutAll, layout, Stmt.simpleText_eq, Stmt.layout_of_not_cond level plain,
      String.append_assoc]

end Task

theorem Block.text_eq_layout (block : Block) : Block.text block = Block.layout 0 block := by
  rw [Block.text, Task.write_eq, Task.layoutAll_ofBlock, String.empty_append]

end SchemaCompiler.Code
