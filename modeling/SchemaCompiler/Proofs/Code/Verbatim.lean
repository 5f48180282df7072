import SchemaCompiler.Code.Stmt

/-!
What code takes over as it is. A listing quotes all text of the schema and of the instance, and
writes only the names of variables and data references and the keys of parameters unquoted.
-/

namespace SchemaCompiler.Code

mutual

def Expr.names : Expr → List Name
  | .var name => [name]
  | .not operand => operand.names
  | .and operands => Expr.namesAll operands
  | .or operands => Expr.namesAll operands
  | .isType data _ => [data]
  | .hasProperty data _ _ => [data]
  | .bind name value => name :: value.names
  | .noErrorsSince name => [name]
  | .undefined | .bool _ | .str _ | .errorCount => []

def Expr.namesAll : List Expr → List Name
  | [] => []
  | operand :: rest => operand.names ++ Expr.namesAll rest

end

theorem Expr.namesAll_eq_flatMap (operands : List Expr) :
    Expr.namesAll operands = operands.flatMap Expr.names := by
  induction operands with
  | nil => rfl
  | cons operand rest ih => rw [Expr.namesAll, ih, List.flatMap_cons]

theorem Expr.names_allOf (tests : List Expr) : (allOf tests).names = tests.flatMap Expr.names :=
  gather_allOf (fun _ => rfl) Expr.namesAll_eq_flatMap tests

theorem Expr.names_anyOf (tests : List Expr) : (anyOf tests).names = tests.flatMap Expr.names :=
  gather_anyOf (fun _ => rfl) Expr.namesAll_eq_flatMap tests

def Expr.verbatim (expr : Expr) : List String := expr.names.map Name.text

def ParamValue.verbatim : ParamValue → List String
  | literal _ => []
  | var name => [name.text]

def Site.verbatim (site : Site) : List String :=
  site.data.text :: site.params.flatMap fun (key, value) => key :: value.verbatim

def Stmt.own : Stmt → List String
  | declare name value => name.text :: value.verbatim
  | assign name value => name.text :: value.verbatim
  | bindData name parent _ => [name.text, parent.text]
  | cond test _ _ => test.verbatim
  | report site => site.verbatim
  | fail site => site.verbatim
  | ret _ => []

mutual

def Stmt.verbatim : Stmt → List String
  | .cond test yes none => test.verbatim ++ Block.verbatim yes
  | .cond test yes (some no) => test.verbatim ++ Block.verbatim yes ++ Block.verbatim no
  | stmt => stmt.own

def Block.verbatim : List Stmt → List String
  | [] => []
  | stmt :: rest => stmt.verbatim ++ Block.verbatim rest

end

theorem Stmt.verbatim_cond (test : Expr) (yes : Block) (no : Option Block) :
    (Stmt.cond test yes no).verbatim =
      test.verbatim ++ Block.verbatim yes ++ Block.verbatim (no.getD []) := by
  cases no with
  | none => exact (List.append_nil _).symm
  | some no => rfl

theorem Stmt.verbatim_of_not_cond {stmt : Stmt} (plain : stmt.isCond = false) :
    stmt.verbatim = stmt.own := by
  cases stmt with
  | cond => simp [Stmt.isCond] at plain
  | _ => rfl

end SchemaCompiler.Code
