import SchemaCompiler.Code.Stmt

/-!
Which variables and data references are known where. A path through code takes either branch of
each conditional, also where no instance could; what is read along a path must have been written
earlier on it. Since a path goes on after a conditional, a piece of code is judged together with
whatever may follow it.
-/

namespace SchemaCompiler.Code

inductive Ref where
  | var (name : Name)
  | data (name : Name)
  deriving DecidableEq, Repr

namespace Expr

mutual

/-- Everything an expression may read, in operands that may be skipped as well. -/
def reads : Expr → List Ref
  | var name => [.var name]
  | noErrorsSince name => [.var name]
  | not operand => operand.reads
  | and operands => readsAll operands
  | or operands => readsAll operands
  | isType data _ => [.data data]
  | hasProperty data _ _ => [.data data]
  | bind _ value => value.reads
  | undefined | bool _ | str _ | errorCount => []

def readsAll : List Expr → List Ref
  | [] => []
  | operand :: rest => operand.reads ++ readsAll rest

end

mutual

/-- What an expression writes whatever its outcome. Of a connective only the first operand is
always evaluated. -/
def writes : Expr → List Ref
  | not operand => operand.writes
  | and operands => writesFirst operands
  | or operands => writesFirst operands
  | bind name value => .var name :: value.writes
  | undefined | bool _ | str _ | var _ | isType .. | hasProperty .. | errorCount
  | noErrorsSince _ => []

def writesFirst : List Expr → List Ref
  | [] => []
  | operand :: _ => operand.writes

end

theorem readsAll_eq_flatMap (tests : List Expr) : readsAll tests = tests.flatMap reads := by
  induction tests with
  | nil => rfl
  | cons test rest ih => rw [readsAll, ih, List.flatMap_cons]

theorem reads_allOf (tests : List Expr) : (allOf tests).reads = readsAll tests := by
  rw [readsAll_eq_flatMap]
  exact gather_allOf (fun _ => rfl) readsAll_eq_flatMap tests

theorem reads_anyOf (tests : List Expr) : (anyOf tests).reads = readsAll tests := by
  rw [readsAll_eq_flatMap]
  exact gather_anyOf (fun _ => rfl) readsAll_eq_flatMap tests

end Expr

def ParamValue.reads : ParamValue → List Ref
  | literal _ => []
  | var name => [.var name]

def Site.reads (site : Site) : List Ref :=
  .data site.data :: site.params.flatMap fun (_, value) => value.reads

inductive Step where
  | stmt (stmt : Stmt)
  | test (expr : Expr)

namespace Step

def reads : Step → List Ref
  | stmt (.declare _ value) => value.reads
  | stmt (.assign _ value) => value.reads
  | stmt (.bindData _ parent _) => [.data parent]
  | stmt (.cond expr _ _) => expr.reads
  | stmt (.report site) => site.reads
  | stmt (.fail site) => site.reads
  | stmt (.ret _) => []
  | test expr => expr.reads

def writes : Step → List Ref
  | stmt (.declare name value) => .var name :: value.writes
  | stmt (.assign name value) => .var name :: value.writes
  | stmt (.bindData name _ _) => [.data name]
  | stmt (.cond expr _ _) => expr.writes
  | stmt (.report _) | stmt (.fail _) | stmt (.ret _) => []
  | test expr => expr.writes

end Step

def Stmt.ends (stmt : Stmt) : Bool := stmt.isFail || stmt.isRet

/-- The ways through a block: either branch of a conditional may be taken, and a statement that
ends the validation is the last. -/
inductive Path : Block → List Step → Prop where
  | done : Path [] []
  | last {stmt rest} (ends : stmt.ends = true) : Path (stmt :: rest) [.stmt stmt]
  | next {stmt rest steps} (simple : stmt.isCond = false) (goesOn : stmt.ends = false)
      (path : Path rest steps) : Path (stmt :: rest) (.stmt stmt :: steps)
  | yes {test yes no rest steps} (path : Path (yes ++ rest) steps) :
      Path (.cond test yes no :: rest) (.test test :: steps)
  | no {test yes no rest steps} (path : Path (no.getD [] ++ rest) steps) :
      Path (.cond test yes no :: rest) (.test test :: steps)

theorem exists_path (block : Block) : ∃ steps, Path block steps := by
  induction block using Block.runInduction with
  | nil => exact ⟨[], .done⟩
  | step stmt rest simple ih =>
    obtain ⟨steps, path⟩ := ih
    cases ends : stmt.ends with
    | true => exact ⟨_, .last ends⟩
    | false => exact ⟨_, .next simple ends path⟩
  | cond test yes no rest onYes onNo =>
    obtain ⟨steps, path⟩ := onYes
    exact ⟨_, .yes path⟩

/-- Each step reads what is known at first or what the steps before it have written. -/
def InScope (known : List Ref) : List Step → Prop
  | [] => True
  | step :: rest => step.reads ⊆ known ∧ InScope (known ++ step.writes) rest

theorem InScope.mono {steps : List Step} {known more : List Ref} (inScope : InScope known steps)
    (within : known ⊆ more) : InScope more steps := by
  induction steps generalizing known more with
  | nil => trivial
  | cons step rest ih =>
    obtain ⟨here, later⟩ := inScope
    refine ⟨fun _ read => within (here read), ih later ?_⟩
    intro ref written
    rcases List.mem_append.mp written with old | new
    · exact List.mem_append_left _ (within old)
    · exact List.mem_append_right _ new

theorem InScope.reads_written {before later : List Step} {step : Step} {known : List Ref}
    (inScope : InScope known (before ++ step :: later)) {ref : Ref} (read : ref ∈ step.reads) :
    ref ∈ known ∨ ∃ earlier ∈ before, ref ∈ earlier.writes := by
  induction before generalizing known with
  | nil => exact .inl (inScope.1 read)
  | cons first rest ih =>
    rcases ih inScope.2 with written | ⟨earlier, member, written⟩
    · rcases List.mem_append.mp written with old | new
      · exact .inl old
      · exact .inr ⟨first, List.mem_cons_self, new⟩
    · exact .inr ⟨earlier, List.mem_cons_of_mem _ member, written⟩

def AllInScope (known : List Ref) (block : Block) : Prop :=
  ∀ steps, Path block steps → InScope known steps

/-- Code after which `post` is known, if `known` was before: what may follow it may rely on that. -/
def Leads (known : List Ref) (code : Block) (post : List Ref) : Prop :=
  ∀ rest, AllInScope post rest → AllInScope known (code ++ rest)

theorem AllInScope.mono {block : Block} {known more : List Ref} (inScope : AllInScope known block)
    (within : known ⊆ more) : AllInScope more block :=
  fun steps path => (inScope steps path).mono within

theorem allInScope_nil (known : List Ref) : AllInScope known [] := by
  intro steps path
  cases path
  trivial

namespace AllInScope

variable {known : List Ref} {stmt : Stmt} {rest : Block}

theorem reads_subset (inScope : AllInScope known (stmt :: rest)) (simple : stmt.isCond = false) :
    Step.reads (.stmt stmt) ⊆ known := by
  obtain ⟨steps, path⟩ := exists_path rest
  cases ends : stmt.ends with
  | true => exact (inScope _ (.last ends)).1
  | false => exact (inScope _ (.next simple ends path)).1

theorem next (inScope : AllInScope known (stmt :: rest)) (simple : stmt.isCond = false)
    (goesOn : stmt.ends = false) : AllInScope (known ++ Step.writes (.stmt stmt)) rest :=
  fun _ path => (inScope _ (.next simple goesOn path)).2

variable {test : Expr} {yes : Block} {no : Option Block}

theorem test_subset (inScope : AllInScope known (.cond test yes no :: rest)) :
    test.reads ⊆ known := by
  obtain ⟨steps, path⟩ := exists_path (yes ++ rest)
  exact (inScope _ (.yes path)).1

theorem onYes (inScope : AllInScope known (.cond test yes no :: rest)) :
    AllInScope (known ++ test.writes) (yes ++ rest) :=
  fun _ path => (inScope _ (.yes path)).2

theorem onNo (inScope : AllInScope known (.cond test yes no :: rest)) :
    AllInScope (known ++ test.writes) (no.getD [] ++ rest) :=
  fun _ path => (inScope _ (.no path)).2

end AllInScope

namespace Leads

variable {known middle post : List Ref}

theorem allInScope {code : Block} (leads : Leads known code post) : AllInScope known code := by
  have alone := leads [] (allInScope_nil post)
  rwa [List.append_nil] at alone

theorem forget {code : Block} {fewer : List Ref} (leads : Leads known code post)
    (less : fewer ⊆ post) : Leads known code fewer :=
  fun rest inScope => leads rest (inScope.mono less)

theorem nil (known : List Ref) : Leads known [] known := fun _ inScope => inScope

theorem append {left right : Block} (first : Leads known left middle)
    (second : Leads middle right post) : Leads known (left ++ right) post := by
  intro rest inScope
  rw [List.append_assoc]
  exact first _ (second rest inScope)

theorem step {stmt : Stmt} (simple : stmt.isCond = false)
    (reads : Step.reads (.stmt stmt) ⊆ known) :
    Leads known [stmt] (known ++ Step.writes (.stmt stmt)) := by
  intro rest inScope steps path
  cases path with
  | last ends => exact ⟨reads, trivial⟩
  | next _ _ path => exact ⟨reads, inScope _ path⟩
  | yes path => cases simple
  | no path => cases simple

theorem wrote {stmt : Stmt} (simple : stmt.isCond = false)
    (reads : Step.reads (.stmt stmt) ⊆ known) {ref : Ref}
    (written : ref ∈ Step.writes (.stmt stmt)) : Leads known [stmt] (ref :: known) := by
  refine (step simple reads).forget ?_
  intro other member
  rcases List.mem_cons.mp member with rfl | old
  · exact List.mem_append_right _ written
  · exact List.mem_append_left _ old

/-- Nothing follows a statement that ends the validation, so anything is known after it. -/
theorem ending {stmt : Stmt} (ends : stmt.ends = true) (reads : Step.reads (.stmt stmt) ⊆ known)
    (post : List Ref) : Leads known [stmt] post := by
  intro rest inScope steps path
  cases path with
  | last _ => exact ⟨reads, trivial⟩
  | next _ goesOn _ => cases ends.symm.trans goesOn
  | yes path => cases ends
  | no path => cases ends

theorem cond {test : Expr} {yes : Block} {no : Option Block} (reads : test.reads ⊆ known)
    (onYes : Leads known yes post) (onNo : Leads known (no.getD []) post) :
    Leads known [.cond test yes no] post := by
  have more : known ⊆ known ++ test.writes := List.subset_append_left _ _
  intro rest inScope steps path
  cases path with
  | last ends => cases ends
  | next simple _ _ => cases simple
  | yes path => exact ⟨reads, (onYes rest inScope _ path).mono more⟩
  | no path => exact ⟨reads, (onNo rest inScope _ path).mono more⟩

end Leads

mutual

def Stmt.introduced : Stmt → List Name
  | .declare name _ => [name]
  | .bindData name _ _ => [name]
  | .cond _ yes none => Block.introduced yes
  | .cond _ yes (some no) => Block.introduced yes ++ Block.introduced no
  | _ => []

def Block.introduced : List Stmt → List Name
  | [] => []
  | stmt :: rest => stmt.introduced ++ Block.introduced rest

end

theorem Block.introduced_append (left right : Block) :
    introduced (left ++ right) = introduced left ++ introduced right := by
  induction left with
  | nil => rfl
  | cons stmt rest ih => rw [List.cons_append, introduced, ih, introduced, List.append_assoc]

end SchemaCompiler.Code
