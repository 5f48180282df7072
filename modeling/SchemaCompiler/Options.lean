/-!
The options of one compilation.
-/

namespace SchemaCompiler

inductive ErrorPolicy where
  | stopAtFirst
  | accumulateAll
  deriving DecidableEq, Repr

namespace ErrorPolicy

def all : List ErrorPolicy := [stopAtFirst, accumulateAll]

def name : ErrorPolicy → String
  | stopAtFirst => "stop_at_first"
  | accumulateAll => "accumulate_all"

def ofName? (text : String) : Option ErrorPolicy := all.find? fun policy => policy.name == text

def ofAllErrors (allErrors : Bool) : ErrorPolicy := if allErrors then accumulateAll else stopAtFirst

end ErrorPolicy

def defaultMaxDepth : Nat := 100

structure Options where
  ownProperties : Bool := false
  policy : ErrorPolicy := .stopAtFirst
  maxDepth : Nat := defaultMaxDepth
  deriving DecidableEq, Repr

namespace Options

def default : Options := {}

def allErrors (options : Options) : Bool := options.policy = .accumulateAll

end Options

end SchemaCompiler
