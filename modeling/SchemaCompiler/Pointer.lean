/-!
JSON pointers: where a value sits inside a document. A pointer is the list of its segments, the
outermost first, and is written with a slash before each of them.
-/

namespace SchemaCompiler

inductive Segment where
  | key (name : String)
  | index (position : Nat)
  deriving DecidableEq, Repr

namespace Segment

/-- A tilde and a slash inside a key are written `~0` and `~1`. -/
def escape (char : Char) : List Char :=
  if char = '~' then ['~', '0'] else if char = '/' then ['~', '1'] else [char]

def text : Segment → String
  | key name => String.ofList (name.toList.flatMap escape)
  | index position => toString position

end Segment

structure Pointer where
  segments : List Segment
  deriving DecidableEq, Repr

namespace Pointer

def root : Pointer := ⟨[]⟩

def push (pointer : Pointer) (segment : Segment) : Pointer := ⟨pointer.segments ++ [segment]⟩

def key (pointer : Pointer) (name : String) : Pointer := pointer.push (.key name)

def index (pointer : Pointer) (position : Nat) : Pointer := pointer.push (.index position)

def ofKeys (names : List String) : Pointer := ⟨names.map Segment.key⟩

def isRoot (pointer : Pointer) : Bool := pointer.segments.isEmpty

def last? (pointer : Pointer) : Option Segment := pointer.segments.getLast?

/-- The segments' texts, each after a slash. The root is the empty text. -/
def textSegments : List Segment → String
  | [] => ""
  | segment :: rest => "/" ++ segment.text ++ textSegments rest

def text (pointer : Pointer) : String := textSegments pointer.segments

def fragment (pointer : Pointer) : String := "#" ++ pointer.text

@[simp] theorem segments_push (pointer : Pointer) (segment : Segment) :
    (pointer.push segment).segments = pointer.segments ++ [segment] := rfl

@[simp] theorem segments_key (pointer : Pointer) (name : String) :
    (pointer.key name).segments = pointer.segments ++ [.key name] := rfl

@[simp] theorem segments_index (pointer : Pointer) (position : Nat) :
    (pointer.index position).segments = pointer.segments ++ [.index position] := rfl

theorem textSegments_append (left right : List Segment) :
    textSegments (left ++ right) = textSegments left ++ textSegments right := by
  induction left with
  | nil => simp only [List.nil_append, textSegments, String.empty_append]
  | cons segment rest ih => simp only [List.cons_append, textSegments, ih, String.append_assoc]

end Pointer

end SchemaCompiler
