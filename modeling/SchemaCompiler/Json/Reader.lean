import SchemaCompiler.Json.Value

/-!
Reading JSON documents. The members of an object are read in the order of the document, and an
integer literal outside the range of the 64-bit integers is read as a decimal.
-/

namespace SchemaCompiler.Json.Reader

def isBlank (char : Char) : Bool := char == ' ' || char == '\n' || char == '\r' || char == '\t'

def skipBlanks (text : List Char) : List Char := text.dropWhile isBlank

def hexValue? (char : Char) : Option Nat :=
  if '0' ≤ char ∧ char ≤ '9' then some (char.toNat - '0'.toNat)
  else if 'a' ≤ char ∧ char ≤ 'f' then some (char.toNat - 'a'.toNat + 10)
  else if 'A' ≤ char ∧ char ≤ 'F' then some (char.toNat - 'A'.toNat + 10)
  else none

def hexCode? (first second third fourth : Char) : Option Nat := do
  let first ← hexValue? first
  let second ← hexValue? second
  let third ← hexValue? third
  let fourth ← hexValue? fourth
  some (((first * 16 + second) * 16 + third) * 16 + fourth)

def shortEscape? : Char → Option Char
  | '"' => some '"'
  | '\\' => some '\\'
  | '/' => some '/'
  | 'b' => some '\x08'
  | 'f' => some '\x0c'
  | 'n' => some '\n'
  | 'r' => some '\r'
  | 't' => some '\t'
  | _ => none

def isHighSurrogate (code : Nat) : Bool := 0xd800 ≤ code && code < 0xdc00

def isLowSurrogate (code : Nat) : Bool := 0xdc00 ≤ code && code < 0xe000

/-- The rest of a string literal after its opening quote. A character outside the basic plane is
escaped as a pair of surrogates; a surrogate on its own is refused. -/
def string? (read : List Char) : List Char → Option (String × List Char)
  | '"' :: rest => some (String.ofList read.reverse, rest)
  | '\\' :: 'u' :: first :: second :: third :: fourth :: rest =>
    match hexCode? first second third fourth with
    | none => none
    | some code =>
      if isHighSurrogate code then
        match rest with
        | '\\' :: 'u' :: fifth :: sixth :: seventh :: eighth :: rest =>
          match hexCode? fifth sixth seventh eighth with
          | none => none
          | some low =>
            if isLowSurrogate low then
              string? (Char.ofNat (0x10000 + (code - 0xd800) * 0x400 + (low - 0xdc00)) :: read) rest
            else none
        | _ => none
      else if isLowSurrogate code then none
      else string? (Char.ofNat code :: read) rest
  | '\\' :: char :: rest =>
    match shortEscape? char with
    | none => none
    | some char => string? (char :: read) rest
  | char :: rest => if char.toNat < 32 then none else string? (char :: read) rest
  | [] => none

def digitsValue (digits : List Char) : Nat :=
  digits.foldl (fun value digit => 10 * value + (digit.toNat - '0'.toNat)) 0

def digits? (text : List Char) : Option (List Char × List Char) :=
  match text.takeWhile Char.isDigit with
  | [] => none
  | digits => some (digits, text.dropWhile Char.isDigit)

/-- The integers that keep their kind: those of 64 bits, with or without a sign. -/
def isWord (value : Int) : Bool := -0x8000000000000000 ≤ value && value ≤ 0xffffffffffffffff

/-- An integer literal. Negative zero is a decimal, since only decimals keep the sign of zero. -/
def integer (negative : Bool) (magnitude : Nat) : Number :=
  let value : Int := if negative then -magnitude else magnitude
  if isWord value && !(negative && magnitude == 0) then .int value
  else .decimal ⟨negative, magnitude, 0⟩

def fraction? : List Char → Option (List Char × List Char)
  | '.' :: rest => digits? rest
  | rest => some ([], rest)

def exponent? : List Char → Option (Option Int × List Char)
  | char :: rest =>
    if char = 'e' ∨ char = 'E' then
      let (negative, rest) := match rest with
        | '-' :: rest => (true, rest)
        | '+' :: rest => (false, rest)
        | _ => (false, rest)
      match digits? rest with
      | none => none
      | some (digits, rest) =>
        let magnitude : Int := digitsValue digits
        some (some (if negative then -magnitude else magnitude), rest)
    else some (none, char :: rest)
  | [] => some (none, [])

def number? (text : List Char) : Option (Number × List Char) := do
  let (negative, text) := match text with
    | '-' :: rest => (true, rest)
    | _ => (false, text)
  let (whole, text) ← digits? text
  if whole.length > 1 ∧ whole.head? = some '0' then none
  else
    let (fraction, text) ← fraction? text
    let (exponent, text) ← exponent? text
    match fraction, exponent with
    | [], none => some (integer negative (digitsValue whole), text)
    | _, _ =>
      let digits := digitsValue (whole ++ fraction)
      some (.decimal ⟨negative, digits, exponent.getD 0 - fraction.length⟩, text)

mutual

def value? : Nat → List Char → Option (Json × List Char)
  | 0, _ => none
  | fuel + 1, text =>
    match text with
    | 'n' :: 'u' :: 'l' :: 'l' :: rest => some (.null, rest)
    | 't' :: 'r' :: 'u' :: 'e' :: rest => some (.bool true, rest)
    | 'f' :: 'a' :: 'l' :: 's' :: 'e' :: rest => some (.bool false, rest)
    | '"' :: rest => (string? [] rest).map fun (text, rest) => (.str text, rest)
    | '[' :: rest =>
      match skipBlanks rest with
      | ']' :: rest => some (.arr [], rest)
      | rest => (items? fuel rest).map fun (items, rest) => (.arr items, rest)
    | '\x7b' :: rest =>
      match skipBlanks rest with
      | '\x7d' :: rest => some (.obj [], rest)
      | rest => (members? fuel rest).map fun (members, rest) => (.obj members, rest)
    | _ => (number? text).map fun (number, rest) => (.num number, rest)

def items? : Nat → List Char → Option (List Json × List Char)
  | 0, _ => none
  | fuel + 1, text => do
    let (item, text) ← value? fuel (skipBlanks text)
    match skipBlanks text with
    | ']' :: rest => some ([item], rest)
    | ',' :: rest =>
      let (items, rest) ← items? fuel rest
      some (item :: items, rest)
    | _ => none

def members? : Nat → List Char → Option (List (String × Json) × List Char)
  | 0, _ => none
  | fuel + 1, text =>
    match skipBlanks text with
    | '"' :: text => do
      let (key, text) ← string? [] text
      match skipBlanks text with
      | ':' :: text =>
        let (value, text) ← value? fuel (skipBlanks text)
        match skipBlanks text with
        | '\x7d' :: rest => some ([(key, value)], rest)
        | ',' :: rest =>
          let (members, rest) ← members? fuel rest
          some ((key, value) :: members, rest)
        | _ => none
      | _ => none
    | _ => none

end

end Reader

/-- Reads a whole text as one document. Of two steps of the reader at least one takes a character,
so twice the length of the text is fuel enough. -/
def read? (text : String) : Option Json :=
  let chars := text.toList
  match Reader.value? (2 * chars.length + 2) (Reader.skipBlanks chars) with
  | some (value, rest) => if (Reader.skipBlanks rest).isEmpty then some value else none
  | none => none

end SchemaCompiler.Json
