/-!
Numbers of JSON documents: integers, and decimals kept exactly as sign, digits and power of ten.
-/

namespace SchemaCompiler.Json

/-- The number `± digits · 10 ^ exponent`. The sign of zero is kept. -/
structure Decimal where
  negative : Bool
  digits : Nat
  exponent : Int
  deriving DecidableEq, Repr

/-- A literal without fraction and exponent is an integer; every other one is a decimal, also when
its value is whole. -/
inductive Number where
  | int (value : Int)
  | decimal (value : Decimal)
  deriving DecidableEq, Repr

namespace Decimal

def trim : Nat → Decimal → Decimal
  | 0, number => number
  | fuel + 1, number =>
    if number.digits = 0 then { number with exponent := 0 }
    else if number.digits % 10 = 0 then
      trim fuel ⟨number.negative, number.digits / 10, number.exponent + 1⟩
    else number

def shortest (number : Decimal) : Decimal := trim number.digits number

/-- A decimal is written positionally if it has at most `leading` digits before the point and fewer
than `fraction` zeros after it, and with a power of ten otherwise. -/
structure Layout where
  leading : Int
  fraction : Int

def layout : Layout := ⟨16, 5⟩

def zeros (count : Nat) : String := String.ofList (List.replicate count '0')

def textUnsigned (digits : String) (exponent : Int) : String :=
  let point : Int := digits.length + exponent
  if 0 ≤ exponent ∧ point ≤ layout.leading then digits ++ zeros exponent.toNat ++ ".0"
  else if 0 < point ∧ point ≤ layout.leading then
    String.ofList (digits.toList.take point.toNat) ++ "." ++
      String.ofList (digits.toList.drop point.toNat)
  else if -layout.fraction < point ∧ point ≤ 0 then "0." ++ zeros (-point).toNat ++ digits
  else
    let rest := String.ofList (digits.toList.drop 1)
    String.ofList (digits.toList.take 1) ++ (if rest = "" then "" else "." ++ rest) ++ "e" ++
      toString (point - 1)

def text (number : Decimal) : String :=
  let short := number.shortest
  (if short.negative then "-" else "") ++ textUnsigned (toString short.digits) short.exponent

end Decimal

namespace Number

def text : Number → String
  | int value => toString value
  | decimal value => value.text

def isZero : Number → Bool
  | int value => value == 0
  | decimal value => value.digits == 0

def asNat? : Number → Option Nat
  | int (.ofNat value) => some value
  | _ => none

end Number

end SchemaCompiler.Json
