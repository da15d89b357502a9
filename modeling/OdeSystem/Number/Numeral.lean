import OdeSystem.Number.Binary64
import OdeSystem.Text.Letter

/-!
Reading numbers. A numeral has digits, perhaps a point among or around them, and perhaps an exponent; it
stands for the double nearest to the decimal it writes. The words for infinity and for the undefined number
are read in any case. Integers are decimal, or hexadecimal after `0x`, and have 64 bits.
-/

namespace OdeSystem.Number

open Text

/-- A decimal as it is written: `±significand · 10 ^ exponent`. -/
structure Numeral where
  negative : Bool
  significand : Nat
  exponent : Int
  deriving DecidableEq, Repr

/-- The number that a run of digits writes. -/
def ofDigits (ds : List Char) : Nat := ds.foldl (fun n d => 10 * n + (d.toNat - '0'.toNat)) 0

/-- The sign at the front of a text, true for a minus, and the rest. -/
def takeSign : List Char → Bool × List Char
  | '-' :: rest => (true, rest)
  | '+' :: rest => (false, rest)
  | text => (false, text)

/-- A text of digits only, and at least one. -/
def isDigits (text : List Char) : Bool := !text.isEmpty && text.all isAsciiDigit

/-- The exponent that a text writes after the significand; no text stands for none. -/
def exponent? : List Char → Option Int
  | [] => some 0
  | c :: rest =>
    if c = 'e' ∨ c = 'E' then
      let (negative, ds) := takeSign rest
      if isDigits ds then some (if negative then -(ofDigits ds : Int) else ofDigits ds) else none
    else none

/-- Reads an unsigned numeral. -/
def magnitude? (negative : Bool) (text : List Char) : Option Numeral :=
  let whole := text.takeWhile isAsciiDigit
  let rest := text.dropWhile isAsciiDigit
  let (fraction, rest) :=
    match rest with
    | '.' :: rest => (rest.takeWhile isAsciiDigit, rest.dropWhile isAsciiDigit)
    | _ => ([], rest)
  if whole.isEmpty ∧ fraction.isEmpty then none
  else
    (exponent? rest).map fun e => ⟨negative, ofDigits (whole ++ fraction), e - fraction.length⟩

/-- Reads a numeral. -/
def Numeral.ofText? (text : List Char) : Option Numeral :=
  let (negative, rest) := takeSign text
  magnitude? negative rest

/-- The nearest double. A numeral of more than 400 digits before its point is infinite, and one that begins
400 places behind it is zero, so that no power of ten is larger than it need be. -/
def Numeral.toFloat (n : Numeral) : Float :=
  let top : Int := (Nat.toDigits 10 n.significand).length + n.exponent
  if n.significand = 0 ∨ top < -400 then assemble n.negative 0 0
  else if 400 < top then infinity n.negative
  else ofRatio n.negative (n.significand * pow10 n.exponent.toNat) (pow10 (-n.exponent).toNat)

/-- The special numbers that words stand for. -/
def word? (text : List Char) : Option Float :=
  let (negative, rest) := takeSign text
  let lower := rest.map Char.toLower
  if lower = "inf".toList ∨ lower = "infinity".toList then some (infinity negative)
  else if lower = "nan".toList then some undefined
  else none

/-- Reads a number: a word or a numeral. -/
def float? (text : List Char) : Option Float :=
  match word? text with
  | some x => some x
  | none => (Numeral.ofText? text).map Numeral.toFloat

/-- The least integer of 64 bits. -/
def leastInteger : Int := -9223372036854775808

/-- The greatest integer of 64 bits. -/
def greatestInteger : Int := 9223372036854775807

/-- Whether an integer has at most 64 bits. -/
def fits (n : Int) : Bool := leastInteger ≤ n && n ≤ greatestInteger

/-- The value of a hexadecimal digit. -/
def hexValue? (c : Char) : Option Nat :=
  if isAsciiDigit c then some (c.toNat - '0'.toNat)
  else if 'a' ≤ c ∧ c ≤ 'f' then some (c.toNat - 'a'.toNat + 10)
  else if 'A' ≤ c ∧ c ≤ 'F' then some (c.toNat - 'A'.toNat + 10)
  else none

/-- The number that hexadecimal digits write. -/
def ofHexDigits? (text : List Char) : Option Nat :=
  if text.isEmpty then none
  else (text.mapM hexValue?).map (List.foldl (fun n d => 16 * n + d) 0)

/-- Reads an unsigned integer of 64 bits with a sign, so one below `2 ^ 63`. -/
def integer? (text : List Char) : Option Int :=
  let value? :=
    match text with
    | '0' :: 'x' :: rest => ofHexDigits? rest
    | _ => if isDigits text then some (ofDigits text) else none
  value?.bind fun n => if fits n then some (n : Int) else none

end OdeSystem.Number
