import Uniprocessor.Json.Complaint

/-!
# Numbers in JSON text

A number is an optional minus sign, digits without a superfluous leading zero, and then possibly a
point with digits and an exponent. It counts as an integer if it has neither point nor exponent and
lies in the range of 64 bits, signed below zero and unsigned above; minus zero does not. Everything
else is fractional. Fractional numbers are of no use to any shape here, so their value is forgotten,
but a number too large for a double-precision number is not JSON, and whether it is too large is
decided as below.

The significand is collected from the digits as long as it fits into 64 bits; integer digits behind
that only count up the exponent, fraction digits behind that are dropped. The number is the product
of the significand and a power of ten, each rounded to 53 bits.
-/

namespace Uniprocessor.Json

/-- A number. -/
inductive Number where
  /-- a number that counts as an integer -/
  | integer (value : Int)
  /-- any other number -/
  | fractional
  deriving DecidableEq, Repr

/-- Whether a character is a decimal digit. -/
def isDigit (c : Char) : Bool := '0' ≤ c && c ≤ '9'

/-- The value of a decimal digit. -/
def digitValue (c : Char) : Nat := c.toNat - '0'.toNat

/-- The number that decimal digits write. -/
def digitsValue (ds : List Char) : Nat := ds.foldl (fun n c => 10 * n + digitValue c) 0

/-- The largest integer that counts as one. -/
def largestInteger : Nat := 0xffffffffffffffff

/-- The largest magnitude of a negative integer that counts as one. -/
def largestNegated : Nat := 0x8000000000000000

/-- The integer of a sign and a magnitude, if it counts as one. -/
def signedInteger (negative : Bool) (magnitude : Nat) : Number :=
  if negative then
    if magnitude = 0 ∨ largestNegated < magnitude then .fractional
    else .integer (-(magnitude : Int))
  else if magnitude ≤ largestInteger then .integer magnitude else .fractional

/-! ## Numbers too large for double precision -/

/-- A significand and the power of ten that it is multiplied by. -/
structure Scaled where
  /-- the digits that count -/
  significand : Nat
  /-- the power of ten -/
  exponent : Int
  deriving DecidableEq, Repr

/-- Takes the integer digits into a significand, and counts those that do not fit. -/
def Scaled.addInteger (x : Scaled) : List Char → Scaled
  | [] => x
  | c :: rest =>
    let grown := 10 * x.significand + digitValue c
    if grown ≤ largestInteger then addInteger { x with significand := grown } rest
    else { x with exponent := x.exponent + (rest.length + 1) }

/-- Takes the fraction digits into a significand, up to the first that does not fit. -/
def Scaled.addFraction (x : Scaled) : List Char → Scaled
  | [] => x
  | c :: rest =>
    let grown := 10 * x.significand + digitValue c
    if grown ≤ largestInteger then
      addFraction { significand := grown, exponent := x.exponent - 1 } rest
    else x

/-- The nearest number of at most 53 binary digits, and of two the even one. -/
def roundTo53 (n : Nat) : Nat :=
  let size := n.log2 + 1
  if size ≤ 53 then n
  else
    let unit := Nat.pow 2 (size - 53)
    let q := n / unit
    let r := n % unit
    if 2 * r < unit ∨ (2 * r = unit ∧ q % 2 = 0) then q * unit else (q + 1) * unit

/-- The least number that double precision takes for infinite: halfway between its largest number
and the next power of two. -/
def leastInfinite : Nat := Nat.pow 2 1024 - Nat.pow 2 970

/-- Whether a scaled significand is below the numbers that double precision takes for infinite. -/
def Scaled.isFinite (x : Scaled) : Bool :=
  if x.significand = 0 ∨ x.exponent ≤ 0 then true
  else if 308 < x.exponent then false
  else roundTo53 x.significand * roundTo53 (Nat.pow 10 x.exponent.toNat) < leastInfinite

/-- The largest exponent that is looked at as a number. -/
def largestExponent : Nat := 0x7fffffff

/-- Applies a written exponent. One too large to look at leaves only zero finite. -/
def Scaled.shift (x : Scaled) (negative : Bool) (exponent : Nat) : Scaled :=
  if negative then { x with exponent := x.exponent - exponent }
  else if exponent ≤ largestExponent then { x with exponent := x.exponent + exponent }
  else { x with exponent := x.exponent + largestExponent + largestExponent }

/-! ## Reading -/

/-- Reads digits, of which there must be one at least. -/
def readDigits (cs : List Char) : Except Complaint (List Char × List Char) :=
  match cs with
  | [] => .error .ended
  | c :: _ =>
    if isDigit c then .ok (cs.takeWhile isDigit, cs.dropWhile isDigit) else .error .malformed

/-- Reads the digits before the point: a zero stands alone. -/
def readWhole (cs : List Char) : Except Complaint (List Char × List Char) := do
  let (ds, rest) ← readDigits cs
  if ds.head? = some '0' ∧ ds.length ≠ 1 then throw .malformed
  return (ds, rest)

/-- Reads the sign and the digits of an exponent. -/
def readExponent (cs : List Char) : Except Complaint ((Bool × Nat) × List Char) := do
  let (negative, rest) := match cs with
    | '-' :: rest => (true, rest)
    | '+' :: rest => (false, rest)
    | _ => (false, cs)
  let (ds, rest) ← readDigits rest
  return ((negative, digitsValue ds), rest)

/-- Reads what may follow the fraction, and refuses a number that is too large. -/
def readScale (x : Scaled) (cs : List Char) : Except Complaint (Number × List Char) := do
  let (x, rest) ← match cs with
    | c :: rest =>
      if c = 'e' ∨ c = 'E' then do
        let ((negative, exponent), rest) ← readExponent rest
        pure (x.shift negative exponent, rest)
      else pure (x, cs)
    | [] => pure (x, [])
  if x.isFinite then return (.fractional, rest) else throw .malformed

/-- Reads a number behind its sign. -/
def readMagnitude (negative : Bool) (cs : List Char) : Except Complaint (Number × List Char) := do
  let (ds, rest) ← readWhole cs
  let x := Scaled.addInteger ⟨0, 0⟩ ds
  match rest with
  | '.' :: rest =>
    let (fs, rest) ← readDigits rest
    readScale (x.addFraction fs) rest
  | c :: _ =>
    if c = 'e' ∨ c = 'E' then readScale x rest
    else if digitsValue ds ≤ largestInteger then
      return (signedInteger negative (digitsValue ds), rest)
    else readScale x rest
  | [] =>
    if digitsValue ds ≤ largestInteger then
      return (signedInteger negative (digitsValue ds), [])
    else readScale x []

/-- Reads a number. -/
def readNumber : Reader Number
  | '-' :: rest => readMagnitude true rest
  | cs => readMagnitude false cs

end Uniprocessor.Json
