import RuleExchange.Decimal.Shortest

/-! Writing doubles. One record says how a number is laid out: between which
exponents it is positional, whether a whole number keeps a zero after the point,
and how the numbers without digits are spelt. Fixed places round the exact binary
value, a tie going to the even neighbour. -/

namespace RuleExchange.Decimal

structure Layout where
  /-- Least and greatest exponent written positionally; without bounds all are. -/
  positional : Option (Int × Int)
  /-- Whether a whole number is written with a final zero after the point. -/
  wholeFraction : Bool
  nan : String
  infinity : String

def digitText (ds : List Nat) : List Char := ds.map fun d => Char.ofNat (48 + d)

/-- Positional notation: digits around the point, zeros where the digits do not reach. -/
def positionalText (wholeFraction : Bool) (d : Digits) : List Char :=
  let ds := digitText d.digits
  if d.exponent < 0 then
    "0.".toList ++ List.replicate ((-d.exponent).toNat - 1) '0' ++ ds
  else
    let width := d.exponent.toNat + 1
    let whole := ds.take width ++ List.replicate (width - ds.length) '0'
    let fraction := ds.drop width
    if fraction.isEmpty then (if wholeFraction then whole ++ ".0".toList else whole)
    else whole ++ '.' :: fraction

/-- One digit, the point and the others if there are any, and the signed exponent. -/
def scientificText (d : Digits) : List Char :=
  let ds := digitText d.digits
  let mantissa := match ds with
    | [] => []
    | [x] => [x]
    | x :: rest => x :: '.' :: rest
  let sign := if d.exponent < 0 then '-' else '+'
  mantissa ++ 'e' :: sign :: (Nat.toDigits 10 d.exponent.natAbs)

namespace Layout

def magnitude (l : Layout) (d : Digits) : List Char :=
  match l.positional with
  | none => positionalText l.wholeFraction d
  | some (lo, hi) =>
    if lo ≤ d.exponent ∧ d.exponent ≤ hi then positionalText l.wholeFraction d
    else scientificText d

def write (l : Layout) (x : Float) : String :=
  let bits := x.toBits.toNat
  let negative := bits / Nat.pow 2 63 = 1
  let rest := bits % Nat.pow 2 63
  let signed (s : List Char) : String := String.ofList (if negative then '-' :: s else s)
  if rest / Nat.pow 2 52 = 2047 then
    if rest % Nat.pow 2 52 = 0 then signed l.infinity.toList else l.nan
  else if rest = 0 then signed (if l.wholeFraction then "0.0".toList else ['0'])
  else signed (l.magnitude (Binary.ofBits rest).shortest)

end Layout

/-- Numbers in JSON texts. -/
def json : Layout := ⟨some (-5, 15), true, "null", "null"⟩

/-- Numbers in messages: plain decimals without an exponent. -/
def plain : Layout := ⟨none, false, "NaN", "inf"⟩

/-- Numbers in configuration texts: plain decimals that keep a fraction. -/
def settings : Layout := ⟨none, true, "nan", "inf"⟩

/-- The quotient rounded to the nearest natural, a tie going to the even one. -/
def roundDiv (num den : Nat) : Nat :=
  let q := num / den
  let r := num % den
  if 2 * r < den then q
  else if den < 2 * r then q + 1
  else if q % 2 = 0 then q else q + 1

/-- A number with a fixed count of places after the point. -/
def fixed (places : Nat) (x : Float) : String :=
  let bits := x.toBits.toNat
  let negative := bits / Nat.pow 2 63 = 1
  let rest := bits % Nat.pow 2 63
  if rest / Nat.pow 2 52 = 2047 then
    if rest % Nat.pow 2 52 = 0 then (if negative then "-inf" else "inf") else "NaN"
  else
    let v := (Binary.ofBits rest).value
    let n := roundDiv (v.num * Nat.pow 10 places) v.den
    let ds := Nat.toDigits 10 n
    let ds := List.replicate (places + 1 - ds.length) '0' ++ ds
    let whole := ds.take (ds.length - places)
    let fraction := ds.drop (ds.length - places)
    let body := if places = 0 then whole else whole ++ '.' :: fraction
    String.ofList (if negative then '-' :: body else body)

end RuleExchange.Decimal
