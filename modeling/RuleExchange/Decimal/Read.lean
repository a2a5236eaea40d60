import RuleExchange.Text.Part

/-! Reading numbers written in decimal: naturals and integers inside bounds, and
doubles with optional sign, point, exponent and the words for infinity and
not-a-number. -/

namespace RuleExchange.Decimal

def isDigit (c : Char) : Bool := '0' ≤ c && c ≤ '9'

def digitsValue (ds : List Char) : Nat := ds.foldl (fun n c => 10 * n + (c.toNat - 48)) 0

/-- A nonempty run of digits, with an optional plus sign, at most `max`. -/
def readNat (max : Nat) (s : List Char) : Option Nat :=
  let ds := match s with
    | '+' :: rest => rest
    | _ => s
  if ds.isEmpty || !ds.all isDigit then none
  else if digitsValue ds ≤ max then some (digitsValue ds) else none

/-- The double nearest to `digits` times ten to `exponent`; exponents out of every double's reach
are cut off before any power of ten is formed. -/
def nearest (digits : List Char) (exponent : Int) : Float :=
  let ds := digits.dropWhile (· == '0')
  let size : Int := ds.length
  if ds.isEmpty then 0.0
  else if exponent + size > 400 then 1.0 / 0.0
  else if exponent + size < -400 then 0.0
  else if 0 ≤ exponent then Float.ofScientific (digitsValue ds) false exponent.toNat
  else Float.ofScientific (digitsValue ds) true (-exponent).toNat

/-- An exponent part: a sign and digits, or nothing at all. -/
def readExponent : List Char → Option Int
  | [] => some 0
  | c :: rest =>
    if c = 'e' ∨ c = 'E' then
      let (negative, ds) := match rest with
        | '-' :: ds => (true, ds)
        | '+' :: ds => (false, ds)
        | ds => (false, ds)
      if ds.isEmpty || !ds.all isDigit then none
      else
        let n := min (digitsValue ds) 100000
        some (if negative then -(n : Int) else n)
    else none

def readMagnitude (s : List Char) : Option Float :=
  let word := String.ofList (Text.asciiLower s)
  if word = "inf" ∨ word = "infinity" then some (1.0 / 0.0)
  else if word = "nan" then some (0.0 / 0.0)
  else
    let whole := s.takeWhile isDigit
    let rest := s.dropWhile isDigit
    let (fraction, rest) := match rest with
      | '.' :: more => (more.takeWhile isDigit, more.dropWhile isDigit)
      | _ => ([], rest)
    if whole.isEmpty && fraction.isEmpty then none
    else (readExponent rest).map fun e => nearest (whole ++ fraction) (e - fraction.length)

/-- A double as people write it: `-1.5e3`, `.5`, `5.`, `inf`, `NaN`. -/
def readFloat (s : List Char) : Option Float :=
  match s with
  | '-' :: rest => (readMagnitude rest).map fun x => -x
  | '+' :: rest => readMagnitude rest
  | _ => readMagnitude s

end RuleExchange.Decimal
