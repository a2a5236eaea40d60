/-! The fewest decimal digits that read back to the same double. A finite double
is `m * 2 ^ q`; the reals that round to it form an interval around it, with the
ends included when `m` is even. On the grid of decimals with one, two, and up
to seventeen digits the two neighbours of the value are tried in turn; the first
grid with a neighbour inside the interval wins, and of two the nearer one. -/

namespace RuleExchange.Decimal

/-- A positive decimal number: `digits` read as `d.ddd` times ten to `exponent`. -/
structure Digits where
  digits : List Nat
  exponent : Int
  deriving DecidableEq, Repr

/-- Significand and binary exponent of a finite nonzero magnitude. -/
structure Binary where
  significand : Nat
  exponent : Int
  deriving DecidableEq, Repr

/-- A quotient of naturals. -/
structure Ratio where
  num : Nat
  den : Nat
  deriving DecidableEq, Repr

namespace Ratio

def le (a b : Ratio) : Bool := a.num * b.den ≤ b.num * a.den

def lt (a b : Ratio) : Bool := a.num * b.den < b.num * a.den

/-- The distance of two quotients. -/
def dist (a b : Ratio) : Ratio :=
  ⟨(a.num * b.den - b.num * a.den) + (b.num * a.den - a.num * b.den), a.den * b.den⟩

def tenTo (e : Int) : Ratio :=
  if 0 ≤ e then ⟨Nat.pow 10 e.toNat, 1⟩ else ⟨1, Nat.pow 10 (-e).toNat⟩

def scale (n : Nat) (r : Ratio) : Ratio := ⟨n * r.num, r.den⟩

/-- The largest natural `k` with `k * b ≤ a`. -/
def floorDiv (a b : Ratio) : Nat := (a.num * b.den) / (b.num * a.den)

end Ratio

def Binary.ofBits (bits : Nat) : Binary :=
  let fraction : Nat := bits % Nat.pow 2 52
  let biased : Nat := bits / Nat.pow 2 52 % Nat.pow 2 11
  if biased = 0 then ⟨fraction, -1074⟩ else ⟨fraction + Nat.pow 2 52, (biased : Int) - 1075⟩

/-- `n` quarters of the unit in the last place of a double with binary exponent `q`. -/
def quarters (n : Nat) (q : Int) : Ratio :=
  if 2 ≤ q then ⟨n * Nat.pow 2 (q - 2).toNat, 1⟩ else ⟨n, Nat.pow 2 (2 - q).toNat⟩

namespace Binary

def value (b : Binary) : Ratio := quarters (4 * b.significand) b.exponent

def upper (b : Binary) : Ratio := quarters (4 * b.significand + 2) b.exponent

/-- Below a power of two the gap to the next smaller double is half as wide. -/
def lower (b : Binary) : Ratio :=
  if b.significand = Nat.pow 2 52 ∧ b.exponent ≠ -1074 then quarters (4 * b.significand - 1) b.exponent
  else quarters (4 * b.significand - 2) b.exponent

/-- Whether a real rounds to this double, ties going to the even significand. -/
def readsBack (b : Binary) (r : Ratio) : Bool :=
  if b.significand % 2 = 0 then b.lower.le r && r.le b.upper else b.lower.lt r && r.lt b.upper

end Binary

/-- The exponent `e` with `10 ^ e ≤ r < 10 ^ (e + 1)`, searched downwards. -/
def leadingExponent (r : Ratio) : Nat → Int → Int
  | 0, e => e
  | fuel + 1, e => if (Ratio.tenTo e).le r then e else leadingExponent r fuel (e - 1)

/-- The better of the two neighbours of the value on the grid of `unit`, if one reads back. -/
def gridHit (b : Binary) (unit : Ratio) : Option Nat :=
  let low := b.value.floorDiv unit
  let high := low + 1
  let hit (k : Nat) : Bool := b.readsBack (unit.scale k)
  let far (k : Nat) : Ratio := (unit.scale k).dist b.value
  match hit low && low != 0, hit high with
  | true, true =>
    if (far low).lt (far high) then some low
    else if (far high).lt (far low) then some high
    else if low % 2 = 0 then some low else some high
  | true, false => some low
  | false, true => some high
  | false, false => none

def firstHit (b : Binary) (e : Int) : Nat → Nat → Option (Nat × Int)
  | 0, _ => none
  | fuel + 1, places =>
    let unit := e - places
    match gridHit b (Ratio.tenTo unit) with
    | some k => some (k, unit)
    | none => firstHit b e fuel (places + 1)

def natDigits (n : Nat) : List Nat := (Nat.toDigits 10 n).map fun c => c.toNat - 48

def dropTrailingZeros (ds : List Nat) : List Nat := (ds.reverse.dropWhile (· == 0)).reverse

/-- The shortest digits of a finite nonzero double given by its significand and exponent. -/
def Binary.shortest (b : Binary) : Digits :=
  let e := leadingExponent b.value 700 309
  match firstHit b e 18 0 with
  | some (k, unit) =>
    let ds := natDigits k
    ⟨dropTrailingZeros ds, unit + ds.length - 1⟩
  | none => ⟨[0], 0⟩

end RuleExchange.Decimal
