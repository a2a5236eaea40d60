import RuleExchange.Json.Value
import RuleExchange.Decimal.Read

/-! Reading JSON text. The result is a tree that also records where the text stops
making sense, so that a consumer that walks the tree in the order of the text meets
the first fault exactly where it stands. A string or number that is well formed but
has no value, such as a lone surrogate or a number beyond every double, is a fault
only for a consumer that asks for its value. -/

namespace RuleExchange.Json

inductive Source where
  | null
  | bool (b : Bool)
  | num (n : Number)
  | str (s : String)
  | arr (items : List Source)
  /-- Members in the order of the text; a key without a value is `none`. -/
  | obj (members : List (Option String × Source))
  /-- A well-formed string or number that has no value. -/
  | valueless
  /-- The text makes no sense from here on. -/
  | broken

instance : Inhabited Source := ⟨.broken⟩

def isJsonBlank (c : Char) : Bool := c == ' ' || c == '\n' || c == '\t' || c == '\r'

def skipBlank (s : List Char) : List Char := s.dropWhile isJsonBlank

/-! ### Numbers -/

def maxWord : Nat := Nat.pow 2 64 - 1

/-- Takes digits into the significand as long as it fits a machine word. -/
def absorb : Nat → List Char → Nat × List Char
  | sig, [] => (sig, [])
  | sig, c :: cs =>
    let next := 10 * sig + (c.toNat - 48)
    if next ≤ maxWord then absorb next cs else (sig, c :: cs)

/-- Multiplies or divides by a power of ten, in steps of `1e308` while the exponent is out of the
range of powers; `none` when the result is beyond every double. -/
def scaleTen : Nat → Float → Int → Option Float
  | 0, _, _ => none
  | fuel + 1, f, e =>
    if e.natAbs ≤ 308 then
      let power := Float.ofScientific 1 false e.natAbs
      if 0 ≤ e then
        let g := f * power
        if g.isInf then none else some g
      else some (f / power)
    else if f == 0.0 then some f
    else if 0 ≤ e then none
    else scaleTen fuel (f / 1e308) (e + 308)

def maxExponent : Nat := Nat.pow 2 31 - 1

/-- The double of a written number with its parts given. An exponent too large for any use gives
zero or nothing, according to its sign. -/
def realOf (negative : Bool) (whole fraction : List Char) (exponent : Option (Bool × List Char)) :
    Option Float :=
  let (sig, left) := absorb 0 whole
  let (sig, unread) := absorb sig fraction
  let start : Int := (left.length : Int) - ((fraction.length : Int) - unread.length)
  let signed (f : Float) : Float := if negative then -f else f
  let scaled (e : Int) : Option Float :=
    (scaleTen 8 (UInt64.ofNat sig).toFloat (max (-2400) (min 400 e))).map signed
  match exponent with
  | none => scaled start
  | some (down, ds) =>
    let n := Decimal.digitsValue ds
    if n > maxExponent then
      if sig != 0 && !down then none else some (signed 0.0)
    else scaled (if down then start - n else start + n)

def numberOf (negative : Bool) (whole fraction : List Char)
    (exponent : Option (Bool × List Char)) : Source :=
  let real := match realOf negative whole fraction exponent with
    | some x => Source.num (.real x)
    | none => .valueless
  if fraction.isEmpty && exponent.isNone then
    let n := Decimal.digitsValue whole
    if !negative && n ≤ maxWord then .num (.whole n)
    else if negative && 0 < n && n ≤ Nat.pow 2 63 then .num (.whole (-(n : Int)))
    else real
  else real

/-- A digit sequence without needless zeros in front. -/
def readWhole (s : List Char) : Option (List Char × List Char) :=
  match s with
  | '0' :: rest =>
    match rest with
    | c :: _ => if Decimal.isDigit c then none else some (['0'], rest)
    | [] => some (['0'], [])
  | _ =>
    let ds := s.takeWhile Decimal.isDigit
    if ds.isEmpty then none else some (ds, s.dropWhile Decimal.isDigit)

def readFraction (s : List Char) : Option (List Char × List Char) :=
  match s with
  | '.' :: rest =>
    let ds := rest.takeWhile Decimal.isDigit
    if ds.isEmpty then none else some (ds, rest.dropWhile Decimal.isDigit)
  | _ => some ([], s)

def readPower (s : List Char) : Option (Option (Bool × List Char) × List Char) :=
  match s with
  | c :: rest =>
    if c = 'e' ∨ c = 'E' then
      let (down, rest) := match rest with
        | '-' :: more => (true, more)
        | '+' :: more => (false, more)
        | more => (false, more)
      let ds := rest.takeWhile Decimal.isDigit
      if ds.isEmpty then none else some (some (down, ds), rest.dropWhile Decimal.isDigit)
    else some (none, s)
  | [] => some (none, s)

/-- A number and what follows it. -/
def readNumber (s : List Char) : Option (Source × List Char) := do
  let (negative, s) := match s with
    | '-' :: rest => (true, rest)
    | _ => (false, s)
  let (whole, s) ← readWhole s
  let (fraction, s) ← readFraction s
  let (exponent, s) ← readPower s
  return (numberOf negative whole fraction exponent, s)

/-! ### Strings -/

def hexValue (c : Char) : Option Nat :=
  let n := c.toNat
  if 48 ≤ n ∧ n ≤ 57 then some (n - 48)
  else if 97 ≤ n ∧ n ≤ 102 then some (n - 87)
  else if 65 ≤ n ∧ n ≤ 70 then some (n - 55)
  else none

def hexWord : List Char → Option (Nat × List Char)
  | a :: b :: c :: d :: rest => do
    let a ← hexValue a
    let b ← hexValue b
    let c ← hexValue c
    let d ← hexValue d
    return (((a * 16 + b) * 16 + c) * 16 + d, rest)
  | _ => none

def simpleEscape (c : Char) : Option Char :=
  if c = '"' ∨ c = '\\' ∨ c = '/' then some c
  else if c = 'b' then some (Char.ofNat 8)
  else if c = 'f' then some (Char.ofNat 12)
  else if c = 'n' then some '\n'
  else if c = 'r' then some '\r'
  else if c = 't' then some '\t'
  else none

/-- One piece of a string: a code unit of the escaped kind, or a plain character. -/
inductive Piece where
  | char (c : Char)
  | unit (n : Nat)
  deriving DecidableEq

/-- The pieces up to the closing quote, and what follows it. -/
def readPieces : Nat → List Char → Option (List Piece × List Char)
  | 0, _ => none
  | _ + 1, [] => none
  | fuel + 1, c :: cs =>
    if c = '"' then some ([], cs)
    else if c = '\\' then
      match cs with
      | [] => none
      | e :: rest =>
        if e = 'u' then do
          let (n, rest) ← hexWord rest
          let (ps, tail) ← readPieces fuel rest
          return (.unit n :: ps, tail)
        else do
          let x ← simpleEscape e
          let (ps, tail) ← readPieces fuel rest
          return (.char x :: ps, tail)
    else if c.toNat < 32 then none
    else do
      let (ps, tail) ← readPieces fuel cs
      return (.char c :: ps, tail)

def isHigh (n : Nat) : Bool := 0xD800 ≤ n && n ≤ 0xDBFF

def isLow (n : Nat) : Bool := 0xDC00 ≤ n && n ≤ 0xDFFF

/-- Joins surrogate pairs; a lone surrogate has no character. -/
def joinPieces : List Piece → Option (List Char)
  | [] => some []
  | .char c :: ps => (joinPieces ps).map (c :: ·)
  | .unit n :: .unit m :: ps =>
    if isHigh n then
      if isLow m then
        (joinPieces ps).map (Char.ofNat (0x10000 + (n - 0xD800) * 0x400 + (m - 0xDC00)) :: ·)
      else none
    else if isLow n then none
    else (joinPieces (.unit m :: ps)).map (Char.ofNat n :: ·)
  | .unit n :: ps =>
    if isHigh n || isLow n then none else (joinPieces ps).map (Char.ofNat n :: ·)

/-- The string after its opening quote: its value, if it has one, and what follows. -/
def readString (s : List Char) : Option (Option String × List Char) :=
  (readPieces (s.length + 1) s).map fun (ps, rest) => ((joinPieces ps).map String.ofList, rest)

/-! ### Values -/

/-- What a text reads as, with the rest of the text unless it broke off. -/
abbrev Reading := Source × Option (List Char)

def readWord (word : List Char) (v : Source) (s : List Char) : Reading :=
  if word.isPrefixOf s then (v, some (s.drop word.length)) else (.broken, none)

mutual

def readValue : Nat → List Char → Reading
  | 0, _ => (.broken, none)
  | fuel + 1, s =>
    match skipBlank s with
    | [] => (.broken, none)
    | c :: rest =>
      if c = 'n' then readWord "null".toList .null (c :: rest)
      else if c = 't' then readWord "true".toList (.bool true) (c :: rest)
      else if c = 'f' then readWord "false".toList (.bool false) (c :: rest)
      else if c = '"' then
        match readString rest with
        | some (some v, tail) => (.str v, some tail)
        | some (none, tail) => (.valueless, some tail)
        | none => (.broken, none)
      else if c = '[' then
        match skipBlank rest with
        | ']' :: tail => (.arr [], some tail)
        | _ =>
          let (items, tail) := readItems fuel rest
          (.arr items, tail)
      else if c = '\x7b' then
        match skipBlank rest with
        | '\x7d' :: tail => (.obj [], some tail)
        | _ =>
          let (members, tail) := readMembers fuel rest
          (.obj members, tail)
      else
        match readNumber (c :: rest) with
        | some (v, tail) => (v, some tail)
        | none => (.broken, none)

/-- The items up to the closing bracket; a fault is the last item. -/
def readItems : Nat → List Char → List Source × Option (List Char)
  | 0, _ => ([.broken], none)
  | fuel + 1, s =>
    match readValue fuel s with
    | (v, none) => ([v], none)
    | (v, some rest) =>
      match skipBlank rest with
      | ',' :: more =>
        let (vs, tail) := readItems fuel more
        (v :: vs, tail)
      | ']' :: tail => ([v], some tail)
      | _ => ([v, .broken], none)

/-- The members up to the closing brace; a fault is the last member. -/
def readMembers : Nat → List Char → List (Option String × Source) × Option (List Char)
  | 0, _ => ([(none, .broken)], none)
  | fuel + 1, s =>
    match skipBlank s with
    | '"' :: rest =>
      match readString rest with
      | none => ([(none, .broken)], none)
      | some (key, rest) =>
        match skipBlank rest with
        | ':' :: rest =>
          match readValue fuel rest with
          | (v, none) => ([(key, v)], none)
          | (v, some rest) =>
            match skipBlank rest with
            | ',' :: more =>
              let (ms, tail) := readMembers fuel more
              ((key, v) :: ms, tail)
            | '\x7d' :: tail => ([(key, v)], some tail)
            | _ => ([(key, v), (none, .broken)], none)
        | _ => ([(key, .broken)], none)
    | _ => ([(none, .broken)], none)

end

/-- A whole text as a tree, and whether nothing but blanks follows the value. -/
def Source.ofText (s : List Char) : Source × Bool :=
  match readValue (2 * s.length + 2) s with
  | (v, some rest) => (v, (skipBlank rest).isEmpty)
  | (v, none) => (v, true)

mutual

/-- Whether the text breaks off inside this tree. -/
def Source.isBroken : Source → Bool
  | .arr items => anyBroken items
  | .obj members => anyMemberBroken members
  | .broken => true
  | _ => false

def anyBroken : List Source → Bool
  | [] => false
  | v :: vs => v.isBroken || anyBroken vs

def anyMemberBroken : List (Option String × Source) → Bool
  | [] => false
  | (_, v) :: rest => v.isBroken || anyMemberBroken rest

end

mutual

/-- The value of a tree whose containers nest at most `depth` levels. -/
def Source.toValue (depth : Nat) : Source → Option Value
  | .null => some .null
  | .bool b => some (.bool b)
  | .num n => some (.num n)
  | .str s => some (.str s)
  | .arr items =>
    match depth with
    | 0 => none
    | d + 1 => (toItems d items).map .arr
  | .obj members =>
    match depth with
    | 0 => none
    | d + 1 => (toMembers d members).map .obj
  | .valueless => none
  | .broken => none

def toItems (depth : Nat) : List Source → Option (List Value)
  | [] => some []
  | v :: vs => do
    let x ← v.toValue depth
    let xs ← toItems depth vs
    return x :: xs

def toMembers (depth : Nat) : List (Option String × Source) → Option (List (String × Value))
  | [] => some []
  | (key, v) :: rest => do
    let k ← key
    let x ← v.toValue depth
    let xs ← toMembers depth rest
    return (k, x) :: xs

end

/-- The deepest nesting of containers that is read. -/
def maxDepth : Nat := 127

/-- The value of a text, members in the order of the text. -/
def Value.ofText? (s : List Char) : Option Value :=
  match Source.ofText s with
  | (v, true) => v.toValue maxDepth
  | (_, false) => none

mutual

/-- A value as a tree without faults. -/
def Source.ofValue : Value → Source
  | .null => .null
  | .bool b => .bool b
  | .num n => .num n
  | .str s => .str s
  | .arr items => .arr (ofItems items)
  | .obj members => .obj (ofMembers members)

def ofItems : List Value → List Source
  | [] => []
  | v :: vs => Source.ofValue v :: ofItems vs

def ofMembers : List (String × Value) → List (Option String × Source)
  | [] => []
  | (k, v) :: rest => (some k, Source.ofValue v) :: ofMembers rest

end

end RuleExchange.Json
