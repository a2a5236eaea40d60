import RuleExchange.Decimal.Read
import RuleExchange.Text.Literal

/-!
Socket addresses. An address of version 4 is four decimal octets, one of version 6 is
eight groups of hexadecimal digits in brackets, where one run of zero groups may be
left out and the last two groups may be written as an address of version 4. The
written form leaves out the longest run of at least two zero groups, the first one of
several.
-/

namespace RuleExchange.Service

inductive Address where
  | v4 (octets : List Nat) (number : Nat)
  /-- The scope is written only when it is not zero. -/
  | v6 (groups : List Nat) (scope number : Nat)
  deriving DecidableEq, Repr

namespace Address

/-! ### Reading -/

def digitValue (radix : Nat) (c : Char) : Option Nat :=
  let n := c.toNat
  let v :=
    if 48 ≤ n ∧ n ≤ 57 then n - 48
    else if 97 ≤ n ∧ n ≤ 122 then n - 87
    else if 65 ≤ n ∧ n ≤ 90 then n - 55
    else radix
  if v < radix then some v else none

/-- How a number may be written. -/
structure Numeral where
  radix : Nat := 10
  maxDigits : Option Nat := none
  /-- Whether a zero may stand in front of other digits. -/
  leadingZero : Bool := true
  max : Nat

def readNumber (f : Numeral) (s : List Char) : Option (Nat × List Char) :=
  let ds := (s.takeWhile fun c => (digitValue f.radix c).isSome).filterMap (digitValue f.radix)
  let value := ds.foldl (fun n d => f.radix * n + d) 0
  if ds.isEmpty then none
  else if f.maxDigits.any (· < ds.length) then none
  else if !f.leadingZero && ds.head? = some 0 && 1 < ds.length then none
  else if f.max < value then none
  else some (value, s.drop ds.length)

def readMark (c : Char) : List Char → Option (List Char)
  | d :: s => if c = d then some s else none
  | [] => none

def octet : Numeral := { maxDigits := some 3, leadingZero := false, max := 255 }

def group : Numeral := { radix := 16, maxDigits := some 4, max := 0xFFFF }

def readOctets (s : List Char) : Option (List Nat × List Char) := do
  let (a, s) ← readNumber octet s
  let s ← readMark '.' s
  let (b, s) ← readNumber octet s
  let s ← readMark '.' s
  let (c, s) ← readNumber octet s
  let s ← readMark '.' s
  let (d, s) ← readNumber octet s
  return ([a, b, c, d], s)

/-- Two groups from four octets. -/
def paired : List Nat → List Nat
  | [a, b, c, d] => [256 * a + b, 256 * c + d]
  | _ => []

/-- Up to so many groups divided by colons; says whether the last two were written as octets. -/
def readGroups : Nat → Bool → List Char → List Nat × Bool × List Char
  | 0, _, s => ([], false, s)
  | n + 1, first, s =>
    match if first then some s else readMark ':' s with
    | none => ([], false, s)
    | some t =>
      match if 0 < n then readOctets t else none with
      | some (os, rest) => (paired os, true, rest)
      | none =>
        match readNumber group t with
        | none => ([], false, s)
        | some (g, rest) =>
          let (gs, octets, rest) := readGroups n false rest
          (g :: gs, octets, rest)

def readV6 (s : List Char) : Option (List Nat × List Char) :=
  let (head, octets, s) := readGroups 8 true s
  if head.length = 8 then some (head, s)
  else if octets then none
  else do
    let s ← readMark ':' s
    let s ← readMark ':' s
    let (tail, _, s) := readGroups (7 - head.length) true s
    return (head ++ List.replicate (8 - head.length - tail.length) 0 ++ tail, s)

/-- A colon and the number of the endpoint. -/
def readEnd (s : List Char) : Option (Nat × List Char) := do
  let s ← readMark ':' s
  readNumber { max := 0xFFFF } s

def readScope (s : List Char) : Nat × List Char :=
  match readMark '%' s >>= readNumber { max := 0xFFFFFFFF } with
  | some (n, rest) => (n, rest)
  | none => (0, s)

def readSocketV4 (s : List Char) : Option (Address × List Char) := do
  let (os, s) ← readOctets s
  let (n, s) ← readEnd s
  return (v4 os n, s)

def readSocketV6 (s : List Char) : Option (Address × List Char) := do
  let s ← readMark '[' s
  let (gs, s) ← readV6 s
  let (scope, s) := readScope s
  let s ← readMark ']' s
  let (n, s) ← readEnd s
  return (v6 gs scope n, s)

def ofText? (s : List Char) : Option Address :=
  match (readSocketV4 s).or (readSocketV6 s) with
  | some (a, []) => some a
  | _ => none

/-! ### Writing -/

/-- Start and length of a run of zero groups. -/
structure Span where
  start : Nat := 0
  length : Nat := 0

/-- The longest run of zeros, the first one of several; `here` is the run that ends at `i`. -/
def longestZeros : Nat → Span → Span → List Nat → Span
  | _, _, best, [] => best
  | i, here, best, g :: gs =>
    if g = 0 then
      let here : Span := if here.length = 0 then ⟨i, 1⟩ else ⟨here.start, here.length + 1⟩
      longestZeros (i + 1) here (if best.length < here.length then here else best) gs
    else longestZeros (i + 1) {} best gs

def groupsText (gs : List Nat) : String :=
  Text.joined ":" (gs.map fun g => String.ofList (Text.Literal.hexDigits g))

def octetsText (os : List Nat) : String := Text.joined "." (os.map fun (n : Nat) => toString n)

/-- Addresses of version 4 inside version 6 show their octets. -/
def v6Text (gs : List Nat) : String :=
  match gs with
  | [0, 0, 0, 0, 0, 0xFFFF, a, b] =>
    "::ffff:" ++ octetsText [a / 256, a % 256, b / 256, b % 256]
  | _ =>
    let z := longestZeros 0 {} {} gs
    if 1 < z.length then
      groupsText (gs.take z.start) ++ "::" ++ groupsText (gs.drop (z.start + z.length))
    else groupsText gs

def text : Address → String
  | v4 os n => octetsText os ++ ":" ++ toString n
  | v6 gs scope n =>
    let zone := if scope = 0 then "" else "%" ++ toString scope
    "[" ++ v6Text gs ++ zone ++ "]:" ++ toString n

end Address

end RuleExchange.Service
