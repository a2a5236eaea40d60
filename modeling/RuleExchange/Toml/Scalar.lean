import RuleExchange.Instant
import RuleExchange.Json.Value

/-! Numbers, truth values and points in time of TOML. A scalar without quotes is the
longest run of letters, digits and a few signs; what it means depends on its form. -/

namespace RuleExchange.Toml

def isAtomChar (c : Char) : Bool :=
  c.isAlphanum || c == '_' || c == '+' || c == '-' || c == '.' || c == ':'

def isHex (c : Char) : Bool := Decimal.isDigit c || ('a' ≤ c && c ≤ 'f') || ('A' ≤ c && c ≤ 'F')

def hexValue (c : Char) : Nat :=
  if Decimal.isDigit c then c.toNat - 48
  else if 'a' ≤ c then c.toNat - 87
  else c.toNat - 55

def baseValue (base : Nat) (ds : List Char) : Nat := ds.foldl (fun n c => base * n + hexValue c) 0

/-- Digits with single underscores between them, as digits alone. -/
def digitRun (isDigit : Char → Bool) : List Char → Option (List Char)
  | [] => none
  | [c] => if isDigit c then some [c] else none
  | c :: '_' :: rest =>
    if isDigit c then (digitRun isDigit rest).map (c :: ·) else none
  | c :: rest => if isDigit c then (digitRun isDigit rest).map (c :: ·) else none

/-- Decimal digits that do not begin with a needless zero. -/
def wholeDigits (s : List Char) : Option (List Char) :=
  match digitRun Decimal.isDigit s with
  | some ('0' :: _ :: _) => none
  | r => r

def signed (s : List Char) : Bool × List Char :=
  match s with
  | '-' :: rest => (true, rest)
  | '+' :: rest => (false, rest)
  | _ => (false, s)

/-- Whole numbers that fit into a word of 64 bits, with or without sign. -/
def inWord (n : Int) : Option Int :=
  if -9223372036854775808 ≤ n ∧ n ≤ 18446744073709551615 then some n else none

def integer? (s : List Char) : Option Int :=
  match s with
  | '0' :: 'x' :: ds => (digitRun isHex ds).bind fun ds => inWord (baseValue 16 ds)
  | '0' :: 'o' :: ds =>
    (digitRun (fun c => '0' ≤ c && c ≤ '7') ds).bind fun ds => inWord (baseValue 8 ds)
  | '0' :: 'b' :: ds =>
    (digitRun (fun c => c == '0' || c == '1') ds).bind fun ds => inWord (baseValue 2 ds)
  | _ =>
    let (negative, ds) := signed s
    (wholeDigits ds).bind fun ds =>
      let n := Decimal.digitsValue ds
      inWord (if negative then -(n : Int) else n)

/-- An exponent: a letter, a sign and digits. -/
def exponent? (s : List Char) : Option Int :=
  match s with
  | c :: rest =>
    if c = 'e' ∨ c = 'E' then
      let (negative, ds) := signed rest
      (digitRun Decimal.isDigit ds).map fun ds =>
        let n := min (Decimal.digitsValue ds) 100000
        if negative then -(n : Int) else n
    else none
  | [] => none

/-- The magnitude of a number with a fraction or an exponent. -/
def magnitude? (s : List Char) : Option Float :=
  let isPart (c : Char) : Bool := Decimal.isDigit c || c == '_'
  let whole := s.takeWhile isPart
  let rest := s.dropWhile isPart
  match wholeDigits whole with
  | none => none
  | some ws =>
    match rest with
    | '.' :: more =>
      let tail := more.dropWhile isPart
      (digitRun Decimal.isDigit (more.takeWhile isPart)).bind fun fs =>
        (if tail.isEmpty then some 0 else exponent? tail).map fun e =>
          Decimal.nearest (ws ++ fs) (e - fs.length)
    | _ => (exponent? rest).map fun e => Decimal.nearest ws e

def float? (s : List Char) : Option Float :=
  let (negative, rest) := signed s
  let x :=
    if rest = "inf".toList then some (1.0 / 0.0)
    else if rest = "nan".toList then some (0.0 / 0.0)
    else (magnitude? rest).bind fun x => if x.isInf then none else some x
  x.map fun x => if negative then -x else x

/-- Hours and minutes with optional seconds and a fraction, and what follows. -/
def clock? (s : List Char) : Option (List Char) := do
  let (hour, s) ← Instant.twoDigits? s
  let s ← Text.after? [':'] s
  let (minute, s) ← Instant.twoDigits? s
  let (second, s) ← match s with
    | ':' :: rest => do
      let (second, rest) ← Instant.twoDigits? rest
      let rest ← Instant.fraction? rest
      pure (second, rest)
    | _ => pure (0, s)
  if Instant.isTime hour minute second then some s else none

def calendarDay? (s : List Char) : Option (List Char) :=
  match s with
  | a :: b :: c :: d :: '-' :: rest =>
    if [a, b, c, d].all Decimal.isDigit then do
      let (month, rest) ← Instant.twoDigits? rest
      let rest ← Text.after? ['-'] rest
      let (day, rest) ← Instant.twoDigits? rest
      if Instant.isDate (Decimal.digitsValue [a, b, c, d]) month day then some rest else none
    else none
  | _ => none

def isOffset (s : List Char) : Bool :=
  match s with
  | [] => true
  | [c] => c == 'Z' || c == 'z'
  | c :: rest =>
    (c == '+' || c == '-') && match Instant.twoDigits? rest with
      | some (hours, ':' :: more) =>
        match Instant.twoDigits? more with
        | some (minutes, []) => hours ≤ 23 && minutes ≤ 59
        | _ => false
      | _ => false

/-- Whether a text is a day, a time of day, or both with an optional offset. -/
def isMoment (s : List Char) : Bool :=
  match calendarDay? s with
  | some [] => true
  | some (c :: rest) =>
    (c == 'T' || c == 't' || c == ' ') && match clock? rest with
      | some tail => isOffset tail
      | none => false
  | none => clock? s == some []

/-- The key under which a point in time is kept, as a table of one member. -/
def momentKey : String := "$__toml_private_datetime"

def scalar? (s : List Char) : Option Json.Value :=
  if s = "true".toList then some (.bool true)
  else if s = "false".toList then some (.bool false)
  else match integer? s with
    | some n => some (.int n)
    | none =>
      match float? s with
      | some x => some (.float x)
      | none =>
        if isMoment s then some (.obj [(momentKey, .str (String.ofList s))]) else none

end RuleExchange.Toml
