import RuleExchange.Decimal.Read

/-! Points in time as people write them: a date, a time of day and an offset from
universal time. Blanks may stand before each number and each sign, the date and the
time are parted by the letter T or one space, and a fraction of a second may have any
number of digits. -/

namespace RuleExchange.Instant

open Text (trimStart)

/-- A run of one to `width` digits at the start of a text, with its value. -/
def digits? (width : Nat) (s : List Char) : Option (Nat × List Char) :=
  let ds := (s.take width).takeWhile Decimal.isDigit
  if ds.isEmpty then none else some (Decimal.digitsValue ds, s.drop ds.length)

def number? (width : Nat) (s : List Char) : Option (Nat × List Char) := digits? width (trimStart s)

def sign? (c : Char) (s : List Char) : Option (List Char) := Text.after? [c] (trimStart s)

/-- A year has four digits, or a sign and any number of them. -/
def year? (s : List Char) : Option (Int × List Char) :=
  match trimStart s with
  | '-' :: rest => (digits? rest.length rest).map fun (n, rest) => (-(n : Int), rest)
  | '+' :: rest => (digits? rest.length rest).map fun (n, rest) => ((n : Int), rest)
  | rest => (digits? 4 rest).map fun (n, rest) => ((n : Int), rest)

def isLeap (year : Int) : Bool := year % 4 == 0 && (year % 100 != 0 || year % 400 == 0)

def daysIn (year : Int) (month : Nat) : Nat :=
  if month = 2 then (if isLeap year then 29 else 28)
  else if [4, 6, 9, 11].contains month then 30
  else 31

def isDate (year : Int) (month day : Nat) : Bool :=
  -262143 ≤ year && year ≤ 262142 && 1 ≤ month && month ≤ 12 && 1 ≤ day && day ≤ daysIn year month

/-- The second may be the 60th, which is a leap second. -/
def isTime (hour minute second : Nat) : Bool := hour ≤ 23 && minute ≤ 59 && second ≤ 60

/-- A date, with what follows it. -/
def date? (s : List Char) : Option (List Char) := do
  let (year, s) ← year? s
  let s ← sign? '-' s
  let (month, s) ← number? 2 s
  let s ← sign? '-' s
  let (day, s) ← number? 2 s
  if isDate year month day then some s else none

def fraction? (s : List Char) : Option (List Char) :=
  match s with
  | '.' :: rest =>
    match rest with
    | c :: _ => if Decimal.isDigit c then some (rest.dropWhile Decimal.isDigit) else none
    | [] => none
  | _ => some s

/-- A time of day, with what follows it. -/
def time? (s : List Char) : Option (List Char) := do
  let (hour, s) ← number? 2 s
  let s ← sign? ':' s
  let (minute, s) ← number? 2 s
  let s ← sign? ':' s
  let (second, s) ← number? 2 s
  let s ← fraction? s
  if isTime hour minute second then some (trimStart s) else none

def twoDigits? (s : List Char) : Option (Nat × List Char) :=
  match s with
  | a :: b :: rest =>
    if Decimal.isDigit a && Decimal.isDigit b then some (Decimal.digitsValue [a, b], rest) else none
  | _ => none

/-- Hours and minutes of an offset, at most a day. -/
def hourMinute? (s : List Char) : Option (List Char) := do
  let (hours, s) ← twoDigits? s
  let (minutes, s) ← twoDigits? (s.dropWhile fun c => c == ':' || Text.isBlank c)
  if hours ≤ 23 ∧ minutes ≤ 59 then some s else none

/-- An offset from universal time, with what follows it. -/
def offset? (s : List Char) : Option (List Char) :=
  if Text.sameIgnoringCase (s.take 3) "utc".toList then some (s.drop 3)
  else match s with
    | c :: rest =>
      if c = 'Z' ∨ c = 'z' then some rest
      else if c = '+' ∨ c = '-' ∨ c.toNat = 0x2212 then hourMinute? rest
      else none
    | [] => none

/-- Whether a text is a point in time. -/
def isWritten (s : List Char) : Bool :=
  let rest : Option (List Char) := do
    let s ← date? s
    match s with
    | c :: s =>
      if c = 'T' ∨ c = 't' ∨ c = ' ' then
        let s ← time? s
        offset? s
      else none
    | [] => none
  match rest with
  | some s => Text.isBlankText s
  | none => false

end RuleExchange.Instant
