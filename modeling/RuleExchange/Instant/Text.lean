import RuleExchange.Text.Part

/-!
The written form of a point in time counted in seconds from the start of 1970: a date
and a time of day in universal time, with as many groups of three digits of a second
as are needed.
-/

namespace RuleExchange.Instant

/-- Year, month and day of a number of days after the start of 1970. The years are counted from
March on, so that the day that only some years have comes last. -/
def civil (days : Nat) : Nat × Nat × Nat :=
  let shifted := days + 719468
  let era := shifted / 146097
  let dayOfEra := shifted % 146097
  let yearOfEra := (dayOfEra + dayOfEra / 36524 - dayOfEra / 1460 - dayOfEra / 146096) / 365
  let dayOfYear := dayOfEra + yearOfEra / 100 - 365 * yearOfEra - yearOfEra / 4
  let shiftedMonth := (5 * dayOfYear + 2) / 153
  let day := dayOfYear + 1 - (153 * shiftedMonth + 2) / 5
  let month := if shiftedMonth < 10 then shiftedMonth + 3 else shiftedMonth - 9
  let year := yearOfEra + 400 * era
  (if month ≤ 2 then year + 1 else year, month, day)

def padded (width n : Nat) : String :=
  let ds := Nat.toDigits 10 n
  String.ofList (List.replicate (width - ds.length) '0' ++ ds)

def fraction (nanos : Nat) : String :=
  if nanos = 0 then ""
  else if nanos % 1000000 = 0 then "." ++ padded 3 (nanos / 1000000)
  else if nanos % 1000 = 0 then "." ++ padded 6 (nanos / 1000)
  else "." ++ padded 9 nanos

def text (seconds nanos : Nat) : String :=
  let (year, month, day) := civil (seconds / 86400)
  let rest := seconds % 86400
  padded 4 year ++ "-" ++ padded 2 month ++ "-" ++ padded 2 day ++ "T" ++
    padded 2 (rest / 3600) ++ ":" ++ padded 2 (rest / 60 % 60) ++ ":" ++ padded 2 (rest % 60) ++
    fraction nanos ++ "Z"

example : text 951782400 0 = "2000-02-29T00:00:00Z" := by decide +kernel

example : text 1735689599 5000000 = "2024-12-31T23:59:59.005Z" := by decide +kernel

end RuleExchange.Instant
