import RuleExchange.Quality.Warning
import RuleExchange.Settings.Basic

/-! Consulting a validator outside the engine. It is called again after a failure, with
waiting times that grow by a factor up to a limit. Its warnings are added to the
result; if it cannot be reached at all, one warning says so. -/

namespace RuleExchange

/-- What the validator does when it is called. -/
structure Reply where
  delayMs : Nat := 0
  answer : Except String (List Warning) := .ok []

namespace Remote

def maxWord : Nat := Nat.pow 2 64 - 1

/-- A power that stops at the largest word. -/
def saturatingPow (base exponent : Nat) : Nat :=
  if base ≤ 1 then Nat.pow base exponent
  else if 64 ≤ exponent then maxWord
  else min maxWord (Nat.pow base exponent)

/-- The waiting time before the given retry, counted from 0. -/
def backoff (policy : Settings.Retry) (retry : Nat) : Nat :=
  min (min maxWord (policy.initialMs * saturatingPow policy.multiplier retry)) policy.maxMs

/-- How often the validator is called at most. -/
def attemptsFor (retryAttempts : Nat) : Nat := max retryAttempts 1

def unavailable (platform : String) (attempts : Nat) (lastError : String) : Warning :=
  .minor "REMOTE_VALIDATION_UNAVAILABLE" ("remote validation for " ++ platform ++
    " failed after " ++ toString attempts ++ " attempt(s): " ++ lastError)

/-- What follows a reply. -/
inductive Next where
  | done (warnings : List Warning)
  /-- Wait so many milliseconds and call again. -/
  | retry (pauseMs : Nat)
  deriving DecidableEq, Repr

/-- What follows the reply to call number `made`, counted from 0. -/
def next (platform : String) (attempts : Nat) (policy : Settings.Retry) (made : Nat)
    (answer : Except String (List Warning)) : Next :=
  match answer with
  | .ok warnings => .done warnings
  | .error e =>
    if made + 1 < attempts then .retry (backoff policy made)
    else .done [unavailable platform attempts e]

/-- A whole consultation: how often the validator was called, the pauses between the calls, and
the warnings that came of it. -/
structure Consultation where
  calls : Nat
  pauses : List Nat
  warnings : List Warning
  deriving DecidableEq, Repr

/-- Calls the validator until it answers or no attempt is left; `left` counts the attempts after
the next one, and `replies` gives the answer to each call. -/
def consultFrom (platform : String) (attempts : Nat) (policy : Settings.Retry)
    (replies : Nat → Except String (List Warning)) : Nat → Nat → Consultation
  | 0, made =>
    match next platform attempts policy made (replies made) with
    | .done ws => ⟨made + 1, [], ws⟩
    | .retry _ => ⟨made + 1, [], []⟩
  | left + 1, made =>
    match next platform attempts policy made (replies made) with
    | .done ws => ⟨made + 1, [], ws⟩
    | .retry pause =>
      let c := consultFrom platform attempts policy replies left (made + 1)
      { c with pauses := pause :: c.pauses }

def consult (platform : String) (retryAttempts : Nat) (policy : Settings.Retry)
    (replies : Nat → Except String (List Warning)) : Consultation :=
  let attempts := attemptsFor retryAttempts
  consultFrom platform attempts policy replies (attempts - 1) 0

end Remote

end RuleExchange
