import RuleExchange.Digest

/-!
Made-up names for batch items that have none: thirty-two hexadecimal digits of the
digest of a seed and the place of the item, in five groups, the third of which begins
with 4 and the fourth with 8.
-/

namespace RuleExchange

def itemName (seed place : Nat) : String :=
  let text := toString seed ++ "/" ++ toString place
  let digits := (Digest.hex (Digest.sha256 (Digest.utf8 text))).toList
  let group (start count : Nat) : String := String.ofList ((digits.drop start).take count)
  "req-" ++ group 0 8 ++ "-" ++ group 8 4 ++ "-4" ++ group 12 3 ++ "-8" ++ group 15 3 ++ "-" ++
    group 18 12

end RuleExchange
