import Mathlib.Algebra.GroupWithZero.Nat
import Mathlib.Data.Nat.Basic
import Mathlib.Order.Monotone.Defs
import RuleExchange.Engine.Basic
import RuleExchange.Engine.Remote
import RuleExchange.Proofs.Sequencing
import RuleExchange.Settings.Check

/-! Waiting times between calls. They are computed in words: the power and the product stop at the
largest word, and the limit of the policy comes last. Since the limit is a word itself, neither
stop shows, and the waiting times are the first one times a power of the factor, cut at the
limit. A policy that is accepted never waits less than at first, nor less than before, and an
engine whose settings are accepted uses no other policies. -/

namespace RuleExchange

/-! ### Accepted policies -/

namespace Settings

theorem check_eq_ok_iff {ok : Bool} {field reason : String} :
    check ok field reason = .ok () ↔ ok = true := by
  cases ok <;> simp [check]

theorem Retry.check_eq_ok_iff {path : String} {r : Retry} :
    r.check path = .ok () ↔ r.initialMs ≤ r.maxMs ∧ 0 < r.multiplier := by
  rw [Retry.check, check_then_eq_ok, positive, Settings.check_eq_ok_iff, Settings.check_eq_ok_iff,
    decide_eq_true_iff, decide_eq_true_iff]

theorem Platform.check_retry {name : String} {p : Platform} (h : p.check name = .ok ()) :
    p.retry.check ("platforms." ++ name) = .ok () := by
  rw [Platform.check, check_then_eq_ok, check_then_eq_ok, check_then_eq_ok] at h
  obtain ⟨-, -, -, h⟩ := h
  split at h <;> exact (check_then_eq_ok.mp h).2

theorem checkPlatforms_eq_ok_iff {ps : List (String × Platform)} :
    checkPlatforms ps = .ok () ↔ ∀ q ∈ ps, q.2.check q.1 = .ok () := by
  induction ps with
  | nil => exact ⟨nofun, fun _ => rfl⟩
  | cons q rest ih => rw [checkPlatforms, check_then_eq_ok, ih, List.forall_mem_cons]

theorem checkPlatforms_of_validate {s : Settings} (h : s.validate = .ok ()) :
    checkPlatforms s.platforms = .ok () := by
  rw [validate] at h
  simp only [check_then_eq_ok] at h
  exact h.2.2.2.2

end Settings

/-- The policies of an engine with accepted settings are accepted. -/
theorem Engine.Setup.check_retryPolicy {e : Engine.Setup} (h : e.settings.validate = .ok ())
    (target : Platform) : ∃ path, (e.retryPolicy target).check path = .ok () := by
  unfold Engine.Setup.retryPolicy
  split
  · rename_i p hp
    obtain ⟨⟨name, q⟩, hfind, rfl⟩ := Option.map_eq_some_iff.mp hp
    have hmem := List.mem_of_find?_eq_some hfind
    have hchecked := Settings.checkPlatforms_eq_ok_iff.mp (Settings.checkPlatforms_of_validate h)
    exact ⟨_, Settings.Platform.check_retry (hchecked _ hmem)⟩
  · exact ⟨"", rfl⟩

namespace Remote

/-! ### Words -/

theorem maxWord_eq : maxWord = 2 ^ 64 - 1 := rfl

theorem saturatingPow_eq (base e : Nat) : saturatingPow base e = min maxWord (base ^ e) := by
  have hword := maxWord_eq
  rw [saturatingPow]
  simp only [Nat.pow_eq]
  split
  · rename_i hbase
    have hpow : base ^ e ≤ 1 := by simpa using Nat.pow_le_pow_left hbase e
    omega
  · rename_i hbase
    split
    · rename_i hexp
      have hpow : 2 ^ 64 ≤ base ^ e := calc
        2 ^ 64 ≤ 2 ^ e := Nat.pow_le_pow_right (by decide) hexp
        _ ≤ base ^ e := Nat.pow_le_pow_left (by omega) e
      omega
    · rfl

/-- A factor that was cut at a greater limit before does as well as the factor itself. -/
theorem min_mul_min {limit word : Nat} (h : limit ≤ word) (a b : Nat) :
    min (a * min word b) limit = min (a * b) limit := by
  rcases Nat.le_total b word with hle | hge
  · rw [Nat.min_eq_right hle]
  · rw [Nat.min_eq_left hge]
    rcases Nat.eq_zero_or_pos a with rfl | hpos
    · simp
    · have hcut : word ≤ a * word := Nat.le_mul_of_pos_left word hpos
      have hgrown : a * word ≤ a * b := Nat.mul_le_mul_left a hge
      omega

variable {policy : Settings.Retry}

theorem backoff_eq (hword : policy.maxMs < 2 ^ 64) (retry : Nat) :
    backoff policy retry = min (policy.initialMs * policy.multiplier ^ retry) policy.maxMs := by
  have hlimit : policy.maxMs ≤ maxWord := by
    rw [maxWord_eq]
    omega
  have hproduct (n : Nat) : min (min maxWord n) policy.maxMs = min n policy.maxMs := by omega
  rw [backoff, saturatingPow_eq, hproduct, min_mul_min hlimit]

/-- The waiting times of an accepted policy are the first one times a power of the factor, cut at
the limit, and none of the words that hold the power and the product on the way is too small for
that. They grow from the first one up to the limit. -/
theorem backoff_is_capped_exponential {path : String} (hcheck : policy.check path = .ok ())
    (hword : policy.maxMs < 2 ^ 64) :
    (∀ retry, backoff policy retry =
      min (policy.initialMs * policy.multiplier ^ retry) policy.maxMs) ∧
    (∀ retry, policy.initialMs ≤ backoff policy retry ∧ backoff policy retry ≤ policy.maxMs) ∧
    Monotone (backoff policy) := by
  obtain ⟨hlimit, hfactor⟩ := Settings.Retry.check_eq_ok_iff.mp hcheck
  refine ⟨backoff_eq hword, fun retry => ?bounds, fun m n hmn => ?grows⟩
  case bounds =>
    have hgrown : policy.initialMs ≤ policy.initialMs * policy.multiplier ^ retry :=
      Nat.le_mul_of_pos_right _ (Nat.pow_pos hfactor)
    rw [backoff_eq hword]
    omega
  case grows =>
    have hgrown : policy.initialMs * policy.multiplier ^ m ≤
        policy.initialMs * policy.multiplier ^ n :=
      Nat.mul_le_mul_left _ (Nat.pow_le_pow_right hfactor hmn)
    rw [backoff_eq hword, backoff_eq hword]
    omega

/-- With the greatest limit and the greatest factor the second power stays a word, and three times
the second power does not. -/
def widest : Settings.Retry := { initialMs := 3, maxMs := 2 ^ 64 - 1, multiplier := 2 ^ 32 - 1 }

theorem widest_backs_off : widest.check "platforms.zeek" = .ok () ∧ widest.maxMs < 2 ^ 64 ∧
    backoff widest 1 = 3 * (2 ^ 32 - 1) ∧ backoff widest 2 = 2 ^ 64 - 1 ∧
    backoff widest 1 ≤ backoff widest 2 := by
  have hcheck : widest.check "platforms.zeek" = .ok () := rfl
  have hword : widest.maxMs < 2 ^ 64 := by decide
  obtain ⟨heq, -, hgrows⟩ := backoff_is_capped_exponential hcheck hword
  exact ⟨hcheck, hword, heq 1, heq 2, hgrows (by decide)⟩

end Remote

end RuleExchange
