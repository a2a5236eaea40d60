import Mathlib.Data.Nat.Find
import RuleExchange.Proofs.CallSteps
import RuleExchange.Proofs.TextReading

/-! What comes of consulting a validator. The first answer counts, however many attempts are
left; when every attempt fails, a notice names their number and the last error. Two numbers of
attempts therefore lead to the same warnings exactly when they are equal or the validator
answers within both, unless the validator itself sends such a notice. -/

namespace RuleExchange.Remote

/-! ### The notice -/

/-- Notices about different numbers of attempts differ. -/
theorem attempts_of_unavailable_eq {platform : String} {n m : Nat} {a b : String}
    (h : unavailable platform n a = unavailable platform m b) : n = m := by
  have htext := congrArg (fun w => w.message.toList) h
  simp only [unavailable, Warning.minor, String.toList_append, List.append_assoc,
    List.append_cancel_left_eq] at htext
  have htake := congrArg (List.takeWhile Char.isDigit) htext
  have hstop (s : List Char) : Text.Stops Char.isDigit (" attempt(s): ".toList ++ s) :=
    Text.stops_cons (by decide) _
  rw [Text.takeWhile_run (Text.isDigit_toString n) (hstop _),
    Text.takeWhile_run (Text.isDigit_toString m) (hstop _), Nat.toString_eq_repr,
    Nat.toString_eq_repr, Nat.toList_repr, Nat.toList_repr] at htake
  rw [← Nat.ofDigitChars_ten_toDigits (n := n), htake, Nat.ofDigitChars_ten_toDigits]

/-! ### A consultation in progress -/

theorem attemptsFor_pos (retryAttempts : Nat) : 0 < attemptsFor retryAttempts :=
  Nat.le_max_right _ _

section Outlook

variable {platform : String} {attempts : Nat} {policy : Settings.Retry}
  {replies : Nat → Except String (List Warning)} {made : Nat}

/-- The warnings that will come of a consultation when so many calls are over. -/
def outlook (platform : String) (attempts : Nat) (policy : Settings.Retry)
    (replies : Nat → Except String (List Warning)) (made : Nat) : List Warning :=
  (consultFrom platform attempts policy replies (attempts - 1 - made) made).warnings

theorem warnings_consult (platform : String) (retryAttempts : Nat) (policy : Settings.Retry)
    (replies : Nat → Except String (List Warning)) :
    (consult platform retryAttempts policy replies).warnings =
      outlook platform (attemptsFor retryAttempts) policy replies 0 := rfl

theorem outlook_of_done {ws : List Warning}
    (h : next platform attempts policy made (replies made) = .done ws) :
    outlook platform attempts policy replies made = ws := by
  unfold outlook
  cases attempts - 1 - made <;> simp [consultFrom, h]

theorem outlook_of_retry {pause : Nat}
    (h : next platform attempts policy made (replies made) = .retry pause) :
    outlook platform attempts policy replies made =
      outlook platform attempts policy replies (made + 1) := by
  have hleft := of_next_retry h
  have hmade : attempts - 1 - made = attempts - 1 - (made + 1) + 1 := by omega
  rw [outlook, hmade, consultFrom, h]
  rfl

/-- Failures do not change what will come of it. -/
theorem outlook_after_failures {j : Nat} (hj : j < attempts)
    (hfail : ∀ i < j, ∃ m, replies i = .error m) :
    outlook platform attempts policy replies 0 = outlook platform attempts policy replies j := by
  induction j with
  | zero => rfl
  | succ j ih =>
    obtain ⟨m, hm⟩ := hfail j (Nat.lt_succ_self j)
    rw [ih (by omega) fun i hi => hfail i (by omega)]
    exact outlook_of_retry (by rw [hm, next, if_pos hj])

theorem outlook_of_answer {k : Nat} {ws : List Warning} (hk : k < attempts)
    (hfail : ∀ i < k, ∃ m, replies i = .error m) (hok : replies k = .ok ws) :
    outlook platform attempts policy replies 0 = ws := by
  rw [outlook_after_failures hk hfail]
  exact outlook_of_done (by rw [hok, next])

theorem outlook_of_failures (platform : String) (policy : Settings.Retry) (hpos : 0 < attempts)
    (hfail : ∀ i < attempts, ∃ m, replies i = .error m) :
    ∃ m, outlook platform attempts policy replies 0 = [unavailable platform attempts m] := by
  obtain ⟨m, hm⟩ := hfail (attempts - 1) (by omega)
  refine ⟨m, ?_⟩
  rw [outlook_after_failures (j := attempts - 1) (by omega) fun i hi => hfail i (by omega)]
  exact outlook_of_done (by rw [hm, next, if_neg (by omega)])

end Outlook

/-! ### Two numbers of attempts -/

/-- The validator answers one of so many calls. -/
def AnswersWithin (replies : Nat → Except String (List Warning)) (attempts : Nat) : Prop :=
  ∃ k < attempts, ∃ ws, replies k = .ok ws

/-- Both numbers of attempts come to the same: they are equal or the validator answers within
both. -/
def Indifferent (replies : Nat → Except String (List Warning)) (n m : Nat) : Prop :=
  n = m ∨ AnswersWithin replies (min n m)

section Replies

variable {replies : Nat → Except String (List Warning)} {n m : Nat}

theorem failure_of_not_ok {i : Nat} (h : ¬ ∃ ws, replies i = .ok ws) :
    ∃ m, replies i = .error m := by
  cases hr : replies i with
  | error m => exact ⟨m, rfl⟩
  | ok ws => exact absurd ⟨ws, hr⟩ h

theorem first_answer (h : AnswersWithin replies n) :
    ∃ k < n, (∀ i < k, ∃ m, replies i = .error m) ∧ ∃ ws, replies k = .ok ws := by
  classical
  unfold AnswersWithin at h
  obtain ⟨hlt, hok⟩ := Nat.find_spec h
  refine ⟨Nat.find h, hlt, fun i hi => failure_of_not_ok fun hi' => ?_, hok⟩
  exact Nat.find_min h hi ⟨by omega, hi'⟩

theorem failures_of_not_answersWithin (h : ¬ AnswersWithin replies n) :
    ∀ i < n, ∃ m, replies i = .error m :=
  fun i hi => failure_of_not_ok fun hok => h ⟨i, hi, hok⟩

theorem outlook_congr (h : Indifferent replies n m) (platform : String)
    (policy : Settings.Retry) :
    outlook platform n policy replies 0 = outlook platform m policy replies 0 := by
  rcases h with rfl | h
  · rfl
  · obtain ⟨k, hk, hfail, ws, hok⟩ := first_answer h
    rw [outlook_of_answer (by omega) hfail hok, outlook_of_answer (by omega) hfail hok]

/-- The validator never sends the notice that says that it cannot be reached. -/
def Forthright (replies : Nat → Except String (List Warning)) : Prop :=
  ∀ k platform n m, replies k ≠ .ok [unavailable platform n m]

theorem outlook_ne_of_lt (hreal : Forthright replies) (hn : 0 < n) (hlt : n < m)
    (h : ¬ AnswersWithin replies n) (platform : String) (policy : Settings.Retry) :
    outlook platform n policy replies 0 ≠ outlook platform m policy replies 0 := by
  obtain ⟨a, ha⟩ := outlook_of_failures platform policy hn
    (failures_of_not_answersWithin h)
  rw [ha]
  by_cases hm : AnswersWithin replies m
  · obtain ⟨k, hk, hfail, ws, hok⟩ := first_answer hm
    rw [outlook_of_answer hk hfail hok]
    rintro rfl
    exact hreal k platform n a hok
  · obtain ⟨b, hb⟩ := outlook_of_failures platform policy (by omega)
      (failures_of_not_answersWithin hm)
    rw [hb]
    intro heq
    have hsame := attempts_of_unavailable_eq (List.cons.inj heq).1
    omega

theorem indifferent_of_outlook_eq (hreal : Forthright replies) (hn : 0 < n) (hm : 0 < m)
    {platform : String} {policy : Settings.Retry}
    (h : outlook platform n policy replies 0 = outlook platform m policy replies 0) :
    Indifferent replies n m := by
  refine or_iff_not_imp_left.mpr fun hne => ?_
  by_contra hnone
  rcases Nat.lt_or_gt_of_ne hne with hlt | hgt
  · rw [Nat.min_eq_left hlt.le] at hnone
    exact outlook_ne_of_lt hreal hn hlt hnone platform policy h
  · rw [Nat.min_eq_right hgt.le] at hnone
    exact outlook_ne_of_lt hreal hm hgt hnone platform policy h.symm

end Replies

end RuleExchange.Remote
