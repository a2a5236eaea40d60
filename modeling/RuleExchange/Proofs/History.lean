import Mathlib.Algebra.GroupWithZero.Nat

/-! Histories of a machine. A machine takes one event after the other, and what is said of
every event of a history may speak of the state in which it came. A property that every
such event keeps holds at the end, and a fact that only such events bring about holds at the
end if one of them came. Machines of several parties keep them in a row. -/

namespace RuleExchange.History

variable {σ ε α : Type} {step : σ → ε → σ} {P Q : σ → ε → Prop}

/-- Every event of the history satisfies `P` in the state in which it comes. -/
def Along (step : σ → ε → σ) (P : σ → ε → Prop) : σ → List ε → Prop
  | _, [] => True
  | s, ev :: rest => P s ev ∧ Along step P (step s ev) rest

instance decidableAlong (step : σ → ε → σ) (P : σ → ε → Prop) [∀ s ev, Decidable (P s ev)] :
    ∀ s history, Decidable (Along step P s history)
  | _, [] => isTrue trivial
  | s, ev :: rest =>
    have := decidableAlong step P (step s ev) rest
    inferInstanceAs (Decidable (P s ev ∧ Along step P (step s ev) rest))

theorem along_of_forall (h : ∀ s ev, P s ev) (s : σ) (history : List ε) :
    Along step P s history := by
  induction history generalizing s with
  | nil => trivial
  | cons ev rest ih => exact ⟨h s ev, ih (step s ev)⟩

theorem along_append (s : σ) (before after : List ε) :
    Along step P s (before ++ after) ↔
      Along step P s before ∧ Along step P (before.foldl step s) after := by
  induction before generalizing s with
  | nil => simp [Along]
  | cons ev rest ih => simp [Along, ih, and_assoc]

/-- What every event keeps is kept by the whole history. -/
theorem foldl_invariant {I : σ → Prop} {s : σ} {history : List ε} (h0 : I s)
    (hstep : ∀ s ev, I s → P s ev → I (step s ev)) (h : Along step P s history) :
    I (history.foldl step s) := by
  induction history generalizing s with
  | nil => exact h0
  | cons ev rest ih => exact ih (hstep s ev h0 h.1) h.2

/-- An invariant may be used to show what is true of every event. -/
theorem along_of_invariant {I : σ → Prop} {s : σ} {history : List ε} (h0 : I s)
    (hstep : ∀ s ev, I s → P s ev → I (step s ev)) (hQ : ∀ s ev, I s → P s ev → Q s ev)
    (h : Along step P s history) : Along step Q s history := by
  induction history generalizing s with
  | nil => trivial
  | cons ev rest ih => exact ⟨hQ s ev h0 h.1, ih (hstep s ev h0 h.1) h.2⟩

/-- Some event of the history satisfies `P` in the state in which it comes. -/
def Happens (step : σ → ε → σ) (P : σ → ε → Prop) (s : σ) (history : List ε) : Prop :=
  ∃ before ev after, history = before ++ ev :: after ∧ P (before.foldl step s) ev

theorem happens_cons {s : σ} {ev : ε} {rest : List ε} :
    Happens step P s (ev :: rest) ↔ P s ev ∨ Happens step P (step s ev) rest := by
  constructor
  · rintro ⟨before, ev', after, heq, hP⟩
    cases before with
    | nil =>
      cases heq
      exact .inl hP
    | cons b before =>
      obtain ⟨rfl, rfl⟩ := List.cons.inj heq
      exact .inr ⟨before, ev', after, rfl, hP⟩
  · rintro (hP | ⟨before, ev', after, rfl, hP⟩)
    · exact ⟨[], ev, rest, rfl, hP⟩
    · exact ⟨ev :: before, ev', after, rfl, hP⟩

/-- A fact that just the events of one kind bring about, and none takes away. -/
theorem happens_iff {I F : σ → Prop} {s : σ} (h0 : I s) (hI : ∀ s ev, I s → I (step s ev))
    (hstep : ∀ s ev, I s → (F (step s ev) ↔ F s ∨ P s ev)) (history : List ε) :
    F (history.foldl step s) ↔ F s ∨ Happens step P s history := by
  induction history generalizing s with
  | nil => simp [Happens]
  | cons ev rest ih => rw [List.foldl_cons, ih (hI s ev h0), hstep s ev h0, happens_cons, or_assoc]

/-- What the events of a history show, one after the other. -/
def seen (step : σ → ε → σ) (shows : σ → ε → List α) : σ → List ε → List α
  | _, [] => []
  | s, ev :: rest => shows s ev ++ seen step shows (step s ev) rest

/-- What every event keeps of a state together with what was seen so far, the whole history
keeps. -/
theorem seen_invariant {shows : σ → ε → List α} {I : σ → List α → Prop} {s : σ} {before : List α}
    (h0 : I s before) (hstep : ∀ s ev before, I s before → I (step s ev) (before ++ shows s ev))
    (history : List ε) : I (history.foldl step s) (before ++ seen step shows s history) := by
  induction history generalizing s before with
  | nil => simpa [seen] using h0
  | cons ev rest ih =>
    rw [seen, ← List.append_assoc]
    exact ih (hstep s ev before h0)

/-! ### Parties in a row -/

theorem getElem?_set_of_some {l : List α} {i : Nat} {a : α} (h : l[i]? = some a) (b : α)
    (j : Nat) : (l.set i b)[j]? = if j = i then some b else l[j]? := by
  obtain ⟨hi, -⟩ := List.getElem?_eq_some_iff.mp h
  rw [List.getElem?_set]
  by_cases hj : j = i
  · simp [hj, hi]
  · simp [hj, Ne.symm hj]

theorem getElem?_concat_eq_some_iff {l : List α} {a b : α} {i : Nat} :
    (l ++ [a])[i]? = some b ↔ l[i]? = some b ∨ i = l.length ∧ a = b := by
  rcases Nat.lt_trichotomy i l.length with hi | rfl | hi
  · simp [List.getElem?_append_left hi, Nat.ne_of_lt hi]
  · simp
  · have hlong : (l ++ [a]).length ≤ i := by
      rw [List.length_append, List.length_singleton]
      exact hi
    rw [List.getElem?_eq_none hlong, List.getElem?_eq_none (Nat.le_of_lt hi)]
    simp [Nat.ne_of_gt hi]

theorem sum_map_set_lt {l : List α} {i : Nat} {a b : α} (f : α → Nat) (h : l[i]? = some a)
    (hlt : f b < f a) : ((l.set i b).map f).sum < (l.map f).sum := by
  induction l generalizing i with
  | nil => cases h
  | cons c rest ih =>
    cases i with
    | zero =>
      cases h
      simpa using hlt
    | succ i => simpa using ih h

end RuleExchange.History
