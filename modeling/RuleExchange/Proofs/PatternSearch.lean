import RuleExchange.Regex.Pattern
import Mathlib.Data.List.Basic

/-! What a search for a regular expression finds. An expression matches a part of a text
between the character before the part and the text behind it, since its conditions look at
both. Partial derivatives follow this relation one character at a time, so the search finds
an expression exactly in the texts that have a part it matches. -/

namespace RuleExchange.Regex.Pattern

/-- The character before the place behind a part. -/
def endOf : Option Char → List Char → Option Char
  | before, [] => before
  | _, c :: cs => endOf (some c) cs

@[simp] theorem endOf_nil (before : Option Char) : endOf before [] = before := rfl

@[simp] theorem endOf_cons (before : Option Char) (c : Char) (m : List Char) :
    endOf before (c :: m) = endOf (some c) m := rfl

/-- The expression matches the part `m` that stands behind the character `before` and in front of
`rest`. Only the empty part repeats an expression without taking characters. -/
inductive Matches : Pattern → Option Char → List Char → List Char → Prop
  | empty {before rest} : Matches .empty before [] rest
  | chars {s c before rest} (h : s.has c = true) : Matches (.chars s) before [c] rest
  | look {l before rest} (h : l.holds before rest.head? = true) : Matches (.look l) before [] rest
  | seq {a b before m n rest} (ha : Matches a before m (n ++ rest))
      (hb : Matches b (endOf before m) n rest) : Matches (.seq a b) before (m ++ n) rest
  | left {a b before m rest} (h : Matches a before m rest) : Matches (.alt a b) before m rest
  | right {a b before m rest} (h : Matches b before m rest) : Matches (.alt a b) before m rest
  | stop {a before rest} : Matches (.star a) before [] rest
  | again {a before c m n rest} (ha : Matches a before (c :: m) (n ++ rest))
      (hs : Matches (.star a) (endOf (some c) m) n rest) :
      Matches (.star a) before (c :: (m ++ n)) rest

section Inversion

variable {a b : Pattern} {before : Option Char} {c : Char} {m rest : List Char}

@[simp] theorem matches_empty_iff : Matches .empty before m rest ↔ m = [] := by
  constructor
  · rintro ⟨⟩
    rfl
  · rintro rfl
    exact .empty

@[simp] theorem matches_chars_iff {s : CharSet} :
    Matches (.chars s) before m rest ↔ ∃ c, m = [c] ∧ s.has c = true := by
  constructor
  · rintro ⟨⟩
    exact ⟨_, rfl, ‹_›⟩
  · rintro ⟨c, rfl, h⟩
    exact .chars h

@[simp] theorem matches_look_iff {l : Look} :
    Matches (.look l) before m rest ↔ m = [] ∧ l.holds before rest.head? = true := by
  constructor
  · rintro ⟨⟩
    exact ⟨rfl, ‹_›⟩
  · rintro ⟨rfl, h⟩
    exact .look h

theorem matches_seq_iff :
    Matches (.seq a b) before m rest ↔
      ∃ m₁ m₂, m = m₁ ++ m₂ ∧ Matches a before m₁ (m₂ ++ rest) ∧
        Matches b (endOf before m₁) m₂ rest := by
  constructor
  · intro h
    cases h with
    | seq ha hb => exact ⟨_, _, rfl, ha, hb⟩
  · rintro ⟨m₁, m₂, rfl, ha, hb⟩
    exact .seq ha hb

theorem matches_alt_iff :
    Matches (.alt a b) before m rest ↔ Matches a before m rest ∨ Matches b before m rest := by
  constructor
  · intro h
    cases h with
    | left h => exact .inl h
    | right h => exact .inr h
  · rintro (h | h)
    · exact .left h
    · exact .right h

theorem matches_star_cons_iff :
    Matches (.star a) before (c :: m) rest ↔
      ∃ m₁ m₂, m = m₁ ++ m₂ ∧ Matches a before (c :: m₁) (m₂ ++ rest) ∧
        Matches (.star a) (endOf (some c) m₁) m₂ rest := by
  constructor
  · intro h
    cases h with
    | again ha hs => exact ⟨_, _, rfl, ha, hs⟩
  · rintro ⟨m₁, m₂, rfl, ha, hs⟩
    exact .again ha hs

theorem matches_andThen_iff :
    Matches (a.andThen b) before m rest ↔ Matches (.seq a b) before m rest := by
  cases a with
  | empty => simp [andThen, matches_seq_iff]
  | _ => rfl

end Inversion

/-! ### Steps of the search -/

theorem nullable_iff (p : Pattern) (before : Option Char) (rest : List Char) :
    p.nullable before rest.head? = true ↔ Matches p before [] rest := by
  induction p with
  | empty => simp [nullable]
  | chars s => simp [nullable]
  | look l => simp [nullable]
  | seq a b iha ihb => simp [nullable, matches_seq_iff, iha, ihb]
  | alt a b iha ihb => simp [nullable, matches_alt_iff, iha, ihb]
  | star a _ => simp [nullable, Matches.stop]

/-- What is left after a character matches a part if the expression matches it with the character in
front. -/
theorem exists_mem_derive_iff (p : Pattern) (before : Option Char) (c : Char) (m rest : List Char) :
    (∃ q ∈ p.derive before c, Matches q (some c) m rest) ↔ Matches p before (c :: m) rest := by
  induction p generalizing m rest with
  | empty => simp [derive]
  | chars s =>
    by_cases hc : s.has c = true <;> simp [derive, hc]
  | look l => simp [derive]
  | seq a b iha ihb =>
    -- the first expression takes the character, or nothing at all
    have hfirst : (∃ q ∈ (a.derive before c).map (·.andThen b), Matches q (some c) m rest) ↔
        ∃ m₁ m₂, m = m₁ ++ m₂ ∧ Matches a before (c :: m₁) (m₂ ++ rest) ∧
          Matches b (endOf (some c) m₁) m₂ rest := by
      simp only [List.mem_map, exists_exists_and_eq_and, matches_andThen_iff, matches_seq_iff,
        ← iha]
      tauto
    have hsecond : (∃ q ∈ (if a.nullable before (some c) then b.derive before c else []),
        Matches q (some c) m rest) ↔
        Matches a before [] (c :: m ++ rest) ∧ Matches b before (c :: m) rest := by
      rw [← nullable_iff, ← ihb]
      by_cases ha : a.nullable before (some c) = true <;> simp [ha]
    simp only [derive, List.mem_append, or_and_right, exists_or, hfirst, hsecond, matches_seq_iff]
    constructor
    · rintro (⟨m₁, m₂, rfl, ha, hb⟩ | ⟨ha, hb⟩)
      · exact ⟨c :: m₁, m₂, rfl, ha, hb⟩
      · exact ⟨[], c :: m, rfl, ha, hb⟩
    · rintro ⟨m₁, m₂, hm, ha, hb⟩
      cases m₁ with
      | nil =>
        cases hm
        exact .inr ⟨ha, hb⟩
      | cons x m₁ =>
        cases hm
        exact .inl ⟨m₁, m₂, rfl, ha, hb⟩
  | alt a b iha ihb =>
    simp only [derive, List.mem_append, or_and_right, exists_or, iha, ihb, matches_alt_iff]
  | star a iha =>
    simp only [derive, List.mem_map, exists_exists_and_eq_and, matches_andThen_iff,
      matches_seq_iff, matches_star_cons_iff, ← iha]
    tauto

theorem searchFrom_cons (p : Pattern) (before : Option Char) (begun : List Pattern) (c : Char)
    (cs : List Char) :
    p.searchFrom before begun (c :: cs) =
      ((p :: begun).any (·.nullable before (some c)) ||
        p.searchFrom (some c) ((p :: begun).flatMap (·.derive before c)).eraseDups cs) := by
  rw [searchFrom]
  cases (p :: begun).any (·.nullable before (some c)) <;> rfl

/-- The search succeeds when an expression already begun matches from here on, or the expression
itself from some later place on. -/
theorem searchFrom_iff (p : Pattern) (before : Option Char) (begun : List Pattern) (s : List Char) :
    p.searchFrom before begun s = true ↔
      (∃ q ∈ begun, ∃ m rest, s = m ++ rest ∧ Matches q before m rest) ∨
        ∃ pre m rest, s = pre ++ (m ++ rest) ∧ Matches p (endOf before pre) m rest := by
  induction s generalizing before begun with
  | nil =>
    have hnull (q : Pattern) : q.nullable before none = true ↔ Matches q before [] [] :=
      nullable_iff q before []
    simp [searchFrom, hnull, or_comm]
  | cons c cs ih =>
    have hnull (q : Pattern) : q.nullable before (some c) = true ↔ Matches q before [] (c :: cs) :=
      nullable_iff q before (c :: cs)
    -- a match from here on is empty or takes the character
    have hhere (q : Pattern) : (∃ m rest, c :: cs = m ++ rest ∧ Matches q before m rest) ↔
        Matches q before [] (c :: cs) ∨
          ∃ q' ∈ q.derive before c, ∃ m rest, cs = m ++ rest ∧ Matches q' (some c) m rest := by
      constructor
      · rintro ⟨m, rest, hm, hq⟩
        cases m with
        | nil => exact .inl (hm ▸ hq)
        | cons x m =>
          cases hm
          obtain ⟨q', hmem, hq'⟩ := (exists_mem_derive_iff q before c m rest).mpr hq
          exact .inr ⟨q', hmem, m, rest, rfl, hq'⟩
      · rintro (hq | ⟨q', hmem, m, rest, rfl, hq'⟩)
        · exact ⟨[], c :: cs, rfl, hq⟩
        · exact ⟨c :: m, rest, rfl, (exists_mem_derive_iff q before c m rest).mp ⟨q', hmem, hq'⟩⟩
    have hplaces : (∃ pre m rest, c :: cs = pre ++ (m ++ rest) ∧
        Matches p (endOf before pre) m rest) ↔
        (∃ m rest, c :: cs = m ++ rest ∧ Matches p before m rest) ∨
          ∃ pre m rest, cs = pre ++ (m ++ rest) ∧ Matches p (endOf (some c) pre) m rest := by
      constructor
      · rintro ⟨pre, m, rest, hs, hp⟩
        cases pre with
        | nil => exact .inl ⟨m, rest, hs, hp⟩
        | cons x pre =>
          cases hs
          exact .inr ⟨pre, m, rest, rfl, hp⟩
      · rintro (⟨m, rest, hs, hp⟩ | ⟨pre, m, rest, rfl, hp⟩)
        · exact ⟨[], m, rest, hs, hp⟩
        · exact ⟨c :: pre, m, rest, rfl, hp⟩
    have hbegun : (∃ q' ∈ ((p :: begun).flatMap (·.derive before c)).eraseDups,
        ∃ m rest, cs = m ++ rest ∧ Matches q' (some c) m rest) ↔
        ∃ q ∈ p :: begun, ∃ q' ∈ q.derive before c,
          ∃ m rest, cs = m ++ rest ∧ Matches q' (some c) m rest := by
      simp only [List.mem_eraseDups, List.mem_flatMap]
      exact ⟨fun ⟨q', ⟨q, hq, hmem⟩, h⟩ => ⟨q, hq, q', hmem, h⟩,
        fun ⟨q, hq, q', hmem, h⟩ => ⟨q', ⟨q, hq, hmem⟩, h⟩⟩
    have hstates : ((∃ q ∈ p :: begun, Matches q before [] (c :: cs)) ∨
        ∃ q ∈ p :: begun, ∃ q' ∈ q.derive before c,
          ∃ m rest, cs = m ++ rest ∧ Matches q' (some c) m rest) ↔
        ∃ q ∈ p :: begun, ∃ m rest, c :: cs = m ++ rest ∧ Matches q before m rest := by
      simp only [hhere, and_or_left, exists_or]
    rw [searchFrom_cons, Bool.or_eq_true, List.any_eq_true, ih, hbegun]
    simp only [hnull]
    rw [← or_assoc, hstates, List.exists_mem_cons_iff, hplaces, or_assoc, or_left_comm]

theorem endOf_eq_or (before : Option Char) (m : List Char) :
    endOf before m = m.getLast?.or before := by
  induction m generalizing before with
  | nil => simp
  | cons c m ih => simp [ih, List.getLast?_cons]

/-- The search finds an expression exactly in the texts with a part that it matches. -/
theorem occursIn_iff_matches (p : Pattern) (s : List Char) :
    p.occursIn s = true ↔
      ∃ pre m rest, s = pre ++ m ++ rest ∧ Matches p pre.getLast? m rest := by
  simp [occursIn, searchFrom_iff, endOf_eq_or]

/-! ### Words and runs -/

/-- An expression followed by the characters of a word, as it is read from its written form. -/
def spelled (p : Pattern) (w : List Char) : Pattern :=
  w.foldl (fun q c => q.andThen (.chars (.single c))) p

/-- One of several words. -/
def oneOf : List String → Pattern
  | [] => .empty
  | [w] => spelled .empty w.toList
  | w :: ws => .alt (spelled .empty w.toList) (oneOf ws)

/-- Any number of characters of a set. -/
def run (s : CharSet) : Pattern := .star (.chars s)

/-- At least one character of a set. -/
def run₁ (s : CharSet) : Pattern := .seq (.chars s) (run s)

section Combinators

variable {p : Pattern} {s : CharSet} {before : Option Char} {m rest : List Char}

theorem has_single {c x : Char} : (CharSet.single c).has x = true ↔ x = c := by
  simp only [CharSet.single, CharSet.has, Bool.and_eq_true, decide_eq_true_eq]
  constructor
  · rintro ⟨hlo, hhi⟩
    exact Char.le_antisymm hhi hlo
  · rintro rfl
    exact ⟨Char.le_refl _, Char.le_refl _⟩

theorem matches_single_iff {c : Char} : Matches (.chars (.single c)) before m rest ↔ m = [c] := by
  simp [has_single]

theorem matches_spelled_iff {w : List Char} :
    Matches (p.spelled w) before m rest ↔
      ∃ m₀, m = m₀ ++ w ∧ Matches p before m₀ (w ++ rest) := by
  induction w generalizing p with
  | nil => simp [spelled]
  | cons c w ih =>
    have hstep : p.spelled (c :: w) = (p.andThen (.chars (.single c))).spelled w := rfl
    rw [hstep, ih]
    simp only [matches_andThen_iff, matches_seq_iff, matches_single_iff]
    constructor
    · rintro ⟨_, rfl, m₀, _, rfl, hp, rfl⟩
      exact ⟨m₀, by simp, by simpa using hp⟩
    · rintro ⟨m₀, rfl, hp⟩
      exact ⟨m₀ ++ [c], by simp, m₀, [c], rfl, by simpa using hp, rfl⟩

theorem matches_oneOf_iff {ws : List String} (hws : ws ≠ []) :
    Matches (oneOf ws) before m rest ↔ ∃ w ∈ ws, m = w.toList := by
  induction ws with
  | nil => exact absurd rfl hws
  | cons w ws ih =>
    have hfirst : Matches (spelled .empty w.toList) before m rest ↔ m = w.toList := by
      simp [matches_spelled_iff]
    cases ws with
    | nil => simp [oneOf, hfirst]
    | cons w' ws =>
      have hor : oneOf (w :: w' :: ws) = .alt (spelled .empty w.toList) (oneOf (w' :: ws)) := rfl
      rw [hor, matches_alt_iff, hfirst, ih (by simp), List.exists_mem_cons_iff _ w]

theorem matches_run_iff : Matches (run s) before m rest ↔ ∀ c ∈ m, s.has c = true := by
  induction m generalizing before with
  | nil => simp [run, Matches.stop]
  | cons c m ih =>
    rw [run, matches_star_cons_iff, List.forall_mem_cons]
    constructor
    · rintro ⟨m₁, m₂, rfl, ha, hs⟩
      obtain ⟨x, hx, hset⟩ := matches_chars_iff.mp ha
      cases hx
      exact ⟨hset, ih.mp hs⟩
    · rintro ⟨hc, hm⟩
      exact ⟨[], m, rfl, .chars hc, ih.mpr hm⟩

theorem matches_run₁_iff :
    Matches (run₁ s) before m rest ↔ m ≠ [] ∧ ∀ c ∈ m, s.has c = true := by
  simp only [run₁, matches_seq_iff, matches_chars_iff, matches_run_iff]
  constructor
  · rintro ⟨_, m₂, rfl, ⟨c, rfl, hc⟩, hm⟩
    exact ⟨by simp, List.forall_mem_cons.mpr ⟨hc, hm⟩⟩
  · rintro ⟨hne, hall⟩
    obtain ⟨c, m, rfl⟩ := List.exists_cons_of_ne_nil hne
    rw [List.forall_mem_cons] at hall
    exact ⟨[c], m, rfl, ⟨c, rfl, hall.1⟩, hall.2⟩

end Combinators

end RuleExchange.Regex.Pattern
