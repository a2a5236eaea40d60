import RuleExchange.Proofs.TextReading
import Mathlib.Data.List.Basic

/-! Where a pattern occurs in a text that is put together from parts. A character that is not
in the pattern keeps the occurrences before it and behind it apart, and a text in which
backslashes mark some characters has no occurrence that the text without them lacks. -/

namespace RuleExchange.Text

/-! ### Patterns and barriers -/

theorem after?_append (pat s : List Char) : after? pat (pat ++ s) = some s := by
  induction pat with
  | nil => cases s <;> rfl
  | cons p ps ih => simpa [after?] using ih

theorem after?_eq_none_iff {pat s : List Char} : after? pat s = none ↔ ¬ pat <+: s := by
  fun_induction after? pat s with
  | case1 s => simp
  | case2 p ps => simp
  | case3 ps c cs ih => simp [List.cons_prefix_cons, ih]
  | case4 p ps c cs hne => simp [List.cons_prefix_cons, hne]

theorem cut?_eq_none_iff {pat s : List Char} : cut? pat s = none ↔ ¬ pat <:+: s := by
  induction s with
  | nil => cases pat <;> simp [cut?]
  | cons c cs ih =>
    rw [cut?, List.infix_cons_iff, not_or, ← ih, ← after?_eq_none_iff]
    cases after? pat (c :: cs) <;> simp

theorem occursIn_eq_false_iff {pat s : List Char} : occursIn pat s = false ↔ ¬ pat <:+: s := by
  rw [occursIn, ← cut?_eq_none_iff, Option.isSome_eq_false_iff, Option.isNone_iff_eq_none]

variable {pat s t : List Char} {c : Char}

/-- What begins before an occurrence of the pattern ends before the last character of that
occurrence. -/
theorem prefix_append_dropLast_iff {rest : List Char} (hne : pat ≠ []) :
    pat <+: c :: (s ++ (pat ++ rest)) ↔ pat <+: c :: (s ++ pat.dropLast) := by
  have hstart : c :: (s ++ pat.dropLast) <+: c :: (s ++ (pat ++ rest)) :=
    List.cons_prefix_cons.mpr ⟨rfl, (List.prefix_append_right_inj s).mpr
      ((List.dropLast_prefix pat).trans (List.prefix_append pat rest))⟩
  refine ⟨fun h => List.prefix_of_prefix_length_le h hstart ?_, fun h => h.trans hstart⟩
  have hpos := List.length_pos_iff.mpr hne
  simp only [List.length_cons, List.length_append, List.length_dropLast]
  omega

/-- A pattern that begins nowhere earlier is where the text is cut. -/
theorem cut?_append (h : ¬ pat <:+: s ++ pat.dropLast) (rest : List Char) :
    cut? pat (s ++ (pat ++ rest)) = some (s, rest) := by
  have hne : pat ≠ [] := fun he => h (he ▸ List.nil_infix)
  induction s with
  | nil =>
    obtain ⟨p, ps, rfl⟩ := List.exists_cons_of_ne_nil hne
    have hafter := after?_append (p :: ps) rest
    rw [List.nil_append, List.cons_append, cut?, ← List.cons_append, hafter]
  | cons c s ih =>
    rw [List.cons_append, List.infix_cons_iff, not_or] at h
    have hhere : after? pat (c :: (s ++ (pat ++ rest))) = none :=
      after?_eq_none_iff.mpr fun hprefix => h.1 ((prefix_append_dropLast_iff hne).mp hprefix)
    rw [List.cons_append, cut?, hhere, ih h.2]
    rfl

theorem prefix_append_cons_iff (hc : c ∉ pat) : pat <+: s ++ c :: t ↔ pat <+: s := by
  refine ⟨fun h => ?_, List.prefix_append_of_prefix⟩
  induction s generalizing pat with
  | nil =>
    rcases List.prefix_cons_iff.mp h with rfl | ⟨rest, rfl, -⟩
    · exact List.nil_prefix
    · simp at hc
  | cons d ds ih =>
    rcases List.prefix_cons_iff.mp h with rfl | ⟨rest, rfl, hrest⟩
    · exact List.nil_prefix
    · rw [List.mem_cons, not_or] at hc
      exact List.cons_prefix_cons.mpr ⟨rfl, ih hc.2 hrest⟩

theorem infix_append_cons_iff (hc : c ∉ pat) :
    pat <:+: s ++ c :: t ↔ pat <:+: s ∨ pat <:+: t := by
  induction s with
  | nil =>
    have hfirst := prefix_append_cons_iff (s := []) (t := t) hc
    rw [List.nil_append] at hfirst ⊢
    rw [List.infix_cons_iff, hfirst, List.prefix_nil, List.infix_nil]
  | cons d ds ih =>
    have hfirst := prefix_append_cons_iff (s := d :: ds) (t := t) hc
    rw [List.cons_append] at hfirst ⊢
    rw [List.infix_cons_iff, hfirst, ih, List.infix_cons_iff, or_assoc]

/-- A character that does not end the pattern adds no occurrence at the end. -/
theorem infix_of_infix_concat (hc : pat.getLast? ≠ some c) (h : pat <:+: s ++ [c]) :
    pat <:+: s := by
  rcases List.infix_concat_iff.mp h with hend | hin
  · rcases List.eq_nil_or_concat pat with rfl | ⟨init, last, rfl⟩
    · exact List.nil_infix
    · rw [List.concat_eq_append] at hc hend
      obtain ⟨before, hbefore⟩ := hend
      rw [← List.append_assoc] at hbefore
      have hlast := (List.append_inj' hbefore rfl).2
      simp_all
  · exact hin

/-! ### Marked characters -/

/-- Writes a backslash before each character of a kind. -/
def marked (p : Char → Bool) (s : List Char) : List Char :=
  s.flatMap fun c => if p c then ['\\', c] else [c]

theorem marked_cons (p : Char → Bool) (c : Char) (s : List Char) :
    marked p (c :: s) = (if p c then ['\\', c] else [c]) ++ marked p s := by
  simp [marked]

theorem mem_marked {p : Char → Bool} (h : c ∈ marked p s) : c = '\\' ∨ c ∈ s := by
  obtain ⟨x, hx, hc⟩ := List.mem_flatMap.mp h
  split at hc
  · simp only [List.mem_cons, List.not_mem_nil, or_false] at hc
    rcases hc with hb | rfl
    · exact .inl hb
    · exact .inr hx
  · exact .inr (List.mem_singleton.mp hc ▸ hx)

theorem escape_eq_marked (q : Char) (s : List Char) :
    Quoted.escape q s = marked (fun c => c = '\\' ∨ c = q) s := by
  induction s with
  | nil => rfl
  | cons c cs ih =>
    rw [Quoted.escape, marked_cons, ih]
    by_cases hc : c = '\\' ∨ c = q <;> simp [hc]

theorem prefix_of_prefix_marked {p : Char → Bool} (hb : '\\' ∉ pat) (h : pat <+: marked p s) :
    pat <+: s := by
  induction s generalizing pat with
  | nil => exact h
  | cons c cs ih =>
    rw [marked_cons] at h
    cases pat with
    | nil => exact List.nil_prefix
    | cons x xs =>
      rw [List.mem_cons, not_or] at hb
      split at h
      · exact absurd (List.cons_prefix_cons.mp h).1.symm hb.1
      · obtain ⟨hx, hxs⟩ := List.cons_prefix_cons.mp h
        exact List.cons_prefix_cons.mpr ⟨hx, ih hb.2 hxs⟩

/-- Marks bring no occurrence of a pattern without backslashes. -/
theorem infix_of_infix_marked {p : Char → Bool} (hb : '\\' ∉ pat) (h : pat <:+: marked p s) :
    pat <:+: s := by
  induction s with
  | nil => exact h
  | cons c cs ih =>
    -- the occurrence starts at the character itself, or behind it
    have hhere : pat <:+: c :: marked p cs := by
      rw [marked_cons] at h
      split at h
      · rcases (infix_append_cons_iff (s := []) hb).mp h with hnil | hin
        · rw [List.infix_nil.mp hnil]
          exact List.nil_infix
        · exact hin
      · exact h
    rcases List.infix_cons_iff.mp hhere with hfirst | hlater
    · cases pat with
      | nil => exact List.nil_infix
      | cons x xs =>
        rw [List.mem_cons, not_or] at hb
        rw [List.cons_prefix_cons] at hfirst
        have hrest := prefix_of_prefix_marked hb.2 hfirst.2
        exact (List.cons_prefix_cons.mpr ⟨hfirst.1, hrest⟩).isInfix
    · exact List.infix_cons (ih hlater)

theorem marked_eq_self {p : Char → Bool} (h : ∀ c ∈ s, p c = false) : marked p s = s := by
  induction s with
  | nil => rfl
  | cons c cs ih =>
    rw [List.forall_mem_cons] at h
    simp [marked_cons, h.1, ih h.2]

/-- Marks break no occurrence of a pattern of which no character is marked. -/
theorem infix_marked {p : Char → Bool} (hp : ∀ c ∈ pat, p c = false) (h : pat <:+: s) :
    pat <:+: marked p s := by
  obtain ⟨before, after, rfl⟩ := h
  have hsplit : marked p (before ++ pat ++ after) =
      marked p before ++ marked p pat ++ marked p after := by
    simp only [marked, List.flatMap_append]
  rw [hsplit, marked_eq_self hp]
  exact List.infix_append _ _ _

/-- A marked character never stands right behind another one. -/
theorem not_infix_marked {p : Char → Bool} {x y : Char} (hx : x ≠ '\\') (hy : y ≠ '\\')
    (hp : p y = true) (s : List Char) : ¬ [x, y] <:+: marked p s := by
  have hhead (s : List Char) : (marked p s).head? ≠ some y := by
    cases s with
    | nil => simp [marked]
    | cons c cs =>
      rw [marked_cons]
      by_cases hc : p c = true
      · simpa [hc] using Ne.symm hy
      · have hne : c ≠ y := fun he => hc (he ▸ hp)
        simpa [hc] using hne
  have hstart (c : Char) (s : List Char) : ¬ [x, y] <+: c :: marked p s := by
    intro h
    obtain ⟨rest, hrest⟩ := (List.cons_prefix_cons.mp h).2
    exact hhead s (by rw [← hrest]; rfl)
  induction s with
  | nil => simp [marked]
  | cons c cs ih =>
    rw [marked_cons]
    split
    · rw [List.cons_append, List.singleton_append, List.infix_cons_iff, List.infix_cons_iff]
      rintro (h | h | h)
      · exact hx (List.cons_prefix_cons.mp h).1
      · exact hstart c cs h
      · exact ih h
    · rw [List.singleton_append, List.infix_cons_iff]
      rintro (h | h)
      · exact hstart c cs h
      · exact ih h

theorem unescape_marked {p : Char → Bool} (hb : p '\\' = true) (s : List Char) :
    Quoted.unescape (marked p s) = s := by
  induction s with
  | nil => rfl
  | cons c cs ih =>
    rw [marked_cons]
    by_cases hc : p c = true
    · simp [hc, Quoted.unescape, ih]
    · have hne : c ≠ '\\' := fun he => hc (he ▸ hb)
      have hstep : Quoted.unescape (c :: marked p cs) = c :: Quoted.unescape (marked p cs) := by
        rw [Quoted.unescape] <;> simp [hne]
      simp [hc, hstep, ih]

theorem Quoted.unescape_escape (q : Char) (v : List Char) :
    Quoted.unescape (Quoted.escape q v) = v := by
  rw [escape_eq_marked]
  exact unescape_marked (by simp) v

theorem infix_flatMap {α : Type} {x : α} {xs : List α} (h : x ∈ xs) (f : α → List Char) :
    f x <:+: xs.flatMap f :=
  List.infix_of_mem_flatten (List.mem_map_of_mem h)

theorem infix_joinWith {sep part : List Char} {parts : List (List Char)} (h : part ∈ parts) :
    part <:+: joinWith sep parts := by
  obtain ⟨first, rest, rfl⟩ := List.exists_cons_of_ne_nil (List.ne_nil_of_mem h)
  rw [joinWith_cons]
  rcases List.mem_cons.mp h with rfl | hrest
  · exact (List.prefix_append _ _).isInfix
  · exact (List.suffix_append sep part).isInfix.trans
      ((infix_flatMap hrest (sep ++ ·)).trans (List.suffix_append _ _).isInfix)

/-! ### Splitting -/

section SplitWhere

variable {p : Char → Bool} {x : Char}

theorem splitWhere_of_forall_not (h : ∀ c ∈ s, p c = false) (hx : p x = true)
    (rest : List Char) : splitWhere p (s ++ x :: rest) = s :: splitWhere p rest := by
  induction s with
  | nil => simp [splitWhere, hx]
  | cons c cs ih =>
    rw [List.forall_mem_cons] at h
    simp [splitWhere, h.1, ih h.2]

theorem splitWhere_eq_singleton_of_forall_not (h : ∀ c ∈ s, p c = false) :
    splitWhere p s = [s] := by
  induction s with
  | nil => rfl
  | cons c cs ih =>
    rw [List.forall_mem_cons] at h
    simp [splitWhere, h.1, ih h.2]

theorem forall_beq_eq_false (h : x ∉ s) : ∀ c ∈ s, (c == x) = false :=
  fun _ hc => beq_false_of_ne fun he => h (he ▸ hc)

theorem splitWhere_of_notMem (h : x ∉ s) (rest : List Char) :
    splitWhere (· == x) (s ++ x :: rest) = s :: splitWhere (· == x) rest :=
  splitWhere_of_forall_not (forall_beq_eq_false h) (beq_self_eq_true x) rest

theorem splitWhere_eq_singleton (h : x ∉ s) : splitWhere (· == x) s = [s] :=
  splitWhere_eq_singleton_of_forall_not (forall_beq_eq_false h)

end SplitWhere

theorem splitWhere_joinWith {x : Char} {parts : List (List Char)} (hne : parts ≠ [])
    (h : ∀ s ∈ parts, x ∉ s) : splitWhere (· == x) (joinWith [x] parts) = parts := by
  induction parts with
  | nil => exact absurd rfl hne
  | cons s parts ih =>
    have hs := h s (by simp)
    cases parts with
    | nil => rw [joinWith_singleton, splitWhere_eq_singleton hs]
    | cons t parts =>
      rw [joinWith_cons_cons, List.singleton_append, splitWhere_of_notMem hs,
        ih (by simp) fun u hu => h u (by simp [hu])]

/-! ### Cutting -/

/-- Text without quotes and without the separator is not cut when a character that is not in the
separator ends it. -/
theorem Quoted.uncut_of_not_infix {sep : List Char} (hsep : sep ≠ [])
    (hs : ∀ d ∈ s, isQuote d = false) (hin : ¬ sep <:+: s) (hq : isQuote c = false)
    (hc : c ∉ sep) : Uncut sep (s ++ [c]) := by
  induction s with
  | nil =>
    refine uncut_cons hq ?_ (uncut_nil sep)
    obtain ⟨x, xs, rfl⟩ := List.exists_cons_of_ne_nil hsep
    rw [List.mem_cons, not_or] at hc
    simpa [keepsFrom] using Ne.symm hc.1
  | cons d ds ih =>
    rw [List.forall_mem_cons] at hs
    rw [List.infix_cons_iff, not_or] at hin
    intro part rest
    have hstart : sep.isPrefixOf (d :: (ds ++ [c] ++ rest)) = false := by
      rw [Bool.eq_false_iff, Ne, List.isPrefixOf_iff_prefix, List.append_assoc,
        List.singleton_append, ← List.cons_append, prefix_append_cons_iff hc]
      exact hin.1
    rw [List.cons_append, List.cons_append, splitFrom, if_neg (by simp [hs.1]),
      if_neg (by rw [hstart]; decide), ih hs.2 hin.2]
    simp

end RuleExchange.Text
