import RuleExchange.Proofs.TextOccurrence

/-! Texts with all occurrences of a pattern replaced, from left to right. Where the pattern stands
its replacement comes, and every other character stays; with what may follow a replacement
known, the pattern is nowhere in the result, and no other pattern gets into it. -/

namespace RuleExchange.Text

variable {pat new s : List Char}

/-! ### One step of the replacement -/

theorem splitOnFrom_ne_nil (sep : List Char) (skip : Nat) (part s : List Char) :
    splitOnFrom sep skip part s ≠ [] := by
  induction s generalizing skip part with
  | nil => simp [splitOnFrom]
  | cons c cs ih =>
    cases skip with
    | succ skip => exact ih skip part
    | zero =>
      rw [splitOnFrom]
      split
      · simp
      · exact ih 0 (c :: part)

theorem joinWith_cons_of_ne_nil (sep part : List Char) {parts : List (List Char)}
    (h : parts ≠ []) : joinWith sep (part :: parts) = part ++ (sep ++ joinWith sep parts) := by
  obtain ⟨p, ps, rfl⟩ := List.exists_cons_of_ne_nil h
  exact joinWith_cons_cons sep part p ps

/-- The part that has been begun comes first. -/
theorem joinWith_splitOnFrom (pat new : List Char) (skip : Nat) (part s : List Char) :
    joinWith new (splitOnFrom pat skip part s) =
      part.reverse ++ joinWith new (splitOnFrom pat skip [] s) := by
  induction s generalizing skip part with
  | nil => simp [splitOnFrom, joinWith_singleton]
  | cons c cs ih =>
    cases skip with
    | succ skip => exact ih skip part
    | zero =>
      rw [splitOnFrom, splitOnFrom]
      split
      · have hne := splitOnFrom_ne_nil pat (pat.length - 1) [] cs
        rw [joinWith_cons_of_ne_nil _ _ hne, joinWith_cons_of_ne_nil _ _ hne]
        rfl
      · rw [ih 0 (c :: part), ih 0 [c]]
        simp

theorem splitOnFrom_skip (pat part passed rest : List Char) :
    splitOnFrom pat passed.length part (passed ++ rest) = splitOnFrom pat 0 part rest := by
  induction passed with
  | nil => rfl
  | cons c cs ih => simpa [splitOnFrom] using ih

theorem replaceText_nil (pat new : List Char) : replaceText pat new [] = [] := rfl

theorem replaceText_here (hpat : pat ≠ []) (new s : List Char) :
    replaceText pat new (pat ++ s) = new ++ replaceText pat new s := by
  obtain ⟨p, ps, rfl⟩ := List.exists_cons_of_ne_nil hpat
  have hcut : splitOnFrom (p :: ps) 0 [] (p :: ps ++ s) = [] :: splitOnFrom (p :: ps) 0 [] s := by
    have hprefix : (p :: ps).isPrefixOf (p :: (ps ++ s)) = true := by
      rw [List.isPrefixOf_iff_prefix, ← List.cons_append]
      exact List.prefix_append _ _
    rw [List.cons_append, splitOnFrom, hprefix, List.length_cons, Nat.add_sub_cancel,
      splitOnFrom_skip]
    rfl
  rw [replaceText, splitOnText, hcut, joinWith_cons_of_ne_nil _ _ (splitOnFrom_ne_nil _ _ _ _)]
  rfl

theorem replaceText_skip {c : Char} (h : ¬ pat <+: c :: s) (new : List Char) :
    replaceText pat new (c :: s) = c :: replaceText pat new s := by
  have hprefix : pat.isPrefixOf (c :: s) = false := by
    rw [Bool.eq_false_iff, Ne, List.isPrefixOf_iff_prefix]
    exact h
  rw [replaceText, splitOnText, splitOnFrom, hprefix, if_neg (by simp),
    joinWith_splitOnFrom]
  rfl

/-- A text is taken pattern by pattern, and elsewhere character by character. -/
theorem replaceText_induction {motive : List Char → Prop} (hpat : pat ≠ []) (nil : motive [])
    (here : ∀ s, motive s → motive (pat ++ s))
    (skip : ∀ c s, ¬ pat <+: c :: s → motive s → motive (c :: s)) (s : List Char) : motive s := by
  induction hn : s.length using Nat.strongRecOn generalizing s with
  | _ n ih =>
    cases s with
    | nil => exact nil
    | cons c s =>
      by_cases h : pat <+: c :: s
      · obtain ⟨rest, he⟩ := h
        have hlength := congrArg List.length he
        have hpos := List.length_pos_iff.mpr hpat
        rw [← he]
        refine here rest (ih rest.length ?_ rest rfl)
        rw [← hn, ← hlength, List.length_append]
        omega
      · exact skip c s h (ih s.length (by simp [← hn]) s rfl)

/-! ### What the result holds -/

theorem mem_replaceText (hpat : pat ≠ []) {c : Char} (h : c ∈ replaceText pat new s) :
    c ∈ s ∨ c ∈ new := by
  induction s using replaceText_induction hpat with
  | nil => exact .inl h
  | here s ih =>
    rw [replaceText_here hpat, List.mem_append] at h
    rcases h with h | h
    · exact .inr h
    · exact (ih h).imp_left fun hs => List.mem_append_right pat hs
  | skip d s hd ih =>
    rw [replaceText_skip hd, List.mem_cons] at h
    rcases h with rfl | h
    · exact .inl List.mem_cons_self
    · exact (ih h).imp_left (List.mem_cons_of_mem d)

/-- Text in which the pattern cannot begin is passed over. -/
theorem replaceText_append {p : Char} {ps a : List Char} (ha : p ∉ a) (new s : List Char) :
    replaceText (p :: ps) new (a ++ s) = a ++ replaceText (p :: ps) new s := by
  induction a with
  | nil => rfl
  | cons c a ih =>
    rw [List.mem_cons, not_or] at ha
    have hnot : ¬ p :: ps <+: c :: (a ++ s) := fun h => ha.1 (List.cons_prefix_cons.mp h).1
    rw [List.cons_append, replaceText_skip hnot, ih ha.2, List.cons_append]

section Patterns

variable {y : Char} {ys q : List Char} (hpat : pat ≠ [])

include hpat

/-- A start of the result that could not begin a replacement was there before. -/
theorem prefix_of_prefix_replaceText (hy : y ∉ q) (h : q <+: replaceText pat (y :: ys) s) :
    q <+: s := by
  induction s using replaceText_induction hpat generalizing q with
  | nil => exact h
  | here s ih =>
    rw [replaceText_here hpat] at h
    cases q with
    | nil => exact List.nil_prefix
    | cons x xs => exact absurd (List.cons_prefix_cons.mp h).1 fun he => hy (he ▸ List.mem_cons_self)
  | skip c s hc ih =>
    rw [replaceText_skip hc] at h
    cases q with
    | nil => exact List.nil_prefix
    | cons x xs =>
      rw [List.mem_cons, not_or] at hy
      obtain ⟨hx, hxs⟩ := List.cons_prefix_cons.mp h
      exact List.cons_prefix_cons.mpr ⟨hx, ih hy.2 hxs⟩

/-- A pattern that shares no character with the replacement gets nowhere into the result. -/
theorem infix_of_infix_replaceText (hq : ∀ c ∈ y :: ys, c ∉ q)
    (h : q <:+: replaceText pat (y :: ys) s) : q <:+: s := by
  induction s using replaceText_induction hpat with
  | nil => exact h
  | here s ih =>
    have hpass (t : List Char) : ∀ a, (∀ c ∈ a, c ∉ q) → q <:+: a ++ t → q <:+: t := by
      intro a ha hin
      induction a with
      | nil => exact hin
      | cons c a iha =>
        rw [List.forall_mem_cons] at ha
        rcases (infix_append_cons_iff (s := []) ha.1).mp hin with hnil | hin
        · rw [List.infix_nil.mp hnil]
          exact List.nil_infix
        · exact iha ha.2 hin
    rw [replaceText_here hpat] at h
    exact (ih (hpass _ _ hq h)).trans (List.suffix_append pat s).isInfix
  | skip c s hc ih =>
    rw [replaceText_skip hc] at h
    rcases List.infix_cons_iff.mp h with hfirst | hlater
    · rw [← replaceText_skip hc (y :: ys)] at hfirst
      exact (prefix_of_prefix_replaceText hpat (hq y List.mem_cons_self) hfirst).isInfix
    · exact List.infix_cons (ih hlater)

/-- Nothing of the pattern is left when it ends nowhere in a replacement or right behind one. -/
theorem not_infix_replaceText (hy : y ∉ pat.tail)
    (hnew : ∀ t, pat <:+: y :: ys ++ t → pat <:+: t) (s : List Char) :
    ¬ pat <:+: replaceText pat (y :: ys) s := by
  induction s using replaceText_induction hpat with
  | nil => simpa [replaceText_nil] using hpat
  | here s ih =>
    rw [replaceText_here hpat]
    exact fun h => ih (hnew _ h)
  | skip c s hc ih =>
    rw [replaceText_skip hc, List.infix_cons_iff, not_or]
    refine ⟨fun h => hc ?_, ih⟩
    obtain ⟨p, ps, rfl⟩ := List.exists_cons_of_ne_nil hpat
    obtain ⟨hp, hps⟩ := List.cons_prefix_cons.mp h
    exact List.cons_prefix_cons.mpr ⟨hp, prefix_of_prefix_replaceText hpat hy hps⟩

theorem replaceText_eq_nil_iff : replaceText pat (y :: ys) s = [] ↔ s = [] := by
  induction s using replaceText_induction hpat with
  | nil => exact Iff.rfl
  | here s => simp [replaceText_here hpat, hpat]
  | skip c s hc => simp [replaceText_skip hc]

/-- The result ends in a character of a replacement or as the text did. -/
theorem getLast?_replaceText {x : Char} (hnew : (y :: ys).getLast? ≠ some x)
    (h : (replaceText pat (y :: ys) s).getLast? = some x) : s.getLast? = some x := by
  induction s using replaceText_induction hpat with
  | nil => exact h
  | here s ih =>
    rw [replaceText_here hpat, List.getLast?_append] at h
    cases hlast : (replaceText pat (y :: ys) s).getLast? with
    | none => exact absurd (by simpa [hlast] using h) hnew
    | some z =>
      rw [List.getLast?_append, ih (by simpa [hlast] using h)]
      rfl
  | skip c s hc ih =>
    rw [replaceText_skip hc] at h
    by_cases hs : s = []
    · subst hs
      exact h
    · have hne : replaceText pat (y :: ys) s ≠ [] := (replaceText_eq_nil_iff hpat).not.mpr hs
      rw [← List.singleton_append, List.getLast?_append_of_ne_nil _ hne] at h
      rw [← List.singleton_append, List.getLast?_append_of_ne_nil _ hs]
      exact ih h

end Patterns

end RuleExchange.Text
