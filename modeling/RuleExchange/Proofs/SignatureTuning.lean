import RuleExchange.Proofs.SignatureOptions

/-! Tuning a signature. From the second level on one option is marked as the fast pattern. The
mark is passed over when the signature is read, so that all levels say the same rule with the same
warnings. It stands directly behind the first of the longest plain contents among those that the
conditions ask for. The references are written later; one with the key of a content is a content of
the signature as well, and when it is longer, the mark does not stand behind the longest one. -/

namespace RuleExchange.Signature

/-! ### The longest content -/

/-- Of these options, `c` is the first of the longest plain contents, with `n` octets. -/
structure FirstLongest (before : List RuleOption) (c : RuleOption) (behind : List RuleOption)
    (n : Nat) : Prop where
  size : contentSize c = some n
  before_lt : ∀ o ∈ before, ∀ m ∈ contentSize o, m < n
  behind_le : ∀ o ∈ behind, ∀ m ∈ contentSize o, m ≤ n

theorem FirstLongest.le {before behind : List RuleOption} {c : RuleOption} {n : Nat}
    (h : FirstLongest before c behind n) {o : RuleOption} (ho : o ∈ before ++ c :: behind) {m : Nat}
    (hm : m ∈ contentSize o) : m ≤ n := by
  rcases List.mem_append.mp ho with ho | ho
  · exact Nat.le_of_lt (h.before_lt o ho m hm)
  · rcases List.mem_cons.mp ho with rfl | ho
    · rw [h.size, Option.mem_some_iff] at hm
      exact Nat.le_of_eq hm.symm
    · exact h.behind_le o ho m hm

theorem longestContent_cases (os : List RuleOption) :
    (longestContent os = none ∧ ∀ o ∈ os, contentSize o = none) ∨
      ∃ before c behind n, os = before ++ c :: behind ∧
        longestContent os = some (before.length, n) ∧ FirstLongest before c behind n := by
  induction os with
  | nil => exact .inl ⟨rfl, by simp⟩
  | cons o os ih =>
    cases ho : contentSize o with
    | none =>
      rcases ih with ⟨hl, hnone⟩ | ⟨before, c, behind, n, rfl, hl, hc⟩
      · exact .inl ⟨by simp [longestContent, ho, hl], by simpa [ho] using hnone⟩
      · exact .inr ⟨o :: before, c, behind, n, rfl, by simp [longestContent, ho, hl], hc.size,
          by simpa [ho] using hc.before_lt, hc.behind_le⟩
    | some m =>
      right
      rcases ih with ⟨hl, hnone⟩ | ⟨before, c, behind, n, rfl, hl, hc⟩
      · refine ⟨[], o, os, m, rfl, by simp [longestContent, ho, hl], ho, by simp, ?_⟩
        intro x hx k hk
        simp [hnone x hx] at hk
      · by_cases hmn : m < n
        · exact ⟨o :: before, c, behind, n, rfl, by simp [longestContent, ho, hl, hmn], hc.size,
            by simpa [ho, hmn] using hc.before_lt, hc.behind_le⟩
        · refine ⟨[], o, before ++ c :: behind, m, rfl, by simp [longestContent, ho, hl, hmn], ho,
            by simp, ?_⟩
          exact fun x hx k hk => Nat.le_trans (hc.le hx hk) (Nat.le_of_not_lt hmn)

/-- The mark stands directly behind the first of the longest contents, if there is a content. -/
theorem addFastPattern_cases (os : List RuleOption) :
    ((∀ o ∈ os, contentSize o = none) ∧ addFastPattern os = os) ∨
      ∃ before c behind n, os = before ++ c :: behind ∧
        addFastPattern os = before ++ c :: .flag "fast_pattern" :: behind ∧
        FirstLongest before c behind n := by
  rcases longestContent_cases os with ⟨hl, hnone⟩ | ⟨before, c, behind, n, rfl, hl, hc⟩
  · exact .inl ⟨hnone, by simp [addFastPattern, hl]⟩
  · have htake : (before ++ c :: behind).take (before.length + 1) = before ++ [c] := by
      rw [List.append_cons, List.take_left' (by simp)]
    exact .inr ⟨before, c, behind, n, rfl, by simp [addFastPattern, hl, htake], hc⟩

/-! ### The options of a level -/

theorem option?_msg_ofBody (b : RuleBody) (flavor : Flavor) (level : Nat) :
    (ofBody b flavor level).1.option? "msg" = some (writtenTitle b) := by
  obtain ⟨os, hos, -⟩ := options_ofBody b flavor level
  simp [option?, hos, RuleOption.pair]

/-- Reading a signature finds the same body at every level. -/
theorem toBody_ofBody_eq (b : RuleBody) (flavor : Flavor) (l₁ l₂ : Nat) :
    (ofBody b flavor l₁).1.toBody = (ofBody b flavor l₂).1.toBody := by
  have hheader : headerBody (ofBody b flavor l₁).1 = headerBody (ofBody b flavor l₂).1 := by
    simp only [headerBody, titleOf, option?_msg_ofBody]
    rfl
  rw [toBody, toBody, foldl_options_ofBody, foldl_options_ofBody, hheader]

/-! ### References with the key of a content -/

theorem contentSize_referenceOption (key value : String) :
    contentSize (referenceOption key value) =
      if key = "content" then some (Text.octets value.toList) else none := by
  by_cases hv : value = ""
  · subst hv
    simp [referenceOption, contentSize, RuleOption.flag]
  · simp [referenceOption, hv, contentSize, RuleOption.pair]

/-- Behind the options of the conditions, only references have the key of a content. -/
theorem contentSize_closingOptions {b : RuleBody} {flavor : Flavor} {m : Nat} :
    (∃ o ∈ closingOptions b flavor, contentSize o = some m) ↔
      ∃ v, ("content", v) ∈ b.references ∧ Text.octets v.toList = m := by
  constructor
  · rintro ⟨o, ho, hm⟩
    rw [closingOptions, List.mem_append] at ho
    rcases ho with ho | ho
    · obtain ⟨⟨key, v⟩, hmem, rfl⟩ := List.mem_map.mp ho
      rw [contentSize_referenceOption] at hm
      split at hm
      · rename_i hkey
        exact ⟨v, hkey ▸ hmem, Option.some.inj hm⟩
      · cases hm
    · have hnone : ∀ x ∈ sidOptions b, contentSize x = none := by
        rw [sidOptions]
        split <;> simp [contentSize, RuleOption.pair]
      split at ho
      · rw [hnone o ho] at hm
        cases hm
      · cases ho
  · rintro ⟨v, hv, rfl⟩
    refine ⟨referenceOption "content" v, ?_, by simp [contentSize_referenceOption]⟩
    exact List.mem_append_left _ (List.mem_map.mpr ⟨_, hv, rfl⟩)

/-- The first of the longest contents that the conditions ask for is the first of the longest ones
of the signature when no reference with the key of a content is longer. -/
theorem firstLongest_closing_iff {b : RuleBody} {flavor : Flavor} {before behind : List RuleOption}
    {c : RuleOption} {n : Nat} (h : FirstLongest before c behind n) :
    FirstLongest before c (behind ++ closingOptions b flavor) n ↔
      ∀ v, ("content", v) ∈ b.references → Text.octets v.toList ≤ n := by
  constructor
  · intro hall v hv
    obtain ⟨o, ho, hm⟩ := contentSize_closingOptions.mpr ⟨v, hv, rfl⟩
    exact hall.behind_le o (List.mem_append_right behind ho) _ hm
  · intro hrefs
    refine ⟨h.size, h.before_lt, fun o ho m hm => ?_⟩
    rcases List.mem_append.mp ho with ho | ho
    · exact h.behind_le o ho m hm
    · obtain ⟨v, hv, rfl⟩ := contentSize_closingOptions.mp ⟨o, ho, hm⟩
      exact hrefs v hv

/-! ### All levels say the same rule -/

theorem tuning_adds_only_mark (b : RuleBody) (flavor : Flavor) (l₁ l₂ : Nat) :
    let s₁ := (ofBody b flavor l₁).1
    let s₂ := (ofBody b flavor l₂).1
    s₁.toBody = s₂.toBody ∧ (ofBody b flavor l₁).2 = (ofBody b flavor l₂).2 ∧
      s₁.action = s₂.action ∧ s₁.header = s₂.header ∧
      ((2 ≤ l₁ ↔ 2 ≤ l₂) → s₁ = s₂) ∧
      (l₁ < 2 → 2 ≤ l₂ →
        ((∀ o ∈ askedOptions b flavor, contentSize o = none) ∧ s₂.options = s₁.options) ∨
        ∃ before c behind n, askedOptions b flavor = before ++ c :: behind ∧
          FirstLongest before c behind n ∧
          s₁.options = before ++ c :: (behind ++ closingOptions b flavor) ∧
          s₂.options = before ++ c :: .flag "fast_pattern" :: (behind ++ closingOptions b flavor) ∧
          (FirstLongest before c (behind ++ closingOptions b flavor) n ↔
            ∀ v, ("content", v) ∈ b.references → Text.octets v.toList ≤ n)) := by
  intro s₁ s₂
  refine ⟨toBody_ofBody_eq b flavor l₁ l₂, rfl, rfl, rfl, ?_, ?_⟩
  · intro h
    simp only [s₁, s₂, ofBody, h]
  · intro h₁ h₂
    have hlow : s₁.options = askedOptions b flavor ++ closingOptions b flavor := by
      rw [options_ofBody_eq, if_neg (Nat.not_le.mpr h₁)]
    have hhigh : s₂.options =
        addFastPattern (askedOptions b flavor) ++ closingOptions b flavor := by
      rw [options_ofBody_eq, if_pos h₂]
    rcases addFastPattern_cases (askedOptions b flavor) with
      ⟨hnone, htuned⟩ | ⟨before, c, behind, n, hasked, htuned, hc⟩
    · exact .inl ⟨hnone, by rw [hhigh, htuned, hlow]⟩
    · refine .inr ⟨before, c, behind, n, hasked, hc, ?_, ?_, firstLongest_closing_iff hc⟩
      · rw [hlow, hasked, List.append_assoc, List.cons_append]
      · rw [hhigh, htuned, List.append_assoc, List.cons_append, List.cons_append]

/-- Two contents of the same size, a longer negated one, and a reference that is a content. -/
def tunable : RuleBody :=
  { title := "t"
    conditions := [⟨Field.payload, .contains, "ab"⟩, ⟨Field.httpUri, .startsWith, "cd"⟩,
      ⟨Field.payload, .notEquals, "longer"⟩]
    references := [("content", "é"), ("sid", "7")] }

theorem tunable_levels_say_the_same :
    ((2 ≤ 2 ↔ 2 ≤ 3) ∧ (ofBody tunable .snort 2).1 = (ofBody tunable .snort 3).1) ∧
    (0 < 2 ∧ 2 ≤ 3 ∧ (ofBody tunable .suricata 0).1.toBody = (ofBody tunable .suricata 3).1.toBody ∧
      ∃ before c behind n,
        (ofBody tunable .suricata 0).1.options = before ++ c :: behind ∧
        (ofBody tunable .suricata 3).1.options = before ++ c :: .flag "fast_pattern" :: behind ∧
        FirstLongest before c behind n) := by
  obtain ⟨-, -, -, -, hsame, -⟩ := tuning_adds_only_mark tunable .snort 2 3
  obtain ⟨hbody, -, -, -, -, hmark⟩ := tuning_adds_only_mark tunable .suricata 0 3
  refine ⟨⟨by decide, hsame (by decide)⟩, by decide, by decide, hbody, ?_⟩
  rcases hmark (by decide) (by decide) with
    ⟨hnone, -⟩ | ⟨before, c, behind, n, hasked, hc, h₁, h₂, hall⟩
  · exact absurd hnone (by decide)
  · refine ⟨before, c, _, n, h₁, h₂, hall.mpr fun v hv => ?_⟩
    have hab : RuleOption.pair "content" "ab" ∈ askedOptions tunable .suricata := by decide
    have hn : 2 ≤ n := hc.le (hasked ▸ hab) (by decide)
    have hv : v = "é" := by simpa [tunable] using hv
    subst hv
    exact hn

/-- A reference that is a longer content: the mark stands behind a shorter one. -/
theorem longer_reference_is_not_marked :
    let b : RuleBody :=
      { title := "t"
        conditions := [⟨Field.payload, .contains, "ab"⟩]
        references := [("content", "longest")] }
    (ofBody b .generic 0).1.options =
        [.pair "msg" "t", .pair "content" "ab", .pair "content" "longest"] ∧
      (ofBody b .generic 2).1.options =
        [.pair "msg" "t", .pair "content" "ab", .flag "fast_pattern", .pair "content" "longest"] ∧
      ¬ ((ofBody b .generic 2).1.options = (ofBody b .generic 0).1.options ∨
        ∃ before c behind n,
          (ofBody b .generic 0).1.options = before ++ c :: behind ∧
          (ofBody b .generic 2).1.options = before ++ c :: .flag "fast_pattern" :: behind ∧
          FirstLongest before c behind n) := by
  intro b
  have hlow : (ofBody b .generic 0).1.options =
      [.pair "msg" "t", .pair "content" "ab", .pair "content" "longest"] := by decide
  have hhigh : (ofBody b .generic 2).1.options =
      [.pair "msg" "t", .pair "content" "ab", .flag "fast_pattern", .pair "content" "longest"] := by
    decide
  refine ⟨hlow, hhigh, ?_⟩
  rw [hlow, hhigh]
  rintro (hsame | ⟨before, c, behind, n, h₁, h₂, hc⟩)
  · exact absurd hsame (by decide)
  · rcases before with _ | ⟨x, _ | ⟨y, before⟩⟩
    · simp [RuleOption.pair, RuleOption.flag] at h₂
    · -- behind the first content there is a longer one
      simp only [List.cons_append, List.nil_append, List.cons.injEq] at h₁
      obtain ⟨-, rfl, rfl⟩ := h₁
      have hle := hc.behind_le (.pair "content" "longest") (by simp) 7 (by decide)
      have hsize : some 2 = some n := hc.size
      simp only [Option.some.injEq] at hsize
      omega
    · -- the mark does not stand behind the second one
      simp only [List.cons_append, List.cons.injEq] at h₂
      obtain ⟨-, -, h₂⟩ := h₂
      rcases before with _ | ⟨z, before⟩
      · simp [RuleOption.pair, RuleOption.flag] at h₂
      · have hlength := congrArg List.length h₂
        simp only [List.cons_append, List.length_cons, List.length_append,
          List.length_nil] at hlength
        omega

end RuleExchange.Signature
