import Mathlib.Tactic.SplitIfs
import RuleExchange.Proofs.QueryRoundTrip

/-! Exact comparisons in a dialect with a word of its own for patterns. There an equality reads no
wildcards, so that a star in its value is a letter. The condition that is read from it has no place
for that difference: its star is the neutral wildcard, and an equality with a wildcard is written
as a pattern. An exact comparison therefore stays one exactly when its value has no star. Read
again, the pattern gives the same condition when the value is a star alone, or has a star between
other characters and no percent sign; otherwise the stars at the ends become operators, or the
percent signs become stars. -/

namespace RuleExchange

/-! ### Patterns written with another wildcard -/

namespace Condition

/-- A value without the wildcards at its ends. -/
def stripped (w : Char) (s : List Char) : List Char :=
  Text.dropEndWhile (· == w) (s.dropWhile (· == w))

theorem normalize_eq (w : Char) (raw : List Char) :
    normalize w raw =
      if raw.all (· == w) then (.equals, [wildcard])
      else if (stripped w raw).contains w then (.equals, swapChar w wildcard raw)
      else
        match raw.head? == some w, raw.getLast? == some w with
        | true, true => (.contains, stripped w raw)
        | true, false => (.endsWith, stripped w raw)
        | false, true => (.startsWith, stripped w raw)
        | false, false => (.equals, stripped w raw) := rfl

variable {a b : Char} {s : List Char}

theorem swapChar_cons (c : Char) :
    swapChar a b (c :: s) = (if c = a then b else c) :: swapChar a b s := rfl

theorem mem_swapChar (h : b ∉ s) : b ∈ swapChar a b s ↔ a ∈ s := by
  induction s with
  | nil => simp [swapChar]
  | cons c s ih =>
    rw [List.mem_cons, not_or] at h
    obtain ⟨hc, hs⟩ := h
    rw [swapChar_cons, List.mem_cons, List.mem_cons, ih hs]
    by_cases hca : c = a
    · simp [hca]
    · simp [hca, hc, Ne.symm hca]

theorem dropWhile_swapChar (h : b ∉ s) :
    (swapChar a b s).dropWhile (· == b) = swapChar a b (s.dropWhile (· == a)) := by
  induction s with
  | nil => rfl
  | cons c s ih =>
    rw [List.mem_cons, not_or] at h
    obtain ⟨hc, hs⟩ := h
    rw [swapChar_cons]
    by_cases hca : c = a
    · simp [hca, ih hs]
    · simp [hca, Ne.symm hc, swapChar_cons]

theorem stripped_swapChar (h : b ∉ s) :
    stripped b (swapChar a b s) = swapChar a b (stripped a s) := by
  have hrest : b ∉ (s.dropWhile (· == a)).reverse := fun hm =>
    h ((List.dropWhile_sublist _).subset (List.mem_reverse.mp hm))
  have hrev (t : List Char) : (swapChar a b t).reverse = swapChar a b t.reverse := by
    simp [swapChar]
  rw [stripped, Text.dropEndWhile, dropWhile_swapChar h, hrev, dropWhile_swapChar hrest, hrev]
  rfl

theorem stripped_sublist (w : Char) (s : List Char) : (stripped w s).Sublist s := by
  rw [stripped, Text.dropEndWhile, ← List.reverse_sublist, List.reverse_reverse]
  exact (List.dropWhile_sublist _).trans (List.reverse_sublist.mpr (List.dropWhile_sublist _))

theorem stripped_of_all {w : Char} (h : s.all (· == w) = true) : stripped w s = [] := by
  have hnil : s.dropWhile (· == w) = [] :=
    List.dropWhile_eq_nil_iff.mpr fun c hc => List.all_eq_true.mp h c hc
  rw [stripped, hnil]
  rfl

theorem stripped_of_ends {w : Char} (hhead : s.head? ≠ some w) (hlast : s.getLast? ≠ some w) :
    stripped w s = s := by
  have hstart : s.dropWhile (· == w) = s := Text.dropWhile_of_stops (Text.stops_eq_iff.mpr hhead)
  have hend : s.reverse.dropWhile (· == w) = s.reverse :=
    Text.dropWhile_of_stops (Text.stops_eq_iff.mpr (by rwa [List.head?_reverse]))
  rw [stripped, hstart, Text.dropEndWhile, hend, List.reverse_reverse]

theorem swapChar_swapChar_eq_iff (hab : a ≠ b) : swapChar b a (swapChar a b s) = s ↔ b ∉ s := by
  induction s with
  | nil => simp [swapChar]
  | cons c s ih =>
    rw [swapChar_cons, swapChar_cons, List.cons.injEq, ih, List.mem_cons, not_or]
    by_cases hca : c = a
    · simp [hca, hab.symm]
    · by_cases hcb : c = b
      · simp [hcb, hab, hab.symm]
      · simp [hca, hcb, Ne.symm hcb]

/-- A value with a wildcard that is written as a pattern over another one is read back as an
equality with the same value when it is the wildcard alone, or when it holds a wildcard between
other characters and the other wildcard nowhere. -/
theorem normalize_swapChar_eq_iff (hb : wildcard ≠ b) (hs : wildcard ∈ s) :
    normalize b (swapChar wildcard b s) = (.equals, s) ↔
      s = [wildcard] ∨ (b ∉ s ∧ wildcard ∈ stripped wildcard s) := by
  have hinside (h : b ∉ s) :
      b ∈ stripped b (swapChar wildcard b s) ↔ wildcard ∈ stripped wildcard s := by
    rw [stripped_swapChar h,
      mem_swapChar fun hm => h ((stripped_sublist wildcard s).subset hm)]
  rw [normalize_eq]
  split_ifs with hall hinner
  · -- wildcards only: they become a single one
    have hout (h : b ∉ s) : wildcard ∉ stripped wildcard s := by
      rw [← hinside h, stripped_of_all hall]
      simp
    simp only [Prod.mk.injEq, true_and]
    exact ⟨fun h => .inl h.symm, fun h => h.elim Eq.symm fun ⟨hn, hm⟩ => absurd hm (hout hn)⟩
  · have hne : s ≠ [wildcard] := by
      rintro rfl
      simp [swapChar] at hall
    rw [List.contains_iff_mem] at hinner
    simp only [Prod.mk.injEq, true_and, swapChar_swapChar_eq_iff hb, hne, false_or]
    exact ⟨fun h => ⟨h, (hinside h).mp hinner⟩, And.left⟩
  · have hne : s ≠ [wildcard] := by
      rintro rfl
      simp [swapChar] at hall
    rw [List.contains_iff_mem] at hinner
    have hout : ¬ (b ∉ s ∧ wildcard ∈ stripped wildcard s) := fun ⟨hn, hm⟩ =>
      hinner ((hinside hn).mpr hm)
    simp only [hne, hout, or_self, iff_false]
    -- without a wildcard at an end, the pattern would have to be free of wildcards
    split
    · simp
    · simp
    · simp
    · rename_i hhead hlast
      rw [beq_eq_false_iff_ne] at hhead hlast
      rw [stripped_of_ends hhead hlast] at hinner
      have hmem : b ∈ swapChar wildcard b s := List.mem_map.mpr ⟨wildcard, hs, if_pos rfl⟩
      exact absurd hmem hinner

theorem ofPattern_eq_iff {field raw value : String} {w : Char} {op : Operator} :
    ofPattern field raw w = ⟨field, op, value⟩ ↔ normalize w raw.toList = (op, value.toList) := by
  have hvalue : String.ofList (normalize w raw.toList).2 = value ↔
      (normalize w raw.toList).2 = value.toList := by
    rw [← String.toList_inj, String.toList_ofList]
  simp only [ofPattern, Condition.mk.injEq, true_and, hvalue, Prod.ext_iff]

end Condition

namespace Query

/-! ### Terms written again -/

/-- The condition that an exact comparison is read as when it is written again. -/
def reread (c : Condition) : Condition :=
  if wildcard ∈ c.value.toList then .ofPattern c.field (c.toPattern '%') '%' else c

/-- An exact comparison with this value is read as the same condition when it is written again. -/
def isKept (v : List Char) : Bool :=
  !v.contains wildcard || v == [wildcard] ||
    !v.contains '%' && (Condition.stripped wildcard v).contains wildcard

theorem reread_eq_self_iff {c : Condition} (ho : c.operator = .equals) :
    reread c = c ↔ isKept c.value.toList = true := by
  by_cases hs : wildcard ∈ c.value.toList
  · have hpattern : (c.toPattern '%').toList =
        Condition.swapChar wildcard '%' c.value.toList := by simp [Condition.toPattern, ho]
    rw [reread, if_pos hs]
    obtain ⟨field, op, value⟩ := c
    cases ho
    rw [Condition.ofPattern_eq_iff, hpattern,
      Condition.normalize_swapChar_eq_iff (by decide) hs]
    simp [isKept, hs]
  · simp [reread, isKept, hs]

/-- Of the two ways to write an equality, the pattern is taken when there is a wildcard. -/
theorem term_equals {c : Condition} (ho : c.operator = .equals) :
    term .qradar c =
      if wildcard ∈ c.value.toList then
        wordTerm .qradar (Dialect.qradar.fields.platformOrKeep c.field) "ILIKE" (c.toPattern '%')
      else signTerm .qradar (Dialect.qradar.fields.platformOrKeep c.field) "=" c.value := by
  have hwild : (c.hasInnerWildcard || c.isMatchAll) = true ↔ wildcard ∈ c.value.toList := by
    refine ⟨contains_wildcard ho, fun hs => ?_⟩
    cases hall : c.isMatchAll <;> simp [Condition.hasInnerWildcard, ho, hs, hall]
  have hlike : Dialect.qradar.like = some "ILIKE" := rfl
  have hpercent : Dialect.qradar.wildcard = '%' := rfl
  simp only [term, ho, hlike, hpercent, hwild]

theorem isTerm_reread {c : Condition} (ho : c.operator = .equals) (hf : c.field ∈ Field.all) :
    IsTerm .qradar (term .qradar c) (reread c) := by
  rw [term_equals ho, reread]
  split
  · have hword : isOperatorWord .equals "ILIKE".toList = true := by decide
    have h := isTerm_word readable_qradar hf hword (c.toPattern '%')
    simpa [keywordCondition] using h
  · refine isTerm_sign readable_qradar hf (.inl rfl) ?_
    rw [comparison_equals, ← ho]
    rfl

/-! ### Whole queries -/

/-- A comparison of a field with a value as it stands. -/
def exactTerm (p : String × String) : List Char :=
  (FieldMap.qradar.platformOrKeep p.1).toList ++ " = ".toList ++
    Text.Quoted.enclose '\'' p.2.toList

/-- The query that compares each field with its value. -/
def exactQuery (pairs : List (String × String)) : List Char :=
  "SELECT * FROM events WHERE ".toList ++ Text.joinWith " AND ".toList (pairs.map exactTerm)

def exactCondition (p : String × String) : Condition := ⟨p.1, .equals, p.2⟩

theorem exactTerm_eq (p : String × String) :
    exactTerm p = signTerm .qradar (Dialect.qradar.fields.platformOrKeep p.1) "=" p.2 := by
  simp [exactTerm, signTerm, quoted, Dialect.qradar]

theorem isTerm_exactTerm {p : String × String} (hf : p.1 ∈ Field.all) :
    IsTerm .qradar (exactTerm p) (exactCondition p) := by
  rw [exactTerm_eq]
  refine isTerm_sign readable_qradar hf (.inl rfl) ?_
  rw [comparison_equals]
  rfl

/-- The pattern's word and the sign differ in their first letter, whatever follows. -/
theorem term_ne_exactTerm {p : String × String} (hs : wildcard ∈ p.2.toList) (s t : List Char) :
    term .qradar (exactCondition p) ++ s ≠ exactTerm p ++ t := by
  rw [exactTerm_eq, term_equals rfl]
  simp [exactCondition, hs, wordTerm, signTerm, Dialect.qradar]

/-- Terms that are the same or tell themselves apart from the start tell their texts apart. -/
theorem eq_of_joinWith_eq {α : Type} {sep : List Char} {f g : α → List Char} {xs : List α}
    (h : ∀ x ∈ xs, f x = g x ∨ ∀ s t, f x ++ s ≠ g x ++ t)
    (heq : Text.joinWith sep (xs.map f) = Text.joinWith sep (xs.map g)) :
    ∀ x ∈ xs, f x = g x := by
  induction xs with
  | nil => simp
  | cons x rest ih =>
    rw [List.forall_mem_cons] at h
    simp only [List.map_cons, Text.joinWith_cons] at heq
    have hx : f x = g x := h.1.resolve_right fun hne => hne _ _ heq
    rw [hx, List.append_cancel_left_eq] at heq
    refine List.forall_mem_cons.mpr ⟨hx, ih h.2 ?_⟩
    cases rest with
    | nil => rfl
    | cons y ys => simpa [Text.joinWith_cons] using heq

/-- Terms joined to a query are read as their conditions. -/
theorem parse_joined {α : Type} {text : α → List Char} {read : α → Condition} {xs : List α}
    (hne : xs ≠ []) (h : ∀ x ∈ xs, IsTerm .qradar (text x) (read x)) :
    parse .qradar (Dialect.qradar.lead.toList ++
        Text.joinWith Dialect.qradar.conjunction.toList (xs.map text)) =
      .ok { conditions := xs.map read } := by
  have hfilter := isFilter_joined readable_qradar dropLead_select h
  have hfield : ∀ c ∈ ([] : List Condition), c.field ∈ Field.all := nofun
  have hcmd : ∀ c ∈ ([] : List Condition), isCommand .qradar c = true := nofun
  simpa using parse_of_filter readable_qradar (by simpa using hne) hfilter hfield hcmd

/-- Without commands and stages a query is its terms. -/
theorem render_terms {b : RuleBody} (hne : b.conditions ≠ []) (hstages : b.stages = []) :
    render .qradar b = .ok (Dialect.qradar.lead.toList ++
      Text.joinWith Dialect.qradar.conjunction.toList (b.conditions.map (term .qradar))) := by
  have hcmd (c : Condition) : isCommand .qradar c = false := by
    cases ho : c.operator <;> simp [isCommand, ho, Dialect.qradar]
  have hterms : b.conditions.filter (fun c => !isCommand .qradar c) = b.conditions := by
    simp [hcmd]
  have hcommands : b.conditions.filter (isCommand .qradar) = [] := by simp [hcmd]
  simp [render, hne, hstages, hterms, hcommands, filterText]

/-- For fields with neutral names and any values, the query that compares each of them exactly is
read as these comparisons. Written again, it is the same query exactly when no value has a
wildcard: every other comparison becomes one with a pattern. Read once more, it gives the same
conditions exactly when each value has no wildcard, is a wildcard alone, or has a wildcard between
other characters and no percent sign. -/
theorem exact_comparisons_kept_iff {pairs : List (String × String)} (hne : pairs ≠ [])
    (hf : ∀ p ∈ pairs, p.1 ∈ Field.all) :
    ∃ b text b', parse .qradar (exactQuery pairs) = .ok b ∧
      b.conditions = pairs.map exactCondition ∧
      render .qradar b = .ok text ∧ parse .qradar text = .ok b' ∧
      b'.conditions = pairs.map (fun p => reread (exactCondition p)) ∧
      (b'.conditions = b.conditions ↔ ∀ p ∈ pairs, isKept p.2.toList = true) ∧
      (text = exactQuery pairs ↔ ∀ p ∈ pairs, wildcard ∉ p.2.toList) := by
  have hquery : exactQuery pairs = Dialect.qradar.lead.toList ++
      Text.joinWith Dialect.qradar.conjunction.toList (pairs.map exactTerm) := rfl
  have hread : parse .qradar (exactQuery pairs) = .ok { conditions := pairs.map exactCondition } :=
    parse_joined hne fun p hp => isTerm_exactTerm (hf p hp)
  have hagain : parse .qradar (Dialect.qradar.lead.toList ++ Text.joinWith
        Dialect.qradar.conjunction.toList (pairs.map fun p => term .qradar (exactCondition p))) =
      .ok { conditions := pairs.map fun p => reread (exactCondition p) } :=
    parse_joined hne fun p hp => isTerm_reread rfl (hf p hp)
  have hwritten : render .qradar { conditions := pairs.map exactCondition } =
      .ok (Dialect.qradar.lead.toList ++ Text.joinWith Dialect.qradar.conjunction.toList
        (pairs.map fun p => term .qradar (exactCondition p))) := by
    rw [render_terms (by simpa using hne) rfl, List.map_map]
    rfl
  have hterm (p : String × String) : term .qradar (exactCondition p) = exactTerm p ↔
      wildcard ∉ p.2.toList := by
    refine ⟨fun heq hs => term_ne_exactTerm hs [] [] (congrArg (· ++ []) heq), fun hs => ?_⟩
    rw [exactTerm_eq, term_equals rfl]
    exact if_neg hs
  refine ⟨_, _, _, hread, rfl, hwritten, hagain, rfl, ?_, ?_⟩
  · rw [List.map_inj_left]
    exact forall₂_congr fun p _ => reread_eq_self_iff rfl
  · rw [← forall₂_congr fun p _ => hterm p, hquery, List.append_cancel_left_eq]
    constructor
    · intro heq
      refine eq_of_joinWith_eq (fun p _ => ?_) heq
      by_cases hs : wildcard ∈ p.2.toList
      · exact .inr (term_ne_exactTerm hs)
      · exact .inl ((hterm p).mpr hs)
    · intro heq
      rw [List.map_congr_left heq]

/-- A star between other characters is written as a pattern that is read as the same condition, and
a percent sign alone is a letter. -/
theorem star_inside_is_kept :
    let pairs := [(Field.payload, "a*b'|\\"), (Field.user, "50%")]
    ∃ b text b', parse .qradar (exactQuery pairs) = .ok b ∧ render .qradar b = .ok text ∧
      text ≠ exactQuery pairs ∧ parse .qradar text = .ok b' ∧ b'.conditions = b.conditions := by
  intro pairs
  obtain ⟨b, text, b', hread, -, hwritten, hagain, -, hkept, hsame⟩ :=
    @exact_comparisons_kept_iff pairs (by decide) (by decide)
  refine ⟨b, text, b', hread, hwritten, fun h => ?_, hagain, hkept.mpr (by decide)⟩
  exact hsame.mp h (Field.payload, "a*b'|\\") (by decide) (by decide)

/-- A file of which the name is given exactly, with a star in front, becomes every file with such
an end. -/
theorem exact_name_becomes_pattern :
    (parse .qradar "SELECT * FROM events WHERE filename = '*evil'".toList).toOption =
      some { conditions := [⟨Field.filePath, .equals, "*evil"⟩] } ∧
    (render .qradar { conditions := [⟨Field.filePath, .equals, "*evil"⟩] }).toOption =
      some "SELECT * FROM events WHERE filename ILIKE '%evil'".toList ∧
    (parse .qradar "SELECT * FROM events WHERE filename ILIKE '%evil'".toList).toOption =
      some { conditions := [⟨Field.filePath, .endsWith, "evil"⟩] } := by
  decide +kernel

end Query

end RuleExchange
