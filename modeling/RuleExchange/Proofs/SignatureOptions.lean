import RuleExchange.Proofs.SignatureConditions
import RuleExchange.Proofs.TextOccurrence

/-! The options of a signature that was written for a body, and their texts. The title comes
first, then what the conditions ask for, the references and a number. A quoted value is
its text with a backslash before some characters. -/

namespace RuleExchange.Signature

open Text (marked)

/-! ### Quoted values -/

/-- The characters with a backslash before them in the quoted value of a key. -/
def isGuarded (key : String) (c : Char) : Bool :=
  c == '"' || key != "pcre" && (c == '\\' || c == ';')

theorem guardChar_eq_marked (x : Char) (v : List Char) : guardChar x v = marked (· == x) v := by
  simp [guardChar, marked]

theorem isGuarded_quote (key : String) : isGuarded key '"' = true := rfl

theorem mem_of_isGuarded {key : String} {c : Char} (h : isGuarded key c = true) :
    c ∈ ['"', '\\', ';'] := by
  simp only [isGuarded, Bool.or_eq_true, Bool.and_eq_true, beq_iff_eq] at h
  simp only [List.mem_cons, List.not_mem_nil, or_false]
  tauto

theorem quoted_eq_marked {key : String} (h : key ≠ "pcre") (v : List Char) :
    guardChar ';' (Text.Quoted.escape '"' v) = marked (isGuarded key) v := by
  induction v with
  | nil => rfl
  | cons c cs ih =>
    have hc : isGuarded key c = true ↔ c = '\\' ∨ c = '"' ∨ c = ';' := by
      simp only [isGuarded, Bool.or_eq_true, Bool.and_eq_true, bne_iff_ne, beq_iff_eq, h, ne_eq,
        not_false_eq_true, true_and]
      tauto
    simp [quoted_cons, Text.marked_cons, ih, hc]

theorem valueText_eq_marked {key : String} (h : key ∈ quotedKeys) (v : List Char) :
    valueText key v = '"' :: (marked (isGuarded key) v ++ ['"']) := by
  by_cases hpcre : key = "pcre"
  · subst hpcre
    simp [valueText, guardChar, marked, isGuarded]
  · rw [valueText_of_quoted h hpcre, quoted_eq_marked hpcre, List.cons_append]

theorem text_quoted {key : String} (h : key ∈ quotedKeys) (v : String) (negated : Bool) :
    RuleOption.text ⟨key, some v, negated⟩ =
      key.toList ++ ':' :: (if negated then ['!'] else []) ++
        '"' :: (marked (isGuarded key) v.toList ++ ['"', ';']) := by
  simp [RuleOption.text, valueText_eq_marked h]

/-! ### Expressions for a text -/

theorem escapeRegex_eq_marked (v : List Char) : escapeRegex v = marked metaChars.contains v := rfl

theorem guardChar_escapeRegex (v : List Char) :
    guardChar '/' (escapeRegex v) = marked (fun c => metaChars.contains c || c == '/') v := by
  have hslash : '/' ∉ metaChars := by decide
  rw [escapeRegex_eq_marked]
  induction v with
  | nil => rfl
  | cons c cs ih =>
    rw [Text.marked_cons, Text.marked_cons, guardChar_append, ih]
    by_cases hc : c ∈ metaChars
    · have hne : c ≠ '/' := fun he => hslash (he ▸ hc)
      simp [hc, guardChar, hne]
    · by_cases hs : c = '/'
      · simp [hs, hslash, guardChar]
      · simp [hc, guardChar, hs]

/-! ### The options of a body -/

theorem exists_addFastPattern (o : RuleOption) (os : List RuleOption) :
    ∃ os', addFastPattern (o :: os) = o :: os' ∧ ∀ x ∈ os', x = .flag "fast_pattern" ∨ x ∈ os := by
  rw [addFastPattern]
  split
  · exact ⟨os, rfl, fun x hx => .inr hx⟩
  · rename_i i _ _
    refine ⟨os.take i ++ .flag "fast_pattern" :: os.drop i, rfl, fun x hx => ?_⟩
    rw [List.mem_append, List.mem_cons] at hx
    rcases hx with hx | rfl | hx
    · exact .inr (List.mem_of_mem_take hx)
    · exact .inl rfl
    · exact .inr (List.mem_of_mem_drop hx)

/-- The flags that a condition can ask for. -/
def flagKeys : List String := ["startswith", "endswith", "http_uri", "dns_query"]

/-- The options that a condition can ask for. -/
inductive Asked (c : Condition) : RuleOption → Prop
  | flag {key : String} (h : key ∈ flagKeys) : Asked c (.flag key)
  | content (negated : Bool) : Asked c ⟨"content", some c.value, negated⟩
  | start : Asked c (pcreOption ('^' :: escapeRegex c.value.toList))
  | stop : Asked c (pcreOption (escapeRegex c.value.toList ++ ['$']))
  | expression : Asked c (pcreOption c.value.toList)

theorem asked_of_mem {flavor : Flavor} {c : Condition} {o : RuleOption}
    (h : o ∈ optionsOf flavor c) : Asked c o := by
  have hflag : ∀ key ∈ flagKeys, Asked c (.flag key) := fun _ => .flag
  simp only [flagKeys, List.forall_mem_cons] at hflag
  have hcontents : ∀ o ∈ contentOptions flavor c, Asked c o := by
    unfold contentOptions
    repeat' split
    all_goals
      simp [RuleOption.pair, RuleOption.negatedPair, Asked.content, Asked.start, Asked.stop,
        Asked.expression, hflag]
  have hfield : ∀ o ∈ fieldOptions c.field, Asked c o := by
    unfold fieldOptions
    repeat' split
    all_goals simp [hflag]
  exact (List.mem_append.mp h).elim (hcontents o) (hfield o)

/-- References and numbers close a signature. -/
theorem closingOptions_cases {b : RuleBody} {flavor : Flavor} {o : RuleOption}
    (h : o ∈ closingOptions b flavor) :
    (∃ r ∈ b.references, o = .flag r.1 ∨ o = .pair r.1 r.2) ∨
      o = .pair "sid" (toString (localSid b)) ∨ o = .pair "rev" "1" := by
  rw [closingOptions, List.mem_append] at h
  rcases h with href | hnumber
  · obtain ⟨r, hr, rfl⟩ := List.mem_map.mp href
    refine .inl ⟨r, hr, ?_⟩
    simp only [referenceOption]
    split
    · exact .inl rfl
    · exact .inr rfl
  · right
    split at hnumber
    · rw [sidOptions, List.mem_cons] at hnumber
      refine hnumber.imp_right fun hrev => ?_
      split at hrev
      · cases hrev
      · exact List.mem_singleton.mp hrev
    · cases hnumber

/-- The title is the first option, those of the conditions follow, and references and a number close
the signature. -/
theorem exists_leading (b : RuleBody) (flavor : Flavor) (level : Nat) :
    ∃ os, (ofBody b flavor level).1.options =
        .pair "msg" (writtenTitle b) :: os ++ closingOptions b flavor ∧
      ∀ o ∈ os, o = .flag "fast_pattern" ∨ ∃ c ∈ b.conditions, o ∈ optionsOf flavor c := by
  let contents := ((b.conditions.filter fun c => !c.isMatchAll).filter fun c =>
    !isAddressed c).flatMap (optionsOf flavor)
  have hcontents : ∀ o ∈ contents, ∃ c ∈ b.conditions, o ∈ optionsOf flavor c := fun o ho =>
    let ⟨c, hmem, hc⟩ := List.mem_flatMap.mp ho
    ⟨c, List.mem_of_mem_filter (List.mem_of_mem_filter hmem), hc⟩
  rw [options_ofBody_eq]
  split
  · obtain ⟨ts, hts, hmem⟩ := exists_addFastPattern (.pair "msg" (writtenTitle b)) contents
    exact ⟨ts, congrArg (· ++ _) hts, fun o ho => (hmem o ho).imp_right (hcontents o)⟩
  · exact ⟨contents, rfl, fun o ho => .inr (hcontents o ho)⟩

theorem options_ofBody (b : RuleBody) (flavor : Flavor) (level : Nat) :
    ∃ os, (ofBody b flavor level).1.options = .pair "msg" (writtenTitle b) :: os ∧
      ∀ o ∈ os, o = .flag "fast_pattern" ∨ (∃ c ∈ b.conditions, o ∈ optionsOf flavor c) ∨
        o ∈ closingOptions b flavor := by
  obtain ⟨os, hos, hmem⟩ := exists_leading b flavor level
  refine ⟨os ++ closingOptions b flavor, hos, fun o ho => ?_⟩
  rcases List.mem_append.mp ho with ho | ho
  · exact (hmem o ho).imp_right .inl
  · exact .inr (.inr ho)

/-! ### The header of a body -/

theorem protocol_place (h : NetworkHeader) (c : Condition) : (place h c).protocol = h.protocol := by
  unfold place absorb setAddress
  repeat' split
  all_goals rfl

theorem protocol_foldl_place (cs : List Condition) (h : NetworkHeader) :
    (cs.foldl place h).protocol = h.protocol := by
  induction cs generalizing h with
  | nil => rfl
  | cons c cs ih => rw [List.foldl_cons, ih, protocol_place]

end RuleExchange.Signature
