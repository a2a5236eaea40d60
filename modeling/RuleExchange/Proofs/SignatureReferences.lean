import RuleExchange.Proofs.Sequencing
import RuleExchange.Proofs.SignatureOptions

/-! References among the options of a signature. They are written as options behind those of the
conditions, and the reader tells them apart by their keys only: a reference under the key of a
content comes back as a condition. What the title and the conditions have become is read back
first, whatever follows; so a signature gives back those conditions of the body that it keeps, and
one more for each option that looks for something in the text of the references. -/

namespace RuleExchange.Signature

open Text (Stops isBlank marked)

/-! ### Reading shortens the text -/

section Reading

variable {key : String} {s rest : List Char} {o : RuleOption} {os : List RuleOption}

theorem length_rawUntil_le (stop : Char) (escaped : Bool) (s : List Char) :
    (rawUntil stop escaped s).2.length ≤ s.length := by
  fun_induction rawUntil stop escaped s with
  | case1 => simp
  | case2 c cs raw rest heq ih =>
    rw [heq] at ih
    exact Nat.le_succ_of_le ih
  | case3 => simp
  | case4 c cs hc raw rest heq ih =>
    rw [heq] at ih
    exact Nat.le_succ_of_le ih

theorem length_readQuotedValue_le {value : List Char}
    (h : readQuotedValue key s = .ok (value, rest)) : rest.length ≤ s.length := by
  have hraw := length_rawUntil_le '"' false s
  unfold readQuotedValue at h
  split at h
  · cases h
  · rename_i raw q after heq
    rw [heq] at hraw
    have hafter : (after.dropWhile isBlank).length ≤ after.length :=
      (List.dropWhile_suffix _).length_le
    cases hdrop : after.dropWhile isBlank with
    | nil =>
      simp only [hdrop] at h
      cases h
      simp
    | cons c tail =>
      simp only [hdrop, List.length_cons] at h hafter hraw
      split at h
      · cases h
        omega
      · cases h

theorem length_readUnmarked_le {value : List Char}
    (h : readUnmarked key s = .ok (value, rest)) : rest.length ≤ s.length := by
  unfold readUnmarked at h
  split at h
  · exact Nat.le_succ_of_le (length_readQuotedValue_le h)
  · cases h
    have hraw := length_rawUntil_le ';' false s
    simp only [List.length_drop]
    omega

/-- Whatever is read as the value of a key belongs to the key and shortens the text. -/
theorem of_readOptionValue (h : readOptionValue key s = .ok (o, rest)) :
    o.key = key ∧ rest.length ≤ s.length := by
  have hlength : (s.dropWhile isBlank).length ≤ s.length := (List.dropWhile_suffix _).length_le
  have hsame : readOptionValue key s = readOptionValue key (s.dropWhile isBlank) := by
    simp only [readOptionValue, Text.dropWhile_of_stops (Text.stops_dropWhile isBlank s)]
  rw [hsame] at h
  by_cases hmark : ∃ t, s.dropWhile isBlank = '!' :: t
  · obtain ⟨t, ht⟩ := hmark
    rw [ht, readOptionValue_marked, map_eq_ok] at h
    obtain ⟨⟨value, rest'⟩, hread, heq⟩ := h
    cases heq
    rw [ht] at hlength
    exact ⟨rfl, Nat.le_trans (length_readUnmarked_le hread) (Nat.le_of_succ_le hlength)⟩
  · have hstop : Stops (· == '!') (s.dropWhile isBlank) :=
      Text.stops_eq_iff.mpr fun hhead => hmark ⟨_, List.eq_cons_of_mem_head? hhead⟩
    rw [readOptionValue_unmarked key (Text.stops_dropWhile isBlank s) hstop, map_eq_ok] at h
    obtain ⟨⟨value, rest'⟩, hread, heq⟩ := h
    cases heq
    exact ⟨rfl, Nat.le_trans (length_readUnmarked_le hread) hlength⟩

/-- What is read depends neither on the fuel that is left nor on the size, which is only named in
errors. -/
theorem readsOptions_of_ok {size fuel : Nat} (h : readOptionsFrom size fuel s = .ok os)
    (hf : s.length < fuel) : ReadsOptions s os := by
  intro size' fuel' hf'
  induction fuel generalizing s os fuel' with
  | zero => cases hf
  | succ fuel ih =>
    obtain ⟨fuel', rfl⟩ := Nat.exists_eq_add_one_of_ne_zero (Nat.ne_of_gt (Nat.zero_lt_of_lt hf'))
    rw [readOptionsFrom] at h ⊢
    have hlength : (s.dropWhile fun c => isBlank c || c == ';').length ≤ s.length :=
      (List.dropWhile_suffix _).length_le
    generalize (s.dropWhile fun c => isBlank c || c == ';') = t at h hlength ⊢
    simp only at h ⊢
    split at h
    · rename_i hnil
      rwa [if_pos hnil]
    · rename_i hne
      rw [if_neg hne]
      split at h
      · cases h
      · rename_i hkey
        rw [if_neg hkey]
        have hpos : 0 < t.length := List.length_pos_iff.mpr (by simpa using hne)
        have hshort : (t.dropWhile isKeyChar).length ≤ t.length :=
          (List.dropWhile_suffix _).length_le
        split at h
        · -- a key with a value
          rename_i rest hrest
          rw [hrest, List.length_cons] at hshort
          obtain ⟨⟨o, rest'⟩, hvalue, h⟩ := ok_of_bind h
          obtain ⟨os', hos', h⟩ := ok_of_bind h
          cases h
          replace hos' : readOptionsFrom size fuel rest' = .ok os' := hos'
          have hvalue' := (of_readOptionValue hvalue).2
          have hmore := ih hos' (by omega) fuel' (by omega)
          simp only [hvalue]
          show (readOptionsFrom size' fuel' rest' >>= fun os => .ok (o :: os)) = _
          rw [hmore]
          rfl
        · -- a key alone
          obtain ⟨os', hos', h⟩ := ok_of_bind h
          cases h
          have hdrop := List.length_drop (i := 1) (l := t.dropWhile isKeyChar)
          have hmore := ih hos' (by omega) fuel' (by omega)
          simp only [hmore]
          rfl

/-! ### Reading on behind written options -/

/-- Options as they stand behind the first one, each with a blank in front. -/
def textBehind (os : List RuleOption) : List Char := os.flatMap fun o => ' ' :: o.text

theorem textBehind_cons (o : RuleOption) (os : List RuleOption) (rest : List Char) :
    textBehind (o :: os) ++ rest = ' ' :: (o.text ++ (textBehind os ++ rest)) := by
  simp [textBehind]

theorem textBehind_append (os more : List RuleOption) :
    textBehind (os ++ more) = textBehind os ++ textBehind more := List.flatMap_append

theorem readsOptions_behind (h : ∀ o ∈ os, o.Writable) {extra : List RuleOption}
    (hrest : ReadsOptions rest extra) : ReadsOptions (textBehind os ++ rest) (os ++ extra) := by
  induction os with
  | nil => exact hrest
  | cons o os ih =>
    rw [List.forall_mem_cons] at h
    rw [textBehind_cons]
    exact readsOptions_blank (readsOptions_option h.1 (ih h.2))

theorem readsOptions_textBehind (h : ∀ o ∈ os, o.Writable) : ReadsOptions (textBehind os) os := by
  simpa using readsOptions_behind h readsOptions_nil

theorem readOptionsFrom_textBehind (h : ∀ o ∈ os, o.Writable) (size fuel : Nat)
    (rest : List Char) :
    readOptionsFrom size (fuel + os.length) (textBehind os ++ rest) =
      (readOptionsFrom size fuel rest).map (os ++ ·) := by
  induction os with
  | nil =>
    show readOptionsFrom size fuel rest = _
    cases readOptionsFrom size fuel rest <;> rfl
  | cons o os ih =>
    rw [List.forall_mem_cons] at h
    rw [textBehind_cons, readOptionsFrom_blank, List.length_cons, ← Nat.add_assoc,
      readOptionsFrom_option h.1, ih h.2]
    cases readOptionsFrom size fuel rest <;> rfl

theorem length_le_textBehind (os : List RuleOption) : os.length ≤ (textBehind os).length := by
  induction os with
  | nil => exact Nat.zero_le _
  | cons o os ih =>
    simp only [textBehind, List.flatMap_cons, List.length_append, List.length_cons] at ih ⊢
    omega

/-- With enough fuel the reader gets past options that can be read back. -/
theorem exists_behind (h : ∀ o ∈ os, o.Writable) {size fuel : Nat} {all : List RuleOption}
    (hfuel : os.length + rest.length < fuel)
    (hread : readOptionsFrom size fuel (textBehind os ++ rest) = .ok all) :
    ∃ left extra, rest.length < left ∧ readOptionsFrom size left rest = .ok extra ∧
      all = os ++ extra := by
  obtain ⟨left, rfl⟩ : ∃ left, fuel = left + os.length := ⟨fuel - os.length, by omega⟩
  rw [readOptionsFrom_textBehind h, map_eq_ok] at hread
  obtain ⟨extra, hextra, rfl⟩ := hread
  exact ⟨left, extra, by omega, hextra, rfl⟩

/-- Options that can be read back are, and the text behind them is read as if it stood alone. -/
theorem readOptions_iff (h : ∀ o ∈ os, o.Writable) (ho : o.Writable) {all : List RuleOption} :
    readOptions (o.text ++ (textBehind os ++ rest)) = .ok all ↔
      ∃ extra, ReadsOptions rest extra ∧ all = o :: os ++ extra := by
  constructor
  · intro hread
    have hpos := text_length_pos o
    have hos := length_le_textBehind os
    have hfuel : (o :: os).length + rest.length <
        (o.text ++ (textBehind os ++ rest)).length + 1 := by
      simp only [List.length_append, List.length_cons]
      omega
    -- a blank in front makes the first option one of those behind
    rw [readOptions, ← readOptionsFrom_blank, ← textBehind_cons] at hread
    obtain ⟨left, extra, hleft, hextra, rfl⟩ :=
      exists_behind (List.forall_mem_cons.mpr ⟨ho, h⟩) hfuel hread
    exact ⟨extra, readsOptions_of_ok hextra hleft, rfl⟩
  · rintro ⟨extra, hextra, rfl⟩
    exact readOptions_of_reads (readsOptions_option ho (readsOptions_behind h hextra))

end Reading

/-! ### Options that can be read back -/

theorem guardableFrom_marked {p : Char → Bool} {x : Char} (hb : p '\\' = true) (hx : p x = false)
    (v rest : List Char) :
    guardableFrom x false (marked p v ++ rest) = guardableFrom x false rest := by
  induction v with
  | nil => rfl
  | cons c cs ih =>
    rw [Text.marked_cons]
    by_cases hc : p c = true
    · have hne : c ≠ x := fun he => by simp [← he, hc] at hx
      simp [hc, guardableFrom, hne, ih]
    · have hne : c ≠ '\\' := fun he => hc (he ▸ hb)
      simp [hc, guardableFrom, hne, ih]

/-- The expression for a text has every backslash in a pair of its own. -/
theorem guardableFrom_escapeRegex (v rest : List Char) :
    guardableFrom '"' false (guardChar '/' (escapeRegex v) ++ rest) =
      guardableFrom '"' false rest := by
  rw [guardChar_escapeRegex]
  exact guardableFrom_marked (by decide) (by decide) v rest

theorem guardable_of_plain {x : Char} {v : List Char} (h : ∀ c ∈ v, c ≠ x ∧ c ≠ '\\') :
    Guardable x v := by
  rw [guardable_iff]
  induction v with
  | nil => rfl
  | cons c cs ih =>
    rw [List.forall_mem_cons] at h
    simp [guardableFrom, h.1.2, ih h.2]

namespace RuleOption

theorem writable_flag {key : String} (h : ReadableKey key) : (flag key).Writable where
  key := h
  flag := fun _ => rfl
  value := by simp [flag]

theorem writable_quoted {key : String} (h : ReadableKey key) (hkey : key ∈ quotedKeys)
    (hpcre : key ≠ "pcre") (v : String) (negated : Bool) : Writable ⟨key, some v, negated⟩ where
  key := h
  flag := by simp
  value := fun _ _ => ⟨fun hp => absurd hp hpcre, fun hn => absurd hkey hn⟩

theorem writable_pcreOption {e : List Char} (h : Guardable '"' (pcreValue e)) :
    (pcreOption e).Writable where
  key := by
    show ReadableKey "pcre"
    decide
  flag := by simp [pcreOption, pair]
  value := by
    intro v hv
    obtain rfl : v = String.ofList (pcreValue e) := by simpa [pcreOption, pair, eq_comm] using hv
    exact ⟨fun _ => by rwa [String.toList_ofList], fun hn => absurd pcre_mem_quotedKeys hn⟩

theorem writable_digits {key v : String} (h : ReadableKey key) (hkey : key ∉ quotedKeys)
    (hv : ∀ c ∈ v.toList, c.isDigit = true) : (pair key v).Writable where
  key := h
  flag := by simp [pair]
  value := by
    have htrimmed : Text.Trimmed v.toList :=
      Text.trimmed_of_forall fun c hc => Text.isBlank_of_isDigit (hv c hc)
    have hne (x : Char) (hx : x.isDigit = false) : v.toList.head? ≠ some x := fun hhead => by
      simp [hv x (List.mem_of_mem_head? hhead)] at hx
    have hguardable : Guardable ';' v.toList := guardable_of_plain fun c hc => by
      have hdigit := hv c hc
      constructor <;> rintro rfl <;> revert hdigit <;> decide
    rintro _ ⟨⟩
    refine ⟨fun (hp : key = "pcre") => absurd (hp ▸ pcre_mem_quotedKeys) hkey,
      fun _ => ⟨htrimmed, ?_, ?_, ?_⟩⟩
    · exact hne '"' (by decide)
    · exact fun _ => hne '!' (by decide)
    · exact hguardable

end RuleOption

/-- What a condition asks for can be read back, if its own expression can. -/
theorem writable_optionsOf {flavor : Flavor} {c : Condition}
    (hc : c.operator = .regex → Guardable '"' (pcreValue c.value.toList)) {o : RuleOption}
    (ho : o ∈ optionsOf flavor c) : o.Writable := by
  have hflag : ∀ key ∈ flagKeys, (RuleOption.flag key).Writable := fun key hkey =>
    RuleOption.writable_flag ((by decide : ∀ key ∈ flagKeys, ReadableKey key) key hkey)
  simp only [flagKeys, List.forall_mem_cons] at hflag
  obtain ⟨hstarts, hends, huri, hquery, -⟩ := hflag
  have hcontent (negated : Bool) : RuleOption.Writable ⟨"content", some c.value, negated⟩ :=
    RuleOption.writable_quoted (by decide) (by decide) (by decide) _ _
  have hstart : (pcreOption ('^' :: escapeRegex c.value.toList)).Writable := by
    refine RuleOption.writable_pcreOption ((guardable_iff _ _).mpr ?_)
    have hrest := guardableFrom_escapeRegex c.value.toList ['/']
    simpa [pcreValue, guardChar_cons, guardableFrom] using hrest
  have hstop : (pcreOption (escapeRegex c.value.toList ++ ['$'])).Writable := by
    refine RuleOption.writable_pcreOption ((guardable_iff _ _).mpr ?_)
    have hrest := guardableFrom_escapeRegex c.value.toList ['$', '/']
    have hexpr : pcreValue (escapeRegex c.value.toList ++ ['$']) =
        '/' :: (guardChar '/' (escapeRegex c.value.toList) ++ ['$', '/']) := by
      simp [pcreValue, guardChar]
    rw [hexpr]
    simpa [guardableFrom] using hrest
  have hcontents : ∀ o ∈ contentOptions flavor c, o.Writable := by
    unfold contentOptions
    split
    · simpa [RuleOption.pair] using hcontent false
    · simpa [RuleOption.pair] using hcontent false
    · simpa [RuleOption.negatedPair] using hcontent true
    · split
      · simpa [RuleOption.pair] using ⟨hcontent false, hstarts⟩
      · simpa using hstart
    · split
      · simpa [RuleOption.pair] using ⟨hcontent false, hends⟩
      · simpa using hstop
    · rename_i hop
      simpa using RuleOption.writable_pcreOption (hc hop)
  have hfield : ∀ o ∈ fieldOptions c.field, o.Writable := by
    unfold fieldOptions
    repeat' split
    all_goals simp [huri, hquery]
  exact (List.mem_append.mp ho).elim (hcontents o) (hfield o)

theorem writable_closingOptions {b : RuleBody}
    (h : ∀ r ∈ b.references, (referenceOption r.1 r.2).Writable) {flavor : Flavor} {o : RuleOption}
    (ho : o ∈ closingOptions b flavor) : o.Writable := by
  rw [closingOptions, List.mem_append] at ho
  rcases ho with ho | ho
  · obtain ⟨r, hr, rfl⟩ := List.mem_map.mp ho
    exact h r hr
  · have hsid : (RuleOption.pair "sid" (toString (localSid b))).Writable :=
      RuleOption.writable_digits (by decide) (by decide) (Text.isDigit_toString (localSid b))
    have hrev : (RuleOption.pair "rev" "1").Writable := by decide
    split at ho
    · rw [sidOptions, List.mem_cons] at ho
      rcases ho with rfl | ho
      · exact hsid
      · split at ho
        · cases ho
        · rwa [List.mem_singleton.mp ho]
    · cases ho

theorem countP_closingOptions (b : RuleBody) (flavor : Flavor) :
    (closingOptions b flavor).countP RuleOption.detects =
      b.references.countP fun r => (referenceOption r.1 r.2).detects := by
  have hnumber :
      (if needsSid flavor b then sidOptions b else []).countP RuleOption.detects = 0 := by
    unfold sidOptions
    repeat' split
    all_goals rfl
  rw [closingOptions, List.countP_append, hnumber, Nat.add_zero, List.countP_map]
  rfl

/-! ### The conditions that come back -/

/-- The header of a signature for a body. -/
def writtenHeader (b : RuleBody) : NetworkHeader :=
  ((b.conditions.filter fun c => !c.isMatchAll).filter isAddressed).foldl place
    (b.network.getD {})

/-- The places of the header that hold an address, and the conditions that become options. -/
def keptConditions (b : RuleBody) : Nat :=
  (heldFields (writtenHeader b)).length +
    ((b.conditions.filter fun c => !c.isMatchAll).filter fun c => !isAddressed c).length

theorem keptConditions_le (b : RuleBody) :
    keptConditions b ≤ b.conditions.length + (heldFields (b.network.getD {})).length := by
  let effective := b.conditions.filter fun c => !c.isMatchAll
  let addressed := effective.filter isAddressed
  have hsplit : effective.length =
      addressed.length + (effective.filter fun c => !isAddressed c).length :=
    List.length_eq_length_filter_add isAddressed
  have heffective : effective.length ≤ b.conditions.length := List.length_filter_le _ _
  have hheld : (heldFields (writtenHeader b)).Subperm
      (addressed.map Condition.field ++ heldFields (b.network.getD {})) :=
    List.subperm_of_subset (nodup_heldFields _) fun field hf => List.mem_append.mpr
      (of_mem_heldFields_foldl (fun c hc => List.of_mem_filter hc) hf)
  have hlength := hheld.length_le
  rw [List.length_append, List.length_map] at hlength
  show (heldFields (writtenHeader b)).length + (effective.filter fun c => !isAddressed c).length ≤ _
  omega

/-- All of a body but its references is read back as it was written: the words of the header hold no
blank, and in the expressions no quote stands behind a backslash that escapes nothing else. -/
structure Sheltered (b : RuleBody) : Prop where
  words : ∀ w ∈ headerWords ⟨b.action.getD "alert", writtenHeader b, []⟩, IsWord w
  expressions : ∀ c ∈ b.conditions, c.operator = .regex →
    Guardable '"' (pcreValue c.value.toList)

instance (b : RuleBody) : Decidable (Sheltered b) :=
  decidable_of_iff ((∀ w ∈ headerWords ⟨b.action.getD "alert", writtenHeader b, []⟩, IsWord w) ∧
      ∀ c ∈ b.conditions, c.operator = .regex → Guardable '"' (pcreValue c.value.toList))
    ⟨fun ⟨hw, he⟩ => ⟨hw, he⟩, fun ⟨hw, he⟩ => ⟨hw, he⟩⟩

/-- A header of words comes back if its direction is an arrow, whatever the options are read as. -/
theorem parse_words_iff {sig s : Signature} (hwords : ∀ w ∈ sig.headerWords, IsWord w) :
    parse sig.text = .ok s ↔
      (sig.header.direction = "->" ∨ sig.header.direction = "<>") ∧
        ∃ all, readOptions (Text.joinWith [' '] (sig.options.map RuleOption.text)) = .ok all ∧
          s = ⟨sig.action, sig.header, all⟩ := by
  rw [parse, readHeader_words hwords]
  by_cases harrow : sig.header.direction = "->" ∨ sig.header.direction = "<>"
  · rw [if_pos harrow]
    simp only [harrow, true_and]
    constructor
    · intro h
      obtain ⟨all, hall, heq⟩ := ok_of_bind h
      cases heq
      exact ⟨all, hall, rfl⟩
    · rintro ⟨all, hall, rfl⟩
      simp only [hall]
      rfl
  · rw [if_neg harrow]
    simp [harrow]

/-- The options of a body in their order and as they are written. -/
theorem exists_written (b : RuleBody) (flavor : Flavor) (level : Nat) :
    ∃ os, (ofBody b flavor level).1.options =
        .pair "msg" (writtenTitle b) :: os ++ closingOptions b flavor ∧
      (∀ o ∈ os, o = .flag "fast_pattern" ∨ ∃ c ∈ b.conditions, o ∈ optionsOf flavor c) ∧
      Text.joinWith [' '] ((ofBody b flavor level).1.options.map RuleOption.text) =
        (RuleOption.pair "msg" (writtenTitle b)).text ++
          (textBehind os ++ textBehind (closingOptions b flavor)) := by
  obtain ⟨os, hos, hmem⟩ := exists_leading b flavor level
  refine ⟨os, hos, hmem, ?_⟩
  rw [hos, List.cons_append, List.map_cons, Text.joinWith_cons, List.map_append]
  simp [textBehind, List.flatMap_map]

theorem writable_title (b : RuleBody) : (RuleOption.pair "msg" (writtenTitle b)).Writable :=
  RuleOption.writable_quoted (by decide) (by decide) (by decide) _ _

theorem isWord_of_sheltered {b : RuleBody} (hb : Sheltered b) {flavor : Flavor} (level : Nat) :
    ∀ w ∈ (ofBody b flavor level).1.headerWords, IsWord w := by
  have hheader : (ofBody b flavor level).1.header = writtenHeader b := header_ofBody b flavor level
  rw [headerWords, hheader]
  exact hb.words

/-- The reader gives back what was written before the references, and goes on with their text. -/
theorem parse_sheltered_iff {b : RuleBody} (hb : Sheltered b) (flavor : Flavor) (level : Nat) :
    ∃ os, (ofBody b flavor level).1.options =
        .pair "msg" (writtenTitle b) :: os ++ closingOptions b flavor ∧
      (∀ o ∈ os, o = .flag "fast_pattern" ∨ ∃ c ∈ b.conditions, o ∈ optionsOf flavor c) ∧
      ∀ s, parse (ofBody b flavor level).1.text = .ok s ↔
        ((writtenHeader b).direction = "->" ∨ (writtenHeader b).direction = "<>") ∧
          ∃ extra, ReadsOptions (textBehind (closingOptions b flavor)) extra ∧
            s = ⟨b.action.getD "alert", writtenHeader b,
              .pair "msg" (writtenTitle b) :: os ++ extra⟩ := by
  obtain ⟨os, hos, hmem, htext⟩ := exists_written b flavor level
  have hheader : (ofBody b flavor level).1.header = writtenHeader b := header_ofBody b flavor level
  have hleading : ∀ o ∈ os, o.Writable := fun o ho => by
    rcases hmem o ho with rfl | ⟨c, hc, hask⟩
    · exact RuleOption.writable_flag (by decide)
    · exact writable_optionsOf (hb.expressions c hc) hask
  refine ⟨os, hos, hmem, fun s => ?_⟩
  rw [parse_words_iff (isWord_of_sheltered hb level), htext, hheader]
  refine and_congr_right fun _ => ⟨?_, ?_⟩
  · rintro ⟨all, hall, rfl⟩
    obtain ⟨extra, hextra, rfl⟩ := (readOptions_iff hleading (writable_title b)).mp hall
    exact ⟨extra, hextra, rfl⟩
  · rintro ⟨extra, hextra, rfl⟩
    exact ⟨_, (readOptions_iff hleading (writable_title b)).mpr ⟨extra, hextra, rfl⟩, rfl⟩

/-- Conditions come back from a signature for a body: one for each address in its header, one for
each condition without a place there, and one for each option that looks for something in what its
references are read as. -/
theorem references_add_what_they_detect {b : RuleBody} (hb : Sheltered b) (flavor : Flavor)
    (level : Nat) {s : Signature} (h : parse (ofBody b flavor level).1.render.toList = .ok s) :
    ∃ extra, readOptions (textBehind (closingOptions b flavor)) = .ok extra ∧
      s.toBody.conditions.length = keptConditions b + extra.countP RuleOption.detects ∧
      keptConditions b ≤ b.conditions.length + (heldFields (b.network.getD {})).length ∧
      ((∀ r ∈ b.references, (referenceOption r.1 r.2).Writable) →
        extra.countP RuleOption.detects =
          b.references.countP fun r => (referenceOption r.1 r.2).detects) := by
  obtain ⟨os, hoptions, -, hparse⟩ := parse_sheltered_iff hb flavor level
  rw [render, String.toList_ofList] at h
  obtain ⟨-, extra, hextra, rfl⟩ := (hparse s).mp h
  let leading : List RuleOption := .pair "msg" (writtenTitle b) :: os
  replace hoptions : (ofBody b flavor level).1.options = leading ++ closingOptions b flavor :=
    hoptions
  have hkept : leading.countP RuleOption.detects =
      ((b.conditions.filter fun c => !c.isMatchAll).filter fun c => !isAddressed c).length := by
    have hall := length_conditions_toBody b flavor level
    rw [toBody, Reading.length_foldl_option, hoptions, List.countP_append, headerBody,
      length_headerConditions] at hall
    omega
  refine ⟨extra, readOptions_of_reads hextra, ?_, keptConditions_le b, fun hrefs => ?_⟩
  · rw [toBody, Reading.length_foldl_option, List.countP_append, hkept, headerBody,
      length_headerConditions, keptConditions, Nat.add_assoc]
  · have hclosing : ReadsOptions (textBehind (closingOptions b flavor))
        (closingOptions b flavor) :=
      readsOptions_textBehind fun o ho => writable_closingOptions hrefs ho
    have hsame : extra = closingOptions b flavor := by
      have hread := (readOptions_of_reads hextra).symm.trans (readOptions_of_reads hclosing)
      exact Except.ok.inj hread
    rw [hsame, countP_closingOptions]

/-- A semicolon in a key leaves the rest of the key as a content. -/
theorem split_key_adds_condition :
    let b : RuleBody :=
      { title := "t"
        conditions := [⟨Field.sourceIp, .equals, "10.0.0.1"⟩, ⟨Field.payload, .endsWith, "a\"/b\\"⟩,
          ⟨Field.payload, .regex, "\\\\\"\\d"⟩]
        references := [("sid", "7"), ("x;content", "evil;")] }
    let s : Signature :=
      { action := "alert"
        header := { source := "10.0.0.1" }
        options := [.pair "msg" "t", .pair "pcre" "/a\"\\/b\\\\$/", .pair "pcre" "/\\\\\"\\d/",
          .pair "sid" "7", .flag "x", .pair "content" "evil;"] }
    Sheltered b ∧ parse (ofBody b .snort 0).1.render.toList = .ok s ∧
      s.toBody.conditions.length = keptConditions b + 1 := by
  intro b s
  have hb : Sheltered b := by decide +kernel
  have hparse : parse (ofBody b .snort 0).1.render.toList = .ok s := by decide +kernel
  obtain ⟨extra, hread, hlength, -⟩ := references_add_what_they_detect hb .snort 0 hparse
  have hextra : readOptions (textBehind (closingOptions b .snort)) =
      .ok [.pair "sid" "7", .flag "x", .pair "content" "evil;"] := by
    decide +kernel
  cases hread.symm.trans hextra
  exact ⟨hb, hparse, hlength⟩

/-- A body without a condition, and a reference that comes back as one. -/
theorem reference_becomes_condition :
    let b : RuleBody := { title := "t", references := [("content", "evil")] }
    let text := "alert ip any any -> any any (msg:\"t\"; content:\"evil\";)"
    let s : Signature :=
      { action := "alert", header := {}, options := [.pair "msg" "t", .pair "content" "evil"] }
    b.conditions = [] ∧ (ofBody b .generic 0).1.render = text ∧
      parse text.toList = .ok s ∧ s.toBody.conditions = [⟨Field.payload, .contains, "evil"⟩] := by
  decide +kernel

end RuleExchange.Signature
