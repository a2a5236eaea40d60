import Mathlib.Data.List.TakeWhile
import RuleExchange.Proofs.QueryTokens
import RuleExchange.Query.Writer

/-! Queries are read back as they were written. For each of the four dialects the query
that is written for a list of conditions on neutral fields is read as the same conditions,
whatever characters their values hold, as long as those that are written as wildcard
patterns are in normal form. Only where regular expressions are commands do these come
after all other conditions. What the argument needs of a dialect is stated once, in
`Dialect.Readable`. -/

namespace RuleExchange.Query

open Text (Stops isBlank Trimmed)
open Text.Quoted (isQuote Uncut)

/-! ### Dialects whose queries can be read back -/

/-- No character of the text is a quote or a pipe. -/
def isPlain (s : List Char) : Bool := s.all fun c => !isQuote c && c != '|'

/-- A word that is read as the name of a field. -/
def isFieldName (w : List Char) : Bool :=
  isWordText? w && isTermWord w && !(Lexeme.word w).isClauseWord && isPlain w

/-- A character that can follow a field name in a query without a lead: a query that starts with
a name and `where` would be taken for one with an event category. -/
def isOperatorStart (c : Char) : Bool := !isBlank c && !Text.foldsTo 'w' c

/-- A word that is read as an operator. -/
def isOperatorWord (op : Operator) (w : List Char) : Bool :=
  isWordText? w && keywordOperator? w = some op && !(Lexeme.word w).isClauseWord && isPlain w &&
    w.head?.any isOperatorStart

theorem isBlank_of_isFieldName {w : List Char} (h : isFieldName w = true) :
    ∀ c ∈ w, isBlank c = false := by
  intro c hc
  simp only [isFieldName, isWordText?, Bool.and_eq_true, List.all_eq_true] at h
  have := h.1.1.1.1 c hc
  simp only [endsWord, Bool.not_eq_true', Bool.or_eq_false_iff] at this
  exact this.1.1.1

theorem exists_cons_of_isFieldName {w : List Char} (h : isFieldName w = true) :
    ∃ c cs, w = c :: cs := by
  cases w with
  | nil => cases h
  | cons c cs => exact ⟨c, cs, rfl⟩

/-- What makes the queries of a dialect readable: its names and words are read as such, and
names are mapped back. -/
structure Dialect.Readable (d : Dialect) : Prop where
  quote : isQuote d.quote = true
  name : ∀ f ∈ Field.all, isFieldName (d.fields.platformOrKeep f).toList = true
  neutral : ∀ f ∈ Field.all, d.fields.canonicalOrKeep (d.fields.platformOrKeep f) = f
  conjunction : ∃ w, d.conjunction.toList = ' ' :: w ++ [' '] ∧ isWordText? w = true ∧
    isWordText "and" w = true ∧ (Lexeme.word w).isClauseWord = false ∧ isPlain w = true
  like : ∀ w, d.like = some w → isOperatorWord .equals w.toList = true ∧ d.wildcard = '%' ∧
    d.wildcardEquality = false ∧ d.keywordOperators = false
  equality : d.like = none → d.wildcard = RuleExchange.wildcard ∧ d.wildcardEquality = true
  regex : ∀ w, d.regex = .keyword w → isOperatorWord .regex w.toList = true
  command : ∀ w, d.regex = .command w → w = "regex"
  /-- Where operators are words, blanks surround signs too. -/
  spaced : d.like.isSome = true ∨ d.keywordOperators = true ∨ (∃ w, d.regex = .keyword w) →
    d.spaced = true
  plainLead : isPlain d.lead.toList = true
  /-- The lead is read as one, or there is none and no name is taken for one. -/
  lead : (∀ s, dropLead (d.lead.toList ++ s) = (' ' :: s, none)) ∨
    (d.lead = "" ∧ d.spaced = true ∧ ∀ f ∈ Field.all, ∀ x t, isOperatorStart x = true →
      let s := (d.fields.platformOrKeep f).toList ++ ' ' :: x :: t
      dropLead s = (s, none))

theorem dropLead_search (s : List Char) :
    dropLead (Dialect.splunk.lead.toList ++ s) = (' ' :: s, none) := by
  simp [Dialect.splunk, dropLead, afterSearch?, afterWholeWord?, Text.trimStart, afterWord?,
    atWordEnd, Text.isBlank, Text.isWord, Text.foldsTo]

theorem dropLead_select (s : List Char) :
    dropLead (Dialect.qradar.lead.toList ++ s) = (' ' :: s, none) := by
  simp [Dialect.qradar, dropLead, afterSearch?, afterSelect?, afterFrom?, afterSource?, afterWhere?,
    afterWholeWord?, Text.trimStart, afterWord?, atWordEnd, Text.isBlank, Text.isWord,
    Text.foldsTo]

/-- The text departs from the keyword before either of them ends. -/
def departs : List Char → List Char → Bool
  | k :: ks, c :: cs => !Text.foldsTo k c || departs ks cs
  | _, _ => false

theorem afterWholeWord?_of_departs {word s : List Char} (h : departs word s = true)
    (t : List Char) : afterWholeWord? word (s ++ t) = none := by
  suffices hnone : afterWord? word (s ++ t) = none by simp only [afterWholeWord?, hnone]
  induction word generalizing s with
  | nil => simp [departs] at h
  | cons k ks ih =>
    cases s with
    | nil => simp [departs] at h
    | cons c cs =>
      by_cases hc : Text.foldsTo k c = true
      · simp only [departs, hc, Bool.not_true, Bool.false_or] at h
        simp [afterWord?, hc, ih h]
      · simp [afterWord?, hc]

theorem afterWhere?_of_isOperatorStart {x : Char} (hx : isOperatorStart x = true)
    (t : List Char) : afterWhere? (x :: t) = none := by
  simp only [isOperatorStart, Bool.and_eq_true, Bool.not_eq_true'] at hx
  simp [afterWhere?, Text.trimStart, afterWholeWord?, afterWord?, hx.1, hx.2]

/-- A name that is no lead itself and is followed by an operator is kept. -/
theorem dropLead_name {name : List Char} (hname : isFieldName name = true)
    (hsearch : departs "search".toList name = true)
    (hselect : departs "select".toList name = true) {x : Char} (hx : isOperatorStart x = true)
    (t : List Char) :
    dropLead (name ++ ' ' :: x :: t) = (name ++ ' ' :: x :: t, none) := by
  have hsolid := isBlank_of_isFieldName hname
  obtain ⟨c, cs, rfl⟩ := exists_cons_of_isFieldName hname
  have htrim : Text.trimStart (c :: cs ++ ' ' :: x :: t) = c :: cs ++ ' ' :: x :: t :=
    Text.dropWhile_of_stops (Text.stops_cons (hsolid c (by simp)) _)
  have h1 : afterSearch? (c :: cs ++ ' ' :: x :: t) = none := by
    rw [afterSearch?, htrim, afterWholeWord?_of_departs hsearch]
  have h2 : afterSelect? (c :: cs ++ ' ' :: x :: t) = none := by
    rw [afterSelect?, htrim, afterWholeWord?_of_departs hselect]
    rfl
  -- the run of word characters ends inside the name or at the blank behind it
  have h3 : category? (c :: cs ++ ' ' :: x :: t) = none := by
    rw [category?, htrim]
    simp only [List.cons_append]
    split
    · cases hd : cs.dropWhile Text.isWord with
      | nil =>
        have hall : ∀ a ∈ cs, Text.isWord a = true := List.dropWhile_eq_nil_iff.mp hd
        rw [Text.dropWhile_run hall (Text.stops_cons (by decide) _)]
        simp [afterWhere?_of_isOperatorStart hx]
      | cons b rest =>
        have hb : b ∈ cs := List.dropWhile_sublist _ |>.subset (hd ▸ List.mem_cons_self)
        rw [List.dropWhile_append, hd]
        simp [hsolid b (by simp [hb])]
    · rfl
  simp only [dropLead, h1, h2, h3]

theorem readable_splunk : Dialect.splunk.Readable where
  quote := by decide
  name := by decide +kernel
  neutral := by decide +kernel
  conjunction := ⟨"AND".toList, by decide⟩
  like w h := by cases h
  equality _ := by decide
  regex w h := by cases h
  command w h := by cases h; rfl
  spaced h := by simp [Dialect.splunk] at h
  plainLead := by decide
  lead := .inl dropLead_search

theorem readable_qradar : Dialect.qradar.Readable where
  quote := by decide
  name := by decide +kernel
  neutral := by decide +kernel
  conjunction := ⟨"AND".toList, by decide⟩
  like w h := by cases h; decide
  equality h := by cases h
  regex w h := by cases h; decide
  command w h := by cases h
  spaced _ := rfl
  plainLead := by decide
  lead := .inl dropLead_select

theorem isFieldName_siem :
    ∀ f ∈ Field.all, isFieldName (Dialect.siem.fields.platformOrKeep f).toList = true := by
  decide +kernel

theorem readable_siem : Dialect.siem.Readable where
  quote := by decide
  name := isFieldName_siem
  neutral := by decide +kernel
  conjunction := ⟨"AND".toList, by decide⟩
  like w h := by cases h
  equality _ := by decide
  regex w h := by cases h; decide
  command w h := by cases h
  spaced _ := rfl
  plainLead := by decide
  lead := by
    refine .inr ⟨rfl, rfl, fun f hf x t hx => ?_⟩
    exact dropLead_name (isFieldName_siem f hf) (by revert f; decide +kernel)
      (by revert f; decide +kernel) hx t

theorem isFieldName_eql :
    ∀ f ∈ Field.all, isFieldName (Dialect.eql.fields.platformOrKeep f).toList = true := by
  decide +kernel

theorem readable_eql : Dialect.eql.Readable where
  quote := by decide
  name := isFieldName_eql
  neutral := by decide +kernel
  conjunction := ⟨"and".toList, by decide⟩
  like w h := by cases h
  equality _ := by decide
  regex w h := by cases h; decide
  command w h := by cases h
  spaced _ := rfl
  plainLead := by decide
  lead := by
    refine .inr ⟨rfl, rfl, fun f hf x t hx => ?_⟩
    exact dropLead_name (isFieldName_eql f hf) (by revert f; decide +kernel)
      (by revert f; decide +kernel) hx t

/-! ### Terms -/

/-- Whether a condition is written as a wildcard pattern. -/
def isPattern (d : Dialect) (c : Condition) : Bool :=
  match c.operator with
  | .equals => d.wildcardEquality || c.value.toList.contains RuleExchange.wildcard
  | .contains | .startsWith | .endsWith => !d.keywordOperators
  | .notEquals | .regex => false

/-- The pattern of the condition is read as the condition itself. -/
def Normal (d : Dialect) (c : Condition) : Prop :=
  isPattern d c = true → Condition.ofPattern c.field (c.toPattern d.wildcard) d.wildcard = c

instance (d : Dialect) (c : Condition) : Decidable (Normal d c) :=
  inferInstanceAs (Decidable (_ → _))

theorem comparison_equals {d : Dialect} (field : String) (value : String) :
    comparison d field "=".toList value.toList false =
      .ok (if d.wildcardEquality then .ofPattern field value d.wildcard
        else ⟨field, .equals, value⟩) := by
  cases h : d.wildcardEquality <;>
    simp [comparison, signEquality, h, bind, Except.bind, pure, Except.pure]

theorem comparison_differs {d : Dialect} (field : String) (value : String) :
    comparison d field "!=".toList value.toList false = .ok ⟨field, .notEquals, value⟩ := by
  simp [comparison, signEquality, bind, Except.bind, pure, Except.pure]

/-- All the forms that a term can have: a sign or a word between the name of the field and a
quoted value, from which the condition is read back. -/
inductive TermForm (d : Dialect) (c : Condition) : Prop
  | sign (sign value : String) (hsign : sign = "=" ∨ sign = "!=")
      (hterm : term d c = signTerm d (d.fields.platformOrKeep c.field) sign value)
      (hread : comparison d c.field sign.toList value.toList false = .ok c)
  | word (hspaced : d.spaced = true) (word value : String) (op : Operator)
      (hword : isOperatorWord op word.toList = true)
      (hterm : term d c = wordTerm d (d.fields.platformOrKeep c.field) word value)
      (hread : keywordCondition c.field op value.toList = c)

theorem swapChar_self (a : Char) (s : List Char) : Condition.swapChar a a s = s := by
  have h : (fun c => if c = a then a else c) = id := by
    funext c
    by_cases hc : c = a <;> simp [hc]
  simp [Condition.swapChar, h]

/-- Where patterns have a word of their own, an equality that uses it holds a wildcard. -/
theorem contains_wildcard {c : Condition} (ho : c.operator = .equals)
    (h : (c.hasInnerWildcard || c.isMatchAll) = true) :
    RuleExchange.wildcard ∈ c.value.toList := by
  rcases Bool.or_eq_true_iff.mp h with h | h
  · simp only [Condition.hasInnerWildcard, Bool.and_eq_true, List.contains_iff_mem] at h
    exact h.1.2
  · simp only [Condition.isMatchAll, ho, Bool.and_eq_true, List.all_eq_true] at h
    cases hv : c.value.toList with
    | nil => simp [String.toList_eq_nil_iff.mp hv] at h
    | cons x xs =>
      have hx := h.2 x (by simp [hv])
      simp [eq_of_beq hx]

theorem keywordCondition_self {c : Condition} (h : c.operator ≠ .equals) :
    keywordCondition c.field c.operator c.value.toList = c := by
  simp [keywordCondition, h]

theorem equalsForm {d : Dialect} (hd : d.Readable) {c : Condition} (ho : c.operator = .equals)
    (hn : Normal d c) : TermForm d c := by
  have hcond : c = ⟨c.field, .equals, c.value⟩ := by rw [← ho]
  cases hlike : d.like with
  | none =>
    obtain ⟨hw, heq⟩ := hd.equality hlike
    have hpat : c.toPattern d.wildcard = c.value := by
      simp [Condition.toPattern, ho, hw, swapChar_self]
    have hback : Condition.ofPattern c.field c.value d.wildcard = c := by
      rw [← hpat]
      exact hn (by simp [isPattern, ho, heq])
    refine .sign "=" c.value (.inl rfl) (by simp [term, ho, hlike]) ?_
    rw [comparison_equals, if_pos heq, hback]
  | some like =>
    obtain ⟨hword, hw, heq, -⟩ := hd.like like hlike
    have hspaced := hd.spaced (.inl (by simp [hlike]))
    by_cases hwild : (c.hasInnerWildcard || c.isMatchAll) = true
    · refine .word hspaced like (c.toPattern d.wildcard) .equals hword
        (by simp [term, ho, hlike, hwild]) ?_
      have hback := hn (by simp [isPattern, ho, contains_wildcard ho hwild])
      simpa [keywordCondition, hw] using hback
    · refine .sign "=" c.value (.inl rfl) (by simp [term, ho, hlike, hwild]) ?_
      rw [comparison_equals, heq]
      exact congrArg Except.ok hcond.symm

theorem isOperatorWord_keyword {op : Operator}
    (h : op = .contains ∨ op = .startsWith ∨ op = .endsWith) :
    isOperatorWord op op.keyword.toList = true := by
  rcases h with rfl | rfl | rfl <;> decide

/-- Comparisons at the ends and inside a value. -/
theorem affixForm {d : Dialect} (hd : d.Readable) {c : Condition}
    (ho : c.operator = .contains ∨ c.operator = .startsWith ∨ c.operator = .endsWith)
    (hn : Normal d c) : TermForm d c := by
  have hpat : isPattern d c = !d.keywordOperators := by
    rcases ho with ho | ho | ho <;> simp [isPattern, ho]
  cases hlike : d.like with
  | some like =>
    obtain ⟨hword, hw, -, hk⟩ := hd.like like hlike
    have hspaced := hd.spaced (.inl (by simp [hlike]))
    refine .word hspaced like (c.toPattern d.wildcard) .equals hword
      (by rcases ho with ho | ho | ho <;> simp [term, ho, hlike]) ?_
    simpa [keywordCondition, hw] using hn (by simp [hpat, hk])
  | none =>
    cases hk : d.keywordOperators with
    | true =>
      have hspaced := hd.spaced (.inr (.inl hk))
      refine .word hspaced c.operator.keyword c.value c.operator (isOperatorWord_keyword ho)
        (by rcases ho with ho | ho | ho <;> simp [term, ho, hlike, hk]) ?_
      exact keywordCondition_self (by rcases ho with ho | ho | ho <;> simp [ho])
    | false =>
      refine .sign "=" (c.toPattern d.wildcard) (.inl rfl)
        (by rcases ho with ho | ho | ho <;> simp [term, ho, hlike, hk]) ?_
      rw [comparison_equals, if_pos (hd.equality hlike).2, hn (by simp [hpat, hk])]

theorem termForm {d : Dialect} (hd : d.Readable) {c : Condition}
    (hcmd : isCommand d c = false) (hn : Normal d c) : TermForm d c := by
  cases ho : c.operator with
  | equals => exact equalsForm hd ho hn
  | notEquals =>
    refine .sign "!=" c.value (.inr rfl) (by simp [term, ho]) ?_
    rw [comparison_differs, ← ho]
  | contains => exact affixForm hd (.inl ho) hn
  | startsWith => exact affixForm hd (.inr (.inl ho)) hn
  | endsWith => exact affixForm hd (.inr (.inr ho)) hn
  | regex =>
    cases hr : d.regex with
    | command w => simp [isCommand, ho, hr] at hcmd
    | keyword w =>
      have hspaced := hd.spaced (.inr (.inr ⟨w, hr⟩))
      refine .word hspaced w c.value c.operator (ho ▸ hd.regex w hr)
        (by simp [term, ho, hr, RegexStyle.word]) (keywordCondition_self (by simp [ho]))

theorem lexes_quoted {d : Dialect} (hq : isQuote d.quote = true) (value : String)
    {s : List Char} {ls : List Lexeme} (h : Lexes s ls) :
    Lexes (quoted d value ++ s) (.quoted value.toList :: ls) :=
  lexes_enclose hq value.toList h

theorem lexes_signTerm {d : Dialect} (hq : isQuote d.quote = true) {field sign : String}
    (hf : isWordText? field.toList = true) (hsign : sign = "=" ∨ sign = "!=") (value : String)
    {s : List Char} {ls : List Lexeme} (h : Lexes s ls) :
    Lexes (signTerm d field sign value ++ s)
      (.word field.toList :: .sign sign.toList :: .quoted value.toList :: ls) := by
  have hsign' : sign.toList = ['='] ∨ sign.toList = ['!', '='] := by
    rcases hsign with rfl | rfl
    · exact .inl (by simp)
    · exact .inr (by simp)
  have hvalue := lexes_quoted hq value h
  simp only [signTerm, List.append_assoc]
  cases d.spaced with
  | true =>
    exact lexes_word hf (Text.stops_cons (by decide) _) (lexes_blank (by decide)
      (lexes_sign hsign' (Text.stops_cons (by decide) _) (lexes_blank (by decide) hvalue)))
  | false =>
    exact lexes_word hf (stops_sign hsign' _)
      (lexes_sign hsign' (stops_enclose hq value.toList s) hvalue)

theorem lexes_wordTerm {d : Dialect} (hq : isQuote d.quote = true) {field word : String}
    (hf : isWordText? field.toList = true) (hw : isWordText? word.toList = true)
    (value : String) {s : List Char} {ls : List Lexeme} (h : Lexes s ls) :
    Lexes (wordTerm d field word value ++ s)
      (.word field.toList :: .word word.toList :: .quoted value.toList :: ls) := by
  have hvalue := lexes_quoted hq value h
  simp only [wordTerm, List.append_assoc, List.cons_append]
  exact lexes_word hf (Text.stops_cons (by decide) _) (lexes_blank (by decide)
    (lexes_word hw (Text.stops_cons (by decide) _) (lexes_blank (by decide) hvalue)))

/-- The text is read as a filter with these conditions and without a clause. -/
def Denotes (d : Dialect) (s : List Char) (cs : List Condition) : Prop :=
  ∃ ls, Lexes s ls ∧ Reads d ls cs ∧ ∀ l ∈ ls, l.isClauseWord = false

theorem denotes_blanks {d : Dialect} {gap s : List Char} (hg : ∀ c ∈ gap, isBlank c = true)
    {cs : List Condition} (h : Denotes d s cs) : Denotes d (gap ++ s) cs := by
  obtain ⟨ls, hl, hr, hc⟩ := h
  exact ⟨ls, lexes_blanks hg hl, hr, hc⟩

theorem denotes_sign {d : Dialect} (hd : d.Readable) {f : String} (hf : f ∈ Field.all)
    {sign value : String} (hsign : sign = "=" ∨ sign = "!=") {c : Condition}
    (hread : comparison d f sign.toList value.toList false = .ok c) {s : List Char}
    {cs : List Condition} (h : Denotes d s cs) :
    Denotes d (signTerm d (d.fields.platformOrKeep f) sign value ++ s) (c :: cs) := by
  obtain ⟨ls, hl, hr, hc⟩ := h
  have hname := hd.name f hf
  simp only [isFieldName, Bool.and_eq_true, Bool.not_eq_true'] at hname
  obtain ⟨⟨⟨hword, hterm⟩, hclause⟩, -⟩ := hname
  refine ⟨.word (d.fields.platformOrKeep f).toList :: .sign sign.toList ::
    .quoted value.toList :: ls, lexes_signTerm hd.quote hword hsign value hl,
    reads_comparison hterm ?_ hr, by simpa [hclause] using hc⟩
  rw [String.ofList_toList, hd.neutral f hf]
  exact hread

theorem denotes_word {d : Dialect} (hd : d.Readable) {f : String} (hf : f ∈ Field.all)
    {word : String} {op : Operator} (hword : isOperatorWord op word.toList = true)
    (value : String) {s : List Char} {cs : List Condition} (h : Denotes d s cs) :
    Denotes d (wordTerm d (d.fields.platformOrKeep f) word value ++ s)
      (keywordCondition f op value.toList :: cs) := by
  obtain ⟨ls, hl, hr, hc⟩ := h
  have hname := hd.name f hf
  simp only [isFieldName, Bool.and_eq_true, Bool.not_eq_true'] at hname
  obtain ⟨⟨⟨hfield, hterm⟩, hclause⟩, -⟩ := hname
  simp only [isOperatorWord, Bool.and_eq_true, Bool.not_eq_true', decide_eq_true_eq] at hword
  obtain ⟨⟨⟨⟨hw, hop⟩, hcl⟩, -⟩, -⟩ := hword
  have hreads := reads_keyword hterm hop hr value.toList
  rw [String.ofList_toList, hd.neutral f hf] at hreads
  exact ⟨.word (d.fields.platformOrKeep f).toList :: .word word.toList ::
    .quoted value.toList :: ls, lexes_wordTerm hd.quote hfield hw value hl, hreads,
    by simpa [hclause, hcl] using hc⟩

theorem denotes_conjunction {d : Dialect} (hd : d.Readable) {s : List Char}
    {cs : List Condition} (h : Denotes d s cs) : Denotes d (d.conjunction.toList ++ s) cs := by
  obtain ⟨w, hconj, hw, hand, hclause, -⟩ := hd.conjunction
  obtain ⟨ls, hl, hr, hc⟩ := h
  refine ⟨.word w :: ls, ?_, reads_and hand hr, by simpa [hclause] using hc⟩
  rw [hconj]
  simp only [List.cons_append, List.append_assoc, List.nil_append]
  exact lexes_blank (by decide) (lexes_word hw (Text.stops_cons (by decide) _)
    (lexes_blank (by decide) hl))

/-! ### Parts between pipes -/

theorem uncut_of_isPlain {s : List Char} (h : isPlain s = true) : Uncut ['|'] s := by
  refine Text.Quoted.uncut_plain fun c hc => ?_
  obtain ⟨hquote, hpipe⟩ : isQuote c = false ∧ c ≠ '|' := by
    simpa using List.all_eq_true.mp h c hc
  exact ⟨hquote, by simpa [Text.Quoted.keepsFrom] using hpipe.symm⟩

theorem uncut_quoted {d : Dialect} (hq : isQuote d.quote = true) (value : String) :
    Uncut ['|'] (quoted d value) :=
  Text.Quoted.uncut_enclose ['|'] hq value.toList

theorem uncut_blank {s : List Char} (h : Uncut ['|'] s) : Uncut ['|'] (' ' :: s) :=
  Text.Quoted.uncut_cons (by decide) (by decide) h

theorem uncut_name {d : Dialect} (hd : d.Readable) {f : String} (hf : f ∈ Field.all) :
    Uncut ['|'] (d.fields.platformOrKeep f).toList := by
  have hname := hd.name f hf
  simp only [isFieldName, Bool.and_eq_true] at hname
  exact uncut_of_isPlain hname.2

theorem uncut_sign {d : Dialect} (hd : d.Readable) {f : String} (hf : f ∈ Field.all)
    {sign : String} (hsign : sign = "=" ∨ sign = "!=") (value : String) :
    Uncut ['|'] (signTerm d (d.fields.platformOrKeep f) sign value) := by
  have hs : Uncut ['|'] sign.toList := by
    rcases hsign with rfl | rfl <;> exact uncut_of_isPlain (by decide)
  have hgap : Uncut ['|'] (if d.spaced then [' '] else []) := by
    split
    · exact uncut_blank (Text.Quoted.uncut_nil ['|'])
    · exact Text.Quoted.uncut_nil ['|']
  exact Text.Quoted.uncut_append (Text.Quoted.uncut_append (Text.Quoted.uncut_append
    (Text.Quoted.uncut_append (uncut_name hd hf) hgap) hs) hgap) (uncut_quoted hd.quote value)

theorem uncut_word {d : Dialect} (hd : d.Readable) {f : String} (hf : f ∈ Field.all)
    {word : String} (hword : isPlain word.toList = true) (value : String) :
    Uncut ['|'] (wordTerm d (d.fields.platformOrKeep f) word value) :=
  Text.Quoted.uncut_append (Text.Quoted.uncut_append (uncut_name hd hf)
    (uncut_blank (uncut_of_isPlain hword))) (uncut_blank (uncut_quoted hd.quote value))

/-! ### Filters -/

/-- The text is a term that is read as the condition wherever it stands in a filter. -/
def IsTerm (d : Dialect) (text : List Char) (c : Condition) : Prop :=
  Uncut ['|'] text ∧ ∀ s cs, Denotes d s cs → Denotes d (text ++ s) (c :: cs)

theorem isTerm_sign {d : Dialect} (hd : d.Readable) {f : String} (hf : f ∈ Field.all)
    {sign value : String} (hsign : sign = "=" ∨ sign = "!=") {c : Condition}
    (hread : comparison d f sign.toList value.toList false = .ok c) :
    IsTerm d (signTerm d (d.fields.platformOrKeep f) sign value) c :=
  ⟨uncut_sign hd hf hsign value, fun _ _ h => denotes_sign hd hf hsign hread h⟩

theorem isTerm_word {d : Dialect} (hd : d.Readable) {f : String} (hf : f ∈ Field.all)
    {word : String} {op : Operator} (hword : isOperatorWord op word.toList = true)
    (value : String) :
    IsTerm d (wordTerm d (d.fields.platformOrKeep f) word value)
      (keywordCondition f op value.toList) := by
  have hplain : isPlain word.toList = true := by
    simp only [isOperatorWord, Bool.and_eq_true] at hword
    exact hword.1.2
  exact ⟨uncut_word hd hf hplain value, fun _ _ h => denotes_word hd hf hword value h⟩

theorem isTerm_term {d : Dialect} (hd : d.Readable) {c : Condition} (hf : c.field ∈ Field.all)
    (hform : TermForm d c) : IsTerm d (term d c) c := by
  cases hform with
  | sign sign value hsign ht hread =>
    rw [ht]
    exact isTerm_sign hd hf hsign hread
  | word _ word value op hword ht hread =>
    have h := isTerm_word hd hf hword value
    rwa [hread, ← ht] at h

/-- Terms joined by the conjunction, with blanks behind, are read one after another. -/
theorem denotes_joined {α : Type} {d : Dialect} (hd : d.Readable) {text : α → List Char}
    {read : α → Condition} {xs : List α} (h : ∀ x ∈ xs, IsTerm d (text x) (read x))
    {gap : List Char} (hg : ∀ c ∈ gap, isBlank c = true) :
    Denotes d (Text.joinWith d.conjunction.toList (xs.map text) ++ gap) (xs.map read) := by
  have hend : Denotes d gap [] := by
    have hl := lexes_blanks hg lexes_nil
    rw [List.append_nil] at hl
    exact ⟨[], hl, reads_nil d, by simp⟩
  induction xs with
  | nil => simpa [Text.joinWith] using hend
  | cons x rest ih =>
    obtain ⟨-, hread⟩ := h x (by simp)
    cases rest with
    | nil => simpa [Text.joinWith_singleton] using hread gap [] hend
    | cons y rest =>
      have hrest := ih fun z hz => h z (by simp [hz])
      have hfirst := hread _ _ (denotes_conjunction hd hrest)
      simpa only [List.map_cons, Text.joinWith_cons_cons, List.append_assoc] using hfirst

theorem uncut_joined {d : Dialect} (hd : d.Readable) {texts : List (List Char)}
    (h : ∀ s ∈ texts, Uncut ['|'] s) :
    Uncut ['|'] (Text.joinWith d.conjunction.toList texts) := by
  obtain ⟨w, hconj, -, -, -, hplain⟩ := hd.conjunction
  have hjoin : Uncut ['|'] d.conjunction.toList := by
    rw [hconj]
    exact Text.Quoted.uncut_append (uncut_blank (uncut_of_isPlain hplain))
      (uncut_blank (Text.Quoted.uncut_nil ['|']))
  induction texts with
  | nil => exact Text.Quoted.uncut_nil ['|']
  | cons s rest ih =>
    have hs := h s (by simp)
    cases rest with
    | nil => simpa [Text.joinWith_singleton] using hs
    | cons t rest =>
      rw [Text.joinWith_cons_cons]
      exact Text.Quoted.uncut_append hs (Text.Quoted.uncut_append hjoin
        (ih fun u hu => h u (by simp [hu])))

/-! ### Commands -/

theorem command_eq {d : Dialect} (hd : d.Readable) {c : Condition}
    (hcmd : isCommand d c = true) :
    command d c = "regex".toList ++
      ' ' :: ((d.fields.platformOrKeep c.field).toList ++ '=' :: quoted d c.value) := by
  have hword : d.regex.word = "regex" := by
    cases hr : d.regex with
    | command w => exact hd.command w hr
    | keyword w => cases ho : c.operator <;> simp [isCommand, ho, hr] at hcmd
  simp [command, hword]

open Text.Quoted in
theorem uncut_command {d : Dialect} (hd : d.Readable) {c : Condition}
    (hf : c.field ∈ Field.all) (hcmd : isCommand d c = true) : Uncut ['|'] (command d c) := by
  rw [command_eq hd hcmd]
  exact uncut_append (uncut_of_isPlain (by decide)) (uncut_blank (uncut_append
    (uncut_name hd hf) (uncut_cons (by decide) (by decide) (uncut_quoted hd.quote c.value))))

theorem trimmed_command {d : Dialect} (hd : d.Readable) {c : Condition}
    (hcmd : isCommand d c = true) : Trimmed (command d c) := by
  have hquote : isBlank d.quote = false := by
    have hq := hd.quote
    simp only [isQuote, Bool.or_eq_true, beq_iff_eq] at hq
    rcases hq with hq | hq <;> rw [hq] <;> decide
  rw [command_eq hd hcmd]
  refine ⟨by simp [Stops, isBlank], ?_⟩
  simp [Stops, quoted, Text.Quoted.enclose, hquote]

/-! ### The whole query -/

theorem operator_of_isCommand {d : Dialect} {c : Condition} (h : isCommand d c = true) :
    c.operator = .regex := by
  cases ho : c.operator <;> simp_all [isCommand]

theorem readRegexCommand_eq {d : Dialect} (hd : d.Readable) {c : Condition}
    (hf : c.field ∈ Field.all) (ho : c.operator = .regex) :
    readRegexCommand d ((d.fields.platformOrKeep c.field).toList ++ '=' :: quoted d c.value) =
      .ok c := by
  have hname := hd.name c.field hf
  simp only [isFieldName, Bool.and_eq_true] at hname
  have hquote : d.quote ≠ '=' := by
    intro he
    have hq := hd.quote
    simp [he, isQuote] at hq
  have hvalue := lexes_quoted hd.quote c.value lexes_nil
  rw [List.append_nil] at hvalue
  have hlex : Lexes ((d.fields.platformOrKeep c.field).toList ++ '=' :: quoted d c.value)
      [.word (d.fields.platformOrKeep c.field).toList, .sign ['='], .quoted c.value.toList] :=
    lexes_word hname.1.1.1 (Text.stops_cons (by decide) _)
      (lexes_sign (.inl rfl) (Text.stops_cons (by simpa using hquote) _) hvalue)
  obtain ⟨ts, hts, hls⟩ := exists_tokens hlex
  obtain ⟨t, _, rfl, ht, hls⟩ := List.map_eq_cons_iff.mp hls
  obtain ⟨u, _, rfl, hu, hls⟩ := List.map_eq_cons_iff.mp hls
  obtain ⟨x, _, rfl, hx, hls⟩ := List.map_eq_cons_iff.mp hls
  cases List.map_eq_nil_iff.mp hls
  simp [readRegexCommand, hts, ht, hu, hx, Lexeme.value?, hd.neutral c.field hf, ← ho, bind,
    Except.bind, pure, Except.pure]

theorem readCommand_eq {d : Dialect} (hd : d.Readable) {c : Condition}
    (hf : c.field ∈ Field.all) (hcmd : isCommand d c = true) (b : RuleBody) {part : List Char}
    (hpart : Text.trim part = command d c) :
    readCommand d b part = .ok { b with conditions := b.conditions ++ [c] } := by
  have hsplit : splitCommand (command d c) = ("regex".toList,
      (d.fields.platformOrKeep c.field).toList ++ '=' :: quoted d c.value) := by
    have hword : ∀ c ∈ "regex".toList, (!isBlank c) = true :=
      List.all_eq_true.mp (by decide)
    rw [command_eq hd hcmd, splitCommand, Text.takeWhile_run hword (Text.stops_cons (by decide) _),
      Text.dropWhile_run hword (Text.stops_cons (by decide) _)]
    rfl
  have hword : String.ofList (Text.asciiLower "regex".toList) = "regex" := by decide
  have hne : (command d c).isEmpty = false := by simp [command_eq hd hcmd]
  have hread := readRegexCommand_eq hd hf (operator_of_isCommand hcmd)
  simp only [readCommand, hpart, hne, hsplit, hword, hread, bind, Except.bind, pure, Except.pure]
  rfl

theorem readCommands_eq {d : Dialect} (hd : d.Readable) {cs : List Condition}
    (hf : ∀ c ∈ cs, c.field ∈ Field.all) (hcmd : ∀ c ∈ cs, isCommand d c = true) (b : RuleBody)
    {parts : List (List Char)} (hparts : parts.map Text.trim = cs.map (command d)) :
    readCommands d b parts = .ok { b with conditions := b.conditions ++ cs } := by
  induction cs generalizing b parts with
  | nil =>
    cases List.map_eq_nil_iff.mp hparts
    simp [readCommands]
  | cons c rest ih =>
    obtain ⟨part, parts, rfl, hpart, hrest⟩ := List.map_eq_cons_iff.mp hparts
    have hc := readCommand_eq hd (hf c (by simp)) (hcmd c (by simp)) b hpart
    have hih := ih (fun x hx => hf x (by simp [hx])) (fun x hx => hcmd x (by simp [hx]))
      { b with conditions := b.conditions ++ [c] } hrest
    simp [readCommands, hc, hih, bind, Except.bind]

theorem term_start {d : Dialect} (hspaced : d.spaced = true) {c : Condition}
    (hform : TermForm d c) :
    ∃ x t, isOperatorStart x = true ∧
      term d c = (d.fields.platformOrKeep c.field).toList ++ ' ' :: x :: t := by
  cases hform with
  | sign sign value hsign ht hread =>
    rcases hsign with rfl | rfl
    · exact ⟨'=', _, by decide, by rw [ht]; simp [signTerm, hspaced]; rfl⟩
    · exact ⟨'!', _, by decide, by rw [ht]; simp [signTerm, hspaced]; rfl⟩
  | word _ word value op hword ht hread =>
    simp only [isOperatorWord, Bool.and_eq_true] at hword
    obtain ⟨-, hstart⟩ := hword
    cases hw : word.toList with
    | nil => simp [hw] at hstart
    | cons x xs =>
      refine ⟨x, xs ++ ' ' :: quoted d value, by simpa [hw] using hstart, ?_⟩
      simp [ht, wordTerm, hw]

theorem readFilter_of_denotes {d : Dialect} {s filter : List Char} {cs : List Condition}
    (hdrop : dropLead s = (filter, none)) (h : Denotes d filter cs) :
    readFilter d s = .ok { conditions := cs } := by
  obtain ⟨ls, hl, hr, hc⟩ := h
  obtain ⟨ts, hts, hls⟩ := exists_tokens hl
  have hclause : splitClause ts = (ts, none) :=
    splitClause_eq fun t ht => hc _ (hls ▸ List.mem_map_of_mem ht)
  simp only [readFilter, hdrop, hts, hclause, hr ts hls, bind, Except.bind, pure, Except.pure]

/-- Behind the lead the filter is read as these conditions, with any blanks after it, and it is
not cut. -/
def IsFilter (d : Dialect) (filter : List Char) (cs : List Condition) : Prop :=
  Uncut ['|'] filter ∧ ∀ gap, (∀ c ∈ gap, isBlank c = true) →
    readFilter d (d.lead.toList ++ filter ++ gap) = .ok { conditions := cs }

/-- Where the lead is read as one, so are the terms behind it. -/
theorem isFilter_joined {α : Type} {d : Dialect} (hd : d.Readable)
    (hlead : ∀ s, dropLead (d.lead.toList ++ s) = (' ' :: s, none)) {text : α → List Char}
    {read : α → Condition} {xs : List α} (h : ∀ x ∈ xs, IsTerm d (text x) (read x)) :
    IsFilter d (Text.joinWith d.conjunction.toList (xs.map text)) (xs.map read) := by
  refine ⟨uncut_joined hd (List.forall_mem_map.mpr fun x hx => (h x hx).1), fun gap hg => ?_⟩
  have hblank : ∀ c ∈ [' '], isBlank c = true := List.forall_mem_singleton.mpr rfl
  refine readFilter_of_denotes ?_ (denotes_blanks hblank (denotes_joined hd h hg))
  rw [List.append_assoc, hlead]
  rfl

theorem isFilter_filterText {d : Dialect} (hd : d.Readable) {cs : List Condition}
    (hne : cs ≠ []) (hf : ∀ c ∈ cs, c.field ∈ Field.all) (hform : ∀ c ∈ cs, TermForm d c) :
    IsFilter d (filterText d cs) cs := by
  have hterms : ∀ c ∈ cs, IsTerm d (term d c) (id c) := fun c hc =>
    isTerm_term hd (hf c hc) (hform c hc)
  have htext : filterText d cs = Text.joinWith d.conjunction.toList (cs.map (term d)) := by
    simp [filterText, hne]
  rw [htext]
  rcases hd.lead with hlead | ⟨hlead, hspaced, hkept⟩
  · simpa using isFilter_joined hd hlead hterms
  · refine ⟨uncut_joined hd (List.forall_mem_map.mpr fun c hc => (hterms c hc).1),
      fun gap hg => ?_⟩
    have hden := denotes_joined hd hterms hg
    rw [List.map_id] at hden
    refine readFilter_of_denotes ?_ hden
    obtain ⟨c, rest, rfl⟩ := List.exists_cons_of_ne_nil hne
    obtain ⟨x, t, hx, ht⟩ := term_start hspaced (hform c (by simp))
    have hk := hkept c.field (hf c (by simp)) x
      (t ++ (rest.map (term d)).flatMap (d.conjunction.toList ++ ·) ++ gap) hx
    rw [List.map_cons, Text.joinWith_cons, ht, hlead]
    simpa using hk

/-- A query is read as its filter and then its commands. -/
theorem parse_of_filter {d : Dialect} (hd : d.Readable) {filter : List Char}
    {cs commands : List Condition} (hne : cs ≠ []) (hfilter : IsFilter d filter cs)
    (hf : ∀ c ∈ commands, c.field ∈ Field.all) (hcmd : ∀ c ∈ commands, isCommand d c = true) :
    parse d (d.lead.toList ++ filter ++ commands.flatMap fun c => " | ".toList ++ command d c) =
      .ok { conditions := cs ++ commands } := by
  have hpieces : ∀ s ∈ commands.map (command d), Uncut ['|'] s ∧ Trimmed s := by
    intro s hs
    obtain ⟨c, hc, rfl⟩ := List.mem_map.mp hs
    exact ⟨uncut_command hd (hf c hc) (hcmd c hc), trimmed_command hd (hcmd c hc)⟩
  obtain ⟨gap, parts, hparts, hgap, htrim⟩ :=
    Text.Quoted.split_pieces (by decide) hpieces (d.lead.toList ++ filter).reverse
  have huncut : Uncut ['|'] (d.lead.toList ++ filter) :=
    Text.Quoted.uncut_append (uncut_of_isPlain hd.plainLead) hfilter.1
  have htext : (commands.flatMap fun c => " | ".toList ++ command d c) =
      (commands.map (command d)).flatMap fun s => ' ' :: (['|'] ++ ' ' :: s) := by
    simp [List.flatMap_map]
  have hfirst := hfilter.2 gap hgap
  have hrest := readCommands_eq hd hf hcmd { conditions := cs } htrim
  rw [htext, parse, Text.Quoted.split, huncut, List.append_nil, hparts, List.reverse_reverse]
  simp only [hfirst, hrest, bind, Except.bind]
  simp [hne, pure, Except.pure]

/-- A query is read as its terms and then its commands. -/
theorem parse_of_readable {d : Dialect} (hd : d.Readable) {b : RuleBody}
    (hf : ∀ c ∈ b.conditions, c.field ∈ Field.all) (hstages : b.stages = [])
    (hterms : b.conditions.filter (fun c => !isCommand d c) ≠ [])
    (hn : ∀ c ∈ b.conditions, Normal d c) :
    ∃ text body, render d b = .ok text ∧ parse d text = .ok body ∧ body.stages = [] ∧
      body.conditions = b.conditions.filter (fun c => !isCommand d c) ++
        b.conditions.filter (isCommand d) := by
  have hne : b.conditions ≠ [] := fun h => hterms (by simp [h])
  set terms := b.conditions.filter fun c => !isCommand d c with hts
  set commands := b.conditions.filter (isCommand d) with hcs
  have hform : ∀ c ∈ terms, TermForm d c := by
    intro c hc
    obtain ⟨hmem, hcmd⟩ := List.mem_filter.mp hc
    exact termForm hd (by simpa using hcmd) (hn c hmem)
  have hft : ∀ c ∈ terms, c.field ∈ Field.all := fun c hc => hf c (List.mem_filter.mp hc).1
  have hfc : ∀ c ∈ commands, c.field ∈ Field.all := fun c hc => hf c (List.mem_filter.mp hc).1
  have hcmd : ∀ c ∈ commands, isCommand d c = true := fun c hc => (List.mem_filter.mp hc).2
  refine ⟨d.lead.toList ++ filterText d terms ++
    commands.flatMap fun c => " | ".toList ++ command d c,
    { conditions := terms ++ commands }, ?_, ?_, rfl, rfl⟩
  · simp [render, hne, hstages, ← hts, ← hcs]
  · exact parse_of_filter hd hterms (isFilter_filterText hd hterms hft hform) hfc hcmd

/-- Where regular expressions are comparisons, all conditions keep their order. -/
theorem parse_of_keyword {d : Dialect} (hd : d.Readable) {w : String}
    (hr : d.regex = .keyword w) {b : RuleBody} (hne : b.conditions ≠ [])
    (hf : ∀ c ∈ b.conditions, c.field ∈ Field.all) (hstages : b.stages = [])
    (hn : ∀ c ∈ b.conditions, Normal d c) :
    ∃ text body, render d b = .ok text ∧ parse d text = .ok body ∧ body.stages = [] ∧
      body.conditions = b.conditions := by
  have hnone : ∀ c, isCommand d c = false := fun c => by
    cases ho : c.operator <;> simp [isCommand, ho, hr]
  have hterms : b.conditions.filter (fun c => !isCommand d c) = b.conditions := by simp [hnone]
  have hcommands : b.conditions.filter (isCommand d) = [] := by simp [hnone]
  have h := parse_of_readable hd hf hstages (by rwa [hterms]) hn
  rwa [hterms, hcommands, List.append_nil] at h

/-- Whatever their values hold, conditions on neutral fields are read back from the query that is
written for them, if those written as wildcard patterns are in normal form: all in their order,
except that the regular expressions of the dialect that has a command for them come last. -/
theorem conditions_read_back (d : Dialect) (hd : d ∈ [.splunk, .qradar, .siem, .eql])
    (b : RuleBody) (hne : b.conditions ≠ []) (hf : ∀ c ∈ b.conditions, c.field ∈ Field.all)
    (hstages : b.stages = [])
    (hsplunk : d.id = "splunk" → ∃ c ∈ b.conditions, c.operator ≠ .regex)
    (hn : ∀ c ∈ b.conditions, Normal d c) :
    ∃ text body, render d b = .ok text ∧ parse d text = .ok body ∧ body.stages = [] ∧
      body.conditions =
        if d.id = "splunk" then
          b.conditions.filter (·.operator ≠ .regex) ++ b.conditions.filter (·.operator = .regex)
        else b.conditions := by
  simp only [List.mem_cons, List.not_mem_nil, or_false] at hd
  rcases hd with rfl | rfl | rfl | rfl
  · have hregex : isCommand .splunk = fun c => decide (c.operator = .regex) := by
      funext ⟨field, op, value⟩
      cases op <;> rfl
    obtain ⟨c, hc, ho⟩ := hsplunk rfl
    have hterms : b.conditions.filter (fun c => !isCommand .splunk c) ≠ [] :=
      List.ne_nil_of_mem (List.mem_filter.mpr ⟨hc, by simp [hregex, ho]⟩)
    have h := parse_of_readable readable_splunk hf hstages hterms hn
    have hid : Dialect.splunk.id = "splunk" := rfl
    simpa [hid, hregex] using h
  · exact parse_of_keyword readable_qradar rfl hne hf hstages hn
  · exact parse_of_keyword readable_siem rfl hne hf hstages hn
  · exact parse_of_keyword readable_eql rfl hne hf hstages hn

/-- Quotes, backslashes, pipes, parentheses and line breaks in the values are no obstacle, and
the regular expression moves behind the other conditions. -/
theorem awkward_values_read_back :
    let regex : Condition := ⟨Field.payload, .regex, "a|(b\\.\"c')\n"⟩
    let inside : Condition := ⟨Field.user, .contains, "x\"'| \\ (y"⟩
    let equal : Condition := ⟨Field.hostname, .equals, "web*01\\"⟩
    ∃ text body, render .splunk { conditions := [regex, inside, equal] } = .ok text ∧
      parse .splunk text = .ok body ∧ body.stages = [] ∧
      body.conditions = [inside, equal, regex] := by
  intro regex inside equal
  exact conditions_read_back .splunk (by simp) { conditions := [regex, inside, equal] } (by simp)
    (by decide +kernel) rfl (fun _ => ⟨inside, by simp, by decide⟩) (by decide +kernel)

end RuleExchange.Query
