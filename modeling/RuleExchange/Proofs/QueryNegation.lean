import Mathlib.Algebra.Ring.Parity
import RuleExchange.Proofs.QueryTokens

/-! Negations before a comparison. A filter can hold any number of them before one term, in any
spelling, and an inequality sign is one more. The reader remembers only that there has been a
negation, not how many: it lets a negation and an inequality sign cancel each other, but not two
negations. So a term is read with the polarity that its negations give it when there are none of
them or an odd number, and with the opposite one when there are two or any larger even number. -/

namespace RuleExchange.Query

open Text (Stops isBlank)
open Text.Quoted (isQuote enclose)

/-! ### Words that are told by their letters -/

/-- Where a word ends there is no letter, so that the character has one case only. -/
theorem toLower_of_endsWord {c : Char} (h : endsWord c = true) : c.toLower = c := by
  unfold Char.toLower
  split
  · rename_i hupper
    exfalso
    obtain ⟨hA, hZ⟩ := hupper
    rw [ge_iff_le, UInt32.le_iff_toNat_le] at hA
    rw [UInt32.le_iff_toNat_le] at hZ
    have hlow : 65 ≤ c.toNat := hA
    have hhigh : c.toNat ≤ 90 := hZ
    simp only [endsWord, isSignChar, isBlank, Bool.or_eq_true, beq_iff_eq] at h
    rcases h with ((h | h) | rfl) | rfl
    · simp only [Bool.and_eq_true, decide_eq_true_eq] at h
      omega
    · rcases h with ((rfl | rfl) | rfl) | rfl <;> revert hlow hhigh <;> decide
    · revert hlow
      decide
    · revert hlow
      decide
  · rfl

theorem toLower_of_isQuote {c : Char} (h : isQuote c = true) : c.toLower = c := by
  simp only [isQuote, Bool.or_eq_true, beq_iff_eq] at h
  rcases h with rfl | rfl <;> rfl

/-- Any spelling of a keyword is a word. -/
theorem isWordText?_of_isWordText {k : String} {w : List Char}
    (hk : isWordText? (Text.asciiLower k.toList) = true) (h : isWordText k w = true) :
    isWordText? w = true := by
  have heq : Text.asciiLower w = Text.asciiLower k.toList := by
    simpa [isWordText, Text.sameIgnoringCase] using h
  rw [← heq] at hk
  simp only [isWordText?, Bool.and_eq_true, List.all_eq_true] at hk ⊢
  obtain ⟨hall, hhead⟩ := hk
  constructor
  · intro c hc
    have hlow := hall c.toLower (List.mem_map_of_mem hc)
    cases hends : endsWord c with
    | false => rfl
    | true => rwa [toLower_of_endsWord hends, hends] at hlow
  · cases w with
    | nil => cases hhead
    | cons c cs =>
      cases hquote : isQuote c with
      | false => simp [hquote]
      | true => simp [Text.asciiLower, toLower_of_isQuote hquote, hquote] at hhead

/-! ### Negations -/

/-- The word `not` in any spelling, with the blanks behind it. -/
structure Negation where
  word : List Char
  gap : List Char
  isNot : isWordText "not" word = true
  isGap : ∀ c ∈ gap, isBlank c = true
  gap_ne_nil : gap ≠ []

def Negation.text (n : Negation) : List Char := n.word ++ n.gap

def Lexeme.isNot : Lexeme → Bool
  | .word w => isWordText "not" w
  | _ => false

theorem lexes_negations (ns : List Negation) {s : List Char} {ls : List Lexeme}
    (h : Lexes s ls) :
    Lexes (ns.flatMap Negation.text ++ s) (ns.map (fun n => .word n.word) ++ ls) := by
  induction ns with
  | nil => exact h
  | cons n ns ih =>
    have hword : isWordText? n.word = true := isWordText?_of_isWordText (by decide) n.isNot
    have hstop : Stops (fun c => !endsWord c) (n.gap ++ (ns.flatMap Negation.text ++ s)) := by
      obtain ⟨c, cs, hgap⟩ := List.exists_cons_of_ne_nil n.gap_ne_nil
      have hc := n.isGap c (by simp [hgap])
      rw [hgap]
      exact Text.stops_cons (endsWord_of_isBlank c hc) _
    have hlex := lexes_word hword hstop (lexes_blanks n.isGap ih)
    simpa [Negation.text] using hlex

theorem readTerms_not {d : Dialect} {t : Token} (ht : t.lexeme.isNot = true) (negated : Bool)
    (ts : List Token) : readTerms d negated (t :: ts) = readTerms d true ts := by
  cases hl : t.lexeme with
  | quoted v => simp [hl, Lexeme.isNot] at ht
  | sign s => simp [hl, Lexeme.isNot] at ht
  | word w =>
    have hnot : isWordText "not" w = true := by simpa [hl, Lexeme.isNot] using ht
    have hlow : Text.asciiLower w = Text.asciiLower "not".toList := by
      simpa [isWordText, Text.sameIgnoringCase] using hnot
    have hother : isWordText "and" w = false ∧ isWordText "or" w = false := by
      simp only [isWordText, Text.sameIgnoringCase, hlow]
      decide
    rw [readTerms.eq_def]
    simp [hl, hnot, hother]

/-- However many negations there are, one waits for the term. -/
theorem readTerms_nots {d : Dialect} {nots : List Token}
    (h : ∀ t ∈ nots, t.lexeme.isNot = true) (negated : Bool) (ts : List Token) :
    readTerms d negated (nots ++ ts) = readTerms d (negated || !nots.isEmpty) ts := by
  induction nots generalizing negated with
  | nil => simp
  | cons t nots ih =>
    rw [List.cons_append, readTerms_not (h t (by simp)), ih fun u hu => h u (by simp [hu])]
    simp

/-! ### Comparisons -/

/-- A comparison of a field with a quoted value, with blanks between its parts. -/
structure QuotedComparison where
  field : List Char
  before : List Char
  /-- Whether the sign is that of an inequality. -/
  differs : Bool
  after : List Char
  quote : Char
  value : List Char
  behind : List Char
  isWord : isWordText? field = true
  isTerm : isTermWord field = true
  opens : isQuote quote = true
  isGap : ∀ c ∈ before ++ after ++ behind, isBlank c = true

namespace QuotedComparison

variable (x : QuotedComparison)

def sign : List Char := if x.differs then ['!', '='] else ['=']

def text : List Char :=
  x.field ++ (x.before ++ (x.sign ++ (x.after ++ (enclose x.quote x.value ++ x.behind))))

def lexemes : List Lexeme := [.word x.field, .sign x.sign, .quoted x.value]

theorem lexes : Lexes x.text x.lexemes := by
  have hgap := x.isGap
  simp only [List.mem_append, or_imp, forall_and] at hgap
  obtain ⟨⟨hbefore, hafter⟩, hbehind⟩ := hgap
  have hsign : x.sign = ['='] ∨ x.sign = ['!', '='] := by
    cases hd : x.differs <;> simp [sign, hd]
  have hvalue : Lexes (enclose x.quote x.value ++ x.behind) [.quoted x.value] := by
    have hend := lexes_blanks hbehind lexes_nil
    rw [List.append_nil] at hend
    exact lexes_enclose x.opens x.value hend
  have hquote : Stops (· == '=') (x.after ++ (enclose x.quote x.value ++ x.behind)) := by
    refine stops_blanks (fun c hc => ?_) hafter (stops_enclose x.opens x.value x.behind)
    rw [beq_eq_false_iff_ne]
    rintro rfl
    cases hc
  have hfield : Stops (fun c => !endsWord c)
      (x.before ++ (x.sign ++ (x.after ++ (enclose x.quote x.value ++ x.behind)))) :=
    stops_blanks endsWord_of_isBlank hbefore (stops_sign hsign _)
  exact lexes_word x.isWord hfield (lexes_blanks hbefore
    (lexes_sign hsign hquote (lexes_blanks hafter hvalue)))

/-- The condition of the comparison when it is an equality that is not negated, or an inequality
that is. -/
def equality (d : Dialect) : Condition :=
  let field := d.fields.canonicalOrKeep (String.ofList x.field)
  if d.wildcardEquality then .ofPattern field (String.ofList x.value) d.wildcard
  else ⟨field, .equals, String.ofList x.value⟩

/-- The condition of the comparison otherwise. -/
def inequality (d : Dialect) : Condition :=
  ⟨d.fields.canonicalOrKeep (String.ofList x.field), .notEquals, String.ofList x.value⟩

theorem operator_equality (d : Dialect) : (x.equality d).operator ≠ .notEquals := by
  unfold equality
  split
  · simp only [Condition.ofPattern, Condition.normalize]
    repeat' split
    all_goals simp
  · simp

/-- A sign of inequality and a negation cancel each other. -/
theorem comparison_eq (d : Dialect) (negated : Bool) :
    comparison d (d.fields.canonicalOrKeep (String.ofList x.field)) x.sign x.value negated =
      .ok (if x.differs = negated then x.equality d else x.inequality d) := by
  cases hx : x.differs <;> cases negated <;> cases hw : d.wildcardEquality <;>
    simp [comparison, sign, hx, signEquality, equality, inequality, hw, bind, Except.bind, pure,
      Except.pure]

/-- The comparison behind some negations is read as one condition. -/
theorem readTerms_negated (d : Dialect) {nots ts : List Token}
    (hnots : ∀ t ∈ nots, t.lexeme.isNot = true) (hts : ts.map Token.lexeme = x.lexemes) :
    readTerms d false (nots ++ ts) =
      .ok [if x.differs = nots.isEmpty then x.inequality d else x.equality d] := by
  obtain ⟨t, _, rfl, ht, hts⟩ := List.map_eq_cons_iff.mp hts
  obtain ⟨u, _, rfl, hu, hts⟩ := List.map_eq_cons_iff.mp hts
  obtain ⟨v, _, rfl, hv, hts⟩ := List.map_eq_cons_iff.mp hts
  cases List.map_eq_nil_iff.mp hts
  rw [readTerms_nots hnots, readTerms_comparison x.isTerm ht hu hv, comparison_eq]
  cases x.differs <;> cases nots.isEmpty <;> rfl

end QuotedComparison

/-! ### Filters -/

theorem exists_negated_tokens (ns : List Negation) (x : QuotedComparison) :
    ∃ nots ts, tokenize (ns.flatMap Negation.text ++ x.text) = .ok (nots ++ ts) ∧
      nots.length = ns.length ∧ (∀ t ∈ nots, t.lexeme.isNot = true) ∧
      ts.map Token.lexeme = x.lexemes := by
  obtain ⟨all, hall, hls⟩ := exists_tokens (lexes_negations ns x.lexes)
  obtain ⟨nots, ts, rfl, hnots, hts⟩ := List.map_eq_append_iff.mp hls
  refine ⟨nots, ts, hall, by simpa using congrArg List.length hnots, fun t ht => ?_, hts⟩
  obtain ⟨n, -, hn⟩ := List.mem_map.mp (hnots ▸ List.mem_map_of_mem ht)
  rw [← hn]
  exact n.isNot

/-- One negation at most and all of them give the same polarity when there are none or an odd
number. -/
theorem polarity_iff_odd (n : Nat) (differs : Bool) :
    ((differs = true ↔ n = 0) ↔ Odd (n + differs.toNat)) ↔ n = 0 ∨ Odd n := by
  rw [Nat.odd_iff, Nat.odd_iff]
  cases differs <;> simp <;> omega

/-- A filter with any number of negations before a comparison of a field with a quoted value is
read as one condition. It is an inequality when just one of the two is there, a negation or the
sign of an inequality, so that all negations together count as one. To count each of them comes to
the same exactly when there are none or an odd number. -/
theorem negations_count_as_one (d : Dialect) (ns : List Negation) (x : QuotedComparison) :
    ∃ ts c, tokenize (ns.flatMap Negation.text ++ x.text) = .ok ts ∧
      readTerms d false ts = .ok [c] ∧
      c = (if x.differs = ns.isEmpty then x.inequality d else x.equality d) ∧
      (c.operator = .notEquals ↔ x.differs = ns.isEmpty) ∧
      ((c.operator = .notEquals ↔ Odd (ns.length + x.differs.toNat)) ↔
        ns.length = 0 ∨ Odd ns.length) := by
  obtain ⟨nots, ts, hall, hlen, hnots, hts⟩ := exists_negated_tokens ns x
  have hread := x.readTerms_negated d hnots hts
  have hempty : nots.isEmpty = ns.isEmpty := by
    rw [Bool.eq_iff_iff, List.isEmpty_iff_length_eq_zero, List.isEmpty_iff_length_eq_zero, hlen]
  rw [hempty] at hread
  have hoperator : (if x.differs = ns.isEmpty then x.inequality d else x.equality d).operator =
      .notEquals ↔ x.differs = ns.isEmpty := by
    split
    · simpa [QuotedComparison.inequality] using ‹x.differs = ns.isEmpty›
    · simpa [x.operator_equality d] using ‹¬ x.differs = ns.isEmpty›
  refine ⟨nots ++ ts, _, hall, hread, rfl, hoperator, ?_⟩
  rw [hoperator, Bool.eq_iff_iff, List.isEmpty_iff_length_eq_zero]
  exact polarity_iff_odd ns.length x.differs

/-- Three negations before an inequality sign give an equality, as their number demands. -/
theorem three_negations_and_sign_cancel :
    ∃ ts c, tokenize "NOT nOt  not a!= 'o\\'brien' ".toList = .ok ts ∧
      readTerms .siem false ts = .ok [c] ∧ c = ⟨"a", .equals, "o'brien"⟩ ∧
      (c.operator = .notEquals ↔ Odd (3 + 1)) := by
  let ns : List Negation :=
    [⟨"NOT".toList, [' '], by decide, by simp [isBlank], by decide⟩,
      ⟨"nOt".toList, [' ', ' '], by decide, by simp [isBlank], by decide⟩,
      ⟨"not".toList, [' '], by decide, by simp [isBlank], by decide⟩]
  let x : QuotedComparison :=
    { field := ['a'], before := [], differs := true, after := [' '], quote := '\'',
      value := "o'brien".toList, behind := [' '], isWord := by decide, isTerm := by decide,
      opens := by decide, isGap := by simp [isBlank] }
  have htext : ns.flatMap Negation.text ++ x.text = "NOT nOt  not a!= 'o\\'brien' ".toList := by
    decide
  obtain ⟨ts, c, hts, hread, hc, -, hcount⟩ := negations_count_as_one .siem ns x
  rw [htext] at hts
  refine ⟨ts, c, hts, hread, ?_, hcount.mpr (.inr (by decide))⟩
  rw [hc]
  decide

/-- Two negations do not cancel each other. -/
theorem two_negations_stay_negation :
    ((tokenize "NOT NOT user=\"bob\"".toList).bind (readTerms .splunk false)).toOption =
      some [⟨"user", .notEquals, "bob"⟩] ∧ ¬ Odd 2 := by
  decide +kernel

end RuleExchange.Query
