import RuleExchange.Proofs.TextReading
import RuleExchange.Query.Reader

/-! Tokens of a filter that is put together from words, signs and quoted values. Each
lemma reads one of them off the front of a text, whatever follows, so that the tokens of
a filter are found by going through it from the left. What terms are read from tokens
depends on the lexemes alone. -/

namespace RuleExchange.Query

open Text (Stops isBlank)
open Text.Quoted (isQuote escape enclose)

/-! ### Lexemes of a text -/

/-- With enough fuel the text is read as tokens with these lexemes. -/
def Lexes (s : List Char) (lexemes : List Lexeme) : Prop :=
  ∀ size fuel, s.length < fuel →
    ∃ ts, tokenizeFrom size fuel s = .ok ts ∧ ts.map Token.lexeme = lexemes

theorem lexes_nil : Lexes [] [] := by
  intro size fuel hf
  cases fuel with
  | zero => cases hf
  | succ fuel => exact ⟨[], rfl, rfl⟩

theorem exists_tokens {s : List Char} {ls : List Lexeme} (h : Lexes s ls) :
    ∃ ts, tokenize s = .ok ts ∧ ts.map Token.lexeme = ls :=
  h (Text.octets s) (s.length + 1) (Nat.lt_succ_self _)

theorem lexes_blank {c : Char} (hc : isBlank c = true) {s : List Char} {ls : List Lexeme}
    (h : Lexes s ls) : Lexes (c :: s) ls := by
  intro size fuel hf
  cases fuel with
  | zero => cases hf
  | succ fuel =>
    rw [tokenizeFrom, if_pos hc]
    exact h size fuel (Nat.lt_of_succ_lt_succ hf)

theorem lexes_blanks {gap s : List Char} {ls : List Lexeme} (hg : ∀ c ∈ gap, isBlank c = true)
    (h : Lexes s ls) : Lexes (gap ++ s) ls := by
  induction gap with
  | nil => exact h
  | cons c cs ih => exact lexes_blank (hg c (by simp)) (ih fun x hx => hg x (by simp [hx]))

theorem stops_blanks {p : Char → Bool} (hp : ∀ c, isBlank c = true → p c = false)
    {gap s : List Char} (hg : ∀ c ∈ gap, isBlank c = true) (hs : Stops p s) :
    Stops p (gap ++ s) := by
  cases gap with
  | nil => exact hs
  | cons c cs => exact Text.stops_cons (hp c (hg c (by simp))) _

theorem endsWord_of_isBlank (c : Char) (h : isBlank c = true) : (!endsWord c) = false := by
  simp [endsWord, h]

/-- The characters can be read as one word. -/
def isWordText? (w : List Char) : Bool :=
  w.all (fun c => !endsWord c) && w.head?.any (fun c => !isQuote c)

theorem lexes_word {w s : List Char} {ls : List Lexeme} (hw : isWordText? w = true)
    (hs : Stops (fun c => !endsWord c) s) (h : Lexes s ls) :
    Lexes (w ++ s) (.word w :: ls) := by
  simp only [isWordText?, Bool.and_eq_true, List.all_eq_true] at hw
  obtain ⟨hall, hhead⟩ := hw
  cases w with
  | nil => cases hhead
  | cons c cs =>
    have hc : endsWord c = false := by simpa using hall c (by simp)
    have hq : ¬ (c = '"' ∨ c = '\'') := by simpa [isQuote] using hhead
    simp only [endsWord, Bool.or_eq_false_iff, beq_eq_false_iff_ne] at hc
    obtain ⟨⟨⟨hb, hsign⟩, hopen⟩, hclose⟩ := hc
    intro size fuel hf
    cases fuel with
    | zero => cases hf
    | succ fuel =>
      have hlen : s.length < fuel := by
        simp only [List.length_append, List.length_cons] at hf
        omega
      obtain ⟨ts, hts, hls⟩ := h size fuel hlen
      refine ⟨⟨.word (c :: cs), c :: cs ++ s⟩ :: ts, ?_, by simp [hls]⟩
      have htake := Text.takeWhile_run hall hs
      have hdrop := Text.dropWhile_run hall hs
      simp only [List.cons_append] at htake hdrop
      simp [tokenizeFrom, hb, hq, hopen, hclose, hsign, htake, hdrop, hts, bind, Except.bind,
        pure, Except.pure]

theorem readQuoted_cons {q c : Char} (hc : c ≠ '\\') (cs : List Char) :
    readQuoted q (c :: cs) =
      if c = q then some ([], cs) else (readQuoted q cs).map fun (v, t) => (c :: v, t) := by
  cases cs <;> simp [readQuoted, hc]

theorem readQuoted_escape {q : Char} (hq : isQuote q = true) (v rest : List Char) :
    readQuoted q (escape q v ++ q :: rest) = some (v, rest) := by
  induction v with
  | nil => simp [escape, readQuoted_cons (Text.Quoted.ne_backslash_of_isQuote hq)]
  | cons c cs ih =>
    by_cases hc : c = '\\' ∨ c = q
    · simp [escape, if_pos hc, readQuoted, hc.symm, ih]
    · obtain ⟨hb, hne⟩ := not_or.mp hc
      simp [escape, readQuoted_cons hb, hb, hne, ih]

/-- A quoted text is read as its value, whatever follows it. -/
theorem tokenizeFrom_enclose {q : Char} (hq : isQuote q = true) (size fuel : Nat)
    (v s : List Char) : tokenizeFrom size (fuel + 1) (enclose q v ++ s) = do
      let ts ← tokenizeFrom size fuel s
      return ⟨.quoted v, enclose q v ++ s⟩ :: ts := by
  have hquote : q = '"' ∨ q = '\'' := by simpa [isQuote] using hq
  have hblank : isBlank q = false := by rcases hquote with rfl | rfl <;> decide
  simp [enclose, tokenizeFrom, hblank, hquote, readQuoted_escape hq]

theorem lexes_enclose {q : Char} (hq : isQuote q = true) (v : List Char) {s : List Char}
    {ls : List Lexeme} (h : Lexes s ls) : Lexes (enclose q v ++ s) (.quoted v :: ls) := by
  intro size fuel hf
  cases fuel with
  | zero => cases hf
  | succ fuel =>
    have hlen : s.length < fuel := by
      simp only [enclose, List.length_append, List.length_cons] at hf
      omega
    obtain ⟨ts, hts, hls⟩ := h size fuel hlen
    refine ⟨⟨.quoted v, enclose q v ++ s⟩ :: ts, ?_, by simp [hls]⟩
    rw [tokenizeFrom_enclose hq, hts]
    rfl

/-- A word ends where a sign of equality or inequality begins. -/
theorem stops_sign {sign : List Char} (hsign : sign = ['='] ∨ sign = ['!', '='])
    (s : List Char) : Stops (fun c => !endsWord c) (sign ++ s) := by
  rcases hsign with rfl | rfl <;> exact Text.stops_cons (by decide) _

/-- A quoted value does not lengthen the sign that it follows. -/
theorem stops_enclose {q : Char} (hq : isQuote q = true) (v s : List Char) :
    Stops (· == '=') (enclose q v ++ s) := by
  rw [Text.stops_eq_iff]
  rintro ⟨⟩
  cases hq

/-- A sign of equality or inequality is read alone when no equals sign follows it. -/
theorem lexes_sign {sign s : List Char} (hsign : sign = ['='] ∨ sign = ['!', '='])
    (hs : Stops (· == '=') s) {ls : List Lexeme} (h : Lexes s ls) :
    Lexes (sign ++ s) (.sign sign :: ls) := by
  obtain ⟨c, cs, rfl, hc, hb, hread⟩ : ∃ c cs, sign = c :: cs ∧ isSignChar c = true ∧
      (isBlank c = false ∧ ¬ (c = '"' ∨ c = '\'') ∧ ¬ (c = '(' ∨ c = ')')) ∧
      readSign c (cs ++ s) = (c :: cs, s) := by
    rcases hsign with rfl | rfl
    · refine ⟨'=', [], rfl, by decide, by decide, ?_⟩
      cases s with
      | nil => rfl
      | cons n rest =>
        have hn : n ≠ '=' := by simpa using hs n rfl
        simp [readSign, hn]
    · exact ⟨'!', ['='], rfl, by decide, by decide, by simp [readSign]⟩
  intro size fuel hf
  cases fuel with
  | zero => cases hf
  | succ fuel =>
    have hlen : s.length < fuel := by
      simp only [List.length_append, List.length_cons] at hf
      omega
    obtain ⟨ts, hts, hls⟩ := h size fuel hlen
    refine ⟨⟨.sign (c :: cs), c :: cs ++ s⟩ :: ts, ?_, by simp [hls]⟩
    simp [tokenizeFrom, hb, hc, hread, hts, bind, Except.bind, pure, Except.pure]

/-! ### Terms -/

/-- From tokens with these lexemes the terms are read as these conditions. -/
def Reads (d : Dialect) (lexemes : List Lexeme) (cs : List Condition) : Prop :=
  ∀ ts : List Token, ts.map Token.lexeme = lexemes → readTerms d false ts = .ok cs

/-- The word neither joins nor negates terms. -/
def isTermWord (w : List Char) : Bool :=
  !isWordText "and" w && !isWordText "or" w && !isWordText "not" w

theorem reads_nil (d : Dialect) : Reads d [] [] := by
  intro ts hts
  cases List.map_eq_nil_iff.mp hts
  simp [readTerms]

theorem reads_and {d : Dialect} {w : List Char} (hw : isWordText "and" w = true)
    {ls : List Lexeme} {cs : List Condition} (h : Reads d ls cs) :
    Reads d (.word w :: ls) cs := by
  intro ts hts
  obtain ⟨t, rest, rfl, ht, hrest⟩ := List.map_eq_cons_iff.mp hts
  rw [readTerms.eq_def]
  simp [ht, hw, h rest hrest]

/-- A comparison, before which a negation may wait. -/
theorem readTerms_comparison {d : Dialect} {w sign value : List Char} (hw : isTermWord w = true)
    {t u x : Token} (ht : t.lexeme = .word w) (hu : u.lexeme = .sign sign)
    (hx : x.lexeme = .quoted value) (negated : Bool) (rest : List Token) :
    readTerms d negated (t :: u :: x :: rest) = do
      let c ← comparison d (d.fields.canonicalOrKeep (String.ofList w)) sign value negated
      let cs ← readTerms d false rest
      return c :: cs := by
  simp only [isTermWord, Bool.and_eq_true, Bool.not_eq_true'] at hw
  rw [readTerms.eq_def]
  simp [ht, hu, hx, hw, Lexeme.value?]

theorem reads_comparison {d : Dialect} {w sign value : List Char} (hw : isTermWord w = true)
    {c : Condition}
    (hc : comparison d (d.fields.canonicalOrKeep (String.ofList w)) sign value false = .ok c)
    {ls : List Lexeme} {cs : List Condition} (h : Reads d ls cs) :
    Reads d (.word w :: .sign sign :: .quoted value :: ls) (c :: cs) := by
  intro ts hts
  obtain ⟨t, _, rfl, ht, hts⟩ := List.map_eq_cons_iff.mp hts
  obtain ⟨u, _, rfl, hu, hts⟩ := List.map_eq_cons_iff.mp hts
  obtain ⟨x, rest, rfl, hx, hrest⟩ := List.map_eq_cons_iff.mp hts
  rw [readTerms_comparison hw ht hu hx, hc, h rest hrest]
  rfl

theorem reads_keyword {d : Dialect} {w k : List Char} (hw : isTermWord w = true)
    {op : Operator} (hk : keywordOperator? k = some op) {ls : List Lexeme} {cs : List Condition}
    (h : Reads d ls cs) (value : List Char) :
    Reads d (.word w :: .word k :: .quoted value :: ls)
      (keywordCondition (d.fields.canonicalOrKeep (String.ofList w)) op value :: cs) := by
  intro ts hts
  obtain ⟨t, _, rfl, ht, hts⟩ := List.map_eq_cons_iff.mp hts
  obtain ⟨u, _, rfl, hu, hts⟩ := List.map_eq_cons_iff.mp hts
  obtain ⟨x, rest, rfl, hx, hrest⟩ := List.map_eq_cons_iff.mp hts
  simp only [isTermWord, Bool.and_eq_true, Bool.not_eq_true'] at hw
  rw [readTerms.eq_def]
  simp [ht, hu, hx, hw, hk, Lexeme.value?, h rest hrest, bind, Except.bind, pure, Except.pure]

/-! ### Clauses -/

def Lexeme.isClauseWord : Lexeme → Bool
  | .word w => clauseWords.any fun k => isWordText k w
  | _ => false

@[simp] theorem isClauseWord_sign (s : List Char) : (Lexeme.sign s).isClauseWord = false := rfl

@[simp] theorem isClauseWord_quoted (v : List Char) : (Lexeme.quoted v).isClauseWord = false := rfl

theorem splitClause_eq {ts : List Token} (h : ∀ t ∈ ts, t.lexeme.isClauseWord = false) :
    splitClause ts = (ts, none) := by
  induction ts with
  | nil => rfl
  | cons t rest ih =>
    have ht : startsClause t rest.head? = false := by
      have := h t (by simp)
      unfold startsClause
      split
      · rename_i w hw
        simp only [hw, Lexeme.isClauseWord] at this
        simp [this]
      · rfl
    simp [splitClause, ht, ih fun x hx => h x (by simp [hx])]

end RuleExchange.Query
