import Mathlib.Tactic.SplitIfs
import RuleExchange.Proofs.QueryTokens
import RuleExchange.Proofs.QuotedParts
import RuleExchange.Proofs.Sequencing

/-! Two readings of quotes. A query is cut at the pipes outside quotes, and a quote opens at any
quote character there; its parts are then read as tokens, and there a quote opens only where a
token starts, so that a quote inside a word is a letter. The two agree up to the first word with
a quote in it. Behind it a pipe that the cut takes for quoted may be read as part of a word, and
with it the stage that the pipe was meant to begin. -/

namespace RuleExchange

/-! ### Pipes outside quotes -/

namespace Text.Quoted

/-- From the place on, no pipe of the text stands outside quotes. -/
def Unpiped : Place → List Char → Prop
  | _, [] => True
  | p, c :: cs => ¬ (p = outside ∧ c = '|') ∧ Unpiped (p.next c) cs

theorem unpiped_append {p : Place} {s t : List Char} :
    Unpiped p (s ++ t) ↔ Unpiped p s ∧ Unpiped (s.foldl Place.next p) t := by
  induction s generalizing p with
  | nil => simp [Unpiped]
  | cons c cs ih => simp [Unpiped, ih, and_assoc]

theorem unpiped_iff {p : Place} {s : List Char} : Unpiped p s ↔ ¬ Shows ['|'] p s := by
  induction s generalizing p with
  | nil => simp [Unpiped, not_shows_nil]
  | cons c cs ih => simp [Unpiped, ih, shows_cons, List.cons_prefix_cons, eq_comm]

theorem unpiped_of_mem_split {s text : List Char} (h : s ∈ split ['|'] text) :
    Unpiped outside s :=
  unpiped_iff.mpr (not_shows_of_mem_split (by simp) (stops_cons rfl []) h)

/-- Text without quotes leaves the cut outside. -/
theorem foldl_next_of_unquoted {s : List Char} (h : ∀ c ∈ s, isQuote c = false) :
    s.foldl Place.next outside = outside := by
  induction s with
  | nil => rfl
  | cons c cs ih =>
    rw [List.forall_mem_cons] at h
    have hstep : outside.next c = outside := by simp [Place.next, outside, h.1]
    rw [List.foldl_cons, hstep, ih h.2]

/-- Text without quotes that is not cut holds no pipe. -/
theorem Unpiped.notMem {s : List Char} (h : Unpiped outside s)
    (hs : ∀ c ∈ s, isQuote c = false) : '|' ∉ s := by
  induction s with
  | nil => simp
  | cons c cs ih =>
    rw [List.forall_mem_cons] at hs
    have hstep : outside.next c = outside := by simp [Place.next, outside, hs.1]
    obtain ⟨hhere, hrest⟩ := h
    rw [hstep] at hrest
    rw [List.mem_cons, not_or]
    exact ⟨fun hc => hhere ⟨rfl, hc.symm⟩, ih hrest hs.2⟩

end Text.Quoted

namespace Query

open Text (isBlank)
open Text.Quoted (isQuote split Place outside Unpiped)

/-! ### How tokens are read -/

/-- The tokens of a text, one rule for each kind of character that can come next. -/
inductive Tokenizes : List Char → List Token → Prop
  | nil : Tokenizes [] []
  | blank {c cs ts} (hc : isBlank c = true) (h : Tokenizes cs ts) : Tokenizes (c :: cs) ts
  | quoted {c cs value rest ts} (hc : isQuote c = true)
      (hread : readQuoted c cs = some (value, rest)) (h : Tokenizes rest ts) :
      Tokenizes (c :: cs) (⟨.quoted value, c :: cs⟩ :: ts)
  | sign {c cs sign rest ts} (hc : isSignChar c = true) (hread : readSign c cs = (sign, rest))
      (h : Tokenizes rest ts) : Tokenizes (c :: cs) (⟨.sign sign, c :: cs⟩ :: ts)
  | word {s w rest ts} (hs : s = w ++ rest) (hw : isWordText? w = true)
      (hrest : Text.Stops (fun c => !endsWord c) rest) (h : Tokenizes rest ts) :
      Tokenizes s (⟨.word w, s⟩ :: ts)

/-- A quoted value ends at its quote, and the cut is inside quotes all the way to there. -/
theorem exists_of_readQuoted {q : Char} (hq : isQuote q = true) {cs value rest : List Char}
    (h : readQuoted q cs = some (value, rest)) :
    ∃ raw, cs = raw ++ q :: rest ∧ raw.foldl Place.next ⟨some q, false⟩ = ⟨some q, false⟩ := by
  have hne := Text.Quoted.ne_backslash_of_isQuote hq
  fun_induction readQuoted q cs generalizing value with
  | case1 => cases h
  | case2 => cases h
  | case3 n tail hn ih =>
    obtain ⟨⟨v, t⟩, hread, heq⟩ := Option.map_eq_some_iff.mp h
    cases heq
    obtain ⟨raw, rfl, hraw⟩ := ih hread
    exact ⟨'\\' :: n :: raw, rfl, by simpa [Place.next] using hraw⟩
  | case4 n tail hn ih =>
    obtain ⟨⟨v, t⟩, hread, heq⟩ := Option.map_eq_some_iff.mp h
    cases heq
    obtain ⟨hnq, hnb⟩ := not_or.mp hn
    obtain ⟨raw, hcs, hraw⟩ := ih hread
    -- the character behind the backslash is an ordinary one, escaped or not
    cases raw with
    | nil => exact absurd (List.cons.inj hcs).1 hnq
    | cons x xs =>
      obtain ⟨rfl, rfl⟩ := List.cons.inj hcs
      refine ⟨'\\' :: n :: xs, rfl, ?_⟩
      simpa [Place.next, hnq, hnb] using hraw
  | case5 tail hc =>
    cases h
    exact ⟨[], rfl, rfl⟩
  | case6 c tail hb hc ih =>
    obtain ⟨⟨v, t⟩, hread, heq⟩ := Option.map_eq_some_iff.mp h
    cases heq
    obtain ⟨raw, rfl, hraw⟩ := ih hread
    exact ⟨c :: raw, rfl, by simpa [Place.next, hb, hc] using hraw⟩

theorem exists_of_readSign {c : Char} {cs sign rest : List Char}
    (h : readSign c cs = (sign, rest)) :
    ∃ more, cs = more ++ rest ∧ ∀ x ∈ more, isSignChar x = true := by
  unfold readSign at h
  split at h
  · cases h
    exact ⟨[], rfl, nofun⟩
  · rename_i n tail
    split at h
    · rename_i hn
      cases h
      refine ⟨[n], rfl, List.forall_mem_singleton.mpr ?_⟩
      rcases hn with rfl | ⟨-, rfl⟩ <;> rfl
    · cases h
      exact ⟨[], rfl, nofun⟩

theorem tokenizes_of_tokenizeFrom {size fuel : Nat} {s : List Char} {ts : List Token}
    (hf : s.length < fuel) (h : tokenizeFrom size fuel s = .ok ts) : Tokenizes s ts := by
  induction fuel generalizing s ts with
  | zero => cases hf
  | succ fuel ih =>
    cases s with
    | nil =>
      cases h
      exact .nil
    | cons c cs =>
      rw [List.length_cons] at hf
      rw [tokenizeFrom] at h
      split_ifs at h with hblank hquote hparen hsign
      · exact .blank hblank (ih (Nat.lt_of_succ_lt_succ hf) h)
      · split at h
        · cases h
        · rename_i value rest hread
          have hq : isQuote c = true := by simpa [isQuote] using hquote
          obtain ⟨raw, rfl, -⟩ := exists_of_readQuoted hq hread
          obtain ⟨tail, htail, h⟩ := ok_of_bind h
          cases h
          rw [List.length_append, List.length_cons] at hf
          exact .quoted hq hread (ih (by omega) htail)
      · obtain ⟨sign, rest, hread⟩ : ∃ sign rest, readSign c cs = (sign, rest) := ⟨_, _, rfl⟩
        rw [hread] at h
        obtain ⟨tail, htail, h⟩ := ok_of_bind h
        cases h
        obtain ⟨more, rfl, -⟩ := exists_of_readSign hread
        rw [List.length_append] at hf
        exact .sign hsign hread (ih (by omega) htail)
      · obtain ⟨tail, htail, h⟩ := ok_of_bind h
        cases h
        have hc : endsWord c = false := by
          simp [endsWord, hblank, hsign, not_or.mp hparen]
        have hq : isQuote c = false := by simpa [isQuote] using hquote
        have hlen : ((c :: cs).dropWhile fun x => !endsWord x).length ≤ cs.length := by
          rw [List.dropWhile_cons_of_pos (by simp [hc])]
          exact (List.dropWhile_sublist _).length_le
        refine .word List.takeWhile_append_dropWhile.symm ?_ ?_ (ih (by omega) htail)
        · simp [isWordText?, hc, hq]
        · intro x hx
          have hstop := List.head?_dropWhile_not (fun x => !endsWord x) (c :: cs)
          rw [hx] at hstop
          exact hstop

theorem tokenizes_of_tokenize {s : List Char} {ts : List Token} (h : tokenize s = .ok ts) :
    Tokenizes s ts :=
  tokenizes_of_tokenizeFrom (Nat.lt_succ_self _) h

/-! ### Words that a quote reaches -/

/-- A word with a quote in it. -/
def Lexeme.holdsQuote : Lexeme → Bool
  | .word w => w.any isQuote
  | _ => false

/-- Some word of the tokens holds the character. -/
def InWord (x : Char) (ts : List Token) : Prop := ∃ t ∈ ts, ∃ w, t.lexeme = .word w ∧ x ∈ w

variable {s : List Char} {ts : List Token}

theorem isQuote_of_isBlank {c : Char} (h : isBlank c = true) : isQuote c = false := by
  rw [Bool.eq_false_iff]
  intro hq
  rcases (by simpa [isQuote] using hq : c = '"' ∨ c = '\'') with rfl | rfl <;> cases h

theorem isQuote_of_isSignChar {c : Char} (h : isSignChar c = true) : isQuote c = false := by
  rw [Bool.eq_false_iff]
  intro hq
  rcases (by simpa [isQuote] using hq : c = '"' ∨ c = '\'') with rfl | rfl <;> cases h

/-- Up to the first word with a quote the tokens and the cut agree on what is quoted. -/
theorem Tokenizes.quote_before_pipe (h : Tokenizes s ts) (hs : Unpiped outside s)
    {before after : List Token} {t : Token} {w : List Char} (hts : ts = before ++ t :: after)
    (ht : t.lexeme = .word w) :
    (∃ u ∈ before, u.lexeme.holdsQuote = true) ∨ '|' ∉ w.takeWhile fun c => !isQuote c := by
  -- a text that leaves the cut outside is passed over
  have hskip {a rest : List Char} (ha : Unpiped outside (a ++ rest))
      (hout : a.foldl Place.next outside = outside) : Unpiped outside rest := by
    have := (Text.Quoted.unpiped_append.mp ha).2
    rwa [hout] at this
  induction h generalizing before with
  | nil => simp at hts
  | blank hc _ ih =>
    have hout := Text.Quoted.foldl_next_of_unquoted (List.forall_mem_singleton.mpr
      (isQuote_of_isBlank hc))
    exact ih (hskip (a := [_]) hs hout) hts
  | @quoted c cs value rest ts hc hread _ ih =>
    obtain ⟨raw, rfl, hraw⟩ := exists_of_readQuoted hc hread
    have hout : (c :: raw ++ [c]).foldl Place.next outside = outside := by
      have hfirst : outside.next c = ⟨some c, false⟩ := by simp [Place.next, outside, hc]
      have hlast : Place.next ⟨some c, false⟩ c = outside := by
        simp [Place.next, Text.Quoted.ne_backslash_of_isQuote hc]
      simp [hfirst, hraw, hlast]
    cases before with
    | nil =>
      obtain ⟨rfl, -⟩ := List.cons.inj hts
      cases ht
    | cons u us =>
      have hrest := hskip (a := c :: raw ++ [c]) (by simpa using hs) hout
      exact (ih hrest (List.cons.inj hts).2).imp_left List.exists_mem_cons_of_exists
  | @sign c cs sign rest ts hc hread _ ih =>
    obtain ⟨more, rfl, hmore⟩ := exists_of_readSign hread
    have hout := Text.Quoted.foldl_next_of_unquoted (s := c :: more) (List.forall_mem_cons.mpr
      ⟨isQuote_of_isSignChar hc, fun x hx => isQuote_of_isSignChar (hmore x hx)⟩)
    cases before with
    | nil =>
      obtain ⟨rfl, -⟩ := List.cons.inj hts
      cases ht
    | cons u us =>
      have hrest := hskip (a := c :: more) hs hout
      exact (ih hrest (List.cons.inj hts).2).imp_left List.exists_mem_cons_of_exists
  | @word s v rest ts hsplit _ _ _ ih =>
    subst hsplit
    have hhead := (Text.Quoted.unpiped_append.mp hs).1
    cases before with
    | nil =>
      obtain ⟨rfl, -⟩ := List.cons.inj hts
      cases ht
      rw [← List.takeWhile_append_dropWhile (p := fun c => !isQuote c) (l := w)] at hhead
      refine .inr ((Text.Quoted.unpiped_append.mp hhead).1.notMem fun c hc => ?_)
      simpa using List.all_eq_true.mp List.all_takeWhile c hc
    | cons u us =>
      obtain ⟨rfl, hrest⟩ := List.cons.inj hts
      by_cases hquote : v.any isQuote = true
      · exact .inl ⟨_, .head _, hquote⟩
      · have hplain : ∀ c ∈ v, isQuote c = false := by simpa using hquote
        have hnext := hskip hs (Text.Quoted.foldl_next_of_unquoted hplain)
        exact (ih hnext hrest).imp_left List.exists_mem_cons_of_exists

/-- Words consist of characters of the text. -/
theorem Tokenizes.mem_of_inWord {x : Char} (h : Tokenizes s ts) (hx : InWord x ts) : x ∈ s := by
  obtain ⟨t, ht, w, hw, hx⟩ := hx
  induction h with
  | nil => cases ht
  | blank _ _ ih => exact .tail _ (ih ht)
  | @quoted c cs value rest ts hc hread _ ih =>
    obtain ⟨raw, rfl, -⟩ := exists_of_readQuoted hc hread
    rcases List.mem_cons.mp ht with rfl | ht
    · cases hw
    · simp [ih ht]
  | @sign c cs sign rest ts hc hread _ ih =>
    obtain ⟨more, rfl, -⟩ := exists_of_readSign hread
    rcases List.mem_cons.mp ht with rfl | ht
    · cases hw
    · simp [ih ht]
  | word hs _ _ _ ih =>
    subst hs
    rcases List.mem_cons.mp ht with rfl | ht
    · cases hw
      exact List.mem_append_left _ hx
    · exact List.mem_append_right _ (ih ht)

theorem endsWord_of_isQuote {q : Char} (h : isQuote q = true) : endsWord q = false := by
  rcases (by simpa [isQuote] using h : q = '"' ∨ q = '\'') with rfl | rfl <;> rfl

/-- Whether every quote of a text stands right behind a character that continues a word; `inWord`
tells whether one stands before the text. -/
def quotesInWords (inWord : Bool) : List Char → Bool
  | [] => true
  | c :: cs => (!isQuote c || inWord) && quotesInWords (!endsWord c) cs

theorem quotesInWords_of_ends {a rest : List Char} (ha : ∀ c ∈ a, endsWord c = true)
    (h : quotesInWords false (a ++ rest) = true) : quotesInWords false rest = true := by
  induction a with
  | nil => exact h
  | cons c cs ih =>
    rw [List.forall_mem_cons] at ha
    simp only [List.cons_append, quotesInWords, ha.1, Bool.and_eq_true] at h
    exact ih ha.2 h.2

/-- No quote can stand first where a word has just ended. -/
theorem quotesInWords_of_word {inWord : Bool} {w rest : List Char}
    (hrest : Text.Stops (fun c => !endsWord c) rest)
    (h : quotesInWords inWord (w ++ rest) = true) : quotesInWords false rest = true := by
  induction w generalizing inWord with
  | nil =>
    cases rest with
    | nil => rfl
    | cons c cs =>
      have hends : endsWord c = true := by simpa using hrest c rfl
      have hquote : isQuote c = false := by
        rw [Bool.eq_false_iff]
        intro hq
        cases (endsWord_of_isQuote hq).symm.trans hends
      simpa [quotesInWords, hquote] using h
  | cons c cs ih =>
    rw [List.cons_append, quotesInWords, Bool.and_eq_true] at h
    exact ih h.2

/-- Where quotes stand inside words only, each character that continues a word is in one. -/
theorem Tokenizes.inWord_of_mem {x : Char} (h : Tokenizes s ts)
    (hs : quotesInWords false s = true) (hx : endsWord x = false) (hm : x ∈ s) :
    InWord x ts := by
  have hlater {t : Token} {ts : List Token} (h : InWord x ts) : InWord x (t :: ts) := by
    obtain ⟨u, hu, w, hw, hxw⟩ := h
    exact ⟨u, .tail _ hu, w, hw, hxw⟩
  -- characters that end a word are passed over
  have hskip {a rest : List Char} (ha : ∀ c ∈ a, endsWord c = true) (hm : x ∈ a ++ rest) :
      x ∈ rest := by
    rcases List.mem_append.mp hm with hm | hm
    · cases (ha x hm).symm.trans hx
    · exact hm
  induction h with
  | nil => cases hm
  | @blank c cs ts hc _ ih =>
    have hends : ∀ y ∈ [c], endsWord y = true :=
      List.forall_mem_singleton.mpr (by simp [endsWord, hc])
    exact ih (quotesInWords_of_ends (a := [c]) hends hs) (hskip (a := [c]) hends hm)
  | quoted hc =>
    simp [quotesInWords, hc] at hs
  | @sign c cs sign rest ts hc hread _ ih =>
    obtain ⟨more, rfl, hmore⟩ := exists_of_readSign hread
    have hends : ∀ y ∈ c :: more, endsWord y = true :=
      List.forall_mem_cons.mpr ⟨by simp [endsWord, hc], fun y hy => by simp [endsWord, hmore y hy]⟩
    exact hlater (ih (quotesInWords_of_ends hends hs) (hskip hends hm))
  | @word s w rest ts hsplit hw hrest _ ih =>
    subst hsplit
    rcases List.mem_append.mp hm with hm | hm
    · exact ⟨_, .head _, w, rfl, hm⟩
    · exact hlater (ih (quotesInWords_of_word hrest hs) hm)

/-- A pipe in a word of a part of a query stands behind a quote in that word or in an earlier word
of the part: until then both readings agree, and every pipe outside quotes was taken for the end of
the part. Where no quote of the part stands anywhere but inside a word, every pipe of the part is
read as part of a word. -/
theorem pipe_in_word_stands_behind_quote {text s : List Char} {ts : List Token}
    (hs : s ∈ split ['|'] text) (hts : tokenize s = .ok ts) :
    (∀ before t after w, ts = before ++ t :: after → t.lexeme = .word w → '|' ∈ w →
      (∃ u ∈ before, u.lexeme.holdsQuote = true) ∨ '|' ∉ w.takeWhile fun c => !isQuote c) ∧
    (quotesInWords false s = true → (InWord '|' ts ↔ '|' ∈ s)) := by
  have hread := tokenizes_of_tokenize hts
  refine ⟨fun before t after w heq hw _ => ?_, fun hquotes => ⟨hread.mem_of_inWord, ?_⟩⟩
  · exact hread.quote_before_pipe (Text.Quoted.unpiped_of_mem_split hs) heq hw
  · exact hread.inWord_of_mem hquotes (by decide)

/-- A query for a name with an apostrophe, with a stage behind it. -/
def apostropheQuery : List Char := "search user=o'brien | stats count".toList

/-- The stage becomes a search for its words. -/
theorem stage_behind_apostrophe_is_read_as_terms :
    apostropheQuery ∈ split ['|'] apostropheQuery ∧
    (∃ ts, tokenize apostropheQuery = .ok ts ∧ InWord '|' ts) ∧
    (parse .splunk apostropheQuery).toOption = some
      { conditions := [⟨"user", .equals, "o'brien"⟩, ⟨"payload", .contains, "|"⟩,
          ⟨"payload", .contains, "stats"⟩, ⟨"payload", .contains, "count"⟩] } := by
  refine ⟨by decide +kernel, ?_, by decide +kernel⟩
  have htokens : ((tokenize apostropheQuery).toOption.any fun ts =>
      ts.any fun t => t.lexeme = .word ['|']) = true := by decide +kernel
  cases h : tokenize apostropheQuery with
  | error e =>
    rw [h] at htokens
    cases htokens
  | ok ts =>
    rw [h] at htokens
    obtain ⟨t, ht, hw⟩ := List.any_eq_true.mp htokens
    exact ⟨ts, rfl, t, ht, ['|'], of_decide_eq_true hw, .head _⟩

theorem pipe_behind_apostrophe_is_in_word :
    ∃ ts, apostropheQuery ∈ split ['|'] apostropheQuery ∧ tokenize apostropheQuery = .ok ts ∧
      quotesInWords false apostropheQuery = true ∧ InWord '|' ts := by
  have hpart : apostropheQuery ∈ split ['|'] apostropheQuery := by decide +kernel
  have hquotes : quotesInWords false apostropheQuery = true := by decide +kernel
  cases h : tokenize apostropheQuery with
  | error e =>
    have hok : (tokenize apostropheQuery).isOk = true := by decide +kernel
    rw [h] at hok
    cases hok
  | ok ts =>
    have hword := ((pipe_in_word_stands_behind_quote hpart h).2 hquotes).mpr (by decide +kernel)
    exact ⟨ts, hpart, rfl, hquotes, hword⟩

end Query

end RuleExchange
