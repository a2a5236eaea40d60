import RuleExchange.Proofs.TextReplacement
import RuleExchange.Signature.Reader

/-! Signatures are read back as they were written. Three ways of writing values share one
reader: quoted values escape quotes, backslashes and semicolons, regular expressions
escape only quotes, and bare values escape only semicolons. In the last two the value
may bring backslashes of its own, and it is read back when none of them can be taken for
the escape of what follows. -/

namespace RuleExchange.Signature

open Text (Stops isBlank Trimmed)

/-! ### Guarded characters -/

theorem guardChar_cons (x c : Char) (s : List Char) :
    guardChar x (c :: s) = (if c = x then ['\\', c] else [c]) ++ guardChar x s := by
  simp [guardChar]

def trailingBackslashes (s : List Char) : Nat := (s.reverse.takeWhile (· == '\\')).length

/-- Every `x` in the text and the end of the text stand behind an even number of backslashes. -/
def Guardable (x : Char) (s : List Char) : Prop :=
  (∀ before after, s = before ++ x :: after → trailingBackslashes before % 2 = 0) ∧
    trailingBackslashes s % 2 = 0

/-- The same found out from left to right; `escaped` tells whether an odd number of backslashes
stands before the text. -/
def guardableFrom (x : Char) : Bool → List Char → Bool
  | escaped, [] => !escaped
  | escaped, c :: cs =>
    (c != x || !escaped) && guardableFrom x (!escaped && decide (c = '\\')) cs

theorem trailingBackslashes_append (s : List Char) (c : Char) :
    trailingBackslashes (s ++ [c]) = if c = '\\' then trailingBackslashes s + 1 else 0 := by
  by_cases hc : c = '\\' <;> simp [trailingBackslashes, hc]

theorem guardableFrom_iff (x : Char) (before s : List Char) :
    guardableFrom x (trailingBackslashes before % 2 == 1) s = true ↔
      (∀ mid after, s = mid ++ x :: after → trailingBackslashes (before ++ mid) % 2 = 0) ∧
        trailingBackslashes (before ++ s) % 2 = 0 := by
  induction s generalizing before with
  | nil => simp [guardableFrom]
  | cons c cs ih =>
    have hstate : (!(trailingBackslashes before % 2 == 1) && decide (c = '\\')) =
        (trailingBackslashes (before ++ [c]) % 2 == 1) := by
      rw [trailingBackslashes_append, Bool.eq_iff_iff]
      by_cases hc : c = '\\'
      · simp [hc]
        omega
      · simp [hc]
    have hfirst : (c != x || !(trailingBackslashes before % 2 == 1)) = true ↔
        (c = x → trailingBackslashes before % 2 = 0) := by
      by_cases hc : c = x <;> simp [hc]
    rw [guardableFrom, hstate, Bool.and_eq_true, ih, hfirst, List.append_assoc]
    -- the next `x` is the first character or stands further on
    constructor
    · rintro ⟨hhere, hlater, hend⟩
      refine ⟨fun mid after he => ?_, hend⟩
      cases mid with
      | nil =>
        cases he
        simpa using hhere rfl
      | cons m mid =>
        cases he
        simpa using hlater mid after rfl
    · rintro ⟨hall, hend⟩
      refine ⟨fun hc => ?_, fun mid after he => ?_, hend⟩
      · simpa using hall [] cs (by rw [hc]; rfl)
      · simpa using hall (c :: mid) after (by rw [he]; rfl)

theorem guardable_iff (x : Char) (s : List Char) :
    Guardable x s ↔ guardableFrom x false s = true :=
  (guardableFrom_iff x [] s).symm

instance (x : Char) (s : List Char) : Decidable (Guardable x s) :=
  decidable_of_iff _ (guardable_iff x s).symm

/-- The guards make the reader pass over every `x` of the value. -/
theorem rawUntil_guardChar {x : Char} (hx : x ≠ '\\') {escaped : Bool} {v : List Char}
    (h : guardableFrom x escaped v = true) (rest : List Char) :
    rawUntil x escaped (guardChar x v ++ x :: rest) = (guardChar x v, x :: rest) := by
  induction v generalizing escaped with
  | nil =>
    have he : escaped = false := by simpa [guardableFrom] using h
    simp [guardChar, rawUntil, he]
  | cons c cs ih =>
    simp only [guardableFrom, Bool.and_eq_true, Bool.or_eq_true, Bool.not_eq_true', bne_iff_ne] at h
    obtain ⟨hc, hcs⟩ := h
    have hrest := ih hcs
    rw [guardChar_cons]
    cases escaped with
    | true =>
      have hne : c ≠ x := by simpa using hc
      simp only [Bool.not_true, Bool.false_and] at hrest
      simp [hne, rawUntil, hrest]
    | false =>
      simp only [Bool.not_false, Bool.true_and] at hrest
      by_cases hcx : c = x
      · subst hcx
        simp only [hx, decide_false] at hrest
        simp [rawUntil, hrest, Ne.symm hx]
      · simp [hcx, rawUntil, hrest]

/-- The guarded text begins with a guard or as the text does. -/
theorem stops_guardChar {p : Char → Bool} (hp : p '\\' = false) {x : Char} {v : List Char}
    (hv : ∀ c ∈ v.head?, c = x ∨ p c = false) : Stops p (guardChar x v) := by
  cases v with
  | nil => exact Text.stops_nil p
  | cons c cs =>
    rw [guardChar_cons]
    by_cases hc : c = x
    · simpa [hc] using Text.stops_cons hp _
    · simpa [hc] using Text.stops_cons ((hv c rfl).resolve_left hc) _

theorem not_prefix_guard {x : Char} (hx : x ≠ '\\') (c : Char) (v : List Char) :
    ¬ ['\\', x] <+: c :: guardChar x v := by
  have hfirst : Stops (· == x) (guardChar x v) :=
    stops_guardChar (by simpa using Ne.symm hx) fun c _ => by simpa using Decidable.em (c = x)
  rintro ⟨rest, he⟩
  rw [List.cons_append, List.cons_append, List.nil_append, List.cons.injEq] at he
  exact Text.stops_eq_iff.mp hfirst (he.2 ▸ rfl)

/-- Taking the guards away gives the value back. -/
theorem replaceText_guardChar {x : Char} (hx : x ≠ '\\') (v : List Char) :
    Text.replaceText ['\\', x] [x] (guardChar x v) = v := by
  induction v with
  | nil => rfl
  | cons c cs ih =>
    rw [guardChar_cons]
    by_cases hc : c = x
    · subst hc
      rw [if_pos rfl, Text.replaceText_here (by simp), ih, List.singleton_append]
    · rw [if_neg hc, List.singleton_append, Text.replaceText_skip (not_prefix_guard hx c cs), ih]

theorem guardChar_append (x : Char) (s t : List Char) :
    guardChar x (s ++ t) = guardChar x s ++ guardChar x t := by
  simp [guardChar]

/-- A guard never stands at the end of the text. -/
theorem stops_guardChar_reverse {p : Char → Bool} (x : Char) {v : List Char}
    (hv : Stops p v.reverse) : Stops p (guardChar x v).reverse := by
  rcases List.eq_nil_or_concat v with rfl | ⟨init, last, rfl⟩
  · exact Text.stops_nil p
  · have hlast : p last = false := hv last (by simp)
    rw [List.concat_eq_append, guardChar_append, List.reverse_append]
    by_cases hc : last = x
    · simpa [guardChar, hc] using Text.stops_cons (hc ▸ hlast) _
    · simpa [guardChar, hc] using Text.stops_cons hlast _

theorem trimmed_guardChar (x : Char) {v : List Char} (hv : Trimmed v) : Trimmed (guardChar x v) :=
  ⟨stops_guardChar (by decide) fun c hc => .inr (hv.1 c hc), stops_guardChar_reverse x hv.2⟩

/-! ### Quoted values -/

theorem quoted_cons (c : Char) (v : List Char) :
    guardChar ';' (Text.Quoted.escape '"' (c :: v)) =
      (if c = '\\' ∨ c = '"' ∨ c = ';' then ['\\', c] else [c]) ++
        guardChar ';' (Text.Quoted.escape '"' v) := by
  rw [Text.Quoted.escape]
  by_cases hs : c = ';'
  · simp [hs, guardChar]
  · by_cases he : c = '\\' ∨ c = '"'
    · rcases he with rfl | rfl <;> simp [guardChar]
    · simp [hs, guardChar, not_or.mp he]

theorem rawUntil_quoted (v rest : List Char) :
    rawUntil '"' false (guardChar ';' (Text.Quoted.escape '"' v) ++ '"' :: rest) =
      (guardChar ';' (Text.Quoted.escape '"' v), '"' :: rest) := by
  induction v with
  | nil => simp [Text.Quoted.escape, guardChar, rawUntil]
  | cons c cs ih =>
    rw [quoted_cons]
    split
    · simp [rawUntil, ih]
    · rename_i hc
      obtain ⟨hb, hq, -⟩ := not_or.mp hc |>.imp_right not_or.mp
      simp [rawUntil, hb, hq, ih]

theorem unescape_cons {c : Char} (hc : c ≠ '\\') (s : List Char) :
    Text.Quoted.unescape (c :: s) = c :: Text.Quoted.unescape s := by
  rw [Text.Quoted.unescape] <;> simp [hc]

theorem unescape_quoted (v : List Char) :
    Text.Quoted.unescape (guardChar ';' (Text.Quoted.escape '"' v)) = v := by
  induction v with
  | nil => rfl
  | cons c cs ih =>
    rw [quoted_cons]
    split
    · simp [Text.Quoted.unescape, ih]
    · rename_i hc
      simp [unescape_cons (not_or.mp hc).1, ih]

/-! ### Values -/

/-- A value that is read back when it is written without quotes. -/
structure BareValue (negated : Bool) (v : List Char) : Prop where
  trimmed : Trimmed v
  unquoted : v.head? ≠ some '"'
  unmarked : negated = false → v.head? ≠ some '!'
  guardable : Guardable ';' v

/-- What a value must be like to be read back under its key: between quotes anything is, but an
expression keeps its own backslashes there. -/
structure ReadableValue (key : String) (negated : Bool) (v : List Char) : Prop where
  expression : key = "pcre" → Guardable '"' v
  bare : key ∉ quotedKeys → BareValue negated v

instance (negated : Bool) (v : List Char) : Decidable (BareValue negated v) :=
  decidable_of_iff (Trimmed v ∧ v.head? ≠ some '"' ∧ (negated = false → v.head? ≠ some '!') ∧
      Guardable ';' v)
    ⟨fun ⟨ht, hq, hm, hg⟩ => ⟨ht, hq, hm, hg⟩, fun ⟨ht, hq, hm, hg⟩ => ⟨ht, hq, hm, hg⟩⟩

instance (key : String) (negated : Bool) (v : List Char) :
    Decidable (ReadableValue key negated v) :=
  decidable_of_iff ((key = "pcre" → Guardable '"' v) ∧ (key ∉ quotedKeys → BareValue negated v))
    ⟨fun ⟨he, hb⟩ => ⟨he, hb⟩, fun ⟨he, hb⟩ => ⟨he, hb⟩⟩

/-- A quoted value is read back when the reader finds its end and undoes its escapes. -/
theorem readQuotedValue_written {key : String} {raw v rest : List Char}
    (hraw : rawUntil '"' false (raw ++ '"' :: ';' :: rest) = (raw, '"' :: ';' :: rest))
    (hv : (if key = "pcre" then Text.replaceText ['\\', '"'] ['"'] raw
      else Text.Quoted.unescape raw) = v) :
    readQuotedValue key (raw ++ '"' :: ';' :: rest) = .ok (v, rest) := by
  have hblank : Text.isBlank ';' = false := by decide
  simp [readQuotedValue, hraw, hv, hblank]

theorem readBareValue_written {v : List Char} (ht : Trimmed v) (hv : Guardable ';' v)
    (rest : List Char) : readBareValue (guardChar ';' v ++ ';' :: rest) = (v, rest) := by
  rw [readBareValue, rawUntil_guardChar (by decide) ((guardable_iff _ _).mp hv)]
  simp [Text.trim_of_trimmed (trimmed_guardChar ';' ht), replaceText_guardChar]

/-- A value as it is read when no mark of a negation stands before it. -/
def readUnmarked (key : String) (s : List Char) : Except Error (List Char × List Char) :=
  match s with
  | '"' :: rest => readQuotedValue key rest
  | _ => .ok (readBareValue s)

theorem readOptionValue_marked (key : String) (s : List Char) :
    readOptionValue key ('!' :: s) = (readUnmarked key s).map fun (v, rest) =>
      ({ key, value := some (String.ofList v), negated := true }, rest) := by
  have hblank : isBlank '!' = false := by decide
  rw [readOptionValue, List.dropWhile_cons_of_neg (by simp [hblank])]
  fun_cases readUnmarked key s with
  | case1 rest => rfl
  | case2 hquote =>
    simp only
    rfl

theorem readOptionValue_unmarked (key : String) {s : List Char} (hblank : Stops isBlank s)
    (hmark : Stops (· == '!') s) :
    readOptionValue key s = (readUnmarked key s).map fun (v, rest) =>
      ({ key, value := some (String.ofList v), negated := false }, rest) := by
  have hne : ∀ rest, s ≠ '!' :: rest := by
    rintro rest rfl
    cases hmark '!' rfl
  rw [readOptionValue, Text.dropWhile_of_stops hblank]
  fun_cases readUnmarked key s with
  | case1 rest => rfl
  | case2 hquote =>
    simp only
    rfl

theorem readUnmarked_bare (key : String) {s : List Char} (h : Stops (· == '"') s) :
    readUnmarked key s = .ok (readBareValue s) := by
  rw [readUnmarked]
  rintro rest rfl
  cases h '"' rfl

theorem pcre_mem_quotedKeys : "pcre" ∈ quotedKeys := by decide

theorem valueText_of_quoted {key : String} (hkey : key ∈ quotedKeys) (hpcre : key ≠ "pcre")
    (v : List Char) :
    valueText key v = '"' :: guardChar ';' (Text.Quoted.escape '"' v) ++ ['"'] := by
  simp [valueText, hpcre, hkey]

theorem valueText_of_bare {key : String} (hkey : key ∉ quotedKeys) (v : List Char) :
    valueText key v = guardChar ';' v := by
  have hpcre : key ≠ "pcre" := fun h => hkey (h ▸ pcre_mem_quotedKeys)
  simp [valueText, hpcre, hkey]

/-- A written value begins with a quote, with a guard or as the value does. -/
theorem stops_valueText {p : Char → Bool} (hquote : p '"' = false) (hguard : p '\\' = false)
    (hend : p ';' = false) {key : String} {v : List Char} (hv : key ∉ quotedKeys → Stops p v)
    (rest : List Char) : Stops p (valueText key v ++ ';' :: rest) := by
  refine Text.stops_append_cons ?_ hend rest
  by_cases hkey : key ∈ quotedKeys
  · by_cases hpcre : key = "pcre"
    · simpa [valueText, hpcre] using Text.stops_cons hquote _
    · rw [valueText_of_quoted hkey hpcre]
      exact Text.stops_cons hquote _
  · rw [valueText_of_bare hkey]
    exact stops_guardChar hguard fun c hc => .inr (hv hkey c hc)

theorem readUnmarked_valueText {key : String} {negated : Bool} {v : List Char}
    (h : ReadableValue key negated v) (rest : List Char) :
    readUnmarked key (valueText key v ++ ';' :: rest) = .ok (v, rest) := by
  by_cases hkey : key ∈ quotedKeys
  · by_cases hpcre : key = "pcre"
    · have hraw := rawUntil_guardChar (by decide) ((guardable_iff _ _).mp (h.expression hpcre))
        (';' :: rest)
      simpa [valueText, hpcre, readUnmarked] using
        readQuotedValue_written hraw (by simp [replaceText_guardChar])
    · rw [valueText_of_quoted hkey hpcre]
      simpa [readUnmarked] using readQuotedValue_written (rawUntil_quoted v _)
        (by rw [if_neg hpcre, unescape_quoted])
  · have hv := h.bare hkey
    have hquote : Stops (· == '"') (guardChar ';' v) :=
      stops_guardChar (by decide) fun c hc => .inr (Text.stops_eq_iff.mpr hv.unquoted c hc)
    rw [valueText_of_bare hkey, readUnmarked_bare key (Text.stops_append_cons hquote (by decide) _),
      readBareValue_written hv.trimmed hv.guardable]

theorem readOptionValue_valueText {key : String} {negated : Bool} {v : List Char}
    (h : ReadableValue key negated v) (rest : List Char) :
    readOptionValue key ((if negated then ['!'] else []) ++ (valueText key v ++ ';' :: rest)) =
      .ok ({ key, value := some (String.ofList v), negated }, rest) := by
  cases negated with
  | true => simp [readOptionValue_marked, readUnmarked_valueText h, Except.map]
  | false =>
    have hblank := stops_valueText (p := isBlank) (by decide) (by decide) (by decide)
      (fun hkey => (h.bare hkey).trimmed.1) rest
    have hmark := stops_valueText (p := (· == '!')) (by decide) (by decide) (by decide)
      (fun hkey => Text.stops_eq_iff.mpr ((h.bare hkey).unmarked rfl)) rest
    simp [readOptionValue_unmarked key hblank hmark, readUnmarked_valueText h, Except.map]

/-! ### Options -/

/-- A key that is read back when a colon or a semicolon follows it. -/
structure ReadableKey (key : String) : Prop where
  ne_empty : key ≠ ""
  chars : ∀ c ∈ key.toList, c ≠ ':' ∧ c ≠ ';'
  trimmed : Trimmed key.toList

instance (key : String) : Decidable (ReadableKey key) :=
  decidable_of_iff (key ≠ "" ∧ key.toList.all isKeyChar = true ∧ Trimmed key.toList)
    ⟨fun ⟨hne, hc, ht⟩ => ⟨hne, by simpa [isKeyChar] using hc, ht⟩,
      fun ⟨hne, hc, ht⟩ => ⟨hne, by simpa [isKeyChar] using hc, ht⟩⟩

namespace ReadableKey

variable {key : String}

theorem isKeyChar_of_mem (h : ReadableKey key) : ∀ c ∈ key.toList, isKeyChar c = true := by
  intro c hc
  simp [isKeyChar, h.chars c hc]

/-- The reader does not pass over the beginning of a key. -/
theorem stops (h : ReadableKey key) (rest : List Char) :
    Stops (fun c => isBlank c || c == ';') (key.toList ++ rest) := by
  cases hkey : key.toList with
  | nil => exact (h.ne_empty (String.toList_eq_nil_iff.mp hkey)).elim
  | cons c cs =>
    have hblank : isBlank c = false := h.trimmed.1 c (by simp [hkey])
    have hend : c ≠ ';' := (h.chars c (by simp [hkey])).2
    exact Text.stops_cons (by simp [hblank, hend]) _

end ReadableKey

variable {key : String} {s rest : List Char} {o : RuleOption} {os : List RuleOption}

theorem readOptionsFrom_flag (h : ReadableKey key) (size fuel : Nat) (rest : List Char) :
    readOptionsFrom size (fuel + 1) (key.toList ++ ';' :: rest) =
      (readOptionsFrom size fuel rest).map (.flag key :: ·) := by
  have hend : Stops isKeyChar (';' :: rest) := Text.stops_cons (by decide) rest
  simp only [readOptionsFrom, Text.dropWhile_of_stops (h.stops _),
    Text.takeWhile_run h.isKeyChar_of_mem hend, Text.dropWhile_run h.isKeyChar_of_mem hend,
    Text.trim_of_trimmed h.trimmed, String.ofList_toList]
  simp [h.ne_empty]
  rfl

theorem readOptionsFrom_colon (h : ReadableKey key) (size fuel : Nat) (s : List Char) :
    readOptionsFrom size (fuel + 1) (key.toList ++ ':' :: s) =
      readOptionValue key s >>= fun (o, rest) =>
        (readOptionsFrom size fuel rest).map (o :: ·) := by
  have hend : Stops isKeyChar (':' :: s) := Text.stops_cons (by decide) s
  simp only [readOptionsFrom, Text.dropWhile_of_stops (h.stops _),
    Text.takeWhile_run h.isKeyChar_of_mem hend, Text.dropWhile_run h.isKeyChar_of_mem hend,
    Text.trim_of_trimmed h.trimmed, String.ofList_toList]
  simp [h.ne_empty]
  rfl

theorem readOptionsFrom_pair (h : ReadableKey key) (size fuel : Nat)
    (hvalue : readOptionValue key s = .ok (o, rest)) :
    readOptionsFrom size (fuel + 1) (key.toList ++ ':' :: s) =
      (readOptionsFrom size fuel rest).map (o :: ·) := by
  rw [readOptionsFrom_colon h, hvalue]
  rfl

/-- An option that is read back after it was written. -/
structure RuleOption.Writable (o : RuleOption) : Prop where
  key : ReadableKey o.key
  flag : o.value = none → o.negated = false
  value : ∀ v ∈ o.value, ReadableValue o.key o.negated v.toList

instance (o : RuleOption) : Decidable o.Writable :=
  decidable_of_iff (ReadableKey o.key ∧ (o.value = none → o.negated = false) ∧
      ∀ v ∈ o.value, ReadableValue o.key o.negated v.toList)
    ⟨fun ⟨hk, hf, hv⟩ => ⟨hk, hf, hv⟩, fun ⟨hk, hf, hv⟩ => ⟨hk, hf, hv⟩⟩

/-- The options are read from the text, with any fuel beyond its length. -/
def ReadsOptions (s : List Char) (os : List RuleOption) : Prop :=
  ∀ size fuel, s.length < fuel → readOptionsFrom size fuel s = .ok os

theorem readsOptions_nil : ReadsOptions [] [] := by
  intro size fuel h
  obtain ⟨fuel, rfl⟩ := Nat.exists_eq_add_one_of_ne_zero (Nat.ne_of_gt h)
  rfl

theorem readOptionsFrom_blank (size fuel : Nat) (s : List Char) :
    readOptionsFrom size fuel (' ' :: s) = readOptionsFrom size fuel s := by
  cases fuel with
  | zero => rfl
  | succ fuel => rw [readOptionsFrom, readOptionsFrom, List.dropWhile_cons_of_pos (by decide)]

theorem readsOptions_blank (h : ReadsOptions s os) : ReadsOptions (' ' :: s) os := by
  intro size fuel hfuel
  rw [readOptionsFrom_blank]
  exact h size fuel (Nat.lt_of_succ_lt hfuel)

theorem text_length_pos (o : RuleOption) : 0 < o.text.length := by
  rw [List.length_pos_iff, RuleOption.text]
  split <;> simp

/-- Behind an option that can be read back the reader goes on with what follows it. -/
theorem readOptionsFrom_option (ho : o.Writable) (size fuel : Nat) (rest : List Char) :
    readOptionsFrom size (fuel + 1) (o.text ++ rest) =
      (readOptionsFrom size fuel rest).map (o :: ·) := by
  cases o with
  | mk key value negated =>
    cases value with
    | none =>
      obtain rfl : negated = false := ho.flag rfl
      simp [RuleOption.text, readOptionsFrom_flag ho.key, RuleOption.flag]
    | some v =>
      have hread := readOptionValue_valueText (ho.value v rfl) rest
      rw [String.ofList_toList] at hread
      simp [RuleOption.text, readOptionsFrom_pair ho.key size fuel hread]

theorem readsOptions_option (ho : o.Writable) (h : ReadsOptions s os) :
    ReadsOptions (o.text ++ s) (o :: os) := by
  intro size fuel hfuel
  obtain ⟨fuel, rfl⟩ := Nat.exists_eq_add_one_of_ne_zero (Nat.ne_of_gt (Nat.zero_lt_of_lt hfuel))
  have hpos := text_length_pos o
  rw [List.length_append] at hfuel
  rw [readOptionsFrom_option ho, h size fuel (by omega)]
  rfl

theorem readsOptions_join (h : ∀ o ∈ os, o.Writable) :
    ReadsOptions (Text.joinWith [' '] (os.map RuleOption.text)) os := by
  induction os with
  | nil => exact readsOptions_nil
  | cons o os ih =>
    have ho : o.Writable := h o (by simp)
    have hos := ih fun o' ho' => h o' (by simp [ho'])
    cases os with
    | nil => simpa [Text.joinWith_singleton] using readsOptions_option ho readsOptions_nil
    | cons o' os =>
      simp only [List.map_cons, Text.joinWith_cons_cons] at hos ⊢
      exact readsOptions_option ho (readsOptions_blank hos)

theorem readOptions_of_reads (h : ReadsOptions s os) : readOptions s = .ok os :=
  h s.length (s.length + 1) (Nat.lt_succ_self _)

/-! ### Header -/

/-- A word of a header: not empty and without blanks. -/
def IsWord (w : String) : Prop := w ≠ "" ∧ ∀ c ∈ w.toList, isBlank c = false

instance (w : String) : Decidable (IsWord w) :=
  decidable_of_iff (w ≠ "" ∧ w.toList.all isSolid = true) (by simp [IsWord, isSolid])

theorem isSolid_of_isWord {w : String} (hw : IsWord w) : ∀ c ∈ w.toList, isSolid c = true := by
  intro c hc
  simp [isSolid, hw.2 c hc]

theorem exists_cons_of_isWord {w : String} (hw : IsWord w) :
    ∃ c cs, w.toList = c :: cs ∧ isBlank c = false := by
  cases hl : w.toList with
  | nil => exact (hw.1 (String.toList_eq_nil_iff.mp hl)).elim
  | cons c cs => exact ⟨c, cs, rfl, hw.2 c (by simp [hl])⟩

theorem stops_word {w : String} (hw : IsWord w) (rest : List Char) :
    Stops isBlank (w.toList ++ rest) := by
  obtain ⟨c, cs, hl, hc⟩ := exists_cons_of_isWord hw
  rw [hl]
  exact Text.stops_cons hc _

theorem stops_space (rest : List Char) : Stops isSolid (' ' :: rest) :=
  Text.stops_cons (by decide) rest

theorem readWord_word {w : String} (hw : IsWord w) (hrest : Stops isBlank rest) :
    readWord (w.toList ++ ' ' :: rest) = some (w.toList, rest) := by
  obtain ⟨c, cs, hl, -⟩ := exists_cons_of_isWord hw
  have hspace : isBlank ' ' = true := by decide
  rw [readWord, Text.takeWhile_run (isSolid_of_isWord hw) (stops_space rest),
    Text.dropWhile_run (isSolid_of_isWord hw) (stops_space rest), hl]
  simp [hspace, Text.dropWhile_of_stops hrest]

theorem insideClose_append (s : List Char) : insideClose (s ++ [')']) = some s := by
  have hblank : isBlank ')' = false := by decide
  simp [insideClose, hblank]

theorem readTail_word {w : String} (hw : IsWord w) (s : List Char) :
    readTail (w.toList ++ ' ' :: '(' :: (s ++ [')'])) = some (w.toList, s) := by
  obtain ⟨c, cs, hl, -⟩ := exists_cons_of_isWord hw
  have hspace : isBlank ' ' = true := by decide
  have hparen : isBlank '(' = false := by decide
  rw [readTail, Text.takeWhile_run (isSolid_of_isWord hw) (stops_space _),
    Text.dropWhile_run (isSolid_of_isWord hw) (stops_space _), hl]
  simp [hspace, hparen, insideClose_append]

/-- A signature that is read back after it was written. -/
structure Writable (sig : Signature) : Prop where
  words : ∀ w ∈ sig.headerWords, IsWord w
  direction : sig.header.direction = "->" ∨ sig.header.direction = "<>"
  options : ∀ o ∈ sig.options, o.Writable

instance (sig : Signature) : Decidable sig.Writable :=
  decidable_of_iff ((∀ w ∈ sig.headerWords, IsWord w) ∧
      (sig.header.direction = "->" ∨ sig.header.direction = "<>") ∧ ∀ o ∈ sig.options, o.Writable)
    ⟨fun ⟨hw, hd, ho⟩ => ⟨hw, hd, ho⟩, fun ⟨hw, hd, ho⟩ => ⟨hw, hd, ho⟩⟩

/-- A header of words is read back exactly when its direction is one of the two arrows. -/
theorem readHeader_words {sig : Signature} (hwords : ∀ w ∈ sig.headerWords, IsWord w) :
    readHeader sig.text =
      if sig.header.direction = "->" ∨ sig.header.direction = "<>" then
        some (sig.action, sig.header, Text.joinWith [' '] (sig.options.map RuleOption.text))
      else none := by
  simp only [headerWords, List.forall_mem_cons, List.not_mem_nil, false_imp_iff, implies_true,
    and_true] at hwords
  obtain ⟨haction, hprotocol, hsource, hsourcePort, hdirection, hdestination, hport⟩ := hwords
  have harrow : (sig.header.direction.toList ≠ ['-', '>'] ∧
      sig.header.direction.toList ≠ ['<', '>']) ↔
        ¬ (sig.header.direction = "->" ∨ sig.header.direction = "<>") := by
    rw [not_or, ← String.toList_inj, ← String.toList_inj]
    rfl
  simp only [text, headerWords, List.map_cons, List.map_nil, Text.joinWith_cons_cons,
    Text.joinWith_singleton, List.append_assoc, List.cons_append, List.nil_append,
    String.reduceToList]
  simp only [readHeader, Text.dropWhile_of_stops (stops_word haction _),
    readWord_word haction (stops_word hprotocol _), readWord_word hprotocol (stops_word hsource _),
    readWord_word hsource (stops_word hsourcePort _),
    readWord_word hsourcePort (stops_word hdirection _),
    readWord_word hdirection (stops_word hdestination _), harrow,
    readWord_word hdestination (stops_word hport _), readTail_word hport, Option.bind_eq_bind,
    Option.bind_some, String.ofList_toList]
  by_cases h : sig.header.direction = "->" ∨ sig.header.direction = "<>"
  · rw [if_neg fun hn => hn h, if_pos h]
    rfl
  · rw [if_pos h, if_neg h]
    rfl

theorem readHeader_text {sig : Signature} (h : sig.Writable) :
    readHeader sig.text = some (sig.action, sig.header,
      Text.joinWith [' '] (sig.options.map RuleOption.text)) := by
  rw [readHeader_words h.words, if_pos h.direction]

/-- A signature that is written and read comes back as it was: with its header, and with every
option, whatever characters the values hold. -/
theorem writable_reads_back {sig : Signature} (h : sig.Writable) :
    parse sig.render.toList = .ok sig := by
  have hoptions := readOptions_of_reads (readsOptions_join h.options)
  simp only [parse, render, String.toList_ofList, readHeader_text h, hoptions]
  rfl

theorem tangled_values_read_back :
    let sig : Signature :=
      { action := "alert"
        header := { protocol := "tcp", source := "!$HOME", direction := "<>",
                    destinationPort := "80(" }
        options := [.pair "msg" " a \"b\"; (c)\n\\", .negatedPair "content" "!x\\\\\";",
          .flag "http_uri", .negatedPair "pcre" "/\\d;\\\\\"a(b)/ ",
          .pair "reference" ";url,\\w ) a;b\\\\", .negatedPair "sid" "!7", .pair "rev" ""] }
    sig.Writable ∧ parse sig.render.toList = .ok sig := by
  intro sig
  have h : sig.Writable := by decide +kernel
  exact ⟨h, writable_reads_back h⟩

end RuleExchange.Signature