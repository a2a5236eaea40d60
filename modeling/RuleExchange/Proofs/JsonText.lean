import RuleExchange.Json.Source
import RuleExchange.Json.Writer
import RuleExchange.Proofs.Members
import RuleExchange.Proofs.TextReading

/-! Written JSON is read back. A string comes back from its escapes, and a value without
numbers from its compact and from its pretty text, with the fuel of the reader at least the
length of the text. Gaps between the parts of arrays and objects may be any blanks. -/

namespace RuleExchange.Json

/-! ### Strings -/

/-- The control characters that have a letter of their own behind the backslash. -/
def letters : List (Nat × Char) := [(8, 'b'), (9, 't'), (10, 'n'), (12, 'f'), (13, 'r')]

/-- The piece that the written form of a character is read as. -/
def pieceOf (c : Char) : Piece :=
  if c.toNat < 32 ∧ c.toNat ∉ letters.map Prod.fst then .unit c.toNat else .char c

theorem hexValue_hexDigit : ∀ n < 16, hexValue (hexDigit n) = some n := by decide

theorem hexWord_hexDigits {n : Nat} (h : n < 32) (s : List Char) :
    hexWord ('0' :: '0' :: hexDigit (n / 16) :: hexDigit (n % 16) :: s) = some (n, s) := by
  have hzero : hexValue '0' = some 0 := rfl
  have hsum : n / 16 * 16 + n % 16 = n := by omega
  simp [hexWord, hzero, hexValue_hexDigit (n / 16) (by omega),
    hexValue_hexDigit (n % 16) (by omega), hsum]

/-- One piece more than what is read behind it. -/
def withPiece (p : Piece) (r : Option (List Piece × List Char)) : Option (List Piece × List Char) :=
  r.map fun (ps, tail) => (p :: ps, tail)

theorem readPieces_plain {c : Char} (hq : c ≠ '"') (hb : c ≠ '\\') (hc : ¬ c.toNat < 32)
    (fuel : Nat) (s : List Char) :
    readPieces (fuel + 1) (c :: s) = withPiece (.char c) (readPieces fuel s) := by
  rw [readPieces.eq_def]
  simp only [if_neg hq, if_neg hb, if_neg hc]
  cases readPieces fuel s <;> rfl

theorem readPieces_simple {e x : Char} (he : e ≠ 'u') (hx : simpleEscape e = some x) (fuel : Nat)
    (s : List Char) :
    readPieces (fuel + 1) ('\\' :: e :: s) = withPiece (.char x) (readPieces fuel s) := by
  rw [readPieces, if_neg (by decide), if_pos rfl]
  simp only [if_neg he, hx]
  cases readPieces fuel s <;> rfl

theorem readPieces_unit {n : Nat} (hn : n < 32) (fuel : Nat) (s : List Char) :
    readPieces (fuel + 1)
        ('\\' :: 'u' :: '0' :: '0' :: hexDigit (n / 16) :: hexDigit (n % 16) :: s) =
      withPiece (.unit n) (readPieces fuel s) := by
  rw [readPieces, if_neg (by decide), if_pos rfl]
  simp only [if_true, hexWord_hexDigits hn, Option.bind_eq_bind, Option.bind_some]
  cases readPieces fuel s <;> rfl

/-- A character is written as one letter behind a backslash, by its number, or as it is. -/
theorem escapeChar_cases (c : Char) :
    (∃ e ∈ "\"\\nrtbf".toList, simpleEscape e = some c ∧ escapeChar c = ['\\', e] ∧
      pieceOf c = .char c) ∨
    (escapeChar c = ['\\', 'u', '0', '0', hexDigit (c.toNat / 16), hexDigit (c.toNat % 16)] ∧
      c.toNat < 32 ∧ pieceOf c = .unit c.toNat) ∨
    (escapeChar c = [c] ∧ c ≠ '"' ∧ c ≠ '\\' ∧ ¬ c.toNat < 32 ∧ pieceOf c = .char c) := by
  have hletters : ∀ p ∈ letters,
      p.2 ∈ "\"\\nrtbf".toList ∧ simpleEscape p.2 = some (Char.ofNat p.1) ∧
        escapeChar (Char.ofNat p.1) = ['\\', p.2] ∧
        pieceOf (Char.ofNat p.1) = .char (Char.ofNat p.1) := by decide
  have hnumbers : ∀ n < 32, n ∉ letters.map Prod.fst → escapeChar (Char.ofNat n) =
      ['\\', 'u', '0', '0', hexDigit (n / 16), hexDigit (n % 16)] ∧
        pieceOf (Char.ofNat n) = .unit n := by decide
  by_cases hlow : c.toNat < 32
  · by_cases hletter : c.toNat ∈ letters.map Prod.fst
    · obtain ⟨p, hp, he⟩ := List.mem_map.mp hletter
      have hc := hletters p hp
      rw [he, Char.ofNat_toNat] at hc
      exact .inl ⟨p.2, hc⟩
    · have hc := hnumbers c.toNat hlow hletter
      rw [Char.ofNat_toNat] at hc
      exact .inr (.inl ⟨hc.1, hlow, hc.2⟩)
  · have hpiece : pieceOf c = .char c := if_neg fun h => hlow h.1
    by_cases hq : c = '"'
    · subst hq
      exact .inl ⟨'"', by decide⟩
    by_cases hb : c = '\\'
    · subst hb
      exact .inl ⟨'\\', by decide⟩
    have hne {n : Nat} (hn : n < 32) : c.toNat ≠ n := fun he => hlow (he ▸ hn)
    have hplain : escapeChar c = [c] := by
      have hnotControl {d : Char} (hd : d.toNat < 32) : c ≠ d := fun he => hlow (he ▸ hd)
      simp [escapeChar, hq, hb, hlow, hne (n := 8) (by decide), hne (n := 12) (by decide),
        hnotControl (d := '\n') (by decide), hnotControl (d := '\r') (by decide),
        hnotControl (d := '\t') (by decide)]
    exact .inr (.inr ⟨hplain, hq, hb, hlow, hpiece⟩)

theorem readPieces_escapeChar (fuel : Nat) (c : Char) (s : List Char) :
    readPieces (fuel + 1) (escapeChar c ++ s) = withPiece (pieceOf c) (readPieces fuel s) := by
  rcases escapeChar_cases c with ⟨e, he, hx, htext, hp⟩ | ⟨htext, hn, hp⟩ | ⟨htext, hq, hb, hn, hp⟩
  · have hu : e ≠ 'u' := by
      rintro rfl
      exact absurd he (by decide)
    rw [htext, hp]
    exact readPieces_simple hu hx fuel s
  · rw [htext, hp]
    exact readPieces_unit hn fuel s
  · rw [htext, hp]
    exact readPieces_plain hq hb hn fuel s

theorem readPieces_flatMap {fuel : Nat} {s : List Char} (hfuel : s.length < fuel)
    (rest : List Char) :
    readPieces fuel (s.flatMap escapeChar ++ '"' :: rest) = some (s.map pieceOf, rest) := by
  induction s generalizing fuel with
  | nil =>
    obtain ⟨n, rfl⟩ := Nat.exists_eq_succ_of_ne_zero (Nat.ne_of_gt hfuel)
    simp [readPieces]
  | cons c cs ih =>
    obtain ⟨n, rfl⟩ := Nat.exists_eq_succ_of_ne_zero (Nat.ne_of_gt (Nat.zero_lt_of_lt hfuel))
    rw [List.flatMap_cons, List.append_assoc, readPieces_escapeChar,
      ih (by simpa using hfuel)]
    rfl

theorem joinPieces_unit {n : Nat} (hn : n < 32) (ps : List Piece) :
    joinPieces (.unit n :: ps) = (joinPieces ps).map (Char.ofNat n :: ·) := by
  have hhigh : isHigh n = false := by simp [isHigh]; omega
  have hlow : isLow n = false := by simp [isLow]; omega
  rcases ps with _ | ⟨p, ps⟩
  · simp [joinPieces, hhigh, hlow]
  · cases p <;> simp [joinPieces, hhigh, hlow]

theorem joinPieces_map (s : List Char) : joinPieces (s.map pieceOf) = some s := by
  induction s with
  | nil => rfl
  | cons c cs ih =>
    rw [List.map_cons, pieceOf]
    split
    · rename_i h
      rw [joinPieces_unit h.1, ih, Char.ofNat_toNat]
      rfl
    · rw [joinPieces, ih]
      rfl

theorem length_le_flatMap_escapeChar (s : List Char) : s.length ≤ (s.flatMap escapeChar).length := by
  have hpos (c : Char) : 0 < (escapeChar c).length := by
    rcases escapeChar_cases c with ⟨e, -, -, htext, -⟩ | ⟨htext, -⟩ | ⟨htext, -⟩ <;> simp [htext]
  induction s with
  | nil => simp
  | cons c cs ih =>
    have := hpos c
    rw [List.flatMap_cons, List.length_append, List.length_cons]
    omega

theorem readString_written (s rest : List Char) :
    readString (s.flatMap escapeChar ++ '"' :: rest) = some (some (String.ofList s), rest) := by
  have hfuel : s.length < (s.flatMap escapeChar ++ '"' :: rest).length + 1 := by
    have := length_le_flatMap_escapeChar s
    rw [List.length_append]
    omega
  rw [readString, readPieces_flatMap hfuel]
  simp [joinPieces_map]

/-! ### Blanks -/

/-- Blanks between the parts of a text. -/
def IsGap (gap : List Char) : Prop := ∀ c ∈ gap, isJsonBlank c = true

theorem isGap_nil : IsGap [] := by simp [IsGap]

theorem isGap_lineBreak (depth : Nat) : IsGap (lineBreak depth) := by
  intro c hc
  rcases List.mem_cons.mp hc with rfl | hc
  · rfl
  · rw [(List.mem_replicate.mp hc).2]
    rfl

theorem skipBlank_cons {c : Char} (hc : isJsonBlank c = false) (s : List Char) :
    skipBlank (c :: s) = c :: s :=
  Text.dropWhile_of_stops (Text.stops_cons hc s)

theorem skipBlank_gap {gap : List Char} (hg : IsGap gap) {c : Char} (hc : isJsonBlank c = false)
    (s : List Char) : skipBlank (gap ++ c :: s) = c :: s :=
  Text.dropWhile_run hg (Text.stops_cons hc s)

theorem skipBlank_append {gap : List Char} (hg : IsGap gap) (s : List Char) :
    skipBlank (gap ++ s) = skipBlank s :=
  List.dropWhile_append_of_pos hg

/-- The text begins, behind blanks, with another character than `stop`. -/
def StartsOff (stop : Char) (t : List Char) : Prop :=
  ∃ gap c s, t = gap ++ c :: s ∧ IsGap gap ∧ isJsonBlank c = false ∧ c ≠ stop

theorem StartsOff.append {stop : Char} {t : List Char} (h : StartsOff stop t) (rest : List Char) :
    StartsOff stop (t ++ rest) := by
  obtain ⟨gap, c, s, rfl, h⟩ := h
  exact ⟨gap, c, s ++ rest, by simp, h⟩

theorem StartsOff.gap {stop : Char} {gap t : List Char} (hg : IsGap gap) (h : StartsOff stop t) :
    StartsOff stop (gap ++ t) := by
  obtain ⟨more, c, s, rfl, hm, h⟩ := h
  refine ⟨gap ++ more, c, s, by simp, ?_, h⟩
  exact fun x hx => (List.mem_append.mp hx).elim (hg x) (hm x)

theorem StartsOff.exists_skipBlank {stop : Char} {t : List Char} (h : StartsOff stop t) :
    ∃ c s, skipBlank t = c :: s ∧ c ≠ stop := by
  obtain ⟨gap, c, s, rfl, hg, hc, hne⟩ := h
  exact ⟨c, s, skipBlank_gap hg hc s, hne⟩

/-! ### Values -/

/-- The text reads as the value, whatever follows. -/
structure Spells (t : List Char) (v : Value) : Prop where
  starts : StartsOff ']' t
  read : ∀ fuel rest, t.length ≤ fuel → readValue fuel (t ++ rest) = (.ofValue v, some rest)

theorem Spells.gap {gap t : List Char} {v : Value} (hg : IsGap gap) (h : Spells t v) :
    Spells (gap ++ t) v := by
  refine ⟨h.starts.gap hg, fun fuel rest hfuel => ?_⟩
  rw [List.length_append] at hfuel
  rw [← h.read fuel rest (by omega), List.append_assoc]
  cases fuel with
  | zero => rfl
  | succ n => rw [readValue, readValue, skipBlank_append hg]

/-- A value that is read from a text with its first character at hand. -/
theorem spells_of_first {c : Char} {s : List Char} {v : Value} (hc : isJsonBlank c = false)
    (hne : c ≠ ']') (h : ∀ n rest, s.length ≤ n →
      readValue (n + 1) (c :: (s ++ rest)) = (.ofValue v, some rest)) : Spells (c :: s) v := by
  refine ⟨⟨[], c, s, rfl, isGap_nil, hc, hne⟩, fun fuel rest hfuel => ?_⟩
  obtain ⟨n, rfl⟩ : ∃ n, fuel = n + 1 := ⟨fuel - 1, by simp at hfuel; omega⟩
  exact h n rest (by simpa using hfuel)

theorem spells_null : Spells "null".toList .null := by
  refine spells_of_first (c := 'n') (by decide) (by decide) fun n rest _ => ?_
  rw [readValue, skipBlank_cons (by decide)]
  rfl

theorem spells_bool (b : Bool) : Spells (boolText b) (.bool b) := by
  cases b with
  | true =>
    refine spells_of_first (c := 't') (by decide) (by decide) fun n rest _ => ?_
    rw [readValue, skipBlank_cons (by decide)]
    rfl
  | false =>
    refine spells_of_first (c := 'f') (by decide) (by decide) fun n rest _ => ?_
    rw [readValue, skipBlank_cons (by decide)]
    rfl

theorem spells_string (s : String) : Spells (stringText s.toList) (.str s) := by
  have htext : stringText s.toList = '"' :: (s.toList.flatMap escapeChar ++ ['"']) := rfl
  rw [htext]
  refine spells_of_first (by decide) (by decide) fun n rest _ => ?_
  rw [readValue, skipBlank_cons (by decide)]
  simp [readString_written, Source.ofValue]

section Arrays

variable {after s t : List Char} {v : Value} {vs : List Value}

/-- The text reads as the items of an array and the bracket behind them. -/
structure SpellsItems (t : List Char) (vs : List Value) : Prop where
  starts : StartsOff ']' t
  read : ∀ fuel rest, t.length ≤ fuel → readItems fuel (t ++ rest) = (ofItems vs, some rest)

theorem spellsItems_last (hs : Spells s v) (ha : IsGap after) :
    SpellsItems (s ++ after ++ [']']) [v] := by
  refine ⟨(hs.starts.append _).append _, fun fuel rest hfuel => ?_⟩
  simp only [List.length_append, List.length_cons, List.length_nil] at hfuel
  obtain ⟨n, rfl⟩ : ∃ n, fuel = n + 1 := ⟨fuel - 1, by omega⟩
  rw [List.append_assoc, List.append_assoc, readItems, hs.read n _ (by omega)]
  simp only [List.singleton_append, skipBlank_gap ha (c := ']') (by decide)]
  rfl

theorem spellsItems_cons (hs : Spells s v) (ha : IsGap after) (ht : SpellsItems t vs) :
    SpellsItems (s ++ after ++ ',' :: t) (v :: vs) := by
  refine ⟨(hs.starts.append _).append _, fun fuel rest hfuel => ?_⟩
  simp only [List.length_append, List.length_cons] at hfuel
  obtain ⟨n, rfl⟩ : ∃ n, fuel = n + 1 := ⟨fuel - 1, by omega⟩
  rw [List.append_assoc, List.append_assoc, readItems, hs.read n _ (by omega)]
  simp only [List.cons_append, skipBlank_gap ha (c := ',') (by decide), ht.read n rest (by omega)]
  rfl

theorem spells_arrNil : Spells ['[', ']'] (.arr []) := by
  refine spells_of_first (c := '[') (by decide) (by decide) fun n rest _ => ?_
  rw [readValue, skipBlank_cons (by decide)]
  rfl

theorem spells_arr (ht : SpellsItems t vs) : Spells ('[' :: t) (.arr vs) := by
  refine spells_of_first (c := '[') (by decide) (by decide) fun n rest hfuel => ?_
  obtain ⟨c, s, hskip, hne⟩ := (ht.starts.append rest).exists_skipBlank
  rw [readValue, skipBlank_cons (by decide)]
  simp [hskip, hne, ht.read n rest hfuel, Source.ofValue]

end Arrays

section Objects

variable {before after s t : List Char} {k : String} {v : Value} {ms : List (String × Value)}

/-- The text reads as the members of an object and the brace behind them. -/
structure SpellsMembers (t : List Char) (ms : List (String × Value)) : Prop where
  starts : StartsOff closeBrace t
  read : ∀ fuel rest, t.length ≤ fuel → readMembers fuel (t ++ rest) = (ofMembers ms, some rest)

/-- The text of a member: its name, a colon and its value. -/
def memberText (k : String) (s : List Char) : List Char := stringText k.toList ++ ':' :: s

theorem startsOff_memberText (hb : IsGap before) (rest : List Char) :
    StartsOff closeBrace (before ++ memberText k s ++ rest) :=
  ((StartsOff.append ⟨[], '"', _, rfl, isGap_nil, by decide, by decide⟩ _).gap hb).append rest

/-- The members from a given one on, by what stands behind its value. -/
def membersFrom (n : Nat) (m : Option String × Source) (rest : List Char) :
    List (Option String × Source) × Option (List Char) :=
  match skipBlank rest with
  | ',' :: more =>
    let (ms, tail) := readMembers n more
    (m :: ms, tail)
  | '\x7d' :: tail => ([m], some tail)
  | _ => ([m, (none, .broken)], none)

theorem readMembers_member (hb : IsGap before) (hs : Spells s v) {n : Nat} (hn : s.length ≤ n)
    (rest : List Char) :
    readMembers (n + 1) (before ++ memberText k s ++ rest) =
      membersFrom n (some k, .ofValue v) rest := by
  have htext : before ++ memberText k s ++ rest =
      before ++ '"' :: (k.toList.flatMap escapeChar ++ '"' :: ':' :: (s ++ rest)) := by
    simp [memberText, stringText]
  rw [htext, readMembers, skipBlank_gap hb (by decide)]
  simp only [readString_written, skipBlank_cons (c := ':') (by decide),
    hs.read n rest hn, String.ofList_toList]
  rfl

theorem spellsMembers_last (hb : IsGap before) (hs : Spells s v) (ha : IsGap after) :
    SpellsMembers (before ++ memberText k s ++ (after ++ [closeBrace])) [(k, v)] := by
  refine ⟨startsOff_memberText hb _, fun fuel rest hfuel => ?_⟩
  simp only [memberText, List.length_append, List.length_cons, List.length_nil] at hfuel
  obtain ⟨n, rfl⟩ : ∃ n, fuel = n + 1 := ⟨fuel - 1, by omega⟩
  rw [List.append_assoc, readMembers_member hb hs (by omega), List.append_assoc,
    List.singleton_append, membersFrom, skipBlank_gap ha (by decide)]
  rfl

theorem spellsMembers_cons (hb : IsGap before) (hs : Spells s v) (ha : IsGap after)
    (ht : SpellsMembers t ms) :
    SpellsMembers (before ++ memberText k s ++ (after ++ ',' :: t)) ((k, v) :: ms) := by
  refine ⟨startsOff_memberText hb _, fun fuel rest hfuel => ?_⟩
  simp only [memberText, List.length_append, List.length_cons] at hfuel
  obtain ⟨n, rfl⟩ : ∃ n, fuel = n + 1 := ⟨fuel - 1, by omega⟩
  rw [List.append_assoc, readMembers_member hb hs (by omega), List.append_assoc,
    List.cons_append, membersFrom, skipBlank_gap ha (by decide)]
  simp only [ht.read n rest (by omega)]
  rfl

theorem spells_objNil : Spells [openBrace, closeBrace] (.obj []) := by
  refine spells_of_first (c := openBrace) (by decide) (by decide) fun n rest _ => ?_
  rw [readValue, skipBlank_cons (by decide)]
  rfl

theorem spells_obj (ht : SpellsMembers t ms) : Spells (openBrace :: t) (.obj ms) := by
  refine spells_of_first (c := openBrace) (by decide) (by decide) fun n rest hfuel => ?_
  obtain ⟨c, s, hskip, hne⟩ := (ht.starts.append rest).exists_skipBlank
  have hbrace : c ≠ '\x7d' := hne
  rw [readValue, skipBlank_cons (by decide)]
  simp [openBrace, hskip, hbrace, ht.read n rest hfuel, Source.ofValue]

end Objects

/-! ### Values without numbers -/

/-- A value without numbers whose containers nest at most so many levels. -/
inductive PlainWithin : Nat → Value → Prop
  | null (depth : Nat) : PlainWithin depth .null
  | bool (depth : Nat) (b : Bool) : PlainWithin depth (.bool b)
  | str (depth : Nat) (s : String) : PlainWithin depth (.str s)
  | arr {depth : Nat} {items : List Value} :
    (∀ v ∈ items, PlainWithin depth v) → PlainWithin (depth + 1) (.arr items)
  | obj {depth : Nat} {members : List (String × Value)} :
    (∀ m ∈ members, PlainWithin depth m.2) → PlainWithin (depth + 1) (.obj members)

theorem plainWithin_list {α : Type} {d : Nat} {f : α → Value} (h : ∀ x, PlainWithin d (f x))
    (xs : List α) : PlainWithin (d + 1) (.arr (xs.map f)) := by
  refine .arr fun v hv => ?_
  obtain ⟨x, -, rfl⟩ := List.mem_map.mp hv
  exact h x

/-- An object whose values are all strings. -/
theorem plainWithin_texts {d : Nat} {ms : List (String × Value)}
    (h : ∀ m ∈ ms, ∃ s, m.2 = .str s) : PlainWithin (d + 1) (.obj ms) := by
  refine .obj fun m hm => ?_
  obtain ⟨s, hs⟩ := h m hm
  exact hs ▸ .str _ s

theorem plainWithin_table {d : Nat} (refs : List (String × String)) :
    PlainWithin (d + 1) (.obj (refs.map fun (k, v) => (k, .str v))) := by
  refine plainWithin_texts fun m hm => ?_
  obtain ⟨p, -, rfl⟩ := List.mem_map.mp hm
  exact ⟨p.2, rfl⟩

theorem plainWithin_map {α : Type} {d : Nat} {f : α → Value} (h : ∀ a, PlainWithin d (f a))
    (o : Option α) : ∀ x ∈ o.map f, PlainWithin d x := by
  cases o <;> simp [h]

theorem plainWithin_unless {d : Nat} (absent : Bool) {x : Value} (h : PlainWithin d x) :
    ∀ y ∈ (if absent then none else some x), PlainWithin d y := by
  cases absent <;> simp [h]

theorem PlainWithin.sorted {depth : Nat} {v : Value} (h : PlainWithin depth v) :
    PlainWithin depth v.sorted := by
  induction h with
  | null => exact .null _
  | bool _ b => exact .bool _ b
  | str _ s => exact .str _ s
  | arr _ ih =>
    rw [Value.sorted, sortedItems_eq_map]
    refine .arr fun v hv => ?_
    obtain ⟨w, hw, rfl⟩ := List.mem_map.mp hv
    exact ih w hw
  | obj _ ih =>
    rw [Value.sorted, sortedMembers_eq_map]
    refine .obj fun m hm => ?_
    obtain ⟨w, hw, rfl⟩ := List.mem_map.mp (mem_of_mem_sortMembers hm)
    exact ih w hw

theorem spellsItems_pretty {vs : List Value} (h : ∀ v ∈ vs, ∀ d, Spells (v.prettyAt d) v)
    (hne : vs ≠ []) (depth : Nat) : SpellsItems (prettyItems depth vs) vs := by
  induction vs with
  | nil => exact absurd rfl hne
  | cons v vs ih =>
    have hv := (h v (by simp) (depth + 1)).gap (isGap_lineBreak (depth + 1))
    cases vs with
    | nil => exact spellsItems_last hv (isGap_lineBreak depth)
    | cons w ws =>
      have hrest := ih (fun x hx => h x (by simp [hx])) (by simp)
      have hall := spellsItems_cons hv isGap_nil hrest
      rwa [List.append_nil] at hall

theorem spellsMembers_pretty {ms : List (String × Value)}
    (h : ∀ m ∈ ms, ∀ d, Spells (m.2.prettyAt d) m.2) (hne : ms ≠ []) (depth : Nat) :
    SpellsMembers (prettyMembers depth ms) ms := by
  induction ms with
  | nil => exact absurd rfl hne
  | cons m ms ih =>
    obtain ⟨k, v⟩ := m
    have hspace : IsGap [' '] := List.forall_mem_singleton.mpr rfl
    have hv := (h (k, v) (by simp) (depth + 1)).gap hspace
    have hline := isGap_lineBreak (depth + 1)
    cases ms with
    | nil =>
      have hall := spellsMembers_last (k := k) hline hv (isGap_lineBreak depth)
      simpa [memberText, prettyMembers] using hall
    | cons w ws =>
      have hrest := ih (fun x hx => h x (by simp [hx])) (by simp)
      have hall := spellsMembers_cons (k := k) hline hv isGap_nil hrest
      simpa [memberText, prettyMembers] using hall

theorem spells_prettyAt {depth : Nat} {v : Value} (h : PlainWithin depth v) (d : Nat) :
    Spells (v.prettyAt d) v := by
  induction h generalizing d with
  | null => exact spells_null
  | bool _ b => exact spells_bool b
  | str _ s => exact spells_string s
  | @arr _ items _ ih =>
    cases items with
    | nil => exact spells_arrNil
    | cons v vs => exact spells_arr (spellsItems_pretty ih (by simp) d)
  | @obj _ members _ ih =>
    cases members with
    | nil => exact spells_objNil
    | cons m ms => exact spells_obj (spellsMembers_pretty ih (by simp) d)

theorem spellsItems_compact {vs : List Value} (h : ∀ v ∈ vs, Spells v.compact v) (hne : vs ≠ []) :
    SpellsItems (compactItems vs) vs := by
  induction vs with
  | nil => exact absurd rfl hne
  | cons v vs ih =>
    have hv := h v (by simp)
    cases vs with
    | nil =>
      have hall := spellsItems_last hv isGap_nil
      rwa [List.append_nil] at hall
    | cons w ws =>
      have hrest := ih (fun x hx => h x (by simp [hx])) (by simp)
      have hall := spellsItems_cons hv isGap_nil hrest
      rwa [List.append_nil] at hall

theorem spellsMembers_compact {ms : List (String × Value)} (h : ∀ m ∈ ms, Spells m.2.compact m.2)
    (hne : ms ≠ []) : SpellsMembers (compactMembers ms) ms := by
  induction ms with
  | nil => exact absurd rfl hne
  | cons m ms ih =>
    obtain ⟨k, v⟩ := m
    have hv := h (k, v) (by simp)
    cases ms with
    | nil =>
      have hall := spellsMembers_last (k := k) isGap_nil hv isGap_nil
      simpa [memberText, compactMembers] using hall
    | cons w ws =>
      have hrest := ih (fun x hx => h x (by simp [hx])) (by simp)
      have hall := spellsMembers_cons (k := k) isGap_nil hv isGap_nil hrest
      simpa [memberText, compactMembers] using hall

theorem spells_compact {depth : Nat} {v : Value} (h : PlainWithin depth v) :
    Spells v.compact v := by
  induction h with
  | null => exact spells_null
  | bool _ b => exact spells_bool b
  | str _ s => exact spells_string s
  | @arr _ items _ ih =>
    cases items with
    | nil => exact spells_arrNil
    | cons v vs => exact spells_arr (spellsItems_compact ih (by simp))
  | @obj _ members _ ih =>
    cases members with
    | nil => exact spells_objNil
    | cons m ms => exact spells_obj (spellsMembers_compact ih (by simp))

theorem toItems_ofItems {d : Nat} {vs : List Value}
    (h : ∀ v ∈ vs, (Source.ofValue v).toValue d = some v) : toItems d (ofItems vs) = some vs := by
  induction vs with
  | nil => rfl
  | cons v vs ih =>
    rw [ofItems, toItems, h v (by simp), ih fun x hx => h x (by simp [hx])]
    rfl

theorem toMembers_ofMembers {d : Nat} {ms : List (String × Value)}
    (h : ∀ m ∈ ms, (Source.ofValue m.2).toValue d = some m.2) :
    toMembers d (ofMembers ms) = some ms := by
  induction ms with
  | nil => rfl
  | cons m ms ih =>
    rw [ofMembers, toMembers, h m (by simp), ih fun x hx => h x (by simp [hx])]
    rfl

theorem toValue_ofValue {depth : Nat} {v : Value} (h : PlainWithin depth v) :
    (Source.ofValue v).toValue depth = some v := by
  induction h with
  | null => rfl
  | bool => rfl
  | str => rfl
  | arr _ ih =>
    rw [Source.ofValue, Source.toValue, toItems_ofItems ih]
    rfl
  | obj _ ih =>
    rw [Source.ofValue, Source.toValue, toMembers_ofMembers ih]
    rfl

theorem ofText_of_spells {t : List Char} {v : Value} (h : Spells t v) :
    Source.ofText t = (.ofValue v, true) := by
  have hread := h.read (2 * t.length + 2) [] (by omega)
  rw [List.append_nil] at hread
  rw [Source.ofText, hread]
  rfl

/-- A value without numbers comes back from its pretty form. -/
theorem ofText?_prettyAt {v : Value} (h : PlainWithin maxDepth v) (d : Nat) :
    Value.ofText? (v.prettyAt d) = some v := by
  rw [Value.ofText?, ofText_of_spells (spells_prettyAt h d)]
  exact toValue_ofValue h

theorem exists_prettyMembers (depth : Nat) (ms : List (String × Value)) :
    ∃ inner, prettyMembers depth ms = inner ++ [closeBrace] := by
  induction ms with
  | nil => exact ⟨lineBreak depth, rfl⟩
  | cons m ms ih =>
    cases ms with
    | nil => exact ⟨_, rfl⟩
    | cons w ws =>
      obtain ⟨inner, hinner⟩ := ih
      rw [prettyMembers, hinner]
      · exact ⟨_, (List.append_assoc _ (',' :: inner) [closeBrace]).symm⟩
      · simp

/-- The pretty form of an object stands between braces. -/
theorem exists_prettyAt_obj (depth : Nat) (ms : List (String × Value)) :
    ∃ inner, (Value.obj ms).prettyAt depth = openBrace :: (inner ++ [closeBrace]) := by
  cases ms with
  | nil => exact ⟨[], rfl⟩
  | cons m ms =>
    obtain ⟨inner, hinner⟩ := exists_prettyMembers depth (m :: ms)
    exact ⟨inner, congrArg (openBrace :: ·) hinner⟩

end RuleExchange.Json
