import RuleExchange.Proofs.SignatureOptions
import RuleExchange.Zeek.Reader

/-! Terms of a guard are read back. Strings and patterns end at the first mark that no
backslash escapes, and both are written so that every backslash begins such an escape.
A term also keeps to itself: it is not cut at a conjunction, and no pattern that the
reader of a script looks for occurs in it unless it occurs in the value. -/

namespace RuleExchange.Zeek

open Text (Stops isBlank Trimmed marked)
open Text.Quoted (isQuote escape Uncut unescape_escape)

/-! ### Literals -/

theorem rawUntil?_cons {stop c : Char} (hstop : c ≠ stop) (hb : c ≠ '\\') (acrossLines : Bool)
    (s : List Char) :
    rawUntil? stop acrossLines (c :: s) =
      (rawUntil? stop acrossLines s).map fun (raw, tail) => (c :: raw, tail) := by
  cases s <;> simp [rawUntil?, hstop, hb]

theorem rawUntil?_backslash {stop n : Char} (hstop : stop ≠ '\\') {acrossLines : Bool}
    (hn : ¬ (n = '\n' ∧ !acrossLines)) (s : List Char) :
    rawUntil? stop acrossLines ('\\' :: n :: s) =
      (rawUntil? stop acrossLines s).map fun (raw, tail) => ('\\' :: n :: raw, tail) := by
  rw [rawUntil?, if_neg (Ne.symm hstop), if_pos rfl, if_neg hn]

/-- Where backslash and closing mark are escaped, the raw text goes on behind the escaped part. -/
theorem rawUntil?_marked {p : Char → Bool} {stop : Char} {acrossLines : Bool} (hb : p '\\' = true)
    (hs : p stop = true) (hstop : stop ≠ '\\') (hn : acrossLines = true ∨ p '\n' = false)
    (v s : List Char) :
    rawUntil? stop acrossLines (marked p v ++ s) =
      (rawUntil? stop acrossLines s).map fun (raw, tail) => (marked p v ++ raw, tail) := by
  induction v with
  | nil => simp [marked]
  | cons c cs ih =>
    rw [Text.marked_cons]
    by_cases hc : p c = true
    · have hline : ¬ (c = '\n' ∧ !acrossLines) := by
        rintro ⟨rfl, ha⟩
        simp_all
      simp [hc, rawUntil?_backslash hstop hline, ih, Function.comp_def]
    · have hne : c ≠ stop := fun he => hc (he ▸ hs)
      have hnb : c ≠ '\\' := fun he => hc (he ▸ hb)
      simp [hc, rawUntil?_cons hne hnb, ih, Function.comp_def]

theorem rawUntil?_escape (acrossLines : Bool) (v rest : List Char) :
    rawUntil? '"' acrossLines (escape '"' v ++ '"' :: rest) = some (escape '"' v, rest) := by
  have hclose : rawUntil? '"' acrossLines ('"' :: rest) = some ([], rest) := by
    rw [rawUntil?.eq_def]
    rfl
  rw [Text.escape_eq_marked, rawUntil?_marked (by decide) (by decide) (by decide)
    (.inr (by decide)), hclose]
  simp

/-- The characters that are escaped in a pattern literal: those of expressions, and the slash. -/
def isPatternMark (c : Char) : Bool := Signature.metaChars.contains c || c == '/'

theorem guardChar_escapeRegex (v : List Char) :
    Signature.guardChar '/' (Signature.escapeRegex v) = marked isPatternMark v :=
  Signature.guardChar_escapeRegex v

theorem rawUntil?_pattern (v s : List Char) :
    rawUntil? '/' true (Signature.guardChar '/' (Signature.escapeRegex v) ++ s) =
      (rawUntil? '/' true s).map fun (raw, tail) =>
        (Signature.guardChar '/' (Signature.escapeRegex v) ++ raw, tail) := by
  rw [guardChar_escapeRegex]
  exact rawUntil?_marked (by decide) (by decide) (by decide) (by decide) v s

theorem literalOf?_escapeRegex (v : List Char) :
    literalOf? (Signature.escapeRegex v) = some v := by
  have hletter : ∀ c ∈ Signature.metaChars, c.isAlphanum = false :=
    Text.forall_mem_of_all (by decide)
  have hpattern : ∀ c ∈ patternChars, c ∈ Signature.metaChars :=
    Text.forall_mem_of_all (by decide)
  have hbackslash : '\\' ∈ Signature.metaChars := by decide
  rw [Signature.escapeRegex_eq_marked]
  induction v with
  | nil => rfl
  | cons c cs ih =>
    rw [Text.marked_cons]
    by_cases hc : c ∈ Signature.metaChars
    · simp [hc, literalOf?, hletter c hc, ih]
    · have hnb : c ≠ '\\' := fun he => hc (he ▸ hbackslash)
      have hnp : c ∉ patternChars := fun hmem => hc (hpattern c hmem)
      have hstep : literalOf? (c :: marked Signature.metaChars.contains cs) =
          (literalOf? (marked Signature.metaChars.contains cs)).map (c :: ·) := by
        rw [literalOf?.eq_def]
        simp [hnb, hnp]
      simp [hc, hstep, ih]

/-! ### Expressions for fields -/

/-- The fields that scripts have an expression for. -/
def scriptFields : List String := FieldMap.zeek.entries.map Prod.fst

def exprOf (field : String) : String := FieldMap.zeek.platformOrKeep field

/-- A character that is no blank and has no meaning in a guard. -/
def isPlainChar (c : Char) : Bool := !isBlank c && !"\"'\\/&|)=^*".toList.contains c

theorem fieldOf_exprOf : ∀ f ∈ scriptFields, fieldOf (exprOf f).toList = f := by decide +kernel

theorem exprOf_ne_nil : ∀ f ∈ scriptFields, (exprOf f).toList ≠ [] := by decide +kernel

theorem isPlainChar_exprOf :
    ∀ f ∈ scriptFields, ∀ c ∈ (exprOf f).toList, isPlainChar c = true := by
  have hall : ∀ f ∈ scriptFields, (exprOf f).toList.all isPlainChar = true := by decide +kernel
  exact fun f hf => List.all_eq_true.mp (hall f hf)

theorem isBlank_of_isPlainChar {c : Char} (h : isPlainChar c = true) : isBlank c = false := by
  simp only [isPlainChar, Bool.and_eq_true, Bool.not_eq_true'] at h
  exact h.1

theorem notMem_of_isPlainChar {s : List Char} (h : ∀ c ∈ s, isPlainChar c = true) :
    ∀ x ∈ "\"'\\/&|)=^*".toList, x ∉ s := by
  intro x hx hmem
  have hplain := h x hmem
  simp only [isPlainChar, Bool.and_eq_true, Bool.not_eq_true', List.contains_eq_mem,
    decide_eq_false_iff_not] at hplain
  exact hplain.2 hx

theorem stops_of_isPlainChar {s : List Char} (h : ∀ c ∈ s, isPlainChar c = true)
    (hne : s ≠ []) (rest : List Char) : Stops isBlank (s ++ rest) := by
  obtain ⟨c, cs, rfl⟩ := List.exists_cons_of_ne_nil hne
  exact Text.stops_cons (isBlank_of_isPlainChar (h c (by simp))) _

variable {field : String}

theorem membership?_exprOf (hf : field ∈ scriptFields) :
    membership? (" in ".toList ++ (exprOf field).toList) = some (exprOf field).toList := by
  have hplain := isPlainChar_exprOf field hf
  have hne := exprOf_ne_nil field hf
  have hstops := stops_of_isPlainChar hplain hne []
  rw [List.append_nil] at hstops
  have hspace : isBlank ' ' = true := by decide
  have hletter : isBlank 'i' = false := by decide
  have hblank : ∀ c ∈ (exprOf field).toList, isBlank c = false := fun c hc =>
    isBlank_of_isPlainChar (hplain c hc)
  simp [membership?, afterBlank?, hspace, skipBlank, hletter, Text.after?,
    Text.dropWhile_of_stops hstops]
  simpa using ⟨by simpa using hne, hblank⟩

/-! ### Terms that look for a text -/

theorem readTerm_string (hf : field ∈ scriptFields) (v : List Char) :
    readTerm (memberTerm (stringLiteral v) (exprOf field)) =
      .ok ⟨field, .contains, String.ofList v⟩ := by
  have htext : memberTerm (stringLiteral v) (exprOf field) =
      '"' :: (escape '"' v ++ '"' :: (" in ".toList ++ (exprOf field).toList)) := by
    simp [memberTerm, stringLiteral, Text.Quoted.enclose]
  have hread : containsTerm? (memberTerm (stringLiteral v) (exprOf field)) =
      some ⟨field, .contains, String.ofList v⟩ := by
    rw [htext, containsTerm?]
    simp only [Text.after?, if_true, Option.bind_eq_bind, Option.bind_some, rawUntil?_escape,
      membership?_exprOf hf, fieldOf_exprOf field hf, unescape_escape]
    rfl
  rw [readTerm, hread]

/-- The expression is found between the slashes of its literal, whatever follows. -/
def EndsAtSlash (re : List Char) : Prop :=
  ∀ rest, rawUntil? '/' true (Signature.guardChar '/' re ++ '/' :: rest) =
    some (Signature.guardChar '/' re, rest)

theorem rawUntil?_close (rest : List Char) : rawUntil? '/' true ('/' :: rest) = some ([], rest) := by
  rw [rawUntil?.eq_def]
  rfl

theorem endsAtSlash_start (v : List Char) : EndsAtSlash ('^' :: Signature.escapeRegex v) := by
  intro rest
  have hfirst : Signature.guardChar '/' ('^' :: Signature.escapeRegex v) =
      '^' :: Signature.guardChar '/' (Signature.escapeRegex v) := rfl
  rw [hfirst, List.cons_append, rawUntil?_cons (by decide) (by decide), rawUntil?_pattern,
    rawUntil?_close]
  simp

theorem endsAtSlash_end (v : List Char) : EndsAtSlash (Signature.escapeRegex v ++ ['$']) := by
  intro rest
  have hlast : Signature.guardChar '/' (Signature.escapeRegex v ++ ['$']) =
      Signature.guardChar '/' (Signature.escapeRegex v) ++ ['$'] :=
    Signature.guardChar_append _ _ _
  rw [hlast, List.append_assoc, List.singleton_append, rawUntil?_pattern,
    rawUntil?_cons (by decide) (by decide), rawUntil?_close]
  simp

theorem readTerm_pattern (hf : field ∈ scriptFields) {re : List Char} (hre : EndsAtSlash re) :
    readTerm (memberTerm (patternLiteral re) (exprOf field)) = .ok (patternCondition field re) := by
  have htext : memberTerm (patternLiteral re) (exprOf field) =
      '/' :: (Signature.guardChar '/' re ++ '/' :: (" in ".toList ++ (exprOf field).toList)) := by
    simp [memberTerm, patternLiteral, Signature.pcreValue]
  have hstring : containsTerm? (memberTerm (patternLiteral re) (exprOf field)) = none := by
    rw [htext]
    rfl
  have hread : patternTerm? (memberTerm (patternLiteral re) (exprOf field)) =
      some (patternCondition field re) := by
    rw [htext, patternTerm?]
    simp only [Text.after?, if_true, Option.bind_eq_bind, Option.bind_some, hre _,
      membership?_exprOf hf, fieldOf_exprOf field hf,
      Signature.replaceText_guardChar (x := '/') (by decide)]
    rfl
  rw [readTerm, hstring, hread]

theorem getLast?_escapeRegex (v : List Char) : (Signature.escapeRegex v).getLast? = v.getLast? := by
  rcases List.eq_nil_or_concat v with rfl | ⟨init, last, rfl⟩
  · rfl
  · rw [List.concat_eq_append, Signature.escapeRegex, List.flatMap_append, List.flatMap_singleton]
    split <;> simp

theorem patternCondition_start (field : String) {v : List Char} (hv : v.getLast? ≠ some '$') :
    patternCondition field ('^' :: Signature.escapeRegex v) =
      ⟨field, .startsWith, String.ofList v⟩ := by
  have hlast : ('^' :: Signature.escapeRegex v).getLast? ≠ some '$' := by
    rw [List.getLast?_cons, getLast?_escapeRegex]
    cases hl : v.getLast? <;> simp_all
  simp [patternCondition, hlast, literalOf?_escapeRegex]

theorem patternCondition_end (field : String) (v : List Char) :
    patternCondition field (Signature.escapeRegex v ++ ['$']) =
      ⟨field, .endsWith, String.ofList v⟩ := by
  have hstart : ∀ rest, Signature.escapeRegex v ++ ['$'] ≠ '^' :: rest := by
    intro rest
    cases v with
    | nil => simp [Signature.escapeRegex]
    | cons c cs =>
      rw [Signature.escapeRegex_eq_marked, Text.marked_cons]
      have hmeta : '^' ∈ Signature.metaChars := by decide
      by_cases hc : c ∈ Signature.metaChars
      · simp [hc]
      · have hne : c ≠ '^' := fun he => hc (he ▸ hmeta)
        simp [hc, hne]
  simp only [patternCondition]
  simp [literalOf?_escapeRegex]

/-! ### Terms that compare -/

/-- The signs of comparisons as they are written. -/
inductive IsSign : List Char → Operator → Prop
  | equals : IsSign " == ".toList .equals
  | notEquals : IsSign " != ".toList .notEquals

theorem comparison?_exprOf (hf : field ∈ scriptFields) {sign : List Char} {op : Operator}
    (hsign : IsSign sign op) (right : List Char) :
    comparison? ((exprOf field).toList ++ sign ++ right) =
      some ((exprOf field).toList, op, ' ' :: right) := by
  have hsolid : ∀ c ∈ (exprOf field).toList, (!isBlank c) = true := fun c hc => by
    simp [isBlank_of_isPlainChar (isPlainChar_exprOf field hf c hc)]
  have hstops : Stops (fun c => !isBlank c) (sign ++ right) := by
    cases hsign <;> exact Text.stops_cons (by decide) _
  have hne := exprOf_ne_nil field hf
  rw [comparison?, List.append_assoc, Text.takeWhile_run hsolid hstops,
    Text.dropWhile_run hsolid hstops]
  cases hsign <;> simp [hne, skipBlank, isBlank, signHere?]

theorem readTerm_compare (hf : field ∈ scriptFields) {sign : List Char} {op : Operator}
    (hsign : IsSign sign op) {right : List Char} (ht : Trimmed right) :
    readTerm ((exprOf field).toList ++ sign ++ right) =
      .ok ⟨field, op, String.ofList (comparedValue field right)⟩ := by
  obtain ⟨c, cs, hexpr⟩ := List.exists_cons_of_ne_nil (exprOf_ne_nil field hf)
  have hplain := notMem_of_isPlainChar (isPlainChar_exprOf field hf)
  have hquote : '"' ≠ c := fun he => hplain '"' (by decide) (by rw [hexpr, he]; simp)
  have hslash : '/' ≠ c := fun he => hplain '/' (by decide) (by rw [hexpr, he]; simp)
  have hstring : containsTerm? ((exprOf field).toList ++ sign ++ right) = none := by
    simp [containsTerm?, hexpr, Text.after?, hquote]
  have hpattern : patternTerm? ((exprOf field).toList ++ sign ++ right) = none := by
    simp [patternTerm?, hexpr, Text.after?, hslash]
  have htrim : Text.trim ([' '] ++ right ++ []) = right :=
    Text.trim_between (List.forall_mem_singleton.mpr rfl) ht (by simp)
  rw [List.append_nil, List.singleton_append] at htrim
  rw [readTerm, hstring, hpattern, compareTerm?, comparison?_exprOf hf hsign]
  simp only [Option.bind_eq_bind, Option.bind_some, fieldOf_exprOf field hf, htrim]
  rfl

theorem comparedValue_string (field : String) (v : List Char) :
    comparedValue field (stringLiteral v) = v := by
  simp [comparedValue, stringLiteral, Text.Quoted.enclose, unescape_escape]

theorem comparedValue_unquoted {raw : List Char} (h : raw.head? ≠ some '"') :
    comparedValue field raw = if isPortField field then raw.takeWhile (· != '/') else raw := by
  cases raw with
  | nil => rfl
  | cons c cs =>
    have hc : c ≠ '"' := by simpa using h
    rw [comparedValue]
    simp [hc]

theorem comparedValue_address {v : List Char} (hv : ∀ c ∈ v, isPlainChar c = true)
    (hne : v ≠ []) (ha : isAddressField field = true) (transport : List Char) :
    comparedValue field (literal field transport v) = v := by
  have hplain := notMem_of_isPlainChar hv
  have hslash : ∀ c ∈ v, (c != '/') = true := fun c hc => by
    simpa using fun he : c = '/' => hplain '/' (by decide) (he ▸ hc)
  have hquote (s : List Char) : (v ++ s).head? ≠ some '"' := by
    obtain ⟨c, cs, rfl⟩ := List.exists_cons_of_ne_nil hne
    intro he
    have hc : c = '"' := by simpa using he
    exact hplain '"' (by decide) (by simp [hc])
  by_cases hport : isPortField field = true
  · rw [literal, if_pos hport, comparedValue_unquoted (hquote _), if_pos hport,
      Text.takeWhile_run hslash (Text.stops_cons (by decide) _)]
  · have hhead := hquote []
    rw [List.append_nil] at hhead
    rw [literal, if_neg hport, if_pos ha, comparedValue_unquoted hhead, if_neg hport]

/-! ### Terms inside a script -/

/-- The text begins and ends with characters that are no blanks and does not end with a
parenthesis. -/
structure FirmEnds (t : List Char) : Prop where
  start : Stops isBlank t
  last : ∃ s x, t = s ++ [x] ∧ isBlank x = false ∧ x ≠ ')'

theorem FirmEnds.trimmed {t : List Char} (h : FirmEnds t) : Trimmed t := by
  obtain ⟨s, x, rfl, hx, -⟩ := h.last
  refine ⟨h.start, ?_⟩
  rw [List.reverse_append]
  exact Text.stops_cons hx _

theorem FirmEnds.append {s t : List Char} (hs : Stops isBlank (s ++ t)) (ht : FirmEnds t) :
    FirmEnds (s ++ t) := by
  obtain ⟨init, x, rfl, hx⟩ := ht.last
  exact ⟨hs, s ++ init, x, by simp, hx⟩

theorem firmEnds_of_isPlainChar {s : List Char} (h : ∀ c ∈ s, isPlainChar c = true)
    (hne : s ≠ []) : FirmEnds s := by
  have hstart := stops_of_isPlainChar h hne []
  rw [List.append_nil] at hstart
  obtain ⟨init, x, hs⟩ := (List.eq_nil_or_concat s).resolve_left hne
  rw [List.concat_eq_append] at hs
  have hx : x ∈ s := by simp [hs]
  refine ⟨hstart, init, x, hs, isBlank_of_isPlainChar (h x hx), ?_⟩
  rintro rfl
  exact notMem_of_isPlainChar h ')' (by decide) hx

theorem firmEnds_stringLiteral (v : List Char) : FirmEnds (stringLiteral v) :=
  ⟨Text.stops_cons (by decide) _, '"' :: escape '"' v, '"', rfl, by decide, by decide⟩

theorem uncut_of_isPlainChar {s : List Char} (h : ∀ c ∈ s, isPlainChar c = true) :
    Uncut ['&', '&'] s := by
  have hplain := notMem_of_isPlainChar h
  refine Text.Quoted.uncut_plain fun c hc => ?_
  have hne (x : Char) (hx : x ∈ "\"'\\/&|)=^*".toList) : c ≠ x := fun he =>
    hplain x hx (he ▸ hc)
  have hand : '&' ≠ c := (hne '&' (by decide)).symm
  simp [isQuote, Text.Quoted.keepsFrom, hne '"' (by decide), hne '\'' (by decide), hand]

/-- What is written around the values of terms, cut at the marks of literals and signs, and the
constant truth. -/
def surroundings : List (List Char) :=
  [[' '], ['T'], "tcp".toList, "udp".toList] ++ scriptFields.flatMap fun f =>
    [" in ".toList ++ (exprOf f).toList, (exprOf f).toList ++ [' '],
      (exprOf f).toList ++ [' ', '!']]

/-- The marks of literals, signs, conjunctions and anchors. -/
def marks : List Char := "\\\"/=&^".toList

/-- A pattern that does not occur in a term unless it occurs in the value. -/
structure Sealed (pat : List Char) : Prop where
  unmarked : ∀ c ∈ marks, c ∉ pat
  first : pat.head? ≠ some ' '
  last : pat.getLast? ≠ some ' ' ∧ pat.getLast? ≠ some '$'
  around : ∀ s ∈ surroundings, ¬ pat <:+: s

namespace Sealed

variable {pat s t : List Char} (hp : Sealed pat)

include hp

theorem barrier {c : Char} (hc : c ∈ marks) (hs : ¬ pat <:+: s) (ht : ¬ pat <:+: t) :
    ¬ pat <:+: s ++ c :: t := by
  rw [Text.infix_append_cons_iff (hp.unmarked c hc), not_or]
  exact ⟨hs, ht⟩

theorem not_infix_nil : ¬ pat <:+: [] := fun h =>
  hp.around [' '] (by decide) (List.infix_nil.mp h ▸ List.nil_infix)

theorem barrier_cons {c : Char} (hc : c ∈ marks) (ht : ¬ pat <:+: t) :
    ¬ pat <:+: c :: t :=
  barrier hp (s := []) hc hp.not_infix_nil ht

theorem blank_cons (ht : ¬ pat <:+: t) : ¬ pat <:+: ' ' :: t := by
  rw [List.infix_cons_iff, not_or]
  refine ⟨fun h => ?_, ht⟩
  rcases List.prefix_cons_iff.mp h with rfl | ⟨rest, rfl, -⟩
  · exact ht List.nil_infix
  · exact hp.first rfl

theorem concat {c : Char} (hc : c = ' ' ∨ c = '$') (hs : ¬ pat <:+: s) : ¬ pat <:+: s ++ [c] := by
  refine fun h => hs (Text.infix_of_infix_concat ?_ h)
  rcases hc with rfl | rfl
  · exact hp.last.1
  · exact hp.last.2

theorem around_field {f : String} (hf : f ∈ scriptFields) :
    ¬ pat <:+: " in ".toList ++ (exprOf f).toList ∧ ¬ pat <:+: (exprOf f).toList ++ [' '] ∧
      ¬ pat <:+: (exprOf f).toList ++ [' ', '!'] := by
  have hmem {s : List Char} (hs : s ∈ [" in ".toList ++ (exprOf f).toList,
      (exprOf f).toList ++ [' '], (exprOf f).toList ++ [' ', '!']]) : s ∈ surroundings :=
    List.mem_append_right _ (List.mem_flatMap.mpr ⟨f, hf, hs⟩)
  exact ⟨hp.around _ (hmem (by simp)), hp.around _ (hmem (by simp)), hp.around _ (hmem (by simp))⟩

end Sealed

/-- The characters that are escaped in a string literal. -/
def isStringMark (c : Char) : Bool := c = '\\' ∨ c = '"'

/-- The text that stands for the value in the term of a condition. -/
def writtenValue (c : Condition) : List Char :=
  match c.operator with
  | .startsWith | .endsWith => marked isPatternMark c.value.toList
  | _ => marked isStringMark c.value.toList

theorem escape_eq_marked (v : List Char) : escape '"' v = marked isStringMark v :=
  Text.escape_eq_marked '"' v

/-- The text is read as the term of a condition, keeps together in a conjunction and shows
nothing that the value does not show. -/
structure IsTerm (t : List Char) (c : Condition) : Prop where
  read : readTerm t = .ok c
  long : 2 ≤ t.length
  ends : FirmEnds t
  uncut : Uncut ['&', '&'] t
  keeps : ∀ pat, Sealed pat → ¬ pat <:+: writtenValue c → ¬ pat <:+: t

theorem isTerm_member (hf : field ∈ scriptFields) {x : Char} (hx : x = '"' ∨ x = '/')
    {text body : List Char} (htext : text = x :: body ++ [x]) {c : Condition}
    (hread : readTerm (memberTerm text (exprOf field)) = .ok c) (huncut : Uncut ['&', '&'] text)
    (hkeeps : ∀ pat, Sealed pat → ¬ pat <:+: writtenValue c → ¬ pat <:+: body) :
    IsTerm (memberTerm text (exprOf field)) c where
  read := hread
  long := by
    rw [memberTerm, htext]
    simp
    omega
  ends := by
    refine .append ?_ (firmEnds_of_isPlainChar (isPlainChar_exprOf field hf)
      (exprOf_ne_nil field hf))
    rcases hx with rfl | rfl <;> (rw [htext]; exact Text.stops_cons (by decide) _)
  uncut := by
    have hin : Uncut ['&', '&'] " in ".toList :=
      Text.Quoted.uncut_plain (Text.forall_mem_of_all (by decide))
    have hexpr := uncut_of_isPlainChar (isPlainChar_exprOf field hf)
    exact Text.Quoted.uncut_append (Text.Quoted.uncut_append huncut hin) hexpr
  keeps := by
    intro pat hp hv
    have hmark : x ∈ marks := by rcases hx with rfl | rfl <;> decide
    have hshape : memberTerm text (exprOf field) =
        x :: (body ++ x :: (" in ".toList ++ (exprOf field).toList)) := by
      simp [memberTerm, htext]
    rw [hshape]
    exact hp.barrier_cons hmark (hp.barrier hmark (hkeeps pat hp hv) (hp.around_field hf).1)

theorem isTerm_compare (hf : field ∈ scriptFields) {sign : List Char} {op : Operator}
    (hsign : IsSign sign op) {right : List Char} {c : Condition}
    (hread : readTerm ((exprOf field).toList ++ sign ++ right) = .ok c) (hends : FirmEnds right)
    (huncut : Uncut ['&', '&'] right)
    (hkeeps : ∀ pat, Sealed pat → ¬ pat <:+: writtenValue c → ¬ pat <:+: right) :
    IsTerm ((exprOf field).toList ++ sign ++ right) c where
  read := hread
  long := by
    cases hsign <;> (simp; omega)
  ends := by
    refine .append ?_ hends
    rw [List.append_assoc]
    exact stops_of_isPlainChar (isPlainChar_exprOf field hf) (exprOf_ne_nil field hf) _
  uncut := by
    have hmiddle : Uncut ['&', '&'] sign := by
      cases hsign <;> exact Text.Quoted.uncut_plain (Text.forall_mem_of_all (by decide))
    have hexpr := uncut_of_isPlainChar (isPlainChar_exprOf field hf)
    exact Text.Quoted.uncut_append (Text.Quoted.uncut_append hexpr hmiddle) huncut
  keeps := by
    intro pat hp hv
    have hmark : '=' ∈ marks := by decide
    have hright := hp.blank_cons (hkeeps pat hp hv)
    obtain ⟨-, hequals, hdiffers⟩ := hp.around_field hf
    cases hsign with
    | equals =>
      have htail := hp.barrier hmark hequals (hp.barrier_cons hmark hright)
      simpa using htail
    | notEquals => simpa using hp.barrier hmark hdiffers hright

/-! ### Terms of conditions -/

variable {c : Condition}

/-- A comparison of an address or a port with a text of plain characters, such as letters,
digits, dots and colons. -/
structure IsAddressTerm (c : Condition) : Prop where
  field : isAddressField c.field = true
  operator : c.operator = .equals ∨ c.operator = .notEquals
  value_ne : c.value ≠ ""
  plain : c.value.toList.all isPlainChar = true

instance : DecidablePred IsAddressTerm := fun c =>
  decidable_of_iff (isAddressField c.field = true ∧ (c.operator = .equals ∨
      c.operator = .notEquals) ∧ c.value ≠ "" ∧ c.value.toList.all isPlainChar = true)
    ⟨fun ⟨hf, ho, hv, hp⟩ => ⟨hf, ho, hv, hp⟩, fun ⟨hf, ho, hv, hp⟩ => ⟨hf, ho, hv, hp⟩⟩

/-- The fields that are matched against a text. -/
def textFields : List String := [Field.payload, Field.httpUri, Field.dnsQuery]

/-- A condition on a text that its term stands for. Pattern literals are not quoted, so quotes in
them are taken for the quotes of strings; an expression that ends with a dollar sign is taken for
one that ends with an anchor. -/
def IsTextTerm (c : Condition) : Prop :=
  c.field ∈ textFields ∧
    match c.operator with
    | .contains => c.value ≠ ""
    | .equals => wildcard ∉ c.value.toList
    | .notEquals => c.isMatchAll = false
    | .startsWith => c.value ≠ "" ∧ c.value.toList.any isQuote = false ∧
        c.value.toList.getLast? ≠ some '$'
    | .endsWith => c.value ≠ "" ∧ c.value.toList.any isQuote = false
    | .regex => False

instance : DecidablePred IsTextTerm := fun ⟨field, op, value⟩ =>
  have (p : Prop) [Decidable p] : Decidable (field ∈ textFields ∧ p) := inferInstance
  match op with
  | .contains => this (value ≠ "")
  | .equals => this (wildcard ∉ value.toList)
  | .notEquals => this (Condition.isMatchAll ⟨field, .notEquals, value⟩ = false)
  | .startsWith => this (value ≠ "" ∧ value.toList.any isQuote = false ∧
      value.toList.getLast? ≠ some '$')
  | .endsWith => this (value ≠ "" ∧ value.toList.any isQuote = false)
  | .regex => this False

theorem IsAddressTerm.not_isMatchAll (h : IsAddressTerm c) : c.isMatchAll = false := by
  have hstar : wildcard ∉ c.value.toList :=
    notMem_of_isPlainChar (List.all_eq_true.mp h.plain) wildcard (by decide)
  obtain ⟨x, xs, hx⟩ := List.exists_cons_of_ne_nil
    (fun he => h.value_ne (String.toList_eq_nil_iff.mp he))
  have hne : x ≠ wildcard := fun he => hstar (by simp [hx, he])
  rcases h.operator with ho | ho <;> simp [Condition.isMatchAll, ho, hx, hne]

theorem IsTextTerm.not_isMatchAll (h : IsTextTerm c) : c.isMatchAll = false := by
  obtain ⟨-, h⟩ := h
  cases ho : c.operator <;> simp only [ho] at h
  case equals =>
    cases hv : c.value.toList with
    | nil => simp [Condition.isMatchAll, ho, String.toList_eq_nil_iff.mp hv]
    | cons x xs =>
      have hne : x ≠ wildcard := fun he => h (by simp [hv, he])
      simp [Condition.isMatchAll, ho, hv, hne]
  case notEquals => exact h
  case contains => simpa [Condition.isMatchAll, ho] using h
  case startsWith => simpa [Condition.isMatchAll, ho] using h.1
  case endsWith => simpa [Condition.isMatchAll, ho] using h.1

theorem mem_scriptFields_of_isAddressField (h : isAddressField field = true) :
    field ∈ scriptFields := by
  simp only [isAddressField, isPortField, Bool.or_eq_true, beq_iff_eq, or_assoc] at h
  rcases h with rfl | rfl | rfl | rfl <;> decide

theorem mem_scriptFields_of_textFields : ∀ f ∈ textFields, f ∈ scriptFields := by decide

theorem not_isPortField_of_textFields : ∀ f ∈ textFields, isPortField f = false := by decide

theorem not_isAddressField_of_textFields : ∀ f ∈ textFields, isAddressField f = false := by decide

theorem literal_text (hf : field ∈ textFields) (transport v : List Char) :
    literal field transport v = stringLiteral v := by
  simp [literal, not_isPortField_of_textFields field hf, not_isAddressField_of_textFields field hf]

theorem marked_of_isPlainChar {v : List Char} (h : ∀ c ∈ v, isPlainChar c = true) :
    marked isStringMark v = v := by
  have hplain := notMem_of_isPlainChar h
  refine Text.marked_eq_self fun c hc => ?_
  have hb : c ≠ '\\' := fun he => hplain '\\' (by decide) (he ▸ hc)
  have hq : c ≠ '"' := fun he => hplain '"' (by decide) (he ▸ hc)
  simp [isStringMark, hb, hq]

theorem not_infix_stringLiteral {pat v : List Char} (hp : Sealed pat)
    (hv : ¬ pat <:+: marked isStringMark v) : ¬ pat <:+: stringLiteral v := by
  have hmark : '"' ∈ marks := by decide
  rw [stringLiteral, Text.Quoted.enclose, escape_eq_marked]
  exact hp.barrier_cons hmark (hp.barrier hmark hv hp.not_infix_nil)

/-- The term of a comparison with what is written for a value. -/
theorem isTerm_comparison (hf : c.field ∈ scriptFields) {transport : List Char}
    (ho : c.operator = .equals ∨ c.operator = .notEquals)
    (hw : c.operator = .equals → c.hasInnerWildcard = false)
    (hvalue : comparedValue c.field (literal c.field transport c.value.toList) = c.value.toList)
    (hends : FirmEnds (literal c.field transport c.value.toList))
    (huncut : Uncut ['&', '&'] (literal c.field transport c.value.toList))
    (hkeeps : ∀ pat, Sealed pat → ¬ pat <:+: marked isStringMark c.value.toList →
      ¬ pat <:+: literal c.field transport c.value.toList) :
    IsTerm (term c (exprOf c.field) transport) c := by
  have hread {sign : List Char} (hsign : IsSign sign c.operator) :=
    readTerm_compare hf hsign hends.trimmed
  rw [hvalue, String.ofList_toList] at hread
  have hwritten : writtenValue c = marked isStringMark c.value.toList := by
    rcases ho with ho | ho <;> simp [writtenValue, ho]
  rw [← hwritten] at hkeeps
  rcases ho with ho | ho
  · have hsign : IsSign " == ".toList c.operator := ho ▸ .equals
    have hterm : term c (exprOf c.field) transport = (exprOf c.field).toList ++ " == ".toList ++
        literal c.field transport c.value.toList := by
      simp [term, ho, hw ho]
    rw [hterm]
    exact isTerm_compare hf hsign (hread hsign) hends huncut hkeeps
  · have hsign : IsSign " != ".toList c.operator := ho ▸ .notEquals
    have hterm : term c (exprOf c.field) transport = (exprOf c.field).toList ++ " != ".toList ++
        literal c.field transport c.value.toList := by
      simp [term, ho]
    rw [hterm]
    exact isTerm_compare hf hsign (hread hsign) hends huncut hkeeps

theorem isTerm_address (h : IsAddressTerm c) {transport : List Char}
    (ht : transport ∈ ["tcp".toList, "udp".toList]) :
    IsTerm (term c (exprOf c.field) transport) c := by
  have hvalue := List.all_eq_true.mp h.plain
  have hne : c.value.toList ≠ [] := fun he => h.value_ne (String.toList_eq_nil_iff.mp he)
  have hstar : wildcard ∉ c.value.toList := notMem_of_isPlainChar hvalue wildcard (by decide)
  have hplain : ∀ x ∈ transport, isPlainChar x = true := by
    have hall : ∀ t ∈ ["tcp".toList, "udp".toList], t.all isPlainChar = true := by decide
    exact List.all_eq_true.mp (hall transport ht)
  have hsmall : ∀ pat, Sealed pat → ¬ pat <:+: transport := fun pat hp =>
    hp.around transport
      (List.mem_append_left _ (List.mem_cons_of_mem _ (List.mem_cons_of_mem _ ht)))
  have htransport : transport ≠ [] := by
    rintro rfl
    exact absurd ht (by decide)
  refine isTerm_comparison (mem_scriptFields_of_isAddressField h.field) h.operator
    (fun _ => by simp [Condition.hasInnerWildcard, hstar])
    (comparedValue_address hvalue hne h.field transport) ?ends ?uncut ?keeps
  case ends =>
    rw [literal]
    split
    · rw [← List.singleton_append, ← List.append_assoc]
      refine .append ?_ (firmEnds_of_isPlainChar hplain htransport)
      rw [List.append_assoc]
      exact stops_of_isPlainChar hvalue hne _
    · rw [if_pos h.field]
      exact firmEnds_of_isPlainChar hvalue hne
  case uncut =>
    have hkept := uncut_of_isPlainChar hvalue
    rw [literal]
    split
    · exact Text.Quoted.uncut_append hkept
        (Text.Quoted.uncut_cons (by decide) (by decide) (uncut_of_isPlainChar hplain))
    · rw [if_pos h.field]
      exact hkept
  case keeps =>
    intro pat hp hv
    rw [marked_of_isPlainChar hvalue] at hv
    rw [literal]
    split
    · exact hp.barrier (by decide) hv (hsmall pat hp)
    · rwa [if_pos h.field]

theorem isTerm_quoted (hf : c.field ∈ textFields)
    (ho : c.operator = .equals ∨ c.operator = .notEquals)
    (hw : c.operator = .equals → c.hasInnerWildcard = false) (transport : List Char) :
    IsTerm (term c (exprOf c.field) transport) c := by
  have hliteral := literal_text hf transport c.value.toList
  refine isTerm_comparison (mem_scriptFields_of_textFields _ hf) ho hw ?value ?ends ?uncut ?keeps
  case value => rw [hliteral, comparedValue_string]
  case ends => rw [hliteral]; exact firmEnds_stringLiteral _
  case uncut => rw [hliteral]; exact Text.Quoted.uncut_enclose _ (by decide) _
  case keeps =>
    intro pat hp hv
    rw [hliteral]
    exact not_infix_stringLiteral hp hv

/-- Patterns have no ampersand without a backslash before it, so nothing cuts them. -/
theorem uncut_marked {v : List Char} (hq : v.any isQuote = false) {x : Char}
    (hx : isQuote x = false) (hand : x ≠ '&') :
    Uncut ['&', '&'] (marked isPatternMark v ++ [x]) := by
  have hquotes : ∀ y ∈ marked isPatternMark v, isQuote y = false := by
    intro y hy
    rcases Text.mem_marked hy with rfl | hmem
    · decide
    · exact Bool.eq_false_iff.mpr (List.any_eq_false.mp hq y hmem)
  exact Text.Quoted.uncut_of_not_infix (by simp) hquotes
    (Text.not_infix_marked (by decide) (by decide) (by decide) v) hx (by simpa using hand)

theorem isTerm_start (hf : c.field ∈ scriptFields) (ho : c.operator = .startsWith)
    (hq : c.value.toList.any isQuote = false) (hlast : c.value.toList.getLast? ≠ some '$')
    (transport : List Char) : IsTerm (term c (exprOf c.field) transport) c := by
  have hterm : term c (exprOf c.field) transport = memberTerm
      (patternLiteral ('^' :: Signature.escapeRegex c.value.toList)) (exprOf c.field) := by
    simp [term, ho]
  have hguard : Signature.guardChar '/' ('^' :: Signature.escapeRegex c.value.toList) =
      '^' :: marked isPatternMark c.value.toList := by
    rw [← guardChar_escapeRegex]
    rfl
  have hread := readTerm_pattern hf (endsAtSlash_start c.value.toList)
  rw [patternCondition_start c.field hlast, String.ofList_toList, ← ho] at hread
  rw [hterm]
  refine isTerm_member hf (.inr rfl) rfl hread ?uncut ?keeps
  case uncut =>
    rw [hguard]
    exact Text.Quoted.uncut_cons (by decide) (by decide)
      (Text.Quoted.uncut_cons (by decide) (by decide) (uncut_marked hq (by decide) (by decide)))
  case keeps =>
    intro pat hp hv
    rw [hguard]
    exact hp.barrier_cons (by decide) (by simpa [writtenValue, ho] using hv)

theorem isTerm_end (hf : c.field ∈ scriptFields) (ho : c.operator = .endsWith)
    (hq : c.value.toList.any isQuote = false) (transport : List Char) :
    IsTerm (term c (exprOf c.field) transport) c := by
  have hterm : term c (exprOf c.field) transport = memberTerm
      (patternLiteral (Signature.escapeRegex c.value.toList ++ ['$'])) (exprOf c.field) := by
    simp [term, ho]
  have hguard : Signature.guardChar '/' (Signature.escapeRegex c.value.toList ++ ['$']) =
      marked isPatternMark c.value.toList ++ ['$'] := by
    rw [Signature.guardChar_append, guardChar_escapeRegex]
    rfl
  have hread := readTerm_pattern hf (endsAtSlash_end c.value.toList)
  rw [patternCondition_end, String.ofList_toList, ← ho] at hread
  rw [hterm]
  refine isTerm_member hf (.inr rfl) rfl hread ?uncut ?keeps
  case uncut =>
    rw [hguard]
    exact Text.Quoted.uncut_cons (by decide) (by decide)
      (Text.Quoted.uncut_append (uncut_marked hq (by decide) (by decide))
        (Text.Quoted.uncut_plain (Text.forall_mem_of_all (by decide))))
  case keeps =>
    intro pat hp hv
    rw [hguard]
    exact hp.concat (.inr rfl) (by simpa [writtenValue, ho] using hv)

theorem isTerm_contains (hf : c.field ∈ scriptFields) (ho : c.operator = .contains)
    (transport : List Char) : IsTerm (term c (exprOf c.field) transport) c := by
  have hterm : term c (exprOf c.field) transport =
      memberTerm (stringLiteral c.value.toList) (exprOf c.field) := by
    simp [term, ho]
  have hread := readTerm_string hf c.value.toList
  rw [String.ofList_toList, ← ho] at hread
  rw [hterm]
  refine isTerm_member hf (.inl rfl) rfl hread (Text.Quoted.uncut_enclose _ (by decide) _) ?_
  intro pat hp hv
  rw [escape_eq_marked]
  simpa [writtenValue, ho] using hv

theorem isTerm_text (h : IsTextTerm c) (transport : List Char) :
    IsTerm (term c (exprOf c.field) transport) c := by
  obtain ⟨hf, h⟩ := h
  have hscript := mem_scriptFields_of_textFields _ hf
  cases ho : c.operator with
  | contains => exact isTerm_contains hscript ho transport
  | equals =>
    have hstar : wildcard ∉ c.value.toList := by simpa [ho] using h
    exact isTerm_quoted hf (.inl ho) (fun _ => by simp [Condition.hasInnerWildcard, hstar]) _
  | notEquals => exact isTerm_quoted hf (.inr ho) (by simp [ho]) transport
  | startsWith =>
    simp only [ho] at h
    exact isTerm_start hscript ho h.2.1 h.2.2 transport
  | endsWith =>
    simp only [ho] at h
    exact isTerm_end hscript ho h.2 transport
  | regex => simp only [ho] at h

end RuleExchange.Zeek
