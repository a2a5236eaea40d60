import RuleExchange.Platform.Conversion
import RuleExchange.Proofs.PatternSearch
import RuleExchange.Proofs.SignatureOptions

/-! What the patterns of a signature dialect say of the signatures it writes. The first
pattern reads the action, and a protocol behind it where the dialect names protocols. The
second looks for the title between two quotes with no quote between them, while a quote in a
title is written with a backslash before it. So titles without quotes pass, and a title with a
quote fails unless a stray quote elsewhere makes up for it. -/

namespace RuleExchange.Signature

open Regex (CharSet Pattern)
open Regex.Pattern
open Text (marked isBlank)

/-! ### The patterns -/

def blanks : Pattern := run .blank

def gap : Pattern := run₁ .blank

/-- The start of a text and one of some actions. -/
def actionPattern (actions : List String) : Pattern :=
  .seq (.seq (.look .textStart) blanks) (oneOf actions)

def unquoted : CharSet := .compl (.union .none (.single '"'))

/-- An option by its name, and its value between two quotes that have no quote between them. -/
def titlePattern (name : Pattern) : Pattern :=
  let opened := spelled (.seq (spelled (.seq name blanks) [':']) blanks) ['"']
  spelled (.seq (spelled (.seq opened (run₁ unquoted)) ['"']) blanks) [';']

/-- A dialect with what its patterns name: the actions, the protocols if it lists any, and the way
to the title. -/
structure Dialect where
  platform : Platform
  flavor : Flavor
  actions : List String
  protocols : Option (List String)
  titleName : Pattern

def Dialect.snort : Dialect where
  platform := .snort
  flavor := .snort
  actions := ["alert", "log", "pass", "activate", "dynamic", "drop", "reject", "sdrop"]
  protocols := none
  titleName := spelled (.seq (.chars (.single '(')) blanks) "msg".toList

def Dialect.suricata : Dialect where
  platform := .suricata
  flavor := .suricata
  actions := ["alert", "drop", "pass", "reject", "rejectsrc", "rejectdst", "rejectboth"]
  protocols := some ["tcp", "udp", "ip", "icmp", "http", "http2", "dns", "tls", "ssh", "smtp",
    "ftp", "smb", "dhcp"]
  titleName := spelled .empty "msg".toList

namespace Dialect

def headPattern (d : Dialect) : Pattern :=
  match d.protocols with
  | none => .seq (actionPattern d.actions) (.chars .blank)
  | some protocols => .seq (.seq (.seq (actionPattern d.actions) gap) (oneOf protocols)) gap

theorem patterns_snort :
    Platform.snort.patterns.map Structure.pattern =
      [snort.headPattern, titlePattern snort.titleName] := by
  decide +kernel

theorem patterns_suricata :
    Platform.suricata.patterns.map Structure.pattern =
      [suricata.headPattern, titlePattern suricata.titleName] := by
  decide +kernel

end Dialect

/-! ### Titles between quotes -/

/-- The text ends with the name of the title option and its colon. -/
def Announces (s : List Char) : Prop :=
  ∃ a u v, s = a ++ "msg".toList ++ u ++ ':' :: v ∧ (∀ c ∈ u, isBlank c) ∧ ∀ c ∈ v, isBlank c

/-- The text begins with a semicolon, blanks aside. -/
def Closes (s : List Char) : Prop := (s.dropWhile isBlank).head? = some ';'

/-- No value between two quotes without a quote between them is a title of the text. -/
def Untitled (s : List Char) : Prop :=
  ∀ pre t post, s = pre ++ '"' :: (t ++ '"' :: post) → '"' ∉ t → Announces pre → ¬ Closes post

/-- The first quote of the text ends no option. -/
def Opens (s : List Char) : Prop := ∀ t post, s = t ++ '"' :: post → '"' ∉ t → ¬ Closes post

theorem mem_unquoted {c : Char} : unquoted.has c = true ↔ c ≠ '"' := by
  simp [unquoted, CharSet.has, Bool.eq_false_iff, has_single]

theorem matches_titlePattern_iff {name : Pattern} {before : Option Char} {m rest : List Char} :
    Matches (titlePattern name) before m rest ↔
      ∃ n u v t w, m = n ++ u ++ ':' :: (v ++ '"' :: (t ++ '"' :: (w ++ [';']))) ∧
        Matches name before n (u ++ ':' :: (v ++ '"' :: (t ++ '"' :: (w ++ ';' :: rest)))) ∧
        (∀ c ∈ u, isBlank c) ∧ (∀ c ∈ v, isBlank c) ∧ (t ≠ [] ∧ '"' ∉ t) ∧
        ∀ c ∈ w, isBlank c := by
  simp only [titlePattern, blanks, matches_spelled_iff, matches_seq_iff, matches_run_iff,
    matches_run₁_iff, mem_unquoted, CharSet.has]
  constructor
  · rintro ⟨_, rfl, _, w, rfl, ⟨_, rfl, _, t, rfl, ⟨_, rfl, _, v, rfl, ⟨_, rfl, n, u, rfl, hn, hu⟩,
      hv⟩, ht⟩, hw⟩
    exact ⟨n, u, v, t, w, by simp, by simpa using hn, hu, hv,
      ⟨ht.1, fun hmem => ht.2 _ hmem rfl⟩, hw⟩
  · rintro ⟨n, u, v, t, w, rfl, hn, hu, hv, ⟨hne, ht⟩, hw⟩
    refine ⟨_, ?_, _, w, rfl, ⟨_, rfl, _, t, rfl, ⟨_, rfl, _, v, rfl, ⟨_, rfl, n, u, rfl, ?_, hu⟩,
      hv⟩, hne, ?_⟩, hw⟩
    · simp
    · simpa using hn
    · rintro c hc rfl
      exact ht hc

theorem closes_of_blanks {w r : List Char} (hw : ∀ c ∈ w, isBlank c) : Closes (w ++ ';' :: r) := by
  have hstop : Text.Stops isBlank (';' :: r) := Text.stops_cons (by decide) r
  rw [Closes, Text.dropWhile_run hw hstop]
  rfl

/-- An untitled text does not match, whatever leads to the title, as long as it ends with the name
of the option. -/
theorem occursIn_titlePattern_of_untitled {name : Pattern} {s : List Char}
    (hname : ∀ before m rest, Matches name before m rest → "msg".toList <:+ m)
    (hs : Untitled s) : (titlePattern name).occursIn s = false := by
  rw [Bool.eq_false_iff, Ne, occursIn_iff_matches]
  rintro ⟨pre, m, rest, rfl, hm⟩
  obtain ⟨n, u, v, t, w, rfl, hn, hu, hv, ⟨-, ht⟩, hw⟩ := matches_titlePattern_iff.mp hm
  obtain ⟨a, rfl⟩ := hname _ _ _ hn
  exact hs (pre ++ (a ++ "msg".toList) ++ u ++ ':' :: v) t (w ++ ';' :: rest) (by simp) ht
    ⟨pre ++ a, u, v, by simp, hu, hv⟩ (closes_of_blanks hw)

theorem occursIn_titlePattern_of_title {name : Pattern} {n t : List Char}
    (hname : ∀ before rest, Matches name before n rest) (hne : t ≠ []) (ht : '"' ∉ t)
    (pre post : List Char) :
    (titlePattern name).occursIn (pre ++ n ++ ':' :: '"' :: (t ++ '"' :: ';' :: post)) = true := by
  rw [occursIn_iff_matches]
  refine ⟨pre, n ++ ':' :: '"' :: (t ++ ['"', ';']), post, by simp, ?_⟩
  exact matches_titlePattern_iff.mpr
    ⟨n, [], [], t, [], by simp, hname _ _, by simp, by simp, ⟨hne, ht⟩, by simp⟩

/-! ### Texts without a title -/

/-- The first quote of a text parts it in one way. -/
theorem first_quote_inj {x y t post : List Char} (hx : '"' ∉ x) (ht : '"' ∉ t)
    (h : x ++ '"' :: y = t ++ '"' :: post) : x = t ∧ y = post := by
  induction x generalizing t with
  | nil =>
    cases t with
    | nil => exact ⟨rfl, (List.cons.inj h).2⟩
    | cons d t =>
      cases h
      exact absurd List.mem_cons_self ht
  | cons c x ih =>
    cases t with
    | nil =>
      cases h
      exact absurd List.mem_cons_self hx
    | cons d t =>
      obtain ⟨rfl, htail⟩ := List.cons.inj h
      rw [List.mem_cons, not_or] at hx ht
      obtain ⟨rfl, hy⟩ := ih hx.2 ht.2 htail
      exact ⟨rfl, hy⟩

theorem announces_of_append {x y : List Char} (h : Announces (x ++ '"' :: y)) : Announces y := by
  obtain ⟨a, u, v, he, hu, hv⟩ := h
  have hquote : '"' ∉ "msg".toList ++ u ++ ':' :: v := by
    have hblank (s : List Char) (hs : ∀ c ∈ s, isBlank c) : '"' ∉ s := fun hmem =>
      absurd (hs _ hmem) (by decide)
    simp [hblank u hu, hblank v hv]
  rw [List.append_assoc, List.append_assoc, ← List.append_assoc "msg".toList] at he
  rcases List.append_eq_append_iff.mp he with ⟨z, rfl, hz⟩ | ⟨z, rfl, hz⟩
  · cases z with
    | nil => exact absurd (hz ▸ List.mem_cons_self) hquote
    | cons d z =>
      obtain ⟨rfl, hy⟩ := List.cons.inj hz
      exact ⟨z, u, v, by simpa using hy, hu, hv⟩
  · exact absurd (hz ▸ List.mem_append_right _ List.mem_cons_self) hquote

theorem untitled_of_notMem {s : List Char} (h : '"' ∉ s) : Untitled s := by
  rintro pre t post rfl
  simp at h

theorem opens_of_notMem {s : List Char} (h : '"' ∉ s) : Opens s := by
  rintro t post rfl
  simp at h

theorem untitled_quote {x y : List Char} (hx : '"' ∉ x) (hopen : Announces x → Opens y)
    (hy : Untitled y) : Untitled (x ++ '"' :: y) := by
  intro pre t post he ht hpre
  by_cases hq : '"' ∈ pre
  · -- the quotes stand behind the first one
    obtain ⟨a, b, rfl, ha⟩ := List.eq_append_cons_of_mem hq
    obtain ⟨rfl, hy'⟩ := first_quote_inj hx ha (by simpa using he)
    exact hy b t post (by simpa using hy') ht (announces_of_append hpre)
  · obtain ⟨rfl, hy'⟩ := first_quote_inj hx hq he
    exact hopen hpre t post hy' ht

theorem opens_quote {x y : List Char} (hx : '"' ∉ x) (hy : ¬ Closes y) : Opens (x ++ '"' :: y) := by
  intro t post he ht
  obtain ⟨-, rfl⟩ := first_quote_inj hx ht he
  exact hy

/-- What may follow an option: no title between quotes, and a first quote that ends nothing. -/
structure Calm (s : List Char) : Prop where
  untitled : Untitled s
  opens : Opens s

theorem calm_of_notMem {s : List Char} (h : '"' ∉ s) : Calm s :=
  ⟨untitled_of_notMem h, opens_of_notMem h⟩

/-- Read from its end, an announcing text shows the colon and then the end of the name. -/
theorem reverse_of_announces {s : List Char} (h : Announces s) :
    ∃ r, s.reverse.dropWhile isBlank = ':' :: r ∧ (r.dropWhile isBlank).head? = some 'g' := by
  obtain ⟨a, u, v, rfl, hu, hv⟩ := h
  have hcolon (r : List Char) : Text.Stops isBlank (':' :: r) := Text.stops_cons (by decide) r
  have hname (r : List Char) : Text.Stops isBlank ('g' :: r) := Text.stops_cons (by decide) r
  refine ⟨u.reverse ++ 'g' :: ('s' :: 'm' :: a.reverse), ?_, ?_⟩
  · have hrun := Text.dropWhile_run (fun c hc => hv c (List.mem_reverse.mp hc))
      (hcolon (u.reverse ++ 'g' :: ('s' :: 'm' :: a.reverse)))
    simpa using hrun
  · rw [Text.dropWhile_run (fun c hc => hu c (List.mem_reverse.mp hc)) (hname _)]
    rfl

theorem not_announces_concat {c : Char} (hblank : isBlank c = false) (hc : c ≠ ':')
    (x : List Char) : ¬ Announces (x ++ [c]) := by
  intro h
  obtain ⟨r, hr, -⟩ := reverse_of_announces h
  simp [hblank, hc] at hr

/-- A quote inside a guarded value stands behind a backslash, so it announces nothing. -/
theorem untitled_marked {p : Char → Bool} (hp : p '"' = true) {x : List Char} (hx : '"' ∉ x)
    (v : List Char) {rest : List Char} (hrest : Calm rest) :
    Untitled (x ++ marked p v ++ '"' :: rest) := by
  induction v generalizing x with
  | nil => simpa [marked] using untitled_quote hx (fun _ => hrest.opens) hrest.untitled
  | cons c cs ih =>
    rw [Text.marked_cons]
    by_cases hq : c = '"'
    · subst hq
      have hinner : Untitled (marked p cs ++ '"' :: rest) := by simpa using ih (x := []) (by simp)
      have hlead : ¬ Announces (x ++ ['\\']) := not_announces_concat (by decide) (by decide) x
      have hquote := untitled_quote (x := x ++ ['\\']) (by simpa using hx) (absurd · hlead) hinner
      simpa [hp] using hquote
    · cases hc : p c with
      | true => simpa using ih (x := x ++ ['\\', c]) (by simp [hx, Ne.symm hq])
      | false => simpa using ih (x := x ++ [c]) (by simp [hx, Ne.symm hq])

/-- A guarded value does not begin as the end of an option does. -/
theorem not_closes_marked {p : Char → Bool} (hp : p ';' = true) (v rest : List Char) :
    ¬ Closes (marked p v ++ '"' :: rest) := by
  induction v with
  | nil => 
    have : isBlank '"' = false := by decide
    simp [marked, Closes, this]
  | cons c cs ih =>
    rw [Text.marked_cons]
    cases hc : p c with
    | true =>
      have : isBlank '\\' = false := by decide
      simp [Closes, this]
    | false =>
      have hne : c ≠ ';' := fun he => by simp [he, hp] at hc
      cases hb : isBlank c with
      | true => simpa [Closes, hb] using ih
      | false => simpa [Closes, hb] using hne

/-! ### Options -/

/-- The keys of quoted values that are no title. -/
def searchKeys : List String := ["content", "uricontent", "pcre"]

/-- An option that nothing takes for a title: it has no quotes, or it has a quoted value under
another name. An expression begins with a slash. -/
inductive Unannounced : RuleOption → Prop
  | plain {o} (h : '"' ∉ o.text) : Unannounced o
  | quoted {key v negated} (hkey : key ∈ searchKeys)
      (hv : key = "pcre" → v.toList.head? = some '/') : Unannounced ⟨key, some v, negated⟩

theorem not_announces_key {key : String} (h : key ∈ searchKeys)
    (negated : Bool) (x : List Char) :
    ¬ Announces (x ++ (key.toList ++ ':' :: (if negated then ['!'] else []))) := by
  cases negated with
  | true => simpa using not_announces_concat (by decide) (by decide) (x ++ key.toList ++ [':'])
  | false =>
    intro hx
    obtain ⟨r, hr, hhead⟩ := reverse_of_announces hx
    have hcolon : isBlank ':' = false := by decide
    have hlast : ∀ c ∈ ['t', 'e'], isBlank c = false ∧ c ≠ 'g' :=
      Text.forall_mem_of_all (by decide)
    have hkey : ∃ c init, key.toList = init ++ [c] ∧ c ∈ ['t', 'e'] := by
      simp only [searchKeys, List.mem_cons, List.not_mem_nil, or_false] at h
      rcases h with rfl | rfl | rfl
      · exact ⟨'t', "conten".toList, rfl, by decide⟩
      · exact ⟨'t', "uriconten".toList, rfl, by decide⟩
      · exact ⟨'e', "pcr".toList, rfl, by decide⟩
    obtain ⟨c, init, hinit, hc⟩ := hkey
    obtain ⟨hblank, hne⟩ := hlast c hc
    simp only [hinit, Bool.false_eq_true, if_false, List.reverse_append, List.reverse_cons,
      List.reverse_nil, List.nil_append, List.cons_append, List.dropWhile_cons, hcolon] at hr
    cases hr
    simp [hblank, hne] at hhead

/-- A quoted value behind a lead that announces nothing. -/
theorem calm_quoted {p : Char → Bool} (hp : p '"' = true) {lead : List Char} (hlead : '"' ∉ lead)
    (hname : ¬ Announces lead) {v rest : List Char}
    (hopen : ¬ Closes (marked p v ++ '"' :: rest)) (hrest : Calm rest) :
    Calm (lead ++ '"' :: (marked p v ++ '"' :: rest)) := by
  have hvalue : Untitled (marked p v ++ '"' :: rest) := by
    simpa using untitled_marked hp (x := []) (by simp) v hrest
  exact ⟨untitled_quote hlead (absurd · hname) hvalue, opens_quote hlead hopen⟩

theorem calm_option {o : RuleOption} (ho : Unannounced o) {rest : List Char}
    (hrest : ∀ x, '"' ∉ x → Calm (x ++ rest)) {x : List Char} (hx : '"' ∉ x) :
    Calm (x ++ (o.text ++ rest)) := by
  have hend : Calm (';' :: rest) := by simpa using hrest [';'] (by simp)
  cases ho with
  | plain h => simpa using hrest (x ++ o.text) (by simp [hx, h])
  | @quoted key v negated hkey hv =>
    let lead := key.toList ++ ':' :: (if negated then ['!'] else [])
    have hquoted : ∀ k ∈ searchKeys, k ∈ quotedKeys ∧ '"' ∉ k.toList := by decide
    have hlead : '"' ∉ x ++ lead := by
      cases negated <;> simp [lead, hx, (hquoted key hkey).2]
    have hopen : ¬ Closes (marked (isGuarded key) v.toList ++ '"' :: ';' :: rest) := by
      by_cases hpcre : key = "pcre"
      · obtain ⟨cs, hcs⟩ := List.head?_eq_some_iff.mp (hv hpcre)
        have hslash : isBlank '/' = false := by decide
        simp [hcs, hpcre, Text.marked_cons, isGuarded, Closes, hslash]
      · exact not_closes_marked (by simp [isGuarded, hpcre]) _ _
    have hcalm := calm_quoted (isGuarded_quote key) hlead (not_announces_key hkey negated x) hopen
      hend
    simpa [text_quoted (hquoted key hkey).1, lead] using hcalm

/-- The options behind the title do not look like another one. -/
theorem calm_options {os : List RuleOption} (hos : ∀ o ∈ os, Unannounced o) {x : List Char}
    (hx : '"' ∉ x) : Calm (x ++ ((os.map RuleOption.text).flatMap ([' '] ++ ·) ++ [')'])) := by
  induction os generalizing x with
  | nil => exact calm_of_notMem (by simp [hx])
  | cons o os ih =>
    rw [List.forall_mem_cons] at hos
    have hone := calm_option hos.1 (fun y hy => ih hos.2 hy) (x := x ++ [' ']) (by simp [hx])
    simpa using hone

/-! ### Signatures with a title -/

section Titled

variable {s : Signature} {t : String} {os : List RuleOption}

/-- What stands behind the title. -/
def afterTitle (os : List RuleOption) : List Char :=
  (os.map RuleOption.text).flatMap ([' '] ++ ·) ++ [')']

theorem text_titled (hs : s.options = .pair "msg" t :: os) :
    s.text = Text.joinWith [' '] (s.headerWords.map String.toList) ++ " (msg".toList ++
      ':' :: '"' :: (marked (isGuarded "msg") t.toList ++ '"' :: ';' :: afterTitle os) := by
  have hkey : "msg" ∈ quotedKeys := by decide
  have hmsg := text_quoted hkey t false
  simp only [Signature.text, hs, List.map_cons, Text.joinWith_cons, RuleOption.pair, hmsg,
    afterTitle]
  simp

theorem notMem_joinWith {x : Char} {sep : List Char} (hsep : x ∉ sep) {parts : List (List Char)}
    (h : ∀ p ∈ parts, x ∉ p) : x ∉ Text.joinWith sep parts := by
  cases parts with
  | nil => simp [Text.joinWith]
  | cons p ps =>
    rw [List.forall_mem_cons] at h
    rw [Text.joinWith_cons]
    simp only [List.mem_append, List.mem_flatMap, not_or, not_exists, not_and]
    exact ⟨h.1, fun q hq => ⟨hsep, h.2 q hq⟩⟩

/-- A way to the title that takes the start of the options and needs the name of the title. -/
structure LeadsToTitle (name : Pattern) : Prop where
  ends_in_name : ∀ before m rest, Matches name before m rest → "msg".toList <:+ m
  takes_start : ∃ pre n, " (msg".toList = pre ++ n ∧ ∀ before rest, Matches name before n rest

theorem title_found {name : Pattern} (hname : LeadsToTitle name)
    (hs : s.options = .pair "msg" t :: os) (hne : t.toList ≠ []) (ht : '"' ∉ t.toList) :
    (titlePattern name).occursIn s.text = true := by
  obtain ⟨pre, n, hstart, hn⟩ := hname.takes_start
  have hraw : '"' ∉ marked (isGuarded "msg") t.toList := fun hmem =>
    (Text.mem_marked hmem).elim (by decide) ht
  have hraw' : marked (isGuarded "msg") t.toList ≠ [] := by
    obtain ⟨c, cs, hc⟩ := List.exists_cons_of_ne_nil hne
    rw [hc, Text.marked_cons]
    split <;> simp
  have hfound := occursIn_titlePattern_of_title hn hraw' hraw
    (Text.joinWith [' '] (s.headerWords.map String.toList) ++ pre) (afterTitle os)
  rw [text_titled hs, hstart]
  simpa using hfound

/-- A quote in the title cuts it short where it does not end, and nothing else is taken for it. -/
theorem title_missed {name : Pattern} (hname : LeadsToTitle name)
    (hs : s.options = .pair "msg" t :: os) (ht : '"' ∈ t.toList)
    (hwords : ∀ w ∈ s.headerWords, '"' ∉ w.toList) (hos : ∀ o ∈ os, Unannounced o) :
    (titlePattern name).occursIn s.text = false := by
  refine occursIn_titlePattern_of_untitled hname.ends_in_name ?_
  obtain ⟨u, v, huv, hu⟩ := List.eq_append_cons_of_mem ht
  have hlead : '"' ∉ Text.joinWith [' '] (s.headerWords.map String.toList) ++ " (msg".toList ++
      [':'] := by
    have hspace : '"' ∉ [' '] := by decide
    have hjoined := notMem_joinWith hspace (List.forall_mem_map.mpr hwords)
    simpa using hjoined
  have hrest : Calm (';' :: afterTitle os) := by
    simpa [afterTitle] using calm_options hos (x := [';']) (by simp)
  have hinner : Untitled (marked (isGuarded "msg") t.toList ++ '"' :: ';' :: afterTitle os) := by
    simpa using untitled_marked (isGuarded_quote "msg") (x := []) (by simp) t.toList hrest
  have hopens : Opens (marked (isGuarded "msg") t.toList ++ '"' :: ';' :: afterTitle os) := by
    have hfirst : '"' ∉ marked (isGuarded "msg") u ++ ['\\'] := by
      have hmarked : '"' ∉ marked (isGuarded "msg") u := fun hmem =>
        (Text.mem_marked hmem).elim (by decide) hu
      simpa using hmarked
    have hcut := opens_quote hfirst
      (not_closes_marked (p := isGuarded "msg") rfl v (';' :: afterTitle os))
    simpa [huv, marked, isGuarded_quote] using hcut
  rw [text_titled hs]
  simpa using untitled_quote hlead (fun _ => hopens) hinner

end Titled

/-! ### Signatures of bodies -/

theorem notMem_flag {key : String} (h : '"' ∉ key.toList) : '"' ∉ (RuleOption.flag key).text := by
  simp [RuleOption.text, RuleOption.flag, h]

theorem notMem_pair {key value : String} (hkey : key ∉ quotedKeys) (hk : '"' ∉ key.toList)
    (hv : '"' ∉ value.toList) : '"' ∉ (RuleOption.pair key value).text := by
  have hvalue : '"' ∉ valueText key value.toList := by
    rw [valueText_of_bare hkey, guardChar_eq_marked]
    exact fun hmem => (Text.mem_marked hmem).elim (by decide) hv
  simp [RuleOption.text, RuleOption.pair, hk, hvalue]

theorem unannounced_optionsOf {flavor : Flavor} {c : Condition} {o : RuleOption}
    (h : o ∈ optionsOf flavor c) : Unannounced o := by
  have hpcre (e : List Char) : Unannounced (pcreOption e) :=
    .quoted (by decide) (by simp [pcreValue])
  cases asked_of_mem h with
  | flag hkey =>
    have hkeys : ∀ key ∈ flagKeys, '"' ∉ key.toList := by decide
    exact .plain (notMem_flag (hkeys _ hkey))
  | content negated => exact .quoted (by decide) (by simp)
  | start => exact hpcre _
  | stop => exact hpcre _
  | expression => exact hpcre _

/-- No quote stands outside the values that are written between quotes. -/
structure NoStrayQuote (b : RuleBody) (s : Signature) : Prop where
  header : ∀ w ∈ s.headerWords, '"' ∉ w.toList
  references : ∀ p ∈ b.references, p.1 ∉ quotedKeys ∧ '"' ∉ p.1.toList ∧ '"' ∉ p.2.toList

instance (b : RuleBody) (s : Signature) : Decidable (NoStrayQuote b s) :=
  decidable_of_iff ((∀ w ∈ s.headerWords, '"' ∉ w.toList) ∧
      ∀ p ∈ b.references, p.1 ∉ quotedKeys ∧ '"' ∉ p.1.toList ∧ '"' ∉ p.2.toList)
    ⟨fun ⟨hh, hr⟩ => ⟨hh, hr⟩, fun ⟨hh, hr⟩ => ⟨hh, hr⟩⟩

theorem unannounced_closingOptions {b : RuleBody} {s : Signature} (h : NoStrayQuote b s)
    {flavor : Flavor} {o : RuleOption} (ho : o ∈ closingOptions b flavor) : Unannounced o := by
  rcases closingOptions_cases ho with ⟨r, hr, rfl | rfl⟩ | rfl | rfl
  · exact .plain (notMem_flag (h.references r hr).2.1)
  · obtain ⟨hkey, hk, hv⟩ := h.references r hr
    exact .plain (notMem_pair hkey hk hv)
  · have hdigits : '"' ∉ (toString (localSid b)).toList := fun hmem =>
      absurd (Text.isDigit_toString (localSid b) _ hmem) (by decide)
    exact .plain (notMem_pair (by decide) (by decide) hdigits)
  · exact .plain (notMem_pair (by decide) (by decide) (by decide))

/-! ### What the patterns accept -/

namespace Dialect

/-- The words at the start of a body's signature are among those that the dialect lists. -/
def Lists (d : Dialect) (b : RuleBody) : Prop :=
  b.action.getD "alert" ∈ d.actions ∧
    ∀ protocols, d.protocols = some protocols → (b.network.getD {}).protocol ∈ protocols

theorem matches_actionPattern {actions : List String} {action : String} (h : action ∈ actions)
    (rest : List Char) : Matches (actionPattern actions) none action.toList rest := by
  have hword : Matches (oneOf actions) none action.toList rest :=
    (matches_oneOf_iff (List.ne_nil_of_mem h)).mpr ⟨action, h, rfl⟩
  have hstart : Matches (.seq (.look .textStart) blanks) none [] (action.toList ++ rest) :=
    .seq (m := []) (n := []) (.look rfl) (matches_run_iff.mpr (by simp))
  exact .seq (m := []) hstart hword

theorem matches_gap (before : Option Char) (rest : List Char) : Matches gap before [' '] rest :=
  matches_run₁_iff.mpr ⟨by simp, by simp [CharSet.has]; decide⟩

theorem head_found {d : Dialect} {action protocol : String} (haction : action ∈ d.actions)
    (hprotocol : ∀ protocols, d.protocols = some protocols → protocol ∈ protocols)
    (more : List Char) :
    d.headPattern.occursIn (action.toList ++ ' ' :: (protocol.toList ++ ' ' :: more)) = true := by
  rw [occursIn_iff_matches]
  have hblank : CharSet.blank.has ' ' = true := by decide
  unfold headPattern
  split
  · exact ⟨[], action.toList ++ [' '], protocol.toList ++ ' ' :: more, by simp,
      .seq (matches_actionPattern haction _) (.chars hblank)⟩
  · rename_i protocols hlisted
    have hword := hprotocol protocols hlisted
    refine ⟨[], action.toList ++ [' '] ++ protocol.toList ++ [' '], more, by simp, ?_⟩
    exact .seq (.seq (.seq (matches_actionPattern haction _) (matches_gap _ _))
      ((matches_oneOf_iff (List.ne_nil_of_mem hword)).mpr ⟨protocol, hword, rfl⟩)) (matches_gap _ _)

theorem leadsToTitle_snort : LeadsToTitle snort.titleName where
  ends_in_name := by
    intro before m rest h
    obtain ⟨m₀, rfl, -⟩ := matches_spelled_iff.mp h
    exact List.suffix_append _ _
  takes_start := by
    refine ⟨[' '], "(msg".toList, rfl, fun before rest => matches_spelled_iff.mpr ⟨['('], rfl, ?_⟩⟩
    exact .seq (m := ['(']) (n := []) (.chars (by decide)) (matches_run_iff.mpr (by simp))

theorem leadsToTitle_suricata : LeadsToTitle suricata.titleName where
  ends_in_name := by
    intro before m rest h
    obtain ⟨m₀, rfl, -⟩ := matches_spelled_iff.mp h
    exact List.suffix_append _ _
  takes_start :=
    ⟨" (".toList, "msg".toList, rfl, fun before rest => matches_spelled_iff.mpr ⟨[], rfl, .empty⟩⟩

theorem known {d : Dialect} (hd : d ∈ [snort, suricata]) :
    d.platform.patterns.map Structure.pattern = [d.headPattern, titlePattern d.titleName] ∧
      LeadsToTitle d.titleName := by
  simp only [List.mem_cons, List.not_mem_nil, or_false] at hd
  rcases hd with rfl | rfl
  · exact ⟨patterns_snort, leadsToTitle_snort⟩
  · exact ⟨patterns_suricata, leadsToTitle_suricata⟩

end Dialect

theorem exists_text (s : Signature) :
    ∃ more, s.text = s.action.toList ++ ' ' :: (s.header.protocol.toList ++ ' ' :: more) := by
  simp only [Signature.text, headerWords, List.map_cons, Text.joinWith_cons, List.flatMap_cons]
  exact ⟨_, by simp; rfl⟩

/-- The patterns of a dialect accept the signature of a body with listed words when its title has no
quote. With a quote in the title the second pattern fails, unless a stray quote elsewhere makes up
for it. -/
theorem title_quote_decides_patterns {d : Dialect} (hd : d ∈ [Dialect.snort, Dialect.suricata])
    {b : RuleBody} (htitle : Text.isBlankString b.title = false) (hb : d.Lists b) (level : Nat) :
    let s := (ofBody b d.flavor level).1
    let failed := d.platform.failedPatterns s.text
    ('"' ∉ b.title.toList → failed = []) ∧
      ('"' ∈ b.title.toList → NoStrayQuote b s →
        failed = (d.platform.patterns.drop 1).map (·.source)) := by
  intro s failed
  obtain ⟨hpatterns, hname⟩ := Dialect.known hd
  obtain ⟨x, ys, hxs, hx, hys⟩ := List.map_eq_cons_iff.mp hpatterns
  obtain ⟨y, zs, rfl, hy, hzs⟩ := List.map_eq_cons_iff.mp hys
  cases List.map_eq_nil_iff.mp hzs
  obtain ⟨os, hos, hmem⟩ := options_ofBody b d.flavor level
  have hwritten : writtenTitle b = b.title := by simp [writtenTitle, htitle]
  rw [hwritten] at hos
  have hhead : d.headPattern.occursIn s.text = true := by
    obtain ⟨more, hmore⟩ := exists_text s
    have hprotocol : s.header.protocol = (b.network.getD {}).protocol := by
      rw [header_ofBody, protocol_foldl_place]
    rw [hmore, hprotocol]
    exact Dialect.head_found hb.1 hb.2 more
  have hfailed :
      failed = if (titlePattern d.titleName).occursIn s.text then [] else [y.source] := by
    simp only [failed, Platform.failedPatterns, hxs, List.filter_cons, hx, hy, hhead,
      List.filter_nil]
    cases (titlePattern d.titleName).occursIn s.text <;> rfl
  refine ⟨fun hquote => ?_, fun hquote hstray => ?_⟩
  · have hne : b.title.toList ≠ [] := fun hnil => by
      simp [Text.isBlankString, Text.isBlankText, hnil] at htitle
    rw [hfailed, title_found hname hos hne hquote, if_pos rfl]
  · have hothers : ∀ o ∈ os, Unannounced o := fun o ho => by
      rcases hmem o ho with rfl | ⟨c, -, hc⟩ | hclosing
      · exact .plain (by decide)
      · exact unannounced_optionsOf hc
      · exact unannounced_closingOptions hstray hclosing
    rw [hfailed, title_missed hname hos hquote hstray.header hothers, hxs]
    rfl

/-- Quotes in values and names of the title option in them do no harm; a quote in the title does. -/
theorem quotes_in_values_and_title :
    let values : RuleBody :=
      { title := "msg: \\ ;"
        action := some "drop"
        network := some { protocol := "dns" }
        conditions := [⟨Field.payload, .contains, "\"; msg:"⟩, ⟨Field.payload, .regex, " \";"⟩]
        references := [("rev", "2"), ("sid", "7")] }
    let title := { values with title := "say \"hi\"" }
    Platform.suricata.failedPatterns (ofBody values .suricata 2).1.text = [] ∧
      Platform.suricata.failedPatterns (ofBody title .suricata 2).1.text =
        ["msg\\s*:\\s*\"[^\"]+\"\\s*;"] := by
  intro values title
  have hprotocol (protocols : List String) (h : Dialect.suricata.protocols = some protocols) :
      "dns" ∈ protocols := by
    cases h
    decide
  have hvalues : Dialect.suricata.Lists values := ⟨by decide, hprotocol⟩
  have htitle : Dialect.suricata.Lists title := ⟨by decide, hprotocol⟩
  exact ⟨(title_quote_decides_patterns (d := .suricata) (by simp) (by decide) hvalues 2).1
      (by decide),
    (title_quote_decides_patterns (d := .suricata) (by simp) (by decide) htitle 2).2
      (by decide) (by decide)⟩

/-- A signature that reads back as it was and fails the pattern of its own dialect. -/
theorem quoted_title_fails_own_pattern :
    let b : RuleBody := { title := "say \"hi\"", references := [("rev", "1"), ("sid", "1")] }
    let s := (ofBody b .snort 0).1
    Text.isBlankString b.title = false ∧ Dialect.snort.Lists b ∧
      (parse s.text).toOption = some s ∧
      Platform.snort.failedPatterns s.text = ["\\(\\s*msg\\s*:\\s*\"[^\"]+\"\\s*;"] := by
  intro b s
  refine ⟨by decide, ⟨by decide, by rintro protocols ⟨⟩⟩, by decide +kernel, by decide +kernel⟩

end RuleExchange.Signature
