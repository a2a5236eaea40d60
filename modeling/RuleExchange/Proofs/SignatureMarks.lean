import RuleExchange.Proofs.CommentScan
import RuleExchange.Proofs.SignatureOptions

/-! Marks of comments in written signatures. The header is words with blanks between them, and
each option brings a scan back inside a line, so a scan passes the signature where it
passes its words, keys and values. -/

namespace RuleExchange.Signature

open Comment (Passes Settles scan scan_append_of scan_settled scan_loop)
open Comment.Place (inside fresh)
open Text (isBlank marked)

/-- An option whose texts a scan passes. -/
structure RuleOption.Passes (o : RuleOption) : Prop where
  key : Comment.Passes .hash inside o.key.toList
  value : ∀ v ∈ o.value, Comment.Passes .hash inside v.toList

theorem solid_of_isGuarded {key : String} {c : Char} (h : isGuarded key c = true) :
    isBlank c = false ∧ c ≠ '\x60' := by
  have hall : ∀ c ∈ ['"', '\\', ';'], isBlank c = false ∧ c ≠ '\x60' :=
    Text.forall_mem_of_all (by decide)
  exact hall c (mem_of_isGuarded h)

theorem passes_guardChar {x : Char} (hx : isBlank x = false ∧ x ≠ '\x60') {q : Comment.Place}
    {v : List Char} (h : Passes .hash q v) : Passes .hash q (guardChar x v) := by
  rw [guardChar_eq_marked]
  refine Comment.passes_marked (fun c hc => ?_) h
  rw [beq_iff_eq.mp hc]
  exact hx

theorem passes_valueText (key : String) {v : List Char} (h : Passes .hash inside v) :
    Passes .hash inside (valueText key v) := by
  by_cases hkey : key ∈ quotedKeys
  · rw [valueText_eq_marked hkey]
    exact Comment.passes_of_scan
      (Comment.scan_enclosed (by decide) (fun _ => solid_of_isGuarded) h inside)
  · rw [valueText_of_bare hkey]
    exact passes_guardChar (by decide) h

theorem scan_option {o : RuleOption} (ho : o.Passes) : scan .hash inside o.text = some inside := by
  obtain ⟨key, value, negated⟩ := o
  cases value with
  | none => exact scan_settled ho.key (by decide)
  | some v =>
    have hcolon : Settles .hash (':' :: if negated then ['!'] else []) := by
      cases negated <;> decide
    have htext : RuleOption.text ⟨key, some v, negated⟩ =
        (key.toList ++ ':' :: if negated then ['!'] else []) ++
          (valueText key v.toList ++ [';']) := by
      simp [RuleOption.text]
    rw [htext, scan_append_of (scan_settled ho.key hcolon)]
    exact scan_settled (passes_valueText key (ho.value v rfl)) (by decide)

/-- Words with blanks between them, from the start of a line or from inside it. -/
theorem passes_words {ws : List (List Char)} (h : ∀ w ∈ ws, Passes .hash fresh w)
    {q : Comment.Place} (hq : q = fresh ∨ q = inside) :
    Passes .hash q (Text.joinWith [' '] ws) := by
  induction ws generalizing q with
  | nil => rfl
  | cons w ws ih =>
    rw [List.forall_mem_cons] at h
    have hfirst : Passes .hash q w := by
      rcases hq with rfl | rfl
      · exact h.1
      · exact h.1.begun
    cases ws with
    | nil =>
      rw [Text.joinWith_singleton]
      exact hfirst
    | cons v vs =>
      obtain ⟨q₁, hq₁⟩ := hfirst.exists_place
      have hspace : ∀ q ∈ Comment.Place.all, Comment.step .hash q ' ' = some fresh ∨
          Comment.step .hash q ' ' = some inside := by decide
      rw [Text.joinWith_cons_cons, Passes, scan_append_of hq₁, List.singleton_append,
        Comment.scan_cons]
      rcases hspace q₁ (Comment.Place.mem_all q₁) with hq₂ | hq₂
      · rw [hq₂]
        exact ih h.2 (.inl rfl)
      · rw [hq₂]
        exact ih h.2 (.inr rfl)

theorem passes_text {s : Signature} (hwords : ∀ w ∈ s.headerWords, Passes .hash fresh w.toList)
    (hoptions : ∀ o ∈ s.options, o.Passes) : Passes .hash fresh s.text := by
  have hhead := passes_words (List.forall_mem_map.mpr hwords) (.inl rfl)
  have hjoined : scan .hash inside (Text.joinWith [' '] (s.options.map RuleOption.text)) =
      some inside := by
    cases hos : s.options with
    | nil => rfl
    | cons o os =>
      rw [hos, List.forall_mem_cons] at hoptions
      rw [List.map_cons, Text.joinWith_cons, scan_append_of (scan_option hoptions.1)]
      refine scan_loop fun t ht => ?_
      obtain ⟨o', ho', rfl⟩ := List.mem_map.mp ht
      exact scan_option (hoptions.2 o' ho')
  rw [Signature.text, Passes, List.append_assoc, scan_append_of (scan_settled hhead (by decide)),
    scan_append_of hjoined]
  rfl

theorem solid_of_metaChars : ∀ c ∈ metaChars, isBlank c = false ∧ c ≠ '\x60' :=
  Text.forall_mem_of_all (by decide)

theorem passes_escapeRegex {q : Comment.Place} {v : List Char} (h : Passes .hash q v) :
    Passes .hash q (escapeRegex v) := by
  have hescape : escapeRegex v = marked metaChars.contains v := rfl
  rw [hescape]
  exact Comment.passes_marked (fun c hc => solid_of_metaChars c (List.contains_iff_mem.mp hc)) h

theorem passes_pcreValue {e : List Char} (h : Passes .hash inside e) :
    Passes .hash inside (pcreValue e) := by
  have hslash : Settles .hash ['/'] := by decide
  have hguard : Passes .hash inside (guardChar '/' e) := passes_guardChar (by decide) h
  rw [pcreValue, List.cons_append, ← List.singleton_append]
  exact hslash.passes_append (Comment.passes_of_scan (scan_settled hguard hslash)) inside

theorem passes_flag {key : String} (h : Passes .hash inside key.toList) :
    (RuleOption.flag key).Passes :=
  ⟨h, by rintro v ⟨⟩⟩

theorem passes_valued {key v : String} (hkey : Passes .hash inside key.toList)
    (hv : Passes .hash inside v.toList) (negated : Bool) :
    RuleOption.Passes ⟨key, some v, negated⟩ :=
  ⟨hkey, by rintro v ⟨⟩; exact hv⟩

theorem passes_pcreOption {e : List Char} (h : Passes .hash inside e) : (pcreOption e).Passes := by
  have hkey : Passes .hash inside "pcre".toList := by decide
  refine passes_valued hkey ?_ false
  rw [String.toList_ofList]
  exact passes_pcreValue h

theorem passes_optionsOf {flavor : Flavor} {c : Condition}
    (h : Passes .hash inside c.value.toList) {o : RuleOption} (ho : o ∈ optionsOf flavor c) :
    o.Passes := by
  have hescape : Passes .hash inside (escapeRegex c.value.toList) := passes_escapeRegex h
  have hcaret : Settles .hash ['^'] := by decide
  have hdollar : Settles .hash ['$'] := by decide
  cases asked_of_mem ho with
  | flag hkey =>
    have hkeys : ∀ key ∈ flagKeys, Passes .hash inside key.toList := by decide
    exact passes_flag (hkeys _ hkey)
  | content negated => exact passes_valued (by decide) h negated
  | start => exact passes_pcreOption (hcaret.passes_append hescape inside)
  | stop => exact passes_pcreOption (Comment.passes_of_scan (scan_settled hescape hdollar))
  | expression => exact passes_pcreOption h

theorem passes_closingOptions {b : RuleBody} {flavor : Flavor}
    (hrefs : ∀ r ∈ b.references, Passes .hash inside r.1.toList ∧ Passes .hash inside r.2.toList)
    {o : RuleOption} (ho : o ∈ closingOptions b flavor) : o.Passes := by
  rcases closingOptions_cases ho with ⟨r, hr, rfl | rfl⟩ | rfl | rfl
  · exact passes_flag (hrefs r hr).1
  · exact passes_valued (hrefs r hr).1 (hrefs r hr).2 false
  · have hdigits : Passes .hash inside (toString (localSid b)).toList := by
      refine Comment.passes_of_scan (Comment.scan_plain fun c hc => ?_)
      have hdigit := Text.isDigit_toString (localSid b) c hc
      refine ⟨?_, ?_, ?_⟩ <;> rintro rfl <;> revert hdigit <;> decide
    exact passes_valued (by decide) hdigits false
  · exact passes_valued (by decide) (by decide) false

def networkWords (h : NetworkHeader) : List String :=
  [h.protocol, h.source, h.sourcePort, h.direction, h.destination, h.destinationPort]

theorem mem_networkWords_place {h : NetworkHeader} {c : Condition} (hc : isAddressed c = true)
    {w : String} (hw : w ∈ networkWords (place h c)) : w ∈ networkWords h ∨ w = addressText c := by
  obtain ⟨field, op, value⟩ := c
  simp only [isAddressed, Bool.and_eq_true, Bool.or_eq_true, decide_eq_true_eq,
    List.contains_iff_mem, addressFields, List.mem_cons, List.not_mem_nil, or_false] at hc
  obtain ⟨hop, hfield⟩ := hc
  -- one place of the header holds the condition, the others stay
  rcases hop with rfl | rfl <;> rcases hfield with rfl | rfl | rfl | rfl
  all_goals
    unfold networkWords at hw ⊢
    simp only [List.mem_cons, List.not_mem_nil, or_false] at hw ⊢
    rcases hw with h | h | h | h | h | h <;> first | exact .inr h | exact .inl (by tauto)

theorem mem_networkWords_foldl {cs : List Condition} (hcs : ∀ c ∈ cs, isAddressed c = true)
    {h : NetworkHeader} {w : String} (hw : w ∈ networkWords (cs.foldl place h)) :
    w ∈ networkWords h ∨ ∃ c ∈ cs, w = addressText c := by
  induction cs generalizing h with
  | nil => exact .inl hw
  | cons c cs ih =>
    rw [List.forall_mem_cons] at hcs
    rcases ih hcs.2 hw with hplace | ⟨c', hc', he⟩
    · exact (mem_networkWords_place hcs.1 hplace).imp_right fun he => ⟨c, List.mem_cons_self, he⟩
    · exact .inr ⟨c', List.mem_cons_of_mem _ hc', he⟩

theorem passes_ofBody {b : RuleBody}
    (haction : Passes .hash fresh (b.action.getD "alert").toList)
    (hnetwork : ∀ w ∈ networkWords (b.network.getD {}), Passes .hash fresh w.toList)
    (haddresses : ∀ c ∈ b.conditions, isAddressed c = true → Passes .hash fresh c.value.toList)
    (htitle : Passes .hash inside b.title.toList)
    (hvalues : ∀ c ∈ b.conditions, Passes .hash inside c.value.toList)
    (hrefs : ∀ p ∈ b.references, Passes .hash inside p.1.toList ∧ Passes .hash inside p.2.toList)
    (flavor : Flavor) (level : Nat) : Passes .hash fresh (ofBody b flavor level).1.text := by
  have haddress : ∀ c ∈ b.conditions, isAddressed c = true →
      Passes .hash fresh (addressText c).toList := by
    intro c hc haddressed
    have hmark : Settles .hash ['!'] := by decide
    unfold addressText
    split
    · rw [String.toList_append]
      exact hmark.passes_append (hvalues c hc) fresh
    · exact haddresses c hc haddressed
  refine passes_text (fun w hw => ?_) fun o ho => ?_
  · rw [headerWords, List.mem_cons] at hw
    rcases hw with rfl | hw
    · exact haction
    · rw [header_ofBody] at hw
      rcases mem_networkWords_foldl (fun c hc => List.of_mem_filter hc) hw with hw | ⟨c, hc, rfl⟩
      · exact hnetwork w hw
      · have hmem : c ∈ b.conditions := List.mem_of_mem_filter (List.mem_of_mem_filter hc)
        exact haddress c hmem (List.of_mem_filter hc)
  · obtain ⟨os, hos, hmem⟩ := options_ofBody b flavor level
    rw [hos, List.mem_cons] at ho
    rcases ho with rfl | ho
    · refine passes_valued (by decide) ?_ false
      unfold writtenTitle
      split
      · decide
      · exact htitle
    · rcases hmem o ho with rfl | ⟨c, hc, ho⟩ | hclosing
      · exact passes_flag (by decide)
      · exact passes_optionsOf (hvalues c hc) ho
      · exact passes_closingOptions hrefs hclosing

/-- A signature has the title of its body in quotes. -/
theorem title_occurs {b : RuleBody} (hb : Text.isBlankString b.title = false) (flavor : Flavor)
    (level : Nat) :
    marked (isGuarded "msg") b.title.toList <:+: (ofBody b flavor level).1.text := by
  obtain ⟨os, hos, -⟩ := options_ofBody b flavor level
  have hwritten : writtenTitle b = b.title := by simp [writtenTitle, hb]
  have hoption : marked (isGuarded "msg") b.title.toList <:+:
      (RuleOption.pair "msg" (writtenTitle b)).text := by
    rw [hwritten, RuleOption.pair, text_quoted (by decide)]
    exact ⟨"msg".toList ++ [':', '"'], ['"', ';'], by simp⟩
  have hjoin : (RuleOption.pair "msg" (writtenTitle b)).text <:+:
      Text.joinWith [' '] ((ofBody b flavor level).1.options.map RuleOption.text) := by
    rw [hos]
    exact Text.infix_joinWith (List.mem_map_of_mem List.mem_cons_self)
  exact (hoption.trans hjoin).trans
    ((List.suffix_append _ _).isInfix.trans (List.prefix_append _ _).isInfix)

end RuleExchange.Signature
