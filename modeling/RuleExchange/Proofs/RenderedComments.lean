import RuleExchange.Proofs.QueryMarks
import RuleExchange.Proofs.Sequencing
import RuleExchange.Proofs.ZeekMarks
import RuleExchange.Platform.Basic

/-! What stripping does to a written rule. Stripping knows nothing of quotes, so the texts of a
rule decide: where all of them are clear of marks the rule stays as it was written, and a
comment inside a quoted text is taken out of it. -/

namespace RuleExchange

open Comment (Clear Commented Marked Passes Settles signs)
open Comment.Place (inside fresh)
open Text (isBlank marked)

namespace Language

/-- The texts that a rule in the language has outside of quotes, where one could begin a line. -/
def bareTexts (l : Language) (b : RuleBody) : List String :=
  match l with
  | query d _ => b.conditions.map fun c => d.fields.platformOrKeep c.field
  | signature _ => b.action.getD "alert" :: Signature.networkWords (b.network.getD {}) ++
      (b.conditions.filter Signature.isAddressed).map (·.value)
  | zeek | document _ _ => []

/-- The texts that a rule in the language has inside a line. -/
def innerTexts (l : Language) (b : RuleBody) : List String :=
  match l with
  | query d _ => b.conditions.map (Query.written d)
  | signature _ | zeek =>
    b.title :: b.conditions.map (·.value) ++ b.references.flatMap fun (k, v) => [k, v]
  | document _ _ => []

/-- The texts that stand in quotes whatever else the body has. -/
def quotedTexts (l : Language) (b : RuleBody) : List String :=
  match l with
  | query d _ => b.conditions.map (Query.written d)
  | signature _ | zeek => [b.title]
  | document _ _ => []

end Language

namespace Platform

/-- No text of the body could be taken for a part of a comment. -/
structure Unmarked (p : Platform) (b : RuleBody) : Prop where
  bare : ∀ s ∈ p.language.bareTexts b, Clear p.style true s.toList
  inner : ∀ s ∈ p.language.innerTexts b, Clear p.style false s.toList

variable {p : Platform} {b : RuleBody} {c : Conversion} {notes : List String}
  {t : List Char} {warnings : List Warning}

/-- The languages of the platforms that are built in, with their comments. -/
theorem language_cases (hp : p ∈ builtIn) :
    (∃ d reads, p.language = .query d reads ∧ Query.Silent d p.style ∧
      ∀ x, x = '\\' ∨ x = d.quote → isBlank x = false ∧ x ∉ signs) ∨
    (∃ flavor, p.language = .signature flavor ∧ p.style = .hash) ∨
    (p.language = .zeek ∧ p.style = .hash) ∨
    (∃ vendor reads, p.language = .document vendor reads ∧ p.style = .jsonKey) := by
  have hquery (d : Query.Dialect) (hd : d.quote = '"' ∨ d.quote = '\'') :
      ∀ x, x = '\\' ∨ x = d.quote → isBlank x = false ∧ x ∉ signs := by
    rintro x (rfl | rfl)
    · decide
    · rcases hd with h | h <;> rw [h] <;> decide
  simp only [builtIn, List.mem_cons, List.not_mem_nil, or_false] at hp
  rcases hp with rfl | rfl | rfl | rfl | rfl | rfl | rfl | rfl | rfl | rfl | rfl
  · exact .inl ⟨_, _, rfl, Query.silent_siem, hquery _ (by decide)⟩
  · exact .inl ⟨_, _, rfl, Query.silent_splunk, hquery _ (by decide)⟩
  · exact .inl ⟨_, _, rfl, Query.silent_qradar, hquery _ (by decide)⟩
  · exact .inr (.inr (.inr ⟨_, _, rfl, rfl⟩))
  · exact .inr (.inr (.inr ⟨_, _, rfl, rfl⟩))
  · exact .inr (.inr (.inr ⟨_, _, rfl, rfl⟩))
  · exact .inr (.inr (.inr ⟨_, _, rfl, rfl⟩))
  · exact .inr (.inl ⟨_, rfl, rfl⟩)
  · exact .inr (.inl ⟨_, rfl, rfl⟩)
  · exact .inr (.inl ⟨_, rfl, rfl⟩)
  · exact .inr (.inr (.inl ⟨rfl, rfl⟩))

theorem render_query {d : Query.Dialect} {reads : Bool}
    (ht : (Language.query d reads).render b c notes = .ok (t, warnings)) :
    ∃ s, Query.render d b = .ok s ∧ t = s ++ Language.timeWindow d b c.level := by
  obtain ⟨s, hs, he⟩ := map_eq_ok.mp (mapError_eq_ok.mp ht)
  exact ⟨s, hs, (congrArg Prod.fst he).symm⟩

theorem passes_timeWindow (style : CommentStyle) (d : Query.Dialect) (b : RuleBody) (level : Nat)
    (q : Comment.Place) : Passes style q (Language.timeWindow d b level) := by
  have hsettles : ∀ style ∈ [CommentStyle.hash, .backticks, .block, .jsonKey],
      Settles style " LAST 24 HOURS".toList := by decide
  unfold Language.timeWindow
  split
  · exact Comment.passes_of_scan ((hsettles style (by cases style <;> decide)).scan_eq q)
  · rfl

/-- What the texts inside of a line say about a title, values and references. -/
theorem passes_innerTexts {b : RuleBody} (h : ∀ s ∈ b.title :: b.conditions.map (·.value) ++
      b.references.flatMap (fun (k, v) => [k, v]), Clear .hash false s.toList) :
    Passes .hash inside b.title.toList ∧
      (∀ c ∈ b.conditions, Passes .hash inside c.value.toList) ∧
      ∀ r ∈ b.references, Passes .hash inside r.1.toList ∧ Passes .hash inside r.2.toList := by
  have hpasses (s : String) (hs : s ∈ b.title :: b.conditions.map (·.value) ++
      b.references.flatMap fun (k, v) => [k, v]) : Passes .hash inside s.toList :=
    Comment.passes_inside_iff.mpr (h s hs)
  refine ⟨hpasses _ (by simp), fun c hc => hpasses _ ?_, fun r hr => ⟨hpasses _ ?_, hpasses _ ?_⟩⟩
  · exact List.mem_append_left _ (List.mem_cons_of_mem _ (List.mem_map_of_mem hc))
  · exact List.mem_append_right _ (List.mem_flatMap.mpr ⟨r, hr, by simp⟩)
  · exact List.mem_append_right _ (List.mem_flatMap.mpr ⟨r, hr, by simp⟩)

/-- A rule whose texts are clear of marks is clear of marks. -/
theorem clear_render (hp : p ∈ builtIn) (hb : b.stages = [])
    (ht : p.language.render b c notes = .ok (t, warnings)) (h : Unmarked p b) :
    Clear p.style true t := by
  obtain ⟨hbare, hinner⟩ := h
  rcases language_cases hp with ⟨d, reads, hlanguage, hsilent, -⟩ | ⟨flavor, hlanguage, hstyle⟩ |
    ⟨hlanguage, hstyle⟩ | ⟨vendor, reads, hlanguage, hstyle⟩
  · rw [hlanguage] at ht hbare hinner
    obtain ⟨s, hs, rfl⟩ := render_query ht
    refine Comment.passes_start_iff.mp (Comment.passes_append (hsilent.passes_render hb
      (fun c hc => ?_) (fun c hc => ?_) hs) (passes_timeWindow p.style d b c.level))
    · exact Comment.passes_start_iff.mpr (hbare _ (List.mem_map_of_mem hc))
    · exact Comment.passes_inside_iff.mpr (hinner _ (List.mem_map_of_mem hc))
  · rw [hlanguage] at ht hbare hinner
    rw [hstyle] at hbare hinner ⊢
    have hfresh (s : String) (hs : s ∈ (Language.signature flavor).bareTexts b) :
        Passes .hash fresh s.toList := Comment.passes_start_iff.mpr (hbare s hs)
    obtain ⟨htitle, hvalues, hrefs⟩ := passes_innerTexts hinner
    cases ht
    refine Comment.passes_start_iff.mp (Signature.passes_ofBody (hfresh _ List.mem_cons_self)
      (fun w hw => hfresh _ ?_) (fun c hc haddressed => hfresh _ ?_) htitle hvalues hrefs _ _)
    · exact List.mem_append_left _ (List.mem_cons_of_mem _ hw)
    · exact List.mem_append_right _ (List.mem_map_of_mem (List.mem_filter.mpr ⟨hc, haddressed⟩))
  · rw [hlanguage] at ht hinner
    rw [hstyle] at hinner ⊢
    obtain ⟨htitle, hvalues, hrefs⟩ := passes_innerTexts hinner
    cases ht
    exact Comment.passes_start_iff.mp (Zeek.passes_render htitle hvalues hrefs)
  · rw [hstyle]
    trivial

/-- A comment in a quoted text of a rule is a comment in the rule. -/
theorem marked_render (hp : p ∈ builtIn)
    (ht : p.language.render b c notes = .ok (t, warnings)) {s : String}
    (hs : s ∈ p.language.quotedTexts b) (h : Commented p.style s.toList) : Marked p.style t := by
  rcases language_cases hp with ⟨d, reads, hlanguage, -, hmarks⟩ | ⟨flavor, hlanguage, hstyle⟩ |
    ⟨hlanguage, hstyle⟩ | ⟨vendor, reads, hlanguage, hstyle⟩
  · rw [hlanguage] at ht hs
    obtain ⟨u, hu, rfl⟩ := render_query ht
    obtain ⟨c', hc', rfl⟩ := List.mem_map.mp hs
    have hinfix := (Query.written_occurs hu hc').trans
      (List.prefix_append u (Language.timeWindow d b c.level)).isInfix
    exact (h.escaped fun x hx => hmarks x (of_decide_eq_true hx)).marked hinfix
  · rw [hlanguage] at ht hs
    rw [hstyle] at h ⊢
    cases List.mem_singleton.mp hs
    cases ht
    have hblank : Text.isBlankString b.title = false :=
      List.all_eq_false.mpr ⟨'#', Comment.mem_of_startsLine h, by decide⟩
    have hguards : ∀ x, Signature.isGuarded "msg" x = true → isBlank x = false ∧ x ∉ signs := by
      have hall : ∀ x ∈ ['"', '\\', ';'], isBlank x = false ∧ x ∉ signs :=
        Text.forall_mem_of_all (by decide)
      exact fun x hx => hall x (Signature.mem_of_isGuarded hx)
    exact (h.escaped hguards).marked (Signature.title_occurs hblank flavor c.level)
  · rw [hlanguage] at ht hs
    rw [hstyle] at h ⊢
    cases List.mem_singleton.mp hs
    cases ht
    have hguards : ∀ x, Zeek.isStringMark x = true → isBlank x = false ∧ x ∉ signs := by
      intro x hx
      rcases of_decide_eq_true hx with rfl | rfl <;> decide
    exact (h.escaped hguards).marked (Zeek.title_occurs b)
  · rw [hstyle] at h
    exact h.elim

/-- A written rule is left as it is, blanks at its ends aside, exactly when it holds no comment, and
so it is when no text of its body could be taken for a part of one. Quotes do not matter:
a comment in a quoted text is taken out. -/
theorem strip_render (hp : p ∈ builtIn) (hb : b.stages = [])
    (ht : p.language.render b c notes = .ok (t, warnings)) :
    (Comment.strip p.style t = ⟨Text.trim t, []⟩ ↔ ¬ Marked p.style t) ∧
      (Unmarked p b → Comment.strip p.style t = ⟨Text.trim t, []⟩) ∧
      ((∃ s ∈ p.language.quotedTexts b, Commented p.style s.toList) →
        Comment.strip p.style t ≠ ⟨Text.trim t, []⟩) := by
  have hiff := Comment.strip_eq_trim_iff p.style t
  refine ⟨hiff, fun h => ?_, ?_⟩
  · exact hiff.mpr (Comment.not_marked_of_clear (clear_render hp hb ht h))
  · rintro ⟨s, hs, h⟩ he
    exact hiff.mp he (marked_render hp ht hs h)

/-- Marks of other languages, and marks that are not whole, are as good as any text; a regular
expression with a span in it is none afterwards. -/
theorem strip_render_values :
    let plain : RuleBody :=
      { conditions := [⟨Field.payload, .contains, "# / * \x60\x60\x60 x \x60\x60\x60"⟩] }
    let spanned : RuleBody := { conditions := [⟨Field.payload, .regex, "^/*admin.*/$"⟩] }
    (∃ t, qradar.language.render plain {} [] = .ok (t, []) ∧
      Comment.strip qradar.style t = ⟨Text.trim t, []⟩) ∧
    ∃ t, qradar.language.render spanned {} [] = .ok (t, []) ∧
      Comment.strip qradar.style t ≠ ⟨Text.trim t, []⟩ := by
  intro plain spanned
  have hp : qradar ∈ builtIn := by simp [builtIn]
  have hplain : qradar.language.render plain {} [] = .ok (_, []) := rfl
  have hspanned : qradar.language.render spanned {} [] = .ok (_, []) := rfl
  have hunmarked : Unmarked qradar plain := ⟨by decide +kernel, by decide +kernel⟩
  refine ⟨⟨_, hplain, (strip_render hp rfl hplain).2.1 hunmarked⟩,
    ⟨_, hspanned, (strip_render hp rfl hspanned).2.2 ⟨"^/*admin.*/$", by decide +kernel, ?_⟩⟩⟩
  exact ⟨['^'], "admin.".toList, ['$'], by decide +kernel⟩

/-- In each language with comments, a value that was written in quotes loses what looks like a
comment in it. -/
theorem comments_in_quotes_are_taken_out :
    let rule (op : Operator) (value : String) : RuleBody :=
      { conditions := [⟨Field.payload, op, value⟩] }
    let stripped (p : Platform) (b : RuleBody) :=
      (p.language.render b {} []).toOption.map fun (t, _) => (t, Comment.strip p.style t)
    stripped qradar (rule .regex "^/*admin.*/$") =
        some ("SELECT * FROM events WHERE payload MATCHES '^/*admin.*/$'".toList,
          ⟨"SELECT * FROM events WHERE payload MATCHES '^ $'".toList, ["admin.".toList]⟩) ∧
      stripped splunk (rule .equals "a\x60\x60\x60b\x60\x60\x60c") =
        some ("search _raw=\"a\x60\x60\x60b\x60\x60\x60c\"".toList,
          ⟨"search _raw=\"a c\"".toList, ["b".toList]⟩) ∧
      stripped siem (rule .equals "GET /\n#top") =
        some ("payload = \"GET /\n#top\"".toList,
          ⟨"payload = \"GET /".toList, ["top\"".toList]⟩) := by
  decide +kernel

end Platform

end RuleExchange
