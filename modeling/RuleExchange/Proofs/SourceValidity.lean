import Mathlib.Tactic.SplitIfs
import RuleExchange.Platform.Conversion
import RuleExchange.Proofs.BodyText
import RuleExchange.Proofs.Sequencing

/-! Reading a rule and validating it come to the same. A content can be brought into the
universal format exactly when it is valid and no pattern of its platform is missed, and both
ways give the same metrics. What is stored is the body that was read: in every language the
references are entered into a table one by one, and by the time a body is stored it has a
title. -/

namespace RuleExchange

open Json (OrderedByKey)

/-! ### Every language enters references into a table -/

theorem RuleBody.orderedByKey_addReference {b : RuleBody} (h : OrderedByKey b.references)
    (key value : String) : OrderedByKey (b.addReference key value).references := by
  unfold addReference
  split <;> exact Json.orderedByKey_insertMember h _ _

namespace Signature

theorem Reading.orderedByKey_flag {r : Reading} (h : OrderedByKey r.body.references)
    (key : String) : OrderedByKey (r.flag key).body.references := by
  unfold flag
  split_ifs
  any_goals exact h
  exact RuleBody.orderedByKey_addReference h key ""

theorem Reading.orderedByKey_pair {r : Reading} (h : OrderedByKey r.body.references)
    (key value : String) (negated : Bool) :
    OrderedByKey (r.pair key value negated).body.references := by
  unfold pair
  split_ifs
  any_goals exact h
  exact RuleBody.orderedByKey_addReference h key value

theorem Reading.orderedByKey_option {r : Reading} (h : OrderedByKey r.body.references)
    (o : RuleOption) : OrderedByKey (r.option o).body.references := by
  unfold option
  split
  · exact h
  · split
    · exact orderedByKey_flag h o.key
    · exact orderedByKey_pair h o.key _ o.negated

theorem orderedByKey_toBody (s : Signature) : OrderedByKey s.toBody.references := by
  unfold toBody
  refine List.foldlRecOn (motive := fun r : Reading => OrderedByKey r.body.references) _ _ ?_ ?_
  · exact List.Pairwise.nil
  · intro r hr o _
    exact Reading.orderedByKey_option hr o

end Signature

namespace Zeek

theorem orderedByKey_addPair {b : RuleBody} (h : OrderedByKey b.references) (pair : List Char) :
    OrderedByKey (addPair b pair).references := by
  unfold addPair
  simp only
  split
  · exact h
  · exact RuleBody.orderedByKey_addReference h _ _

theorem orderedByKey_referencesOf (s : List Char) : OrderedByKey (referencesOf s) := by
  unfold referencesOf
  split
  · refine List.foldlRecOn (motive := fun b : RuleBody => OrderedByKey b.references) _ _ ?_ ?_
    · exact List.Pairwise.nil
    · intro b hb pair _
      exact orderedByKey_addPair hb pair
  · exact .nil

theorem orderedByKey_of_parse {s : List Char} {b : RuleBody} (h : parse s = .ok b) :
    OrderedByKey b.references := by
  unfold parse at h
  split at h
  · cases h
  · split at h
    · cases h
    · split at h
      · cases h
      · obtain ⟨conditions, -, h⟩ := ok_of_bind h
        cases h
        exact orderedByKey_referencesOf s

end Zeek

namespace Document

theorem orderedByKey_readReferences (doc : List (String × Json.Value)) :
    OrderedByKey (readReferences doc) := by
  unfold readReferences
  split
  · refine List.foldlRecOn (motive := fun b : RuleBody => OrderedByKey b.references) _ _ ?_ ?_
    · exact List.Pairwise.nil
    · intro b hb m _
      exact RuleBody.orderedByKey_addReference hb m.1 _
  · exact .nil

theorem orderedByKey_of_parse {vendor : Vendor} {s : List Char} {b : RuleBody}
    (h : parse vendor s = .ok b) : OrderedByKey b.references := by
  unfold parse at h
  obtain ⟨doc, -, h⟩ := ok_of_bind h
  generalize readEvent vendor doc = read at h
  obtain ⟨event, first⟩ := read
  obtain ⟨listed, -, h⟩ := ok_of_bind h
  obtain ⟨network, -, h⟩ := ok_of_bind h
  obtain ⟨stages, -, h⟩ := ok_of_bind h
  simp only at h
  split at h
  · cases h
  · cases h
    exact orderedByKey_readReferences doc

end Document

namespace Query

theorem references_of_readCommand {d : Dialect} {b b' : RuleBody} {part : List Char}
    (h : readCommand d b part = .ok b') : b'.references = b.references := by
  unfold readCommand at h
  simp only at h
  split at h
  · cases h
  · split at h
    · obtain ⟨c, -, h⟩ := ok_of_bind h
      cases h
      rfl
    · split at h
      · obtain ⟨tokens, -, h⟩ := ok_of_bind h
        obtain ⟨cs, -, h⟩ := ok_of_bind h
        cases h
        rfl
      · cases h
        rfl

theorem references_of_readCommands {d : Dialect} {b b' : RuleBody} {parts : List (List Char)}
    (h : readCommands d b parts = .ok b') : b'.references = b.references := by
  induction parts generalizing b with
  | nil =>
    cases h
    rfl
  | cons part parts ih =>
    obtain ⟨b₁, hone, hrest⟩ := ok_of_bind h
    exact (ih hrest).trans (references_of_readCommand hone)

/-- Queries have no place for references. -/
theorem references_of_parse {d : Dialect} {s : List Char} {b : RuleBody}
    (h : parse d s = .ok b) : b.references = [] := by
  unfold parse at h
  split at h
  · cases h
  · obtain ⟨b₁, hfilter, h⟩ := ok_of_bind h
    obtain ⟨b₂, hcommands, h⟩ := ok_of_bind h
    have hnone : b₁.references = [] := by
      unfold readFilter at hfilter
      obtain ⟨tokens, -, hfilter⟩ := ok_of_bind hfilter
      obtain ⟨conditions, -, hfilter⟩ := ok_of_bind hfilter
      cases hfilter
      rfl
    split at h
    · cases h
    · cases h
      exact (references_of_readCommands hcommands).trans hnone

end Query

theorem Language.orderedByKey_of_parse {l : Language} {s : List Char} {b : RuleBody}
    (h : l.parse s = .ok b) : OrderedByKey b.references := by
  have hquery {d : Query.Dialect} (hq : Query.parse d s = .ok b) : OrderedByKey b.references := by
    rw [Query.references_of_parse hq]
    exact .nil
  have hsignature (hs : (Signature.parse s).map Signature.toBody = .ok b) :
      OrderedByKey b.references := by
    obtain ⟨sig, -, rfl⟩ := map_eq_ok.mp hs
    exact sig.orderedByKey_toBody
  unfold parse at h
  cases l with
  | query d readsSignatures =>
    simp only at h
    split at h
    · exact hsignature (mapError_eq_ok.mp h)
    · exact hquery (mapError_eq_ok.mp h)
  | signature flavor => exact hsignature (mapError_eq_ok.mp h)
  | zeek => exact Zeek.orderedByKey_of_parse (mapError_eq_ok.mp h)
  | document vendor readsQueries =>
    simp only at h
    split at h
    · exact hquery (mapError_eq_ok.mp h)
    · exact Document.orderedByKey_of_parse (mapError_eq_ok.mp h)

/-! ### Faults of form -/

namespace Conformance

/-- The code of a warning about a pattern that is missed. -/
def formCode : String := "INVALID_SYNTAX"

theorem warnings_foldl {α : Type} {f : Conformance → α → Conformance} {w : α → Warning}
    (hf : ∀ c a, (f c a).warnings = c.warnings ++ [w a]) (c : Conformance) (as : List α) :
    (as.foldl f c).warnings = c.warnings ++ as.map w := by
  induction as generalizing c with
  | nil => simp
  | cons a rest ih => rw [List.foldl_cons, ih, hf, List.map_cons, List.append_assoc]; rfl

end Conformance

namespace Platform

/-- A warning about form is given exactly for the patterns that a rule misses. -/
theorem conformance_form_iff (p : Platform) (raw text : List Char) (missing : List String) :
    (∀ w ∈ (p.conformance raw text missing).warnings, w.code ≠ Conformance.formCode) ↔
      p.failedPatterns text = [] := by
  unfold conformance
  rw [Conformance.warnings_foldl (fun _ _ => rfl), Conformance.warnings_foldl (fun _ _ => rfl),
    Conformance.warnings_foldl (fun _ _ => rfl)]
  simp only [List.forall_mem_append, List.forall_mem_map, List.not_mem_nil, false_imp_iff,
    implies_true, true_and]
  constructor
  · rintro ⟨⟨-, hform⟩, -⟩
    exact List.eq_nil_iff_forall_not_mem.mpr fun pattern hm => hform pattern hm rfl
  · intro hnone
    rw [hnone]
    refine ⟨⟨fun field _ => ?_, nofun⟩, fun rule _ => ?_⟩
    · show "MISSING_REQUIRED_FIELD" ≠ Conformance.formCode
      decide
    · show "CONFIG_RULE_VIOLATION" ≠ Conformance.formCode
      decide

/-- Warnings about the quality of a rule do not concern its form. -/
theorem assess_form_iff (p : Platform) (raw text : List Char) (b : RuleBody) :
    (∀ w ∈ (p.assess raw text b).warnings, w.code ≠ Conformance.formCode) ↔
      p.failedPatterns text = [] := by
  have hquality (a : Analyzer) (s k : Float) :
      ∀ w ∈ a.specificityWarning s ++ a.complexityWarning k, w.code ≠ Conformance.formCode := by
    intro w hw
    unfold Analyzer.specificityWarning Analyzer.complexityWarning at hw
    rcases List.mem_append.mp hw with hw | hw
    · split at hw
      · cases List.mem_singleton.mp hw
        show "LOW_SPECIFICITY" ≠ Conformance.formCode
        decide
      · cases hw
    · split at hw
      · cases List.mem_singleton.mp hw
        show "HIGH_COMPLEXITY" ≠ Conformance.formCode
        decide
      · cases hw
  rw [← p.conformance_form_iff raw text (p.language.missingFields text b)]
  show (∀ w : Warning, w ∈ _ ++ _ ++ _ → w.code ≠ Conformance.formCode) ↔ _
  rw [List.append_assoc, List.forall_mem_append]
  exact and_iff_left (hquality _ _ _)

/-! ### Two ways through a content -/

theorem isBlankString_untitled (p : Platform) :
    Text.isBlankString ("untitled " ++ p.id ++ " rule") = false := by
  have hfirst : "untitled ".toList.all Text.isBlank = false := by decide
  simp only [Text.isBlankString, Text.isBlankText, String.toList_append, List.all_append, hfirst,
    Bool.false_and]

theorem isBlankString_entitle (p : Platform) (stripped : Comment.Stripped) (b : RuleBody) :
    Text.isBlankString (p.entitle stripped b).title = false := by
  simp only [entitle]
  split_ifs with hblank hstill
  · exact p.isBlankString_untitled
  · exact Bool.eq_false_iff.mpr hstill
  · exact Bool.eq_false_iff.mpr hblank

theorem references_entitle (p : Platform) (stripped : Comment.Stripped) (b : RuleBody) :
    (p.entitle stripped b).references = b.references := by
  simp only [entitle]
  split_ifs <;> rfl

/-- The content can be read: what is left of it without comments, and the body of that. -/
structure Reads (p : Platform) (content : String) (stripped : Comment.Stripped) (b : RuleBody) :
    Prop where
  prepared : p.prepare content.toList = .ok stripped
  parsed : p.parseStripped stripped = .ok b

variable {p : Platform} {content : String} {stripped : Comment.Stripped} {b : RuleBody}

theorem Reads.isBlankString_title (h : p.Reads content stripped b) :
    Text.isBlankString b.title = false := by
  obtain ⟨b₁, -, rfl⟩ := map_eq_ok.mp h.parsed
  exact p.isBlankString_entitle stripped b₁

theorem Reads.orderedByKey (h : p.Reads content stripped b) : OrderedByKey b.references := by
  obtain ⟨b₁, hparse, rfl⟩ := map_eq_ok.mp h.parsed
  rw [references_entitle]
  exact Language.orderedByKey_of_parse hparse

theorem validate_eq_ok_iff {m : Metrics} :
    p.validate content = .ok m ↔
      ∃ stripped b, p.Reads content stripped b ∧ m = p.assess content.toList stripped.text b := by
  constructor
  · intro h
    obtain ⟨stripped, hprepared, h⟩ := ok_of_bind h
    obtain ⟨b, hparsed, h⟩ := ok_of_bind h
    cases h
    exact ⟨stripped, b, ⟨mapError_eq_ok.mp hprepared, mapError_eq_ok.mp hparsed⟩, rfl⟩
  · rintro ⟨stripped, b, hreads, rfl⟩
    simp only [validate, mapError_eq_ok.mpr hreads.prepared, mapError_eq_ok.mpr hreads.parsed,
      bind, Except.bind]
    rfl

theorem toUniversal_eq_ok_iff {u : Universal} :
    p.toUniversal content = .ok u ↔
      ∃ stripped b, p.Reads content stripped b ∧ p.failedPatterns stripped.text = [] ∧
        u = p.envelope b (p.assess content.toList stripped.text b) := by
  constructor
  · intro h
    obtain ⟨stripped, hprepared, h⟩ := ok_of_bind h
    split at h
    · cases h
    · rename_i hform
      obtain ⟨b, hparsed, h⟩ := ok_of_bind h
      cases h
      exact ⟨stripped, b, ⟨mapError_eq_ok.mp hprepared, mapError_eq_ok.mp hparsed⟩, hform, rfl⟩
  · rintro ⟨stripped, b, hreads, hform, rfl⟩
    simp only [toUniversal, mapError_eq_ok.mpr hreads.prepared, bind, Except.bind]
    rw [hform]
    simp only [mapError_eq_ok.mpr hreads.parsed]
    rfl

/-- On every platform, built in or not and however it is tuned, a content can be brought into
the universal format exactly when it is valid and no warning concerns its form. Both ways then
give the same metrics, and what is stored has the title of the body that was read, which is not
blank, and is read back as that body. -/
theorem convertible_iff_valid_form (p : Platform) (content : String) :
    ((∃ u, p.toUniversal content = .ok u) ↔
      ∃ m, p.validate content = .ok m ∧ ∀ w ∈ m.warnings, w.code ≠ "INVALID_SYNTAX") ∧
    ∀ u, p.toUniversal content = .ok u →
      p.validate content = .ok u.metrics ∧
      ∃ stripped b, p.Reads content stripped b ∧ u.name = some b.title ∧
        Text.isBlankString b.title = false ∧ RuleBody.ofText u.content = .ok b := by
  refine ⟨⟨?_, ?_⟩, ?_⟩
  · rintro ⟨u, hu⟩
    obtain ⟨stripped, b, hreads, hform, -⟩ := toUniversal_eq_ok_iff.mp hu
    exact ⟨_, validate_eq_ok_iff.mpr ⟨stripped, b, hreads, rfl⟩,
      (p.assess_form_iff _ stripped.text b).mpr hform⟩
  · rintro ⟨m, hm, hcodes⟩
    obtain ⟨stripped, b, hreads, rfl⟩ := validate_eq_ok_iff.mp hm
    have hform := (p.assess_form_iff _ stripped.text b).mp hcodes
    exact ⟨_, toUniversal_eq_ok_iff.mpr ⟨stripped, b, hreads, hform, rfl⟩⟩
  · intro u hu
    obtain ⟨stripped, b, hreads, -, rfl⟩ := toUniversal_eq_ok_iff.mp hu
    refine ⟨validate_eq_ok_iff.mpr ⟨stripped, b, hreads, rfl⟩, stripped, b, hreads, rfl,
      hreads.isBlankString_title, ?_⟩
    show RuleBody.ofText b.toText = .ok b
    rw [RuleBody.ofText_toText, Json.sortMembers_of_ordered hreads.orderedByKey]

/-- A query that has its title from a comment, on a platform with a size limit and a rule of its
own. -/
theorem titled_query_converts :
    let p : Platform :=
      { siem with tuning := { maxContentSize := 40, rules := [("root", .empty)] } }
    let content := "# name: Bad login\nuser_name=root"
    ∃ u, p.toUniversal content = .ok u ∧ p.validate content = .ok u.metrics ∧
      u.name = some "Bad login" ∧
      ∃ b, RuleBody.ofText u.content = .ok b ∧ b.title = "Bad login" := by
  intro p content
  have hname : ((p.toUniversal content).toOption.bind (·.name)) = some "Bad login" := by
    decide +kernel
  obtain ⟨u, hu, hnamed⟩ := Option.bind_eq_some_iff.mp hname
  have hok : p.toUniversal content = .ok u := by
    cases hx : p.toUniversal content with
    | error f =>
      rw [hx] at hu
      cases hu
    | ok u' =>
      rw [hx] at hu
      exact congrArg Except.ok (Option.some.inj hu)
  obtain ⟨hvalid, stripped, b, -, htitle, -, hstored⟩ :=
    (convertible_iff_valid_form p content).2 u hok
  exact ⟨u, hok, hvalid, hnamed, b, hstored,
    Option.some.inj (htitle.symm.trans hnamed)⟩

end Platform

end RuleExchange
