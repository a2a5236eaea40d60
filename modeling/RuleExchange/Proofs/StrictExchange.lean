import Mathlib.Tactic.SplitIfs
import RuleExchange.Proofs.LoneCall
import RuleExchange.Proofs.SourceValidity

/-! Strict and lenient exchanges come to the same. Every rule that a platform reads into the
universal format is well formed: its body and its identity are not blank, its scores are cut to
the unit interval and its impact is one of the three known ones. So the check between reading and
writing finds nothing, and a strict exchange ends as a lenient one does, on every platform and
whatever settings it has. Only a reader other than the platforms' own could make a difference. -/

namespace RuleExchange

/-! ### Scores lie in the unit interval -/

section Order

open Float.Model (UnpackedFloat)

/-- Numbers compare in either order, with opposite results. -/
theorem exists_compare {a b : UnpackedFloat} (ha : a.isNaN = false) (hb : b.isNaN = false) :
    ∃ o : Ordering, a.compare b = some o ∧ b.compare a = some o.swap := by
  cases a with
  | notANumber => cases ha
  | infinity s =>
    cases b with
    | notANumber => cases hb
    | infinity t => exact ⟨_, rfl, by cases s <;> cases t <;> rfl⟩
    | zero t => cases s <;> exact ⟨_, rfl, rfl⟩
    | finite t m e hm => cases s <;> exact ⟨_, rfl, rfl⟩
  | zero s =>
    cases b with
    | notANumber => cases hb
    | infinity t => cases t <;> exact ⟨_, rfl, rfl⟩
    | zero t => exact ⟨_, rfl, rfl⟩
    | finite t m e hm => cases t <;> exact ⟨_, rfl, rfl⟩
  | finite s m e hm =>
    cases b with
    | notANumber => cases hb
    | infinity t => cases t <;> exact ⟨_, rfl, rfl⟩
    | zero t => cases s <;> exact ⟨_, rfl, rfl⟩
    | finite t n f hn =>
      have hswap : ((compare e f).then (compare m n)).swap =
          (compare f e).then (compare n m) := by
        rw [Ordering.swap_then, Int.compare_swap, Nat.compare_swap]
      cases s with
      | positive =>
        cases t with
        | positive => exact ⟨_, rfl, congrArg some hswap.symm⟩
        | negative => exact ⟨_, rfl, rfl⟩
      | negative =>
        cases t with
        | positive => exact ⟨_, rfl, rfl⟩
        | negative => exact ⟨_, rfl, congrArg (fun o : Ordering => some o.swap) hswap.symm⟩

/-- Among numbers the order is total. -/
theorem le_of_not_lt_of_isNaN {x y : Float} (hx : x.isNaN = false) (hy : y.isNaN = false)
    (h : ¬ x < y) : y ≤ x := by
  obtain ⟨o, hxy, hyx⟩ := exists_compare (a := x.toModel.unpack) (b := y.toModel.unpack) hx hy
  have hne : o ≠ .lt := by
    rintro rfl
    refine h ?_
    show decide (UnpackedFloat.lt _ _ = true) = true
    simp [UnpackedFloat.lt, hxy]
  show decide (UnpackedFloat.le _ _ = true) = true
  cases o with
  | lt => exact absurd rfl hne
  | eq => simp [UnpackedFloat.le, hyx]
  | gt => simp [UnpackedFloat.le, hyx]

end Order

theorem inUnit_clampUnit (x : Float) : Universal.inUnit (clampUnit x) = true := by
  unfold clampUnit
  split_ifs with hnan hneg hbig
  · decide
  · decide
  · decide
  · have hx : x.isNaN = false := Bool.eq_false_iff.mpr hnan
    have hlow := le_of_not_lt_of_isNaN hx (by decide) hneg
    have hhigh := le_of_not_lt_of_isNaN (by decide) hx hbig
    simp [Universal.inUnit, hlow, hhigh]

theorem Metrics.scores_ofScores (accuracy falsePositives : Float) (impact : Impact)
    (warnings : List Warning) :
    ∀ s ∈ Universal.scores (.ofScores accuracy falsePositives impact warnings),
      Universal.inUnit s.2 = true := by
  intro s hs
  simp only [Universal.scores, List.mem_cons, List.not_mem_nil, or_false] at hs
  rcases hs with rfl | rfl | rfl
  · exact inUnit_clampUnit accuracy
  · exact inUnit_clampUnit falsePositives
  · exact inUnit_clampUnit _

theorem Analyzer.impact_ne_unknown (a : Analyzer) (complexity : Float) :
    a.impact complexity ≠ .unknown := by
  unfold impact
  split_ifs <;> decide

/-! ### What platforms read is well formed -/

theorem RuleBody.isBlankString_toText (b : RuleBody) : Text.isBlankString b.toText = false := by
  have hfirst : ∃ rest, b.toText.toList = '\x7b' :: rest := by
    rw [toText, toJson, Json.Value.compactString, String.toList_ofList]
    exact ⟨_, rfl⟩
  obtain ⟨rest, hrest⟩ := hfirst
  rw [Text.isBlankString, Text.isBlankText, hrest]
  rfl

namespace Platform

theorem isBlankString_identity (p : Platform) (title : String) :
    Text.isBlankString (p.identity title) = false := by
  have hfirst : "udf-".toList.all Text.isBlank = false := by decide
  simp only [Text.isBlankString, Text.isBlankText, identity, String.toList_append,
    List.all_append, hfirst, Bool.false_and]

theorem flaw?_envelope (p : Platform) (raw text : List Char) (b : RuleBody) :
    (p.envelope b (p.assess raw text b)).flaw? = none := by
  have hcontent : Text.isBlankString (p.envelope b (p.assess raw text b)).content = false :=
    b.isBlankString_toText
  have hid : Text.isBlankString (p.envelope b (p.assess raw text b)).id = false :=
    p.isBlankString_identity b.title
  have hscores : (Universal.scores (p.envelope b (p.assess raw text b)).metrics).find?
      (fun s => !Universal.inUnit s.2) = none := by
    refine List.find?_eq_none.mpr fun s hs => ?_
    have hin : Universal.inUnit s.2 = true := Metrics.scores_ofScores _ _ _ _ s hs
    simp [hin]
  have himpact : (p.envelope b (p.assess raw text b)).metrics.impact ≠ .unknown :=
    p.analyzer.impact_ne_unknown _
  unfold Universal.flaw?
  rw [if_neg (by simp [hcontent]), if_neg (by simp [hid])]
  split
  · rename_i found
    cases hscores.symm.trans found
  · exact if_neg himpact

theorem flaw?_of_toUniversal {p : Platform} {content : String} {u : Universal}
    (h : p.toUniversal content = .ok u) : u.flaw? = none := by
  obtain ⟨stripped, b, -, -, rfl⟩ := toUniversal_eq_ok_iff.mp h
  exact p.flaw?_envelope content.toList stripped.text b

/-! ### Warnings of an exchange -/

/-- The code of the warning about a universal rule that is not well formed. -/
def flawCode : String := "UDF_INVALID"

/-- None of the warnings says that the universal rule was not well formed. -/
def FindsNoFlaw (ws : List Warning) : Prop := ∀ w ∈ ws, w.code ≠ flawCode

theorem findsNoFlaw_nil : FindsNoFlaw [] := nofun

theorem findsNoFlaw_singleton {w : Warning} (h : w.code ≠ flawCode) : FindsNoFlaw [w] :=
  List.forall_mem_singleton.mpr h

theorem FindsNoFlaw.append {ws vs : List Warning} (hw : FindsNoFlaw ws) (hv : FindsNoFlaw vs) :
    FindsNoFlaw (ws ++ vs) :=
  List.forall_mem_append.mpr ⟨hw, hv⟩

theorem findsNoFlaw_flatMap {α : Type} {as : List α} {f : α → List Warning}
    (h : ∀ a, FindsNoFlaw (f a)) : FindsNoFlaw (as.flatMap f) := by
  intro w hw
  obtain ⟨a, -, hw⟩ := List.mem_flatMap.mp hw
  exact h a w hw

theorem findsNoFlaw_map {α : Type} {as : List α} {f : α → Warning}
    (h : ∀ a, (f a).code ≠ flawCode) : FindsNoFlaw (as.map f) := by
  intro w hw
  obtain ⟨a, -, rfl⟩ := List.mem_map.mp hw
  exact h a

/-- At most one warning, with another code. -/
theorem findsNoFlaw_unless {c : Prop} [Decidable c] {w : Warning} (h : w.code ≠ flawCode) :
    FindsNoFlaw (if c then [] else [w]) := by
  split
  · exact findsNoFlaw_nil
  · exact findsNoFlaw_singleton h

theorem findsNoFlaw_assess (p : Platform) (raw text : List Char) (b : RuleBody) :
    FindsNoFlaw (p.assess raw text b).warnings := by
  have hform : FindsNoFlaw
      (p.conformance raw text (p.language.missingFields text b)).warnings := by
    unfold conformance
    rw [Conformance.warnings_foldl (fun _ _ => rfl), Conformance.warnings_foldl (fun _ _ => rfl),
      Conformance.warnings_foldl (fun _ _ => rfl)]
    refine .append (.append (.append findsNoFlaw_nil ?_) ?_) ?_
    · refine findsNoFlaw_map fun field => ?_
      show "MISSING_REQUIRED_FIELD" ≠ flawCode
      decide
    · refine findsNoFlaw_map fun pattern => ?_
      show "INVALID_SYNTAX" ≠ flawCode
      decide
    · refine findsNoFlaw_map fun rule => ?_
      show "CONFIG_RULE_VIOLATION" ≠ flawCode
      decide
  have hspecificity (s : Float) : FindsNoFlaw (p.analyzer.specificityWarning s) := by
    unfold Analyzer.specificityWarning
    split
    · exact findsNoFlaw_singleton (by show "LOW_SPECIFICITY" ≠ flawCode; decide)
    · exact findsNoFlaw_nil
  have hcomplexity (k : Float) : FindsNoFlaw (p.analyzer.complexityWarning k) := by
    unfold Analyzer.complexityWarning
    split
    · exact findsNoFlaw_singleton (by show "HIGH_COMPLEXITY" ≠ flawCode; decide)
    · exact findsNoFlaw_nil
  exact (hform.append (hspecificity _)).append (hcomplexity _)

theorem findsNoFlaw_signature (b : RuleBody) (flavor : Signature.Flavor) (level : Nat) :
    FindsNoFlaw (Signature.ofBody b flavor level).2 := by
  have hfield (field : String) : FindsNoFlaw (Signature.fieldWarnings field) :=
    findsNoFlaw_unless (by show "FIELD_APPROXIMATED" ≠ flawCode; decide)
  have hadd (cs : List Condition) (d : Signature.Draft) (hd : FindsNoFlaw d.warnings) :
      FindsNoFlaw (cs.foldl (Signature.Draft.add flavor) d).warnings := by
    induction cs generalizing d with
    | nil => exact hd
    | cons c rest ih =>
      refine ih _ ?_
      unfold Signature.Draft.add
      split
      · exact hd
      · exact hd.append (hfield c.field)
  refine (hadd _ _ findsNoFlaw_nil).append ?_
  split
  · exact findsNoFlaw_singleton (by show "SID_ASSIGNED" ≠ flawCode; decide)
  · exact findsNoFlaw_nil

theorem findsNoFlaw_render {l : Language} {b : RuleBody} {c : Conversion} {notes : List String}
    {t : List Char} {ws : List Warning} (h : l.render b c notes = .ok (t, ws)) :
    FindsNoFlaw ws := by
  unfold Language.render at h
  cases l with
  | query d readsSignatures =>
    obtain ⟨written, -, heq⟩ := map_eq_ok.mp (mapError_eq_ok.mp h)
    cases heq
    exact findsNoFlaw_nil
  | signature flavor =>
    cases h
    exact findsNoFlaw_signature b flavor c.level
  | zeek =>
    cases h
    refine findsNoFlaw_flatMap fun a => findsNoFlaw_unless ?_
    show "FIELD_APPROXIMATED" ≠ flawCode
    decide
  | document vendor readsQueries =>
    cases h
    refine .append (findsNoFlaw_unless ?_) (findsNoFlaw_unless ?_)
    · show "SCOPE_WILDCARD" ≠ flawCode
      decide
    · show "FIELD_UNMAPPED" ≠ flawCode
      decide

theorem findsNoFlaw_versionWarnings (p : Platform) (target : Option String) :
    FindsNoFlaw (p.versionWarnings target) := by
  unfold versionWarnings
  split
  · exact findsNoFlaw_nil
  · split
    · exact findsNoFlaw_nil
    · exact findsNoFlaw_singleton (by show "VERSION_UNSUPPORTED" ≠ flawCode; decide)
    · exact findsNoFlaw_singleton (by show "VERSION_UNPARSEABLE" ≠ flawCode; decide)

theorem findsNoFlaw_fromStored {p : Platform} {content : String} {c : Conversion}
    {r : Rendition} (h : p.fromStored content c = .ok r) : FindsNoFlaw r.warnings := by
  unfold fromStored at h
  obtain ⟨b, -, h⟩ := ok_of_bind h
  simp only at h
  obtain ⟨⟨written, said⟩, hrender, h⟩ := ok_of_bind h
  simp only at h
  have hstages : FindsNoFlaw
      (p.stageWarnings (b.stages.length - (b.stages.filter fun s => s.dialect == p.id).length)) :=
    findsNoFlaw_unless (by show "STAGE_DROPPED" ≠ flawCode; decide)
  have hreferences : FindsNoFlaw (p.referenceWarnings b) :=
    findsNoFlaw_unless (by show "METADATA_DROPPED" ≠ flawCode; decide)
  have hsaid := findsNoFlaw_render (mapError_eq_ok.mp hrender)
  have hall := ((hstages.append hreferences).append
    (p.findsNoFlaw_versionWarnings c.targetVersion)).append hsaid
  split_ifs at h <;> cases h <;> exact hall

end Platform

/-! ### Strict and lenient exchanges -/

open Platform (FindsNoFlaw)

/-- The request, with a flaw of the universal rule ending the exchange or not. -/
def Request.withStrict (r : Request) (strict : Bool) : Request :=
  { r with options := { r.options with strict } }

namespace Pipeline

theorem flawWarnings_of_toUniversal {p : Platform} {content : String} {u : Universal}
    (h : p.toUniversal content = .ok u) (source : Platform) (strict : Bool) :
    flawWarnings source strict u = .ok [] := by
  rw [flawWarnings, Platform.flaw?_of_toUniversal h]

/-- With the platforms' own readers a draft does not depend on strictness. -/
theorem draft_withStrict (source target : Platform) (r : Request) (strict : Bool) :
    draft Platform.toUniversal source target r.content (r.withStrict strict).options =
      draft Platform.toUniversal source target r.content r.options := by
  unfold draft
  cases hu : source.toUniversal r.content with
  | error f => rfl
  | ok u =>
    show (flawWarnings source strict u >>= _) = (flawWarnings source r.options.strict u >>= _)
    rw [flawWarnings_of_toUniversal hu, flawWarnings_of_toUniversal hu]
    rfl

theorem findsNoFlaw_draft {source target : Platform} {content : String} {o : Options}
    {d : Draft} (h : draft Platform.toUniversal source target content o = .ok d) :
    FindsNoFlaw d.warnings := by
  unfold draft at h
  obtain ⟨u, hu, h⟩ := ok_of_bind h
  obtain ⟨flaws, hflaws, h⟩ := ok_of_bind h
  obtain ⟨written, hwritten, h⟩ := ok_of_bind h
  obtain ⟨metrics, hmetrics, h⟩ := ok_of_bind h
  rw [flawWarnings_of_toUniversal hu] at hflaws
  cases hflaws
  cases h
  obtain ⟨stripped, b, -, rfl⟩ := Platform.validate_eq_ok_iff.mp hmetrics
  exact (Platform.findsNoFlaw_nil.append (Platform.findsNoFlaw_fromStored hwritten)).append
    (target.findsNoFlaw_assess _ _ _)

end Pipeline

namespace Engine

/-- Strictness shows in the fingerprint of a request and in nothing else of its route. -/
theorem Call.route_withStrict (e : Setup) (r : Request) (strict : Bool) :
    Call.route e (r.withStrict strict) =
      (Call.route e r).map fun rt => { rt with key := .ofRequest (r.withStrict strict) } := by
  have hcheck : (r.withStrict strict).check = r.check := rfl
  unfold route
  rw [hcheck]
  cases r.check with
  | error f => rfl
  | ok =>
    show (e.resolve r.source >>= _) = (e.resolve r.source >>= _).map _
    cases e.resolve r.source with
    | error f => rfl
    | ok source =>
      show (e.resolve r.target >>= _) = (e.resolve r.target >>= _).map _
      cases e.resolve r.target with
      | error f => rfl
      | ok target => rfl

theorem Setup.draft_withStrict {e : Setup} (he : e.read = Platform.toUniversal) (rt : Route)
    (r : Request) (strict : Bool) :
    e.draft { rt with key := .ofRequest (r.withStrict strict) } (r.withStrict strict) =
      e.draft rt r := by
  have hconversion : (r.withStrict strict).options.conversion = r.options.conversion := rfl
  have hcontent : (r.withStrict strict).content = r.content := rfl
  simp only [draft, hconversion, hcontent, he]
  rw [Pipeline.draft_withStrict]

theorem Setup.alone_withStrict {e : Setup} (he : e.read = Platform.toUniversal) (r : Request)
    (strict : Bool) : e.alone (r.withStrict strict) = e.alone r := by
  unfold alone
  rw [Call.route_withStrict]
  cases Call.route e r with
  | error f => rfl
  | ok rt =>
    show (e.draft { rt with key := .ofRequest (r.withStrict strict) } (r.withStrict strict) >>=
      _) = (e.draft rt r >>= _)
    rw [Setup.draft_withStrict he]
    rfl

/-- Whatever the settings, whichever platforms are registered, and however long the work takes or
wherever it breaks down, as long as rules are read by the platforms themselves: no rule that a
platform reads is flawed in the universal format, so the check of the exchange finds nothing, in
strict mode and in lenient mode; no warning says that it did; and a request comes to the same
outcome in both modes, with a validator or without one. -/
theorem strictness_changes_nothing (settings : Settings) (registry : Registry)
    (validator : Option (Nat → Reply)) (workMs : Nat → Nat)
    (breakdown : Platform → Platform → String → Conversion → Option String) (r : Request) :
    let e : Setup := { settings, registry, validator, workMs, breakdown }
    (∀ (p : Platform) (content : String) (u : Universal), p.toUniversal content = .ok u →
      u.flaw? = none ∧ ∀ source strict, Pipeline.flawWarnings source strict u = .ok []) ∧
    (∀ source target : Platform,
      Pipeline.draft e.read source target r.content (r.withStrict true).options =
        Pipeline.draft e.read source target r.content (r.withStrict false).options ∧
      ∀ d, Pipeline.draft e.read source target r.content r.options = .ok d →
        ∀ w ∈ d.warnings, w.code ≠ "UDF_INVALID") ∧
    e.alone (r.withStrict true) = e.alone (r.withStrict false) := by
  intro e
  refine ⟨fun p content u hu => ?_, fun source target => ⟨?_, fun d hd => ?_⟩, ?_⟩
  · exact ⟨Platform.flaw?_of_toUniversal hu, Pipeline.flawWarnings_of_toUniversal hu⟩
  · rw [Pipeline.draft_withStrict, Pipeline.draft_withStrict]
  · exact Pipeline.findsNoFlaw_draft hd
  · rw [Setup.alone_withStrict rfl, Setup.alone_withStrict rfl]

end Engine

end RuleExchange
