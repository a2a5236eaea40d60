import RuleExchange.Proofs.ZeekScript

/-! Values inside the strings of a script. The guard is cut at its conjunctions outside quotes
only, but two bars are taken for a disjunction wherever they stand in it. So a content comes
back from its script whatever it holds, unless it holds two bars: then nothing of the script is
read. -/

namespace RuleExchange.Zeek

open Text (marked)

variable {b : RuleBody} {v : String}

/-- The guard of the script for a body. -/
def writtenGuard (b : RuleBody) : List Char :=
  guardText ((effective b).map (termOf (chooseHandler b) (transportOf b)))

/-- A guard of readable terms that does not close itself comes back as the conditions that it was
written for, unless it shows two bars. -/
theorem parse_render
    (hterms : ∀ c ∈ effective b, IsTerm (termOf (chooseHandler b) (transportOf b) c) c)
    (hclose : closesNotice (writtenGuard b) = false) :
    parse (render b).1 =
      if Text.occursIn ['|', '|'] (writtenGuard b) then .error .disjunction
      else .ok
        { title := titleOf (render b).1
          event := some (if "dns_".toList.isPrefixOf (chooseHandler b).name.toList then "dns"
            else "network")
          conditions := effective b
          references := referencesOf (render b).1 } := by
  have hh := chooseHandler_mem b
  obtain ⟨-, -, -, -, hif⟩ := lead_plain _ hh
  have hscript : (render b).1 = scriptText (chooseHandler b) (writtenGuard b) (noticeText b) := rfl
  have hname : handler? true (render b).1 = some (chooseHandler b).name.toList :=
    handler?_scriptText hh _ _
  have hguard : guard? true (render b).1 = some (writtenGuard b) := by
    have htab : (!Text.isWord '\t') = true := by decide +kernel
    rw [hscript, scriptText_eq, guard?_skip (by decide) hif, htab]
    exact guard?_here (firmEnds_guardText hterms) hclose _
  have hread : readTerms (Text.Quoted.split ['&', '&'] (writtenGuard b)) = .ok (effective b) :=
    readTerms_guardText hterms
  rw [parse, hname]
  simp only [hguard]
  split
  · rfl
  · rw [hread]
    rfl

/-! ### One content -/

section Content

variable (hb : b.conditions = [⟨Field.payload, .contains, v⟩]) (hv : v ≠ "")

include hb hv

theorem effective_content : effective b = b.conditions := by
  simp [effective, hb, Condition.isMatchAll, hv]

theorem chooseHandler_content : chooseHandler b = .tcpContents := by
  rw [chooseHandler, effective_content hb hv, hb]
  rfl

theorem isTerm_content :
    ∀ c ∈ effective b, IsTerm (termOf (chooseHandler b) (transportOf b) c) c := by
  rw [effective_content hb hv, hb, List.forall_mem_singleton, chooseHandler_content hb hv]
  have hpayload : Field.payload ∈ scriptFields := by decide
  exact isTerm_contains (c := ⟨Field.payload, .contains, v⟩) hpayload rfl (transportOf b)

theorem writtenGuard_content :
    writtenGuard b = stringLiteral v.toList ++ " in contents".toList := by
  rw [writtenGuard, effective_content hb hv, hb, chooseHandler_content hb hv]
  simp [guardText, Text.joinWith_singleton, termOf, term, memberTerm]
  rfl

/-- The guard shows what the value shows. -/
theorem infix_writtenGuard_iff {pat : List Char} (hp : Sealed pat) :
    pat <:+: writtenGuard b ↔ pat <:+: v.toList := by
  constructor
  · intro hin
    by_contra hnot
    refine not_infix_guardText (isTerm_content hb hv) hp ?_ hin
    rw [effective_content hb hv, hb, List.forall_mem_singleton]
    have hbackslash : '\\' ∉ pat := hp.unmarked '\\' (by decide)
    exact fun hmarked => hnot (Text.infix_of_infix_marked hbackslash hmarked)
  · intro hin
    have hplain : ∀ c ∈ pat, isStringMark c = false := by
      intro c hc
      have hmarks : ∀ x ∈ marks, x ≠ c := fun x hx he => hp.unmarked x hx (he ▸ hc)
      have hb : c ≠ '\\' := (hmarks '\\' (by decide)).symm
      have hq : c ≠ '"' := (hmarks '"' (by decide)).symm
      simp [isStringMark, hb, hq]
    have hliteral : pat <:+: stringLiteral v.toList := by
      rw [stringLiteral, Text.Quoted.enclose, escape_eq_marked]
      have hmarked : pat <:+: marked isStringMark v.toList := Text.infix_marked hplain hin
      exact List.infix_cons (hmarked.trans (List.prefix_append _ _).isInfix)
    rw [writtenGuard_content hb hv]
    exact hliteral.trans (List.prefix_append _ _).isInfix

end Content

/-- A content comes back from its script exactly when it holds no two bars next to each other. With
them the whole script is refused as a disjunction. -/
theorem content_reads_back_iff_no_bars (hb : b.conditions = [⟨Field.payload, .contains, v⟩])
    (hv : v ≠ "") (hclose : closesNotice v.toList = false) :
    ((∃ back, parse (render b).1 = .ok back ∧ back.conditions = b.conditions) ↔
        Text.contains v "||" = false) ∧
      (parse (render b).1 = .error .disjunction ↔ Text.contains v "||" = true) := by
  have hguard : closesNotice (writtenGuard b) = false := closesNotice_eq_false_iff.mpr
    fun gap hgap hin => closesNotice_eq_false_iff.mp hclose gap hgap
      ((infix_writtenGuard_iff hb hv (sealed_closePattern hgap)).mp hin)
  have hbars : Text.occursIn ['|', '|'] (writtenGuard b) = Text.contains v "||" := by
    rw [Bool.eq_iff_iff, ← not_iff_not, Bool.not_eq_true, Bool.not_eq_true,
      Text.occursIn_eq_false_iff, infix_writtenGuard_iff hb hv sealed_or]
    exact Text.occursIn_eq_false_iff.symm
  rw [parse_render (isTerm_content hb hv) hguard, hbars, effective_content hb hv]
  cases Text.contains v "||" <;> simp

theorem tangled_content_reads_back :
    let b : RuleBody :=
      { title := "\" || ) NOTICE"
        network := some { source := "10.0.0.1" }
        conditions := [⟨Field.payload, .contains, "*| && $msg=\"a\\\" |\n) \t in contents == T"⟩]
        references := [("a;b", "c||")] }
    ∃ back, parse (render b).1 = .ok back ∧ back.conditions = b.conditions := by
  intro b
  exact (content_reads_back_iff_no_bars (b := b) rfl (by decide) (by decide +kernel)).1.mpr
    (by decide +kernel)

/-- Two bars in a string are taken for a disjunction, though nothing else stops the reader. -/
theorem bars_in_string_refused :
    let v := "a||b"
    let b : RuleBody := { title := "t", conditions := [⟨Field.payload, .contains, v⟩] }
    v ≠ "" ∧ Text.contains v "$msg" = false ∧ Text.contains v "$sub" = false ∧
      closesNotice v.toList = false ∧ parse (render b).1 = .error .disjunction := by
  decide +kernel

end RuleExchange.Zeek
