import RuleExchange.Proofs.SignatureMarks
import RuleExchange.Proofs.ZeekScript

/-! Marks of comments in written scripts. All texts of a rule stand behind the start of the guard,
in literals or as addresses, so a scan passes the script where it passes them inside a line. -/

namespace RuleExchange.Zeek

open Comment (Passes Settles scan scan_append_of scan_settled)
open Comment.Place (inside fresh)
open Text (isBlank)
open Signature (escapeRegex passes_pcreValue)

/-- The names that conditions are written with. -/
def subjects : List String :=
  FieldMap.zeek.entries.map Prod.snd ++ handlers.map Handler.subjectName

theorem subject_mem {h : Handler} (hh : h ∈ handlers) (field : String) :
    (expression h field).getD h.subjectName ∈ subjects := by
  have hsubject : h.subjectName ∈ subjects := List.mem_append_right _ (List.mem_map_of_mem hh)
  unfold expression
  split
  · exact hsubject
  · rename_i name hname
    split
    · obtain ⟨entry, hentry, rfl⟩ := Option.map_eq_some_iff.mp hname
      exact List.mem_append_left _ (List.mem_map_of_mem (List.mem_of_find?_eq_some hentry))
    · exact hsubject

theorem scan_subject : ∀ name ∈ subjects, scan .hash inside name.toList = some inside := by
  decide

/-- A text that is split at a character and joined again by other characters. -/
theorem joinWith_splitWhere (p : Char → Bool) (g : Char → List Char) (sep v : List Char) :
    Text.joinWith sep ((Text.splitWhere p v).map fun s => s.flatMap g) =
      v.flatMap fun c => if p c then sep else g c := by
  induction v with
  | nil => simp [Text.splitWhere, Text.joinWith_singleton]
  | cons c cs ih =>
    obtain ⟨part, parts, hparts⟩ := List.exists_cons_of_ne_nil (Comment.splitWhere_ne_nil p cs)
    rw [Text.splitWhere, List.flatMap_cons, ← ih, hparts]
    by_cases hc : p c = true
    · simp [hc, Text.joinWith_cons]
    · simp [hc, Text.joinWith_cons]

theorem passes_wildcardExpr {v : List Char} (h : Passes .hash inside v) :
    Passes .hash inside (wildcardExpr v) := by
  have hcaret : Settles .hash ['^'] := by decide
  have hdollar : Settles .hash ['$'] := by decide
  have hstar : ∀ q ∈ Comment.Place.all, Comment.step .hash q wildcard = some inside := by decide
  have hescape : Comment.Respects .hash fun c =>
      if c == wildcard then ['.', '*']
      else if Signature.metaChars.contains c then ['\\', c] else [c] := by
    intro c q q₁ hstep
    by_cases hc : c = wildcard
    · rw [hc, hstar q (Comment.Place.mem_all q)] at hstep
      cases hstep
      have hdots : Settles .hash ['.', '*'] := by decide
      simpa [hc] using hdots.scan_eq q
    · have hmarked : Comment.Respects .hash fun c =>
          if Signature.metaChars.contains c then ['\\', c] else [c] :=
        Comment.respects_marked fun c hc =>
          Signature.solid_of_metaChars c (List.contains_iff_mem.mp hc)
      simpa [hc] using hmarked c q q₁ hstep
  obtain ⟨q, hq⟩ := h.exists_place
  have hsplit : (Text.splitWhere (· == wildcard) v).map escapeRegex =
      (Text.splitWhere (· == wildcard) v).map fun s => s.flatMap fun c =>
        if Signature.metaChars.contains c then ['\\', c] else [c] := rfl
  rw [wildcardExpr, List.cons_append, ← List.singleton_append, hsplit, joinWith_splitWhere]
  exact hcaret.passes_append (Comment.passes_of_scan (scan_settled
    (Comment.passes_of_scan (Comment.scan_flatMap hescape hq)) hdollar)) inside

theorem scan_stringLiteral {v : List Char} (h : Passes .hash inside v) (q : Comment.Place) :
    scan .hash q (stringLiteral v) = some inside := by
  have hmarks : ∀ c, isStringMark c = true → isBlank c = false ∧ c ≠ '\x60' := by
    intro c hc
    rcases of_decide_eq_true hc with rfl | rfl <;> decide
  rw [stringLiteral, Text.Quoted.enclose, escape_eq_marked]
  exact Comment.scan_enclosed (by decide) hmarks h q

theorem passes_literal (field : String) {transport v : List Char}
    (ht : Settles .hash ('/' :: transport)) (h : Passes .hash inside v) :
    Passes .hash inside (literal field transport v) := by
  unfold literal
  split
  · exact Comment.passes_of_scan (scan_settled h ht)
  · split
    · exact h
    · exact Comment.passes_of_scan (scan_stringLiteral h inside)

theorem passes_memberTerm {left : List Char} (h : Passes .hash inside left) {name : String}
    (hname : name ∈ subjects) : Passes .hash inside (memberTerm left name) := by
  have hword : Settles .hash " in ".toList := by decide
  rw [memberTerm, Passes, scan_append_of (scan_settled h hword), scan_subject name hname]
  rfl

theorem passes_term {c : Condition} {name : String} (hname : name ∈ subjects)
    {transport : List Char} (ht : Settles .hash ('/' :: transport))
    (h : Passes .hash inside c.value.toList) : Passes .hash inside (term c name transport) := by
  have hcompared (sign : List Char) (hsign : Settles .hash sign) :
      Passes .hash inside (name.toList ++ sign ++ literal c.field transport c.value.toList) := by
    rw [List.append_assoc, Passes, scan_append_of (scan_subject name hname)]
    exact hsign.passes_append (passes_literal c.field ht h) inside
  have hescaped := Signature.passes_escapeRegex h
  have hmember {expr : List Char} (hexpr : Passes .hash inside expr) :
      Passes .hash inside (memberTerm (patternLiteral expr) name) :=
    passes_memberTerm (passes_pcreValue hexpr) hname
  unfold term
  cases c.operator with
  | equals =>
    dsimp only
    split
    · exact hmember (passes_wildcardExpr h)
    · exact hcompared _ (by decide)
  | notEquals => exact hcompared _ (by decide)
  | contains => exact passes_memberTerm (Comment.passes_of_scan (scan_stringLiteral h inside)) hname
  | startsWith =>
    have hcaret : Settles .hash ['^'] := by decide
    exact hmember (hcaret.passes_append hescaped inside)
  | endsWith =>
    have hdollar : Settles .hash ['$'] := by decide
    exact hmember (Comment.passes_of_scan (scan_settled hescaped hdollar))
  | regex => exact hmember h

theorem passes_commaForSemicolon {q : Comment.Place} {s : List Char} (h : Passes .hash q s) :
    Passes .hash q (commaForSemicolon s) := by
  have hcomma : ∀ q ∈ Comment.Place.all,
      Comment.step .hash q ',' = Comment.step .hash q ';' := by decide
  have hrespects : Comment.Respects .hash fun c => [if c = ';' then ',' else c] := by
    intro c q q₁ hstep
    by_cases hc : c = ';'
    · rw [hc, ← hcomma q (Comment.Place.mem_all q)] at hstep
      simp [hc, hstep]
    · simp [hc, hstep]
  obtain ⟨q₁, hq₁⟩ := h.exists_place
  rw [commaForSemicolon, List.map_eq_flatMap]
  exact Comment.passes_of_scan (Comment.scan_flatMap hrespects hq₁)

theorem passes_referenceText {key value : String} (hkey : Passes .hash inside key.toList)
    (hvalue : Passes .hash inside value.toList) :
    Passes .hash inside (referenceText key value) := by
  have hequals : Settles .hash ['='] := by decide
  unfold referenceText
  split
  · exact passes_commaForSemicolon hkey
  · rw [← List.singleton_append, ← List.append_assoc, Passes,
      scan_append_of (scan_settled hkey hequals)]
    exact passes_commaForSemicolon hvalue

theorem settles_transport (b : RuleBody) : Settles .hash ('/' :: transportOf b) := by
  unfold transportOf
  split
  · dsimp only
    split
    · rename_i hudp
      rw [hudp]
      decide
    · decide
  · decide

theorem passes_guardText {b : RuleBody}
    (hvalues : ∀ c ∈ b.conditions, Passes .hash inside c.value.toList) {h : Handler}
    (hh : h ∈ handlers) :
    Passes .hash inside (guardText ((effective b).map (termOf h (transportOf b)))) := by
  unfold guardText
  split
  · decide
  · refine Comment.passes_joinWith (by decide) fun t ht => ?_
    obtain ⟨c, hc, rfl⟩ := List.mem_map.mp ht
    exact passes_term (subject_mem hh c.field) (settles_transport b)
      (hvalues c (List.mem_of_mem_filter hc))

theorem scan_noticeText {b : RuleBody} (htitle : Passes .hash inside b.title.toList)
    (hrefs : ∀ p ∈ b.references, Passes .hash inside p.1.toList ∧ Passes .hash inside p.2.toList) :
    scan .hash inside (noticeText b) = some inside := by
  have hlead : scan .hash inside "$note=Weird::Activity, $conn=c, $msg=".toList = some inside := by
    decide
  have hsub : scan .hash inside ", $sub=".toList = some inside := by decide
  unfold noticeText
  simp only [List.append_assoc, scan_append_of hlead,
    scan_append_of (scan_stringLiteral htitle inside)]
  split
  · rfl
  · simp only [scan_append_of hsub]
    refine scan_stringLiteral (Comment.passes_joinWith (by decide) fun t ht => ?_) inside
    obtain ⟨p, hp, rfl⟩ := List.mem_map.mp ht
    exact passes_referenceText (hrefs p hp).1 (hrefs p hp).2

theorem scriptText_parts (h : Handler) (g notice : List Char) :
    scriptText h g notice = lead h ++ (('\t' :: "if ( ".toList) ++
      ((g ++ " )\n\t\tNOTICE([".toList) ++ (notice ++ "]);\n\t\x7d".toList))) := by
  rw [scriptText_eq]
  unfold closing
  simp only [List.append_assoc, List.cons_append]

theorem scan_lead : ∀ h ∈ handlers, scan .hash fresh (lead h) = some fresh := by decide +kernel

theorem passes_render {b : RuleBody} (htitle : Passes .hash inside b.title.toList)
    (hvalues : ∀ c ∈ b.conditions, Passes .hash inside c.value.toList)
    (hrefs : ∀ p ∈ b.references, Passes .hash inside p.1.toList ∧ Passes .hash inside p.2.toList) :
    Passes .hash fresh (render b).1 := by
  have hh := chooseHandler_mem b
  have hif : scan .hash fresh ('\t' :: "if ( ".toList) = some inside := by decide
  have hopen : Settles .hash " )\n\t\tNOTICE([".toList := by decide
  have hclose : Passes .hash inside "]);\n\t\x7d".toList := by decide
  have hguard := scan_settled (passes_guardText hvalues hh) hopen
  simp only [Passes, render, scriptText_parts, scan_append_of (scan_lead _ hh), scan_append_of hif,
    scan_append_of hguard, scan_append_of (scan_noticeText htitle hrefs)]
  exact hclose

/-- A script has the title of its body in quotes. -/
theorem title_occurs (b : RuleBody) :
    Text.marked isStringMark b.title.toList <:+: (render b).1 := by
  have hliteral : Text.marked isStringMark b.title.toList <:+: stringLiteral b.title.toList := by
    rw [stringLiteral, Text.Quoted.enclose, escape_eq_marked]
    exact ⟨['"'], ['"'], by simp⟩
  have hnotice : stringLiteral b.title.toList <:+: noticeText b := by
    unfold noticeText
    exact ⟨_, _, rfl⟩
  have hscript (g : List Char) :
      noticeText b <:+: scriptText (chooseHandler b) g (noticeText b) := by
    rw [scriptText_parts]
    exact (List.prefix_append _ _).isInfix.trans ((List.suffix_append _ _).isInfix.trans
      ((List.suffix_append _ _).isInfix.trans (List.suffix_append _ _).isInfix))
  exact hliteral.trans (hnotice.trans (hscript _))

end RuleExchange.Zeek
