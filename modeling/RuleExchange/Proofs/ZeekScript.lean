import RuleExchange.Proofs.Members
import RuleExchange.Proofs.ZeekGuard

/-! Scripts are read back. The handler, the guard and the fields of the notice are searched
for from the start of the script, so each is found where it was written when nothing
before it looks like it. -/

namespace RuleExchange.Zeek

open Text (Stops isBlank Trimmed marked)
open Text.Quoted (isQuote escape Uncut unescape_escape)

/-! ### Fields of the notice -/

variable {name pre rest : List Char} {c : Char}

theorem assignedHere?_of_not_prefix {s : List Char} (h : ¬ name <+: s) :
    assignedHere? name s = none := by
  rw [assignedHere?, Text.after?_eq_none_iff.mpr h]
  rfl

theorem assigned?_eq_none {s : List Char} (h : ¬ name <:+: s) : assigned? name s = none := by
  induction s with
  | nil => rw [assigned?, assignedHere?_of_not_prefix fun hp => h hp.isInfix]
  | cons c cs ih =>
    rw [List.infix_cons_iff, not_or] at h
    rw [assigned?, assignedHere?_of_not_prefix h.1]
    exact ih h.2

/-- A field that does not occur in a text is searched for behind it. -/
theorem assigned?_skip (hc : c ∉ name) (h : ¬ name <:+: pre) :
    assigned? name (pre ++ c :: rest) = assigned? name rest := by
  induction pre with
  | nil =>
    have hfirst : ¬ name <+: c :: rest := fun hp =>
      h ((Text.prefix_append_cons_iff (s := []) hc).mp hp).isInfix
    rw [List.nil_append, assigned?, assignedHere?_of_not_prefix hfirst]
  | cons d ds ih =>
    rw [List.infix_cons_iff, not_or] at h
    have hfirst : ¬ name <+: d :: ds ++ c :: rest := fun hp =>
      h.1 ((Text.prefix_append_cons_iff hc).mp hp)
    rw [assigned?.eq_def, assignedHere?_of_not_prefix hfirst]
    exact ih h.2

theorem assigned?_here (name v rest : List Char) :
    assigned? name (name ++ '=' :: (stringLiteral v ++ rest)) = some (escape '"' v) := by
  have hread : assignedHere? name (name ++ '=' :: (stringLiteral v ++ rest)) =
      some (escape '"' v) := by
    rw [assignedHere?, Text.after?_append]
    have hsign : isBlank '=' = false := by decide
    have hquote : isBlank '"' = false := by decide
    simp [skipBlank, hsign, hquote, Text.after?, stringLiteral, Text.Quoted.enclose,
      rawUntil?_escape]
  rw [assigned?.eq_def, hread]

/-! ### References -/

/-- A reference that is read back from its text. -/
structure IsPair (key value : String) : Prop where
  key_ne : key ≠ ""
  key_trimmed : Trimmed key.toList
  key_plain : '=' ∉ key.toList ∧ ';' ∉ key.toList
  value_trimmed : Trimmed value.toList
  value_plain : ';' ∉ value.toList

instance (key value : String) : Decidable (IsPair key value) :=
  decidable_of_iff (key ≠ "" ∧ Trimmed key.toList ∧ ('=' ∉ key.toList ∧ ';' ∉ key.toList) ∧
      Trimmed value.toList ∧ ';' ∉ value.toList)
    ⟨fun ⟨hk, ht, hp, hvt, hvp⟩ => ⟨hk, ht, hp, hvt, hvp⟩,
      fun ⟨hk, ht, hp, hvt, hvp⟩ => ⟨hk, ht, hp, hvt, hvp⟩⟩

theorem commaForSemicolon_of_notMem {s : List Char} (h : ';' ∉ s) : commaForSemicolon s = s := by
  induction s with
  | nil => rfl
  | cons c cs ih =>
    rw [List.mem_cons, not_or] at h
    simp [commaForSemicolon, Ne.symm h.1]
    exact ih h.2

theorem cut?_of_notMem {x : Char} {s : List Char} (h : x ∉ s) (rest : List Char) :
    Text.cut? [x] (s ++ x :: rest) = some (s, rest) := by
  have hnot : ¬ [x] <:+: s ++ [x].dropLast := fun hin => h (by
    simpa using hin.subset List.mem_cons_self)
  exact Text.cut?_append hnot rest

variable {key value : String}

theorem referenceText_eq (h : IsPair key value) :
    referenceText key value = key.toList ++ if value = "" then [] else '=' :: value.toList := by
  rw [referenceText, commaForSemicolon_of_notMem h.key_plain.2,
    commaForSemicolon_of_notMem h.value_plain]
  by_cases hv : value = "" <;> simp [hv]

theorem addPair_referenceText (h : IsPair key value) (b : RuleBody) :
    addPair b (referenceText key value) = b.addReference key value := by
  have hkey : key.toList ≠ [] := fun he => h.key_ne (String.toList_eq_nil_iff.mp he)
  obtain ⟨k, ks, hks⟩ := List.exists_cons_of_ne_nil hkey
  have htrim : Trimmed (referenceText key value) := by
    rw [referenceText_eq h]
    split
    · simpa using h.key_trimmed
    · rename_i hv
      have hvalue : value.toList ≠ [] := fun he => hv (String.toList_eq_nil_iff.mp he)
      obtain ⟨init, x, hlast⟩ := (List.eq_nil_or_concat value.toList).resolve_left hvalue
      have hend := h.value_trimmed.2
      refine ⟨?_, ?_⟩
      · have hstart := h.key_trimmed.1
        rw [hks] at hstart ⊢
        exact Text.stops_cons (hstart k rfl) _
      · rw [hlast, List.concat_eq_append] at hend ⊢
        simp only [List.reverse_append, List.reverse_cons, List.reverse_nil, List.nil_append,
          List.cons_append] at hend ⊢
        exact Text.stops_cons (hend x rfl) _
  have hne : referenceText key value ≠ [] := by
    rw [referenceText_eq h, hks]
    simp
  have hcut : (Text.cut? ['='] (referenceText key value)).getD (referenceText key value, []) =
      (key.toList, value.toList) := by
    rw [referenceText_eq h]
    split
    · rename_i hv
      have hnone : Text.cut? ['='] key.toList = none :=
        Text.cut?_eq_none_iff.mpr fun hin => h.key_plain.1 (hin.subset (by simp))
      simp [hv, hnone]
    · rw [cut?_of_notMem h.key_plain.1]
      rfl
  simp only [addPair, Text.trim_of_trimmed htrim, hcut]
  simp [hne, Text.trim_of_trimmed h.key_trimmed, Text.trim_of_trimmed h.value_trimmed]

theorem foldl_addPair {refs : List (String × String)} (h : ∀ p ∈ refs, IsPair p.1 p.2)
    (b : RuleBody) :
    (refs.map fun (k, v) => referenceText k v).foldl addPair b =
      refs.foldl (fun b p => b.addReference p.1 p.2) b := by
  induction refs generalizing b with
  | nil => rfl
  | cons p refs ih =>
    rw [List.map_cons, List.foldl_cons, List.foldl_cons, addPair_referenceText (h p (by simp)),
      ih fun q hq => h q (by simp [hq])]

theorem references_read_back {refs : List (String × String)} (hne : refs ≠ [])
    (h : ∀ p ∈ refs, IsPair p.1 p.2) (ho : Json.OrderedByKey refs) :
    ((Text.splitWhere (· == ';') (Text.joinWith [';']
      (refs.map fun (k, v) => referenceText k v))).foldl addPair {}).references = refs := by
  have hplain : ∀ s ∈ refs.map (fun (k, v) => referenceText k v), ';' ∉ s := by
    intro s hs
    obtain ⟨p, hp, rfl⟩ := List.mem_map.mp hs
    have hpair := h p hp
    simp only [referenceText_eq hpair]
    split
    · simpa using hpair.key_plain.2
    · simpa using ⟨hpair.key_plain.2, hpair.value_plain⟩
  rw [Text.splitWhere_joinWith (by simpa using hne) hplain, foldl_addPair h,
    RuleBody.foldl_addReference (by simpa using ho)]
  simp

/-! ### Handlers -/

def handlers : List Handler :=
  [.httpRequest, .dnsRequest, .tcpContents, .newConnection]

variable {h : Handler}

theorem chooseHandler_mem (b : RuleBody) : chooseHandler b ∈ handlers := by
  simp only [chooseHandler, handlers]
  repeat' split
  all_goals simp

/-- What stands before the guard of a script. -/
def lead (h : Handler) : List Char :=
  "event ".toList ++ h.name.toList ++ '(' :: h.params.toList ++ ")\n\t\x7b\n".toList

theorem scriptText_eq (h : Handler) (g notice : List Char) :
    scriptText h g notice = lead h ++ '\t' :: ("if ( ".toList ++ (g ++ closing notice)) := by
  have hopen : ")\n\t\x7b\n\tif ( ".toList = ")\n\t\x7b\n".toList ++ '\t' :: "if ( ".toList := by
    decide +kernel
  unfold scriptText lead closing
  simp only [hopen, List.append_assoc, List.cons_append]

theorem lead_plain : ∀ h ∈ handlers, h.name ≠ "" ∧ h.name.toList.all Text.isWord = true ∧
    h.name.toList.any isBlank = false ∧ '$' ∉ lead h ∧ ¬ "if".toList <:+: lead h := by
  decide +kernel

theorem handler?_scriptText (hh : h ∈ handlers) (g notice : List Char) :
    handler? true (scriptText h g notice) = some h.name.toList := by
  obtain ⟨hne, hall, hsolid, -⟩ := lead_plain h hh
  have hword := List.all_eq_true.mp hall
  have hevent : "event ".toList = "event".toList ++ [' '] := by decide +kernel
  obtain ⟨more, hmore⟩ : ∃ more, scriptText h g notice =
      "event".toList ++ ' ' :: (h.name.toList ++ '(' :: more) := by
    unfold scriptText
    simp only [hevent, List.append_assoc, List.cons_append, List.nil_append]
    exact ⟨_, rfl⟩
  obtain ⟨x, xs, hx⟩ := List.exists_cons_of_ne_nil
    (fun he => hne (String.toList_eq_nil_iff.mp he))
  have hstops : Stops isBlank (h.name.toList ++ '(' :: more) := by
    rw [hx]
    exact Text.stops_cons (Bool.eq_false_iff.mpr (List.any_eq_false.mp hsolid x (by simp [hx]))) _
  have hparen : Text.isWord '(' = false := by decide +kernel
  have hrest : Stops Text.isWord ('(' :: more) := Text.stops_cons hparen _
  have hstart : skipBlank ("event".toList ++ ' ' :: (h.name.toList ++ '(' :: more)) =
      "event".toList ++ ' ' :: (h.name.toList ++ '(' :: more) :=
    Text.dropWhile_of_stops (Text.stops_cons (by decide) _)
  have hname : afterBlank? (' ' :: (h.name.toList ++ '(' :: more)) =
      some (h.name.toList ++ '(' :: more) := by
    rw [afterBlank?, if_pos (by decide), skipBlank, Text.dropWhile_of_stops hstops]
  have hopen : skipBlank ('(' :: more) = '(' :: more :=
    Text.dropWhile_of_stops (Text.stops_cons (by decide) _)
  have hhere : handlerHere? (scriptText h g notice) = some h.name.toList := by
    rw [hmore, handlerHere?, hstart, Text.after?_append]
    simp only [Option.bind_eq_bind, Option.bind_some, hname, Text.takeWhile_run hword hrest,
      Text.dropWhile_run hword hrest, hopen]
    simp [hx]
  rw [handler?.eq_def, if_pos rfl, hhere]

/-! ### Fields in a script -/

/-- What stands behind the title in a notice and behind the notice. -/
def afterTitle (refs : List (String × String)) : List Char :=
  (if refs.isEmpty then []
   else ", $sub=".toList ++
     stringLiteral (Text.joinWith [';'] (refs.map fun (k, v) => referenceText k v))) ++
    "]);\n\t\x7d".toList

theorem scriptText_notice (h : Handler) (g : List Char) (b : RuleBody) :
    scriptText h g (noticeText b) =
      (lead h ++ "\tif (".toList) ++ ' ' :: (g ++ ' ' ::
        (")\n\t\tNOTICE([$note=Weird::Activity,".toList ++ ' ' :: ("$conn=c,".toList ++ ' ' ::
          ("$msg".toList ++ '=' :: (stringLiteral b.title.toList ++ afterTitle b.references))))) := by
  have hif : '\t' :: "if ( ".toList = "\tif (".toList ++ [' '] := by decide +kernel
  have hclose : " )\n\t\tNOTICE([".toList ++ "$note=Weird::Activity, $conn=c, $msg=".toList =
      ' ' :: (")\n\t\tNOTICE([$note=Weird::Activity,".toList ++ ' ' :: ("$conn=c,".toList ++ ' ' ::
        ("$msg".toList ++ ['=']))) := by decide +kernel
  rw [scriptText_eq, ← List.cons_append, hif]
  unfold closing noticeText afterTitle
  simp only [List.append_assoc]
  rw [← List.append_assoc " )\n\t\tNOTICE([".toList, hclose]
  simp only [List.append_assoc, List.cons_append, List.nil_append]

/-- Nothing before the title looks like an assignment to the title or to the references. -/
theorem assigned?_scriptText (hname : name ∈ ["$msg".toList, "$sub".toList]) (hh : h ∈ handlers)
    {g : List Char} (hg : ¬ name <:+: g) (b : RuleBody) :
    assigned? name (scriptText h g (noticeText b)) = assigned? name
      ("$msg".toList ++ '=' :: (stringLiteral b.title.toList ++ afterTitle b.references)) := by
  have hfixed : ∀ name ∈ ["$msg".toList, "$sub".toList], '$' ∈ name ∧ ' ' ∉ name ∧
      ¬ name <:+: ")\n\t\tNOTICE([$note=Weird::Activity,".toList ∧
      ¬ name <:+: "$conn=c,".toList := by decide +kernel
  obtain ⟨hdollar, hspace, hnote, hconn⟩ := hfixed name hname
  have hlead : ¬ name <:+: lead h ++ "\tif (".toList := by
    intro hin
    have hmem := hin.subset hdollar
    rw [List.mem_append] at hmem
    exact hmem.elim (lead_plain h hh).2.2.2.1 (by decide)
  rw [scriptText_notice, assigned?_skip hspace hlead, assigned?_skip hspace hg,
    assigned?_skip hspace hnote, assigned?_skip hspace hconn]

theorem titleOf_scriptText (hh : h ∈ handlers) {g : List Char} (hg : ¬ "$msg".toList <:+: g)
    (b : RuleBody) : titleOf (scriptText h g (noticeText b)) = b.title := by
  rw [titleOf, assigned?_scriptText (by simp) hh hg, assigned?_here]
  simp only [unescape_escape, String.ofList_toList]

theorem referencesOf_scriptText (hh : h ∈ handlers) {g : List Char} (hg : ¬ "$sub".toList <:+: g)
    {b : RuleBody} (ht : ¬ "$sub".toList <:+: b.title.toList)
    (hrefs : ∀ p ∈ b.references, IsPair p.1 p.2) (ho : Json.OrderedByKey b.references) :
    referencesOf (scriptText h g (noticeText b)) = b.references := by
  have htitle : ¬ "$sub".toList <:+: escape '"' b.title.toList := by
    rw [escape_eq_marked]
    exact fun hin => ht (Text.infix_of_infix_marked (by decide) hin)
  have hbehind : assigned? "$sub".toList (scriptText h g (noticeText b)) =
      assigned? "$sub".toList (afterTitle b.references) := by
    have hsplit : "$msg".toList ++ '=' :: (stringLiteral b.title.toList ++ afterTitle b.references) =
        "$msg=".toList ++ '"' :: (escape '"' b.title.toList ++ '"' :: afterTitle b.references) := by
      simp [stringLiteral, Text.Quoted.enclose]
    rw [assigned?_scriptText (by simp) hh hg, hsplit, assigned?_skip (by decide) (by decide),
      assigned?_skip (by decide) htitle]
  rw [referencesOf, hbehind, afterTitle]
  by_cases hne : b.references = []
  · rw [hne, assigned?_eq_none (by decide +kernel)]
  · have hsub : ", $sub=".toList = ",".toList ++ ' ' :: ("$sub".toList ++ ['=']) := by
      decide +kernel
    rw [if_neg (by simpa using hne), hsub]
    simp only [List.append_assoc, List.cons_append, List.nil_append]
    rw [assigned?_skip (by decide) (by decide), assigned?_here]
    simp only [unescape_escape]
    exact references_read_back hne hrefs ho

/-! ### Round trip -/

/-- A body whose script says all that the body says, with conditions on texts of one field. -/
structure Scriptable (b : RuleBody) (subject : String) : Prop where
  subject_mem : subject ∈ textFields
  terms : ∀ c ∈ b.conditions, IsAddressTerm c ∨ IsTextTerm c ∧ c.field = subject
  no_disjunction : ∀ c ∈ b.conditions, c.operator ∈ [.contains, .equals, .notEquals] →
    Text.contains c.value "||" = false
  no_assignment : ∀ c ∈ b.conditions, Text.contains c.value "$msg" = false ∧
    Text.contains c.value "$sub" = false
  no_close : ∀ c ∈ b.conditions, closesNotice c.value.toList = false
  title_plain : Text.contains b.title "$sub" = false
  pairs : ∀ p ∈ b.references, IsPair p.1 p.2
  ordered : Json.OrderedByKey b.references

theorem expression_address {field : String} (ha : isAddressField field = true) (h : Handler) :
    expression h field = some (exprOf field) := by
  simp only [isAddressField, isPortField, Bool.or_eq_true, beq_iff_eq, or_assoc] at ha
  rcases ha with rfl | rfl | rfl | rfl <;> rfl

namespace Scriptable

variable {b : RuleBody} {subject : String} (hb : Scriptable b subject)

include hb

theorem effective_eq : effective b = b.conditions := by
  refine List.filter_eq_self.mpr fun c hc => ?_
  rcases hb.terms c hc with h | ⟨h, -⟩
  · simp [h.not_isMatchAll]
  · simp [h.not_isMatchAll]

theorem field_cases {c : Condition} (hc : c ∈ b.conditions) :
    isAddressField c.field = true ∨ c.field = subject :=
  (hb.terms c hc).imp IsAddressTerm.field And.right

theorem subject_eq {field : String} (hf : field ∈ textFields)
    (h : b.conditions.any (·.field == field) = true) : field = subject := by
  obtain ⟨c, hc, he⟩ := List.any_eq_true.mp h
  have hfield : c.field = field := by simpa using he
  have haddress := not_isAddressField_of_textFields field hf
  rcases hb.field_cases hc with ha | hs
  · rw [hfield, haddress] at ha
    cases ha
  · rw [← hfield, hs]

/-- The handler has the expression of every field that the body uses. -/
theorem expression_eq {c : Condition} (hc : c ∈ b.conditions) :
    expression (chooseHandler b) c.field = some (exprOf c.field) := by
  rcases hb.field_cases hc with ha | hs
  · exact expression_address ha _
  · have hused : b.conditions.any (·.field == subject) = true :=
      List.any_eq_true.mpr ⟨c, hc, by simpa using hs⟩
    have hother (field : String) (hf : field ∈ textFields) (hne : field ≠ subject) :
        b.conditions.any (·.field == field) = false :=
      Bool.eq_false_iff.mpr fun h => hne (hb.subject_eq hf h)
    have htext := not_isAddressField_of_textFields subject hb.subject_mem
    have hcontents : b.conditions.any (fun c => !isAddressField c.field) = true :=
      List.any_eq_true.mpr ⟨c, hc, by rw [hs, htext]; rfl⟩
    have hmem := hb.subject_mem
    simp only [textFields, List.mem_cons, List.not_mem_nil, or_false] at hmem
    rw [hs, chooseHandler, hb.effective_eq]
    rcases hmem with rfl | rfl | rfl
    · have huri := hother Field.httpUri (by decide) (by decide)
      have hquery := hother Field.dnsQuery (by decide) (by decide)
      simp only [huri, hquery, hcontents]
      decide
    · simp only [hused, if_true]
      decide
    · have huri := hother Field.httpUri (by decide) (by decide)
      simp only [huri, hused, if_true, Bool.false_eq_true, if_false]
      decide

theorem isPrefixOf_name : "dns_".toList.isPrefixOf (chooseHandler b).name.toList =
    b.conditions.any (·.field == Field.dnsQuery) := by
  rw [chooseHandler, hb.effective_eq]
  by_cases huri : b.conditions.any (·.field == Field.httpUri) = true
  · have hquery : b.conditions.any (·.field == Field.dnsQuery) = false := by
      refine Bool.eq_false_iff.mpr fun h => ?_
      have hsame := (hb.subject_eq (by decide) huri).trans (hb.subject_eq (by decide) h).symm
      exact absurd hsame (by decide)
    rw [if_pos huri, hquery]
    decide
  · rw [if_neg huri]
    by_cases hquery : b.conditions.any (·.field == Field.dnsQuery) = true
    · rw [if_pos hquery, hquery]
      decide
    · rw [if_neg hquery, Bool.eq_false_iff.mpr hquery]
      split <;> decide

theorem isTerm {c : Condition} (hc : c ∈ b.conditions) :
    IsTerm (termOf (chooseHandler b) (transportOf b) c) c := by
  have htransport : transportOf b ∈ ["tcp".toList, "udp".toList] := by
    simp only [transportOf]
    repeat' split
    all_goals simp_all
  rw [termOf, hb.expression_eq hc, Option.getD_some]
  rcases hb.terms c hc with h | ⟨h, -⟩
  · exact isTerm_address h htransport
  · exact isTerm_text h _

/-- What no value shows, the guard does not show. -/
theorem not_infix_guard {pat : List Char} (hp : Sealed pat)
    (hv : ∀ c ∈ b.conditions, ¬ pat <:+: c.value.toList) :
    ¬ pat <:+: guardText (b.conditions.map (termOf (chooseHandler b) (transportOf b))) := by
  refine not_infix_guardText (fun c hc => hb.isTerm hc) hp fun c hc hin => hv c hc ?_
  have hbackslash : '\\' ∉ pat := hp.unmarked '\\' (by decide)
  rw [writtenValue] at hin
  split at hin <;> exact Text.infix_of_infix_marked hbackslash hin

/-- Bars in patterns are escaped, those in strings are not. -/
theorem not_or_infix_guard : ¬ ['|', '|'] <:+:
    guardText (b.conditions.map (termOf (chooseHandler b) (transportOf b))) := by
  refine not_infix_guardText (fun c hc => hb.isTerm hc) sealed_or fun c hc => ?_
  have hstring (hm : c.operator ∈ [.contains, .equals, .notEquals]) :
      ¬ ['|', '|'] <:+: marked isStringMark c.value.toList := fun hin =>
    Text.occursIn_eq_false_iff.mp (hb.no_disjunction c hc hm)
      (Text.infix_of_infix_marked (by decide) hin)
  have hpattern : ¬ ['|', '|'] <:+: marked isPatternMark c.value.toList :=
    Text.not_infix_marked (by decide) (by decide) (by decide) _
  cases ho : c.operator with
  | contains => simpa [writtenValue, ho] using hstring (by simp [ho])
  | equals => simpa [writtenValue, ho] using hstring (by simp [ho])
  | notEquals => simpa [writtenValue, ho] using hstring (by simp [ho])
  | startsWith => simpa [writtenValue, ho] using hpattern
  | endsWith => simpa [writtenValue, ho] using hpattern
  | regex =>
    rcases hb.terms c hc with h | ⟨h, -⟩
    · simpa [ho] using h.operator
    · simp [IsTextTerm, ho] at h

end Scriptable

/-- A script is read as the body that it was written for, less what a script does not say. -/
theorem script_reads_back {b : RuleBody} {subject : String} (hb : Scriptable b subject) :
    parse (render b).1 = .ok {
      title := b.title
      event := some (if b.conditions.any (·.field == Field.dnsQuery) then "dns" else "network")
      conditions := b.conditions
      references := b.references } := by
  have hterms : ∀ c ∈ b.conditions, IsTerm (termOf (chooseHandler b) (transportOf b) c) c :=
    fun c hc => hb.isTerm hc
  have hh := chooseHandler_mem b
  obtain ⟨-, -, -, -, hif⟩ := lead_plain _ hh
  simp only [render, hb.effective_eq]
  generalize hg : guardText (b.conditions.map (termOf (chooseHandler b) (transportOf b))) = g
  have hmsg : ¬ "$msg".toList <:+: g := hg ▸ hb.not_infix_guard sealed_msg fun c hc =>
    Text.occursIn_eq_false_iff.mp (hb.no_assignment c hc).1
  have hsub : ¬ "$sub".toList <:+: g := hg ▸ hb.not_infix_guard sealed_sub fun c hc =>
    Text.occursIn_eq_false_iff.mp (hb.no_assignment c hc).2
  have hor : Text.occursIn ['|', '|'] g = false :=
    Text.occursIn_eq_false_iff.mpr (hg ▸ hb.not_or_infix_guard)
  have hclose : closesNotice g = false := closesNotice_eq_false_iff.mpr fun gap hgap =>
    hg ▸ hb.not_infix_guard (sealed_closePattern hgap) fun c hc =>
      closesNotice_eq_false_iff.mp (hb.no_close c hc) gap hgap
  have hguard : guard? true (scriptText (chooseHandler b) g (noticeText b)) = some g := by
    have htab : (!Text.isWord '\t') = true := by decide +kernel
    rw [scriptText_eq, guard?_skip (by decide) hif, htab]
    exact guard?_here (hg ▸ firmEnds_guardText hterms) hclose _
  have hread : readTerms (Text.Quoted.split ['&', '&'] g) = .ok b.conditions :=
    hg ▸ readTerms_guardText hterms
  have htitle := titleOf_scriptText hh hmsg b
  have hrefs := referencesOf_scriptText hh hsub (Text.occursIn_eq_false_iff.mp hb.title_plain)
    hb.pairs hb.ordered
  rw [parse, handler?_scriptText hh]
  simp only [hguard, hor, hread, htitle, hrefs, hb.isPrefixOf_name]
  rfl

theorem tangled_script_reads_back :
    let b : RuleBody :=
      { title := "\"$msg=\" || a) NOTICE \\"
        network := some { protocol := "UDP" }
        conditions := [⟨Field.sourcePort, .equals, "8080"⟩,
          ⟨Field.httpUri, .contains, "a && \"b\" \\ ) NOTE"⟩,
          ⟨Field.httpUri, .startsWith, "/x.y && $z||"⟩, ⟨Field.destinationIp, .notEquals, "fe80::1"⟩,
          ⟨Field.httpUri, .startsWith, "^\\/"⟩, ⟨Field.httpUri, .endsWith, "a\n$/$"⟩,
          ⟨Field.httpUri, .notEquals, "*.exe "⟩, ⟨Field.httpUri, .equals, ""⟩]
        references := [("cve", "a=b"), ("sid", "")] }
    Scriptable b Field.httpUri ∧
      parse (render b).1 = .ok { b with event := some "network", network := none } := by
  intro b
  have hb : Scriptable b Field.httpUri :=
    { subject_mem := by decide +kernel
      terms := by decide +kernel
      no_disjunction := by decide +kernel
      no_assignment := by decide +kernel
      no_close := by decide +kernel
      title_plain := by decide +kernel
      pairs := by decide +kernel
      ordered := by decide +kernel }
  exact ⟨hb, script_reads_back hb⟩

end RuleExchange.Zeek
