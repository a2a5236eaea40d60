import RuleExchange.Platform.Conversion
import RuleExchange.Proofs.CommentStripping
import RuleExchange.Proofs.DocumentRoundTrip
import RuleExchange.Proofs.SignatureReferences

/-! Required fields. A document gets its required keys before anything else, and since no
key is put in twice, what comes later takes none of them away; a signature has its title
at the start, and its number among the references or behind them. The title is read back
from the text of a signature. The number is not if a reference in front of it takes it
into its own value, as one with a backslash at its end does. -/

namespace RuleExchange.Document

open Json (lookup)

variable {vendor : Vendor} {b : RuleBody} {notes : Option (List String)}

/-- What stands under the required keys: the event, and for each required field the value of the
first equality on it, or else the wildcard. -/
structure Supplied (vendor : Vendor) (b : RuleBody) (doc : List (String × Json.Value)) : Prop where
  event : lookup vendor.eventKey doc = some (.str (eventMember vendor b))
  field : ∀ f ∈ vendor.required,
    lookup (vendor.key f) doc = some (.str (requiredText b.conditions f))

/-- The event is not taken from a required field. -/
theorem eventType_notMem_required (h : vendor ∈ vendors) : Field.eventType ∉ vendor.required := by
  have hall : ∀ vendor ∈ vendors, Field.eventType ∉ vendor.required := by decide +kernel
  exact hall vendor h

/-- Taking out the event type leaves the equalities on other fields. -/
theorem requiredText_eventValue {f : String} (h : f ≠ Field.eventType) (vendor : Vendor)
    (b : RuleBody) :
    requiredText (eventValue vendor b).2.conditions f = requiredText b.conditions f := by
  rw [eventValue_rest, requiredText, RuleBody.find?_eraseP_of_ne h]
  rfl

theorem supplied_render (hvendor : vendor ∈ vendors) (b : RuleBody) (notes : Option (List String)) :
    ∃ doc, members (render vendor b notes).1 = .ok doc ∧ Supplied vendor b doc := by
  have hv := lawful_of_mem hvendor
  refine ⟨_, members_render_eq hv b notes, ?_⟩
  have hfound {key text : String} (hmem : (key, Json.Value.str text) ∈
      entriesOver vendor (eventMember vendor b) (eventValue vendor b).2 notes) :
      lookup key ((Json.sortMembers (entriesOver vendor (eventMember vendor b)
        (eventValue vendor b).2 notes)).map fun m => (m.1, m.2.sorted)) = some (.str text) := by
    have hnodup := hv.nodup_entriesOver (eventValue vendor b).2 notes (eventMember vendor b)
    rw [Json.lookup_map, Json.lookup_sortMembers hnodup, Json.lookup_of_mem hnodup hmem]
    rfl
  constructor
  case event => exact hfound (by simp [entriesOver])
  case field =>
    intro f hf
    have hne : f ≠ Field.eventType := fun he => eventType_notMem_required hvendor (he ▸ hf)
    have hmem : (vendor.key f, Json.Value.str (requiredText (eventValue vendor b).2.conditions f)) ∈
        vendor.required.map fun f =>
          (vendor.key f, Json.Value.str (requiredText (eventValue vendor b).2.conditions f)) :=
      List.mem_map_of_mem hf
    rw [requiredText_eventValue hne] at hmem
    exact hfound (by simp [entriesOver, hmem])

theorem Supplied.isSome_lookup {doc : List (String × Json.Value)} (h : Supplied vendor b doc)
    {key : String} (hkey : key ∈ vendor.requiredKeys) : (lookup key doc).isSome = true := by
  rcases List.mem_cons.mp hkey with rfl | hkey
  · rw [h.event]
    rfl
  · obtain ⟨f, hf, rfl⟩ := List.mem_map.mp hkey
    rw [h.field f hf]
    rfl

theorem missingKeys_eq_nil {s : List Char} {doc : List (String × Json.Value)}
    (hs : members s = .ok doc) (h : Supplied vendor b doc) : missingKeys vendor s = [] := by
  rw [missingKeys, hs]
  refine List.filter_eq_nil_iff.mpr fun key hkey => ?_
  simp [Option.isNone_eq_false_iff.mpr (h.isSome_lookup hkey)]

theorem exists_render (vendor : Vendor) (b : RuleBody) (notes : Option (List String)) :
    ∃ inner, (render vendor b notes).1 = Json.openBrace :: (inner ++ [Json.closeBrace]) :=
  Json.exists_prettyAt_obj 0 _

/-- No blank is trimmed off a document, since it starts and ends with a brace. -/
theorem trim_render (vendor : Vendor) (b : RuleBody) (notes : Option (List String)) :
    Text.trim (render vendor b notes).1 = (render vendor b notes).1 := by
  obtain ⟨inner, hinner⟩ := exists_render vendor b notes
  refine Text.trim_of_trimmed ?_
  rw [hinner]
  refine ⟨Text.stops_cons rfl _, ?_⟩
  rw [List.reverse_cons, List.reverse_append]
  exact Text.stops_cons rfl _

theorem looksLike_render (vendor : Vendor) (b : RuleBody) (notes : Option (List String)) :
    looksLike (render vendor b notes).1 = true := by
  obtain ⟨inner, hinner⟩ := exists_render vendor b notes
  rw [hinner]
  rfl

end RuleExchange.Document

namespace RuleExchange.Signature

/-- The option that every signature of a flavor has. -/
def requiredOption (flavor : Flavor) : String := if flavor = .generic then "msg" else "sid"

theorem hasOption_of_mem {s : Signature} {o : RuleOption} (h : o ∈ s.options) :
    s.hasOption o.key = true :=
  List.any_eq_true.mpr ⟨o, h, beq_self_eq_true o.key⟩

theorem key_referenceOption (key value : String) : (referenceOption key value).key = key := by
  rw [referenceOption]
  split <;> rfl

/-- What closes a signature with a number: the references in front of it, and the number. -/
theorem exists_closing {flavor : Flavor} (hflavor : flavor ≠ .generic) (b : RuleBody) :
    ∃ o after, o.key = "sid" ∧ closingOptions b flavor =
      ((b.references.takeWhile (·.1 ≠ "sid")).map fun r => referenceOption r.1 r.2) ++
        o :: after := by
  have hsplit := List.takeWhile_append_dropWhile (p := (·.1 ≠ "sid")) (l := b.references)
  cases hrest : b.references.dropWhile (·.1 ≠ "sid") with
  | nil =>
    rw [hrest, List.append_nil] at hsplit
    have hnone : hasReference b "sid" = false := by
      have hall := List.dropWhile_eq_nil_iff.mp hrest
      simpa [hasReference, Json.lookup] using hall
    have hneeds : needsSid flavor b = true := by simp [needsSid, hflavor, hnone]
    refine ⟨.pair "sid" (toString (localSid b)),
      if hasReference b "rev" then [] else [.pair "rev" "1"], rfl, ?_⟩
    rw [closingOptions, if_pos hneeds, hsplit]
    rfl
  | cons r rest =>
    have hkey : r.1 = "sid" := by
      have hhead := List.head?_dropWhile_not (·.1 ≠ "sid") b.references
      rw [hrest] at hhead
      simpa using hhead
    refine ⟨referenceOption r.1 r.2, rest.map (fun r => referenceOption r.1 r.2) ++
      if needsSid flavor b then sidOptions b else [], (key_referenceOption _ _).trans hkey, ?_⟩
    rw [closingOptions]
    conv_lhs => rw [← hsplit, hrest, List.map_append, List.map_cons, List.append_assoc]
    rfl

theorem hasOption_ofBody (b : RuleBody) (flavor : Flavor) (level : Nat) :
    (ofBody b flavor level).1.hasOption (requiredOption flavor) = true := by
  obtain ⟨os, hos, -⟩ := exists_leading b flavor level
  by_cases hflavor : flavor = .generic
  · rw [requiredOption, if_pos hflavor]
    exact hasOption_of_mem (o := .pair "msg" (writtenTitle b)) (by simp [hos])
  · obtain ⟨o, after, hkey, hclosing⟩ := exists_closing hflavor b
    rw [requiredOption, if_neg hflavor, ← hkey]
    exact hasOption_of_mem (by simp [hos, hclosing])

/-- The title comes back first, whatever follows it. -/
theorem hasOption_msg_of_parse {b : RuleBody} {flavor : Flavor} {level : Nat} {s : Signature}
    (hwords : ∀ w ∈ (ofBody b flavor level).1.headerWords, IsWord w)
    (h : parse (ofBody b flavor level).1.text = .ok s) : s.hasOption "msg" = true := by
  obtain ⟨os, -, -, htext⟩ := exists_written b flavor level
  obtain ⟨-, all, hall, rfl⟩ := (parse_words_iff hwords).mp h
  rw [htext] at hall
  obtain ⟨extra, -, rfl⟩ := (readOptions_iff (List.forall_mem_nil _) (writable_title b)).mp hall
  exact hasOption_of_mem (o := .pair "msg" (writtenTitle b)) (by simp)

/-! ### Numbers that are swallowed -/

section Swallowed

variable {b : RuleBody} {flavor : Flavor} {os before after : List RuleOption} {o : RuleOption}

/-- An option gives its key back even if its value is read as another one. -/
theorem exists_key_of_readOptionsFrom (hkey : ReadableKey o.key) {size fuel : Nat}
    {rest : List Char} (h : readOptionsFrom size (fuel + 1) (o.text ++ rest) = .ok os) :
    ∃ o' ∈ os, o'.key = o.key := by
  cases hvalue : o.value with
  | none =>
    have htext : o.text ++ rest = o.key.toList ++ ';' :: rest := by
      simp [RuleOption.text, hvalue]
    rw [htext, readOptionsFrom_flag hkey, map_eq_ok] at h
    obtain ⟨more, -, rfl⟩ := h
    exact ⟨.flag o.key, by simp, rfl⟩
  | some v =>
    obtain ⟨written, htext⟩ : ∃ written, o.text ++ rest = o.key.toList ++ ':' :: written :=
      ⟨_, by simp [RuleOption.text, hvalue]; rfl⟩
    rw [htext, readOptionsFrom_colon hkey] at h
    obtain ⟨⟨o', rest'⟩, hread, h⟩ := ok_of_bind h
    obtain ⟨more, -, rfl⟩ := map_eq_ok.mp h
    exact ⟨o', by simp, (of_readOptionValue hread).1⟩

/-- Behind options that can be read back a key cannot get lost. -/
theorem exists_key_of_readOptions (hbefore : ∀ o ∈ before, o.Writable) (hkey : ReadableKey o.key)
    (h : readOptions (textBehind (before ++ o :: after)) = .ok os) :
    ∃ o' ∈ os, o'.key = o.key := by
  have htext : textBehind (o :: after) = ' ' :: (o.text ++ textBehind after) := by
    simpa using textBehind_cons o after []
  have hlength := length_le_textBehind before
  have hfuel : before.length + (textBehind (o :: after)).length <
      (textBehind before ++ textBehind (o :: after)).length + 1 := by
    rw [List.length_append]
    omega
  rw [readOptions, textBehind_append] at h
  obtain ⟨left, extra, hleft, hextra, rfl⟩ := exists_behind hbefore hfuel h
  obtain ⟨fuel, rfl⟩ := Nat.exists_eq_add_one_of_ne_zero (Nat.ne_of_gt (Nat.zero_lt_of_lt hleft))
  rw [htext, readOptionsFrom_blank] at hextra
  obtain ⟨o', ho', hsame⟩ := exists_key_of_readOptionsFrom hkey hextra
  exact ⟨o', List.mem_append_right before ho', hsame⟩

/-- The text of a body's references and of its number can be read, but not as a number. -/
def losesNumber (b : RuleBody) (flavor : Flavor) : Bool :=
  flavor != .generic &&
    ((writtenHeader b).direction == "->" || (writtenHeader b).direction == "<>") &&
    match readOptions (textBehind (closingOptions b flavor)) with
    | .ok os => os.all (·.key != "sid")
    | .error _ => false

theorem losesNumber_iff : losesNumber b flavor = true ↔ flavor ≠ .generic ∧
    ((writtenHeader b).direction = "->" ∨ (writtenHeader b).direction = "<>") ∧
    ∃ os, readOptions (textBehind (closingOptions b flavor)) = .ok os ∧
      ∀ o ∈ os, o.key ≠ "sid" := by
  cases hread : readOptions (textBehind (closingOptions b flavor)) <;>
    simp [losesNumber, hread, and_assoc]

/-- References in front of the number that can be read back leave it where it is. -/
theorem losesNumber_eq_false
    (h : ∀ r ∈ b.references.takeWhile (·.1 ≠ "sid"), (referenceOption r.1 r.2).Writable) :
    losesNumber b flavor = false := by
  rw [← Bool.not_eq_true, losesNumber_iff]
  rintro ⟨hflavor, -, os, hread, hnone⟩
  obtain ⟨o, after, hkey, hclosing⟩ := exists_closing hflavor b
  have hbefore : ∀ o ∈ (b.references.takeWhile (·.1 ≠ "sid")).map
      (fun r => referenceOption r.1 r.2), o.Writable := by
    intro o ho
    obtain ⟨r, hr, rfl⟩ := List.mem_map.mp ho
    exact h r hr
  have hreadable : ReadableKey o.key := by
    rw [hkey]
    decide
  rw [hclosing] at hread
  obtain ⟨o', ho', hsame⟩ := exists_key_of_readOptions hbefore hreadable hread
  exact hnone o' ho' (hsame.trans hkey)

/-- A number is lost exactly if the text of the signature reads as one without it. -/
theorem losesNumber_iff_parse (hb : Sheltered b) (hflavor : flavor ≠ .generic) (level : Nat) :
    losesNumber b flavor = true ↔
      ∃ s, parse (ofBody b flavor level).1.text = .ok s ∧ s.hasOption "sid" = false := by
  obtain ⟨os, -, hmem, hparse⟩ := parse_sheltered_iff hb flavor level
  have hleading : ∀ o ∈ os, o.key ≠ "sid" := by
    intro o ho
    rcases hmem o ho with rfl | ⟨c, -, hask⟩
    · decide
    · cases asked_of_mem hask with
      | flag hflag => exact (by decide : ∀ key ∈ flagKeys, key ≠ "sid") _ hflag
      | _ => simp [pcreOption, RuleOption.pair]
  rw [losesNumber_iff]
  constructor
  · rintro ⟨-, harrow, extra, hextra, hnone⟩
    refine ⟨_, (hparse _).mpr ⟨harrow, extra, readsOptions_of_ok hextra (by omega), rfl⟩, ?_⟩
    refine List.any_eq_false.mpr fun o ho => ?_
    simp only [List.cons_append, List.mem_cons, List.mem_append] at ho
    rcases ho with rfl | ho | ho
    · simp [RuleOption.pair]
    · simpa using hleading o ho
    · simpa using hnone o ho
  · rintro ⟨s, hs, hnone⟩
    obtain ⟨harrow, extra, hextra, rfl⟩ := (hparse s).mp hs
    refine ⟨hflavor, harrow, extra, readOptions_of_reads hextra, fun o ho => ?_⟩
    simpa using List.any_eq_false.mp hnone o (List.mem_append_right _ ho)

end Swallowed

end RuleExchange.Signature

namespace RuleExchange.Language

theorem missingFields_document {vendor : Document.Vendor} (hvendor : vendor ∈ Document.vendors)
    (readsQueries : Bool) (b other : RuleBody) (notes : Option (List String)) :
    (document vendor readsQueries).missingFields (Document.render vendor b notes).1 other = [] := by
  obtain ⟨doc, hdoc, hsupplied⟩ := Document.supplied_render hvendor b notes
  rw [missingFields, if_pos (Document.looksLike_render vendor b notes)]
  exact Document.missingKeys_eq_nil hdoc hsupplied

/-- A text that reads as nothing but signatures with the required option lacks none. -/
theorem missingFields_of_reads {flavor : Signature.Flavor} {text : List Char}
    (h : ∀ s, Signature.parse text = .ok s →
      s.hasOption (Signature.requiredOption flavor) = true) (b : RuleBody) :
    (signature flavor).missingFields text b = [] := by
  rw [missingFields]
  split
  · rename_i s hread
    exact if_pos (h s hread)
  · rfl

theorem missingFields_of_title {b : RuleBody} {level : Nat}
    (hwords : ∀ w ∈ (Signature.ofBody b .generic level).1.headerWords, Signature.IsWord w)
    (other : RuleBody) :
    (signature .generic).missingFields (Signature.ofBody b .generic level).1.text other = [] := by
  refine missingFields_of_reads (fun s hread => ?_) other
  exact Signature.hasOption_msg_of_parse hwords hread

theorem missingFields_of_number {flavor : Signature.Flavor} (hflavor : flavor ≠ .generic)
    {b : RuleBody} (hb : Signature.Sheltered b) (level : Nat) (other : RuleBody) :
    (signature flavor).missingFields (Signature.ofBody b flavor level).1.text other =
      if Signature.losesNumber b flavor then ["sid"] else [] := by
  have hiff := Signature.losesNumber_iff_parse hb hflavor level
  by_cases hloses : Signature.losesNumber b flavor = true
  · obtain ⟨s, hread, hnone⟩ := hiff.mp hloses
    simp [missingFields, hread, hflavor, hnone, hloses]
  · rw [if_neg hloses]
    refine missingFields_of_reads (fun s hread => ?_) other
    rw [Signature.requiredOption, if_neg hflavor]
    exact Bool.not_eq_false _ ▸ fun hnone => hloses (hiff.mpr ⟨s, hread, hnone⟩)

end RuleExchange.Language

namespace RuleExchange.Platform

/-- The vendors of the platforms whose rules are documents, which keep their comments in
themselves. -/
theorem vendor_of_builtIn {p : Platform} (hp : p ∈ builtIn) {vendor : Document.Vendor}
    {readsQueries : Bool} (hl : p.language = .document vendor readsQueries) :
    vendor ∈ Document.vendors ∧ p.style = .jsonKey := by
  simp only [builtIn, List.mem_cons, List.not_mem_nil, or_false] at hp
  rcases hp with rfl | rfl | rfl | rfl | rfl | rfl | rfl | rfl | rfl | rfl | rfl <;>
    cases hl <;> exact ⟨by simp [Document.vendors], rfl⟩

/-- A signature with a header of words begins with its action and ends with a parenthesis. -/
theorem trimmed_text {s : Signature} (hwords : ∀ w ∈ s.headerWords, Signature.IsWord w) :
    Text.Trimmed s.text := by
  have haction : Signature.IsWord s.action := hwords _ (by simp [Signature.headerWords])
  constructor
  · simp only [Signature.text, Signature.headerWords, List.map_cons, Text.joinWith_cons_cons,
      List.append_assoc]
    exact Signature.stops_word haction _
  · rw [Signature.text, List.reverse_append]
    exact Text.stops_cons rfl _

/-- A document has every required key, whatever its body says, and nothing is missing from it after
its comments are taken out. A signature has the required option of its flavor. If its header is
made of words, its title is not missing from its text, and the text is looked at as it is when no
comment is found in it. If the expressions of its body can be quoted as well, its number is
missing from the text exactly if the references and the number are read as options without one;
and so they never are if each reference in front of the number can be read back. -/
theorem only_swallowed_numbers_are_missing (b : RuleBody) (c : Conversion) (notes : List String) :
    (∀ p ∈ builtIn, ∀ vendor readsQueries, p.language = .document vendor readsQueries →
      ∃ text warnings doc, p.language.render b c notes = .ok (text, warnings) ∧
        Document.members text = .ok doc ∧
        (∀ key ∈ vendor.requiredKeys, (Json.lookup key doc).isSome = true) ∧
        ∀ other, p.language.missingFields text other = [] ∧
          p.language.missingFields (Comment.strip p.style text).text other = []) ∧
    ∀ p ∈ builtIn, ∀ flavor, p.language = .signature flavor →
      let s := (Signature.ofBody b flavor c.level).1
      (∃ warnings, p.language.render b c notes = .ok (s.text, warnings)) ∧
      s.hasOption (if flavor = .generic then "msg" else "sid") = true ∧
      ((∀ w ∈ s.headerWords, Signature.IsWord w) →
        (flavor = .generic → ∀ other, p.language.missingFields s.text other = []) ∧
        (¬ Comment.Marked p.style s.text → (Comment.strip p.style s.text).text = s.text)) ∧
      (Signature.Sheltered b → ∀ other, p.language.missingFields s.text other =
        if Signature.losesNumber b flavor then ["sid"] else []) ∧
      ((∀ r ∈ b.references.takeWhile (·.1 ≠ "sid"),
          (Signature.referenceOption r.1 r.2).Writable) →
        Signature.losesNumber b flavor = false) := by
  constructor
  · intro p hp vendor readsQueries hl
    obtain ⟨hvendor, hstyle⟩ := vendor_of_builtIn hp hl
    let carried := if c.preserveComments then some notes else none
    obtain ⟨doc, hdoc, hsupplied⟩ := Document.supplied_render hvendor b carried
    have hnone := fun other =>
      Language.missingFields_document hvendor readsQueries b other carried
    refine ⟨_, _, doc, by rw [hl, Language.render], hdoc, fun key => hsupplied.isSome_lookup,
      fun other => ⟨hl ▸ hnone other, ?_⟩⟩
    rw [hstyle, hl, Comment.strip, Document.trim_render]
    exact hnone other
  · intro p hp flavor hl s
    rw [hl]
    refine ⟨⟨_, rfl⟩, Signature.hasOption_ofBody b flavor c.level, fun hwords => ⟨?_, ?_⟩,
      fun hb other => ?_, Signature.losesNumber_eq_false⟩
    · rintro rfl
      exact Language.missingFields_of_title hwords
    · intro hclear
      rw [(Comment.strip_eq_trim_iff p.style s.text).mpr hclear]
      exact Text.trim_of_trimmed (trimmed_text hwords)
    · by_cases hflavor : flavor = .generic
      · subst hflavor
        exact Language.missingFields_of_title (Signature.isWord_of_sheltered hb c.level) other
      · exact Language.missingFields_of_number hflavor hb c.level other

/-- A document and a signature of one body, neither of which lacks anything. -/
theorem bare_body_has_required_fields :
    let b : RuleBody :=
      { title := ""
        conditions := [⟨Field.hostname, .notEquals, "web"⟩, ⟨Field.commandLine, .equals, "*"⟩]
        references := [("event_simpleName", "x"), ("path", "C:\\Temp")] }
    let s := (Signature.ofBody b .snort 0).1
    (∃ text warnings doc,
      crowdstrike.language.render b { preserveComments := true } ["note"] = .ok (text, warnings) ∧
        Document.members text = .ok doc ∧
        ∀ key ∈ ["event_simpleName", "ComputerName", "CommandLine"],
          (Json.lookup key doc).isSome = true) ∧
      s.hasOption "sid" = true ∧ snort.language.missingFields s.text b = [] ∧
      (Comment.strip snort.style s.text).text = s.text := by
  intro b s
  have hcrowdstrike : crowdstrike ∈ builtIn := by simp [builtIn]
  have hsnort : snort ∈ builtIn := by simp [builtIn]
  obtain ⟨hdocuments, -⟩ :=
    only_swallowed_numbers_are_missing b { preserveComments := true } ["note"]
  obtain ⟨text, warnings, doc, hrender, hdoc, hkeys, -⟩ :=
    hdocuments crowdstrike hcrowdstrike .crowdstrike false rfl
  have hnames : Document.Vendor.crowdstrike.requiredKeys =
      ["event_simpleName", "ComputerName", "CommandLine"] := by decide +kernel
  obtain ⟨-, hsignatures⟩ := only_swallowed_numbers_are_missing b {} []
  obtain ⟨-, hsid, htext, hmissing, hloses⟩ := hsignatures snort hsnort .snort rfl
  have hkept : Signature.losesNumber b .snort = false := hloses (by decide +kernel)
  have hclear : ¬ Comment.Marked snort.style s.text :=
    (Comment.strip_eq_trim_iff _ _).mp (by decide +kernel)
  have hnone := hmissing (by decide +kernel) b
  rw [hkept] at hnone
  exact ⟨⟨text, warnings, doc, hrender, hdoc, hnames ▸ hkeys⟩, hsid, hnone,
    (htext (by decide +kernel)).2 hclear⟩

/-- The backslash at the end of a reference takes the semicolon behind it and the number into the
value of the reference. -/
theorem trailing_backslash_swallows_number :
    let b : RuleBody := { title := "t", references := [("path", "C:\\Temp\\")] }
    let text := "alert ip any any -> any any (msg:\"t\"; path:C:\\Temp\\; sid:821587597; rev:1;)"
    (Signature.ofBody b .snort 0).1.hasOption "sid" = true ∧
      snort.language.render b {} [] = .ok (text.toList, (Signature.ofBody b .snort 0).2) ∧
      Signature.losesNumber b .snort = true ∧
      snort.language.missingFields text.toList b = ["sid"] := by
  decide +kernel

end RuleExchange.Platform
