import RuleExchange.Proofs.Members
import RuleExchange.Proofs.TextReading
import RuleExchange.Signature.Body

/-! Bodies survive the way to a signature and back. Conditions on addresses move into the
open places of the header and come out of it in the order of the header; each other
condition becomes one content option with its flags, which leave exactly that
condition behind; references become options that nothing else looks at. -/

namespace RuleExchange.Signature

/-! ### Addresses -/

/-- The address that stands in a header for a condition. -/
def addressText (c : Condition) : String :=
  match c.operator with
  | .notEquals => "!" ++ c.value
  | _ => c.value

/-- A condition that an explicit address stands for. -/
def IsAddressCondition (c : Condition) : Prop :=
  match c.operator with
  | .equals => isExplicitAddress c.value = true ∧ c.value.toList.head? ≠ some '!'
  | .notEquals => isExplicitAddress ("!" ++ c.value) = true
  | _ => False

instance : DecidablePred IsAddressCondition := fun ⟨_, op, value⟩ =>
  match op with
  | .equals =>
    inferInstanceAs (Decidable (isExplicitAddress value = true ∧ value.toList.head? ≠ some '!'))
  | .notEquals => inferInstanceAs (Decidable (isExplicitAddress ("!" ++ value) = true))
  | .contains | .startsWith | .endsWith | .regex => inferInstanceAs (Decidable False)

theorem isExplicitAddress_addressText {c : Condition} (h : IsAddressCondition c) :
    isExplicitAddress (addressText c) = true := by
  obtain ⟨field, op, value⟩ := c
  cases op with
  | equals => exact h.1
  | notEquals => exact h
  | _ => exact h.elim

theorem addressCondition_addressText {c : Condition} (h : IsAddressCondition c) :
    addressCondition c.field (addressText c) = c := by
  obtain ⟨field, op, value⟩ := c
  cases op with
  | equals =>
    have hmark : ∀ rest, value.toList ≠ '!' :: rest := by
      intro rest he
      exact h.2 (by rw [he]; rfl)
    simp only [addressCondition, addressText]
  | notEquals => simp [addressCondition, addressText]
  | _ => exact h.elim

theorem absorb_eq_setAddress {c : Condition} (h : IsAddressCondition c) (header : NetworkHeader) :
    absorb header c = setAddress header c.field (addressText c) := by
  obtain ⟨field, op, value⟩ := c
  cases op with
  | equals => rfl
  | notEquals => rfl
  | _ => exact h.elim

/-- What stands at the place of a field once the conditions are taken up. -/
def placed (cs : List Condition) (field old : String) : String :=
  match cs.find? (·.field == field) with
  | some c => addressText c
  | none => old

theorem placed_cons (c : Condition) (cs : List Condition) (field old : String) :
    placed (c :: cs) field old =
      if c.field = field then addressText c else placed cs field old := by
  by_cases h : c.field = field <;> simp [placed, h]

theorem placed_of_notMem {cs : List Condition} {field : String}
    (h : field ∉ cs.map Condition.field) (old : String) : placed cs field old = old := by
  have hnone : cs.find? (·.field == field) = none := by
    simpa using h
  rw [placed, hnone]

theorem exists_placed {cs : List Condition} {field : String}
    (h : field ∈ cs.map Condition.field) (old : String) :
    ∃ c ∈ cs, placed cs field old = addressText c := by
  obtain ⟨c, hc, hfield⟩ := List.mem_map.mp h
  have hsome : (cs.find? (·.field == field)).isSome := by
    simpa using ⟨c, hc, hfield⟩
  obtain ⟨d, hd⟩ := Option.isSome_iff_exists.mp hsome
  exact ⟨d, List.mem_of_find?_eq_some hd, by rw [placed, hd]⟩

def fillHeader (cs : List Condition) (h : NetworkHeader) : NetworkHeader :=
  { h with
    source := placed cs Field.sourceIp h.source
    sourcePort := placed cs Field.sourcePort h.sourcePort
    destination := placed cs Field.destinationIp h.destination
    destinationPort := placed cs Field.destinationPort h.destinationPort }

theorem addresses_fillHeader (cs : List Condition) (h : NetworkHeader) :
    addresses (fillHeader cs h) = (addresses h).map fun p => (p.1, placed cs p.1 p.2) := rfl

/-- The fields that have a place in a header, in its order. -/
def addressFields : List String :=
  [Field.sourceIp, Field.sourcePort, Field.destinationIp, Field.destinationPort]

theorem nodup_addressFields : addressFields.Nodup := by decide

/-- Taking up one condition and then others is taking up all of them. -/
theorem exists_setAddress {c : Condition} {cs : List Condition} (hc : c.field ∈ addressFields)
    (hcs : c.field ∉ cs.map Condition.field) (h : NetworkHeader) :
    ∃ h', setAddress h c.field (addressText c) = some h' ∧
      fillHeader cs h' = fillHeader (c :: cs) h := by
  have hown := placed_of_notMem hcs (addressText c)
  have hdistinct := nodup_addressFields
  simp only [addressFields, List.nodup_cons, List.mem_cons, List.not_mem_nil, or_false, not_or]
    at hdistinct hc
  obtain ⟨⟨h₁₂, h₁₃, h₁₄⟩, ⟨h₂₃, h₂₄⟩, h₃₄, -⟩ := hdistinct
  rcases hc with hf | hf | hf | hf <;> rw [hf] at hown ⊢ <;>
    exact ⟨_, rfl, by simp [fillHeader, placed_cons, *, Ne.symm]⟩

theorem foldl_add_addresses (flavor : Flavor) {cs : List Condition}
    (haddress : ∀ c ∈ cs, IsAddressCondition c) (hfields : ∀ c ∈ cs, c.field ∈ addressFields)
    (hnodup : (cs.map Condition.field).Nodup) (d : Draft) :
    cs.foldl (Draft.add flavor) d = { d with header := fillHeader cs d.header } := by
  induction cs generalizing d with
  | nil => rfl
  | cons c cs ih =>
    rw [List.map_cons, List.nodup_cons] at hnodup
    obtain ⟨h', hset, hfill⟩ := exists_setAddress (hfields c (by simp)) hnodup.1 d.header
    have hadd : d.add flavor c = { d with header := h' } := by
      rw [Draft.add, absorb_eq_setAddress (haddress c (by simp)), hset]
    rw [List.foldl_cons, hadd, ih (fun x hx => haddress x (by simp [hx]))
      (fun x hx => hfields x (by simp [hx])) hnodup.2, hfill]

/-- A place of the header is open for a condition, or has nothing that would become one. -/
def PlaceFree (cs : List Condition) (place : String × String) : Prop :=
  if place.1 ∈ cs.map Condition.field then place.2 = "any" else isExplicitAddress place.2 = false

instance (cs : List Condition) (place : String × String) : Decidable (PlaceFree cs place) :=
  inferInstanceAs (Decidable (ite ..))

/-- The conditions come out of their places, in the order of the places. -/
theorem conditions_of_places {places : List (String × String)} {cs : List Condition}
    (haddress : ∀ c ∈ cs, IsAddressCondition c)
    (horder : (cs.map Condition.field).Sublist (places.map Prod.fst))
    (hnodup : (places.map Prod.fst).Nodup) (hfree : ∀ p ∈ places, PlaceFree cs p) :
    (((places.map fun p => (p.1, placed cs p.1 p.2)).filter fun (_, v) => isExplicitAddress v).map
      fun (f, v) => addressCondition f v) = cs := by
  induction places generalizing cs with
  | nil =>
    have hnil : cs = [] := by simpa using horder
    simp [hnil]
  | cons p places ih =>
    obtain ⟨field, old⟩ := p
    rw [List.map_cons, List.nodup_cons] at hnodup
    obtain ⟨hfresh, hnodup⟩ := hnodup
    rw [List.forall_mem_cons] at hfree
    obtain ⟨hplace, hfree⟩ := hfree
    rw [List.map_cons, List.sublist_cons_iff] at horder
    rcases horder with horder | ⟨fields, hfields, horder⟩
    · have hnot : field ∉ cs.map Condition.field := fun hmem => hfresh (horder.subset hmem)
      have hold : isExplicitAddress old = false := by simpa [PlaceFree, hnot] using hplace
      rw [List.map_cons, List.filter_cons_of_neg (by simp [placed_of_notMem hnot, hold])]
      exact ih haddress horder hnodup hfree
    · obtain ⟨c, cs, rfl, rfl, rfl⟩ := List.map_eq_cons_iff.mp hfields
      rw [List.forall_mem_cons] at haddress
      have hne : ∀ p ∈ places, c.field ≠ p.1 := by
        intro p hp he
        exact hfresh (List.mem_map.mpr ⟨p, hp, he.symm⟩)
      -- the other places do not see the condition
      have hrest : (places.map fun p => (p.1, placed (c :: cs) p.1 p.2)) =
          places.map fun p => (p.1, placed cs p.1 p.2) :=
        List.map_congr_left fun p hp => by rw [placed_cons, if_neg (hne p hp)]
      have hfree' : ∀ p ∈ places, PlaceFree cs p := fun p hp => by
        simpa [PlaceFree, (hne p hp).symm] using hfree p hp
      have hplaced : placed (c :: cs) c.field old = addressText c := by simp [placed_cons]
      have hexplicit := isExplicitAddress_addressText haddress.1
      rw [List.map_cons, hplaced, hrest, List.filter_cons_of_pos (by simp [hexplicit]),
        List.map_cons, ih haddress.2 horder hnodup hfree']
      simp [addressCondition_addressText haddress.1]

/-- Taking the addresses out again opens the places they were put into. -/
theorem openAddress_placed {cs : List Condition} (haddress : ∀ c ∈ cs, IsAddressCondition c)
    {field old : String} (hfree : PlaceFree cs (field, old)) :
    openAddress (placed cs field old) = old := by
  by_cases hmem : field ∈ cs.map Condition.field
  · have hold : old = "any" := by simpa [PlaceFree, hmem] using hfree
    obtain ⟨c, hc, hplaced⟩ := exists_placed hmem old
    rw [hplaced, openAddress, if_pos (isExplicitAddress_addressText (haddress c hc)), hold]
  · have hold : isExplicitAddress old = false := by simpa [PlaceFree, hmem] using hfree
    simp [placed_of_notMem hmem, openAddress, hold]

theorem openHeader_fillHeader {cs : List Condition} (haddress : ∀ c ∈ cs, IsAddressCondition c)
    {h : NetworkHeader} (hfree : ∀ p ∈ addresses h, PlaceFree cs p) :
    openHeader (fillHeader cs h) = h := by
  simp only [addresses, List.forall_mem_cons, List.not_mem_nil, false_imp_iff, implies_true,
    and_true] at hfree
  obtain ⟨hsource, hsourcePort, hdestination, hdestinationPort⟩ := hfree
  simp [openHeader, fillHeader, openAddress_placed haddress, hsource, hsourcePort, hdestination,
    hdestinationPort]

theorem headerConditions_fillHeader {cs : List Condition}
    (haddress : ∀ c ∈ cs, IsAddressCondition c)
    (horder : (cs.map Condition.field).Sublist addressFields) {h : NetworkHeader}
    (hfree : ∀ p ∈ addresses h, PlaceFree cs p) : headerConditions (fillHeader cs h) = cs := by
  rw [headerConditions, addresses_fillHeader]
  exact conditions_of_places haddress horder nodup_addressFields hfree

/-! ### Contents -/

/-- A condition that a content option with its flags stands for. -/
def IsContentCondition (c : Condition) : Prop :=
  c.field ∈ [Field.payload, Field.httpUri, Field.dnsQuery] ∧
    match c.operator with
    | .equals => False
    | .regex => '/' ∉ c.value.toList
    | _ => True

instance : DecidablePred IsContentCondition := fun ⟨field, op, value⟩ =>
  have (p : Prop) [Decidable p] :
      Decidable (field ∈ [Field.payload, Field.httpUri, Field.dnsQuery] ∧ p) := inferInstance
  match op with
  | .equals => this False
  | .regex => this ('/' ∉ value.toList)
  | .notEquals | .contains | .startsWith | .endsWith => this True

theorem guardChar_of_notMem {x : Char} {v : List Char} (h : x ∉ v) : guardChar x v = v := by
  induction v with
  | nil => rfl
  | cons c cs ih =>
    rw [List.mem_cons, not_or] at h
    have hrest := ih h.2
    simp_all [guardChar, Ne.symm h.1]

/-- Reading an expression finds the slashes around it and leaves the guards inside. -/
theorem pcreBody_pcreValue_eq_guardChar (v : List Char) :
    pcreBody (pcreValue v) = guardChar '/' v := by
  have hblank : Text.isBlank '/' = false := by decide
  have htrimmed : Text.Trimmed ('/' :: guardChar '/' v ++ ['/']) :=
    ⟨Text.stops_cons hblank _, by simpa using Text.stops_cons hblank _⟩
  rw [pcreValue, pcreBody, Text.trim_of_trimmed htrimmed]
  simp [Text.dropEndWhile]

theorem pcreBody_pcreValue {v : List Char} (h : '/' ∉ v) : pcreBody (pcreValue v) = v := by
  rw [pcreBody_pcreValue_eq_guardChar, guardChar_of_notMem h]

theorem modifyLast_append (f : Condition → Condition) (cs : List Condition) (c : Condition) :
    modifyLast f (cs ++ [c]) = cs ++ [f c] := by
  induction cs with
  | nil => rfl
  | cons d ds ih => cases ds <;> simp_all [modifyLast]

namespace Reading

@[simp] theorem option_flag {key : String} (h : key ≠ "msg") (r : Reading) :
    r.option (.flag key) = r.flag key := by
  simp [option, RuleOption.flag, h]

@[simp] theorem option_pair {key : String} (h : key ≠ "msg") (r : Reading) (value : String) :
    r.option (.pair key value) = r.pair key value false := by
  simp [option, RuleOption.pair, h]

@[simp] theorem option_negatedPair {key : String} (h : key ≠ "msg") (r : Reading)
    (value : String) : r.option (.negatedPair key value) = r.pair key value true := by
  simp [option, RuleOption.negatedPair, h]

theorem push_retarget (r : Reading) (c : Condition) (field : String) :
    (r.push c).change (retargetLast field) = r.push { c with field } := by
  simp [push, change, retargetLast, modifyLast_append]

theorem push_reshape (r : Reading) {c : Condition} (hc : c.operator = .contains) (op : Operator) :
    (r.push c).change (reshapeLast op) = r.push { c with operator := op } := by
  simp [push, change, reshapeLast, modifyLast_append, hc]

end Reading

theorem foldl_contentOptions {r : Reading} (hr : r.buffer = none) {c : Condition}
    (hc : IsContentCondition c) :
    (contentOptions .suricata c).foldl Reading.option r =
      r.push { c with field := Field.payload } := by
  have hfield : r.field = Field.payload := by simp [Reading.field, hr]
  obtain ⟨field, op, value⟩ := c
  cases op with
  | equals => exact hc.2.elim
  | notEquals => simp [contentOptions, Reading.pair, hfield]
  | contains => simp [contentOptions, Reading.pair, hfield]
  | startsWith => simp [contentOptions, Reading.pair, Reading.flag, Reading.push_reshape, hfield]
  | endsWith => simp [contentOptions, Reading.pair, Reading.flag, Reading.push_reshape, hfield]
  | regex =>
    have hvalue : pcreBody (pcreValue value.toList) = value.toList := pcreBody_pcreValue hc.2
    simp [contentOptions, pcreOption, Reading.pair, hvalue, hfield]

theorem foldl_fieldOptions (r : Reading) {c : Condition}
    (hc : c.field ∈ [Field.payload, Field.httpUri, Field.dnsQuery]) :
    (fieldOptions c.field).foldl Reading.option (r.push { c with field := Field.payload }) =
      r.push c := by
  obtain ⟨field, op, value⟩ := c
  have hpayload : fieldOptions Field.payload = [] := by decide
  have huri : fieldOptions Field.httpUri = [.flag "http_uri"] := by decide
  have hquery : fieldOptions Field.dnsQuery = [.flag "dns_query"] := by decide
  simp only [List.mem_cons, List.not_mem_nil, or_false] at hc
  rcases hc with rfl | rfl | rfl
  · rw [hpayload]
    rfl
  · simp [huri, Reading.flag, Reading.push_retarget]
  · simp [hquery, Reading.flag, Reading.push_retarget]

/-- The options that a condition becomes. -/
def conditionOptions (c : Condition) : List RuleOption :=
  contentOptions .suricata c ++ fieldOptions c.field

theorem foldl_conditionOptions {cs : List Condition} (hcs : ∀ c ∈ cs, IsContentCondition c)
    {r : Reading} (hr : r.buffer = none) :
    (cs.flatMap conditionOptions).foldl Reading.option r = cs.foldl Reading.push r := by
  induction cs generalizing r with
  | nil => rfl
  | cons c cs ih =>
    rw [List.forall_mem_cons] at hcs
    have hone : (conditionOptions c).foldl Reading.option r = r.push c := by
      rw [conditionOptions, List.foldl_append, foldl_contentOptions hr hcs.1,
        foldl_fieldOptions r hcs.1.1]
    have hbuffer : (r.push c).buffer = none := hr
    rw [List.flatMap_cons, List.foldl_append, hone, ih hcs.2 hbuffer, List.foldl_cons]

theorem foldl_push (cs : List Condition) (r : Reading) :
    cs.foldl Reading.push r =
      { r with body := { r.body with conditions := r.body.conditions ++ cs } } := by
  induction cs generalizing r with
  | nil => simp
  | cons c cs ih => simp [ih, Reading.push]

theorem setAddress_of_notMem {field : String} (h : field ∉ addressFields) (header : NetworkHeader)
    (value : String) : setAddress header field value = none := by
  simp only [addressFields, List.mem_cons, List.not_mem_nil, or_false, not_or] at h
  simp [setAddress, h]

/-- Conditions on other fields leave the header alone and become options. -/
theorem foldl_add_contents {cs : List Condition} (hcs : ∀ c ∈ cs, c.field ∉ addressFields)
    (d : Draft) :
    (cs.foldl (Draft.add .suricata) d).header = d.header ∧
      (cs.foldl (Draft.add .suricata) d).options = d.options ++ cs.flatMap conditionOptions := by
  induction cs generalizing d with
  | nil => simp
  | cons c cs ih =>
    rw [List.forall_mem_cons] at hcs
    have habsorb : absorb d.header c = none := by
      rw [absorb]
      split <;> simp [setAddress_of_notMem hcs.1]
    obtain ⟨hheader, hoptions⟩ := ih hcs.2 (d.add .suricata c)
    rw [List.foldl_cons, hheader, hoptions, Draft.add, habsorb]
    simp [conditionOptions]

/-! ### The fast pattern -/

theorem option_fastPattern (r : Reading) : r.option (.flag "fast_pattern") = r := by
  simp [Reading.flag, ignoredModifiers]

/-- The mark of the fast pattern is passed over wherever it stands. -/
theorem foldl_addFastPattern (options : List RuleOption) (r : Reading) :
    (addFastPattern options).foldl Reading.option r = options.foldl Reading.option r := by
  rw [addFastPattern]
  split
  · rfl
  · rename_i i _ _
    rw [List.foldl_append, List.foldl_cons, option_fastPattern, ← List.foldl_append,
      List.take_append_drop]

theorem head?_addFastPattern (o : RuleOption) (options : List RuleOption) :
    (addFastPattern (o :: options)).head? = some o := by
  rw [addFastPattern]
  split <;> simp

/-! ### References -/

/-- The keys of the options that a body has no reference for. -/
def reservedKeys : List String :=
  ["msg", "content", "uricontent", "pcre", "http_uri", "dns_query", "startswith", "endswith"] ++
    ignoredModifiers

/-- A reference that its option gives back. A flag with a dot in its key names a buffer. -/
structure IsKept (key value : String) : Prop where
  free : key ∉ reservedKeys
  undotted : value = "" → '.' ∉ key.toList

instance (key value : String) : Decidable (IsKept key value) :=
  decidable_of_iff (key ∉ reservedKeys ∧ (value = "" → '.' ∉ key.toList))
    ⟨fun ⟨hf, hd⟩ => ⟨hf, hd⟩, fun ⟨hf, hd⟩ => ⟨hf, hd⟩⟩

theorem option_referenceOption {key value : String} (h : IsKept key value) (r : Reading) :
    r.option (referenceOption key value) = r.reference key value := by
  have hfree := h.free
  simp only [reservedKeys, List.mem_append, List.mem_cons, List.not_mem_nil, or_false, not_or]
    at hfree
  obtain ⟨⟨hmsg, hcontent, huricontent, hpcre, huri, hquery, hstart, hend⟩, hignored⟩ := hfree
  by_cases hv : value = ""
  · have hdot := h.undotted hv
    have hhttp : key ≠ "http.uri" := by
      rintro rfl
      exact hdot (by decide)
    have hdns : key ≠ "dns.query" := by
      rintro rfl
      exact hdot (by decide)
    simp [referenceOption, Reading.flag, *]
  · simp [referenceOption, Reading.pair, *]

/-- References in order are put one behind the other. -/
theorem foldl_references {refs : List (String × String)} (hkept : ∀ p ∈ refs, IsKept p.1 p.2)
    {r : Reading} (hordered : Json.OrderedByKey (r.body.references ++ refs)) :
    (refs.map fun (k, v) => referenceOption k v).foldl Reading.option r =
      { r with body := { r.body with references := r.body.references ++ refs } } := by
  induction refs generalizing r with
  | nil => simp
  | cons p refs ih =>
    obtain ⟨key, value⟩ := p
    rw [List.forall_mem_cons] at hkept
    have hlast : ∀ m ∈ r.body.references, m.1 < key := fun m hm =>
      (List.pairwise_append.mp hordered).2.2 m hm (key, value) (by simp)
    have hone : r.reference key value =
        { r with body := { r.body with references := r.body.references ++ [(key, value)] } } := by
      rw [Reading.reference, RuleBody.addReference_of_last hlast]
    rw [List.map_cons, List.foldl_cons, option_referenceOption hkept.1, hone,
      ih hkept.2 (by simpa using hordered)]
    simp

/-! ### The way to a signature and back -/

/-- A body as signatures have them: the header takes up the `addressed` conditions, and `contents`
are the others. -/
structure Shaped (b : RuleBody) (h : NetworkHeader) (addressed contents : List Condition) :
    Prop where
  title_not_blank : Text.isBlankString b.title = false
  has_action : b.action.isSome = true
  no_stages : b.stages = []
  network_eq : b.network = some h
  event_eq : b.event = some (if Text.sameText h.protocol "dns" then "dns" else "network")
  conditions_eq : b.conditions = addressed ++ contents
  not_match_all : ∀ c ∈ b.conditions, c.isMatchAll = false
  address_order : (addressed.map Condition.field).Sublist addressFields
  address_conditions : ∀ c ∈ addressed, IsAddressCondition c
  content_conditions : ∀ c ∈ contents, IsContentCondition c
  places_free : ∀ p ∈ addresses h, PlaceFree addressed p
  has_sid : hasReference b "sid" = true
  references_kept : ∀ p ∈ b.references, IsKept p.1 p.2

def SignatureShape (b : RuleBody) : Prop := ∃ h addressed contents, Shaped b h addressed contents

theorem notMem_addressFields {c : Condition} (hc : IsContentCondition c) :
    c.field ∉ addressFields := by
  have hall : ∀ f ∈ [Field.payload, Field.httpUri, Field.dnsQuery], f ∉ addressFields := by decide
  exact hall c.field hc.1

/-- The options of a body before its references: the title, then the contents, one of them marked
as the fast pattern from the second level on. -/
def leadingOptions (b : RuleBody) (contents : List Condition) (level : Nat) : List RuleOption :=
  let options := .pair "msg" b.title :: contents.flatMap conditionOptions
  if 2 ≤ level then addFastPattern options else options

theorem foldl_leadingOptions (b : RuleBody) (contents : List Condition) (level : Nat)
    (r : Reading) :
    (leadingOptions b contents level).foldl Reading.option r =
      (contents.flatMap conditionOptions).foldl Reading.option r := by
  have hmsg : r.option (.pair "msg" b.title) = r := by simp [Reading.option, RuleOption.pair]
  rw [leadingOptions]
  split <;> simp [foldl_addFastPattern, hmsg]

theorem head?_leadingOptions (b : RuleBody) (contents : List Condition) (level : Nat) :
    (leadingOptions b contents level).head? = some (.pair "msg" b.title) := by
  rw [leadingOptions]
  split
  · exact head?_addFastPattern _ _
  · rfl

theorem option?_of_head? {s : Signature} {o : RuleOption} (h : s.options.head? = some o) :
    s.option? o.key = o.value := by
  obtain ⟨os, hos⟩ := List.head?_eq_some_iff.mp h
  simp [option?, hos]

namespace Shaped

variable {b : RuleBody} {h : NetworkHeader} {addressed contents : List Condition}

theorem foldl_add (hb : Shaped b h addressed contents) (options : List RuleOption)
    (warnings : List Warning) :
    let draft := (addressed ++ contents).foldl (Draft.add .suricata) ⟨h, options, warnings⟩
    draft.header = fillHeader addressed h ∧
      draft.options = options ++ contents.flatMap conditionOptions := by
  have hfields : ∀ c ∈ addressed, c.field ∈ addressFields := fun c hc =>
    hb.address_order.subset (List.mem_map_of_mem hc)
  have hnodup := hb.address_order.nodup nodup_addressFields
  rw [List.foldl_append, foldl_add_addresses .suricata hb.address_conditions hfields hnodup]
  exact foldl_add_contents (fun c hc => notMem_addressFields (hb.content_conditions c hc)) _

theorem ofBody_eq (hb : Shaped b h addressed contents) (level : Nat) :
    (ofBody b .suricata level).1 =
      { action := b.action.getD "alert"
        header := fillHeader addressed h
        options := leadingOptions b contents level ++
          b.references.map fun (k, v) => referenceOption k v } := by
  have hfilter : b.conditions.filter (fun c => !c.isMatchAll) = addressed ++ contents := by
    rw [List.filter_eq_self.mpr fun c hc => by simp [hb.not_match_all c hc], hb.conditions_eq]
  have hneeds : needsSid .suricata b = false := by simp [needsSid, hb.has_sid]
  obtain ⟨hheader, hoptions⟩ := hb.foldl_add [.pair "msg" b.title] []
  simp only [ofBody, hb.title_not_blank, hb.network_eq, hfilter, hneeds, Bool.false_eq_true,
    if_false, Option.getD_some, List.append_nil, hheader, hoptions, leadingOptions,
    List.singleton_append]

theorem titleOf_ofBody (hb : Shaped b h addressed contents) (level : Nat) :
    titleOf (ofBody b .suricata level).1 = b.title := by
  have hhead : (ofBody b .suricata level).1.options.head? = some (.pair "msg" b.title) := by
    simp [hb.ofBody_eq level, head?_leadingOptions]
  have hmsg : (ofBody b .suricata level).1.option? "msg" = some b.title := option?_of_head? hhead
  simp [titleOf, hmsg, hb.title_not_blank]

theorem headerBody_ofBody (hb : Shaped b h addressed contents) (level : Nat) :
    headerBody (ofBody b .suricata level).1 =
      { b with conditions := addressed, references := [] } := by
  obtain ⟨action, haction⟩ := Option.isSome_iff_exists.mp hb.has_action
  have hconditions := headerConditions_fillHeader hb.address_conditions hb.address_order
    hb.places_free
  have hopen := openHeader_fillHeader hb.address_conditions hb.places_free
  have hevent : some (eventOf (fillHeader addressed h).protocol) = b.event := hb.event_eq.symm
  rw [headerBody, hb.titleOf_ofBody level, hb.ofBody_eq level]
  simp [hconditions, hopen, hevent, haction, hb.network_eq, hb.no_stages]

end Shaped

/-- A body of the shape of a signature comes back from its signature as it was, at every level. -/
theorem shaped_body_survives {b : RuleBody} (hb : SignatureShape b)
    (ho : Json.OrderedByKey b.references) (level : Nat) :
    (ofBody b .suricata level).1.toBody = b := by
  obtain ⟨h, addressed, contents, hs⟩ := hb
  rw [toBody, hs.headerBody_ofBody level, hs.ofBody_eq level]
  simp only [List.foldl_append, foldl_leadingOptions]
  rw [foldl_conditionOptions hs.content_conditions rfl, foldl_push,
    foldl_references hs.references_kept (by simpa using ho)]
  simp [← hs.conditions_eq]

theorem mixed_body_survives :
    let b : RuleBody :=
      { title := "beacon"
        action := some "drop"
        event := some "dns"
        network := some { protocol := "DNS", source := "$HOME_NET", direction := "<>" }
        conditions := [⟨Field.sourcePort, .notEquals, "!53"⟩,
          ⟨Field.destinationIp, .equals, "10.0.0.1"⟩, ⟨Field.httpUri, .startsWith, "/a"⟩,
          ⟨Field.payload, .regex, "^x\\."⟩, ⟨Field.dnsQuery, .notEquals, "*b"⟩,
          ⟨Field.dnsQuery, .contains, "longest"⟩]
        references := [("flow.bits", "set"), ("noalert", ""), ("rev", "2"), ("sid", "")] }
    SignatureShape b ∧ Json.OrderedByKey b.references ∧ (ofBody b .suricata 2).1.toBody = b := by
  intro b
  have hb : SignatureShape b :=
    ⟨_, b.conditions.take 2, b.conditions.drop 2,
      { title_not_blank := by decide +kernel
        has_action := rfl
        no_stages := rfl
        network_eq := rfl
        event_eq := by decide +kernel
        conditions_eq := rfl
        not_match_all := by decide +kernel
        address_order := by decide +kernel
        address_conditions := by decide +kernel
        content_conditions := by decide +kernel
        places_free := by decide +kernel
        has_sid := by decide +kernel
        references_kept := by decide +kernel }⟩
  have ho : Json.OrderedByKey b.references := by decide +kernel
  exact ⟨hb, ho, shaped_body_survives hb ho 2⟩

end RuleExchange.Signature
