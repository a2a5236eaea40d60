import RuleExchange.Proofs.SignatureBody
import RuleExchange.Proofs.SignatureText
import Mathlib.Data.List.Perm.Subperm

/-! What a signature keeps of the conditions of a body. Every condition that becomes an option
comes back as one condition. A place of the header holds one address, so of several
conditions on one address only the last is left. A regular expression comes back with
its slashes guarded: writing guards them, and reading takes no guard away. -/

namespace RuleExchange.Signature

/-! ### Options and the conditions read so far -/

/-- What a flag does to the conditions before it. -/
def flagEdit (key : String) : List Condition → List Condition :=
  if key = "http_uri" then retargetLast Field.httpUri
  else if key = "dns_query" then retargetLast Field.dnsQuery
  else if key = "startswith" then reshapeLast .startsWith
  else if key = "endswith" then reshapeLast .endsWith
  else id

/-- An option that becomes a condition. -/
def RuleOption.detects (o : RuleOption) : Bool :=
  o.value.isSome && ["content", "uricontent", "pcre"].contains o.key

/-- An option that becomes a condition or changes the one before it. -/
def RuleOption.touches (o : RuleOption) : Bool :=
  o.detects || o.value.isNone && ["http_uri", "dns_query", "startswith", "endswith"].contains o.key

theorem length_modifyLast (f : Condition → Condition) (cs : List Condition) :
    (modifyLast f cs).length = cs.length := by
  fun_induction modifyLast f cs <;> simp_all

theorem length_flagEdit (key : String) (cs : List Condition) :
    (flagEdit key cs).length = cs.length := by
  unfold flagEdit
  repeat' split
  all_goals simp [retargetLast, reshapeLast, length_modifyLast]

theorem conditions_addReference (b : RuleBody) (key value : String) :
    (b.addReference key value).conditions = b.conditions := by
  rw [RuleBody.addReference]
  split <;> rfl

namespace Reading

theorem conditions_flag (r : Reading) (key : String) :
    (r.flag key).body.conditions = flagEdit key r.body.conditions := by
  unfold flag flagEdit
  repeat' split
  all_goals simp [change, reference, conditions_addReference]

/-- An option with a value adds one condition or none, as it detects something or not. -/
theorem conditions_pair (r : Reading) (key value : String) (negated : Bool) :
    ∃ cs, (r.pair key value negated).body.conditions = r.body.conditions ++ cs ∧
      cs.length = if (RuleOption.pair key value).detects then 1 else 0 := by
  unfold pair
  repeat' split
  all_goals
    simp_all [push, reference, conditions_addReference, RuleOption.detects, RuleOption.pair]

theorem length_option (r : Reading) (o : RuleOption) :
    (r.option o).body.conditions.length =
      r.body.conditions.length + if o.detects then 1 else 0 := by
  obtain ⟨key, value, negated⟩ := o
  by_cases hmsg : key = "msg"
  · simp [option, hmsg, RuleOption.detects]
  · cases value with
    | none => simp [option, hmsg, conditions_flag, length_flagEdit, RuleOption.detects]
    | some v =>
      obtain ⟨cs, hcs, hlength⟩ := conditions_pair r key v negated
      simp only [option, hmsg, if_false, hcs, List.length_append, hlength]
      rfl

theorem length_foldl_option (os : List RuleOption) (r : Reading) :
    (os.foldl option r).body.conditions.length =
      r.body.conditions.length + os.countP RuleOption.detects := by
  induction os generalizing r with
  | nil => rfl
  | cons o os ih =>
    rw [List.foldl_cons, ih, length_option, List.countP_cons]
    omega

theorem conditions_option {o : RuleOption} (h : o.touches = false) (r : Reading) :
    (r.option o).body.conditions = r.body.conditions := by
  obtain ⟨key, value, negated⟩ := o
  simp only [RuleOption.touches, Bool.or_eq_false_iff] at h
  by_cases hmsg : key = "msg"
  · simp [option, hmsg]
  · cases value with
    | none => simp_all [option, conditions_flag, flagEdit]
    | some v =>
      obtain ⟨cs, hcs, hlength⟩ := conditions_pair r key v negated
      have hnone : (RuleOption.pair key v).detects = false := h.1
      have hnil : cs = [] := by simpa [hnone] using hlength
      simp [option, hmsg, hcs, hnil]

theorem conditions_foldl_option {os : List RuleOption} (h : ∀ o ∈ os, o.touches = false)
    (r : Reading) : (os.foldl option r).body.conditions = r.body.conditions := by
  induction os generalizing r with
  | nil => rfl
  | cons o os ih =>
    rw [List.forall_mem_cons] at h
    rw [List.foldl_cons, ih h.2, conditions_option h.1]

end Reading

/-! ### Conditions that go into the header -/

/-- A condition that has a place in the header. -/
def isAddressed (c : Condition) : Bool :=
  (c.operator = .equals || c.operator = .notEquals) && addressFields.contains c.field

/-- The header after a condition was put into it, if it has a place there. -/
def place (h : NetworkHeader) (c : Condition) : NetworkHeader := (absorb h c).getD h

theorem exists_setAddress_eq {field : String} (hf : field ∈ addressFields) (h : NetworkHeader)
    (value : String) :
    ∃ h', setAddress h field value = some h' ∧
      addresses h' = (addresses h).map fun p => (p.1, if p.1 = field then value else p.2) := by
  simp only [addressFields, List.mem_cons, List.not_mem_nil, or_false] at hf
  rcases hf with rfl | rfl | rfl | rfl <;> exact ⟨_, rfl, rfl⟩

theorem absorb_of_addressed {c : Condition} (hc : isAddressed c = true) (h : NetworkHeader) :
    absorb h c = some (place h c) ∧
      addresses (place h c) =
        (addresses h).map fun p => (p.1, if p.1 = c.field then addressText c else p.2) := by
  obtain ⟨field, op, value⟩ := c
  simp only [isAddressed, Bool.and_eq_true, List.contains_iff_mem] at hc
  obtain ⟨hop, hfield⟩ := hc
  have habsorb : absorb h ⟨field, op, value⟩ =
      setAddress h field (addressText ⟨field, op, value⟩) := by
    cases op <;> simp_all [absorb, addressText]
  obtain ⟨h', hset, haddresses⟩ := exists_setAddress_eq hfield h (addressText ⟨field, op, value⟩)
  have hplace : place h ⟨field, op, value⟩ = h' := by rw [place, habsorb, hset, Option.getD_some]
  exact ⟨by rw [hplace, habsorb, hset], by rw [hplace, haddresses]⟩

theorem absorb_of_not_addressed {c : Condition} (hc : isAddressed c = false) (h : NetworkHeader) :
    absorb h c = none := by
  obtain ⟨field, op, value⟩ := c
  cases op <;> simp_all [isAddressed, absorb, setAddress_of_notMem]

/-- The options that a condition becomes in a flavor. -/
def optionsOf (flavor : Flavor) (c : Condition) : List RuleOption :=
  contentOptions flavor c ++ fieldOptions c.field

/-- Conditions with a place in the header go there one after the other, all others become
options. -/
theorem foldl_add (flavor : Flavor) (cs : List Condition) (d : Draft) :
    (cs.foldl (Draft.add flavor) d).header = (cs.filter isAddressed).foldl place d.header ∧
      (cs.foldl (Draft.add flavor) d).options =
        d.options ++ (cs.filter fun c => !isAddressed c).flatMap (optionsOf flavor) := by
  induction cs generalizing d with
  | nil => simp
  | cons c cs ih =>
    obtain ⟨hheader, hoptions⟩ := ih (d.add flavor c)
    rw [List.foldl_cons, hheader, hoptions]
    cases hc : isAddressed c with
    | true => simp [hc, Draft.add, (absorb_of_addressed hc d.header).1]
    | false => simp [hc, Draft.add, absorb_of_not_addressed hc, optionsOf]

/-- The fields whose places in the header hold an explicit address. -/
def heldFields (h : NetworkHeader) : List String :=
  ((addresses h).filter fun p => isExplicitAddress p.2).map Prod.fst

theorem length_headerConditions (h : NetworkHeader) :
    (headerConditions h).length = (heldFields h).length := by
  simp [headerConditions, heldFields]

theorem nodup_heldFields (h : NetworkHeader) : (heldFields h).Nodup :=
  (List.filter_sublist.map Prod.fst).nodup nodup_addressFields

theorem isExplicitAddress_mark (value : String) :
    isExplicitAddress ("!" ++ value) = isExplicitAddress value := by
  simp [isExplicitAddress]

theorem isExplicitAddress_addressText_of {c : Condition} (h : isExplicitAddress c.value = true) :
    isExplicitAddress (addressText c) = true := by
  rw [addressText]
  split
  · rwa [isExplicitAddress_mark]
  · exact h

/-- Only the field of a condition that is put into the header can come to be held. -/
theorem of_mem_heldFields_place {c : Condition} (hc : isAddressed c = true) {h : NetworkHeader}
    {field : String} (hmem : field ∈ heldFields (place h c)) :
    field = c.field ∨ field ∈ heldFields h := by
  rw [heldFields, (absorb_of_addressed hc h).2] at hmem
  simp only [heldFields, List.mem_map, List.mem_filter, Prod.exists, exists_and_right,
    exists_eq_right, Prod.mk.injEq] at hmem ⊢
  obtain ⟨v, ⟨f, w, hw, rfl, rfl⟩, hexplicit⟩ := hmem
  by_cases hf : f = c.field
  · exact .inl hf
  · exact .inr ⟨w, hw, by simpa [hf] using hexplicit⟩

theorem mem_heldFields_place {c : Condition} (hc : isAddressed c = true)
    (hv : isExplicitAddress c.value = true) (h : NetworkHeader) (field : String) :
    field ∈ heldFields (place h c) ↔ field = c.field ∨ field ∈ heldFields h := by
  have hfields : c.field ∈ (addresses h).map Prod.fst := by
    simp only [isAddressed, Bool.and_eq_true, List.contains_iff_mem] at hc
    exact hc.2
  have htext := isExplicitAddress_addressText_of hv
  refine ⟨of_mem_heldFields_place hc, ?_⟩
  unfold heldFields
  rw [(absorb_of_addressed hc h).2]
  simp only [List.mem_map, List.mem_filter, Prod.exists, exists_and_right, exists_eq_right,
    Prod.mk.injEq] at hfields ⊢
  by_cases hf : field = c.field
  · obtain ⟨w, hmem⟩ := hfields
    intro _
    exact ⟨addressText c, ⟨c.field, w, hmem, hf.symm, by simp⟩, htext⟩
  · rintro (hc | ⟨w, hmem, hexplicit⟩)
    · exact absurd hc hf
    · exact ⟨w, ⟨field, w, hmem, rfl, by simp [hf]⟩, hexplicit⟩

theorem of_mem_heldFields_foldl {cs : List Condition} (hcs : ∀ c ∈ cs, isAddressed c = true)
    {h : NetworkHeader} {field : String} (hmem : field ∈ heldFields (cs.foldl place h)) :
    field ∈ cs.map Condition.field ∨ field ∈ heldFields h := by
  induction cs generalizing h with
  | nil => exact .inr hmem
  | cons c cs ih =>
    rw [List.forall_mem_cons] at hcs
    rw [List.map_cons, List.mem_cons]
    rcases ih hcs.2 hmem with hlater | hnow
    · exact .inl (.inr hlater)
    · exact (of_mem_heldFields_place hcs.1 hnow).imp .inl id

/-- After explicit addresses were put in, exactly their fields are held beside those held before. -/
theorem mem_heldFields_foldl {cs : List Condition} (hcs : ∀ c ∈ cs, isAddressed c = true)
    (hexplicit : ∀ c ∈ cs, isExplicitAddress c.value = true) (h : NetworkHeader) (field : String) :
    field ∈ heldFields (cs.foldl place h) ↔
      field ∈ cs.map Condition.field ∨ field ∈ heldFields h := by
  induction cs generalizing h with
  | nil => simp
  | cons c cs ih =>
    rw [List.forall_mem_cons] at hcs hexplicit
    rw [List.foldl_cons, ih hcs.2 hexplicit.2, mem_heldFields_place hcs.1 hexplicit.1,
      List.map_cons, List.mem_cons]
    tauto

/-! ### The way to a signature and back -/

/-- The options behind those of the conditions: references, and a number if one is needed. -/
def closingOptions (b : RuleBody) (flavor : Flavor) : List RuleOption :=
  (b.references.map fun (k, v) => referenceOption k v) ++
    if needsSid flavor b then sidOptions b else []

theorem touches_closingOptions {b : RuleBody}
    (h : ∀ p ∈ b.references, (referenceOption p.1 p.2).touches = false) (flavor : Flavor) :
    ∀ o ∈ closingOptions b flavor, o.touches = false := by
  have hsid : ∀ o ∈ sidOptions b, o.touches = false := by
    rw [sidOptions]
    split <;> simp [RuleOption.touches, RuleOption.detects, RuleOption.pair]
  intro o ho
  rw [closingOptions, List.mem_append] at ho
  rcases ho with ho | ho
  · obtain ⟨p, hp, rfl⟩ := List.mem_map.mp ho
    exact h p hp
  · split at ho
    · exact hsid o ho
    · cases ho

theorem header_ofBody (b : RuleBody) (flavor : Flavor) (level : Nat) :
    (ofBody b flavor level).1.header =
      ((b.conditions.filter fun c => !c.isMatchAll).filter isAddressed).foldl place
        (b.network.getD {}) :=
  (foldl_add flavor _ _).1

/-- The title as it is written. -/
def writtenTitle (b : RuleBody) : String :=
  if Text.isBlankString b.title then untitled else b.title

/-- The title and the options that the conditions ask for. -/
def askedOptions (b : RuleBody) (flavor : Flavor) : List RuleOption :=
  .pair "msg" (writtenTitle b) :: ((b.conditions.filter fun c => !c.isMatchAll).filter fun c =>
    !isAddressed c).flatMap (optionsOf flavor)

theorem options_ofBody_eq (b : RuleBody) (flavor : Flavor) (level : Nat) :
    (ofBody b flavor level).1.options =
      (if 2 ≤ level then addFastPattern (askedOptions b flavor) else askedOptions b flavor) ++
        closingOptions b flavor := by
  simp only [ofBody, (foldl_add flavor _ _).2, askedOptions, closingOptions, List.append_assoc,
    List.singleton_append]
  rfl

/-- Neither the title nor the mark of the fast pattern is seen by the reader of conditions. -/
theorem foldl_options_ofBody (b : RuleBody) (flavor : Flavor) (level : Nat) (r : Reading) :
    (ofBody b flavor level).1.options.foldl Reading.option r =
      (closingOptions b flavor).foldl Reading.option
        ((((b.conditions.filter fun c => !c.isMatchAll).filter fun c => !isAddressed c).flatMap
          (optionsOf flavor)).foldl Reading.option r) := by
  have hmsg (title : String) : r.option (.pair "msg" title) = r := by
    simp [Reading.option, RuleOption.pair]
  have htuned (options : List RuleOption) :
      (if 2 ≤ level then addFastPattern options else options).foldl Reading.option r =
        options.foldl Reading.option r := by
    split
    · exact foldl_addFastPattern options r
    · rfl
  rw [options_ofBody_eq, List.foldl_append, htuned, askedOptions, List.foldl_cons, hmsg]

theorem countP_optionsOf (flavor : Flavor) (c : Condition) :
    (optionsOf flavor c).countP RuleOption.detects = 1 := by
  have hfield : (fieldOptions c.field).countP RuleOption.detects = 0 := by
    unfold fieldOptions
    repeat' split
    all_goals rfl
  rw [optionsOf, List.countP_append, hfield, contentOptions]
  repeat' split
  all_goals rfl

theorem countP_flatMap_optionsOf (flavor : Flavor) (cs : List Condition) :
    (cs.flatMap (optionsOf flavor)).countP RuleOption.detects = cs.length := by
  induction cs with
  | nil => rfl
  | cons c cs ih =>
    rw [List.flatMap_cons, List.countP_append, ih, countP_optionsOf, List.length_cons, Nat.add_comm]

/-- As many conditions come back as places hold an address and options detect something. -/
theorem length_conditions_toBody (b : RuleBody) (flavor : Flavor) (level : Nat) :
    (ofBody b flavor level).1.toBody.conditions.length =
      (heldFields (ofBody b flavor level).1.header).length +
        ((b.conditions.filter fun c => !c.isMatchAll).filter fun c => !isAddressed c).length +
        (closingOptions b flavor).countP RuleOption.detects := by
  rw [toBody, foldl_options_ofBody, Reading.length_foldl_option, Reading.length_foldl_option,
    countP_flatMap_optionsOf, headerBody, length_headerConditions]

/-- Where the conditions with a place in the header are on distinct fields, a signature gives back at
least as many conditions as say something. Where the header holds no address of its own and no
reference becomes a condition, it does so only then. -/
theorem conditions_kept_of_distinct_addresses {b : RuleBody}
    (hexplicit : ∀ c ∈ b.conditions, isAddressed c = true → isExplicitAddress c.value = true)
    (flavor : Flavor) (level : Nat) :
    let effective := b.conditions.filter fun c => !c.isMatchAll
    let back := (ofBody b flavor level).1.toBody.conditions
    let distinct := ((effective.filter isAddressed).map Condition.field).Nodup
    (distinct → effective.length ≤ back.length) ∧
      (heldFields (b.network.getD {}) = [] →
        (∀ p ∈ b.references, (referenceOption p.1 p.2).touches = false) →
        effective.length ≤ back.length → distinct) := by
  intro effective back distinct
  let addressed := effective.filter isAddressed
  let held := heldFields (ofBody b flavor level).1.header
  have hcount : back.length = held.length + (effective.filter fun c => !isAddressed c).length +
      (closingOptions b flavor).countP RuleOption.detects := length_conditions_toBody b flavor level
  have hsplit : effective.length =
      addressed.length + (effective.filter fun c => !isAddressed c).length :=
    List.length_eq_length_filter_add isAddressed
  have haddressed : ∀ c ∈ addressed, isAddressed c = true := fun c hc => List.of_mem_filter hc
  have hvalues : ∀ c ∈ addressed, isExplicitAddress c.value = true := fun c hc =>
    hexplicit c (List.mem_of_mem_filter (List.mem_of_mem_filter hc)) (haddressed c hc)
  have hheld (field : String) :
      field ∈ held ↔ field ∈ addressed.map Condition.field ∨
        field ∈ heldFields (b.network.getD {}) := by
    have hplaced := mem_heldFields_foldl haddressed hvalues (b.network.getD {}) field
    rwa [← header_ofBody b flavor level] at hplaced
  have hlength : (addressed.map Condition.field).length = addressed.length := List.length_map _
  constructor
  · intro hdistinct
    have hsub : (addressed.map Condition.field).Subperm held :=
      List.subperm_of_subset hdistinct fun field hf => (hheld field).mpr (.inl hf)
    have hle := hsub.length_le
    omega
  · intro hopen hinert hle
    have hnone : (closingOptions b flavor).countP RuleOption.detects = 0 := by
      refine List.countP_eq_zero.mpr fun o ho => ?_
      have htouches := touches_closingOptions hinert flavor o ho
      simp_all [RuleOption.touches]
    have hsub : held.Subperm (addressed.map Condition.field) :=
      List.subperm_of_subset (nodup_heldFields _) fun field hf => by
        simpa [hopen] using (hheld field).mp hf
    exact (hsub.perm_of_length_le (by omega)).nodup_iff.mp (nodup_heldFields _)

theorem distinct_addresses_kept :
    let b : RuleBody :=
      { title := "t"
        conditions := [⟨Field.sourceIp, .equals, "10.0.0.1"⟩, ⟨Field.sourcePort, .notEquals, "53"⟩,
          ⟨Field.sourceIp, .startsWith, "10."⟩, ⟨Field.payload, .regex, "a/b"⟩] }
    b.conditions.length ≤ (ofBody b .snort 2).1.toBody.conditions.length := by
  intro b
  exact (conditions_kept_of_distinct_addresses (b := b) (by decide +kernel) .snort 2).1
    (by decide +kernel)

/-- Of two conditions on one address the second takes the place of the first. -/
theorem second_address_replaces_first :
    let b : RuleBody :=
      { title := "t"
        conditions := [⟨Field.sourceIp, .notEquals, "10.0.0.1"⟩,
          ⟨Field.sourceIp, .notEquals, "10.0.0.2"⟩] }
    (∀ c ∈ b.conditions, isExplicitAddress c.value = true ∧ c.isMatchAll = false) ∧
      (ofBody b .generic 0).1.toBody.conditions = [⟨Field.sourceIp, .notEquals, "10.0.0.2"⟩] := by
  decide +kernel

/-! ### Regular expressions -/

theorem length_guardChar (x : Char) (v : List Char) :
    (guardChar x v).length = v.length + v.count x := by
  induction v with
  | nil => rfl
  | cons c cs ih =>
    rw [guardChar_cons, List.length_append, ih, List.count_cons, List.length_cons]
    by_cases hc : c = x
    · simp [hc]
      omega
    · simp [hc]
      omega

theorem guardChar_eq_self_iff (x : Char) (v : List Char) : guardChar x v = v ↔ x ∉ v := by
  constructor
  · intro he
    have hlength := length_guardChar x v
    rw [he] at hlength
    exact List.count_eq_zero.mp (by omega)
  · exact guardChar_of_notMem

theorem operator_of_mem_headerConditions {h : NetworkHeader} {c : Condition}
    (hc : c ∈ headerConditions h) : c.operator ≠ .regex := by
  obtain ⟨⟨field, value⟩, -, rfl⟩ := List.mem_map.mp hc
  simp only [addressCondition]
  split <;> simp

theorem foldl_optionsOf_regex {r : Reading} (hr : r.buffer = none) (flavor : Flavor)
    {field : String} (hfield : field ∈ [Field.payload, Field.httpUri, Field.dnsQuery])
    (e : String) :
    (optionsOf flavor ⟨field, .regex, e⟩).foldl Reading.option r =
      r.push ⟨field, .regex, String.ofList (guardChar '/' e.toList)⟩ := by
  have hpcre : (contentOptions flavor ⟨field, .regex, e⟩).foldl Reading.option r =
      r.push ⟨Field.payload, .regex, String.ofList (guardChar '/' e.toList)⟩ := by
    simp [contentOptions, pcreOption, Reading.pair, Reading.field, hr,
      pcreBody_pcreValue_eq_guardChar]
  rw [optionsOf, List.foldl_append, hpcre]
  exact foldl_fieldOptions r (c := ⟨field, .regex, _⟩) hfield

/-- A regular expression comes back from a signature with a guard before each of its slashes. So it
comes back as it was exactly when it has none. -/
theorem regex_survives_iff_no_slash {b : RuleBody} {field e : String}
    (hfield : field ∈ [Field.payload, Field.httpUri, Field.dnsQuery])
    (hb : b.conditions = [⟨field, .regex, e⟩])
    (hall : (Condition.mk field .regex e).isMatchAll = false)
    (hrefs : ∀ p ∈ b.references, (referenceOption p.1 p.2).touches = false)
    (flavor : Flavor) (level : Nat) :
    let back := (ofBody b flavor level).1.toBody.conditions
    back = headerConditions (b.network.getD {}) ++
        [⟨field, .regex, String.ofList (guardChar '/' e.toList)⟩] ∧
      (⟨field, .regex, e⟩ ∈ back ↔ '/' ∉ e.toList) := by
  intro back
  have hplain : isAddressed ⟨field, .regex, e⟩ = false := by simp [isAddressed]
  have hheader : (ofBody b flavor level).1.header = b.network.getD {} := by
    simp [header_ofBody, hb, hall, hplain]
  have hback : back = headerConditions (b.network.getD {}) ++
      [⟨field, .regex, String.ofList (guardChar '/' e.toList)⟩] := by
    have hclosing := touches_closingOptions hrefs flavor
    simp only [back, toBody, foldl_options_ofBody, Reading.conditions_foldl_option hclosing, hb,
      hall, hplain, List.filter_cons, Bool.not_false, if_true, List.filter_nil,
      List.flatMap_cons, List.flatMap_nil, List.append_nil]
    rw [foldl_optionsOf_regex rfl flavor hfield, headerBody, hheader]
    rfl
  refine ⟨hback, ?_⟩
  have hnot : ⟨field, .regex, e⟩ ∉ headerConditions (b.network.getD {}) :=
    fun hmem => operator_of_mem_headerConditions hmem rfl
  have hvalue : e = String.ofList (guardChar '/' e.toList) ↔ '/' ∉ e.toList := by
    rw [← guardChar_eq_self_iff, ← String.toList_inj, String.toList_ofList, eq_comm]
  simpa [hback, hnot] using hvalue

theorem regex_without_slash_survives :
    let b : RuleBody :=
      { network := some { source := "10.0.0.1" }, references := [("classtype", "x"), ("sid", "7")]
        conditions := [⟨Field.httpUri, .regex, "^a\\.b\\d"⟩] }
    ⟨Field.httpUri, .regex, "^a\\.b\\d"⟩ ∈ (ofBody b .suricata 1).1.toBody.conditions := by
  intro b
  exact (regex_survives_iff_no_slash (b := b) (by decide) rfl (by decide) (by decide) .suricata
    1).2.mpr (by decide)

/-- An expression with a slash comes back as another one. -/
theorem regex_with_slash_changes :
    let b : RuleBody := { title := "t", conditions := [⟨Field.payload, .regex, "a/b"⟩] }
    (ofBody b .generic 0).1.toBody.conditions = [⟨Field.payload, .regex, "a\\/b"⟩] := by
  decide +kernel

end RuleExchange.Signature
