import RuleExchange.Rule.Body

/-! Tables of named members. Putting a member in changes what is found under its own name
and nothing else, and a name behind all others goes to the end. The references of a body
are such a table, and its parts may be left out of the table in which it is stored. -/

namespace RuleExchange.Json

variable {α : Type}

@[simp] theorem lookup_nil (key : String) : lookup key ([] : List (String × α)) = none := rfl

theorem lookup_cons (key k : String) (v : α) (rest : List (String × α)) :
    lookup key ((k, v) :: rest) = if k = key then some v else lookup key rest := by
  by_cases h : k = key <;> simp [lookup, h]

@[simp] theorem lookup_insertMember_self (key : String) (value : α) (ms : List (String × α)) :
    lookup key (insertMember key value ms) = some value := by
  induction ms with
  | nil => simp [insertMember, lookup_cons]
  | cons m rest ih =>
    obtain ⟨k, v⟩ := m
    simp only [insertMember]
    split
    · simp [lookup_cons]
    · rename_i hk
      split
      · simp [lookup_cons]
      · rw [lookup_cons, if_neg (Ne.symm hk), ih]

theorem lookup_insertMember_of_ne {key other : String} (h : other ≠ key) (value : α)
    (ms : List (String × α)) : lookup other (insertMember key value ms) = lookup other ms := by
  induction ms with
  | nil => simp [insertMember, lookup_cons, Ne.symm h]
  | cons m rest ih =>
    obtain ⟨k, v⟩ := m
    simp only [insertMember]
    split
    · rename_i hk
      rw [lookup_cons, if_neg (Ne.symm h), lookup_cons, if_neg (hk ▸ Ne.symm h)]
    · split
      · rw [lookup_cons, if_neg (Ne.symm h)]
      · rw [lookup_cons, lookup_cons, ih]

theorem lookup_eq_none {key : String} {ms : List (String × α)}
    (h : ∀ m ∈ ms, m.1 ≠ key) : lookup key ms = none := by
  simpa [lookup] using h

/-- Where no key is given twice, every member is found. -/
theorem lookup_of_mem {ms : List (String × α)} (hn : (ms.map Prod.fst).Nodup)
    {m : String × α} (hm : m ∈ ms) : lookup m.1 ms = some m.2 := by
  induction ms with
  | nil => cases hm
  | cons x rest ih =>
    obtain ⟨hx, hrest⟩ := List.nodup_cons.mp hn
    rw [lookup_cons]
    rcases List.mem_cons.mp hm with rfl | hm
    · exact if_pos rfl
    · have hne : x.1 ≠ m.1 := fun he => hx (he ▸ List.mem_map_of_mem hm)
      rw [if_neg hne, ih hrest hm]

/-- A key behind all others is put at the end. -/
theorem insertMember_of_last {key : String} {ms : List (String × α)} (h : ∀ m ∈ ms, m.1 < key)
    (value : α) : insertMember key value ms = ms ++ [(key, value)] := by
  induction ms with
  | nil => rfl
  | cons m rest ih =>
    obtain ⟨k, v⟩ := m
    have hk : k < key := h (k, v) (by simp)
    have hne : key ≠ k := by
      rintro rfl
      exact String.lt_irrefl _ hk
    rw [insertMember, if_neg hne, if_neg (String.lt_asymm hk), ih fun m hm => h m (by simp [hm])]
    rfl

/-- Every key is behind the keys before it. -/
def OrderedByKey (ms : List (String × α)) : Prop := ms.Pairwise (·.1 < ·.1)

instance (ms : List (String × α)) : Decidable (OrderedByKey ms) :=
  inferInstanceAs (Decidable (ms.Pairwise (·.1 < ·.1)))

theorem orderedByKey_of_keys {ms : List (String × α)} (keys : List String)
    (hkeys : ms.map Prod.fst = keys) (h : keys.Pairwise (· < ·)) : OrderedByKey ms :=
  List.pairwise_map.mp (hkeys ▸ h)

/-! ### Tables in order -/

theorem lt_of_not_lt_of_ne {a b : String} (h : ¬ a < b) (hne : a ≠ b) : b < a :=
  String.not_le.mp fun hle => hne (String.le_antisymm hle (String.not_lt.mp h))

variable {ms : List (String × α)}

theorem mem_of_mem_insertMember {key : String} {value : α} {m : String × α}
    (h : m ∈ insertMember key value ms) : m = (key, value) ∨ m ∈ ms := by
  induction ms with
  | nil => simpa [insertMember] using h
  | cons p rest ih =>
    obtain ⟨k, v⟩ := p
    rw [insertMember] at h
    split at h
    · exact (List.mem_cons.mp h).imp_right (List.mem_cons_of_mem _)
    · split at h
      · exact List.mem_cons.mp h
      · rcases List.mem_cons.mp h with rfl | h
        · exact .inr List.mem_cons_self
        · exact (ih h).imp_right (List.mem_cons_of_mem _)

theorem orderedByKey_insertMember (h : OrderedByKey ms) (key : String) (value : α) :
    OrderedByKey (insertMember key value ms) := by
  induction ms with
  | nil => exact List.pairwise_singleton _ _
  | cons p rest ih =>
    obtain ⟨k, v⟩ := p
    obtain ⟨hfirst, hrest⟩ := List.pairwise_cons.mp h
    rw [insertMember]
    split
    · rename_i he
      exact List.pairwise_cons.mpr ⟨fun m hm => he ▸ hfirst m hm, hrest⟩
    · rename_i hne
      split
      · rename_i hlt
        refine List.pairwise_cons.mpr ⟨fun m hm => ?_, h⟩
        rcases List.mem_cons.mp hm with rfl | hm
        · exact hlt
        · exact String.lt_trans hlt (hfirst m hm)
      · rename_i hnot
        refine List.pairwise_cons.mpr ⟨fun m hm => ?_, ih hrest⟩
        rcases mem_of_mem_insertMember hm with rfl | hm
        · exact lt_of_not_lt_of_ne hnot hne
        · exact hfirst m hm

/-- Puts members into a table, one after the other. -/
def insertAll (table ms : List (String × α)) : List (String × α) :=
  ms.foldl (fun table m => insertMember m.1 m.2 table) table

@[simp] theorem insertAll_nil (table : List (String × α)) : insertAll table [] = table := rfl

theorem insertAll_cons (table ms : List (String × α)) (m : String × α) :
    insertAll table (m :: ms) = insertAll (insertMember m.1 m.2 table) ms := rfl

theorem insertAll_append (table ms more : List (String × α)) :
    insertAll table (ms ++ more) = insertAll (insertAll table ms) more :=
  List.foldl_append

theorem sortMembers_eq_insertAll (ms : List (String × α)) : sortMembers ms = insertAll [] ms := rfl

theorem mem_of_mem_insertAll {table ms : List (String × α)} {m : String × α}
    (h : m ∈ insertAll table ms) : m ∈ table ∨ m ∈ ms := by
  induction ms generalizing table with
  | nil => exact .inl h
  | cons p rest ih =>
    rcases ih h with hm | hm
    · rcases mem_of_mem_insertMember hm with rfl | hm
      · exact .inr List.mem_cons_self
      · exact .inl hm
    · exact .inr (List.mem_cons_of_mem _ hm)

theorem mem_of_mem_sortMembers {ms : List (String × α)} {m : String × α}
    (h : m ∈ sortMembers ms) : m ∈ ms := by
  rw [sortMembers_eq_insertAll] at h
  exact (mem_of_mem_insertAll h).resolve_left List.not_mem_nil

theorem insertAll_of_ordered {table : List (String × α)} (h : OrderedByKey (table ++ ms)) :
    insertAll table ms = table ++ ms := by
  induction ms generalizing table with
  | nil => simp [insertAll]
  | cons p rest ih =>
    have hlast : ∀ m ∈ table, m.1 < p.1 := fun m hm =>
      (List.pairwise_append.mp h).2.2 m hm p (by simp)
    rw [insertAll_cons, insertMember_of_last hlast, ih (by simpa using h)]
    simp

theorem sortMembers_of_ordered (h : OrderedByKey ms) : sortMembers ms = ms := by
  rw [sortMembers_eq_insertAll, insertAll_of_ordered (by simpa using h), List.nil_append]

theorem orderedByKey_insertAll {table : List (String × α)} (h : OrderedByKey table)
    (ms : List (String × α)) : OrderedByKey (insertAll table ms) := by
  induction ms generalizing table with
  | nil => exact h
  | cons p rest ih => exact ih (orderedByKey_insertMember h p.1 p.2)

theorem orderedByKey_sortMembers (ms : List (String × α)) : OrderedByKey (sortMembers ms) :=
  orderedByKey_insertAll List.Pairwise.nil ms

/-- A key before all others is put at the start. -/
theorem insertMember_of_first {key : String} (h : ∀ m ∈ ms, key < m.1) (value : α) :
    insertMember key value ms = (key, value) :: ms := by
  cases ms with
  | nil => rfl
  | cons p rest =>
    have hlt := h p (by simp)
    have hne : key ≠ p.1 := fun he => String.lt_irrefl _ (he ▸ hlt)
    rw [insertMember, if_neg hne, if_pos hlt]

/-- Among the members of some kind of key, a member is put in at its place if it is of the kind. -/
theorem filter_insertMember (p : String → Bool) (h : OrderedByKey ms) (key : String) (value : α) :
    (insertMember key value ms).filter (fun m => p m.1) =
      if p key then insertMember key value (ms.filter fun m => p m.1)
      else ms.filter fun m => p m.1 := by
  induction ms with
  | nil => cases hp : p key <;> simp [insertMember, hp]
  | cons m rest ih =>
    obtain ⟨k, v⟩ := m
    obtain ⟨hfirst, hrest⟩ := List.pairwise_cons.mp h
    by_cases he : key = k
    · subst he
      cases hp : p key <;> simp [insertMember, hp]
    by_cases hlt : key < k
    · have hbefore : ∀ m ∈ ((k, v) :: rest).filter (fun m => p m.1), key < m.1 := by
        intro m hm
        rcases List.mem_cons.mp (List.mem_filter.mp hm).1 with rfl | hm
        · exact hlt
        · exact String.lt_trans hlt (hfirst m hm)
      rw [insertMember_of_first hbefore, insertMember, if_neg he, if_pos hlt, List.filter_cons]
    · rw [insertMember, if_neg he, if_neg hlt, List.filter_cons, List.filter_cons, ih hrest]
      cases hk : p k <;> cases hp : p key <;> simp [insertMember, he, hlt]

theorem filter_insertAll (p : String → Bool) {table : List (String × α)} (h : OrderedByKey table)
    (ms : List (String × α)) :
    (insertAll table ms).filter (fun m => p m.1) =
      insertAll (table.filter fun m => p m.1) (ms.filter fun m => p m.1) := by
  induction ms generalizing table with
  | nil => rfl
  | cons m rest ih =>
    rw [insertAll_cons, ih (orderedByKey_insertMember h m.1 m.2), filter_insertMember p h,
      List.filter_cons]
    split
    · rw [insertAll_cons]
    · rfl

theorem lookup_append (key : String) (ms more : List (String × α)) :
    lookup key (ms ++ more) = (lookup key ms).or (lookup key more) := by
  simp [lookup, List.find?_append, Option.map_or]

/-- Where no key is given twice, what was put in is found, and else what was there before. -/
theorem lookup_insertAll {ms : List (String × α)} (hn : (ms.map Prod.fst).Nodup) (key : String)
    (table : List (String × α)) :
    lookup key (insertAll table ms) = (lookup key ms).or (lookup key table) := by
  induction ms generalizing table with
  | nil => rfl
  | cons m rest ih =>
    obtain ⟨hm, hrest⟩ := List.nodup_cons.mp hn
    rw [insertAll_cons, ih hrest, lookup_cons]
    by_cases he : m.1 = key
    · have hnone : lookup key rest = none :=
        lookup_eq_none fun x hx hk => hm (he.trans hk.symm ▸ List.mem_map_of_mem hx)
      rw [hnone, if_pos he, he, lookup_insertMember_self]
      rfl
    · rw [if_neg he, lookup_insertMember_of_ne (Ne.symm he)]

theorem lookup_sortMembers {ms : List (String × α)} (hn : (ms.map Prod.fst).Nodup) (key : String) :
    lookup key (sortMembers ms) = lookup key ms := by
  rw [sortMembers_eq_insertAll, lookup_insertAll hn, lookup_nil, Option.or_none]

theorem insertMember_perm {key : String} (h : ∀ m ∈ ms, m.1 ≠ key) (value : α) :
    (insertMember key value ms).Perm ((key, value) :: ms) := by
  induction ms with
  | nil => exact .refl _
  | cons m rest ih =>
    rw [insertMember, if_neg (Ne.symm (h m (by simp)))]
    split
    · exact .refl _
    · exact ((ih fun x hx => h x (by simp [hx])).cons m).trans (.swap ..)

theorem insertAll_perm {table ms : List (String × α)} (hn : ((ms ++ table).map Prod.fst).Nodup) :
    (insertAll table ms).Perm (ms ++ table) := by
  induction ms generalizing table with
  | nil => exact .refl _
  | cons m rest ih =>
    have hnew : ∀ x ∈ table, x.1 ≠ m.1 := fun x hx he =>
      (List.nodup_cons.mp hn).1 (he ▸ List.mem_map_of_mem (List.mem_append_right rest hx))
    have hput : (rest ++ insertMember m.1 m.2 table).Perm (m :: rest ++ table) :=
      ((insertMember_perm hnew m.2).append_left rest).trans List.perm_middle
    exact (ih ((hput.map Prod.fst).nodup_iff.mpr hn)).trans hput

/-- Where no key is given twice, sorting loses nothing. -/
theorem sortMembers_perm {ms : List (String × α)} (hn : (ms.map Prod.fst).Nodup) :
    (sortMembers ms).Perm ms := by
  have h : (insertAll [] ms).Perm (ms ++ []) := insertAll_perm (by simpa using hn)
  rwa [List.append_nil] at h

section Maps

variable {β : Type} (f : α → β)

theorem insertMember_map (key : String) (value : α) (ms : List (String × α)) :
    insertMember key (f value) (ms.map fun m => (m.1, f m.2)) =
      (insertMember key value ms).map fun m => (m.1, f m.2) := by
  induction ms with
  | nil => rfl
  | cons p rest ih =>
    rw [List.map_cons, insertMember, insertMember]
    split
    · rfl
    · split
      · rfl
      · rw [ih, List.map_cons]

theorem insertAll_map (table ms : List (String × α)) :
    insertAll (table.map fun m => (m.1, f m.2)) (ms.map fun m => (m.1, f m.2)) =
      (insertAll table ms).map fun m => (m.1, f m.2) := by
  induction ms generalizing table with
  | nil => rfl
  | cons p rest ih =>
    rw [List.map_cons, insertAll_cons, insertAll_cons, ← ih, ← insertMember_map]

theorem sortMembers_map (ms : List (String × α)) :
    sortMembers (ms.map fun m => (m.1, f m.2)) = (sortMembers ms).map fun m => (m.1, f m.2) :=
  insertAll_map f [] ms

theorem lookup_map (key : String) (ms : List (String × α)) :
    lookup key (ms.map fun m => (m.1, f m.2)) = (lookup key ms).map f := by
  induction ms with
  | nil => rfl
  | cons p rest ih =>
    rw [List.map_cons, lookup_cons, lookup_cons, ih]
    split <;> rfl

theorem orderedByKey_map (h : OrderedByKey ms) : OrderedByKey (ms.map fun m => (m.1, f m.2)) :=
  List.pairwise_map.mpr h

end Maps

/-! ### Sorted values -/

theorem sortedItems_eq_map (vs : List Value) : sortedItems vs = vs.map Value.sorted := by
  induction vs with
  | nil => rfl
  | cons v vs ih => rw [sortedItems, ih, List.map_cons]

theorem sortedMembers_eq_map (ms : List (String × Value)) :
    sortedMembers ms = ms.map fun m => (m.1, m.2.sorted) := by
  induction ms with
  | nil => rfl
  | cons m ms ih => rw [sortedMembers, ih, List.map_cons]

/-- An object in order is sorted by sorting its values. -/
theorem sorted_obj_of_ordered {ms : List (String × Value)} (h : OrderedByKey ms) :
    (Value.obj ms).sorted = .obj (ms.map fun m => (m.1, m.2.sorted)) := by
  rw [Value.sorted, sortedMembers_eq_map, sortMembers_of_ordered (orderedByKey_map _ h)]

theorem sortedMembers_sortMembers (ms : List (String × Value)) :
    sortedMembers (sortMembers ms) = sortMembers (sortedMembers ms) := by
  rw [sortedMembers_eq_map, sortedMembers_eq_map, sortMembers_map]

mutual

theorem Value.sorted_sorted : ∀ v : Value, v.sorted.sorted = v.sorted
  | .null | .bool _ | .num _ | .str _ => by simp only [Value.sorted]
  | .arr items => by
    rw [Value.sorted, Value.sorted, sortedItems_sorted items]
  | .obj members => by
    rw [Value.sorted, Value.sorted, sortedMembers_sortMembers, sortedMembers_sorted members,
      sortMembers_of_ordered (orderedByKey_sortMembers _)]

theorem sortedItems_sorted : ∀ vs : List Value, sortedItems (sortedItems vs) = sortedItems vs
  | [] => rfl
  | v :: vs => by
    rw [sortedItems, sortedItems, v.sorted_sorted, sortedItems_sorted vs]

theorem sortedMembers_sorted : ∀ ms : List (String × Value),
    sortedMembers (sortedMembers ms) = sortedMembers ms
  | [] => rfl
  | (k, v) :: rest => by
    rw [sortedMembers, sortedMembers, v.sorted_sorted, sortedMembers_sorted rest]

end

end RuleExchange.Json

namespace RuleExchange.RuleBody

/-! ### Members that may be left out -/

theorem lookup_member (key name : String) (v : Option Json.Value) :
    Json.lookup key (member name v) = if name = key then v else none := by
  cases v <;> simp [member, Json.lookup_cons]

theorem keys_member_sublist (name : String) (v : Option Json.Value) :
    ((member name v).map Prod.fst).Sublist [name] := by
  cases v <;> simp [member]

theorem forall_mem_member {P : String × Json.Value → Prop} {name : String} {v : Option Json.Value} :
    (∀ m ∈ member name v, P m) ↔ ∀ x ∈ v, P (name, x) := by
  cases v <;> simp [member]

/-! ### References -/

theorem addReference_of_last {b : RuleBody} {key : String} (h : ∀ m ∈ b.references, m.1 < key)
    (value : String) :
    b.addReference key value = { b with references := b.references ++ [(key, value)] } := by
  have hnone : Json.lookup key b.references = none := by
    refine Json.lookup_eq_none fun m hm he => ?_
    exact String.lt_irrefl key (he ▸ h m hm)
  rw [addReference, hnone]
  simp only [Json.insertMember_of_last h]

/-- References in order are put one behind the other. -/
theorem foldl_addReference {refs : List (String × String)} {b : RuleBody}
    (ho : Json.OrderedByKey (b.references ++ refs)) :
    refs.foldl (fun b p => b.addReference p.1 p.2) b =
      { b with references := b.references ++ refs } := by
  induction refs generalizing b with
  | nil => simp
  | cons p refs ih =>
    have hlast : ∀ m ∈ b.references, m.1 < p.1 := fun m hm =>
      (List.pairwise_append.mp ho).2.2 m hm p (by simp)
    rw [List.foldl_cons, addReference_of_last hlast, ih (by simpa using ho)]
    simp

end RuleExchange.RuleBody
