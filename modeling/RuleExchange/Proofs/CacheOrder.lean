import Mathlib.Data.List.Induction
import Mathlib.Data.List.Nodup
import RuleExchange.Proofs.CacheEntries

/-! The order of a cache. After any sequence of insertions and lookups each key is there once and
under the value that was put in last, and the keys stand in the order in which they came: each has
been present longer than those behind it. A new key that finds no room takes the place of the key in
front. The same cache can be kept as a table of values and a queue of keys; the two parts stay in
step and hold exactly these entries. -/

namespace RuleExchange.Cache

variable {κ α : Type}

def keys (c : Cache κ α) : List κ := c.entries.map (·.1)

theorem length_keys (c : Cache κ α) : c.keys.length = c.size := List.length_map _

/-- Each key is there once, and there are no more of them than there is room for. -/
structure Bounded (c : Cache κ α) : Prop where
  nodup : c.keys.Nodup
  size_le : c.size ≤ c.capacity
  room : 0 < c.capacity

theorem bounded_ofCapacity (n : Nat) : (ofCapacity n : Cache κ α).Bounded where
  nodup := .nil
  size_le := Nat.zero_le _
  room := Nat.le_max_right n 1

variable [DecidableEq κ] {c : Cache κ α} {k : κ} {v : α}

/-! ### Insertions -/

/-- A new value for a key that is present. -/
def overwrite (k : κ) (v : α) (es : List (κ × α)) : List (κ × α) :=
  es.map fun e => if e.1 = k then (k, v) else e

@[simp] theorem map_fst_overwrite (k : κ) (v : α) (es : List (κ × α)) :
    (overwrite k v es).map (·.1) = es.map (·.1) := by
  rw [overwrite, List.map_map]
  refine List.map_congr_left fun e _ => ?_
  by_cases h : e.1 = k <;> simp [h]

theorem contains_iff_mem_keys : c.contains k = true ↔ k ∈ c.keys := by
  simp [contains, keys]

/-- All that an insertion can do: it replaces a value, finds room, or takes the room of the entry
in front. -/
theorem insert_cases (h : c.Bounded) (k : κ) (v : α) :
    (k ∈ c.keys ∧ c.insert k v = { c with entries := overwrite k v c.entries }) ∨
    (k ∉ c.keys ∧ c.size < c.capacity ∧
      c.insert k v = { c with entries := c.entries ++ [(k, v)] }) ∨
    (k ∉ c.keys ∧ c.size = c.capacity ∧ ∃ e es, c.entries = e :: es ∧
      c.insert k v = { c with entries := es ++ [(k, v)] }) := by
  by_cases hk : k ∈ c.keys
  · refine .inl ⟨hk, ?_⟩
    rw [insert, if_pos (contains_iff_mem_keys.mpr hk), overwrite]
  · have hinsert : c.insert k v = { c with
        entries := (c.entries ++ [(k, v)]).drop (c.entries.length + 1 - c.capacity) } := by
      rw [insert, if_neg (mt contains_iff_mem_keys.mp hk)]
      simp only [List.length_append, List.length_singleton]
    right
    rcases Nat.lt_or_eq_of_le h.size_le with hlt | heq
    · refine .inl ⟨hk, hlt, ?_⟩
      have hzero : c.entries.length + 1 - c.capacity = 0 := Nat.sub_eq_zero_of_le hlt
      rw [hinsert, hzero, List.drop_zero]
    · refine .inr ⟨hk, heq, ?_⟩
      have hlength : c.entries.length = c.capacity := heq
      rw [hlength, Nat.add_sub_cancel_left] at hinsert
      obtain ⟨e, es, hes⟩ : ∃ e es, c.entries = e :: es :=
        List.exists_cons_of_length_pos (hlength ▸ h.room)
      exact ⟨e, es, hes, by rw [hinsert, hes]; rfl⟩

theorem keys_insert_of_mem (h : c.Bounded) (hk : k ∈ c.keys) (v : α) :
    (c.insert k v).keys = c.keys := by
  rcases insert_cases h k v with ⟨-, he⟩ | ⟨hn, -⟩ | ⟨hn, -⟩
  · simp [he, keys]
  · exact absurd hk hn
  · exact absurd hk hn

theorem keys_insert_of_room (h : c.Bounded) (hk : k ∉ c.keys) (hroom : c.size < c.capacity)
    (v : α) :
    (c.insert k v).keys = c.keys ++ [k] := by
  rcases insert_cases h k v with ⟨hm, -⟩ | ⟨-, -, he⟩ | ⟨-, hfull, -⟩
  · exact absurd hm hk
  · simp [he, keys]
  · omega

theorem keys_insert_of_full (h : c.Bounded) (hk : k ∉ c.keys) (hfull : c.size = c.capacity)
    (v : α) :
    ∃ oldest rest, c.keys = oldest :: rest ∧ (c.insert k v).keys = rest ++ [k] := by
  rcases insert_cases h k v with ⟨hm, -⟩ | ⟨-, hroom, -⟩ | ⟨-, -, e, es, hes, he⟩
  · exact absurd hm hk
  · omega
  · exact ⟨e.1, es.map (·.1), by simp [keys, hes], by simp [he, keys]⟩

theorem bounded_insert (h : c.Bounded) (k : κ) (v : α) : (c.insert k v).Bounded := by
  have hnodup := h.nodup
  have hle : c.keys.length ≤ c.capacity := length_keys c ▸ h.size_le
  have hkeys : (c.insert k v).keys.Nodup ∧ (c.insert k v).keys.length ≤ c.capacity := by
    by_cases hk : k ∈ c.keys
    · rw [keys_insert_of_mem h hk]
      exact ⟨hnodup, hle⟩
    · rcases Nat.lt_or_eq_of_le h.size_le with hlt | heq
      · rw [keys_insert_of_room h hk hlt, List.length_append, length_keys]
        exact ⟨List.nodup_append_comm.mp (List.nodup_cons.mpr ⟨hk, hnodup⟩), hlt⟩
      · obtain ⟨oldest, rest, hold, hnew⟩ := keys_insert_of_full h hk heq v
        rw [hold] at hnodup hle hk
        rw [hnew, List.length_append]
        have hrest : k ∉ rest := fun hm => hk (List.mem_cons_of_mem oldest hm)
        exact ⟨List.nodup_append_comm.mp (List.nodup_cons.mpr ⟨hrest, hnodup.of_cons⟩), hle⟩
  refine ⟨hkeys.1, ?_, ?_⟩
  · rw [← length_keys, capacity_insert]
    exact hkeys.2
  · rw [capacity_insert]
    exact h.room

/-! ### Lookups -/

theorem get?_eq_some_iff (h : c.keys.Nodup) : c.get? k = some v ↔ (k, v) ∈ c.entries := by
  refine ⟨mem_of_get?, fun hm => ?_⟩
  obtain ⟨v', hv'⟩ := Option.ne_none_iff_exists'.mp (get?_ne_none hm)
  have := List.inj_on_of_nodup_map h (mem_of_get? hv') hm rfl
  rw [hv', (Prod.mk.inj this).2]

theorem get?_eq_none_iff : c.get? k = none ↔ k ∉ c.keys := by
  rw [get?, Option.map_eq_none_iff, List.find?_eq_none, keys, List.mem_map]
  simp only [decide_eq_true_iff, not_exists, not_and]

theorem get?_insert_self (h : c.Bounded) (k : κ) (v : α) : (c.insert k v).get? k = some v :=
  (get?_eq_some_iff (bounded_insert h k v).nodup).mpr (mem_insert_self h.room k v)

/-- Another key that does not leave keeps its value. -/
theorem get?_insert_of_ne (h : c.Bounded) {k' : κ} (hne : k' ≠ k)
    (hstay : k' ∈ c.keys → k' ∈ (c.insert k v).keys) : (c.insert k v).get? k' = c.get? k' := by
  by_cases hk' : k' ∈ (c.insert k v).keys
  · obtain ⟨x, hx⟩ := Option.ne_none_iff_exists'.mp (mt get?_eq_none_iff.mp (not_not.mpr hk'))
    rcases mem_insert (mem_of_get? hx) with he | hm
    · exact absurd (Prod.mk.inj he).1 hne
    · rw [hx, (get?_eq_some_iff h.nodup).mpr hm]
  · rw [get?_eq_none_iff.mpr hk', get?_eq_none_iff.mpr (mt hstay hk')]

/-! ### Sequences of insertions and lookups -/

inductive Op (κ α : Type) where
  | insert (k : κ) (v : α)
  | get (k : κ)
  deriving DecidableEq, Repr

def apply (c : Cache κ α) : Op κ α → Cache κ α
  | .insert k v => c.insert k v
  | .get _ => c

/-- A cache made for `n` entries, after these operations. -/
def after (n : Nat) (history : List (Op κ α)) : Cache κ α := history.foldl apply (ofCapacity n)

variable {n : Nat} {history : List (Op κ α)}

theorem after_concat (n : Nat) (history : List (Op κ α)) (op : Op κ α) :
    after n (history ++ [op]) = (after n history).apply op := by
  simp [after, List.foldl_append]

theorem bounded_after (n : Nat) (history : List (Op κ α)) : (after n history).Bounded := by
  induction history using List.reverseRecOn with
  | nil => exact bounded_ofCapacity n
  | append_singleton history op ih =>
    rw [after_concat]
    cases op with
    | insert k v => exact bounded_insert ih k v
    | get k => exact ih

theorem capacity_after (n : Nat) (history : List (Op κ α)) :
    (after n history).capacity = max n 1 := by
  induction history using List.reverseRecOn with
  | nil => rfl
  | append_singleton history op ih =>
    rw [after_concat]
    cases op with
    | insert k v => rw [apply, capacity_insert, ih]
    | get k => exact ih

/-- The value that an operation puts in under a key. -/
def Op.put? (k : κ) : Op κ α → Option α
  | .insert k' v => if k' = k then some v else none
  | .get _ => none

/-- The value that was put in last under a key. -/
def lastPut? (k : κ) (history : List (Op κ α)) : Option α :=
  (history.filterMap (Op.put? k)).getLast?

theorem lastPut?_insert_self (k : κ) (v : α) (history : List (Op κ α)) :
    lastPut? k (history ++ [.insert k v]) = some v := by
  simp [lastPut?, Op.put?]

theorem lastPut?_concat_of_none {op : Op κ α} (h : op.put? k = none) (history : List (Op κ α)) :
    lastPut? k (history ++ [op]) = lastPut? k history := by
  simp [lastPut?, h]

theorem lastPut?_of_mem (hm : (k, v) ∈ (after n history).entries) :
    lastPut? k history = some v := by
  induction history using List.reverseRecOn generalizing v with
  | nil => cases hm
  | append_singleton history op ih =>
    rw [after_concat] at hm
    cases op with
    | get k' => rw [lastPut?_concat_of_none rfl, ih hm]
    | insert k' v' =>
      by_cases hk : k' = k
      · subst hk
        have hnodup := (bounded_insert (bounded_after n history) k' v').nodup
        have hget := (get?_eq_some_iff hnodup).mpr hm
        rw [get?_insert_self (bounded_after n history)] at hget
        rw [lastPut?_insert_self, hget]
      · rcases mem_insert hm with he | hm
        · exact absurd (Prod.mk.inj he).1.symm hk
        · have hput : Op.put? k (.insert k' v') = none := if_neg hk
          rw [lastPut?_concat_of_none hput, ih hm]

theorem get?_after (n : Nat) (history : List (Op κ α)) (k : κ) :
    (after n history).get? k = if k ∈ (after n history).keys then lastPut? k history else none := by
  split
  · rename_i hk
    obtain ⟨v, hv⟩ := Option.ne_none_iff_exists'.mp (mt get?_eq_none_iff.mp (not_not.mpr hk))
    rw [hv, lastPut?_of_mem (mem_of_get? hv)]
  · rename_i hk
    exact get?_eq_none_iff.mpr hk

/-! ### Who has been present longest -/

def Present (n : Nat) (history : List (Op κ α)) (k : κ) : Prop := k ∈ (after n history).keys

/-- There is a moment since which `a` has been present all the time and at which `b` was not. -/
def Outstays (n : Nat) (history : List (Op κ α)) (a b : κ) : Prop :=
  ∃ before later, history = before ++ later ∧ ¬ Present n before b ∧
    ∀ part, part <+: later → Present n (before ++ part) a

/-- Present, and longer than every other key that is present. -/
def Longest (n : Nat) (history : List (Op κ α)) (k : κ) : Prop :=
  Present n history k ∧ ∀ k', Present n history k' → k' ≠ k → Outstays n history k k'

theorem not_outstays_of_outstays {a b : κ} (h : Outstays n history a b) :
    ¬ Outstays n history b a := by
  obtain ⟨before, later, hhistory, hb, ha⟩ := h
  rintro ⟨before', later', hhistory', ha', hb'⟩
  -- the later one of the two moments lies in the time in which the other key is present
  rcases List.append_eq_append_iff.mp (hhistory.symm.trans hhistory') with
    ⟨part, rfl, rfl⟩ | ⟨part, rfl, rfl⟩
  · exact ha' (ha part (List.prefix_append part later'))
  · exact hb (hb' part (List.prefix_append part later))

theorem Longest.unique {a b : κ} (ha : Longest n history a) (hb : Longest n history b) : a = b := by
  by_contra hne
  exact not_outstays_of_outstays (ha.2 b hb.1 (Ne.symm hne)) (hb.2 a ha.1 hne)

/-- A key that stays has been present longer than the same keys as before. -/
theorem Outstays.concat {a b : κ} (h : Outstays n history a b) {op : Op κ α}
    (ha : Present n (history ++ [op]) a) : Outstays n (history ++ [op]) a b := by
  obtain ⟨before, later, rfl, hb, hlater⟩ := h
  refine ⟨before, later ++ [op], List.append_assoc .., hb, fun part hpart => ?_⟩
  rcases List.prefix_concat_iff.mp hpart with rfl | hpart
  · rwa [← List.append_assoc]
  · exact hlater part hpart

/-- A key that stays has been present longer than one that comes. -/
theorem outstays_of_absent {a b : κ} {op : Op κ α} (ha : Present n history a)
    (hb : ¬ Present n history b) (ha' : Present n (history ++ [op]) a) :
    Outstays n (history ++ [op]) a b := by
  refine ⟨history, [op], rfl, hb, fun part hpart => ?_⟩
  rcases List.prefix_cons_iff.mp hpart with rfl | ⟨rest, rfl, hrest⟩
  · rwa [List.append_nil]
  · rwa [List.prefix_nil.mp hrest]

/-- An operation leaves the keys alone, or a new one comes in behind those that stay. -/
theorem keys_apply (h : c.Bounded) (op : Op κ α) :
    (c.apply op).keys = c.keys ∨
      ∃ k ks, k ∉ c.keys ∧ ks.Sublist c.keys ∧ (c.apply op).keys = ks ++ [k] := by
  cases op with
  | get k => exact .inl rfl
  | insert k v =>
    by_cases hk : k ∈ c.keys
    · exact .inl (keys_insert_of_mem h hk v)
    · right
      rcases Nat.lt_or_eq_of_le h.size_le with hlt | heq
      · exact ⟨k, c.keys, hk, .refl _, keys_insert_of_room h hk hlt v⟩
      · obtain ⟨oldest, rest, hold, hnew⟩ := keys_insert_of_full h hk heq v
        exact ⟨k, rest, hk, hold ▸ List.sublist_cons_self oldest rest, hnew⟩

/-- Each key has been present longer than those behind it. -/
theorem pairwise_outstays (n : Nat) (history : List (Op κ α)) :
    (after n history).keys.Pairwise (Outstays n history) := by
  induction history using List.reverseRecOn with
  | nil => exact .nil
  | append_singleton history op ih =>
    have hpresent {k : κ} :
        Present n (history ++ [op]) k ↔ k ∈ ((after n history).apply op).keys := by
      rw [Present, after_concat]
    rw [after_concat]
    rcases keys_apply (bounded_after n history) op with hsame | ⟨k, ks, hk, hks, hnew⟩
    · rw [hsame] at hpresent ⊢
      exact ih.imp_of_mem fun ha _ h => h.concat (hpresent.mpr ha)
    · rw [hnew] at hpresent ⊢
      have hstays {a : κ} (ha : a ∈ ks) : Present n (history ++ [op]) a :=
        hpresent.mpr (List.mem_append_left [k] ha)
      refine List.pairwise_append.mpr ⟨?_, List.pairwise_singleton _ k, ?_⟩
      · exact (ih.sublist hks).imp_of_mem fun ha _ h => h.concat (hstays ha)
      · intro a ha b hb
        rw [List.mem_singleton.mp hb]
        exact outstays_of_absent (hks.subset ha) hk (hstays ha)

/-- The key in front is the one that has been present longest. -/
theorem longest_iff {oldest : κ} {rest : List κ} (h : (after n history).keys = oldest :: rest)
    {k : κ} :
    Longest n history k ↔ k = oldest := by
  have hpairs := pairwise_outstays n history
  rw [h, List.pairwise_cons] at hpairs
  have hfront : Longest n history oldest := by
    refine ⟨by simp [Present, h], fun k' hk' hne => ?_⟩
    rw [Present, h] at hk'
    exact hpairs.1 k' ((List.mem_cons.mp hk').resolve_left hne)
  exact ⟨fun hk => hk.unique hfront, fun he => he ▸ hfront⟩

/-! ### A table and a queue -/

/-- A cache kept as a table of values, in which places mean nothing, and a queue of its keys. -/
structure Indexed (κ α : Type) where
  capacity : Nat
  entries : List (κ × α) := []
  order : List κ := []

namespace Indexed

def get? (q : Indexed κ α) (k : κ) : Option α := (q.entries.find? (·.1 = k)).map (·.2)

/-- Takes keys from the front of the queue and out of the table until no more than `room` are
left. -/
def shrink (room : Nat) : List κ → List (κ × α) → List κ × List (κ × α)
  | [], entries => ([], entries)
  | k :: order, entries =>
    if room < order.length + 1 then shrink room order (entries.filter (·.1 ≠ k))
    else (k :: order, entries)

def insert (q : Indexed κ α) (k : κ) (v : α) : Indexed κ α :=
  if q.entries.any (·.1 = k) then { q with entries := overwrite k v q.entries }
  else
    let (order, entries) := shrink q.capacity (q.order ++ [k]) ((k, v) :: q.entries)
    { q with order, entries }

def apply (q : Indexed κ α) : Op κ α → Indexed κ α
  | .insert k v => q.insert k v
  | .get _ => q

def after (n : Nat) (history : List (Op κ α)) : Indexed κ α :=
  history.foldl apply { capacity := max n 1 }

/-- The table has the entries of the cache and the queue has its keys in their order. -/
structure Keeps (q : Indexed κ α) (c : Cache κ α) : Prop where
  capacity : q.capacity = c.capacity
  order : q.order = c.keys
  entries : q.entries.Perm c.entries

theorem shrink_of_le {room : Nat} {order : List κ} (h : order.length ≤ room)
    (entries : List (κ × α)) :
    shrink room order entries = (order, entries) := by
  cases order with
  | nil => rfl
  | cons k order => exact if_neg (Nat.not_lt.mpr h)

theorem filter_front {e : κ × α} {es : List (κ × α)} (h : ((e :: es).map (·.1)).Nodup) :
    (e :: es).filter (·.1 ≠ e.1) = es := by
  rw [List.map_cons, List.nodup_cons] at h
  rw [List.filter_cons_of_neg (by simp), List.filter_eq_self]
  intro x hx
  have hne : x.1 ≠ e.1 := fun he => h.1 (he ▸ List.mem_map_of_mem hx)
  simpa using hne

theorem Keeps.any_iff {q : Indexed κ α} (h : q.Keeps c) (k : κ) :
    q.entries.any (·.1 = k) = true ↔ k ∈ c.keys := by
  simp [keys, h.entries.mem_iff]

theorem Keeps.insert {q : Indexed κ α} (h : q.Keeps c) (hc : c.Bounded) (k : κ) (v : α) :
    (q.insert k v).Keeps (c.insert k v) := by
  rcases insert_cases hc k v with ⟨hk, he⟩ | ⟨hk, hroom, he⟩ | ⟨hk, hfull, e, es, hes, he⟩
  · have hany := (h.any_iff k).mpr hk
    have hq : q.insert k v = { q with entries := overwrite k v q.entries } := by
      rw [Indexed.insert, if_pos hany]
    rw [hq, he]
    refine ⟨h.capacity, ?_, h.entries.map _⟩
    simp [h.order, keys]
  · have hany := Bool.eq_false_iff.mpr (mt (h.any_iff k).mp hk)
    have hlength : (q.order ++ [k]).length ≤ q.capacity := by
      rw [h.order, h.capacity, List.length_append, length_keys]
      exact hroom
    have hq : q.insert k v =
        { q with order := q.order ++ [k], entries := (k, v) :: q.entries } := by
      rw [Indexed.insert, if_neg (by simp [hany]), shrink_of_le hlength]
    rw [hq, he]
    refine ⟨h.capacity, ?_, ?_⟩
    · simp [h.order, keys]
    · exact (h.entries.cons (k, v)).trans (List.perm_append_singleton (k, v) c.entries).symm
  · have hany := Bool.eq_false_iff.mpr (mt (h.any_iff k).mp hk)
    have horder : q.order = e.1 :: es.map (·.1) := by simp [h.order, keys, hes]
    have hlength : (es.map (·.1) ++ [k]).length = q.capacity := by
      rw [h.capacity, ← hfull, size, hes]
      simp
    -- one key leaves the queue, and then the rest fits
    have hshrink : shrink q.capacity (q.order ++ [k]) ((k, v) :: q.entries) =
        (es.map (·.1) ++ [k], ((k, v) :: q.entries).filter (·.1 ≠ e.1)) := by
      rw [horder, List.cons_append, shrink, if_pos (by omega), shrink_of_le (Nat.le_of_eq hlength)]
    have hq : q.insert k v = { q with
        order := es.map (·.1) ++ [k]
        entries := ((k, v) :: q.entries).filter (·.1 ≠ e.1) } := by
      rw [Indexed.insert, if_neg (by simp [hany]), hshrink]
    rw [hq, he]
    refine ⟨h.capacity, ?_, ?_⟩
    · simp [keys]
    · have hne : k ≠ e.1 := fun heq => hk (by simp [keys, hes, heq])
      have hnodup := hc.nodup
      rw [keys, hes] at hnodup
      have hperm : (q.entries.filter (·.1 ≠ e.1)).Perm es := by
        rw [← filter_front hnodup, ← hes]
        exact h.entries.filter _
      rw [List.filter_cons_of_pos (by simpa using hne)]
      exact (hperm.cons (k, v)).trans (List.perm_append_singleton (k, v) es).symm

/-- The table and the queue stay in step. -/
theorem keeps_after (n : Nat) (history : List (Op κ α)) :
    (after n history).Keeps (Cache.after n history) := by
  induction history using List.reverseRecOn with
  | nil => exact ⟨rfl, rfl, .nil⟩
  | append_singleton history op ih =>
    rw [after, List.foldl_append, after_concat]
    cases op with
    | insert k v => exact ih.insert (bounded_after n history) k v
    | get k => exact ih

theorem Keeps.get?_eq {q : Indexed κ α} (h : q.Keeps c) (hc : c.Bounded) (k : κ) :
    q.get? k = c.get? k := by
  have hnodup : (⟨q.capacity, q.entries⟩ : Cache κ α).keys.Nodup :=
    (h.entries.map Prod.fst).nodup_iff.mpr hc.nodup
  refine Option.ext fun v => ?_
  rw [get?_eq_some_iff hc.nodup, ← h.entries.mem_iff]
  exact get?_eq_some_iff hnodup

end Indexed

/-! ### The cache as a bounded queue -/

/-- What is true of a cache made for `n` entries once these operations are done. -/
structure ExactFifo (n : Nat) (history : List (Op κ α)) : Prop where
  /-- Kept as a table and a queue, the cache has these keys in this order and gives these
  answers. -/
  indexed : (Indexed.after n history).order = (after n history).keys ∧
    ∀ k, (Indexed.after n history).get? k = (after n history).get? k
  /-- The queue has no duplicates and lists exactly the keys of the table. -/
  inStep : (Indexed.after n history).order.Nodup ∧
    (Indexed.after n history).order.Perm ((Indexed.after n history).entries.map (·.1))
  /-- No more keys are listed than there is room for, which is one at least. -/
  bound : (Indexed.after n history).order.length ≤ max n 1
  /-- A lookup finds the value that was put in last under a key that is present. -/
  lookup : ∀ k, (after n history).get? k =
    if k ∈ (after n history).keys then lastPut? k history else none
  /-- A key that is present keeps its place, and all others keep their values. -/
  present : ∀ k v, k ∈ (after n history).keys →
    ((after n history).insert k v).keys = (after n history).keys ∧
      ∀ k', k' ≠ k → ((after n history).insert k v).get? k' = (after n history).get? k'
  /-- A new key comes in behind the others where there is room. -/
  new : ∀ k v, k ∉ (after n history).keys → (after n history).size < max n 1 →
    ((after n history).insert k v).keys = (after n history).keys ++ [k] ∧
      ∀ k', k' ≠ k → ((after n history).insert k v).get? k' = (after n history).get? k'
  /-- Where there is none, the one key that has been present longest leaves. -/
  full : ∀ k v, k ∉ (after n history).keys → (after n history).size = max n 1 →
    ∃ oldest, (∀ k', Longest n history k' ↔ k' = oldest) ∧
      ((after n history).insert k v).keys = (after n history).keys.erase oldest ++ [k] ∧
      ((after n history).insert k v).get? oldest = none ∧
      ∀ k', k' ≠ k → k' ≠ oldest →
        ((after n history).insert k v).get? k' = (after n history).get? k'
  /-- The key that was just put in is present. -/
  fresh : ∀ k v, ((after n history).insert k v).get? k = some v

theorem exact_bounded_fifo (n : Nat) (history : List (Op κ α)) : ExactFifo n history where
  indexed :=
    have hkeeps := Indexed.keeps_after n history
    ⟨hkeeps.order, hkeeps.get?_eq (bounded_after n history)⟩
  inStep := by
    have hkeeps := Indexed.keeps_after n history
    rw [hkeeps.order]
    exact ⟨(bounded_after n history).nodup, (hkeeps.entries.map Prod.fst).symm⟩
  bound := by
    rw [(Indexed.keeps_after n history).order, length_keys, ← capacity_after n history]
    exact (bounded_after n history).size_le
  lookup := get?_after n history
  present k v hk := by
    have hb := bounded_after n history
    have hkeys := keys_insert_of_mem hb hk v
    exact ⟨hkeys, fun k' hne => get?_insert_of_ne hb hne fun hk' => hkeys ▸ hk'⟩
  new k v hk hroom := by
    have hb := bounded_after n history
    have hkeys := keys_insert_of_room hb hk (capacity_after n history ▸ hroom) v
    exact ⟨hkeys, fun k' hne => get?_insert_of_ne hb hne fun hk' =>
      hkeys ▸ List.mem_append_left [k] hk'⟩
  full k v hk hfull := by
    have hb := bounded_after n history
    obtain ⟨oldest, rest, hold, hkeys⟩ :=
      keys_insert_of_full hb hk (capacity_after n history ▸ hfull) v
    have hnodup := hb.nodup
    rw [hold, List.nodup_cons] at hnodup
    rw [hold, List.mem_cons, not_or] at hk
    refine ⟨oldest, fun k' => longest_iff hold, ?_, ?_, fun k' hne hold' => ?_⟩
    · rw [hkeys, hold, List.erase_cons_head]
    · rw [get?_eq_none_iff, hkeys]
      simpa using ⟨hnodup.1, Ne.symm hk.1⟩
    · refine get?_insert_of_ne hb hne fun hk' => ?_
      rw [hold, List.mem_cons] at hk'
      exact hkeys ▸ List.mem_append_left [k] (hk'.resolve_left hold')
  fresh := get?_insert_self (bounded_after n history)

/-- A key whose value is replaced, and one that leaves and comes back. -/
def rewrites : List (Op Nat String) :=
  [.insert 1 "a", .insert 2 "b", .insert 1 "c", .get 1, .insert 3 "d", .insert 1 "e"]

/-- The key that came back is the youngest, so the other one leaves. -/
theorem returned_key_outlives_other :
    (4 ∉ (after 2 rewrites).keys ∧ (after 2 rewrites).size = max 2 1) ∧
      Longest 2 rewrites 3 ∧ ((after 2 rewrites).insert 4 "f").get? 3 = none ∧
      ((after 2 rewrites).insert 4 "f").get? 1 = some "e" := by
  have hnew : 4 ∉ (after 2 rewrites).keys := by decide
  have hfull : (after 2 rewrites).size = max 2 1 := by decide
  obtain ⟨oldest, hlongest, -, hgone, hkept⟩ :=
    (exact_bounded_fifo 2 rewrites).full 4 "f" hnew hfull
  have holdest : oldest = 3 := by
    by_contra hne
    exact absurd (hkept 3 (by decide) (Ne.symm hne)) (by decide)
  subst holdest
  exact ⟨⟨hnew, hfull⟩, (hlongest 3).mpr rfl, hgone, hkept 1 (by decide) (by decide)⟩

end RuleExchange.Cache
