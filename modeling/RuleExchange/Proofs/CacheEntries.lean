import RuleExchange.Engine.Cache

/-! Entries of the cache. What is found was put in under the same key, and a value that was
just put in is found. -/

namespace RuleExchange.Cache

variable {κ α : Type} [DecidableEq κ]

theorem mem_of_get? {c : Cache κ α} {k : κ} {v : α} (h : c.get? k = some v) :
    (k, v) ∈ c.entries := by
  obtain ⟨e, he, rfl⟩ := Option.map_eq_some_iff.mp h
  have hk : e.1 = k := by simpa using List.find?_some he
  exact hk ▸ List.mem_of_find?_eq_some he

theorem get?_ne_none {c : Cache κ α} {k : κ} {v : α} (h : (k, v) ∈ c.entries) :
    c.get? k ≠ none := by
  intro hn
  have hf : c.entries.find? (·.1 = k) = none := by simpa [get?] using hn
  have := List.find?_eq_none.mp hf _ h
  simp at this

theorem mem_insert {c : Cache κ α} {k : κ} {v : α} {e : κ × α}
    (h : e ∈ (c.insert k v).entries) : e = (k, v) ∨ e ∈ c.entries := by
  unfold insert at h
  split at h
  · obtain ⟨e', he', rfl⟩ := List.mem_map.mp h
    split
    · exact .inl rfl
    · exact .inr he'
  · rcases List.mem_append.mp (List.mem_of_mem_drop h) with h | h
    · exact .inr h
    · exact .inl (List.mem_singleton.mp h)

theorem mem_insert_self {c : Cache κ α} (hc : 0 < c.capacity) (k : κ) (v : α) :
    (k, v) ∈ (c.insert k v).entries := by
  unfold insert
  split
  · rename_i hk
    obtain ⟨e, he, hek⟩ := List.any_eq_true.mp hk
    have hek : e.1 = k := by simpa using hek
    exact List.mem_map.mpr ⟨e, he, if_pos hek⟩
  · -- the last entry is never among those that leave
    have hle : (c.entries ++ [(k, v)]).length - c.capacity ≤ c.entries.length := by
      simp only [List.length_append, List.length_singleton]
      omega
    show (k, v) ∈ (c.entries ++ [(k, v)]).drop _
    rw [List.drop_append_of_le_length hle]
    exact List.mem_append_right _ (List.mem_singleton_self _)

@[simp] theorem capacity_insert (c : Cache κ α) (k : κ) (v : α) :
    (c.insert k v).capacity = c.capacity := by
  unfold insert
  split <;> rfl

theorem contains_iff {c : Cache κ α} {k : κ} :
    c.contains k = true ↔ ∃ v, (k, v) ∈ c.entries := by
  constructor
  · intro h
    obtain ⟨⟨k', v⟩, hm, hk⟩ := List.any_eq_true.mp h
    have hk : k' = k := by simpa using hk
    exact ⟨v, hk ▸ hm⟩
  · rintro ⟨v, hm⟩
    exact List.any_eq_true.mpr ⟨(k, v), hm, by simp⟩

end RuleExchange.Cache
