import Mathlib.Data.List.Nodup
import RuleExchange.Engine.Flights

/-! Tickets of shared work. A key is under way at most once, a ticket belongs to one key, and
a ticket that has landed is not under way any more. A leader that lands releases its own
key only, and what a ticket has left does not change afterwards. -/

namespace RuleExchange.Flights

variable {κ α : Type}

structure WellFormed (f : Flights κ α) : Prop where
  keys : (f.underWay.map (·.1)).Nodup
  tickets : (f.underWay.map (·.2)).Nodup
  fresh : ∀ k t, (k, t) ∈ f.underWay → t < f.nextTicket
  past : ∀ t v, (t, v) ∈ f.landed → t < f.nextTicket
  apart : ∀ k t v, (k, t) ∈ f.underWay → (t, v) ∉ f.landed

theorem wellFormed_empty : WellFormed ({} : Flights κ α) where
  keys := .nil
  tickets := .nil
  fresh := by simp
  past := by simp
  apart := by simp

theorem WellFormed.key_unique {f : Flights κ α} (h : f.WellFormed) {k k' : κ} {t : Nat}
    (hk : (k, t) ∈ f.underWay) (hk' : (k', t) ∈ f.underWay) : k = k' :=
  congrArg Prod.fst (List.inj_on_of_nodup_map h.tickets hk hk' rfl)

theorem WellFormed.ticket_unique {f : Flights κ α} (h : f.WellFormed) {k : κ} {t t' : Nat}
    (ht : (k, t) ∈ f.underWay) (ht' : (k, t') ∈ f.underWay) : t = t' :=
  congrArg Prod.snd (List.inj_on_of_nodup_map h.keys ht ht' rfl)

/-! ### What landed tickets have left -/

theorem result?_eq_none {f : Flights κ α} {t : Nat} (h : ∀ v, (t, v) ∉ f.landed) :
    f.result? t = none := by
  have hnone : f.landed.find? (·.1 = t) = none := by
    rw [List.find?_eq_none]
    rintro ⟨t', v⟩ hm ht
    have ht' : t' = t := by simpa using ht
    exact h v (ht' ▸ hm)
  simp [result?, hnone]

theorem WellFormed.result?_of_underWay {f : Flights κ α} (h : f.WellFormed) {k : κ} {t : Nat}
    (hk : (k, t) ∈ f.underWay) : f.result? t = none :=
  result?_eq_none fun v => h.apart k t v hk

/-! ### Joining and leaving -/

/-- A key under way that was free before. -/
def launch (f : Flights κ α) (k : κ) : Flights κ α :=
  { f with underWay := f.underWay ++ [(k, f.nextTicket)], nextTicket := f.nextTicket + 1 }

theorem mem_underWay_launch {f : Flights κ α} {k k' : κ} {t : Nat} :
    (k', t) ∈ (f.launch k).underWay ↔ (k', t) ∈ f.underWay ∨ k' = k ∧ t = f.nextTicket := by
  simp [launch]

theorem wellFormed_launch {f : Flights κ α} (h : f.WellFormed) {k : κ}
    (hk : ∀ t, (k, t) ∉ f.underWay) : (f.launch k).WellFormed where
  keys := by
    rw [launch, List.map_append, List.nodup_append]
    refine ⟨h.keys, List.nodup_singleton _, ?_⟩
    rintro a ha b hb rfl
    obtain ⟨⟨k', t⟩, hm, rfl⟩ := List.mem_map.mp ha
    cases List.mem_singleton.mp hb
    exact hk t hm
  tickets := by
    rw [launch, List.map_append, List.nodup_append]
    refine ⟨h.tickets, List.nodup_singleton _, ?_⟩
    rintro a ha b hb rfl
    obtain ⟨⟨k', t⟩, hm, rfl⟩ := List.mem_map.mp ha
    cases List.mem_singleton.mp hb
    exact absurd (h.fresh k' _ hm) (Nat.lt_irrefl _)
  fresh k' t hm := by
    rcases List.mem_append.mp hm with hm | hm
    · exact Nat.lt_succ_of_lt (h.fresh k' t hm)
    · cases List.mem_singleton.mp hm
      exact Nat.lt_succ_self _
  past t v hm := Nat.lt_succ_of_lt (h.past t v hm)
  apart k' t v hm hv := by
    rcases List.mem_append.mp hm with hm | hm
    · exact h.apart k' t v hm hv
    · cases List.mem_singleton.mp hm
      exact absurd (h.past _ v hv) (Nat.lt_irrefl _)

variable [DecidableEq κ]

theorem result?_land_of_some {f : Flights κ α} {t : Nat} {v : Option α}
    (h : f.result? t = some v) (l : Leader κ) (v' : Option α) :
    (f.land l v').result? t = some v := by
  obtain ⟨tv, htv, rfl⟩ := Option.map_eq_some_iff.mp h
  simp [result?, land, forget, List.find?_append, htv]

theorem result?_land_self {f : Flights κ α} {l : Leader κ} (h : ∀ v, (l.ticket, v) ∉ f.landed)
    (v : Option α) : (f.land l v).result? l.ticket = some v := by
  have hnone : f.landed.find? (·.1 = l.ticket) = none := by
    simpa [result?] using result?_eq_none h
  simp [result?, land, forget, List.find?_append, hnone]

theorem result?_land_of_ne {f : Flights κ α} {l : Leader κ} {t : Nat} (hne : t ≠ l.ticket)
    (v : Option α) : (f.land l v).result? t = f.result? t := by
  have hlast : [(l.ticket, v)].find? (·.1 = t) = none := by simp [Ne.symm hne]
  rw [result?, land, List.find?_append, hlast, Option.or_none]
  rfl

theorem mem_underWay_forget {f : Flights κ α} {k k' : κ} {t : Nat} :
    (k', t) ∈ (f.forget k).underWay ↔ (k', t) ∈ f.underWay ∧ k' ≠ k := by
  simp [forget]

theorem wellFormed_forget {f : Flights κ α} (h : f.WellFormed) (k : κ) :
    (f.forget k).WellFormed where
  keys := h.keys.sublist (List.filter_sublist.map _)
  tickets := h.tickets.sublist (List.filter_sublist.map _)
  fresh k' t hk := h.fresh k' t (mem_underWay_forget.mp hk).1
  past := h.past
  apart k' t v hk := h.apart k' t v (mem_underWay_forget.mp hk).1

theorem mem_underWay_land {f : Flights κ α} {l : Leader κ} {v : Option α} {k : κ} {t : Nat} :
    (k, t) ∈ (f.land l v).underWay ↔ (k, t) ∈ f.underWay ∧ k ≠ l.key :=
  mem_underWay_forget

theorem wellFormed_land {f : Flights κ α} (h : f.WellFormed) {l : Leader κ}
    (hl : (l.key, l.ticket) ∈ f.underWay) (v : Option α) : (f.land l v).WellFormed where
  keys := (wellFormed_forget h l.key).keys
  tickets := (wellFormed_forget h l.key).tickets
  fresh := (wellFormed_forget h l.key).fresh
  past t w ht := by
    rcases List.mem_append.mp ht with ht | ht
    · exact h.past t w ht
    · cases List.mem_singleton.mp ht
      exact h.fresh _ _ hl
  apart k t w hk ht := by
    obtain ⟨hk, hne⟩ := mem_underWay_land.mp hk
    rcases List.mem_append.mp ht with ht | ht
    · exact h.apart k t w hk ht
    · cases List.mem_singleton.mp ht
      exact hne (h.key_unique hk hl)

theorem join_cases (f : Flights κ α) (k : κ) :
    (∃ t, (k, t) ∈ f.underWay ∧ f.join k = (f, .follower t)) ∨
    ((∀ t, (k, t) ∉ f.underWay) ∧ f.join k = (f.launch k, .leader ⟨k, f.nextTicket⟩)) := by
  cases hf : f.underWay.find? (·.1 = k) with
  | some kt =>
    obtain ⟨k', t⟩ := kt
    have hk : k' = k := by simpa using List.find?_some hf
    exact .inl ⟨t, hk ▸ List.mem_of_find?_eq_some hf, by simp [join, hf]⟩
  | none =>
    refine .inr ⟨fun t ht => ?_, by simp [join, launch, hf]⟩
    have := List.find?_eq_none.mp hf _ ht
    simp at this

end RuleExchange.Flights
