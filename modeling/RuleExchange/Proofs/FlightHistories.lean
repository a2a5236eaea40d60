import RuleExchange.Proofs.FlightGuards
import RuleExchange.Proofs.WorldProgress

/-! Any run of joins, steps of guards and waits. A key is under way as long as one guard holds it,
and that is the one that joined for it first and has not ended since. A follower is told how the
guard ended that held the key when it joined, whoever leads the key by then. An entry goes with its
own guard only, and every run can be brought to an end at which nobody waits. Publishing and
abandoning in one step is what the steps of a guard come to with nothing in between, so that the
flights of any world are those of a run of guards. -/

namespace RuleExchange.Guards

open History (Happens)

variable {κ α : Type} {c : Channel α}

namespace Group

/-! ### Roles -/

def roles (s : Group c κ) : List (Role κ) := s.parties.map (·.role)

variable {s : Group c κ} {i j : Nat} {k : κ} {l : Leader κ} {st : Stage α}

theorem roles_eq_leader_iff :
    s.roles[i]? = some (.leader l) ↔ ∃ st, s.parties[i]? = some (.guard l st) := by
  rw [roles, List.getElem?_map, Option.map_eq_some_iff]
  constructor
  · rintro ⟨p, hp, hr⟩
    cases p with
    | guard l' st =>
      cases hr
      exact ⟨st, hp⟩
    | waiting t => cases hr
    | told t o => cases hr
  · rintro ⟨st, hst⟩
    exact ⟨_, hst, rfl⟩

theorem Orderly.exists_leader (h : s.Orderly) {t : Nat} (hj : s.roles[j]? = some (.follower t)) :
    ∃ (i : Nat) (l : Leader κ), s.roles[i]? = some (.leader l) ∧ l.ticket = t := by
  rw [roles, List.getElem?_map, Option.map_eq_some_iff] at hj
  obtain ⟨p, hp, hr⟩ := hj
  obtain ⟨i, l, st, hi, hl⟩ := h.followed j p t hp hr
  exact ⟨i, l, roles_eq_leader_iff.mpr ⟨st, hi⟩, hl⟩

theorem Orderly.leader_unique (h : s.Orderly) {l' : Leader κ}
    (hi : s.roles[i]? = some (.leader l)) (hj : s.roles[j]? = some (.leader l'))
    (ht : l.ticket = l'.ticket) : i = j := by
  obtain ⟨st, hi⟩ := roles_eq_leader_iff.mp hi
  obtain ⟨st', hj⟩ := roles_eq_leader_iff.mp hj
  exact h.distinct i j l l' st st' hi hj ht

/-- A party that changes keeps its role. -/
theorem roles_set {p q : Party κ α} {f : Flights κ α} {x : Nat → c.State}
    (hi : s.parties[i]? = some p) (hr : q.role = p.role) :
    roles { flights := f, channels := x, parties := s.parties.set i q : Group c κ } =
      s.roles := by
  refine List.ext_getElem? fun j => ?_
  rw [roles, roles, List.getElem?_map, List.getElem?_map, History.getElem?_set_of_some hi]
  split
  · rename_i hji
    rw [hji, hi, Option.map_some, Option.map_some, hr]
  · rfl

/-! ### Leaders and followers -/

/-- Guard `i` holds the key. -/
def Leads (s : Group c κ) (i : Nat) (k : κ) : Prop :=
  ∃ t, s.parties[i]? = some (.guard ⟨k, t⟩ .held)

/-- Party `j` follows guard `i`. -/
def Follows (s : Group c κ) (j i : Nat) : Prop :=
  ∃ l, s.roles[i]? = some (.leader l) ∧ s.roles[j]? = some (.follower l.ticket)

/-- It is settled that guard `i` ends like this. -/
def Ends (s : Group c κ) (i : Nat) (o : Option α) : Prop :=
  ∃ l st, s.parties[i]? = some (.guard l st) ∧ st.fate = some o

theorem Orderly.leads_unique (h : s.Orderly) (hi : s.Leads i k) (hj : s.Leads j k) : i = j := by
  obtain ⟨t, hi⟩ := hi
  obtain ⟨t', hj⟩ := hj
  have ht : t = t' :=
    h.wellFormed.ticket_unique ((h.led k t).mpr ⟨i, hi⟩) ((h.led k t').mpr ⟨j, hj⟩)
  exact h.distinct i j _ _ _ _ hi hj ht

theorem Orderly.follows_unique (h : s.Orderly) {i' : Nat} (hi : s.Follows j i)
    (hi' : s.Follows j i') : i = i' := by
  obtain ⟨l, hl, hj⟩ := hi
  obtain ⟨l', hl', hj'⟩ := hi'
  have hrole : Role.follower l.ticket = .follower l'.ticket :=
    Option.some.inj (hj.symm.trans hj')
  exact h.leader_unique hl hl' (Role.follower.inj hrole)

theorem Ends.unique {o o' : Option α} (h : s.Ends i o) (h' : s.Ends i o') : o = o' := by
  obtain ⟨l, st, hi, ho⟩ := h
  obtain ⟨l', st', hi', ho'⟩ := h'
  cases hi.symm.trans hi'
  exact Option.some.inj (ho.symm.trans ho')

/-- A follower is told how its own leader ended. -/
theorem Orderly.ends_of_told (h : s.Orderly) (hf : s.Follows j i) {t : Nat} {o : Option α}
    (hj : s.parties[j]? = some (.told t o)) : s.Ends i o := by
  obtain ⟨l, hl, hj'⟩ := hf
  obtain ⟨st, hi⟩ := roles_eq_leader_iff.mp hl
  have ht : t = l.ticket := by
    rw [roles, List.getElem?_map, hj] at hj'
    exact Role.follower.inj (Option.some.inj hj')
  have hseen : st.seen = some o := (h.shown i l st hi).symm.trans (ht ▸ h.told j t o hj)
  exact ⟨l, st, hi, Stage.fate_of_seen hseen⟩

/-! ### What brings these about -/

variable [DecidableEq κ]

theorem roles_act (s : Group c κ) (i : Nat) (a : Act α) : (s.apply (.act i a)).roles = s.roles := by
  rcases s.act_cases i a with ⟨l, st, hi, ha⟩ | ⟨-, ha⟩ <;> rw [ha]
  exact roles_set hi rfl

theorem roles_wait (s : Group c κ) (j : Nat) : (s.apply (.wait j)).roles = s.roles := by
  rcases s.wait_cases j with ⟨t, o, hj, -, hw⟩ | ⟨-, hw⟩ <;> rw [hw]
  exact roles_set hj rfl

theorem roles_join (s : Group c κ) (k : κ) :
    (s.apply (.join k)).roles = s.roles ++ [(s.flights.join k).2] := by
  cases hj : s.flights.join k with
  | mk f r => cases r <;> simp [apply, hj, enroll, roles, Party.role]

theorem ends_apply_iff {o : Option α} (ev : Event κ α) : (s.apply ev).Ends i o ↔
    s.Ends i o ∨ ev = .act i (.ending o) ∧ ∃ k, s.Leads i k := by
  cases ev with
  | join k =>
    have hguard : ∀ p : Party κ α, (∀ l st, p = .guard l st → st = .held) →
        ((∃ l st, (s.parties ++ [p])[i]? = some (.guard l st) ∧ st.fate = some o) ↔
          s.Ends i o) := by
      intro p hp
      constructor
      · rintro ⟨l, st, hi, ho⟩
        rcases History.getElem?_concat_eq_some_iff.mp hi with hi | ⟨-, hi⟩
        · exact ⟨l, st, hi, ho⟩
        · cases hp l st hi
          cases ho
      · rintro ⟨l, st, hi, ho⟩
        exact ⟨l, st, History.getElem?_concat_eq_some_iff.mpr (.inl hi), ho⟩
    rcases s.join_cases k with ⟨t, -, hj⟩ | ⟨-, hj⟩ <;> rw [hj]
    · exact (hguard _ (by simp)).trans (by simp)
    · refine (hguard _ ?_).trans (by simp)
      rintro l st hp
      cases hp
      rfl
  | act i' a =>
    rcases s.act_cases i' a with ⟨l, st, hi, ha⟩ | ⟨hno, ha⟩ <;> rw [ha]
    · by_cases hii : i = i'
      · subst hii
        constructor
        · rintro ⟨l', st', hi', ho⟩
          cases (move_self hi).symm.trans hi'
          rcases Stage.fate_next_iff.mp ho with ho | ⟨rfl, rfl⟩
          · exact .inl ⟨l, st, hi, ho⟩
          · exact .inr ⟨rfl, l.key, l.ticket, hi⟩
        · rintro (⟨l', st', hi', ho⟩ | ⟨hev, k, t, hi'⟩)
          · cases hi.symm.trans hi'
            exact ⟨l, _, move_self hi, Stage.fate_next_iff.mpr (.inl ho)⟩
          · cases hi.symm.trans hi'
            cases hev
            exact ⟨_, _, move_self hi, Stage.fate_next_iff.mpr (.inr ⟨rfl, rfl⟩)⟩
      · rw [Ends, move_of_ne hi hii]
        refine (or_iff_left ?_).symm
        rintro ⟨hev, -⟩
        cases hev
        exact hii rfl
    · refine (or_iff_left ?_).symm
      rintro ⟨hev, k, t, hi⟩
      cases hev
      exact hno _ _ hi
  | wait j =>
    rw [or_iff_left (by simp)]
    rcases s.wait_cases j with ⟨t, o', hj, -, hw⟩ | ⟨-, hw⟩ <;> rw [hw]
    rw [Ends, Ends]
    dsimp only
    rw [History.getElem?_set_of_some hj]
    by_cases hij : i = j
    · simp [hij, hj]
    · simp [hij]

theorem Orderly.follows_apply_iff (h : s.Orderly) (ev : Event κ α) : (s.apply ev).Follows j i ↔
    s.Follows j i ∨ ∃ k, ev = .join k ∧ s.parties.length = j ∧ s.Leads i k := by
  cases ev with
  | act i' a => simp [Follows, roles_act]
  | wait j' => simp [Follows, roles_wait]
  | join k =>
    have hlength : s.roles.length = s.parties.length := List.length_map _
    rw [Follows, roles_join]
    simp only [History.getElem?_concat_eq_some_iff]
    rcases s.flights.join_cases k with ⟨t, ht, hj⟩ | ⟨hk, hj⟩ <;> rw [hj]
    · obtain ⟨i₀, hi₀⟩ := (h.led k t).mp ht
      constructor
      · rintro ⟨l, hl | ⟨-, hl⟩, hj | ⟨rfl, hj⟩⟩
        · exact .inl ⟨l, hl, hj⟩
        · -- the key's ticket is that of the guard that holds it
          have hii : i₀ = i :=
            h.leader_unique (roles_eq_leader_iff.mpr ⟨_, hi₀⟩) hl (Role.follower.inj hj)
          exact .inr ⟨k, rfl, hlength.symm, t, hii ▸ hi₀⟩
        · cases hl
        · cases hl
      · rintro (⟨l, hl, hj⟩ | ⟨k', hev, rfl, t', hi⟩)
        · exact ⟨l, .inl hl, .inl hj⟩
        · cases hev
          have htt : t' = t := h.wellFormed.ticket_unique ((h.led k t').mpr ⟨i, hi⟩) ht
          subst htt
          exact ⟨_, .inl (roles_eq_leader_iff.mpr ⟨_, hi⟩), .inr ⟨hlength.symm, rfl⟩⟩
    · constructor
      · rintro ⟨l, hl | ⟨-, hl⟩, hj | ⟨-, hj⟩⟩
        · exact .inl ⟨l, hl, hj⟩
        · cases hj
        · cases hl
          -- nobody follows a ticket that is still to be given out
          obtain ⟨i', l', hl', ht⟩ := h.exists_leader hj
          obtain ⟨st, hi'⟩ := roles_eq_leader_iff.mp hl'
          exact absurd (ht ▸ h.past i' l' st hi') (Nat.lt_irrefl _)
        · cases hj
      · rintro (⟨l, hl, hj⟩ | ⟨k', hev, -, t, hi⟩)
        · exact ⟨l, .inl hl, .inl hj⟩
        · cases hev
          exact absurd ((h.led k t).mpr ⟨i, hi⟩) (hk t)

/-- An entry goes with the guard that holds it, and it goes when this guard ends. -/
theorem Orderly.own_entry (h : s.Orderly) (ev : Event κ α) {t : Nat}
    (ht : (k, t) ∈ s.flights.underWay) (hgone : (k, t) ∉ (s.apply ev).flights.underWay) :
    ∃ i o, ev = .act i (.ending o) ∧ s.parties[i]? = some (.guard ⟨k, t⟩ .held) := by
  cases ev with
  | join k' =>
    rcases s.join_cases k' with ⟨t', -, hj⟩ | ⟨-, hj⟩ <;> rw [hj] at hgone
    · exact absurd ht hgone
    · exact absurd (Flights.mem_underWay_launch.mpr (.inl ht)) hgone
  | act i a =>
    rcases s.act_cases i a with ⟨l, st, hi, ha⟩ | ⟨-, ha⟩ <;> rw [ha] at hgone
    · change (k, t) ∉ (st.release s.flights l.key a).underWay at hgone
      rcases st.release_eq s.flights l.key a with ⟨o, rfl, rfl, hf⟩ | ⟨-, hf⟩ <;> rw [hf] at hgone
      · have hk : k = l.key := by
          by_contra hne
          exact hgone (Flights.mem_underWay_forget.mpr ⟨ht, hne⟩)
        subst hk
        have htl : t = l.ticket := h.wellFormed.ticket_unique ht ((h.led _ _).mpr ⟨i, hi⟩)
        exact ⟨i, o, rfl, htl ▸ hi⟩
      · exact absurd ht hgone
    · exact absurd ht hgone
  | wait j =>
    rcases s.wait_cases j with ⟨t', o, -, -, hw⟩ | ⟨-, hw⟩ <;> rw [hw] at hgone <;>
      exact absurd ht hgone

/-- A follower whose leader is gone need not wait any longer. -/
theorem Orderly.told_of_gone (h : s.Orderly) (hf : s.Follows j i) {o : Option α}
    (hi : s.parties[i]? = some (.guard l (.gone o))) {t : Nat}
    (hj : s.parties[j]? = some (.waiting t)) :
    (s.apply (.wait j)).parties[j]? = some (.told t o) := by
  obtain ⟨l', hl, hj'⟩ := hf
  obtain ⟨st, hi'⟩ := roles_eq_leader_iff.mp hl
  cases hi.symm.trans hi'
  have ht : t = l.ticket := by
    rw [roles, List.getElem?_map, hj] at hj'
    exact Role.follower.inj (Option.some.inj hj')
  have ho : c.receive (s.channels t) = some o := ht ▸ h.shown i l _ hi
  rcases s.wait_cases j with ⟨t', o', hw, ho', ha⟩ | ⟨hno, -⟩
  · cases hj.symm.trans hw
    cases ho.symm.trans ho'
    rw [ha, History.getElem?_set_of_some hj, if_pos rfl]
  · cases ho.symm.trans (hno t hj)

end Group

/-! ### Coming to an end -/

namespace Stage

/-- How many steps a guard is away from its end at most. -/
def rank : Stage α → Nat
  | .held => 5
  | .released _ => 4
  | .sent _ => 3
  | .marked _ => 2
  | .leaving _ => 1
  | .gone _ => 0

theorem eq_gone_of_rank {st : Stage α} (h : st.rank = 0) : ∃ o, st = .gone o := by
  cases st with
  | gone o => exact ⟨o, rfl⟩
  | held | released | sent | marked | leaving => cases h

/-- A guard that is not gone can take a step, and if it is held it may end in any way. -/
theorem exists_next {st : Stage α} (h : st.rank ≠ 0) (o : Option α) :
    ∃ a, (a = .proceed ∨ a = .ending o) ∧ (st.next a).rank < st.rank := by
  cases st with
  | held => exact ⟨.ending o, .inr rfl, by cases o <;> simp [Act.ending, next, rank]⟩
  | released | sent | marked | leaving => exact ⟨.proceed, .inl rfl, by simp [next, rank]⟩
  | gone => exact absurd rfl h

end Stage

namespace Party

def rank : Party κ α → Nat
  | .guard _ st => st.rank
  | .waiting _ => 1
  | .told _ _ => 0

/-- A guard that is gone, or a follower that was told. -/
def Settled : Party κ α → Prop
  | .guard _ (.gone _) | .told _ _ => True
  | _ => False

theorem settled_iff {p : Party κ α} : p.Settled ↔ p.rank = 0 := by
  cases p with
  | guard l st => cases st <;> simp [Settled, rank, Stage.rank]
  | waiting t => simp [Settled, rank]
  | told t o => simp [Settled, rank]

end Party

/-- An event with which nobody comes in. A guard that is held ends as it was chosen for it. -/
def Event.Closes (ends : Nat → Option α) : Event κ α → Prop
  | .join _ => False
  | .act i a => a = .proceed ∨ a = .ending (ends i)
  | .wait _ => True

namespace Group

def Settled (s : Group c κ) : Prop := ∀ p ∈ s.parties, p.Settled

def rank (s : Group c κ) : Nat := (s.parties.map (·.rank)).sum

variable [DecidableEq κ] {s : Group c κ}

theorem rank_act_lt {i : Nat} {l : Leader κ} {st : Stage α} {a : Act α}
    (hi : s.parties[i]? = some (.guard l st)) (hlt : (st.next a).rank < st.rank) :
    (s.apply (.act i a)).rank < s.rank := by
  rw [apply_act hi]
  exact History.sum_map_set_lt Party.rank hi hlt

theorem rank_wait_lt {j t : Nat} {o : Option α} (hj : s.parties[j]? = some (.waiting t))
    (ho : c.receive (s.channels t) = some o) : (s.apply (.wait j)).rank < s.rank := by
  rcases s.wait_cases j with ⟨t', o', hj', -, hw⟩ | ⟨hno, -⟩
  · rw [hw]
    exact History.sum_map_set_lt Party.rank hj' Nat.one_pos
  · cases ho.symm.trans (hno t hj)

/-- While a party is not settled, a guard or a follower can go on. -/
theorem Orderly.exists_step (h : s.Orderly) (hs : ¬ s.Settled) (ends : Nat → Option α) :
    ∃ ev : Event κ α, ev.Closes ends ∧ (s.apply ev).rank < s.rank := by
  by_cases hg : ∃ (i : Nat) (l : Leader κ) (st : Stage α),
      s.parties[i]? = some (.guard l st) ∧ st.rank ≠ 0
  · obtain ⟨i, l, st, hi, hst⟩ := hg
    obtain ⟨a, ha, hlt⟩ := Stage.exists_next hst (ends i)
    exact ⟨.act i a, ha, rank_act_lt hi hlt⟩
  · -- all guards are gone, so the party waits for one that is
    simp only [not_exists, not_and, not_not] at hg
    simp only [Settled, Party.settled_iff, not_forall] at hs
    obtain ⟨p, hp, hrank⟩ := hs
    obtain ⟨j, hj⟩ := List.getElem?_of_mem hp
    cases p with
    | guard l st => exact absurd (hg j l st hj) hrank
    | told t o => exact absurd rfl hrank
    | waiting t =>
      obtain ⟨i, l, st, hi, rfl⟩ := h.followed j _ t hj rfl
      obtain ⟨o, rfl⟩ := Stage.eq_gone_of_rank (hg i l st hi)
      exact ⟨.wait j, trivial, rank_wait_lt hj (h.shown i l _ hi)⟩

theorem Orderly.exists_settled (hc : c.Lawful) (h : s.Orderly) (ends : Nat → Option α) :
    ∃ rest : List (Event κ α), (∀ ev ∈ rest, ev.Closes ends) ∧
      (rest.foldl Group.apply s).Settled := by
  induction hn : s.rank using Nat.strongRecOn generalizing s with
  | ind n ih =>
    subst hn
    by_cases hs : s.Settled
    · exact ⟨[], by simp, hs⟩
    · obtain ⟨ev, hev, hlt⟩ := h.exists_step hs ends
      obtain ⟨rest, hrest, hdone⟩ := ih _ hlt (h.apply hc ev) rfl
      exact ⟨ev :: rest, List.forall_mem_cons.mpr ⟨hev, hrest⟩, hdone⟩

/-! ### Steps with nothing in between -/

/-- The flights are what the group comes to: the same keys under way, and the same things left. -/
structure Mirrors (s : Group c κ) (f : Flights κ α) : Prop where
  underWay : s.flights.underWay = f.underWay
  nextTicket : s.flights.nextTicket = f.nextTicket
  results : ∀ t, t < f.nextTicket → c.receive (s.channels t) = f.result? t

/-- The acts of one guard change no channel but its own, and once it ends no keys either. -/
theorem foldl_act {i : Nat} {l : Leader κ} {st : Stage α}
    (hi : s.parties[i]? = some (.guard l st)) (as : List (Act α)) :
    ((as.map (.act i)).foldl Group.apply s).parties[i]? =
        some (.guard l (as.foldl Stage.next st)) ∧
      (∀ t, t ≠ l.ticket →
        ((as.map (.act i)).foldl Group.apply s).channels t = s.channels t) ∧
      (st ≠ .held → ((as.map (.act i)).foldl Group.apply s).flights = s.flights) := by
  induction as generalizing s st with
  | nil => exact ⟨hi, fun _ _ => rfl, fun _ => rfl⟩
  | cons a as ih =>
    obtain ⟨hparty, hchannels, hflights⟩ := ih (move_self (a := a) hi)
    rw [List.map_cons, List.foldl_cons, apply_act hi]
    refine ⟨hparty, fun t ht => (hchannels t ht).trans (channels_move_of_ne ht), fun hst => ?_⟩
    have hnext : st.next a ≠ .held := fun hn => hst (Stage.next_eq_held_iff.mp hn).1
    rw [hflights hnext]
    rcases st.release_eq s.flights l.key a with ⟨o, hheld, -⟩ | ⟨-, hf⟩
    · exact absurd hheld hst
    · exact hf

theorem mirrors_join {f : Flights κ α} (hc : c.Lawful) (hf : f.WellFormed) (h : s.Mirrors f)
    (k : κ) : (s.apply (.join k)).Mirrors (f.join k).1 ∧
      (s.apply (.join k)).roles = s.roles ++ [(f.join k).2] := by
  have hrole : (s.flights.join k).2 = (f.join k).2 := by
    unfold Flights.join
    rw [h.underWay, h.nextTicket]
    split <;> rfl
  refine ⟨?_, by rw [roles_join, hrole]⟩
  rcases f.join_cases k with ⟨t, ht, hj⟩ | ⟨hk, hj⟩ <;> rw [hj] <;>
    rcases s.join_cases k with ⟨t', ht', ha⟩ | ⟨hk', ha⟩ <;> rw [ha]
  · exact ⟨h.underWay, h.nextTicket, h.results⟩
  · exact absurd (h.underWay ▸ ht) (hk' t)
  · exact absurd (h.underWay ▸ ht') (hk t')
  · refine ⟨?_, congrArg (· + 1) h.nextTicket, fun t ht => ?_⟩
    · simp only [Flights.launch, h.underWay, h.nextTicket]
    · change c.receive (Function.update s.channels s.flights.nextTicket c.fresh t) = f.result? t
      rcases Nat.lt_succ_iff_lt_or_eq.mp ht with hlt | rfl
      · rw [h.nextTicket, Function.update_of_ne (Nat.ne_of_lt hlt)]
        exact h.results t hlt
      · rw [h.nextTicket, Function.update_self, hc.waits]
        exact (Flights.result?_eq_none fun v hv => Nat.lt_irrefl _ (hf.past _ v hv)).symm

/-- All the steps of a guard that ends like this. -/
def landing (i : Nat) (o : Option α) : List (Event κ α) :=
  .act i (.ending o) :: (List.replicate 4 .proceed).map (.act i)

/-- A guard that ends and takes all its steps at once lands. -/
theorem Orderly.mirrors_land {f : Flights κ α} (hc : c.Lawful) (hs : s.Orderly)
    (hf : f.WellFormed) (h : s.Mirrors f) {i : Nat} {l : Leader κ}
    (hi : s.parties[i]? = some (.guard l .held)) (o : Option α) :
    ((landing i o).foldl Group.apply s).Mirrors (f.land l o) := by
  have hmem : (l.key, l.ticket) ∈ f.underWay := h.underWay ▸ (hs.led _ _).mpr ⟨i, hi⟩
  have horderly := hs.foldl hc (landing i o)
  have hended : Stage.held.next (.ending o) ≠ .held := fun hn =>
    (Stage.next_eq_held_iff.mp hn).2 o rfl
  have hgone : (List.replicate 4 .proceed).foldl Stage.next (Stage.held.next (.ending o)) =
      .gone o := by
    cases o <;> rfl
  have hreleased : (s.move i l .held (.ending o)).flights = s.flights.forget l.key := by
    rcases Stage.held.release_eq s.flights l.key (.ending o) with ⟨-, -, -, hr⟩ | ⟨hno, -⟩
    · exact hr
    · exact absurd ⟨o, rfl, rfl⟩ hno
  obtain ⟨hparty, hchannels, hflights⟩ :=
    foldl_act (move_self (a := .ending o) hi) (List.replicate 4 .proceed)
  rw [landing, List.foldl_cons, apply_act hi] at horderly ⊢
  refine ⟨?_, ?_, fun t ht => ?_⟩
  · rw [hflights hended, hreleased]
    simp only [Flights.forget, Flights.land, h.underWay]
  · rw [hflights hended, hreleased]
    exact h.nextTicket
  · by_cases htl : t = l.ticket
    · subst htl
      rw [horderly.shown i l _ (hparty.trans (by rw [hgone])),
        Flights.result?_land_self fun v => hf.apart _ _ v hmem]
      rfl
    · rw [hchannels t htl, channels_move_of_ne htl, h.results t ht, Flights.result?_land_of_ne htl]

end Group

/-! ### Any run -/

variable [DecidableEq κ]

def run (c : Channel α) (history : List (Event κ α)) : Group c κ :=
  history.foldl Group.apply {}

theorem orderly_run (hc : c.Lawful) (history : List (Event κ α)) : (run c history).Orderly :=
  Group.orderly_empty.foldl hc history

/-- Party `j` joined while guard `i` held the key. -/
def Joins (c : Channel α) (history : List (Event κ α)) (j i : Nat) : Prop :=
  Happens Group.apply
    (fun s ev => ∃ k, ev = .join k ∧ s.parties.length = j ∧ s.Leads i k) ({} : Group c κ) history

/-- Guard `i` held a key and published a value, or was dropped and left nothing. -/
def Resolves (c : Channel α) (history : List (Event κ α)) (i : Nat) (o : Option α) : Prop :=
  Happens Group.apply
    (fun s ev => ev = .act i (.ending o) ∧ ∃ k, s.Leads i k) ({} : Group c κ) history

theorem follows_run_iff (hc : c.Lawful) (history : List (Event κ α)) (j i : Nat) :
    (run c history).Follows j i ↔ Joins c history j i := by
  have hnone : ¬ ({} : Group c κ).Follows j i := by simp [Group.Follows, Group.roles]
  exact (History.happens_iff (F := fun s => s.Follows j i) Group.orderly_empty
    (fun _ ev h => h.apply hc ev) (fun _ ev h => h.follows_apply_iff ev) history).trans
      (or_iff_right hnone)

theorem ends_run_iff (c : Channel α) (history : List (Event κ α)) (i : Nat) (o : Option α) :
    (run c history).Ends i o ↔ Resolves c history i o := by
  have hnone : ¬ ({} : Group c κ).Ends i o := by simp [Group.Ends]
  exact (History.happens_iff (I := fun _ => True) (F := fun s : Group c κ => s.Ends i o) trivial
    (fun _ _ _ => trivial) (fun _ ev _ => Group.ends_apply_iff ev) history).trans
      (or_iff_right hnone)

/-- What is true of any run of joins, steps of guards and waits. -/
structure SingleFlight (c : Channel α) (history : List (Event κ α)) : Prop where
  /-- A key is under way exactly if a guard holds it, and it is there once. -/
  underWay : ((run c history).flights.underWay.map (·.1)).Nodup ∧
    ∀ k, k ∈ (run c history).flights.underWay.map (·.1) ↔ ∃ i, (run c history).Leads i k
  /-- No two guards hold one key. -/
  alone : ∀ k i j, (run c history).Leads i k → (run c history).Leads j k → i = j
  /-- A guard holds its key until it publishes or is dropped. -/
  live : ∀ (i : Nat) l, (run c history).roles[i]? = some (.leader l) →
    ∀ k, (run c history).Leads i k ↔ k = l.key ∧ ∀ o, ¬ Resolves c history i o
  /-- Each follower joined one guard, which held the key at that time. -/
  joined : ∀ (j : Nat) t, (run c history).roles[j]? = some (.follower t) →
    ∃! i, Joins c history j i
  /-- A follower is told the value its own guard published, or nothing if that one was dropped. -/
  told : ∀ (i j : Nat) t o, Joins c history j i →
    (run c history).parties[j]? = some (.told t o) → ∀ o', Resolves c history i o' ↔ o' = o
  /-- Whatever comes next, an entry goes only when the guard that holds it ends. -/
  own : ∀ (ev : Event κ α) k t, (k, t) ∈ (run c history).flights.underWay →
    (k, t) ∉ (run c (history ++ [ev])).flights.underWay →
    ∃ i o, ev = .act i (.ending o) ∧
      (run c history).parties[i]? = some (.guard ⟨k, t⟩ .held)
  /-- Nothing is under way when all guards have ended. -/
  empty : (∀ (i : Nat) l, (run c history).roles[i]? = some (.leader l) →
    ∃ o, Resolves c history i o) → (run c history).flights.underWay = []
  /-- A follower whose guard is gone is told the next time it looks. -/
  released : ∀ (i j : Nat) l o t, Joins c history j i →
    (run c history).parties[i]? = some (.guard l (.gone o)) →
    (run c history).parties[j]? = some (.waiting t) →
    (run c (history ++ [.wait j])).parties[j]? = some (.told t o)
  /-- However the guards that are still held are to end, the run can go on until each guard is gone
  and each follower is told, and nobody has to join for that. -/
  finishes : ∀ ends : Nat → Option α, ∃ rest : List (Event κ α),
    (∀ ev ∈ rest, ev.Closes ends) ∧ (run c (history ++ rest)).Settled

theorem run_append (c : Channel α) (history rest : List (Event κ α)) :
    run c (history ++ rest) = rest.foldl Group.apply (run c history) :=
  List.foldl_append

theorem leads_run_iff (c : Channel α) (history : List (Event κ α)) {i : Nat} {l : Leader κ}
    (hl : (run c history).roles[i]? = some (.leader l)) (k : κ) :
    (run c history).Leads i k ↔ k = l.key ∧ ∀ o, ¬ Resolves c history i o := by
  obtain ⟨st, hi⟩ := Group.roles_eq_leader_iff.mp hl
  have hheld : st = .held ↔ ∀ o, ¬ Resolves c history i o := by
    rw [Stage.eq_held_iff, Option.eq_none_iff_forall_ne_some]
    refine forall_congr' fun o => not_congr ?_
    rw [← ends_run_iff]
    constructor
    · exact fun ho => ⟨l, st, hi, ho⟩
    · rintro ⟨l', st', hi', ho⟩
      cases hi.symm.trans hi'
      exact ho
  rw [← hheld]
  constructor
  · rintro ⟨t, ht⟩
    cases hi.symm.trans ht
    exact ⟨rfl, rfl⟩
  · rintro ⟨rfl, rfl⟩
    exact ⟨l.ticket, hi⟩

theorem exclusive_and_never_stuck (hc : c.Lawful) (history : List (Event κ α)) :
    SingleFlight c history := by
  have h := orderly_run hc history
  have hkey (k : κ) : k ∈ (run c history).flights.underWay.map (·.1) ↔
      ∃ i, (run c history).Leads i k := by
    simp only [List.mem_map, Prod.exists, exists_and_right, exists_eq_right, h.led]
    exact exists_comm
  exact {
    underWay := ⟨h.wellFormed.keys, hkey⟩
    alone := fun k i j => h.leads_unique
    live := fun i l hl => leads_run_iff c history hl
    joined := by
      intro j t hj
      obtain ⟨i, l, hl, rfl⟩ := h.exists_leader hj
      simp only [← follows_run_iff hc]
      exact ⟨i, ⟨l, hl, hj⟩, fun i' hi' => h.follows_unique hi' ⟨l, hl, hj⟩⟩
    told := by
      intro i j t o hjoins hj o'
      rw [← follows_run_iff hc] at hjoins
      have hends := h.ends_of_told hjoins hj
      rw [← ends_run_iff]
      constructor
      · exact fun ho' => ho'.unique hends
      · rintro rfl
        exact hends
    own := by
      intro ev k t ht hgone
      rw [run_append] at hgone
      exact h.own_entry ev ht hgone
    empty := by
      intro hall
      rw [List.eq_nil_iff_forall_not_mem]
      rintro ⟨k, t⟩ hmem
      obtain ⟨i, hi⟩ := (h.led k t).mp hmem
      have hl : (run c history).roles[i]? = some (.leader ⟨k, t⟩) :=
        Group.roles_eq_leader_iff.mpr ⟨_, hi⟩
      obtain ⟨o, ho⟩ := hall i _ hl
      exact ((leads_run_iff c history hl k).mp ⟨t, hi⟩).2 o ho
    released := by
      intro i j l o t hjoins hi hj
      rw [← follows_run_iff hc] at hjoins
      rw [run_append]
      exact h.told_of_gone hjoins hi hj
    finishes := by
      intro ends
      obtain ⟨rest, hrest, hdone⟩ := h.exists_settled hc ends
      exact ⟨rest, hrest, run_append c history rest ▸ hdone⟩ }

/-- The last value, if there is one, and whether the sender is gone. -/
def lasting (α : Type) : Channel α where
  State := Option α × Bool
  fresh := (none, false)
  send x v := (some v, x.2)
  close x := (x.1, true)
  receive
    | (some v, _) => some (some v)
    | (none, true) => some none
    | (none, false) => none

theorem lasting_lawful : (lasting α).Lawful where
  waits := rfl
  sent _ _ _ := rfl
  kept := by
    rintro ⟨_ | v', b⟩ v h
    · cases b <;> cases h
    · exact h
  closed := by
    rintro ⟨_ | v', b⟩ h
    · rfl
    · cases h

/-- Party 2 leads the key before guard 0 has sent its value, and it is dropped. -/
def generations : List (Event String Nat) :=
  [.join "k", .join "k", .act 0 (.publish 7), .join "k", .join "k", .act 0 .proceed, .wait 3,
    .act 0 .proceed, .act 0 .proceed, .act 0 .proceed, .act 2 .drop, .wait 1, .act 2 .proceed,
    .wait 3]

/-- Each follower is told what its own guard left, and the first one takes no entry but its own. -/
theorem generations_keep_apart :
    (lasting Nat).Lawful ∧ SingleFlight (lasting Nat) generations ∧
      (run (lasting Nat) (generations.take 10)).flights.underWay = [("k", 1)] ∧
      (run (lasting Nat) generations).parties =
        [.guard ⟨"k", 0⟩ (.gone (some 7)), .told 0 (some 7), .guard ⟨"k", 1⟩ (.gone none),
          .told 1 none] :=
  ⟨lasting_lawful, exclusive_and_never_stuck lasting_lawful generations, by decide, by decide⟩

end RuleExchange.Guards

namespace RuleExchange.Engine.World

open Guards (Channel)

variable {e : Setup} {w : World} {c : Channel Outcome}

/-- Each move of a call is nothing, a join or a landing to the guards. -/
theorem Orderly.exists_mirror (hc : c.Lawful) (h : w.Orderly e) (i : Nat)
    {history : List (Guards.Event Fingerprint Outcome)}
    (hm : (Guards.run c history).Mirrors w.state.flights) :
    ∃ more, (Guards.run c (history ++ more)).Mirrors (w.move e i).state.flights := by
  have horderly := Guards.orderly_run hc history
  have hsame : ∃ more, (Guards.run c (history ++ more)).Mirrors w.state.flights :=
    ⟨[], (List.append_nil history).symm ▸ hm⟩
  rcases w.move_cases e i with hw | ⟨d, s', p, hd, -, ht, hw⟩ <;> rw [hw]
  · exact hsame
  · rcases ht.flights_cases with ⟨hf, -⟩ | ⟨l, -, -, -, hk, hf⟩ | ⟨l, o, hl, -, -, hf⟩
    · exact hf ▸ hsame
    · refine ⟨[.join l.route.key], ?_⟩
      rw [Guards.run_append]
      have hjoin := (Guards.Group.mirrors_join hc h.flights hm l.route.key).1
      rcases w.state.flights.join_cases l.route.key with ⟨t, ht, -⟩ | ⟨-, hj⟩
      · exact absurd ht (hk t)
      · rw [hj] at hjoin
        exact hf ▸ hjoin
    · have hmem := ((h.stands i d hd).leads hl).underWay
      obtain ⟨j, hj⟩ := (horderly.led _ _).mp (hm.underWay.symm ▸ hmem)
      refine ⟨Guards.Group.landing j (some o), ?_⟩
      rw [Guards.run_append]
      exact hf ▸ horderly.mirrors_land hc h.flights hm hj (some o)

/-- In every world the flights are what some run of guards comes to. -/
theorem exists_guards (hc : c.Lawful) (e : Setup) (rs : List Request) (history : List Event) :
    ∃ steps, (Guards.run c steps).Mirrors ((start e rs).run e history).state.flights := by
  refine (History.foldl_invariant (I := fun w : World => w.Orderly e ∧ ∃ steps,
    (Guards.run c steps).Mirrors w.state.flights) ?_ ?_
    (History.along_of_forall (P := fun _ _ => True) (fun _ _ => trivial) _ history)).2
  · exact ⟨sound_start e _ _ rs, [], ⟨rfl, rfl, fun t ht => absurd ht (Nat.not_lt_zero t)⟩⟩
  · rintro w ev ⟨h, steps, hm⟩ -
    refine ⟨h.apply ev, ?_⟩
    cases ev with
    | wait ms => exact ⟨steps, hm⟩
    | move i =>
      obtain ⟨more, hmore⟩ := h.exists_mirror hc i hm
      exact ⟨_, hmore⟩

end RuleExchange.Engine.World
