import Mathlib.Logic.Function.Basic
import RuleExchange.Proofs.FlightTickets
import RuleExchange.Proofs.History

/-! Leaders as guards. A party that joins a free key holds a guard for it. To publish, a guard
forgets its key, sends its value and marks itself published; its destructor runs after that, and
the sending end of its channel goes last. A guard that is dropped runs its destructor at once. All
parties take these steps in any order, so that a new leader may hold the key before an old guard
is gone. Whatever they do, the keys under way are those of the guards that still hold them, and
each channel shows what its own guard has left. -/

namespace RuleExchange.Guards

/-! ### Channels -/

/-- A channel that keeps the last value sent. -/
structure Channel (α : Type) where
  State : Type
  fresh : State
  send : State → α → State
  /-- The sender is gone. -/
  close : State → State
  /-- What a receiver gets that waits for a value, once it need not wait any longer. -/
  receive : State → Option (Option α)

/-- A receiver waits until there is a value or the sender is gone, and it sees the last value even
after that. -/
structure Channel.Lawful {α : Type} (c : Channel α) : Prop where
  waits : c.receive c.fresh = none
  sent : ∀ x v, c.receive x = none → c.receive (c.send x v) = some (some v)
  kept : ∀ x v, c.receive x = some (some v) → c.receive (c.close x) = some (some v)
  closed : ∀ x, c.receive x = none → c.receive (c.close x) = some none

/-! ### Guards -/

variable {κ α : Type}

/-- How far a guard has come. -/
inductive Stage (α : Type) where
  | held
  /-- It publishes this value and has forgotten its key. -/
  | released (v : α)
  | sent (v : α)
  /-- Published; the destructor is still to run. -/
  | marked (v : α)
  /-- The destructor has run, and the sender is still there. -/
  | leaving (o : Option α)
  | gone (o : Option α)
  deriving DecidableEq, Repr

inductive Act (α : Type) where
  | publish (v : α)
  | drop
  /-- The next step of what was begun. -/
  | proceed
  deriving DecidableEq, Repr

/-- How a guard ends: it publishes a value or is dropped without one. -/
def Act.ending : Option α → Act α
  | some v => .publish v
  | none => .drop

namespace Stage

/-- The flag that the destructor reads. -/
def published : Stage α → Bool
  | .marked _ => true
  | _ => false

def next : Stage α → Act α → Stage α
  | .held, .publish v => .released v
  | .held, .drop => .leaving none
  | .released v, .proceed => .sent v
  | .sent v, .proceed => .marked v
  | .marked v, .proceed => .leaving (some v)
  | .leaving o, .proceed => .gone o
  | st, _ => st

/-- What a step does to the channel of the guard. -/
def transmit (c : Channel α) (x : c.State) : Stage α → Act α → c.State
  | .released v, .proceed => c.send x v
  | .leaving _, .proceed => c.close x
  | _, _ => x

/-- What the guard has left to those who wait. -/
def seen : Stage α → Option (Option α)
  | .held | .released _ | .leaving none => none
  | .sent v | .marked v | .leaving (some v) => some (some v)
  | .gone o => some o

/-- How the guard ends, once that is settled. -/
def fate : Stage α → Option (Option α)
  | .held => none
  | .released v | .sent v | .marked v => some (some v)
  | .leaving o | .gone o => some o

theorem receive_transmit {c : Channel α} (hc : c.Lawful) {x : c.State} {st : Stage α}
    (hx : c.receive x = st.seen) (a : Act α) :
    c.receive (st.transmit c x a) = (st.next a).seen := by
  cases a with
  | publish v => cases st <;> exact hx
  | drop => cases st <;> exact hx
  | proceed =>
    cases st with
    | held | sent | marked | gone => exact hx
    | released v => exact hc.sent x v hx
    | leaving o =>
      cases o with
      | none => exact hc.closed x hx
      | some v => exact hc.kept x v hx

/-- What a guard has left stays. -/
theorem seen_next {st : Stage α} {o : Option α} (h : st.seen = some o) (a : Act α) :
    (st.next a).seen = some o := by
  cases a with
  | publish v =>
    cases st with
    | held => cases h
    | _ => exact h
  | drop =>
    cases st with
    | held => cases h
    | _ => exact h
  | proceed =>
    cases st with
    | held | released => cases h
    | sent | marked | gone => exact h
    | leaving o' =>
      cases o' with
      | none => cases h
      | some v => exact h

theorem fate_of_seen {st : Stage α} {o : Option α} (h : st.seen = some o) :
    st.fate = some o := by
  cases st with
  | held | released => cases h
  | sent | marked | gone => exact h
  | leaving o' =>
    cases o' with
    | none => cases h
    | some v => exact h

theorem eq_held_iff {st : Stage α} : st = .held ↔ st.fate = none := by
  cases st <;> simp [fate]

/-- A guard is settled by the step that ends it, and by no other. -/
theorem fate_next_iff {st : Stage α} {a : Act α} {o : Option α} :
    (st.next a).fate = some o ↔ st.fate = some o ∨ st = .held ∧ a = .ending o := by
  cases a <;> cases st <;> cases o <;> simp [next, fate, Act.ending]

theorem next_eq_held_iff {st : Stage α} {a : Act α} :
    st.next a = .held ↔ st = .held ∧ ∀ o, a ≠ .ending o := by
  rw [eq_held_iff, eq_held_iff, Option.eq_none_iff_forall_ne_some,
    Option.eq_none_iff_forall_ne_some]
  simp only [ne_eq, fate_next_iff, not_or, not_and, eq_held_iff, Option.eq_none_iff_forall_ne_some]
  exact ⟨fun h => ⟨fun o => (h o).1, fun o => (h o).2 fun o' => (h o').1⟩,
    fun h o => ⟨h.1 o, fun _ => h.2 o⟩⟩

variable [DecidableEq κ]

/-- The destructor forgets the key of a guard that has not published. -/
def destroy (f : Flights κ α) (k : κ) (st : Stage α) : Flights κ α :=
  if st.published then f else f.forget k

/-- What a step does to the keys under way. -/
def release (f : Flights κ α) (k : κ) : Stage α → Act α → Flights κ α
  | .held, .publish _ => f.forget k
  | .held, .drop => destroy f k .held
  | .marked v, .proceed => destroy f k (.marked v)
  | _, _ => f

/-- The key is forgotten by the step that ends a guard, and by no other: the destructor of a guard
that has published leaves all keys alone. -/
theorem release_eq (f : Flights κ α) (k : κ) (st : Stage α) (a : Act α) :
    (∃ o, st = .held ∧ a = .ending o ∧ st.release f k a = f.forget k) ∨
      (¬ ∃ o, st = .held ∧ a = .ending o) ∧ st.release f k a = f := by
  cases a with
  | publish v =>
    cases st with
    | held => exact .inl ⟨some v, rfl, rfl, rfl⟩
    | _ => exact .inr ⟨by simp, rfl⟩
  | drop =>
    cases st with
    | held => exact .inl ⟨none, rfl, rfl, rfl⟩
    | _ => exact .inr ⟨by simp, rfl⟩
  | proceed =>
    refine .inr ⟨?_, ?_⟩
    · rintro ⟨o, -, h⟩
      cases o <;> cases h
    · cases st <;> rfl

theorem nextTicket_release (f : Flights κ α) (k : κ) (st : Stage α) (a : Act α) :
    (st.release f k a).nextTicket = f.nextTicket := by
  rcases release_eq f k st a with ⟨o, -, -, h⟩ | ⟨-, h⟩ <;> rw [h]
  rfl

theorem wellFormed_release {f : Flights κ α} (h : f.WellFormed) (k : κ) (st : Stage α) (a : Act α) :
    (st.release f k a).WellFormed := by
  rcases release_eq f k st a with ⟨o, -, -, hf⟩ | ⟨-, hf⟩ <;> rw [hf]
  · exact Flights.wellFormed_forget h k
  · exact h

end Stage

/-! ### Groups -/

inductive Party (κ α : Type) where
  | guard (l : Leader κ) (st : Stage α)
  /-- Waits for the leader with this ticket. -/
  | waiting (ticket : Nat)
  | told (ticket : Nat) (o : Option α)
  deriving DecidableEq, Repr

def Party.role : Party κ α → Role κ
  | .guard l _ => .leader l
  | .waiting t | .told t _ => .follower t

/-- Parties are numbered in the order in which they join. -/
inductive Event (κ α : Type) where
  | join (k : κ)
  | act (i : Nat) (a : Act α)
  /-- A follower looks whether it still has to wait. -/
  | wait (j : Nat)

structure Group (c : Channel α) (κ : Type) where
  flights : Flights κ α := {}
  /-- The channels of the leaders, by ticket. -/
  channels : Nat → c.State := fun _ => c.fresh
  parties : List (Party κ α) := []

namespace Group

variable {c : Channel α} [DecidableEq κ]

/-- A party comes in with its role. A leader makes its channel. -/
def enroll (s : Group c κ) : Flights κ α × Role κ → Group c κ
  | (f, .leader l) =>
    { flights := f
      channels := Function.update s.channels l.ticket c.fresh
      parties := s.parties ++ [.guard l .held] }
  | (f, .follower t) => { s with flights := f, parties := s.parties ++ [.waiting t] }

/-- The guard `i`, which has come to the stage `st`, takes a step. -/
def move (s : Group c κ) (i : Nat) (l : Leader κ) (st : Stage α) (a : Act α) : Group c κ where
  flights := st.release s.flights l.key a
  channels := Function.update s.channels l.ticket (st.transmit c (s.channels l.ticket) a)
  parties := s.parties.set i (.guard l (st.next a))

def apply (s : Group c κ) : Event κ α → Group c κ
  | .join k => s.enroll (s.flights.join k)
  | .act i a =>
    match s.parties[i]? with
    | some (.guard l st) => s.move i l st a
    | _ => s
  | .wait j =>
    match s.parties[j]? with
    | some (.waiting t) =>
      match c.receive (s.channels t) with
      | some o => { s with parties := s.parties.set j (.told t o) }
      | none => s
    | _ => s

theorem apply_act {s : Group c κ} {i : Nat} {l : Leader κ} {st : Stage α}
    (hi : s.parties[i]? = some (.guard l st)) (a : Act α) :
    s.apply (.act i a) = s.move i l st a := by
  simp [apply, hi]

theorem act_cases (s : Group c κ) (i : Nat) (a : Act α) :
    (∃ l st, s.parties[i]? = some (.guard l st) ∧ s.apply (.act i a) = s.move i l st a) ∨
      (∀ l st, s.parties[i]? ≠ some (.guard l st)) ∧ s.apply (.act i a) = s := by
  cases hp : s.parties[i]? with
  | none => exact .inr ⟨by simp, by simp [apply, hp]⟩
  | some p =>
    cases p with
    | guard l st => exact .inl ⟨l, st, rfl, apply_act hp a⟩
    | waiting t => exact .inr ⟨by simp, by simp [apply, hp]⟩
    | told t o => exact .inr ⟨by simp, by simp [apply, hp]⟩

theorem wait_cases (s : Group c κ) (j : Nat) :
    (∃ t o, s.parties[j]? = some (.waiting t) ∧ c.receive (s.channels t) = some o ∧
      s.apply (.wait j) = { s with parties := s.parties.set j (.told t o) }) ∨
    (∀ t, s.parties[j]? = some (.waiting t) → c.receive (s.channels t) = none) ∧
      s.apply (.wait j) = s := by
  cases hp : s.parties[j]? with
  | none => exact .inr ⟨by simp, by simp [apply, hp]⟩
  | some p =>
    cases p with
    | guard l st => exact .inr ⟨by simp, by simp [apply, hp]⟩
    | told t o => exact .inr ⟨by simp, by simp [apply, hp]⟩
    | waiting t =>
      cases hr : c.receive (s.channels t) with
      | some o => exact .inl ⟨t, o, rfl, hr, by simp [apply, hp, hr]⟩
      | none =>
        refine .inr ⟨fun t' ht => ?_, by simp [apply, hp, hr]⟩
        cases ht
        exact hr

theorem join_cases (s : Group c κ) (k : κ) :
    (∃ t, (k, t) ∈ s.flights.underWay ∧
      s.apply (.join k) = { s with parties := s.parties ++ [.waiting t] }) ∨
    (∀ t, (k, t) ∉ s.flights.underWay) ∧ s.apply (.join k) =
      { flights := s.flights.launch k
        channels := Function.update s.channels s.flights.nextTicket c.fresh
        parties := s.parties ++ [.guard ⟨k, s.flights.nextTicket⟩ .held] } := by
  rcases s.flights.join_cases k with ⟨t, ht, hj⟩ | ⟨hk, hj⟩
  · exact .inl ⟨t, ht, by rw [apply, hj, enroll]⟩
  · exact .inr ⟨hk, by rw [apply, hj, enroll]⟩

/-! ### What holds of every group -/

variable {s : Group c κ} {i j : Nat} {l : Leader κ} {st : Stage α}

structure Orderly (s : Group c κ) : Prop where
  wellFormed : s.flights.WellFormed
  past : ∀ (i : Nat) l st, s.parties[i]? = some (.guard l st) →
    l.ticket < s.flights.nextTicket
  distinct : ∀ (i j : Nat) l l' st st', s.parties[i]? = some (.guard l st) →
    s.parties[j]? = some (.guard l' st') → l.ticket = l'.ticket → i = j
  /-- The keys under way are those that a guard holds. -/
  led : ∀ k t, (k, t) ∈ s.flights.underWay ↔
    ∃ i : Nat, s.parties[i]? = some (.guard ⟨k, t⟩ .held)
  /-- The channel of a guard shows what this guard has left. -/
  shown : ∀ (i : Nat) l st, s.parties[i]? = some (.guard l st) →
    c.receive (s.channels l.ticket) = st.seen
  followed : ∀ (j : Nat) p t, s.parties[j]? = some p → p.role = .follower t →
    ∃ (i : Nat) (l : Leader κ) (st : Stage α),
      s.parties[i]? = some (.guard l st) ∧ l.ticket = t
  told : ∀ (j : Nat) t o, s.parties[j]? = some (.told t o) →
    c.receive (s.channels t) = some o

omit [DecidableEq κ] in
theorem orderly_empty : Orderly ({} : Group c κ) where
  wellFormed := Flights.wellFormed_empty
  past := by simp
  distinct := by simp
  led := by simp
  shown := by simp
  followed := by simp
  told := by simp

/-- A guard after a step was a guard before, and only the one that took the step has changed. -/
theorem guard_of_move {a : Act α} {l' : Leader κ} {st' : Stage α}
    (hi : s.parties[i]? = some (.guard l st))
    (hj : (s.move i l st a).parties[j]? = some (.guard l' st')) :
    (j = i ∧ l' = l ∧ st' = st.next a) ∨ (j ≠ i ∧ s.parties[j]? = some (.guard l' st')) := by
  rw [move, History.getElem?_set_of_some hi] at hj
  split at hj
  · cases hj
    exact .inl ⟨‹_›, rfl, rfl⟩
  · exact .inr ⟨‹_›, hj⟩

theorem exists_of_move {a : Act α} {l' : Leader κ} {st' : Stage α}
    (hi : s.parties[i]? = some (.guard l st))
    (hj : (s.move i l st a).parties[j]? = some (.guard l' st')) :
    ∃ st₀, s.parties[j]? = some (.guard l' st₀) := by
  rcases guard_of_move hi hj with ⟨rfl, rfl, -⟩ | ⟨-, hj⟩
  · exact ⟨st, hi⟩
  · exact ⟨st', hj⟩

theorem move_self {a : Act α} (hi : s.parties[i]? = some (.guard l st)) :
    (s.move i l st a).parties[i]? = some (.guard l (st.next a)) := by
  rw [move, History.getElem?_set_of_some hi, if_pos rfl]

theorem move_of_ne {a : Act α} (hi : s.parties[i]? = some (.guard l st)) (hne : j ≠ i) :
    (s.move i l st a).parties[j]? = s.parties[j]? := by
  rw [move, History.getElem?_set_of_some hi, if_neg hne]

theorem channels_move_self {a : Act α} :
    (s.move i l st a).channels l.ticket = st.transmit c (s.channels l.ticket) a :=
  Function.update_self ..

theorem channels_move_of_ne {a : Act α} {t : Nat} (hne : t ≠ l.ticket) :
    (s.move i l st a).channels t = s.channels t :=
  Function.update_of_ne hne ..

namespace Orderly

theorem led_move (h : s.Orderly) (hi : s.parties[i]? = some (.guard l st)) (a : Act α) (k : κ)
    (t : Nat) : (k, t) ∈ (s.move i l st a).flights.underWay ↔
      ∃ j : Nat, (s.move i l st a).parties[j]? = some (.guard ⟨k, t⟩ .held) := by
  change (k, t) ∈ (st.release s.flights l.key a).underWay ↔ _
  rcases st.release_eq s.flights l.key a with ⟨o, rfl, rfl, hf⟩ | ⟨hstays, hf⟩
  · rw [hf, Flights.mem_underWay_forget, h.led]
    constructor
    · rintro ⟨⟨j, hj⟩, hne⟩
      have hji : j ≠ i := by
        rintro rfl
        cases hi.symm.trans hj
        exact hne rfl
      exact ⟨j, (move_of_ne hi hji).trans hj⟩
    · rintro ⟨j, hj⟩
      rcases guard_of_move hi hj with ⟨-, -, hheld⟩ | ⟨hji, hj⟩
      · exact absurd rfl ((Stage.next_eq_held_iff.mp hheld.symm).2 o)
      · refine ⟨⟨j, hj⟩, ?_⟩
        rintro rfl
        -- two guards that hold one key have the same ticket and are the same guard
        have ht : t = l.ticket :=
          h.wellFormed.ticket_unique ((h.led _ _).mpr ⟨j, hj⟩) ((h.led _ _).mpr ⟨i, hi⟩)
        exact hji (h.distinct _ _ _ _ _ _ hj hi ht)
  · rw [hf, h.led]
    have hheld : st.next a = .held ↔ st = .held := by
      rw [Stage.next_eq_held_iff]
      exact and_iff_left_of_imp fun hst o ha => hstays ⟨o, hst, ha⟩
    constructor
    · rintro ⟨j, hj⟩
      by_cases hji : j = i
      · subst hji
        cases hi.symm.trans hj
        exact ⟨j, by rw [move_self hi, hheld.mpr rfl]⟩
      · exact ⟨j, (move_of_ne hi hji).trans hj⟩
    · rintro ⟨j, hj⟩
      rcases guard_of_move hi hj with ⟨rfl, rfl, hst⟩ | ⟨-, hj⟩
      · exact ⟨j, by rw [hi, hheld.mp hst.symm]⟩
      · exact ⟨j, hj⟩

/-- What can be received stays. -/
theorem receive_move (hc : c.Lawful) (h : s.Orderly) (hi : s.parties[i]? = some (.guard l st))
    (a : Act α) {t : Nat} {o : Option α} (ho : c.receive (s.channels t) = some o) :
    c.receive ((s.move i l st a).channels t) = some o := by
  have hshown := h.shown i l st hi
  by_cases ht : t = l.ticket
  · subst ht
    rw [channels_move_self, Stage.receive_transmit hc hshown]
    exact Stage.seen_next (hshown.symm.trans ho) a
  · rw [channels_move_of_ne ht]
    exact ho

theorem move (hc : c.Lawful) (h : s.Orderly) (hi : s.parties[i]? = some (.guard l st))
    (a : Act α) : (s.move i l st a).Orderly where
  wellFormed := Stage.wellFormed_release h.wellFormed l.key st a
  past j l' st' hj := by
    rw [Group.move, Stage.nextTicket_release]
    rcases guard_of_move hi hj with ⟨-, rfl, -⟩ | ⟨-, hj⟩
    · exact h.past i l' st hi
    · exact h.past j l' st' hj
  distinct j j' l₁ l₂ st₁ st₂ hj hj' ht := by
    obtain ⟨st₁', hj₁⟩ := exists_of_move hi hj
    obtain ⟨st₂', hj₂⟩ := exists_of_move hi hj'
    exact h.distinct _ _ _ _ _ _ hj₁ hj₂ ht
  led := h.led_move hi a
  shown j l' st' hj := by
    rcases guard_of_move hi hj with ⟨-, rfl, rfl⟩ | ⟨hji, hj⟩
    · rw [channels_move_self]
      exact Stage.receive_transmit hc (h.shown i l' st hi) a
    · rw [channels_move_of_ne fun ht => hji (h.distinct _ _ _ _ _ _ hj hi ht)]
      exact h.shown j l' st' hj
  followed j p t hj hp := by
    have hji : j ≠ i := by
      rintro rfl
      cases (move_self hi).symm.trans hj
      cases hp
    rw [move_of_ne hi hji] at hj
    obtain ⟨i', l', st', hi', rfl⟩ := h.followed j p t hj hp
    by_cases hii : i' = i
    · subst hii
      cases hi.symm.trans hi'
      exact ⟨i', l, _, move_self hi, rfl⟩
    · exact ⟨i', l', st', (move_of_ne hi hii).trans hi', rfl⟩
  told j t o hj := by
    have hji : j ≠ i := by
      rintro rfl
      cases (move_self hi).symm.trans hj
    rw [move_of_ne hi hji] at hj
    exact h.receive_move hc hi a (h.told j t o hj)

omit [DecidableEq κ] in
/-- Followers may come and change as long as they follow guards and were told what these left. -/
theorem of_same_guards (h : s.Orderly) {ps : List (Party κ α)}
    (hguard : ∀ (i : Nat) l st, ps[i]? = some (.guard l st) ↔ s.parties[i]? = some (.guard l st))
    (hfollowed : ∀ (j : Nat) p t, ps[j]? = some p → p.role = .follower t →
      ∃ (i : Nat) (l : Leader κ) (st : Stage α),
        s.parties[i]? = some (.guard l st) ∧ l.ticket = t)
    (htold : ∀ (j : Nat) t o, ps[j]? = some (.told t o) → c.receive (s.channels t) = some o) :
    Orderly { s with parties := ps } where
  wellFormed := h.wellFormed
  past := by simpa only [hguard] using h.past
  distinct := by simpa only [hguard] using h.distinct
  led := by simpa only [hguard] using h.led
  shown := by simpa only [hguard] using h.shown
  followed := by simpa only [hguard] using hfollowed
  told := htold

omit [DecidableEq κ] in
theorem hear (h : s.Orderly) {t : Nat} {o : Option α} (hj : s.parties[j]? = some (.waiting t))
    (ho : c.receive (s.channels t) = some o) :
    Orderly { s with parties := s.parties.set j (.told t o) } := by
  refine h.of_same_guards (fun i l st => ?_) (fun j' p t' hp hr => ?_) fun j' t' o' hj' => ?_
  · rw [History.getElem?_set_of_some hj]
    by_cases hij : i = j
    · simp [hij, hj]
    · simp [hij]
  · rw [History.getElem?_set_of_some hj] at hp
    split at hp
    · cases hp
      cases hr
      exact h.followed j _ t hj rfl
    · exact h.followed j' p t' hp hr
  · rw [History.getElem?_set_of_some hj] at hj'
    split at hj'
    · cases hj'
      exact ho
    · exact h.told j' t' o' hj'

omit [DecidableEq κ] in
theorem follow (h : s.Orderly) {k : κ} {t : Nat} (ht : (k, t) ∈ s.flights.underWay) :
    Orderly { s with parties := s.parties ++ [.waiting t] } := by
  refine h.of_same_guards (fun i l st => ?_) (fun j p t' hp hr => ?_) fun j t' o hj => ?_
  · simp [History.getElem?_concat_eq_some_iff]
  · rcases History.getElem?_concat_eq_some_iff.mp hp with hp | ⟨-, rfl⟩
    · exact h.followed j p t' hp hr
    · cases hr
      obtain ⟨i, hi⟩ := (h.led k t).mp ht
      exact ⟨i, _, _, hi, rfl⟩
  · rcases History.getElem?_concat_eq_some_iff.mp hj with hj | ⟨-, hj⟩
    · exact h.told j t' o hj
    · cases hj

omit [DecidableEq κ] in
/-- A follower has a ticket that was given out. -/
theorem follower_past (h : s.Orderly) {p : Party κ α} {t : Nat} (hj : s.parties[j]? = some p)
    (hr : p.role = .follower t) : t < s.flights.nextTicket := by
  obtain ⟨i, l, st, hi, rfl⟩ := h.followed j p t hj hr
  exact h.past i l st hi

omit [DecidableEq κ] in
theorem lead (hc : c.Lawful) (h : s.Orderly) {k : κ} (hk : ∀ t, (k, t) ∉ s.flights.underWay) :
    Orderly { flights := s.flights.launch k
              channels := Function.update s.channels s.flights.nextTicket c.fresh
              parties := s.parties ++ [.guard ⟨k, s.flights.nextTicket⟩ .held] } := by
  have hcases {j : Nat} {l : Leader κ} {st : Stage α}
      (hj : (s.parties ++ [.guard ⟨k, s.flights.nextTicket⟩ .held])[j]? = some (.guard l st)) :
      s.parties[j]? = some (.guard l st) ∧ l.ticket < s.flights.nextTicket ∨
        j = s.parties.length ∧ l = ⟨k, s.flights.nextTicket⟩ ∧ st = .held := by
    rcases History.getElem?_concat_eq_some_iff.mp hj with hj | ⟨rfl, hp⟩
    · exact .inl ⟨hj, h.past _ _ _ hj⟩
    · cases hp
      exact .inr ⟨rfl, rfl, rfl⟩
  have hold {t : Nat} (ht : t < s.flights.nextTicket) :
      Function.update s.channels s.flights.nextTicket c.fresh t = s.channels t :=
    Function.update_of_ne (Nat.ne_of_lt ht) ..
  have hnew : Function.update s.channels s.flights.nextTicket c.fresh s.flights.nextTicket =
      c.fresh :=
    Function.update_self ..
  exact {
    wellFormed := Flights.wellFormed_launch h.wellFormed hk
    past := by
      intro j l st hj
      rcases hcases hj with ⟨-, hlt⟩ | ⟨-, rfl, -⟩
      · exact Nat.lt_succ_of_lt hlt
      · exact Nat.lt_succ_self _
    distinct := by
      intro j j' l l' st st' hj hj' ht
      rcases hcases hj with ⟨hj, hlt⟩ | ⟨rfl, rfl, -⟩ <;>
        rcases hcases hj' with ⟨hj', hlt'⟩ | ⟨rfl, rfl, -⟩
      · exact h.distinct _ _ _ _ _ _ hj hj' ht
      · exact absurd ht (Nat.ne_of_lt hlt)
      · exact absurd ht.symm (Nat.ne_of_lt hlt')
      · rfl
    led := by
      intro k' t
      rw [Flights.mem_underWay_launch, h.led]
      constructor
      · rintro (⟨i, hi⟩ | ⟨rfl, rfl⟩)
        · exact ⟨i, History.getElem?_concat_eq_some_iff.mpr (.inl hi)⟩
        · exact ⟨_, List.getElem?_concat_length⟩
      · rintro ⟨i, hi⟩
        rcases hcases hi with ⟨hi, -⟩ | ⟨-, hl, -⟩
        · exact .inl ⟨i, hi⟩
        · cases hl
          exact .inr ⟨rfl, rfl⟩
    shown := by
      intro j l st hj
      rcases hcases hj with ⟨hj, hlt⟩ | ⟨-, rfl, rfl⟩
      · exact (congrArg c.receive (hold hlt)).trans (h.shown j l st hj)
      · exact (congrArg c.receive hnew).trans hc.waits
    followed := by
      intro j p t hp hr
      rcases History.getElem?_concat_eq_some_iff.mp hp with hp | ⟨-, rfl⟩
      · obtain ⟨i, l, st, hi, hl⟩ := h.followed j p t hp hr
        exact ⟨i, l, st, History.getElem?_concat_eq_some_iff.mpr (.inl hi), hl⟩
      · cases hr
    told := by
      intro j t o hj
      rcases History.getElem?_concat_eq_some_iff.mp hj with hj | ⟨-, hj⟩
      · exact (congrArg c.receive (hold (h.follower_past hj rfl))).trans (h.told j t o hj)
      · cases hj }

theorem apply (hc : c.Lawful) (h : s.Orderly) (ev : Event κ α) : (s.apply ev).Orderly := by
  cases ev with
  | join k =>
    rcases s.join_cases k with ⟨t, ht, hj⟩ | ⟨hk, hj⟩ <;> rw [hj]
    · exact h.follow ht
    · exact h.lead hc hk
  | act i a =>
    rcases s.act_cases i a with ⟨l, st, hi, ha⟩ | ⟨-, ha⟩ <;> rw [ha]
    · exact h.move hc hi a
    · exact h
  | wait j =>
    rcases s.wait_cases j with ⟨t, o, hj, ho, hw⟩ | ⟨-, hw⟩ <;> rw [hw]
    · exact h.hear hj ho
    · exact h

theorem foldl (hc : c.Lawful) (h : s.Orderly) (history : List (Event κ α)) :
    (history.foldl Group.apply s).Orderly :=
  History.foldl_invariant h (fun _ ev h _ => h.apply hc ev)
    (History.along_of_forall (P := fun _ _ => True) (fun _ _ => trivial) s history)

end Orderly

end Group

end RuleExchange.Guards
