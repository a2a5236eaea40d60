import RuleExchange.Proofs.WorldProgress

/-! Watching one key. A watch goes along with a world and notes how often the work of the key
was done, what leaders of the key concluded, which calls were served and which calls left
because their time limits had run out. Every outcome of the key that is handed on was
concluded by one of its leaders, and a served call ends with such an outcome or late. -/

namespace RuleExchange.Engine

open History (Along)

namespace Phase

/-- The next step does the work of the key. -/
def executes (k : Fingerprint) : Phase → Bool
  | .executing l _ => l.route.key = k
  | _ => false

/-- What a leader of the key has just concluded. -/
def concluded? (k : Fingerprint) : Phase → Option Outcome
  | .concluded l o => if l.route.key = k then some o else none
  | _ => none

/-- A call is served when it finds a result at once or is let in by its circuit. -/
def serves : Phase → Phase → Bool
  | .resolved _, .answered _ | .missed _, .entered _ _ => true
  | _, _ => false

end Phase

structure Watch where
  world : World
  /-- How often the work of the key was done. -/
  executions : Nat := 0
  /-- What leaders of the key concluded. -/
  results : List Outcome := []
  served : List Nat := []
  /-- Calls that left because their time limits had run out. -/
  late : List Nat := []

namespace Watch

open Call (Transition Stands Answers)
open World (Event)

/-- The watch after call `i` has taken a step from `c` to phase `p`. -/
def note (k : Fingerprint) (i : Nat) (c : Call) (w : World) (p : Phase) (v : Watch) : Watch where
  world := w
  executions := v.executions + (c.phase.executes k).toNat
  results := v.results ++ (p.concluded? k).toList
  served := if c.phase.serves p then v.served ++ [i] else v.served
  late := if c.expires v.world.state then v.late ++ [i] else v.late

def apply (e : Setup) (k : Fingerprint) (v : Watch) : Event → Watch
  | .wait ms => { v with world := v.world.wait ms }
  | .move i =>
    match v.world.calls[i]? with
    | none => v
    | some c =>
      match c.step e v.world.state with
      | none => v
      | some (_, c') => v.note k i c (v.world.move e i) c'.phase

def run (e : Setup) (k : Fingerprint) (rs : List Request) (history : List Event) : Watch :=
  history.foldl (apply e k) { world := .start e rs }

variable {e : Setup} {k : Fingerprint} {v : Watch}

theorem apply_move_cases (e : Setup) (k : Fingerprint) (v : Watch) (i : Nat) :
    (v.apply e k (.move i) = v ∧ v.world.move e i = v.world) ∨
    ∃ c s' p, v.world.calls[i]? = some c ∧
      c.step e v.world.state = some (s', c.go v.world.state.now p) ∧
      Transition e v.world.state c.request c.phase s' p ∧
      v.world.move e i = ⟨s', v.world.calls.set i (c.go v.world.state.now p)⟩ ∧
      v.apply e k (.move i) = v.note k i c (v.world.move e i) p := by
  cases hc : v.world.calls[i]? with
  | none => exact .inl ⟨by simp [apply, hc], by simp [World.move, hc]⟩
  | some c =>
    by_cases hs : c.step e v.world.state = none
    · exact .inl ⟨by simp [apply, hc, hs], by simp [World.move, hc, hs]⟩
    · obtain ⟨s', p, hs, ht, hm⟩ := World.move_of_step hc hs
      exact .inr ⟨c, s', p, rfl, hs, ht, hm, by simp [apply, hc, hs, Call.go]⟩

@[simp] theorem world_apply (e : Setup) (k : Fingerprint) (v : Watch) (ev : Event) :
    (v.apply e k ev).world = v.world.apply e ev := by
  cases ev with
  | wait ms => rfl
  | move i =>
    rcases v.apply_move_cases e k i with ⟨h, hm⟩ | ⟨c, s', p, -, -, -, -, h⟩
    · rw [h, World.apply, hm]
    · rw [h]
      rfl

theorem world_foldl (e : Setup) (k : Fingerprint) (v : Watch) (history : List Event) :
    (history.foldl (apply e k) v).world = v.world.run e history := by
  induction history generalizing v with
  | nil => rfl
  | cons ev rest ih =>
    rw [List.foldl_cons, ih, world_apply]
    rfl

/-- What is true of the events of a world is true of those of its watch. -/
theorem along_world {P : World → Event → Prop} {history : List Event}
    (h : Along (World.apply e) P v.world history) :
    Along (apply e k) (fun v ev => P v.world ev) v history := by
  induction history generalizing v with
  | nil => trivial
  | cons ev rest ih => exact ⟨h.1, ih (by simpa using h.2)⟩

/-! ### Served calls -/

/-- An outcome of the key is one that a leader concluded. -/
def Noted (k : Fingerprint) (v : Watch) (k' : Fingerprint) (o : Outcome) : Prop :=
  k' = k → o ∈ v.results

/-- A call that was served is under way, or it has an outcome that is good, or it was late. -/
def Inside (good : Fingerprint → Outcome → Prop) (late : Prop) (r : Request) : Phase → Prop
  | .queued | .arrived | .resolved _ | .missed _ => False
  | .answered o | .finished o =>
    good (.ofRequest r) o ∨ late ∧ o = .error (Call.timeoutFailure r.options)
  | _ => True

theorem Inside.mono {good good' : Fingerprint → Outcome → Prop} {late late' : Prop} {r : Request}
    {p : Phase} (h : Inside good late r p) (hg : ∀ k o, good k o → good' k o)
    (hl : late → late') : Inside good' late' r p := by
  cases p with
  | queued | arrived | resolved | missed => exact h
  | answered o | finished o =>
    rcases h with h | ⟨h, ho⟩
    · exact .inl (hg _ o h)
    · exact .inr ⟨hl h, ho⟩
  | _ => trivial

theorem inside_of_transition {good : Fingerprint → Outcome → Prop} {late may : Prop}
    {s s' : State} {r : Request} {p p' : Phase} {began : Option Nat}
    (ht : Transition e s r p s' p') (hf : s.flights.WellFormed)
    (hcache : ∀ k x, (k, x) ∈ s.cache.entries → good k (.ok x))
    (hst : Stands e good may s.flights r p)
    (hlate : Call.expires s ⟨r, p, began⟩ = true → late)
    (h : p.serves p' = true ∨ Inside good late r p) : Inside good late r p' := by
  cases ht with
  | hit hx hs => exact .inl (Call.key_of_route hst ▸ hcache _ _ (Cache.mem_of_get? hx))
  | receive ho hs => exact .inl (hst.received hf ho)
  | lose ho => exact absurd ho (hst.not_lost hf)
  | leave ho hd => exact .inr ⟨hlate (by simp [Call.expires, ho, hd]), rfl⟩
  | publish hs => exact .inl (Call.key_of_route hst.1.route ▸ hst.2)
  | account hs =>
    rcases h with h | h
    · cases h
    · exact h
  | reject | resolve | miss | refuse =>
    rcases h with h | h
    · cases h
    · exact h.elim
  | _ => trivial

/-- Outcomes of the key that are handed on were concluded by its leaders, and served calls end
with such outcomes or late. -/
structure Honest (e : Setup) (k : Fingerprint) (v : Watch) : Prop where
  sound : v.world.Sound e (v.Noted k) True
  inside : ∀ i ∈ v.served, ∀ c, v.world.calls[i]? = some c →
    Inside (v.Noted k) (i ∈ v.late) c.request c.phase

theorem honest_start (e : Setup) (k : Fingerprint) (rs : List Request) :
    Honest e k { world := .start e rs } :=
  ⟨World.sound_start e _ _ rs, nofun⟩

section Note

variable {i : Nat} {c : Call} {w : World} {p : Phase}

theorem noted_note {k' : Fingerprint} {o : Outcome} (h : v.Noted k k' o) :
    (v.note k i c w p).Noted k k' o :=
  fun hk => List.mem_append_left _ (h hk)

theorem mem_late_note {j : Nat} (h : j ∈ v.late) : j ∈ (v.note k i c w p).late := by
  simp only [note]
  split
  · exact List.mem_append_left _ h
  · exact h

theorem late_note (h : c.expires v.world.state = true) : i ∈ (v.note k i c w p).late := by
  simp [note, h]

theorem mem_served_note {j : Nat} (h : j ∈ (v.note k i c w p).served) :
    j ∈ v.served ∨ j = i ∧ c.phase.serves p = true := by
  simp only [note] at h
  split at h
  · rename_i hs
    rcases List.mem_append.mp h with h | h
    · exact .inl h
    · exact .inr ⟨List.mem_singleton.mp h, hs⟩
  · exact .inl h

end Note

theorem Honest.move (h : v.Honest e k) (i : Nat) : (v.apply e k (.move i)).Honest e k := by
  rcases v.apply_move_cases e k i with ⟨hv, -⟩ | ⟨c, s', p, hc, hs, ht, hm, hv⟩
  · rw [hv]
    exact h
  · rw [hv]
    have hsound :
        (v.world.move e i).Sound e ((v.note k i c (v.world.move e i) p).Noted k) True := by
      refine (h.sound.mono (fun _ _ => noted_note) id).move i (fun _ => trivial) ?_
      intro c' s₁ l o hc' hs' hk
      cases hc.symm.trans hc'
      cases congrArg (fun x => x.map fun y => y.2.phase) (hs.symm.trans hs')
      simp [note, Phase.concluded?, hk]
    refine ⟨hsound, fun j hj d hd => ?_⟩
    replace hd : (v.world.move e i).calls[j]? = some d := hd
    rw [hm, World.getElem?_moved hc] at hd
    split at hd
    · -- the call that took the step
      rename_i hji
      subst hji
      cases hd
      have hst := h.sound.stands j c hc
      have hinside : Inside ((v.note k j c (v.world.move e j) p).Noted k)
          (j ∈ (v.note k j c (v.world.move e j) p).late) c.request p := by
        refine inside_of_transition ht h.sound.flights
          (fun k' x hx => noted_note (h.sound.cache k' x hx))
          (hst.mono (fun _ _ => noted_note) id) late_note ?_
        rcases mem_served_note hj with hj | ⟨-, hp⟩
        · exact .inr ((h.inside j hj c hc).mono (fun _ _ => noted_note) mem_late_note)
        · exact .inl hp
      exact hinside
    · rename_i hji
      rcases mem_served_note hj with hj | ⟨hji', -⟩
      · exact (h.inside j hj d hd).mono (fun _ _ => noted_note) mem_late_note
      · exact absurd hji' hji

theorem Honest.apply (h : v.Honest e k) (ev : Event) : (v.apply e k ev).Honest e k := by
  cases ev with
  | move i => exact h.move i
  | wait ms => exact ⟨h.sound.wait ms, h.inside⟩

end Watch

end RuleExchange.Engine
