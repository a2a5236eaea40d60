import RuleExchange.Cli.Report
import RuleExchange.Proofs.ScheduleEnds
import RuleExchange.Service.Api

/-! Batches keep their places. A batch is a world in which the calls of all its requests have
arrived; its workers let them take their steps in some order. Whatever that order is, the call
in each place is the call of the request in that place, so that the items, the answers of the
service and the lines of a report, which are all put together by place, belong to their
requests. -/

namespace RuleExchange

/-! ### Sharing out -/

namespace Service

/-- The items of a batch, each with its target, are shared out among replies and failures: each
goes to one of the two lists and both keep the order of the items. -/
inductive Shares : List (BatchItem × String) → List ExchangeReply → List BatchFailure → Prop where
  | nil : Shares [] [] []
  | success {id target x placed replies failures} (h : Shares placed replies failures) :
      Shares ((⟨id, .ok x⟩, target) :: placed) (⟨some id, target, x⟩ :: replies) failures
  | failure {id target f placed replies failures} (h : Shares placed replies failures) :
      Shares ((⟨id, .error f⟩, target) :: placed) replies (⟨id, f⟩ :: failures)

variable {placed : List (BatchItem × String)} {replies : List ExchangeReply}
  {failures : List BatchFailure}

theorem shares_filterMap (placed : List (BatchItem × String)) :
    Shares placed (placed.filterMap fun (i, t) => BatchResponse.success? i t)
      (placed.filterMap fun (i, _) => BatchResponse.failure? i) := by
  induction placed with
  | nil => exact .nil
  | cons place rest ih =>
    obtain ⟨⟨id, o⟩, target⟩ := place
    cases o with
    | ok x => exact .success ih
    | error f => exact .failure ih

theorem Shares.length_replies (h : Shares placed replies failures) :
    replies.length = placed.countP (·.1.outcome.isOk) := by
  induction h with
  | nil => rfl
  | success h ih => simp [ih, Except.isOk, Except.toBool]
  | failure h ih => simp [ih, Except.isOk, Except.toBool]

theorem Shares.length_add (h : Shares placed replies failures) :
    replies.length + failures.length = placed.length := by
  induction h with
  | nil => rfl
  | success h ih => simp; omega
  | failure h ih => simp; omega

end Service

/-! ### Worlds of a batch -/

namespace BatchResult

theorem successCount_eq (b : BatchResult) : b.successCount = b.items.countP (·.outcome.isOk) :=
  List.countP_eq_length_filter.symm

theorem counts_add (b : BatchResult) : b.successCount + b.failureCount = b.items.length := by
  have hle : b.successCount ≤ b.items.length := List.length_filter_le _ _
  rw [failureCount]
  omega

end BatchResult

namespace Engine

/-- The calls of a batch that has been counted. -/
def batchStart (e : Engine) (bs : List BatchRequest) : World :=
  ⟨e.state.emit ⟨Telemetry.batchSize, [], .observe (Float.ofNat bs.length)⟩,
    bs.map fun b => { request := b.request e.setup.options }⟩

/-- What is collected when the calls of a batch are done. -/
def gather (fresh : Nat → String) (bs : List BatchRequest) (w : World) : BatchResult :=
  ⟨((bs.zip w.outcomes).zipIdx).map fun ((b, o), i) => ⟨itemId fresh i b.id, o⟩⟩

/-- In each place stands the name of the request in that place, or one that was made up for it,
with the outcome of the request's own call and with its own target. -/
structure InPlace (e : Engine) (fresh : Nat → String) (bs : List BatchRequest) (w : World)
    (placed : List (BatchItem × String)) : Prop where
  length : placed.length = bs.length
  place : ∀ (i : Nat) (b : BatchRequest), bs[i]? = some b →
    ∃ o began, placed[i]? = some (⟨itemId fresh i b.id, o⟩, b.target) ∧
      w.calls[i]? = some ⟨b.request e.setup.options, .finished o, began⟩

/-- A result of a batch whose items, replies, failures and lines all stand in their places. -/
structure KeepsPlaces (e : Engine) (fresh : Nat → String) (bs : List BatchRequest) (w : World)
    (result : BatchResult) (placed : List (BatchItem × String)) : Prop where
  inPlace : e.InPlace fresh bs w placed
  items : result.items = placed.map (·.1)
  total : result.successCount + result.failureCount = bs.length
  successes : result.successCount = placed.countP (·.1.outcome.isOk)
  shares :
    let response := Service.BatchResponse.ofResult result (bs.map (·.target))
    Service.Shares placed response.responses response.errors ∧
      response.responses.length = response.successCount ∧
      response.errors.length = response.failureCount ∧
      response.successCount = result.successCount ∧ response.failureCount = result.failureCount
  lines :
    let report := Cli.BatchReport.ofResult result (bs.map (·.target))
    report.lines = placed.map (fun (item, target) => ⟨item.id, target, item.outcome⟩) ∧
      report.successCount = result.successCount ∧ report.failureCount = result.failureCount

variable {e : Engine} {bs : List BatchRequest} {history : List World.Event}

theorem requests_batch (e : Engine) (bs : List BatchRequest) (history : List World.Event) :
    ((e.batchStart bs).run e.setup history).calls.map (·.request) =
      bs.map (·.request e.setup.options) := by
  rw [World.requests_run]
  simp [batchStart, Function.comp_def]

/-- The call in each place of a batch that is done is the call of the request in that place. -/
theorem finished_of_batch (hdone : ∀ c ∈ ((e.batchStart bs).run e.setup history).calls,
    c.outcome? ≠ none) {i : Nat} {b : BatchRequest} (hb : bs[i]? = some b) :
    ∃ o began, ((e.batchStart bs).run e.setup history).calls[i]? =
      some ⟨b.request e.setup.options, .finished o, began⟩ := by
  have hrequest := congrArg (·[i]?) (requests_batch e bs history)
  simp only [List.getElem?_map, hb, Option.map_some] at hrequest
  obtain ⟨⟨r, p, began⟩, hc, hr⟩ := Option.map_eq_some_iff.mp hrequest
  obtain ⟨o, ho⟩ := Option.ne_none_iff_exists'.mp (hdone _ (List.mem_of_getElem? hc))
  cases Call.phase_of_outcome? ho
  cases hr
  exact ⟨o, began, hc⟩

theorem getElem?_gather {fresh : Nat → String} {w : World} {i : Nat} {b : BatchRequest}
    {r : Request} {o : Outcome} {began : Option Nat} (hb : bs[i]? = some b)
    (hc : w.calls[i]? = some ⟨r, .finished o, began⟩) :
    (gather fresh bs w).items[i]? = some ⟨itemId fresh i b.id, o⟩ := by
  have ho : w.outcomes[i]? = some o := by
    simp [World.outcomes, hc, Call.outcome?]
  have hzip : (bs.zip w.outcomes)[i]? = some (b, o) :=
    List.getElem?_zip_eq_some.mpr ⟨hb, ho⟩
  simp [gather, hzip]

theorem length_gather {fresh : Nat → String} {w : World} (h : w.calls.length = bs.length) :
    (gather fresh bs w).items.length = bs.length := by
  simp [gather, World.outcomes, h]

/-- Once all calls of a batch are done, everything that is put together from them by place stands
in its place. -/
theorem keepsPlaces_gather (fresh : Nat → String)
    (hdone : ∀ c ∈ ((e.batchStart bs).run e.setup history).calls, c.outcome? ≠ none) :
    let w := (e.batchStart bs).run e.setup history
    ∃ placed, e.KeepsPlaces fresh bs w (gather fresh bs w) placed := by
  intro w
  let result := gather fresh bs w
  let placed := result.items.zip (bs.map (·.target))
  have hcalls : w.calls.length = bs.length := by
    simpa using congrArg List.length (requests_batch e bs history)
  have hlength : result.items.length = bs.length := length_gather hcalls
  have hitems : result.items = placed.map (·.1) :=
    (List.map_fst_zip (by simp [hlength])).symm
  have hsuccesses : result.successCount = placed.countP (·.1.outcome.isOk) := by
    rw [BatchResult.successCount_eq, hitems, List.countP_map]
    rfl
  have hplaced : placed.length = bs.length := by simp [placed, hlength]
  have htotal : result.successCount + result.failureCount = bs.length :=
    result.counts_add.trans hlength
  let response := Service.BatchResponse.ofResult result (bs.map (·.target))
  have hshares : Service.Shares placed response.responses response.errors :=
    Service.shares_filterMap placed
  have hreplies := hshares.length_replies.trans hsuccesses.symm
  have hboth := hshares.length_add
  have hfailures : response.errors.length = result.failureCount := by omega
  refine ⟨placed, ⟨hplaced, fun i b hb => ?_⟩, hitems, htotal, hsuccesses,
    ⟨hshares, hreplies, hfailures, rfl, rfl⟩, rfl, rfl, rfl⟩
  obtain ⟨o, began, hc⟩ := finished_of_batch hdone hb
  refine ⟨o, began, ?_, hc⟩
  exact List.getElem?_zip_eq_some.mpr ⟨getElem?_gather hb hc, by simp [hb]⟩

/-- In whatever order the workers let the calls of a batch take their steps: once all are done,
there is one item for each request, in the order of the requests, with the request's own name,
outcome and target, and replies, failures and lines keep these places. A batch of the engine,
from any state and with any number of workers, is such a run, and all its calls are done. -/
theorem batches_keep_places (e : Engine) (fresh : Nat → String) (bs : List BatchRequest) :
    (∀ history,
      let w := (e.batchStart bs).run e.setup history
      (∀ c ∈ w.calls, c.outcome? ≠ none) →
        ∃ placed, e.KeepsPlaces fresh bs w (gather fresh bs w) placed) ∧
    ∃ history placed,
      let w := (e.batchStart bs).run e.setup history
      (e.exchangeBatch fresh bs).1 = { e with state := w.state } ∧
        e.KeepsPlaces fresh bs w (e.exchangeBatch fresh bs).2 placed := by
  refine ⟨fun history => keepsPlaces_gather fresh, ?_⟩
  have hworkers : 0 < max e.setup.settings.engine.workerPoolSize 1 := by omega
  obtain ⟨hdone, history, hrun⟩ := Schedule.run_eq_history e.setup (e.batchStart bs).state hworkers
    (bs.map (·.request e.setup.options))
  have hstart : World.mk (e.batchStart bs).state
      ((bs.map (·.request e.setup.options)).map fun r => { request := r }) = e.batchStart bs := by
    simp [batchStart, Function.comp_def]
  rw [hstart] at hrun
  rw [hrun] at hdone
  have hbatch : e.exchangeBatch fresh bs = ({ e with
      state := ((e.batchStart bs).run e.setup history).state },
      gather fresh bs ((e.batchStart bs).run e.setup history)) := by
    rw [← hrun]
    rfl
  obtain ⟨placed, hkeeps⟩ := keepsPlaces_gather fresh hdone
  refine ⟨history, placed, congrArg Prod.fst hbatch, ?_⟩
  rw [hbatch]
  exact hkeeps

/-- A batch with a name for its second request only, which is blank and fails: each item has its
own name and each line its own target. -/
theorem unnamed_item_keeps_its_place :
    let e : Engine := ⟨{}, .ofSettings {}⟩
    let fresh := fun i => "made up " ++ toString i
    let bs : List BatchRequest :=
      [⟨" ", "a=b", "siem", "splunk", {}⟩, ⟨"q", " ", "siem", "edr", {}⟩]
    let result := (e.exchangeBatch fresh bs).2
    result.items.map (·.id) = ["made up 0", "q"] ∧
      result.successCount + result.failureCount = 2 ∧
      (Cli.BatchReport.ofResult result (bs.map (·.target))).lines.map (·.target) =
        ["splunk", "edr"] := by
  intro e fresh bs result
  obtain ⟨-, history, placed, -, hkeeps⟩ := batches_keep_places e fresh bs
  obtain ⟨first, second, rfl⟩ := List.length_eq_two.mp hkeeps.inPlace.length
  obtain ⟨o, -, hfirst, -⟩ := hkeeps.inPlace.place 0 _ rfl
  obtain ⟨o', -, hsecond, -⟩ := hkeeps.inPlace.place 1 _ rfl
  have hmade : itemId fresh 0 " " = "made up 0" := by decide
  have hkept : itemId fresh 1 "q" = "q" := by decide
  cases hfirst
  cases hsecond
  refine ⟨?_, hkeeps.total, ?_⟩
  · rw [hkeeps.items]
    simp [hmade, hkept]
  · rw [hkeeps.lines.1]
    rfl

end Engine

end RuleExchange
