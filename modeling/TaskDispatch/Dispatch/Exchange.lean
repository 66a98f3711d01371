import Mathlib
import TaskDispatch.Dispatch.Schedule
import TaskDispatch.Lib.Run

/-!
# The dispatcher and what it exchanges with the broker

Every interleaving of the four operations on the dispatcher: a client thread pushes a problem, the
dispatcher thread sends and takes replies, a client thread that saw its problem computed clears it.
All of them hold the mutex throughout, so each is one step. The broker answers a task at most once
and only after it was sent; which task and when is up to it.

`Live` is what holds of a problem while it is in the maps. It needs nothing about the ids on the
wire, since an id that found its way to the wrong problem would be one more reply to it.
-/

set_option autoImplicit false

namespace TaskDispatch

open Proto Frontier Transition

/-- An `AstRequest`, parsed. Its text is a field of a protobuf message, which stays below 2 GiB, and
each node of the tree takes at least a byte of it. -/
structure AstRequest where
  ast : AST
  fits : ast.root.postorder.length < 2 ^ 31

theorem AST.vertexCount_le (ast : AST) : ast.vertexCount ≤ ast.root.postorder.length :=
  (ast.numbering.nodup.subperm fun _ h => (ValueNumbering.Numbering.mem_ofList _).mp h).length_le

theorem AstRequest.vertexCount_lt (request : AstRequest) : request.ast.vertexCount < 2 ^ 32 :=
  request.ast.vertexCount_le.trans_lt (request.fits.trans (by norm_num))

/-- The mean of a list, as a request. -/
def AstRequest.mean : AstRequest := ⟨.mean "L", by decide⟩

/-- `origin` says which request an id was last given to, `sent` is everything passed to
`SendRequest`, and `inFlight` is what was sent and not answered. -/
structure Exchange where
  dispatcher : Dispatcher := {}
  origin : ProblemId → Option AstRequest := fun _ => none
  submitted : ℕ := 0
  sent : List Task := []
  inFlight : Multiset Proto.TaskId := 0

namespace Exchange

inductive Action where
  | pushProblem (request : AstRequest)
  | sendComputableTasks (order : PassOrder := .ascending)
  | updateComputableTasks (id : Proto.TaskId)
  | clearProblem (problemId : ProblemId)

def step (s : Exchange) : Action → Option Exchange
  | .pushProblem request => do
    let calcData ← (CalculationData.new request.ast).toOption
    let (problemId, dispatcher) := s.dispatcher.pushProblem calcData {}
    some { s with
      dispatcher
      submitted := s.submitted + 1
      origin := if problemId ∈ s.dispatcher.problemIdToCalculationData then s.origin
        else Function.update s.origin problemId (some request) }
  | .sendComputableTasks order => do
    let (tasks, dispatcher) ← (s.dispatcher.sendComputableTasks order).toOption
    some { s with
      dispatcher
      sent := s.sent ++ tasks
      inFlight := s.inFlight + tasks.map (·.id) }
  | .updateComputableTasks id => do
    if id ∈ s.inFlight then
      let dispatcher ← (s.dispatcher.updateComputableTasks id).toOption
      some { s with dispatcher, inFlight := s.inFlight.erase id }
    else none
  | .clearProblem problemId => do
    let isComputed ← (s.dispatcher.isComputed problemId).toOption
    if isComputed then
      some { s with dispatcher := s.dispatcher.clearProblem problemId }
    else none

/-! ## A problem in the maps -/

/-- What holds of a problem from the push to the erasure. The flag is up when the root is
completed; where the root is a leaf, that is so from the start, and the flag stays down. -/
structure Live (request : AstRequest) (syncData : SyncData) (calcData : CalculationData) :
    Prop where
  tracks : calcData.Tracks request.ast
  completed_of_isComputed : syncData.isComputed = true →
    request.ast.dag.root ∈ calcData.schedule.completed
  isComputed_of_completed : ¬request.ast.root.getType.IsLeaf →
    request.ast.dag.root ∈ calcData.schedule.completed → syncData.isComputed = true

section Live

variable {request : AstRequest} {syncData : SyncData} {calcData calcData' : CalculationData}
  {v : TaskId}

theorem Live.new (h : CalculationData.new request.ast = .ok calcData) :
    Live request {} calcData where
  tracks := .new h
  completed_of_isComputed := by simp
  isComputed_of_completed := by
    rw [CalculationData.schedule_new h, ← AST.deps_root_eq_nil_iff]
    exact fun hne hroot => absurd hroot.2 hne

theorem Live.markSent (h : Live request syncData calcData) :
    Live request syncData calcData.markSent where
  tracks := h.tracks.markSent
  completed_of_isComputed := by
    rw [h.tracks.schedule_markSent]
    exact h.completed_of_isComputed
  isComputed_of_completed := by
    rw [h.tracks.schedule_markSent]
    exact h.isComputed_of_completed

theorem Live.reply (h : Live request syncData calcData) (hv : v ≠ request.ast.dag.root)
    (hc : calcData.complete v = .ok calcData') : Live request syncData calcData'.recompute where
  tracks := h.tracks.reply hc
  completed_of_isComputed := by
    rw [h.tracks.schedule_reply hc]
    exact fun hsync => Set.mem_insert_of_mem _ (h.completed_of_isComputed hsync)
  isComputed_of_completed := by
    rw [h.tracks.schedule_reply hc]
    intro hleaf hroot
    exact h.isComputed_of_completed hleaf (hroot.resolve_left hv.symm)

theorem Live.finish (h : Live request syncData calcData)
    (hc : calcData.complete request.ast.dag.root = .ok calcData') :
    Live request { isComputed := true } calcData' where
  tracks := h.tracks.finish hc
  completed_of_isComputed _ := by
    rw [CalculationData.schedule_finish hc]
    exact Set.mem_insert _ _
  isComputed_of_completed _ _ := rfl

/-- Once the flag is up, every task is completed and none is in process. -/
theorem Live.all_completed (h : Live request syncData calcData)
    (hsync : syncData.isComputed = true) :
    (∀ v < request.ast.vertexCount, v ∈ calcData.schedule.completed) ∧
      calcData.schedule.processing = ∅ := by
  have hall : request.ast.dag.vertices ⊆ calcData.schedule.completed :=
    request.ast.dag.vertices_subset h.tracks.coherent.completed_closed
      (h.completed_of_isComputed hsync)
  refine ⟨fun v hv => hall hv, Set.eq_empty_iff_forall_notMem.mpr ?_⟩
  intro v hv
  exact h.tracks.coherent.notMem_completed hv (hall (h.tracks.coherent.processing_subset hv).1)

end Live

/-! ## Every problem in the maps is live -/

structure Tracked (s : Exchange) : Prop where
  entry : ∀ p calcData, s.dispatcher.problemIdToCalculationData[p]? = some calcData →
    ∃ request syncData, s.origin p = some request ∧
      s.dispatcher.problemIdToSyncData[p]? = some syncData ∧ Live request syncData calcData
  sync_subset : ∀ p, p ∈ s.dispatcher.problemIdToSyncData →
    p ∈ s.dispatcher.problemIdToCalculationData

section Steps

variable {s s' : Exchange} {p : ProblemId} {id : Proto.TaskId} {request : AstRequest}

theorem step_push : step s (.pushProblem request) = some s' ↔
    ∃ calcData, CalculationData.new request.ast = .ok calcData ∧
      s' = { s with
        dispatcher := (s.dispatcher.pushProblem calcData {}).2
        submitted := s.submitted + 1
        origin := if s.dispatcher.problemId ∈ s.dispatcher.problemIdToCalculationData then s.origin
          else Function.update s.origin s.dispatcher.problemId (some request) } := by
  simp only [step, bind, Option.bind_eq_some_iff, Result.toOption_eq_some, Option.some.injEq,
    eq_comm (a := s')]
  rfl

theorem step_send {order : PassOrder} : step s (.sendComputableTasks order) = some s' ↔
    ∃ tasks dispatcher, s.dispatcher.sendComputableTasks order = .ok (tasks, dispatcher) ∧
      s' = { s with
        dispatcher
        sent := s.sent ++ tasks
        inFlight := s.inFlight + tasks.map (·.id) } := by
  simp [step, Option.bind_eq_some_iff, eq_comm (a := s')]

theorem step_update : step s (.updateComputableTasks id) = some s' ↔ id ∈ s.inFlight ∧
    ∃ dispatcher, s.dispatcher.updateComputableTasks id = .ok dispatcher ∧
      s' = { s with dispatcher, inFlight := s.inFlight.erase id } := by
  simp [step, Option.bind_eq_some_iff, eq_comm (a := s')]

theorem step_clear : step s (.clearProblem p) = some s' ↔
    s.dispatcher.problemIdToSyncData[p]? = some { isComputed := true } ∧
      s' = { s with dispatcher := s.dispatcher.clearProblem p } := by
  rcases h : s.dispatcher.problemIdToSyncData[p]? with _ | ⟨_ | _⟩ <;>
    simp [step, Dispatcher.isComputed, h, Except.toOption, bind, Except.bind, Result.ofLookup,
      eq_comm (a := s')]

theorem Tracked.init : Tracked {} where
  entry := by simp
  sync_subset := by simp

/-- A problem whose id is taken changes nothing in the maps. -/
theorem Tracked.pushProblem_of_mem (h : Tracked s) {calcData : CalculationData}
    (hmem : s.dispatcher.problemId ∈ s.dispatcher.problemIdToCalculationData) :
    (s.dispatcher.pushProblem calcData {}).2 =
      { s.dispatcher with problemId := (s.dispatcher.problemId + 1) % 2 ^ 64 } := by
  have h₀ := Std.ExtTreeMap.getElem?_eq_some_getElem hmem
  obtain ⟨-, syncData, -, hsync, -⟩ := h.entry _ _ h₀
  have hmem' : s.dispatcher.problemId ∈ s.dispatcher.problemIdToSyncData :=
    (Std.ExtTreeMap.getElem?_eq_some_iff.mp hsync).1
  have hcalc : s.dispatcher.problemIdToCalculationData.insertIfNew s.dispatcher.problemId calcData =
      s.dispatcher.problemIdToCalculationData :=
    Std.ExtTreeMap.ext_getElem? fun q => by simp [Std.ExtTreeMap.getElem?_insertIfNew, hmem]
  have hsync : s.dispatcher.problemIdToSyncData.insertIfNew s.dispatcher.problemId {} =
      s.dispatcher.problemIdToSyncData :=
    Std.ExtTreeMap.ext_getElem? fun q => by simp [Std.ExtTreeMap.getElem?_insertIfNew, hmem']
  rw [Dispatcher.pushProblem, hcalc, hsync]

/-- The maps after a problem has been pushed under a free id. -/
theorem Tracked.pushProblem_of_notMem (h : Tracked s) (calcData : CalculationData)
    (hmem : s.dispatcher.problemId ∉ s.dispatcher.problemIdToCalculationData) (q : ProblemId) :
    (s.dispatcher.pushProblem calcData {}).2.problemIdToCalculationData[q]? =
        (if q = s.dispatcher.problemId then some calcData
          else s.dispatcher.problemIdToCalculationData[q]?) ∧
      (s.dispatcher.pushProblem calcData {}).2.problemIdToSyncData[q]? =
        (if q = s.dispatcher.problemId then some {}
          else s.dispatcher.problemIdToSyncData[q]?) := by
  have hmem' : s.dispatcher.problemId ∉ s.dispatcher.problemIdToSyncData :=
    fun hsync => hmem (h.sync_subset _ hsync)
  simp [Dispatcher.pushProblem, Std.ExtTreeMap.getElem?_insertIfNew, hmem, hmem',
    eq_comm (a := q)]

/-- One problem gets data and a flag, be it new or not. -/
theorem Tracked.set_entry (h : Tracked s) {calcData : CalculationData} {syncData : SyncData}
    (horigin : s'.origin p = some request) (hothers : ∀ q ≠ p, s'.origin q = s.origin q)
    (hlive : Live request syncData calcData)
    (hcalc : ∀ q : ProblemId, s'.dispatcher.problemIdToCalculationData[q]? =
      if q = p then some calcData else s.dispatcher.problemIdToCalculationData[q]?)
    (hsync : ∀ q : ProblemId, s'.dispatcher.problemIdToSyncData[q]? =
      if q = p then some syncData else s.dispatcher.problemIdToSyncData[q]?) : Tracked s' := by
  refine ⟨?_, ?_⟩
  · intro q calcData' hq
    rw [hcalc] at hq
    rw [hsync]
    by_cases hqp : q = p
    · rw [if_pos hqp] at hq ⊢
      obtain rfl := Option.some.inj hq
      exact ⟨request, syncData, hqp ▸ horigin, rfl, hlive⟩
    · rw [if_neg hqp] at hq ⊢
      rw [hothers q hqp]
      exact h.entry q calcData' hq
  · intro q hq
    rw [Std.ExtTreeMap.mem_iff_isSome_getElem?, hsync] at hq
    rw [Std.ExtTreeMap.mem_iff_isSome_getElem?, hcalc]
    by_cases hqp : q = p
    · rw [if_pos hqp]
      rfl
    · rw [if_neg hqp] at hq ⊢
      rw [← Std.ExtTreeMap.mem_iff_isSome_getElem?] at hq ⊢
      exact h.sync_subset q hq

theorem Tracked.push (h : Tracked s) (hstep : step s (.pushProblem request) = some s') :
    Tracked s' := by
  obtain ⟨calcData, hnew, rfl⟩ := step_push.mp hstep
  by_cases hmem : s.dispatcher.problemId ∈ s.dispatcher.problemIdToCalculationData
  · simp only [h.pushProblem_of_mem hmem, if_pos hmem]
    exact ⟨h.entry, h.sync_subset⟩
  · have hmaps := h.pushProblem_of_notMem calcData hmem
    simp only [if_neg hmem]
    refine h.set_entry (Function.update_self ..) ?_ (.new hnew) (fun q => (hmaps q).1)
      fun q => (hmaps q).2
    intro q hq
    exact Function.update_of_ne hq ..

theorem Tracked.send {order : PassOrder} (h : Tracked s)
    (hstep : step s (.sendComputableTasks order) = some s') : Tracked s' := by
  obtain ⟨tasks, dispatcher, hsend, rfl⟩ := step_send.mp hstep
  rw [Dispatcher.sendComputableTasks_eq] at hsend
  obtain ⟨-, rfl⟩ := Prod.mk.inj (Except.ok.inj hsend)
  refine ⟨?_, ?_⟩
  · intro q calcData' hq
    rw [Std.ExtTreeMap.getElem?_map, Option.map_eq_some_iff] at hq
    obtain ⟨calcData, hq, rfl⟩ := hq
    obtain ⟨request, syncData, horigin, hsync, hlive⟩ := h.entry q calcData hq
    exact ⟨request, syncData, horigin, hsync, hlive.markSent⟩
  · intro q hq
    simpa using h.sync_subset q hq

/-- What a reply does to the problem it is for. -/
theorem Tracked.update_cases (h : Tracked s)
    (hstep : step s (.updateComputableTasks id) = some s') :
    id ∈ s.inFlight ∧ ∃ calcData calcData' request syncData,
      s.dispatcher.problemIdToCalculationData[id.problemId.toNat]? = some calcData ∧
      s.origin id.problemId.toNat = some request ∧
      s.dispatcher.problemIdToSyncData[id.problemId.toNat]? = some syncData ∧
      Live request syncData calcData ∧ calcData.complete id.taskId.toNat = .ok calcData' ∧
      ((id.taskId.toNat = request.ast.dag.root ∧ s' = { s with
          dispatcher := { s.dispatcher with
            problemIdToCalculationData :=
              s.dispatcher.problemIdToCalculationData.insert id.problemId.toNat calcData'
            problemIdToSyncData :=
              s.dispatcher.problemIdToSyncData.insert id.problemId.toNat { isComputed := true } }
          inFlight := s.inFlight.erase id }) ∨
        (id.taskId.toNat ≠ request.ast.dag.root ∧ s' = { s with
          dispatcher := { s.dispatcher with
            problemIdToCalculationData :=
              s.dispatcher.problemIdToCalculationData.insert id.problemId.toNat
                calcData'.recompute }
          inFlight := s.inFlight.erase id })) := by
  obtain ⟨hid, dispatcher, hupdate, rfl⟩ := step_update.mp hstep
  obtain ⟨calcData, last, calcData', hcd, hlast, hc, hcases⟩ :=
    Dispatcher.updateComputableTasks_eq_ok.mp hupdate
  obtain ⟨request, syncData, horigin, hsync, hlive⟩ := h.entry _ _ hcd
  rw [hlive.tracks.decompositor_eq, AST.lastTask_decompositor] at hlast
  obtain rfl := Except.ok.inj hlast
  refine ⟨hid, calcData, calcData', request, syncData, hcd, horigin, hsync, hlive, hc, ?_⟩
  rcases hcases with ⟨hroot, -, -, rfl⟩ | ⟨hroot, rfl⟩
  · exact .inl ⟨hroot, rfl⟩
  · exact .inr ⟨hroot, rfl⟩

theorem Tracked.update (h : Tracked s) (hstep : step s (.updateComputableTasks id) = some s') :
    Tracked s' := by
  obtain ⟨-, calcData, calcData', request, syncData, hcd, horigin, hsync, hlive, hc, hcases⟩ :=
    h.update_cases hstep
  rcases hcases with ⟨hroot, rfl⟩ | ⟨hroot, rfl⟩
  · rw [hroot] at hc
    refine h.set_entry horigin (fun _ _ => rfl) (hlive.finish hc) ?_ ?_ <;> intro q <;>
      simp [Std.ExtTreeMap.getElem?_insert, eq_comm (a := q)]
  · refine h.set_entry horigin (fun _ _ => rfl) (hlive.reply hroot hc) ?_ ?_ <;> intro q
    · simp [Std.ExtTreeMap.getElem?_insert, eq_comm (a := q)]
    · -- the flag stays as it is
      split_ifs with hq
      · rw [hq, hsync]
      · rfl

theorem Tracked.clear (h : Tracked s) (hstep : step s (.clearProblem p) = some s') :
    Tracked s' := by
  obtain ⟨-, rfl⟩ := step_clear.mp hstep
  refine ⟨?_, ?_⟩
  · intro q calcData hq
    simp only [Dispatcher.clearProblem, Std.ExtTreeMap.getElem?_erase] at hq ⊢
    split_ifs at hq with heq
    rw [if_neg heq]
    exact h.entry q calcData hq
  · intro q hq
    simp only [Dispatcher.clearProblem, Std.ExtTreeMap.mem_erase] at hq ⊢
    exact ⟨hq.1, h.sync_subset q hq.2⟩

theorem Tracked.step {a : Action} (h : Tracked s) (hstep : step s a = some s') : Tracked s' := by
  cases a with
  | pushProblem request => exact h.push hstep
  | sendComputableTasks => exact h.send hstep
  | updateComputableTasks id => exact h.update hstep
  | clearProblem p => exact h.clear hstep

theorem Tracked.of_runs {as : List Action} (hrun : Runs Exchange.step {} as s) : Tracked s :=
  hrun.invariant (I := fun _ s => Tracked s) .init fun _ _ _ _ _ h hstep => h.step hstep

end Steps
end Exchange
end TaskDispatch
