import Mathlib
import TaskDispatch.Dispatch.Exchange

/-!
# Every operator is sent once, the root last

While no more than `2 ^ 32` problems have been submitted the ids on the wire name the vertices, and
the exchange with the broker can be read off the status maps: in flight is what is in process, and
of a live problem the tasks sent are the operators that have a status (`Accounted`). When the root
is answered, everything below it is completed, so nothing of the problem is left in flight that
could come back after the erasure. -/

set_option autoImplicit false

namespace TaskDispatch

open Proto Frontier Transition

namespace Exchange

/-- The ids sent and in flight, in terms of the status maps. -/
structure Accounted (s : Exchange) : Prop where
  tracked : Tracked s
  problemId_eq : s.dispatcher.problemId = s.submitted
  origin_lt : ∀ p request, s.origin p = some request → p < s.submitted
  sent_nodup : (s.sent.map (·.id)).Nodup
  sent_origin : ∀ t ∈ s.sent, ∃ p request v, s.origin p = some request ∧
    v < request.ast.vertexCount ∧ request.ast.dag.deps v ≠ [] ∧ t.id = .mk' p v
  sent_iff : ∀ p calcData request, s.dispatcher.problemIdToCalculationData[p]? = some calcData →
    s.origin p = some request → ∀ v < request.ast.vertexCount,
      TaskId.mk' p v ∈ s.sent.map (·.id) ↔
        request.ast.dag.deps v ≠ [] ∧ v ∈ calcData.processedTasksToStatus
  inFlight_nodup : s.inFlight.Nodup
  mem_inFlight : ∀ id, id ∈ s.inFlight ↔ ∃ p calcData v,
    s.dispatcher.problemIdToCalculationData[p]? = some calcData ∧
      v ∈ calcData.schedule.processing ∧ id = .mk' p v
  flag : ∀ p request, s.origin p = some request →
    s.dispatcher.problemIdToSyncData[p]? = some { isComputed := true } →
      request.ast.dag.deps request.ast.dag.root ≠ []

namespace Accounted

variable {s s' : Exchange} {p q : ProblemId} {u v : TaskDispatch.TaskId} {id : Proto.TaskId}
  {request : AstRequest} {calcData : CalculationData}

theorem init : Accounted {} where
  tracked := .init
  problemId_eq := rfl
  origin_lt := by simp
  sent_nodup := List.nodup_nil
  sent_origin := by simp
  sent_iff := by simp
  inFlight_nodup := Multiset.nodup_zero
  mem_inFlight := by simp
  flag := by simp

/-- A live problem, its request and its flag. -/
theorem entry (h : Accounted s)
    (hcd : s.dispatcher.problemIdToCalculationData[p]? = some calcData) :
    p < s.submitted ∧ ∃ request syncData, s.origin p = some request ∧
      s.dispatcher.problemIdToSyncData[p]? = some syncData ∧ Live request syncData calcData := by
  obtain ⟨request, syncData, horigin, hrest⟩ := h.tracked.entry p calcData hcd
  exact ⟨h.origin_lt p request horigin, request, syncData, horigin, hrest⟩

theorem lt_of_computable {syncData : SyncData} (h : Live request syncData calcData)
    (hv : v ∈ calcData.computableTaskToDependencies) : v < request.ast.vertexCount := by
  have hmem : v ∈ calcData.schedule.computable := hv
  rw [h.tracks.coherent.computable_eq] at hmem
  exact hmem.1

/-- Ids of live problems are told apart by the fields of the message. -/
theorem mk'_inj (h : Accounted s) (hlt : s.submitted ≤ 2 ^ 32) {request' : AstRequest}
    (hp : s.origin p = some request) (hv : v < request.ast.vertexCount)
    (hq : s.origin q = some request') (hu : u < request'.ast.vertexCount) :
    TaskId.mk' p v = TaskId.mk' q u ↔ p = q ∧ v = u :=
  TaskId.mk'_inj ((h.origin_lt p request hp).trans_le hlt) (hv.trans request.vertexCount_lt)
    ((h.origin_lt q request' hq).trans_le hlt) (hu.trans request'.vertexCount_lt)

/-- What is in flight, with the data of its problem. -/
theorem of_mem_inFlight (h : Accounted s) (hlt : s.submitted ≤ 2 ^ 32) (hid : id ∈ s.inFlight) :
    ∃ p calcData v request syncData, id = .mk' p v ∧ id.problemId.toNat = p ∧
      id.taskId.toNat = v ∧ s.dispatcher.problemIdToCalculationData[p]? = some calcData ∧
      s.origin p = some request ∧ s.dispatcher.problemIdToSyncData[p]? = some syncData ∧
      Live request syncData calcData ∧ v ∈ calcData.schedule.processing ∧
      v < request.ast.vertexCount := by
  obtain ⟨p, calcData, v, hcd, hv, rfl⟩ := (h.mem_inFlight id).mp hid
  obtain ⟨hp, request, syncData, horigin, hsync, hlive⟩ := h.entry hcd
  have hvlt : v < request.ast.vertexCount := (hlive.tracks.coherent.processing_subset hv).1
  exact ⟨p, calcData, v, request, syncData, rfl, toNat_ofNat_of_lt (hp.trans_le hlt),
    toNat_ofNat_of_lt (hvlt.trans request.vertexCount_lt), hcd, horigin, hsync, hlive, hv, hvlt⟩

/-- No live problem has the next id. -/
theorem problemId_notMem (h : Accounted s) :
    s.dispatcher.problemId ∉ s.dispatcher.problemIdToCalculationData := by
  intro hmem
  have hcd := Std.ExtTreeMap.getElem?_eq_some_getElem hmem
  exact (h.entry hcd).1.ne h.problemId_eq

/-- What a push does. -/
theorem push_spec (h : Accounted s) (hlt : s'.submitted ≤ 2 ^ 32)
    (hstep : Exchange.step s (.pushProblem request) = some s') :
    ∃ calcData, CalculationData.new request.ast = .ok calcData ∧
      s'.submitted = s.submitted + 1 ∧ s'.dispatcher.problemId = s.submitted + 1 ∧
      s'.origin = Function.update s.origin s.submitted (some request) ∧
      (∀ q, s'.dispatcher.problemIdToCalculationData[q]? =
        if q = s.submitted then some calcData
        else s.dispatcher.problemIdToCalculationData[q]?) ∧
      (∀ q, s'.dispatcher.problemIdToSyncData[q]? =
        if q = s.submitted then some {} else s.dispatcher.problemIdToSyncData[q]?) ∧
      s'.sent = s.sent ∧ s'.inFlight = s.inFlight := by
  obtain ⟨calcData, hnew, rfl⟩ := step_push.mp hstep
  have hfresh := h.problemId_notMem
  have hsub : s.submitted + 1 ≤ 2 ^ 32 := hlt
  refine ⟨calcData, hnew, rfl, ?_, ?_, ?_, ?_, rfl, rfl⟩
  · rw [Dispatcher.pushProblem, h.problemId_eq]
    exact Nat.mod_eq_of_lt (hsub.trans_lt (by norm_num))
  · rw [← h.problemId_eq]
    exact if_neg hfresh
  · intro q
    rw [← h.problemId_eq]
    exact (h.tracked.pushProblem_of_notMem calcData hfresh q).1
  · intro q
    rw [← h.problemId_eq]
    exact (h.tracked.pushProblem_of_notMem calcData hfresh q).2

/-- No task of a problem was sent before the problem was pushed. -/
theorem notMem_sent (h : Accounted s) (hlt : s.submitted < 2 ^ 32)
    (hv : v < request.ast.vertexCount) : TaskId.mk' s.submitted v ∉ s.sent.map (·.id) := by
  intro hmem
  obtain ⟨t, ht, hid⟩ := List.mem_map.mp hmem
  obtain ⟨p, request', u, hp, hu, -, hid'⟩ := h.sent_origin t ht
  have hp' := h.origin_lt p request' hp
  have hsame := (TaskId.mk'_inj (hp'.trans hlt) (hu.trans request'.vertexCount_lt) hlt
    (hv.trans request.vertexCount_lt)).mp (hid'.symm.trans hid)
  exact hp'.ne hsame.1

theorem push (h : Accounted s) (hlt : s'.submitted ≤ 2 ^ 32)
    (hstep : Exchange.step s (.pushProblem request) = some s') : Accounted s' := by
  obtain ⟨calcData, hnew, hsub, hid, horigin, hentries, hsync, hsent, hinFlight⟩ :=
    h.push_spec hlt hstep
  have hold : ∀ {p request'}, s.origin p = some request' → s'.origin p = some request' := by
    intro p request' hp
    rw [horigin, Function.update_of_ne (h.origin_lt p request' hp).ne, hp]
  have hprocessing : calcData.schedule.processing = ∅ := by
    rw [CalculationData.schedule_new hnew]
    rfl
  refine
    { tracked := h.tracked.push hstep
      problemId_eq := hid.trans hsub.symm
      origin_lt := ?_
      sent_nodup := hsent ▸ h.sent_nodup
      sent_origin := ?_
      sent_iff := ?_
      inFlight_nodup := hinFlight ▸ h.inFlight_nodup
      mem_inFlight := ?_
      flag := ?_ }
  · intro p request' hp
    rw [hsub]
    by_cases heq : p = s.submitted
    · exact heq ▸ Nat.lt_succ_self _
    · rw [horigin, Function.update_of_ne heq] at hp
      exact (h.origin_lt p request' hp).trans (Nat.lt_succ_self _)
  · intro t ht
    obtain ⟨p, request', v, hp, hrest⟩ := h.sent_origin t (hsent ▸ ht)
    exact ⟨p, request', v, hold hp, hrest⟩
  · intro p calcData' request' hcd hp v hv
    rw [hentries] at hcd
    rw [horigin] at hp
    rw [hsent]
    by_cases heq : p = s.submitted
    · -- only leaves have a status at first, and no request bears the new id
      subst heq
      rw [if_pos rfl, Option.some.injEq] at hcd
      rw [Function.update_self, Option.some.injEq] at hp
      subst hcd hp
      apply iff_of_false (h.notMem_sent (by omega) hv)
      rintro ⟨hdeps, hmem⟩
      rw [CalculationData.mem_status, hprocessing, Set.empty_union,
        CalculationData.schedule_new hnew] at hmem
      exact hdeps hmem.2
    · rw [if_neg heq] at hcd
      rw [Function.update_of_ne heq] at hp
      exact h.sent_iff p calcData' request' hcd hp v hv
  · intro id
    rw [hinFlight, h.mem_inFlight]
    constructor
    · rintro ⟨p, calcData', v, hcd, hv, rfl⟩
      refine ⟨p, calcData', v, ?_, hv, rfl⟩
      rw [hentries, if_neg (h.entry hcd).1.ne, hcd]
    · rintro ⟨p, calcData', v, hcd, hv, rfl⟩
      rw [hentries] at hcd
      by_cases heq : p = s.submitted
      · rw [if_pos heq, Option.some.injEq] at hcd
        rw [← hcd, hprocessing] at hv
        exact hv.elim
      · rw [if_neg heq] at hcd
        exact ⟨p, calcData', v, hcd, hv, rfl⟩
  · intro p request' hp hflag
    rw [hsync] at hflag
    rw [horigin] at hp
    by_cases heq : p = s.submitted
    · rw [if_pos heq] at hflag
      cases hflag
    · rw [if_neg heq] at hflag
      rw [Function.update_of_ne heq] at hp
      exact h.flag p request' hp hflag

/-- The requests of one pass, and what they leave. -/
theorem send_spec {order : PassOrder} (h : Accounted s)
    (hstep : Exchange.step s (.sendComputableTasks order) = some s') :
    ∃ tasks, s.dispatcher.sendComputableTasks order = .ok (tasks, s'.dispatcher) ∧
      s'.sent = s.sent ++ tasks ∧ s'.inFlight = s.inFlight + tasks.map (·.id) ∧
      s'.submitted = s.submitted ∧ s'.dispatcher.problemId = s.dispatcher.problemId ∧
      s'.origin = s.origin ∧
      (∀ p : ProblemId, s'.dispatcher.problemIdToCalculationData[p]? =
        s.dispatcher.problemIdToCalculationData[p]?.map CalculationData.markSent) ∧
      s'.dispatcher.problemIdToSyncData = s.dispatcher.problemIdToSyncData ∧
      (s.submitted ≤ 2 ^ 32 → (tasks.map (·.id)).Nodup) := by
  obtain ⟨tasks, dispatcher, hsend, rfl⟩ := step_send.mp hstep
  refine ⟨tasks, hsend, rfl, rfl, rfl, ?_, rfl, ?_, ?_,
    fun hlt => Dispatcher.nodup_sendComputableTasks hsend ?_⟩
  · rw [Dispatcher.sendComputableTasks_eq] at hsend
    obtain ⟨-, rfl⟩ := Prod.mk.inj (Except.ok.inj hsend)
    rfl
  · intro p
    rw [Dispatcher.sendComputableTasks_eq] at hsend
    obtain ⟨-, rfl⟩ := Prod.mk.inj (Except.ok.inj hsend)
    rw [Std.ExtTreeMap.getElem?_map]
  · rw [Dispatcher.sendComputableTasks_eq] at hsend
    obtain ⟨-, rfl⟩ := Prod.mk.inj (Except.ok.inj hsend)
    rfl
  · intro p calcData hcd
    obtain ⟨hp, request, syncData, -, -, hlive⟩ := h.entry hcd
    exact ⟨hp.trans_le hlt, fun v hv => (lt_of_computable hlive hv).trans request.vertexCount_lt⟩

/-- A computable task is an operator without a status. -/
theorem of_computable {syncData : SyncData} (h : Live request syncData calcData)
    (hv : v ∈ calcData.schedule.computable) : v < request.ast.vertexCount ∧
      request.ast.dag.deps v ≠ [] ∧ v ∉ calcData.processedTasksToStatus ∧
      ∀ u ∈ request.ast.dag.deps v, u ∈ calcData.schedule.completed := by
  have hfrontier := hv
  rw [h.tracks.coherent.computable_eq] at hfrontier
  obtain ⟨hvlt, hC, hX, hdeps⟩ := hfrontier
  refine ⟨hvlt, fun hnil => hC (h.tracks.leaves ⟨hvlt, hnil⟩), ?_, hdeps⟩
  rw [CalculationData.mem_status]
  exact fun hmem => hmem.elim hX hC

/-- A computable task was never sent: what was sent has a status. -/
theorem notMem_sent_of_computable (h : Accounted s)
    (hcd : s.dispatcher.problemIdToCalculationData[p]? = some calcData)
    (hv : v ∈ calcData.schedule.computable) : TaskId.mk' p v ∉ s.sent.map (·.id) := by
  intro hmem
  obtain ⟨-, request, syncData, horigin, -, hlive⟩ := h.entry hcd
  obtain ⟨hvlt, -, hstatus, -⟩ := of_computable hlive hv
  exact hstatus ((h.sent_iff p calcData request hcd horigin v hvlt).mp hmem).2

/-- Nor is it in flight: what is in flight is in process. -/
theorem notMem_inFlight_of_computable (h : Accounted s) (hlt : s.submitted ≤ 2 ^ 32)
    (hcd : s.dispatcher.problemIdToCalculationData[p]? = some calcData)
    (hv : v ∈ calcData.schedule.computable) : TaskId.mk' p v ∉ s.inFlight := by
  intro hmem
  obtain ⟨-, request, syncData, horigin, -, hlive⟩ := h.entry hcd
  obtain ⟨hvlt, -, hstatus, -⟩ := of_computable hlive hv
  obtain ⟨q, calcData', u, hcd', hu, heq⟩ := (h.mem_inFlight _).mp hmem
  obtain ⟨-, request', syncData', horigin', -, hlive'⟩ := h.entry hcd'
  -- the two ids are those of one vertex of one problem, which has no status
  obtain ⟨rfl, rfl⟩ := (h.mk'_inj hlt horigin hvlt horigin'
    (hlive'.tracks.coherent.processing_subset hu).1).mp heq
  obtain rfl := Option.some.inj (hcd.symm.trans hcd')
  exact hstatus (CalculationData.mem_status.mpr (.inl hu))

/-- A pass gives a status to what was computable, and to nothing else. -/
theorem sent_iff_send (h : Accounted s) (hlt : s.submitted ≤ 2 ^ 32) {tasks : List Task}
    (hids : ∀ id, id ∈ tasks.map (·.id) ↔ ∃ (p : ProblemId) (calcData : CalculationData)
      (v : TaskDispatch.TaskId), s.dispatcher.problemIdToCalculationData[p]? = some calcData ∧
        v ∈ calcData.computableTaskToDependencies ∧ id = .mk' p v)
    (hcd : s.dispatcher.problemIdToCalculationData[p]? = some calcData)
    (hp : s.origin p = some request) (hv : v < request.ast.vertexCount) :
    TaskId.mk' p v ∈ (s.sent ++ tasks).map (·.id) ↔
      request.ast.dag.deps v ≠ [] ∧ v ∈ calcData.markSent.processedTasksToStatus := by
  obtain ⟨-, request', syncData, hp', -, hlive⟩ := h.entry hcd
  obtain rfl := Option.some.inj (hp.symm.trans hp')
  rw [List.map_append, List.mem_append, h.sent_iff p calcData request hcd hp v hv, hids,
    CalculationData.mem_status, CalculationData.mem_status, hlive.tracks.schedule_markSent,
    RootedDag.send]
  constructor
  · rintro (⟨hdeps, hmem⟩ | ⟨q, calcData', u, hcd', hu, heq⟩)
    · exact ⟨hdeps, hmem.imp_left .inl⟩
    · -- a request with this id is the one for this vertex
      obtain ⟨-, request', syncData', horigin', -, hlive'⟩ := h.entry hcd'
      obtain ⟨hult, hdeps, -, -⟩ := of_computable hlive' hu
      obtain ⟨rfl, rfl⟩ := (h.mk'_inj hlt hp hv horigin' hult).mp heq
      obtain rfl := Option.some.inj (hcd.symm.trans hcd')
      obtain rfl := Option.some.inj (hp.symm.trans horigin')
      exact ⟨hdeps, .inl (.inr hu)⟩
  · rintro ⟨hdeps, (hmem | hmem) | hmem⟩
    · exact .inl ⟨hdeps, .inl hmem⟩
    · exact .inr ⟨p, calcData, v, hcd, hmem, rfl⟩
    · exact .inl ⟨hdeps, .inr hmem⟩

theorem send {order : PassOrder} (h : Accounted s) (hlt : s.submitted ≤ 2 ^ 32)
    (hstep : Exchange.step s (.sendComputableTasks order) = some s') : Accounted s' := by
  obtain ⟨tasks, hsend, hsent, hinFlight, hsub, hid, horigin, hentries, hsync, hnodup⟩ :=
    h.send_spec hstep
  have hids : ∀ id, id ∈ tasks.map (·.id) ↔ _ :=
    fun _ => Dispatcher.mem_map_id_sendComputableTasks hsend
  refine
    { tracked := h.tracked.send hstep
      problemId_eq := by rw [hid, hsub, h.problemId_eq]
      origin_lt := horigin ▸ hsub ▸ h.origin_lt
      sent_nodup := ?_
      sent_origin := ?_
      sent_iff := ?_
      inFlight_nodup := ?_
      mem_inFlight := ?_
      flag := horigin ▸ hsync ▸ h.flag }
  · rw [hsent, List.map_append]
    apply h.sent_nodup.append (hnodup hlt)
    intro id hold hmem
    obtain ⟨p, calcData, v, hcd, hv, rfl⟩ := (hids id).mp hmem
    exact h.notMem_sent_of_computable hcd hv hold
  · intro t ht
    rw [hsent, List.mem_append] at ht
    rw [horigin]
    rcases ht with ht | ht
    · exact h.sent_origin t ht
    · -- a new request is for a computable task, so for an operator
      obtain ⟨p, calcData, v, hcd, hv, hidt⟩ := (hids t.id).mp (List.mem_map_of_mem ht)
      obtain ⟨-, request, syncData, horigin, -, hlive⟩ := h.entry hcd
      obtain ⟨hvlt, hdeps, -, -⟩ := of_computable hlive hv
      exact ⟨p, request, v, horigin, hvlt, hdeps, hidt⟩
  · intro p calcData' request hcd' hp v hv
    rw [hentries, Option.map_eq_some_iff] at hcd'
    obtain ⟨calcData, hcd, rfl⟩ := hcd'
    rw [hsent]
    exact h.sent_iff_send hlt hids hcd (horigin ▸ hp) hv
  · rw [hinFlight, Multiset.nodup_add]
    refine ⟨h.inFlight_nodup, hnodup hlt, Multiset.disjoint_right.mpr ?_⟩
    intro id hmem
    obtain ⟨p, calcData, v, hcd, hv, rfl⟩ := (hids id).mp hmem
    exact h.notMem_inFlight_of_computable hlt hcd hv
  · intro id
    rw [hinFlight, Multiset.mem_add, Multiset.mem_coe, h.mem_inFlight, hids]
    constructor
    · rintro (⟨p, calcData, v, hcd, hv, rfl⟩ | ⟨p, calcData, v, hcd, hv, rfl⟩) <;>
        obtain ⟨-, request, syncData, -, -, hlive⟩ := h.entry hcd <;>
        refine ⟨p, calcData.markSent, v, by rw [hentries, hcd]; rfl, ?_, rfl⟩ <;>
        rw [hlive.tracks.schedule_markSent]
      · exact .inl hv
      · exact .inr hv
    · rintro ⟨p, calcData', v, hcd', hv, rfl⟩
      rw [hentries, Option.map_eq_some_iff] at hcd'
      obtain ⟨calcData, hcd, rfl⟩ := hcd'
      obtain ⟨-, request, syncData, -, -, hlive⟩ := h.entry hcd
      rw [hlive.tracks.schedule_markSent] at hv
      rcases hv with hv | hv
      · exact .inl ⟨p, calcData, v, hcd, hv, rfl⟩
      · exact .inr ⟨p, calcData, v, hcd, hv, rfl⟩

/-- An answer is never refused: its problem is there, and its task has a status. -/
theorem update_returns (h : Accounted s) (hlt : s.submitted ≤ 2 ^ 32) (hid : id ∈ s.inFlight) :
    ∃ s', Exchange.step s (.updateComputableTasks id) = some s' := by
  obtain ⟨p, calcData, v, request, syncData, -, hp, hv, hcd, -, hsync, hlive, hprocessing, -⟩ :=
    h.of_mem_inFlight hlt hid
  have hstatus := CalculationData.mem_status.mpr (.inl hprocessing)
  have hlast := request.ast.lastTask_decompositor
  rw [← hlive.tracks.decompositor_eq] at hlast
  rw [← hp] at hcd hsync
  rw [← hv] at hstatus
  by_cases hroot : id.taskId.toNat = request.ast.dag.root
  · exact ⟨_, step_update.mpr ⟨hid, _, Dispatcher.updateComputableTasks_eq_ok.mpr
      ⟨calcData, _, _, hcd, hlast, CalculationData.complete_eq_ok.mpr ⟨hstatus, rfl⟩,
        .inl ⟨hroot, syncData, hsync, rfl⟩⟩, rfl⟩⟩
  · exact ⟨_, step_update.mpr ⟨hid, _, Dispatcher.updateComputableTasks_eq_ok.mpr
      ⟨calcData, _, _, hcd, hlast, CalculationData.complete_eq_ok.mpr ⟨hstatus, rfl⟩,
        .inr ⟨hroot, rfl⟩⟩, rfl⟩⟩

/-- What an answer leaves: its task is completed, and where it is the root, the flag is up. -/
theorem update_spec (h : Accounted s) (hlt : s.submitted ≤ 2 ^ 32)
    (hstep : Exchange.step s (.updateComputableTasks id) = some s') :
    ∃ (p : ProblemId) (calcData : CalculationData) (v : TaskDispatch.TaskId)
      (request : AstRequest) (syncData : SyncData) (calcData' : CalculationData),
      id = .mk' p v ∧ id ∈ s.inFlight ∧ s.origin p = some request ∧
      s.dispatcher.problemIdToCalculationData[p]? = some calcData ∧
      Live request syncData calcData ∧ v ∈ calcData.schedule.processing ∧
      (∀ q : ProblemId, s'.dispatcher.problemIdToCalculationData[q]? =
        if q = p then some calcData' else s.dispatcher.problemIdToCalculationData[q]?) ∧
      calcData'.schedule.completed = insert v calcData.schedule.completed ∧
      calcData'.schedule.processing = calcData.schedule.processing \ {v} ∧
      (∀ q : ProblemId, s'.dispatcher.problemIdToSyncData[q]? =
        if q = p ∧ v = request.ast.dag.root then some { isComputed := true }
        else s.dispatcher.problemIdToSyncData[q]?) ∧
      s'.dispatcher.problemId = s.dispatcher.problemId ∧ s'.origin = s.origin ∧
      s'.submitted = s.submitted ∧ s'.sent = s.sent ∧ s'.inFlight = s.inFlight.erase id := by
  obtain ⟨hid, calcData, calcData', request, syncData, hcd, horigin, hsync, hlive, hc, hcases⟩ :=
    h.tracked.update_cases hstep
  obtain ⟨p, _, v, _, _, heq, hp, hv, hcd', -, -, -, hprocessing, -⟩ := h.of_mem_inFlight hlt hid
  rw [hp] at hcd horigin hsync hcases
  rw [hv] at hc hcases
  obtain rfl := Option.some.inj (hcd.symm.trans hcd')
  obtain ⟨hcompleted', hprocessing', -⟩ := CalculationData.schedule_complete hc
  rcases hcases with ⟨hroot, rfl⟩ | ⟨hroot, rfl⟩
  · refine ⟨p, calcData, v, request, syncData, calcData', heq, hid, horigin, hcd, hlive,
      hprocessing, ?_, hcompleted', hprocessing', ?_, rfl, rfl, rfl, rfl, rfl⟩
    · intro q
      simp [Std.ExtTreeMap.getElem?_insert, eq_comm (a := q)]
    · intro q
      simp [Std.ExtTreeMap.getElem?_insert, hroot, eq_comm (a := q)]
  · refine ⟨p, calcData, v, request, syncData, calcData'.recompute, heq, hid, horigin, hcd, hlive,
      hprocessing, ?_, hcompleted', hprocessing', ?_, rfl, rfl, rfl, rfl, rfl⟩
    · intro q
      simp [Std.ExtTreeMap.getElem?_insert, eq_comm (a := q)]
    · intro q
      simp [hroot]

/-- An answer takes its task from in process to completed: no status comes or goes. -/
theorem mem_status_answered {calcData' : CalculationData}
    (hcompleted : calcData'.schedule.completed = insert v calcData.schedule.completed)
    (hprocessing : calcData'.schedule.processing = calcData.schedule.processing \ {v})
    (hv : v ∈ calcData.schedule.processing) :
    u ∈ calcData'.processedTasksToStatus ↔ u ∈ calcData.processedTasksToStatus := by
  rw [CalculationData.mem_status, CalculationData.mem_status, hcompleted, hprocessing]
  by_cases hu : u = v
  · subst hu
    exact iff_of_true (.inr (Set.mem_insert _ _)) (.inl hv)
  · simp [hu]

theorem update (h : Accounted s) (hlt : s.submitted ≤ 2 ^ 32)
    (hstep : Exchange.step s (.updateComputableTasks id) = some s') : Accounted s' := by
  obtain ⟨p, calcData, v, request, syncData, calcData', rfl, hid, hp, hcd, hlive, hv, hentries,
    hcompleted, hprocessing, hsync, hpid, horigin, hsub, hsent, hinFlight⟩ :=
      h.update_spec hlt hstep
  have hvlt : v < request.ast.vertexCount := (hlive.tracks.coherent.processing_subset hv).1
  refine
    { tracked := h.tracked.update hstep
      problemId_eq := by rw [hpid, hsub, h.problemId_eq]
      origin_lt := horigin ▸ hsub ▸ h.origin_lt
      sent_nodup := hsent ▸ h.sent_nodup
      sent_origin := hsent ▸ horigin ▸ h.sent_origin
      sent_iff := ?_
      inFlight_nodup := hinFlight ▸ h.inFlight_nodup.erase _
      mem_inFlight := ?_
      flag := ?_ }
  · intro q calcData₁ request₁ hcd₁ hq u hu
    rw [hentries] at hcd₁
    rw [horigin] at hq
    rw [hsent]
    by_cases heq : q = p
    · subst heq
      rw [if_pos rfl, Option.some.injEq] at hcd₁
      subst hcd₁
      rw [mem_status_answered hcompleted hprocessing hv]
      exact h.sent_iff q calcData request₁ hcd hq u hu
    · rw [if_neg heq] at hcd₁
      exact h.sent_iff q calcData₁ request₁ hcd₁ hq u hu
  · intro id
    rw [hinFlight, h.inFlight_nodup.mem_erase_iff, h.mem_inFlight]
    constructor
    · rintro ⟨hne, q, calcData₁, u, hcd₁, hu, rfl⟩
      by_cases heq : q = p
      · subst heq
        obtain rfl := Option.some.inj (hcd.symm.trans hcd₁)
        refine ⟨q, calcData', u, by rw [hentries, if_pos rfl], ?_, rfl⟩
        rw [hprocessing]
        exact ⟨hu, fun huv => hne (huv ▸ rfl)⟩
      · exact ⟨q, calcData₁, u, by rw [hentries, if_neg heq, hcd₁], hu, rfl⟩
    · rintro ⟨q, calcData₁, u, hcd₁, hu, rfl⟩
      rw [hentries] at hcd₁
      by_cases heq : q = p
      · subst heq
        rw [if_pos rfl, Option.some.injEq] at hcd₁
        subst hcd₁
        rw [hprocessing] at hu
        refine ⟨?_, q, calcData, u, hcd, hu.1, rfl⟩
        intro hsame
        apply hu.2
        exact ((h.mk'_inj hlt hp (hlive.tracks.coherent.processing_subset hu.1).1 hp hvlt).mp
          hsame).2
      · rw [if_neg heq] at hcd₁
        obtain ⟨-, request₁, syncData₁, hq, -, hlive₁⟩ := h.entry hcd₁
        refine ⟨?_, q, calcData₁, u, hcd₁, hu, rfl⟩
        -- ids of two problems differ
        intro hsame
        apply heq
        exact ((h.mk'_inj hlt hq (hlive₁.tracks.coherent.processing_subset hu).1 hp hvlt).mp
          hsame).1
  · intro q request₁ hq hflag
    rw [horigin] at hq
    rw [hsync] at hflag
    split_ifs at hflag with hroot
    · -- the root was in process, so it is no leaf: those are completed
      obtain ⟨rfl, rfl⟩ := hroot
      obtain rfl := Option.some.inj (hp.symm.trans hq)
      exact fun hnil => hlive.tracks.coherent.notMem_completed hv
        (hlive.tracks.leaves ⟨request.ast.dag.root_mem, hnil⟩)
    · exact h.flag q request₁ hq hflag

theorem clear (h : Accounted s) (hstep : Exchange.step s (.clearProblem p) = some s') :
    Accounted s' := by
  have htracked := h.tracked.clear hstep
  obtain ⟨hcomputed, rfl⟩ := step_clear.mp hstep
  have hentries : ∀ q : ProblemId,
      (s.dispatcher.clearProblem p).problemIdToCalculationData[q]? =
        if p = q then none else s.dispatcher.problemIdToCalculationData[q]? := by
    intro q
    simp [Dispatcher.clearProblem, Std.ExtTreeMap.getElem?_erase]
  refine { h with
    tracked := htracked
    sent_iff := ?_
    mem_inFlight := ?_
    flag := ?_ }
  · intro q calcData request hcd hq v hv
    rw [hentries] at hcd
    split_ifs at hcd
    exact h.sent_iff q calcData request hcd hq v hv
  · intro id
    rw [h.mem_inFlight]
    constructor
    · rintro ⟨q, calcData, v, hcd, hv, rfl⟩
      refine ⟨q, calcData, v, ?_, hv, rfl⟩
      rw [hentries, if_neg, hcd]
      -- the flag is up, so nothing of the problem is in process
      rintro rfl
      obtain ⟨-, request, syncData, -, hsync, hlive⟩ := h.entry hcd
      obtain rfl := Option.some.inj (hcomputed.symm.trans hsync)
      rw [(hlive.all_completed rfl).2] at hv
      exact hv
    · rintro ⟨q, calcData, v, hcd, hv, rfl⟩
      rw [hentries] at hcd
      split_ifs at hcd
      exact ⟨q, calcData, v, hcd, hv, rfl⟩
  · intro q request hq hflag
    simp only [Dispatcher.clearProblem, Std.ExtTreeMap.getElem?_erase] at hflag
    split_ifs at hflag
    exact h.flag q request hq hflag

theorem step {a : Action} (h : Accounted s) (hlt : s'.submitted ≤ 2 ^ 32)
    (hstep : Exchange.step s a = some s') : Accounted s' := by
  cases a with
  | pushProblem request => exact h.push hlt hstep
  | sendComputableTasks =>
    obtain ⟨_, _, _, _, hsub, _⟩ := h.send_spec hstep
    exact h.send (hsub ▸ hlt) hstep
  | updateComputableTasks id =>
    obtain ⟨-, _, -, rfl⟩ := step_update.mp hstep
    exact h.update hlt hstep
  | clearProblem p => exact h.clear hstep

end Accounted

variable {s s' : Exchange}

/-- Problems are only ever added. -/
theorem submitted_le {a : Action} (hstep : step s a = some s') : s.submitted ≤ s'.submitted := by
  cases a with
  | pushProblem request =>
    obtain ⟨_, -, rfl⟩ := step_push.mp hstep
    exact Nat.le_succ _
  | sendComputableTasks =>
    obtain ⟨_, _, -, rfl⟩ := step_send.mp hstep
    exact le_rfl
  | updateComputableTasks id =>
    obtain ⟨-, _, -, rfl⟩ := step_update.mp hstep
    exact le_rfl
  | clearProblem p =>
    obtain ⟨-, rfl⟩ := step_clear.mp hstep
    exact le_rfl

theorem Accounted.runs {as : List Action} (h : Accounted s) (hrun : Runs Exchange.step s as s')
    (hlt : s'.submitted ≤ 2 ^ 32) : Accounted s' :=
  hrun.invariant_within (P := fun s => s.submitted ≤ 2 ^ 32) (I := Accounted)
    (fun _ _ _ hstep hb => (submitted_le hstep).trans hb) h
    (fun _ _ _ h hb hstep => h.step hb hstep) hlt

theorem Accounted.of_runs {as : List Action} (hrun : Runs Exchange.step {} as s)
    (hlt : s.submitted ≤ 2 ^ 32) : Accounted s :=
  Accounted.init.runs hrun hlt

/-! ## Exactly-once dispatch -/

namespace Accounted

variable {p : ProblemId} {v : TaskDispatch.TaskId} {id : Proto.TaskId} {request : AstRequest}
  {syncData : SyncData} {calcData calcData' : CalculationData}

theorem isLeaf_iff (h : Live request syncData calcData) (hv : v ∈ calcData.decompositor.tasks) :
    (calcData.decompositor.graph.properties v).type.IsLeaf ↔ request.ast.dag.deps v = [] := by
  rw [h.tracks.decompositor_eq] at hv ⊢
  exact AST.isLeaf_iff (AST.mem_tasks_decompositor.mp hv)

/-- What is sent is an operator of a submitted tree. -/
theorem operator_of_sent (h : Accounted s) {t : Task} (ht : t ∈ s.sent) :
    ∃ p request decompositor v, s.origin p = some request ∧
      TaskDecompositor.new request.ast = .ok decompositor ∧ v ∈ decompositor.tasks ∧
      ¬(decompositor.graph.properties v).type.IsLeaf ∧ t.id = .mk' p v := by
  obtain ⟨p, request, v, horigin, hv, hdeps, hid⟩ := h.sent_origin t ht
  refine ⟨p, request, _, v, horigin, TaskDecompositor.new_eq _, by simpa using hv, ?_, hid⟩
  rwa [AST.isLeaf_iff hv]

/-- What is sent next has its operands completed. -/
theorem operands_of_send (h : Accounted s) {order : PassOrder} {tasks : List Task} {d : Dispatcher}
    (hsend : s.dispatcher.sendComputableTasks order = .ok (tasks, d)) {t : Task} (ht : t ∈ tasks) :
    ∃ (p : ProblemId) (calcData : CalculationData) (v : TaskDispatch.TaskId),
      s.dispatcher.problemIdToCalculationData[p]? = some calcData ∧ t.id = .mk' p v ∧
      ∀ u ∈ calcData.decompositor.graph.adjacentVertices v,
        calcData.processedTasksToStatus[u]? = some .completed := by
  obtain ⟨p, calcData, v, hcd, hv, hid⟩ :=
    (Dispatcher.mem_map_id_sendComputableTasks hsend).mp (List.mem_map_of_mem ht)
  obtain ⟨-, request, syncData, -, -, hlive⟩ := h.entry hcd
  refine ⟨p, calcData, v, hcd, hid, ?_⟩
  rw [hlive.tracks.decompositor_eq, AST.adjacentVertices_decompositor]
  exact (of_computable hlive hv).2.2.2

/-- When the root is answered, all of its problem is completed and nothing of it in flight. -/
theorem update_root (h : Accounted s) (hlt : s.submitted ≤ 2 ^ 32)
    (hstep : Exchange.step s (.updateComputableTasks id) = some s')
    (hcd : s.dispatcher.problemIdToCalculationData[id.problemId.toNat]? = some calcData)
    (hlast : calcData.decompositor.lastTask = .ok id.taskId.toNat) :
    (∀ id' ∈ s'.inFlight, id'.problemId ≠ id.problemId) ∧
      ∃ calcData', s'.dispatcher.problemIdToCalculationData[id.problemId.toNat]? = some calcData' ∧
        ∀ u ∈ calcData.decompositor.tasks,
          calcData'.processedTasksToStatus[u]? = some .completed ∧
            (¬(calcData.decompositor.graph.properties u).type.IsLeaf →
              (s.sent.map (·.id)).count (.mk' id.problemId.toNat u) = 1) := by
  have hbound : s'.submitted ≤ 2 ^ 32 := by
    obtain ⟨-, _, -, rfl⟩ := step_update.mp hstep
    exact hlt
  have h' : Accounted s' := h.update hlt hstep
  obtain ⟨p, calcData₁, v, request, syncData, calcData', hid, hmem, horigin, hcd₁, hlive, hv,
    hentries, hcompleted, hprocessing, -, -, -, -, -, hinFlight⟩ := h.update_spec hlt hstep
  obtain ⟨p₁, _, v₁, _, _, hid₁, hp, hvnat, -⟩ := h.of_mem_inFlight hlt hmem
  have hplt : p < 2 ^ 32 := (h.origin_lt p request horigin).trans_le hlt
  have hvlt : v < request.ast.vertexCount := (hlive.tracks.coherent.processing_subset hv).1
  have hpnat : id.problemId.toNat = p := by
    rw [hid]
    exact toNat_ofNat_of_lt hplt
  have hvnat : id.taskId.toNat = v := by
    rw [hid]
    exact toNat_ofNat_of_lt (hvlt.trans request.vertexCount_lt)
  rw [hpnat] at hcd ⊢
  obtain rfl := Option.some.inj (hcd.symm.trans hcd₁)
  rw [hlive.tracks.decompositor_eq, AST.lastTask_decompositor, hvnat] at hlast
  obtain rfl := Except.ok.inj hlast
  obtain ⟨hrest, hsingle, -⟩ := hlive.tracks.coherent.of_root_processing hv
  refine ⟨?_, calcData', by rw [hentries, if_pos rfl], ?_⟩
  · -- the root was the last task in process
    intro id' hid' heq
    obtain ⟨q, calcData₂, w, request₂, syncData₂, rfl, hq, -, hcd₂, horigin₂, -, -, hw, -⟩ :=
      h'.of_mem_inFlight hbound hid'
    rw [← hq, heq, hpnat, hentries, if_pos rfl, Option.some.injEq] at hcd₂
    rw [← hcd₂, hprocessing, hsingle, Set.sdiff_self] at hw
    exact hw
  · intro u hu
    have hult : u < request.ast.vertexCount := by
      rwa [hlive.tracks.decompositor_eq, AST.mem_tasks_decompositor] at hu
    constructor
    · have hmemu : u ∈ calcData'.schedule.completed := by
        rw [hcompleted]
        by_cases hroot : u = request.ast.dag.root
        · exact .inl hroot
        · exact .inr (hrest u hult hroot)
      exact hmemu
    · -- an operator with a status was sent, and nothing is sent twice
      rw [isLeaf_iff hlive hu]
      intro hdeps
      refine List.count_eq_one_of_mem h.sent_nodup
        ((h.sent_iff p calcData request hcd horigin u hult).mpr ⟨hdeps, ?_⟩)
      rw [CalculationData.mem_status]
      by_cases hroot : u = request.ast.dag.root
      · exact .inl (hroot ▸ hv)
      · exact .inr (hrest u hult hroot)

end Accounted

/-- **Exactly-once dispatch with the root last.** Over every interleaving in which each task sent is
answered at most once, and only after it was sent: no id is sent twice; every id sent is that of an
operator of a submitted tree; what a pass sends has its operands completed; no answer makes a
lookup throw; and when the root of a problem is answered, every task of the problem is completed,
every operator was sent exactly once, and no task of it is in flight. -/
theorem exactly_once_dispatch {actions : List Action} {s : Exchange}
    (hrun : Runs step {} actions s) (hlt : s.submitted < 2 ^ 32) :
    (s.sent.map (·.id)).Nodup ∧
    (∀ t ∈ s.sent, ∃ p request decompositor v, s.origin p = some request ∧
      TaskDecompositor.new request.ast = .ok decompositor ∧ v ∈ decompositor.tasks ∧
      ¬(decompositor.graph.properties v).type.IsLeaf ∧ t.id = .mk' p v) ∧
    (∀ order, ∃ tasks d, s.dispatcher.sendComputableTasks order = .ok (tasks, d) ∧
      ∀ t ∈ tasks, ∃ (p : ProblemId) (calcData : CalculationData) (v : TaskDispatch.TaskId),
        s.dispatcher.problemIdToCalculationData[p]? = some calcData ∧ t.id = .mk' p v ∧
        ∀ u ∈ calcData.decompositor.graph.adjacentVertices v,
          calcData.processedTasksToStatus[u]? = some .completed) ∧
    (∀ id ∈ s.inFlight, ∃ d, s.dispatcher.updateComputableTasks id = .ok d) ∧
    ∀ id s' calcData, step s (.updateComputableTasks id) = some s' →
      s.dispatcher.problemIdToCalculationData[id.problemId.toNat]? = some calcData →
      calcData.decompositor.lastTask = .ok id.taskId.toNat →
      (∀ id' ∈ s'.inFlight, id'.problemId ≠ id.problemId) ∧
        ∃ calcData', s'.dispatcher.problemIdToCalculationData[id.problemId.toNat]? =
            some calcData' ∧
          ∀ u ∈ calcData.decompositor.tasks,
            calcData'.processedTasksToStatus[u]? = some .completed ∧
              (¬(calcData.decompositor.graph.properties u).type.IsLeaf →
                (s.sent.map (·.id)).count (.mk' id.problemId.toNat u) = 1) := by
  have h := Accounted.of_runs hrun hlt.le
  refine ⟨h.sent_nodup, fun t ht => h.operator_of_sent ht,
    fun order => ⟨_, _, Dispatcher.sendComputableTasks_eq _ order,
      fun t ht => h.operands_of_send (Dispatcher.sendComputableTasks_eq _ order) ht⟩,
    ?_, fun id s' calcData hstep hcd hlast => h.update_root hlt.le hstep hcd hlast⟩
  intro id hid
  obtain ⟨s', hs'⟩ := h.update_returns hlt.le hid
  obtain ⟨-, d, hd, -⟩ := step_update.mp hs'
  exact ⟨d, hd⟩

/-- The mean of a list, from the push to the erasure. -/
def meanRun : List Action :=
  [.pushProblem .mean, .sendComputableTasks, .updateComputableTasks ⟨0, 2⟩,
    .updateComputableTasks ⟨0, 1⟩, .sendComputableTasks, .updateComputableTasks ⟨0, 3⟩,
    .clearProblem 0]

/-- It sends three tasks under three ids. -/
theorem exactly_once_dispatch_mean : ∃ s, Runs step {} meanRun s ∧ s.sent.length = 3 ∧
    (s.sent.map (·.id)).Nodup :=
  ⟨_, rfl, rfl, (@exactly_once_dispatch meanRun _ rfl (by decide)).1⟩

end Exchange
end TaskDispatch
