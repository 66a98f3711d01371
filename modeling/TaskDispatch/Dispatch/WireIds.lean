import Mathlib
import TaskDispatch.Broker.Broker
import TaskDispatch.Dispatch.Progress
import TaskDispatch.Worker.ThreadPool

/-!
# The width of a problem id

The dispatcher counts problems in a `size_t`; a message and a key of the store have 32 bits for the
number. The worker and the broker copy what they get, so an answer names the problem it is for as
long as the number fits. From the problem with the number `2 ^ 32` on it does not: the tasks of that
problem carry the id `0`, and their answers are looked up under `0`, where there is no problem any
more, or another one. `wireIdsKept_iff` says that this is the only way to lose an id.
-/

set_option autoImplicit false

namespace TaskDispatch

open Proto Transition

namespace Exchange

/-- The ids of the problems in the maps are what comes back from the workers.

A task of the problem `p` is answered by a worker, with the id that was in the task, and the broker
passes on the id that was in the answer. -/
structure WireIdsKept (s : Exchange) : Prop where
  returned : ∀ p v dependencies task, s.dispatcher.formTaskRequest p v dependencies = .ok task →
    ∀ (identity : String) (broker broker' : Broker),
      broker.processWorkerTaskReply (ThreadPool.response ⟨identity, task⟩) = .ok broker' →
        ∃ id, broker'.managerConnection = broker.managerConnection ++ [id] ∧
          id.problemId.toNat = p
  distinct : ∀ p ∈ s.dispatcher.problemIdToCalculationData,
    ∀ q ∈ s.dispatcher.problemIdToCalculationData, UInt32.ofNat p = UInt32.ofNat q → p = q
  charged : ∀ id ∈ s.inFlight, ∃ (p : ProblemId) (calcData : CalculationData)
    (v : TaskDispatch.TaskId), s.dispatcher.problemIdToCalculationData[p]? = some calcData ∧
      calcData.processedTasksToStatus[v]? = some .processing ∧ id = .mk' p v ∧
      id.problemId.toNat = p ∧ ∃ d, s.dispatcher.updateComputableTasks id = .ok d
  rows : ∀ p ∈ s.dispatcher.problemIdToCalculationData,
    ∀ q ∈ s.dispatcher.problemIdToCalculationData, ∀ t u,
      DatabaseClient.toRecordId (.dynRecordId p t) = DatabaseClient.toRecordId (.dynRecordId q u) →
        p = q

/-- The number of a new problem fits the messages. -/
def Fits (s : Exchange) : Action → Prop
  | .pushProblem _ => s.dispatcher.problemId < 2 ^ 32
  | _ => True

instance (s : Exchange) : DecidablePred s.Fits
  | .pushProblem _ => inferInstanceAs (Decidable (_ < _))
  | .sendComputableTasks _ | .updateComputableTasks _ | .clearProblem _ => isTrue trivial

section Fits

variable {s s' : Exchange} {p : ProblemId} {request : AstRequest} {a : Action}

/-- While every problem fits, the ids are kept. -/
theorem Accounted.wireIdsKept (h : Accounted s) (hlt : s.submitted ≤ 2 ^ 32) : WireIdsKept s := by
  have hlive : ∀ p ∈ s.dispatcher.problemIdToCalculationData, p < 2 ^ 32 := by
    intro p hp
    exact (h.entry (Std.ExtTreeMap.getElem?_eq_some_getElem hp)).1.trans_le hlt
  have hdistinct : ∀ p ∈ s.dispatcher.problemIdToCalculationData,
      ∀ q ∈ s.dispatcher.problemIdToCalculationData, UInt32.ofNat p = UInt32.ofNat q → p = q := by
    intro p hp q hq heq
    have hnat := congrArg UInt32.toNat heq
    rwa [toNat_ofNat_of_lt (hlive p hp), toNat_ofNat_of_lt (hlive q hq)] at hnat
  refine
    { returned := ?_
      distinct := hdistinct
      charged := ?_
      rows := ?_ }
  · intro p v dependencies task htask identity broker broker' hbroker
    refine ⟨task.id, Broker.managerConnection_processWorkerTaskReply hbroker, ?_⟩
    obtain ⟨calcData, hcd, hrest⟩ := Result.bind_ok_iff.mp htask
    rw [Result.ofLookup_eq_ok] at hcd
    obtain ⟨operands, -, htask⟩ := Result.bind_ok_iff.mp hrest
    rw [← Except.ok.inj htask]
    exact toNat_ofNat_of_lt (hlive p (Std.ExtTreeMap.getElem?_eq_some_iff.mp hcd).1)
  · intro id hid
    obtain ⟨p, calcData, v, request, syncData, rfl, hp, -, hcd, -, -, -, hprocessing, -⟩ :=
      h.of_mem_inFlight hlt hid
    obtain ⟨s', hupdate⟩ := h.update_returns hlt hid
    obtain ⟨-, d, hd, -⟩ := step_update.mp hupdate
    exact ⟨p, calcData, v, hcd, hprocessing, rfl, hp, d, hd⟩
  · intro p hp q hq t u heq
    exact hdistinct p hp q hq (DynamicRecordId.mk.inj (RecordId.dynId.inj heq)).1

/-- What the runs are about in which every problem fits. -/
structure Fitting (s : Exchange) : Prop where
  accounted : Accounted s
  submitted_le : s.submitted ≤ 2 ^ 32

theorem Fitting.init : Fitting {} := ⟨.init, Nat.zero_le _⟩

theorem Fitting.step (h : Fitting s) (hok : Fits s a) (hstep : Exchange.step s a = some s') :
    Fitting s' := by
  have hle : s'.submitted ≤ 2 ^ 32 := by
    cases a with
    | pushProblem request =>
      obtain ⟨_, -, rfl⟩ := step_push.mp hstep
      have hlt : s.dispatcher.problemId < 2 ^ 32 := hok
      rw [h.accounted.problemId_eq] at hlt
      exact hlt
    | sendComputableTasks =>
      obtain ⟨_, _, -, rfl⟩ := step_send.mp hstep
      exact h.submitted_le
    | updateComputableTasks id =>
      obtain ⟨-, _, -, rfl⟩ := step_update.mp hstep
      exact h.submitted_le
    | clearProblem p =>
      obtain ⟨-, rfl⟩ := step_clear.mp hstep
      exact h.submitted_le
  exact ⟨h.accounted.step hle hstep, hle⟩

/-- A worker with a core, known to the broker. -/
def oneWorker : Broker where
  workerRoutingIdToAvailableCoreCount := Std.ExtTreeMap.insert ∅ "worker" 1

/-- A problem in the maps has a number that fits, where ids are kept. -/
theorem WireIdsKept.lt (h : WireIdsKept s)
    (hp : p ∈ s.dispatcher.problemIdToCalculationData) : p < 2 ^ 32 := by
  have hcd := Std.ExtTreeMap.getElem?_eq_some_getElem hp
  obtain ⟨task, htask⟩ : ∃ task, s.dispatcher.formTaskRequest p 0 [] = .ok task :=
    ⟨_, Dispatcher.formTaskRequest_eq hcd []⟩
  obtain ⟨broker', hbroker⟩ : ∃ broker', oneWorker.processWorkerTaskReply
      (ThreadPool.response ⟨"worker", task⟩) = .ok broker' :=
    ⟨_, (Broker.processWorkerTaskReply_of_nil rfl).mpr
      ⟨1, Std.ExtTreeMap.getElem?_insert_self, rfl⟩⟩
  obtain ⟨id, -, hid⟩ := h.returned p 0 [] task htask "worker" oneWorker broker' hbroker
  rw [← hid]
  exact id.problemId.toNat_lt

/-- A problem whose number does not fit is in the maps after the push. -/
theorem Fitting.fits (h : Fitting s) (hkept : WireIdsKept s')
    (hstep : Exchange.step s a = some s') : Fits s a := by
  cases a with
  | pushProblem request =>
    obtain ⟨calcData, -, rfl⟩ := step_push.mp hstep
    obtain ⟨hentry, -⟩ := h.accounted.tracked.pushProblem_of_notMem calcData
      h.accounted.problemId_notMem s.dispatcher.problemId
    rw [if_pos rfl] at hentry
    exact hkept.lt (Std.ExtTreeMap.getElem?_eq_some_iff.mp hentry).1
  | sendComputableTasks | updateComputableTasks id | clearProblem p => trivial

end Fits

/-- **When the ids are kept.** In every state of a run the ids come back as they are in the maps, no
two problems in the maps share one or a row of the store, and every answer on its way is for a task
in process of the problem it names, where it is found, if and only if every problem of the run is
pushed while the counter is below `2 ^ 32`. -/
theorem wireIdsKept_iff {actions : List Action} {s : Exchange} (hrun : Runs step {} actions s) :
    Throughout step WireIdsKept {} actions ↔ Meets step Fits {} actions := by
  constructor
  · intro hkept
    exact hrun.meets_of_throughout (P := fun _ => True) (I := Fitting)
      (fun _ _ _ _ _ => trivial) (fun _ _ _ h hok hstep => h.step hok hstep)
      (fun _ _ _ h _ hkept hstep => h.fits hkept hstep) .init trivial hkept
  · intro hmeets
    exact (throughout_of_meets (fun _ _ _ h hok hstep => Fitting.step h hok hstep) .init
      hmeets).mono fun _ h => h.accounted.wireIdsKept h.submitted_le

/-- The mean of a list, as the first problem. -/
theorem wireIdsKept_mean : ∃ s, Runs step {} meanRun s ∧
    Throughout step WireIdsKept {} meanRun := by
  obtain ⟨s, hrun⟩ : ∃ s, Runs step {} meanRun s := ⟨_, rfl⟩
  refine ⟨s, hrun, (@wireIdsKept_iff meanRun s hrun).mpr ?_⟩
  decide

/-! ## The problem with the number `2 ^ 32` -/

/-- One problem after the other, each pushed, computed and erased. -/
theorem exists_sequential (n : ℕ) (hn : n ≤ 2 ^ 32) : ∃ actions s, Runs step {} actions s ∧
    Accounted s ∧ s.submitted = n ∧ ∀ p, p ∉ s.dispatcher.problemIdToCalculationData := by
  induction n with
  | zero => exact ⟨[], {}, Runs.refl step {}, .init, rfl, by simp⟩
  | succ n ih =>
    obtain ⟨actions, s, hrun, h, hsub, hnone⟩ := ih (Nat.le_of_succ_le hn)
    obtain ⟨calcData, hnew⟩ : ∃ calcData, CalculationData.new AstRequest.mean.ast = .ok calcData :=
      ⟨_, rfl⟩
    obtain ⟨s₁, hpush⟩ : ∃ s₁, step s (.pushProblem .mean) = some s₁ :=
      ⟨_, step_push.mpr ⟨calcData, hnew, rfl⟩⟩
    have hsub₁ : s₁.submitted = n + 1 := by
      obtain ⟨_, -, rfl⟩ := step_push.mp hpush
      rw [← hsub]
    have hle₁ : s₁.submitted ≤ 2 ^ 32 := hsub₁ ▸ hn
    have h₁ : Accounted s₁ := h.push hle₁ hpush
    obtain ⟨_, -, -, -, horigin, hentries, -⟩ := h.push_spec hle₁ hpush
    have hcd₁ := hentries s.submitted
    rw [if_pos rfl] at hcd₁
    have horigin₁ : s₁.origin s.submitted = some .mean := by
      rw [horigin, Function.update_self]
    obtain ⟨actions₂, s₂, hrun₂, h₂, hsame, hflag⟩ :=
      h₁.reaches_computed (by decide) hle₁ horigin₁ hcd₁
    have hclear := step_clear.mpr ⟨hflag, rfl⟩
    refine ⟨actions ++ (.pushProblem .mean :: (actions₂ ++ [.clearProblem s.submitted])), _,
      hrun.trans (Runs.cons_iff.mpr ⟨s₁, hpush, hrun₂.trans (Runs.single hclear)⟩),
      h₂.clear hclear, hsame.submitted_eq.trans hsub₁, ?_⟩
    intro p hp
    -- the new problem is the only one, and it is erased
    rw [Dispatcher.clearProblem, Std.ExtTreeMap.mem_erase] at hp
    have hmem := (hsame.mem_iff p).mp hp.2
    rw [Std.ExtTreeMap.mem_iff_isSome_getElem?, hentries, if_neg,
      ← Std.ExtTreeMap.mem_iff_isSome_getElem?] at hmem
    · exact hnone p hmem
    · rintro rfl
      exact hp.1 (by simp)

/-- `2 ^ 32` problems are submitted, computed and erased one after the other. The next one has the
number `2 ^ 32`; the ids of its tasks say `0`, and the answer to such a task, for which there is no
problem in the maps, makes the dispatcher throw. -/
theorem wireId_cut : ∃ actions s id, Runs step {} actions s ∧ s.submitted = 2 ^ 32 + 1 ∧
    (∀ p, p ∈ s.dispatcher.problemIdToCalculationData ↔ p = 2 ^ 32) ∧ id ∈ s.inFlight ∧
    id.problemId = 0 ∧ s.dispatcher.updateComputableTasks id = .error (.thrown .outOfRange) ∧
    ¬WireIdsKept s := by
  obtain ⟨actions, s, hrun, h, hsub, hnone⟩ := exists_sequential (2 ^ 32) le_rfl
  have hid : s.dispatcher.problemId = 2 ^ 32 := h.problemId_eq.trans hsub
  obtain ⟨calcData, hnew, hcomputable⟩ : ∃ calcData,
      CalculationData.new AstRequest.mean.ast = .ok calcData ∧
        2 ∈ calcData.computableTaskToDependencies := ⟨_, rfl, by decide⟩
  obtain ⟨s₁, hpush, hsub₁, hentries₁⟩ : ∃ s₁, step s (.pushProblem .mean) = some s₁ ∧
      s₁.submitted = 2 ^ 32 + 1 ∧ ∀ q : ProblemId,
        s₁.dispatcher.problemIdToCalculationData[q]? =
          if q = 2 ^ 32 then some calcData else none := by
    refine ⟨_, step_push.mpr ⟨calcData, hnew, rfl⟩, by rw [hsub], fun q => ?_⟩
    rw [(h.tracked.pushProblem_of_notMem calcData (hnone _) q).1, hid,
      Std.ExtTreeMap.getElem?_eq_none (hnone q)]
  obtain ⟨s₂, tasks, hsend, htasks, hsub₂, hinFlight, hentries₂⟩ : ∃ s₂ tasks,
      step s₁ .sendComputableTasks = some s₂ ∧
      s₁.dispatcher.sendComputableTasks .ascending = .ok (tasks, s₂.dispatcher) ∧
      s₂.submitted = s₁.submitted ∧ s₂.inFlight = s₁.inFlight + tasks.map (·.id) ∧
      ∀ q : ProblemId, s₂.dispatcher.problemIdToCalculationData[q]? =
        s₁.dispatcher.problemIdToCalculationData[q]?.map CalculationData.markSent :=
    ⟨_, _, step_send.mpr ⟨_, _, Dispatcher.sendComputableTasks_eq _ _, rfl⟩,
      Dispatcher.sendComputableTasks_eq _ _, rfl, rfl, fun q => Std.ExtTreeMap.getElem?_map⟩
  have hmem : TaskId.mk' (2 ^ 32) 2 ∈ s₂.inFlight := by
    rw [hinFlight]
    refine Multiset.mem_add.mpr (.inr (Multiset.mem_coe.mpr ?_))
    refine (Dispatcher.mem_map_id_sendComputableTasks htasks).mpr ⟨2 ^ 32, calcData, 2, ?_,
      hcomputable, rfl⟩
    rw [hentries₁, if_pos rfl]
  -- the id says problem `0`, and the maps hold the problem `2 ^ 32` only
  have hlookup : s₂.dispatcher.problemIdToCalculationData[0]? = none := by
    rw [hentries₂, hentries₁, if_neg (by norm_num), Option.map_none]
  have hthrows : s₂.dispatcher.updateComputableTasks (.mk' (2 ^ 32) 2) =
      .error (.thrown .outOfRange) := by
    show (Result.ofLookup s₂.dispatcher.problemIdToCalculationData[0]? >>= _) = _
    rw [hlookup]
    rfl
  refine ⟨actions ++ [.pushProblem .mean, .sendComputableTasks], s₂, .mk' (2 ^ 32) 2,
    hrun.trans (Runs.cons_iff.mpr ⟨s₁, hpush, Runs.single hsend⟩), hsub₂.trans hsub₁,
    ?_, hmem, rfl, hthrows, ?_⟩
  · intro p
    rw [Std.ExtTreeMap.mem_iff_isSome_getElem?, hentries₂, hentries₁]
    by_cases hp : p = 2 ^ 32 <;> simp [hp]
  · intro hkept
    obtain ⟨-, -, -, -, -, -, -, d, hd⟩ := hkept.charged _ hmem
    rw [hthrows] at hd
    cases hd

end Exchange
end TaskDispatch
