import Mathlib
import TaskDispatch.Deployment.Deployment

/-!
# Nothing wrong comes out

Every run of the deployment is one of `Unreliable` (`unreliable_runs`): whatever the broker does
with its queue, whoever is subscribed when, and whichever calls to the store fail, what reaches a
thread is a task that was sent. So what `CalculateProblem` returns is the value of its tree
(`result_right`), also in the runs in which the broker sends one task twice and drops another.
-/

set_option autoImplicit false

namespace TaskDispatch

open Proto Transition

/-! ## Where the tasks of the fleet come from -/

namespace Fleet

/-- Every task that is in the queue, was published or was heard is such a task. -/
structure AllTasks (P : Task → Prop) (s : Fleet) : Prop where
  queue : ∀ task ∈ s.broker.taskQueue, P task
  published : ∀ workerTask ∈ s.broker.workerPub, P workerTask.task
  heard : ∀ identity m, s.members identity = some m → ∀ workerTask ∈ m.heard, P workerTask.task

namespace AllTasks

variable {P : Task → Prop} {s s' : Fleet} {identity : String} {m m' : Member} {a : Action}

theorem init : AllTasks P {} where
  queue := by simp
  published := by simp
  heard := by simp

theorem mono {Q : Task → Prop} (h : AllTasks P s) (hPQ : ∀ task, P task → Q task) :
    AllTasks Q s where
  queue task htask := hPQ task (h.queue task htask)
  published workerTask hmem := hPQ _ (h.published workerTask hmem)
  heard identity m hm workerTask hmem := hPQ _ (h.heard identity m hm workerTask hmem)

theorem setMember (h : AllTasks P s) (hm' : ∀ workerTask ∈ m'.heard, P workerTask.task) :
    AllTasks P (s.setMember identity m') where
  queue := h.queue
  published := h.published
  heard identity' m hm := by
    rw [members_setMember] at hm
    split_ifs at hm
    · obtain rfl := Option.some.inj hm
      exact hm'
    · exact h.heard identity' m hm

/-- A worker moves on without hearing anything. -/
theorem onMember (h : AllTasks P s) {f : Member → Option Member}
    (hstep : s.onMember identity f = some s') (hf : ∀ m m', f m = some m' → m'.heard = m.heard) :
    AllTasks P s' := by
  obtain ⟨m, m', hm, hfm, rfl⟩ := onMember_eq_some.mp hstep
  apply h.setMember
  rw [hf m m' hfm]
  exact h.heard identity m hm

theorem goOn {b : Broker} {published : List WorkerTask} (h : AllTasks P s)
    (hpublishes : Publishes s.broker b published) (hqueue : ∀ task ∈ b.taskQueue, P task)
    (hpublished : ∀ workerTask ∈ published, P workerTask.task) : AllTasks P (s.goOn b) where
  queue := hqueue
  published workerTask hmem := by
    have hmem : workerTask ∈ b.workerPub := hmem
    rw [hpublishes.workerPub] at hmem
    rcases List.mem_append.mp hmem with hold | hnew
    · exact h.published workerTask hold
    · exact hpublished workerTask hnew
  heard identity m hm workerTask hmem := by
    rw [members_goOn hpublishes, Option.map_eq_some_iff] at hm
    obtain ⟨m, hm, rfl⟩ := hm
    unfold Member.hear at hmem
    split_ifs at hmem
    · rcases List.mem_append.mp hmem with hold | hnew
      · exact h.heard identity m hm workerTask hold
      · exact hpublished workerTask hnew
    · exact h.heard identity m hm workerTask hmem

/-- The broker publishes what is in its queue. -/
theorem reply {b : Broker} {id : WorkerTaskId} (h : AllTasks P s)
    (hb : s.broker.processWorkerTaskReply id = .ok b) : AllTasks P (s.goOn b) := by
  obtain ⟨published, hpublishes, -⟩ := publishes_reply hb
  have hpub := hpublishes.workerPub
  cases hback : s.broker.taskQueue.getLast? with
  | none =>
    have hnil : s.broker.taskQueue = [] := List.getLast?_eq_none_iff.mp hback
    obtain ⟨count, -, rfl⟩ := (Broker.processWorkerTaskReply_of_nil hnil).mp hb
    refine h.goOn hpublishes h.queue ?_
    rw [List.self_eq_append_right.mp hpub]
    simp
  | some task =>
    obtain ⟨count, -, rfl⟩ := (Broker.processWorkerTaskReply_of_ne_nil hback).mp hb
    refine h.goOn hpublishes ?_ ?_
    · intro task' htask'
      exact h.queue task' (List.mem_of_mem_tail htask')
    · rw [← List.append_cancel_left hpub]
      simpa using h.queue task (List.mem_of_getLast? hback)

theorem step (h : AllTasks P s) (horderly : s.Orderly) (hrequest : ∀ task ∈ a.request?, P task)
    (hstep : Fleet.step s a = some s') : AllTasks P s' := by
  cases a with
  | connect identity coreCount =>
    simp only [Fleet.step] at hstep
    split_ifs at hstep
    obtain rfl := Option.some.inj hstep
    exact h.setMember (by simp)
  | subscribe identity | checkOutputQueue identity =>
    apply h.onMember hstep
    intro m m' hm'
    obtain rfl := Option.some.inj hm'
    rfl
  | readRequest identity | poll identity | calculateTask identity task =>
    apply h.onMember hstep
    intro m m' hm'
    obtain ⟨_, -, rfl⟩ := withWorker_eq_some hm'
    rfl
  | receiveWorkerMessage identity =>
    obtain ⟨m, message, dealer, b, hm, hdealer, hb, rfl⟩ := step_receiveWorkerMessage.mp hstep
    have hset : AllTasks P (s.setMember identity { m with
        worker := { m.worker with dealer }
        arrived := m.arrived ++ (Worker.taskId? message).toList }) :=
      h.setMember (h.heard identity m hm)
    rcases horderly.receiveWorkerMessage_cases hm hdealer with
      ⟨count, rfl, rfl, -⟩ | ⟨id, rfl, -, -⟩
    · have hmembers := members_goOn_of_registerWorker (s := s.setMember identity { m with
        worker := { m.worker with dealer := [] }
        arrived := m.arrived ++ (Worker.taskId? (.coreCount count)).toList }) hb
      obtain ⟨-, rfl⟩ := Broker.registerWorker_eq_ok.mp hb
      refine ⟨h.queue, h.published, ?_⟩
      rw [hmembers]
      exact hset.heard
    · exact hset.reply hb
  | receiveManagerRequest found task =>
    obtain ⟨-, b, hb, rfl⟩ := step_receiveManagerRequest.mp hstep
    have htask : P task := hrequest task rfl
    have hpublishes := publishes_request hb
    rcases Broker.receiveManagerRequest_eq_ok.mp hb with
      ⟨rfl, rfl⟩ | ⟨identity, count, rfl, -, rfl⟩
    · refine h.goOn hpublishes ?_ (by simp)
      intro task' htask'
      rcases List.mem_append.mp htask' with hold | hnew
      · exact h.queue task' hold
      · exact List.mem_singleton.mp hnew ▸ htask
    · exact h.goOn hpublishes h.queue (by simpa using htask)

end AllTasks
end Fleet

namespace Deployment

/-! ## The threads get tasks that were sent -/

/-- The threads of `s` and `t` are in the same state, and what is on its way in `s` was sent in
`t`. -/
structure Sourced (s : Deployment) (t : Cluster) : Prop where
  threads : SameThreads s.toCluster t
  orderly : s.fleet.Orderly
  connection : ∀ task ∈ s.brokerConnection, task ∈ t.sent
  tasks : s.fleet.AllTasks (· ∈ t.sent)

namespace Sourced

variable {s s' : Deployment} {t : Cluster} {a : Action}

theorem init (db : Database) : Sourced (start db) (.start db) where
  threads := ⟨rfl, rfl, rfl, rfl, rfl⟩
  orderly := .init
  connection := by simp [start]
  tasks := .init

/-- The fleet moves on, and the threads do not. -/
theorem fleet {action : Fleet.Action} {fleet : Fleet} (h : Sourced s t)
    (hstep : s.fleet.step action = some fleet) (hrequest : ∀ task ∈ action.request?, task ∈ t.sent)
    {connection : List Task} (hconnection : ∀ task ∈ connection, task ∈ t.sent) :
    Sourced { s with fleet, brokerConnection := connection } t where
  threads := h.threads
  orderly := h.orderly.step hstep
  connection := hconnection
  tasks := h.tasks.step h.orderly hrequest hstep

/-- **A step of the deployment is one of `Unreliable`, or none.** -/
theorem step (h : Sourced s t) (hstep : Deployment.step s a = some s') : ∃ actions t',
    Runs Unreliable.step t actions t' ∧ Sourced s' t' := by
  obtain ⟨hdispatcher, hcalls, hjobs, hgone, hdatabase⟩ := h.threads
  cases a with
  | thread action =>
    obtain ⟨hlocal, c, hc, rfl⟩ := step_thread.mp hstep
    obtain ⟨t', ht', hthreads, hrest⟩ := exits_step_of_sameThreads h.threads hlocal hc
    have hregular : Unreliable.step t (.regular action) = some t' := ht'
    refine ⟨_, t', Runs.single hregular, ⟨hthreads.withCluster s, h.orderly, ?_, ?_⟩⟩
    · rw [hrest.sent_eq]
      exact h.connection
    · rw [hrest.sent_eq]
      exact h.tasks
  | sendComputableTasks order =>
    obtain ⟨tasks, dispatcher, hsend, rfl⟩ := step_sendComputableTasks.mp hstep
    have hsend : t.dispatcher.sendComputableTasks order = .ok (tasks, dispatcher) := by
      rw [hdispatcher]
      exact hsend
    have hregular : Unreliable.step t (.regular (.served (.sendComputableTasks order))) =
        some { t with dispatcher, requests := t.requests + tasks, sent := t.sent ++ tasks } :=
      Cluster.step_sendComputableTasks.mpr ⟨tasks, dispatcher, hsend, rfl⟩
    refine ⟨_, _, Runs.single hregular, ⟨⟨rfl, hcalls, hjobs, hgone, hdatabase⟩, h.orderly, ?_, ?_⟩⟩
    · intro task htask
      exact List.mem_append.mpr ((List.mem_append.mp htask).imp_left (h.connection task))
    · exact h.tasks.mono fun _ => List.mem_append_left _
  | receiveManagerRequest found =>
    obtain ⟨task, connection, fleet, hconnection, hfleet, rfl⟩ :=
      step_receiveManagerRequest.mp hstep
    have hsent : ∀ task' ∈ task :: connection, task' ∈ t.sent := hconnection ▸ h.connection
    refine ⟨[], t, Runs.refl _ t, h.fleet hfleet ?_ ?_⟩
    · intro task' htask'
      obtain rfl := Option.some.inj htask'
      exact hsent task List.mem_cons_self
    · intro task' htask'
      exact hsent task' (List.mem_cons_of_mem _ htask')
  | transfer action =>
    obtain ⟨htransfer, fleet, hfleet, rfl⟩ := step_transfer.mp hstep
    refine ⟨[], t, Runs.refl _ t, h.fleet hfleet ?_ h.connection⟩
    cases action with
    | receiveManagerRequest found task => exact htransfer.elim
    | _ => simp [Fleet.Action.request?]
  | poll identity =>
    obtain ⟨m, task, fleet, hm, htask, hfleet, rfl⟩ := step_poll.mp hstep
    have hok := h.orderly.member identity m hm
    obtain ⟨_, _, hconserves⟩ := hok.conserves
    -- the task was heard, and is for this worker
    have hmem : task ∈ m.worker.tasks := List.mem_of_mem_head? htask
    have hidentity : task.identity = identity :=
      (hconserves.identity_eq.1 task hmem).trans hok.identity_eq
    have hheard : task ∈ (m.worker.own m.heard : Multiset WorkerTask) := by
      rw [hconserves.heard_eq]
      simp [hmem]
    have hsent : task.task ∈ t.sent :=
      h.tasks.heard identity m hm task (List.mem_filter.mp (Multiset.mem_coe.mp hheard)).1
    have hdeliver : Unreliable.step t (.deliver task.identity task.task) =
        some { t with jobs := { task } ::ₘ t.jobs } := Unreliable.step_deliver.mpr ⟨hsent, rfl⟩
    have hfleet' := h.fleet hfleet (by simp [Fleet.Action.request?]) h.connection
    refine ⟨_, _, Runs.single hdeliver, ⟨⟨hdispatcher, hcalls, ?_, hgone, hdatabase⟩,
      hfleet'.orderly, hfleet'.connection, hfleet'.tasks⟩⟩
    exact congrArg (({ task } : Job) ::ₘ ·) hjobs
  | calculateTask job =>
    obtain ⟨-, -, fleet, hfleet, rfl⟩ := step_calculateTask.mp hstep
    have hfleet' := h.fleet hfleet (by simp [Fleet.Action.request?]) h.connection
    have hcrash : Unreliable.step t (.crash job) = some { t with jobs := t.jobs.erase job } := rfl
    refine ⟨_, _, Runs.single hcrash, ⟨⟨hdispatcher, hcalls, ?_, hgone, hdatabase⟩,
      hfleet'.orderly, hfleet'.connection, hfleet'.tasks⟩⟩
    exact congrArg (Multiset.erase · job) hjobs
  | updateComputableTasks =>
    obtain ⟨id, dispatcher, -, hupdate, rfl⟩ := step_updateComputableTasks.mp hstep
    rw [← show t.dispatcher = s.dispatcher from hdispatcher] at hupdate
    have hanswer : Unreliable.step t (.answer id) = some { t with dispatcher } :=
      Unreliable.step_answer.mpr ⟨dispatcher, hupdate, rfl⟩
    exact ⟨_, _, Runs.single hanswer, ⟨⟨rfl, hcalls, hjobs, hgone, hdatabase⟩, h.orderly,
      h.connection, h.tasks⟩⟩

theorem of_runs {db : Database} {actions : List Action}
    (hrun : Runs Deployment.step (start db) actions s) : ∃ actions' t,
      Runs Unreliable.step (.start db) actions' t ∧ Sourced s t := by
  have hmeets : Meets Deployment.step (fun _ _ => True) (start db) actions :=
    Meets.of_forall fun _ _ _ => trivial
  exact hrun.forward (P := fun _ => True) (R := Sourced) (fun _ _ _ _ _ => trivial)
    (fun _ _ _ _ h _ _ hstep => h.step hstep) (init db) hmeets trivial

/-- What `Unreliable` says of rows and results, with the store and the calls that are the same. -/
theorem result {db : Database} {actions : List Unreliable.Action} (h : Sourced s t)
    (ht : Runs Unreliable.step (.start db) actions t) (hlt : s.calls.length < 2 ^ 32) {i : ℕ}
    {call : Call} (hcall : s.calls[i]? = some call)
    (hright : Unreliable.RowsRight (Cluster.start db).read db call.request i) :
    Unreliable.RowsRight (Cluster.start db).read s.database call.request i ∧
      ∀ r, call.phase = .returned r →
        call.request.ast.root.eval (Cluster.start db).read = .ok r := by
  obtain ⟨-, hcalls, -, -, hdatabase⟩ := h.threads
  replace hcalls : t.calls = s.calls := hcalls
  replace hdatabase : t.database = s.database := hdatabase
  rw [← hcalls] at hlt hcall
  rw [← hdatabase]
  exact (Unreliable.Genuine.of_runs ht hlt).result hcall hright

end Sourced

/-! ## Results -/

/-- **To the threads, every run is a run of `Unreliable`.** -/
theorem unreliable_runs {db : Database} {actions : List Action} {s : Deployment}
    (hrun : Runs step (start db) actions s) : ∃ actions' t,
      Runs Unreliable.step (.start db) actions' t ∧ SameThreads s.toCluster t := by
  obtain ⟨actions', t, ht, hsourced⟩ := Sourced.of_runs hrun
  exact ⟨actions', t, ht, hsourced.threads⟩

/-- **Nothing wrong comes out.** In every run of manager, broker, workers and store: if no row that
the store held under an id at the start contradicts the tree that got the id, then none ever does,
and a value that `CalculateProblem` returns is the value of its tree. -/
theorem result_right {db : Database} {actions : List Action} {s : Deployment}
    (hrun : Runs step (start db) actions s) (hlt : s.calls.length < 2 ^ 32) {i : ℕ} {call : Call}
    (hcall : s.calls[i]? = some call)
    (hright : Unreliable.RowsRight (Cluster.start db).read db call.request i) :
    Unreliable.RowsRight (Cluster.start db).read s.database call.request i ∧
      ∀ r, call.phase = .returned r →
        call.request.ast.root.eval (Cluster.start db).read = .ok r := by
  obtain ⟨_, t, ht, hsourced⟩ := Sourced.of_runs hrun
  exact hsourced.result ht hlt hcall hright

/-! ### A broker that loses a task -/

/-- The request for a reduction, on the worker. -/
def reductionTask (type : ReduceType) (p : UInt32) : WorkerTask :=
  ⟨"worker", ⟨p, 1⟩, .ofNat (Cluster.reduction type).ast.root.getType.toOperationType,
    [.staticOperand "L"]⟩

/-- Three problems for one worker of two cores, the store not serving the last clearing. -/
def threeRun : List Action :=
  [.transfer (.connect "worker" 2), .transfer (.subscribe "worker"),
    .transfer (.receiveWorkerMessage "worker"),
    .thread (.served (.calculateProblem (Cluster.reduction .sum))),
    .thread (.served (.calculateProblem (Cluster.reduction .sum))),
    .thread (.served (.calculateProblem (Cluster.reduction .mul))), .sendComputableTasks,
    .receiveManagerRequest (some "worker"), .receiveManagerRequest none,
    .receiveManagerRequest none]
    ++ onThread (reductionTask .sum 0) [.list [1, 2, 3, 4, 5]] (.scalar 15)
    ++ onThread (reductionTask .mul 2) [.list [1, 2, 3, 4, 5]] (.scalar 120)
    ++ [.updateComputableTasks, .updateComputableTasks, .thread (.served (.clearProblem 2)),
      .thread (.served (.readData 2)), .thread (.clearIntermediateCalculationsFails 2)]

/-- The task of the second problem is dropped, and that of the third is sent twice. The first answer
is in, and the third problem comes out as 120. -/
theorem result_right_three : ∃ s call, Runs step (start Cluster.numbers) threeRun s ∧
    s.fleet.broker.workerPub =
      [reductionTask .sum 0, reductionTask .mul 2, reductionTask .mul 2] ∧
    s.calls[2]? = some call ∧ call.phase = .returned (.scalar 120) ∧
    call.request.ast.root.eval (Cluster.start Cluster.numbers).read = .ok (.scalar 120) := by
  obtain ⟨s, call, hrun, hlength, hpub, hcall, hphase⟩ : ∃ s call,
      Runs step (start Cluster.numbers) threeRun s ∧ s.calls.length = 3 ∧
        s.fleet.broker.workerPub =
          [reductionTask .sum 0, reductionTask .mul 2, reductionTask .mul 2] ∧
        s.calls[2]? = some call ∧ call.phase = .returned (.scalar 120) :=
    ⟨_, _, rfl, rfl, rfl, rfl, rfl⟩
  have hlt : s.calls.length < 2 ^ 32 := by simp [hlength]
  have hright : Unreliable.RowsRight (Cluster.start Cluster.numbers).read Cluster.numbers
      call.request 2 := Unreliable.rowsRight_of_nil rfl
  exact ⟨s, call, hrun, hpub, hcall, hphase,
    (@result_right Cluster.numbers threeRun s hrun hlt 2 call hcall hright).2 _ hphase⟩

/-- To the threads it is a run in which the last request arrives twice. -/
theorem unreliable_runs_three : ∃ s actions t, Runs step (start Cluster.numbers) threeRun s ∧
    Runs Unreliable.step (.start Cluster.numbers) actions t ∧ t.calls = s.calls := by
  obtain ⟨s, hrun⟩ : ∃ s, Runs step (start Cluster.numbers) threeRun s := ⟨_, rfl⟩
  obtain ⟨actions, t, ht, hthreads⟩ := @unreliable_runs Cluster.numbers threeRun s hrun
  exact ⟨s, actions, t, hrun, ht, hthreads.calls_eq⟩

end Deployment
end TaskDispatch
