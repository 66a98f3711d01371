import Mathlib
import TaskDispatch.Broker.Heard
import TaskDispatch.Broker.WorkConserving
import TaskDispatch.Cluster.Rest
import TaskDispatch.Deployment.Relayed

/-!
# Where the deployment ends

`Cluster` hands out every request sooner or later. The broker and the workers do so as well, in an
undisturbed run in which nobody is given a task before the subscription is there, who registers
while tasks wait brings no core, and every pool has threads (`Attended`). When nothing moves any
more, all requests have been executed and answered (`AtRest.cluster`), so that of the trees that
have values each with an operator at its root has been returned (`returned_iff_operator`). One
worker with two cores is enough.
-/

set_option autoImplicit false

namespace TaskDispatch

open Proto Transition

/-! ## The fleet -/

/-- The number in a registration -/
def Worker.coreCount? : WorkerMessage → Option UInt32
  | .coreCount count => some count
  | .taskId _ | .notSet => none

theorem Worker.hands_readRequest {w w' : Worker} (h : w.readRequest = some w') :
    w'.hands = w.hands := by
  unfold readRequest at h
  split at h
  · cases h
  · dsimp only at h
    split_ifs at h <;> obtain rfl := Option.some.inj h <;> rfl

theorem Worker.hands_checkOutputQueue {w : Worker} : w.checkOutputQueue.hands = w.hands := by
  unfold checkOutputQueue
  split <;> rfl

namespace Fleet

/-- No task waits, or no core is free. -/
def WorkConserving (s : Fleet) : Prop := Traffic.WorkConserving { broker := s.broker }

/-- The registration that is first on the connection of a worker -/
def nextCoreCount (s : Fleet) (identity : String) : Option UInt32 :=
  (s.members identity).bind (·.worker.dealer.head?.bind Worker.coreCount?)

/-- Who registers while tasks wait brings no core. -/
def BringsNoCore (s : Fleet) : Action → Prop
  | .receiveWorkerMessage identity =>
    s.broker.taskQueue = [] ∨ s.nextCoreCount identity = none ∨ s.nextCoreCount identity = some 0
  | _ => True

instance (s : Fleet) : DecidablePred s.BringsNoCore
  | .receiveWorkerMessage _ => inferInstanceAs (Decidable (_ = _ ∨ _ = _ ∨ _ = _))
  | .connect _ _ | .subscribe _ | .readRequest _ | .poll _ | .calculateTask _ _
  | .checkOutputQueue _ | .receiveManagerRequest _ _ => isTrue trivial

/-- How many threads the pool of a worker has, and what they have taken -/
def threads (s : Fleet) (identity : String) : Option (ℕ × Multiset WorkerTask) :=
  (s.members identity).map fun m => (m.worker.coreCount, m.worker.hands)

section Steps

variable {s s' : Fleet} {identity : String} {m : Member} {task : WorkerTask} {a : Action}

theorem threads_setMember (identity' : String) : (s.setMember identity m).threads identity' =
    if identity' = identity then some (m.worker.coreCount, m.worker.hands)
    else s.threads identity' := by
  rw [threads, members_setMember]
  split_ifs <;> rfl

theorem threads_goOn (b : Broker) : (s.goOn b).threads = s.threads := by
  funext identity
  rw [threads, goOn, Option.map_map]
  apply congrArg (Option.map · (s.members identity))
  funext m
  by_cases hsubscribed : m.subscribed <;> simp [Member.hear, hsubscribed]

/-- A worker does something that its threads have no part in. -/
theorem threads_onMember {f : Member → Option Member} (hstep : s.onMember identity f = some s')
    (hf : ∀ m m', f m = some m' →
      m'.worker.coreCount = m.worker.coreCount ∧ m'.worker.hands = m.worker.hands) :
    s'.threads = s.threads := by
  obtain ⟨m, m', hm, hfm, rfl⟩ := onMember_eq_some.mp hstep
  obtain ⟨hcoreCount, hhands⟩ := hf m m' hfm
  funext identity'
  rw [threads_setMember]
  split_ifs with heq
  · rw [heq, threads, hm, hcoreCount, hhands]
    rfl
  · rfl

theorem threads_connect {coreCount : ℕ} (hstep : step s (.connect identity coreCount) = some s') :
    s.threads identity = none ∧
      s'.threads = Function.update s.threads identity (some (coreCount, 0)) := by
  simp only [step] at hstep
  split_ifs at hstep with hnew
  obtain rfl := Option.some.inj hstep
  refine ⟨by rw [threads, hnew.2]; rfl, ?_⟩
  funext identity'
  rw [threads_setMember, Function.update_apply]
  rfl

/-- Only the threads of a pool take tasks, and hand in answers. -/
theorem threads_step (hstep : step s a = some s')
    (hconnect : ∀ identity coreCount, a ≠ .connect identity coreCount)
    (hpoll : ∀ identity, a ≠ .poll identity)
    (hcalculateTask : ∀ identity task, a ≠ .calculateTask identity task) :
    s'.threads = s.threads := by
  cases a with
  | connect identity coreCount => exact absurd rfl (hconnect identity coreCount)
  | poll identity => exact absurd rfl (hpoll identity)
  | calculateTask identity task => exact absurd rfl (hcalculateTask identity task)
  | subscribe identity =>
    apply threads_onMember hstep
    intro m m' hm'
    obtain rfl := Option.some.inj hm'
    exact ⟨rfl, rfl⟩
  | readRequest identity =>
    apply threads_onMember hstep
    intro m m' hm'
    obtain ⟨w', hw', rfl⟩ := withWorker_eq_some hm'
    exact ⟨Worker.coreCount_readRequest hw', Worker.hands_readRequest hw'⟩
  | checkOutputQueue identity =>
    apply threads_onMember hstep
    intro m m' hm'
    obtain rfl := Option.some.inj hm'
    exact ⟨Worker.coreCount_checkOutputQueue, Worker.hands_checkOutputQueue⟩
  | receiveWorkerMessage identity =>
    obtain ⟨m, message, dealer, b, hm, hdealer, -, rfl⟩ := step_receiveWorkerMessage.mp hstep
    rw [threads_goOn]
    funext identity'
    rw [threads_setMember]
    split_ifs with heq
    · rw [heq, threads, hm]
      rfl
    · rfl
  | receiveManagerRequest found task =>
    obtain ⟨-, b, -, rfl⟩ := step_receiveManagerRequest.mp hstep
    exact threads_goOn b

end Steps

/-! ## A fleet that works -/

/-- Every worker hears what is for it, and no task waits while a core is free. -/
structure Tended (s : Fleet) : Prop where
  orderly : s.Orderly
  ownHeard : s.OwnHeard
  workConserving : s.WorkConserving

namespace Tended

variable {s s' : Fleet} {t : Traffic} {identity : String} {m : Member} {a : Action}

theorem init : Tended {} := ⟨.init, .init, .inl rfl⟩

theorem workConserving_onMember {f : Member → Option Member} (h : s.WorkConserving)
    (hstep : s.onMember identity f = some s') : s'.WorkConserving := by
  obtain ⟨_, _, -, -, rfl⟩ := onMember_eq_some.mp hstep
  exact h

theorem step (h : Tended s) (hstep : Fleet.step s a = some s') (haudible : s.Audible a)
    (hcores : s.BringsNoCore a) : Tended s' := by
  refine ⟨h.orderly.step hstep, h.ownHeard.step h.orderly haudible hstep, ?_⟩
  have hconserving := h.workConserving
  cases a with
  | connect identity coreCount =>
    simp only [Fleet.step] at hstep
    split_ifs at hstep
    obtain rfl := Option.some.inj hstep
    exact hconserving
  | subscribe identity | readRequest identity | poll identity | calculateTask identity task
  | checkOutputQueue identity => exact workConserving_onMember hconserving hstep
  | receiveWorkerMessage identity =>
    obtain ⟨m, message, dealer, b, hm, hdealer, hb, rfl⟩ := step_receiveWorkerMessage.mp hstep
    rcases h.orderly.receiveWorkerMessage_cases hm hdealer with
      ⟨count, rfl, -, -⟩ | ⟨id, rfl, -, -⟩
    · have hregister : Traffic.step { broker := s.broker }
          (.receiveWorkerMessage (.coreCount identity count)) =
            some { broker := b, registrations := [(identity, count)] } := by
        rw [Traffic.step, hb]
        rfl
      have hnext : s.nextCoreCount identity = some count := by
        simp [nextCoreCount, hm, hdealer, Worker.coreCount?]
      refine (hconserving.coreCount_iff hregister).mpr (hcores.imp_right ?_)
      rw [hnext]
      rintro (hnone | hzero)
      · cases hnone
      · exact Option.some.inj hzero
    · -- an answer hands its core on
      change s.broker.processWorkerTaskReply id = .ok b at hb
      cases hback : s.broker.taskQueue.getLast? with
      | none =>
        have hnil : s.broker.taskQueue = [] := List.getLast?_eq_none_iff.mp hback
        obtain ⟨_, -, rfl⟩ := (Broker.processWorkerTaskReply_of_nil hnil).mp hb
        exact .inl hnil
      | some task =>
        obtain ⟨_, -, rfl⟩ := (Broker.processWorkerTaskReply_of_ne_nil hback).mp hb
        refine .inr (hconserving.resolve_left ?_)
        intro hnil
        rw [show s.broker.taskQueue = [] from hnil] at hback
        cases hback
  | receiveManagerRequest found task =>
    obtain ⟨hfinds, b, hb, rfl⟩ := step_receiveManagerRequest.mp hstep
    have hrequest : Traffic.step { broker := s.broker } (.receiveManagerRequest found task) =
        some { broker := b, received := [task] } := by
      simp [Traffic.step, hfinds, hb, Except.toOption]
    have htraffic := Traffic.WorkConserving.receiveManagerRequest hconserving hrequest
    exact htraffic

end Tended

/-- Every pool has threads, and what they have taken are these tasks. -/
structure Staffed (s : Fleet) (tasks : Multiset WorkerTask) : Prop where
  threads : ∀ identity coreCount hands, s.threads identity = some (coreCount, hands) →
    coreCount ≠ 0 ∧ tasks.filter (·.identity = identity) = hands
  known : ∀ task ∈ tasks, s.threads task.identity ≠ none

namespace Staffed

variable {s s' : Fleet} {tasks tasks' : Multiset WorkerTask} {identity : String} {m m' : Member}
  {task : WorkerTask}

theorem init : Staffed {} 0 where
  threads _ _ _ h := by cases h
  known := by simp

theorem congr (h : Staffed s tasks) (hthreads : s'.threads = s.threads) : Staffed s' tasks where
  threads := hthreads ▸ h.threads
  known := hthreads ▸ h.known

theorem connect (h : Staffed s tasks) {coreCount : ℕ} (hcoreCount : coreCount ≠ 0)
    (hstep : step s (.connect identity coreCount) = some s') : Staffed s' tasks := by
  obtain ⟨hnone, hthreads⟩ := threads_connect hstep
  constructor
  · intro identity' coreCount' hands hsome
    rw [hthreads, Function.update_apply] at hsome
    split_ifs at hsome with heq
    · obtain ⟨rfl, rfl⟩ := Prod.mk.inj (Option.some.inj hsome)
      refine ⟨hcoreCount, Multiset.filter_eq_nil.mpr ?_⟩
      intro task htask hidentity
      exact h.known task htask ((hidentity.trans heq) ▸ hnone)
    · exact h.threads identity' coreCount' hands hsome
  · intro task htask
    rw [hthreads, Function.update_apply]
    split_ifs
    · exact Option.some_ne_none _
    · exact h.known task htask

/-- The threads of one pool take a task, or hand in an answer. -/
theorem setMember (h : Staffed s tasks) (hm : s.members identity = some m)
    (hcoreCount : m'.worker.coreCount = m.worker.coreCount)
    (hhands : tasks.filter (·.identity = identity) = m.worker.hands →
      tasks'.filter (·.identity = identity) = m'.worker.hands)
    (hother : ∀ identity' ≠ identity,
      tasks'.filter (·.identity = identity') = tasks.filter (·.identity = identity')) :
    Staffed (s.setMember identity m') tasks' := by
  have hthreads : s.threads identity = some (m.worker.coreCount, m.worker.hands) := by
    rw [Fleet.threads, hm]
    rfl
  obtain ⟨hpos, hfilter⟩ := h.threads identity _ _ hthreads
  constructor
  · intro identity' coreCount hands hsome
    rw [threads_setMember] at hsome
    split_ifs at hsome with heq
    · obtain ⟨rfl, rfl⟩ := Prod.mk.inj (Option.some.inj hsome)
      rw [hcoreCount, heq]
      exact ⟨hpos, hhands hfilter⟩
    · rw [hother identity' heq]
      exact h.threads identity' coreCount hands hsome
  · intro task htask
    rw [threads_setMember]
    split_ifs with heq
    · exact Option.some_ne_none _
    · have hmem : task ∈ tasks'.filter (·.identity = task.identity) :=
        Multiset.mem_filter.mpr ⟨htask, rfl⟩
      rw [hother _ heq] at hmem
      exact h.known task (Multiset.mem_of_mem_filter hmem)

theorem poll (h : Staffed s tasks) {rest : List WorkerTask} (hm : s.members identity = some m)
    (hidentity : task.identity = identity) : Staffed (s.setMember identity { m with
      worker := { m.worker with tasks := rest, hands := task ::ₘ m.worker.hands } })
      (task ::ₘ tasks) := by
  refine h.setMember hm rfl ?_ fun _ hne => filter_cons_other hidentity hne tasks
  intro hhands
  rw [filter_cons_own hidentity, hhands]

theorem calculateTask (h : Staffed s (task ::ₘ tasks)) (hidentity : task.identity = identity)
    (hstep : step s (.calculateTask identity task) = some s') : Staffed s' tasks := by
  obtain ⟨m, m', hm, hfm, rfl⟩ := onMember_eq_some.mp hstep
  obtain ⟨w', hw', rfl⟩ := withWorker_eq_some hfm
  refine h.setMember hm (Worker.coreCount_calculateTask hw') ?_ ?_
  · intro hhands
    unfold Worker.calculateTask at hw'
    split_ifs at hw'
    obtain rfl := Option.some.inj hw'
    show _ = m.worker.hands.erase task
    rw [← hhands, filter_cons_own hidentity, Multiset.erase_cons_head]
  · exact fun _ hne => (filter_cons_other hidentity hne tasks).symm

end Staffed

end Fleet

namespace Deployment

/-! ## Manager, broker, workers and store -/

/-- Requests are given to workers that are subscribed, who registers while tasks wait brings no
core, and every pool has threads. -/
def Attended (s : Deployment) : Action → Prop
  | .receiveManagerRequest (some identity) => ∀ m ∈ s.fleet.members identity, m.subscribed = true
  | .transfer (.connect _ coreCount) => coreCount ≠ 0
  | .transfer action => s.fleet.BringsNoCore action
  | _ => True

instance (s : Deployment) : DecidablePred s.Attended
  | .receiveManagerRequest (some identity) =>
    inferInstanceAs (Decidable (∀ m ∈ s.fleet.members identity, m.subscribed = true))
  | .transfer (.connect _ coreCount) => inferInstanceAs (Decidable (coreCount ≠ 0))
  | .transfer (.receiveWorkerMessage identity) =>
    inferInstanceAs (Decidable (s.fleet.BringsNoCore (.receiveWorkerMessage identity)))
  | .transfer (.subscribe _) | .transfer (.readRequest _) | .transfer (.poll _)
  | .transfer (.calculateTask _ _) | .transfer (.checkOutputQueue _)
  | .transfer (.receiveManagerRequest _ _) | .receiveManagerRequest none | .thread _
  | .sendComputableTasks _ | .poll _ | .calculateTask _ | .updateComputableTasks => isTrue trivial

/-- Everybody works: the fleet, and in it the threads, on the jobs there are. -/
structure Works (s : Deployment) : Prop where
  tended : s.fleet.Tended
  staffed : s.fleet.Staffed (s.jobs.map (·.task))

section Steps

variable {s s' : Deployment} {c c' : Cluster} {job : Job} {a : Action} {action : Exits.Action}

/-- A job that moves on is for the same task. -/
theorem map_task_advance {stage : Stage} (hjob : job ∈ c.jobs) :
    (c.advance job stage).jobs.map (·.task) = c.jobs.map (·.task) := by
  obtain ⟨rest, hrest⟩ := Multiset.exists_cons_of_mem hjob
  simp [Cluster.advance, hrest]

/-- A local step takes no task, and hands in no answer. -/
theorem map_task_of_isLocal (hlocal : IsLocal action) (hstep : Exits.step c action = some c') :
    c'.jobs.map (·.task) = c.jobs.map (·.task) := by
  cases action with
  | served action =>
    cases action with
    | calculateProblem request =>
      rcases Cluster.step_calculateProblem.mp hstep with ⟨_, -, rfl⟩ | ⟨_, -, rfl⟩ <;> rfl
    | readOperand job =>
      obtain ⟨_, _, _, -, ⟨hjob, -⟩, -, -, rfl⟩ := Cluster.step_readOperand.mp hstep
      exact map_task_advance hjob
    | calculate job =>
      obtain ⟨_, _, -, ⟨hjob, -⟩, -, -, rfl⟩ := Cluster.step_calculate.mp hstep
      exact map_task_advance hjob
    | writeDynamicData job =>
      obtain ⟨_, -, ⟨hjob, -⟩, rfl⟩ := Cluster.step_writeDynamicData.mp hstep
      exact map_task_advance hjob
    | clearProblem i =>
      obtain ⟨_, -, -, -, rfl⟩ := Cluster.step_clearProblem.mp hstep
      rfl
    | readData i =>
      obtain ⟨_, -, -, ⟨_, -, rfl⟩ | ⟨_, -, rfl⟩⟩ := Cluster.step_readData.mp hstep <;> rfl
    | clearIntermediateCalculations i =>
      obtain ⟨_, _, -, -, rfl⟩ := Cluster.step_clearIntermediateCalculations.mp hstep
      rfl
    | sendComputableTasks | relay _ _ | reply _ | terminate _ | updateComputableTasks _ =>
      exact hlocal.elim
  | writeDynamicDataFails job =>
    obtain ⟨_, -, ⟨hjob, -⟩, rfl⟩ := Exits.step_writeDynamicDataFails.mp hstep
    exact map_task_advance hjob
  | readDataFails i =>
    obtain ⟨_, -, -, rfl⟩ := Exits.step_readDataFails.mp hstep
    rfl
  | clearIntermediateCalculationsFails i =>
    obtain ⟨_, _, -, -, rfl⟩ := Exits.step_clearIntermediateCalculationsFails.mp hstep
    rfl

theorem Works.step (h : Works s) (hattended : s.Attended a)
    (hstep : Deployment.step s a = some s') : Works s' := by
  cases a with
  | thread action =>
    obtain ⟨hlocal, c, hc, rfl⟩ := step_thread.mp hstep
    refine ⟨h.tended, ?_⟩
    show s.fleet.Staffed (c.jobs.map (·.task))
    rw [map_task_of_isLocal hlocal hc]
    exact h.staffed
  | sendComputableTasks =>
    obtain ⟨_, _, -, rfl⟩ := step_sendComputableTasks.mp hstep
    exact ⟨h.tended, h.staffed⟩
  | receiveManagerRequest found =>
    obtain ⟨task, _, fleet, -, hfleet, rfl⟩ := step_receiveManagerRequest.mp hstep
    refine ⟨h.tended.step hfleet ?_ trivial,
      h.staffed.congr (Fleet.threads_step hfleet (by simp) (by simp) (by simp))⟩
    cases found with
    | none => trivial
    | some identity => exact hattended
  | transfer action =>
    obtain ⟨htransfer, fleet, hfleet, rfl⟩ := step_transfer.mp hstep
    cases action with
    | connect identity coreCount =>
      exact ⟨h.tended.step hfleet trivial trivial, h.staffed.connect hattended hfleet⟩
    | subscribe identity | readRequest identity | checkOutputQueue identity =>
      exact ⟨h.tended.step hfleet trivial trivial,
        h.staffed.congr (Fleet.threads_step hfleet (by simp) (by simp) (by simp))⟩
    | receiveWorkerMessage identity =>
      exact ⟨h.tended.step hfleet trivial hattended,
        h.staffed.congr (Fleet.threads_step hfleet (by simp) (by simp) (by simp))⟩
    | poll _ | calculateTask _ _ | receiveManagerRequest _ _ => exact htransfer.elim
  | poll identity =>
    obtain ⟨m, task, fleet, hm, htask, hfleet, rfl⟩ := step_poll.mp hstep
    refine ⟨h.tended.step hfleet trivial trivial, ?_⟩
    obtain ⟨tasks, -, rfl⟩ := poll_cases hfleet hm htask
    have hok := h.tended.orderly.member identity m hm
    obtain ⟨_, _, hconserves⟩ := hok.conserves
    have hidentity : task.identity = identity :=
      (hconserves.identity_eq.1 task (List.mem_of_mem_head? htask)).trans hok.identity_eq
    show Fleet.Staffed _ (({ task } ::ₘ s.jobs : Multiset Job).map (·.task))
    rw [Multiset.map_cons]
    exact h.staffed.poll hm hidentity
  | calculateTask job =>
    obtain ⟨hjob, -, fleet, hfleet, rfl⟩ := step_calculateTask.mp hstep
    refine ⟨h.tended.step hfleet trivial trivial, ?_⟩
    have hstaffed := h.staffed
    rw [← Multiset.cons_erase hjob, Multiset.map_cons] at hstaffed
    exact hstaffed.calculateTask rfl hfleet
  | updateComputableTasks =>
    obtain ⟨_, _, -, -, rfl⟩ := step_updateComputableTasks.mp hstep
    exact ⟨h.tended, h.staffed⟩

/-- A worker that has not connected is not there. -/
theorem threads_eq_none {db : Database} {actions : List Action} {identity : String}
    (hrun : Runs Deployment.step (start db) actions s)
    (hnever : ∀ a ∈ actions, ∀ coreCount, a ≠ .transfer (.connect identity coreCount)) :
    s.fleet.threads identity = none := by
  refine hrun.invariant (I := fun actions s => (∀ a ∈ actions, ∀ coreCount,
    a ≠ .transfer (.connect identity coreCount)) → s.fleet.threads identity = none)
    (fun _ => rfl) ?_ hnever
  intro actions s₁ a s₂ _ ih hstep hnever
  specialize ih fun a ha => hnever a (List.mem_append_left _ ha)
  -- one of the pools that are there does something
  have hpool : ∀ {identity' f fleet}, s₁.fleet.onMember identity' f = some fleet →
      fleet.threads identity = none := by
    intro identity' f fleet h
    obtain ⟨m, m', hm, -, rfl⟩ := Fleet.onMember_eq_some.mp h
    rw [Fleet.threads_setMember]
    split_ifs with heq
    · rw [heq, Fleet.threads, hm] at ih
      cases ih
    · exact ih
  cases a with
  | thread action =>
    obtain ⟨-, _, -, rfl⟩ := step_thread.mp hstep
    exact ih
  | sendComputableTasks =>
    obtain ⟨_, _, -, rfl⟩ := step_sendComputableTasks.mp hstep
    exact ih
  | receiveManagerRequest found =>
    obtain ⟨_, _, fleet, -, hfleet, rfl⟩ := step_receiveManagerRequest.mp hstep
    show fleet.threads identity = none
    rw [Fleet.threads_step hfleet (by simp) (by simp) (by simp)]
    exact ih
  | transfer action =>
    obtain ⟨htransfer, fleet, hfleet, rfl⟩ := step_transfer.mp hstep
    show fleet.threads identity = none
    cases action with
    | connect identity' coreCount =>
      obtain ⟨-, hthreads⟩ := Fleet.threads_connect hfleet
      have hne : identity ≠ identity' := by
        rintro rfl
        exact hnever _ (List.mem_append_right _ (List.mem_singleton_self _)) coreCount rfl
      rw [hthreads, Function.update_of_ne hne]
      exact ih
    | subscribe _ | readRequest _ | checkOutputQueue _ => exact hpool hfleet
    | receiveWorkerMessage _ =>
      rw [Fleet.threads_step hfleet (by simp) (by simp) (by simp)]
      exact ih
    | poll _ | calculateTask _ _ | receiveManagerRequest _ _ => exact htransfer.elim
  | poll identity' =>
    obtain ⟨_, _, fleet, -, -, hfleet, rfl⟩ := step_poll.mp hstep
    exact hpool hfleet
  | calculateTask job =>
    obtain ⟨-, -, fleet, hfleet, rfl⟩ := step_calculateTask.mp hstep
    exact hpool hfleet
  | updateComputableTasks =>
    obtain ⟨_, _, -, -, rfl⟩ := step_updateComputableTasks.mp hstep
    exact ih

theorem Works.of_runs {db : Database} {actions : List Action}
    (hrun : Runs Deployment.step (start db) actions s)
    (hmeets : Meets Deployment.step Attended (start db) actions) : Works s := by
  have hthroughout := throughout_of_meets (I := Works) (fun _ _ _ h hok hstep => h.step hok hstep)
    ⟨.init, .init⟩ hmeets
  exact hthroughout actions s (List.prefix_refl actions) hrun

end Steps

/-! ## At rest -/

/-- The action takes something further: it is no new call and no new worker, and it finds something
to do. -/
def Advances (s : Deployment) : Action → Prop
  | .thread (.served (.calculateProblem _)) => False
  | .thread (.served _) => True
  | .thread _ => False
  | .sendComputableTasks order => ∃ tasks dispatcher,
      s.dispatcher.sendComputableTasks order = .ok (tasks, dispatcher) ∧ tasks ≠ []
  | .transfer (.connect _ _) | .transfer (.subscribe _) => False
  | .transfer (.checkOutputQueue identity) =>
    ∃ m, s.fleet.members identity = some m ∧ m.worker.finishedTasks ≠ []
  | _ => True

/-- Nothing can be taken further. -/
def AtRest (s : Deployment) : Prop := ∀ a s', Advances s a → step s a ≠ some s'

namespace AtRest

variable {s : Deployment} {t : Cluster} {traffic : Traffic} {taken done : Multiset WorkerTask}
  {db : Database} {identity : String} {m : Member}

/-- The broker has read every request: there is a free core for the next one, or it would wait. -/
theorem brokerConnection_eq (h : AtRest s) : s.brokerConnection = [] := by
  cases hconnection : s.brokerConnection with
  | nil => rfl
  | cons task rest =>
    exfalso
    have hreturns : ∃ found fleet,
        s.fleet.step (.receiveManagerRequest found task) = some fleet := by
      by_cases hnone : s.fleet.broker.Finds none
      · exact ⟨none, _, Fleet.step_receiveManagerRequest.mpr
          ⟨hnone, _, Broker.receiveManagerRequest_eq_ok.mpr (.inl ⟨rfl, rfl⟩), rfl⟩⟩
      · rw [Broker.finds_none] at hnone
        push Not at hnone
        obtain ⟨identity, count, hcount, hne⟩ := hnone
        exact ⟨some identity, _, Fleet.step_receiveManagerRequest.mpr ⟨⟨count, hcount, hne⟩, _,
          Broker.receiveManagerRequest_eq_ok.mpr (.inr ⟨identity, count, rfl, hcount, rfl⟩), rfl⟩⟩
    obtain ⟨found, fleet, hfleet⟩ := hreturns
    exact h (.receiveManagerRequest found) _ trivial
      (step_receiveManagerRequest.mpr ⟨task, rest, fleet, hconnection, hfleet, rfl⟩)

/-- Nothing is on the connections of a worker, or in its output queue. -/
theorem connections_eq (h : AtRest s) (horderly : s.fleet.Orderly)
    (hm : s.fleet.members identity = some m) :
    m.worker.dealer = [] ∧ m.worker.finishedTasks = [] ∧ m.worker.subscriber = [] := by
  refine ⟨?_, ?_, ?_⟩
  · cases hdealer : m.worker.dealer with
    | nil => rfl
    | cons message dealer =>
      exfalso
      obtain ⟨b, hb⟩ := horderly.receiveWorkerMessage_returns hm hdealer
      exact h (.transfer (.receiveWorkerMessage identity)) _ trivial (step_transfer.mpr ⟨trivial, _,
        Fleet.step_receiveWorkerMessage.mpr ⟨m, message, dealer, b, hm, hdealer, hb, rfl⟩, rfl⟩)
  · by_contra hne
    exact h (.transfer (.checkOutputQueue identity)) _ ⟨m, hm, hne⟩ (step_transfer.mpr ⟨trivial, _,
      Fleet.onMember_eq_some.mpr ⟨m, _, hm, rfl, rfl⟩, rfl⟩)
  · cases hsubscriber : m.worker.subscriber with
    | nil => rfl
    | cons task subscriber =>
      exfalso
      have hread : ∃ w', m.worker.readRequest = some w' := by
        rw [Worker.readRequest, hsubscriber]
        dsimp only
        split_ifs
        · exact ⟨_, rfl⟩
        · exact ⟨_, rfl⟩
      obtain ⟨w', hw'⟩ := hread
      exact h (.transfer (.readRequest identity)) _ trivial (step_transfer.mpr ⟨trivial, _,
        Fleet.onMember_eq_some.mpr ⟨m, _, hm, by rw [hw']; rfl, rfl⟩, rfl⟩)

/-- A local step of the cluster would be one of the deployment. -/
theorem not_local (h : AtRest s) (hthreads : SameThreads s.toCluster t) {a : Cluster.Action}
    {t' : Cluster} (hlocal : IsLocal (.served a)) (hadvances : s.Advances (.thread (.served a))) :
    Cluster.step t a ≠ some t' := by
  intro hstep
  have hthreads' : SameThreads t s.toCluster := ⟨hthreads.dispatcher_eq.symm,
    hthreads.calls_eq.symm, hthreads.jobs_eq.symm, rfl, hthreads.database_eq.symm⟩
  have hexits : Exits.step t (.served a) = some t' := hstep
  obtain ⟨c, hc, -, -⟩ := exits_step_of_sameThreads hthreads' hlocal hexits
  exact h (.thread (.served a)) _ hadvances (step_thread.mpr ⟨hlocal, c, hc, rfl⟩)

/-- **No thread has a job.** Where all trees have values, every job can go on, and the answer of one
that is written can be queued. -/
theorem jobs_eq (h : AtRest s) (hworks : Works s) (hthreads : SameThreads s.toCluster t)
    (hsound : Cluster.Sound db t) (hlt : t.calls.length < 2 ^ 32) (hempty : db.dynamicData = [])
    (hvalues : ∀ call ∈ t.calls,
      ∃ r, call.request.ast.root.eval (Cluster.start db).read = .ok r) : s.jobs = 0 := by
  rw [Multiset.eq_zero_iff_forall_notMem]
  intro job hjob
  have hjobs : t.jobs = s.jobs := hthreads.jobs_eq
  have hjob' : job ∈ t.jobs := hjobs ▸ hjob
  obtain ⟨p, request, v, hop, htask, -⟩ := hsound.job job hjob'
  obtain ⟨call, hcall, rfl⟩ := Option.map_eq_some_iff.mp hop.origin_eq
  obtain ⟨r, hr⟩ := hvalues call (List.mem_of_getElem? hcall)
  have hactive : t.Active job := hthreads.active ⟨hjob, List.not_mem_nil⟩
  obtain ⟨a, t', hon, hstep⟩ :=
    (hsound.exists_step_on hlt hop (Cluster.untainted_of_nil hempty) htask hactive).resolve_right
      fun ⟨fault, _, u, hu, hvalue⟩ => AST.valueAt_ne_error hr hu fault hvalue
  cases a with
  | readOperand job' => exact h.not_local (a := .readOperand job') hthreads trivial trivial hstep
  | calculate job' => exact h.not_local (a := .calculate job') hthreads trivial trivial hstep
  | writeDynamicData job' =>
    exact h.not_local (a := .writeDynamicData job') hthreads trivial trivial hstep
  | reply job' =>
    obtain rfl : job' = job := hon
    obtain ⟨-, hstage, -⟩ := Cluster.step_reply.mp hstep
    -- the task is in the hands of the pool that works on it
    have htask' : job'.task ∈ s.jobs.map (·.task) := Multiset.mem_map_of_mem _ hjob
    obtain ⟨⟨coreCount, hands⟩, hpool⟩ :=
      Option.ne_none_iff_exists'.mp (hworks.staffed.known _ htask')
    obtain ⟨-, hhands⟩ := hworks.staffed.threads _ coreCount hands hpool
    obtain ⟨m, hm, heq⟩ := Option.map_eq_some_iff.mp hpool
    obtain ⟨-, rfl⟩ := Prod.mk.inj heq
    have hmem : job'.task ∈ m.worker.hands := by
      rw [← hhands]
      exact Multiset.mem_filter.mpr ⟨htask', rfl⟩
    exact h (.calculateTask job') _ trivial (step_calculateTask.mpr ⟨hjob, hstage, _,
      Fleet.onMember_eq_some.mpr ⟨m, _, hm, by rw [Worker.calculateTask, if_pos hmem]; rfl, rfl⟩,
      rfl⟩)
  | _ => exact hon.elim

/-- **A worker is idle**: it has answered all that was published to it. -/
theorem answered_all (h : AtRest s) (hworks : Works s) (hjobs : s.jobs = 0)
    (hm : s.fleet.members identity = some m) :
    m.worker.tasks = [] ∧
      m.arrived.length = s.fleet.broker.workerPub.countP (·.identity = identity) := by
  have hok := hworks.tended.orderly.member identity m hm
  obtain ⟨hdealer, hfinished, hsubscriber⟩ := h.connections_eq hworks.tended.orderly hm
  have hpool : s.fleet.threads identity = some (m.worker.coreCount, m.worker.hands) := by
    rw [Fleet.threads, hm]
    rfl
  obtain ⟨hpos, hhands⟩ := hworks.staffed.threads identity _ _ hpool
  rw [hjobs, Multiset.map_zero, Multiset.filter_zero] at hhands
  have htasks : m.worker.tasks = [] := by
    cases htasks : m.worker.tasks with
    | nil => rfl
    | cons task tasks =>
      exfalso
      have hfree : m.worker.hands.card < m.worker.coreCount := by
        rw [← hhands]
        exact Nat.pos_of_ne_zero hpos
      have hpoll : m.worker.poll =
          some { m.worker with tasks, hands := task ::ₘ m.worker.hands } := by
        simp [Worker.poll, htasks, hfree]
      exact h (.poll identity) _ trivial (step_poll.mpr ⟨m, task, _, hm, by rw [htasks]; rfl,
        Fleet.onMember_eq_some.mpr ⟨m, _, hm, by rw [hpoll]; rfl, rfl⟩, rfl⟩)
  refine ⟨htasks, ?_⟩
  obtain ⟨finished, answered, hconserves⟩ := hok.conserves
  have hnil : finished = [] := by
    rw [← List.map_eq_nil_iff, ← hconserves.finished_eq, hfinished]
  have hheard := congrArg Multiset.card hconserves.heard_eq
  have hanswered := congrArg List.length hconserves.answered_eq
  rw [hworks.tended.ownHeard identity m hm, hsubscriber, htasks, ← hhands, hnil] at hheard
  rw [hdealer] at hanswered
  simp only [Worker.own, List.filter_nil, Multiset.coe_nil, zero_add, Multiset.coe_card,
    List.filterMap_nil, List.append_nil, List.length_map] at hheard hanswered
  rw [hanswered, ← hheard, hok.identity_eq, List.countP_eq_length_filter]

/-- **No task waits**: a worker with two cores announced one, and it is free. -/
theorem taskQueue_eq (h : AtRest s) (hworks : Works s) (hmirrors : s.fleet.Mirrors traffic)
    (hjobs : s.jobs = 0) (hm : s.fleet.members identity = some m)
    (hcores : 2 ≤ m.worker.coreCount) : s.fleet.broker.taskQueue = [] := by
  refine hworks.tended.workConserving.resolve_right ?_
  intro hnone
  have hok := hworks.tended.orderly.member identity m hm
  obtain ⟨hdealer, -, -⟩ := h.connections_eq hworks.tended.orderly hm
  have hregistered : identity ∈ s.fleet.broker.workerRoutingIdToAvailableCoreCount := by
    rcases hok.dealer with ⟨-, count, hcount⟩ | ⟨hregistered, -⟩
    · rw [hdealer] at hcount
      cases hcount
    · exact hregistered
  obtain ⟨-, hanswered⟩ := h.answered_all hworks hjobs hm
  obtain ⟨available, havailable, hsum, -⟩ := hmirrors.available hm hregistered
  have hzero : available = 0 := Broker.finds_none.mp hnone identity available havailable
  have hannounced := Worker.toNat_announced (by omega) m.worker.coreCount_lt
  rw [hzero, UInt64.toNat_zero, hanswered] at hsum
  omega

/-- **Every request has been taken by a thread.** -/
theorem requests_eq (h : AtRest s) (hworks : Works s) (hrelays : Relays s t traffic taken done)
    (hjobs : s.jobs = 0) (hqueue : s.fleet.broker.taskQueue = []) : t.requests = 0 := by
  have htaken : (traffic.broker.workerPub : Multiset WorkerTask) ≤ taken := by
    apply Multiset.le_of_filter_le (f := WorkerTask.identity)
    intro wt hwt
    rw [hrelays.mirrors.broker_eq] at hwt ⊢
    obtain ⟨m, hm⟩ := hworks.tended.orderly.known _
      (hworks.tended.orderly.published wt (Multiset.mem_coe.mp hwt))
    obtain ⟨-, -, hsubscriber⟩ := h.connections_eq hworks.tended.orderly hm
    obtain ⟨htasks, -⟩ := h.answered_all hworks hjobs hm
    -- what was published to the worker was heard, and taken
    have hheard := (hrelays.carry.member _ m hm).taken_eq
    rw [hsubscriber, htasks, hworks.tended.ownHeard _ m hm] at hheard
    simp only [Worker.own, List.filter_nil, Multiset.coe_nil, add_zero] at hheard
    rw [(hworks.tended.orderly.member _ m hm).identity_eq] at hheard
    rw [Multiset.filter_coe, ← hheard]
    exact Multiset.filter_le _ _
  have hreceived := (Traffic.tasksBalance_iff hrelays.mirrors.balanced).mp hrelays.balance
  have hle : t.requests + taken.map (·.task) ≤ 0 + taken.map (·.task) := by
    rw [hrelays.requests, ← hrelays.connection, h.brokerConnection_eq, List.append_nil, hreceived,
      hrelays.mirrors.broker_eq, hqueue, Multiset.coe_nil, zero_add, zero_add, ← Multiset.map_coe]
    rw [hrelays.mirrors.broker_eq] at htaken
    exact Multiset.map_le_map htaken
  exact Multiset.le_zero.mp ((add_le_add_iff_right _).mp hle)

/-- **Every answer has been read by the dispatcher.** -/
theorem replies_eq (h : AtRest s) (hworks : Works s) (hrelays : Relays s t traffic taken done)
    (hsound : Cluster.Sound db t) (hlt : t.calls.length < 2 ^ 32) : t.replies = 0 := by
  have hread : s.readCount = s.fleet.broker.managerConnection.length := by
    refine le_antisymm hrelays.readCount_le (not_lt.mp ?_)
    intro hless
    have hid := List.getElem?_eq_getElem hless
    obtain ⟨dispatcher, hd⟩ := hsound.update_returns hlt (hrelays.mem_replies hid)
    rw [show t.dispatcher = s.dispatcher from hrelays.threads.dispatcher_eq] at hd
    exact h .updateComputableTasks _ trivial
      (step_updateComputableTasks.mpr ⟨_, dispatcher, hid, hd, rfl⟩)
  have hanswered : done.map ThreadPool.response ≤
      (traffic.answered : Multiset WorkerTask).map ThreadPool.response := by
    apply Multiset.le_of_filter_le (f := WorkerTaskId.identity)
    intro response hresponse
    obtain ⟨wt, hwt, rfl⟩ := Multiset.mem_map.mp hresponse
    obtain ⟨m, hm⟩ := hrelays.carry.known wt (Multiset.mem_add.mpr (.inr hwt))
    obtain ⟨hdealer, hfinished, -⟩ := h.connections_eq hworks.tended.orderly hm
    have hdone := (hrelays.carry.member _ m hm).done_eq
    rw [hdealer, hfinished, List.filterMap_nil, List.append_nil, List.append_nil,
      ← (hrelays.mirrors.member _ m hm).arrived, ← Multiset.map_coe, ← Multiset.filter_coe] at hdone
    rw [Multiset.filter_map]
    show Multiset.map _ (Multiset.filter (fun x : WorkerTask => x.identity = wt.identity) _) ≤ _
    rw [hdone]
    exact Multiset.map_le_map (Multiset.filter_le _ _)
  have hids := Multiset.map_le_map (f := WorkerTaskId.id) hanswered
  rw [Multiset.map_map, Multiset.map_map, Multiset.map_coe] at hids
  have hle : t.replies + done.map (·.task.id) ≤ 0 + done.map (·.task.id) := by
    have hreplies := hrelays.replies
    rw [hread, List.take_length, ← hrelays.mirrors.broker_eq,
      hrelays.mirrors.balanced.forwarded] at hreplies
    rw [zero_add]
    calc t.replies + done.map (·.task.id)
        ≤ t.replies + (traffic.answered.map (·.task.id) : List Proto.TaskId) :=
          add_le_add_right hids _
      _ = done.map (·.task.id) := hreplies
  exact Multiset.le_zero.mp ((add_le_add_iff_right _).mp hle)

/-- **The cluster is at rest as well**: no request is kept back, and no answer. -/
theorem cluster (h : AtRest s) (hthreads : SameThreads s.toCluster t) (hjobs : s.jobs = 0)
    (hrequests : t.requests = 0) (hreplies : t.replies = 0) : t.AtRest := by
  intro a t' hadvances hstep
  have hjobs' : t.jobs = 0 := hthreads.jobs_eq.trans hjobs
  cases a with
  | calculateProblem request => exact hadvances
  | sendComputableTasks order =>
    obtain ⟨tasks, dispatcher, hsend, hne⟩ := hadvances
    rw [show t.dispatcher = s.dispatcher from hthreads.dispatcher_eq] at hsend
    exact h (.sendComputableTasks order) _ ⟨tasks, dispatcher, hsend, hne⟩
      (step_sendComputableTasks.mpr ⟨tasks, dispatcher, hsend, rfl⟩)
  | relay identity task =>
    obtain ⟨htask, -⟩ := Cluster.step_relay.mp hstep
    simp [hrequests] at htask
  | readOperand job =>
    obtain ⟨_, _, _, -, ⟨hjob, -⟩, -⟩ := Cluster.step_readOperand.mp hstep
    simp [hjobs'] at hjob
  | calculate job =>
    obtain ⟨_, _, -, ⟨hjob, -⟩, -⟩ := Cluster.step_calculate.mp hstep
    simp [hjobs'] at hjob
  | writeDynamicData job =>
    obtain ⟨_, -, ⟨hjob, -⟩, -⟩ := Cluster.step_writeDynamicData.mp hstep
    simp [hjobs'] at hjob
  | reply job =>
    obtain ⟨⟨hjob, -⟩, -⟩ := Cluster.step_reply.mp hstep
    simp [hjobs'] at hjob
  | terminate identity =>
    obtain ⟨job, _, ⟨hjob, -⟩, -⟩ := hadvances
    simp [hjobs'] at hjob
  | updateComputableTasks id =>
    obtain ⟨hid, -⟩ := Cluster.step_updateComputableTasks.mp hstep
    simp [hreplies] at hid
  | clearProblem i => exact h.not_local (a := .clearProblem i) hthreads trivial trivial hstep
  | readData i => exact h.not_local (a := .readData i) hthreads trivial trivial hstep
  | clearIntermediateCalculations i =>
    exact h.not_local (a := .clearIntermediateCalculations i) hthreads trivial trivial hstep

/-- Where nothing is left to do, nothing moves. -/
theorem of_idle {order : PassOrder} {dispatcher : Dispatcher}
    (hsend : s.dispatcher.sendComputableTasks order = .ok ([], dispatcher))
    (hconnection : s.brokerConnection = []) (hjobs : s.jobs = 0)
    (hread : s.fleet.broker.managerConnection.length ≤ s.readCount)
    (hcalls : ∀ call ∈ s.calls, call.phase.isLeft)
    (hmembers : ∀ identity m, s.fleet.members identity = some m → m.worker.dealer = [] ∧
      m.worker.finishedTasks = [] ∧ m.worker.subscriber = [] ∧ m.worker.tasks = []) :
    AtRest s := by
  intro a s' hadvances hstep
  -- a call that has been left takes no step
  have hleft : ∀ {i : ℕ} {call : Call}, s.toCluster.calls[i]? = some call → call.phase.isLeft :=
    fun h => hcalls _ (List.mem_of_getElem? h)
  cases a with
  | thread action =>
    obtain ⟨hlocal, c, hc, -⟩ := step_thread.mp hstep
    cases action with
    | served action =>
      cases action with
      | calculateProblem request => exact hadvances
      | readOperand job =>
        obtain ⟨_, _, _, -, ⟨hjob, -⟩, -⟩ := Cluster.step_readOperand.mp hc
        simp [toCluster, hjobs] at hjob
      | calculate job =>
        obtain ⟨_, _, -, ⟨hjob, -⟩, -⟩ := Cluster.step_calculate.mp hc
        simp [toCluster, hjobs] at hjob
      | writeDynamicData job =>
        obtain ⟨_, -, ⟨hjob, -⟩, -⟩ := Cluster.step_writeDynamicData.mp hc
        simp [toCluster, hjobs] at hjob
      | clearProblem i =>
        obtain ⟨call, hcall, hphase, -⟩ := Cluster.step_clearProblem.mp hc
        exact absurd (hleft hcall) (by simp [hphase, Phase.isLeft])
      | readData i =>
        obtain ⟨call, hcall, hphase, -⟩ := Cluster.step_readData.mp hc
        exact absurd (hleft hcall) (by simp [hphase, Phase.isLeft])
      | clearIntermediateCalculations i =>
        obtain ⟨call, _, hcall, hphase, -⟩ := Cluster.step_clearIntermediateCalculations.mp hc
        exact absurd (hleft hcall) (by simp [hphase, Phase.isLeft])
      | sendComputableTasks | relay _ _ | reply _ | terminate _ | updateComputableTasks _ =>
        exact hlocal
    | _ => exact hadvances
  | sendComputableTasks =>
    -- in another order there is nothing to send either
    obtain ⟨tasks, _, htasks, hne⟩ := hadvances
    exact hne (Dispatcher.perm_sendComputableTasks htasks hsend).1.eq_nil
  | receiveManagerRequest found =>
    obtain ⟨task, rest, -, hcons, -⟩ := step_receiveManagerRequest.mp hstep
    rw [hconnection] at hcons
    cases hcons
  | transfer action =>
    obtain ⟨htransfer, fleet, hfleet, -⟩ := step_transfer.mp hstep
    cases action with
    | readRequest identity =>
      obtain ⟨m, _, hm, hfm, -⟩ := Fleet.onMember_eq_some.mp hfleet
      obtain ⟨_, hw', -⟩ := Fleet.withWorker_eq_some hfm
      obtain ⟨-, -, hsubscriber, -⟩ := hmembers identity m hm
      simp [Worker.readRequest, hsubscriber] at hw'
    | checkOutputQueue identity =>
      obtain ⟨m, hm, hne⟩ := hadvances
      exact hne (hmembers identity m hm).2.1
    | receiveWorkerMessage identity =>
      obtain ⟨m, _, _, _, hm, hdealer, -⟩ := Fleet.step_receiveWorkerMessage.mp hfleet
      rw [(hmembers identity m hm).1] at hdealer
      cases hdealer
    | connect _ _ | subscribe _ => exact hadvances
    | poll _ | calculateTask _ _ | receiveManagerRequest _ _ => exact htransfer
  | poll identity =>
    obtain ⟨m, task, _, hm, htask, -⟩ := step_poll.mp hstep
    rw [(hmembers identity m hm).2.2.2] at htask
    cases htask
  | calculateTask job =>
    obtain ⟨hjob, -⟩ := step_calculateTask.mp hstep
    simp [hjobs] at hjob
  | updateComputableTasks =>
    obtain ⟨id, _, hid, -⟩ := step_updateComputableTasks.mp hstep
    exact absurd (List.getElem?_eq_some_iff.mp hid).1 (not_lt.mpr hread)

end AtRest

/-- What has become of a call. -/
theorem AtRest.returned_iff {db : Database} (hempty : db.dynamicData = [])
    {actions : List Action} {s : Deployment} (hrest : AtRest s)
    (hrun : Runs step (start db) actions s) (hlt : s.calls.length < 2 ^ 32)
    (hundisturbed : Meets step Undisturbed (start db) actions)
    (hattended : Meets step Attended (start db) actions)
    (hworker : ∃ identity m, s.fleet.members identity = some m ∧ 2 ≤ m.worker.coreCount)
    (hvalues : ∀ call ∈ s.calls, ∃ r, call.request.ast.root.eval (Cluster.start db).read = .ok r)
    {i : ℕ} {call : Call} (hcall : s.calls[i]? = some call) :
    (∀ r, call.phase = .returned r ↔ ¬call.request.ast.root.getType.IsLeaf ∧
      call.request.ast.root.eval (Cluster.start db).read = .ok r) ∧
    (call.phase = .waiting ∨ ∃ r, call.phase = .returned r) := by
  obtain ⟨actions', t, ht, traffic, taken, done, hrelays⟩ := Relays.of_runs hrun hundisturbed
  have hworks := Works.of_runs hrun hattended
  have hcalls : t.calls = s.calls := hrelays.threads.calls_eq
  rw [← hcalls] at hlt hvalues hcall
  obtain ⟨hsound, hsends⟩ := Cluster.Sends.of_runs ht hlt
  obtain ⟨identity, m, hm, hcores⟩ := hworker
  have hjobs := hrest.jobs_eq hworks hrelays.threads hsound hlt hempty hvalues
  have hqueue := hrest.taskQueue_eq hworks hrelays.mirrors hjobs hm hcores
  have hcluster := hrest.cluster hrelays.threads hjobs
    (hrest.requests_eq hworks hrelays hjobs hqueue) (hrest.replies_eq hworks hrelays hsound hlt)
  have huntainted : Cluster.Untainted db i call.request := Cluster.untainted_of_nil hempty
  obtain ⟨r, hr⟩ := hvalues call (List.mem_of_getElem? hcall)
  have hkept : ¬t.Lost i := by
    rintro ⟨job, hjob, -⟩
    simp [show t.jobs = s.jobs from hrelays.threads.jobs_eq, hjobs] at hjob
  refine ⟨?_, (hcluster.waiting_or_returned hsound hcall huntainted).imp_right
    fun ⟨r, hreturned, _⟩ => ⟨r, hreturned⟩⟩
  intro r'
  rw [hcluster.returned_iff hsound hsends hlt hcall huntainted
    (fun u hu => AST.valueAt_ne_error hr hu .undefined), and_iff_right hkept]

/-! ## Results -/

/-- **Who has an answer when nothing moves any more.** In a run of manager, broker, workers and
store in which the store, empty at first, serves every call, no answer finds different tasks at the
two ends of the broker's queue, requests go to workers that are subscribed, who registers while
tasks wait brings no core, every pool has threads and one worker has two: if all trees have values,
then at rest a call has returned exactly if there is an operator at the root of its tree, with its
value. With fewer than `2 ^ 32` calls: the answer to one with a larger id finds no problem. -/
theorem returned_iff_operator {db : Database} (hempty : db.dynamicData = [])
    {actions : List Action} {s : Deployment} (hrun : Runs step (start db) actions s)
    (hlt : s.calls.length < 2 ^ 32) (hundisturbed : Meets step Undisturbed (start db) actions)
    (hattended : Meets step Attended (start db) actions)
    (hworker : ∃ identity m, s.fleet.members identity = some m ∧ 2 ≤ m.worker.coreCount)
    (hvalues : ∀ call ∈ s.calls, ∃ r, call.request.ast.root.eval (Cluster.start db).read = .ok r)
    (hrest : AtRest s) {i : ℕ} {call : Call} (hcall : s.calls[i]? = some call) :
    (∀ r, call.phase = .returned r ↔ ¬call.request.ast.root.getType.IsLeaf ∧
      call.request.ast.root.eval (Cluster.start db).read = .ok r) ∧
    (call.request.ast.root.getType.IsLeaf → call.phase = .waiting) := by
  obtain ⟨hiff, hcases⟩ := hrest.returned_iff hempty hrun hlt hundisturbed hattended hworker
    hvalues hcall
  refine ⟨hiff, ?_⟩
  intro hleaf
  rcases hcases with hwaiting | ⟨r, hreturned⟩
  · exact hwaiting
  · exact absurd hleaf ((hiff r).mp hreturned).1

/-- After the mean of a list, on one worker with two cores, nothing moves any more. -/
theorem atRest_meanRun {s : Deployment} (hrun : Runs step (start Cluster.numbers) meanRun s) :
    AtRest s := by
  obtain ⟨s', call, m, dispatcher, hrun', hcalls, hleft, hsend, hconnection, hjobs, hread, hm,
      hidle⟩ : ∃ s' call m dispatcher, Runs step (start Cluster.numbers) meanRun s' ∧
        s'.calls = [call] ∧ call.phase.isLeft ∧
        s'.dispatcher.sendComputableTasks .ascending = .ok ([], dispatcher) ∧
        s'.brokerConnection = [] ∧ s'.jobs = 0 ∧
        s'.readCount = s'.fleet.broker.managerConnection.length ∧
        s'.fleet.members "worker" = some m ∧ m.worker.dealer = [] ∧
        m.worker.finishedTasks = [] ∧ m.worker.subscriber = [] ∧ m.worker.tasks = [] :=
    ⟨_, _, _, _, rfl, rfl, rfl, rfl, rfl, rfl, rfl, rfl, rfl, rfl, rfl, rfl⟩
  obtain rfl := Option.some.inj (hrun.symm.trans hrun')
  refine .of_idle hsend hconnection hjobs hread.ge (by simpa [hcalls] using hleft) ?_
  intro identity m' hm'
  by_cases heq : identity = "worker"
  · rw [heq, hm] at hm'
    obtain rfl := Option.some.inj hm'
    exact hidle
  · -- nobody else has connected
    have hnever : ∀ a ∈ meanRun, ∀ coreCount, a ≠ .transfer (.connect identity coreCount) := by
      intro a ha coreCount h
      subst h
      simp [meanRun, onThread, Cluster.wholeTask, heq] at ha
    have hnone := threads_eq_none hrun hnever
    rw [Fleet.threads, hm'] at hnone
    cases hnone

/-- The mean of a list, on one worker with two cores, comes out as 3. -/
theorem returned_iff_operator_mean : ∃ s call, Runs step (start Cluster.numbers) meanRun s ∧
    AtRest s ∧ s.calls = [call] ∧ call.phase = .returned (.scalar 3) := by
  obtain ⟨s, call, m, hrun, hcalls, hrequest, hm, hcores⟩ : ∃ s call m,
      Runs step (start Cluster.numbers) meanRun s ∧ s.calls = [call] ∧ call.request = .mean ∧
        s.fleet.members "worker" = some m ∧ m.worker.coreCount = 2 :=
    ⟨_, _, _, rfl, rfl, rfl, rfl, rfl⟩
  have hlt : s.calls.length < 2 ^ 32 := by simp [hcalls]
  have hrest : AtRest s := atRest_meanRun hrun
  have hvalue : call.request.ast.root.eval (Cluster.start Cluster.numbers).read =
      .ok (.scalar 3) := by
    rw [hrequest]
    rfl
  obtain ⟨hiff, -⟩ := @returned_iff_operator Cluster.numbers rfl meanRun s hrun hlt (by decide)
    (by decide) ⟨"worker", m, hm, hcores.ge⟩ (by simpa [hcalls] using ⟨_, hvalue⟩) hrest 0 call
    (by rw [hcalls]; rfl)
  exact ⟨s, call, hrun, hrest, hcalls, (hiff _).mpr ⟨by rw [hrequest]; decide, hvalue⟩⟩

end Deployment
end TaskDispatch
