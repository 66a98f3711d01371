import Mathlib
import TaskDispatch.Broker.Books
import TaskDispatch.Cluster.Unreliable

/-!
# Everything together

Manager, broker, workers and store, with the sockets between them as they are. Between manager and
broker there is one `PAIR` connection, which keeps the order in both directions: the broker reads
the requests in the order in which they were sent, and the dispatcher the answers. Broker and
workers are those of `Fleet`: subscriptions that may come too late, workers that read what is for
others, pools with a queue and as many threads as cores, and the queue of the broker as it is. What
a thread does with its task, and what the client threads do, is as in `Exits`: calls to the store,
which may fail. A thread whose task throws or aborts takes no further step; the end of a process is
no step here, so the other threads of its worker may go on, or take no further step either.

`Cluster` has a relay where here is all of this. `Deployment.Relayed` says when it may have.
-/

set_option autoImplicit false

namespace TaskDispatch

open Proto Transition

/-- `brokerConnection` is what was sent to the broker and not read; of what the broker has sent, the
dispatcher has read the first `readCount`. A job is a task in the hands of a pool thread. -/
structure Deployment where
  dispatcher : Dispatcher := {}
  calls : List Call := []
  brokerConnection : List Task := []
  fleet : Fleet := {}
  readCount : ℕ := 0
  jobs : Multiset Job := 0
  database : Database

namespace Deployment

/-! ## The steps -/

/-- What the client threads, the threads of the pools and the store have. -/
def toCluster (s : Deployment) : Cluster where
  dispatcher := s.dispatcher
  calls := s.calls
  jobs := s.jobs
  database := s.database

def withCluster (s : Deployment) (c : Cluster) : Deployment :=
  { s with dispatcher := c.dispatcher, calls := c.calls, jobs := c.jobs, database := c.database }

/-- A step of a client thread, or of a pool thread that has taken a task and not yet answered it. -/
def IsLocal : Exits.Action → Prop
  | .served (.sendComputableTasks _) | .served (.relay _ _) | .served (.reply _)
  | .served (.terminate _) | .served (.updateComputableTasks _) => False
  | _ => True

instance : DecidablePred IsLocal
  | .served (.sendComputableTasks _) | .served (.relay _ _) | .served (.reply _)
  | .served (.terminate _) | .served (.updateComputableTasks _) => isFalse id
  | .served (.calculateProblem _) | .served (.readOperand _) | .served (.calculate _)
  | .served (.writeDynamicData _) | .served (.clearProblem _) | .served (.readData _)
  | .served (.clearIntermediateCalculations _) | .writeDynamicDataFails _ | .readDataFails _
  | .clearIntermediateCalculationsFails _ => isTrue trivial

/-- A step on the connections of a worker that involves no thread. -/
def IsTransfer : Fleet.Action → Prop
  | .connect _ _ | .subscribe _ | .readRequest _ | .checkOutputQueue _
  | .receiveWorkerMessage _ => True
  | .poll _ | .calculateTask _ _ | .receiveManagerRequest _ _ => False

instance : DecidablePred IsTransfer
  | .connect _ _ | .subscribe _ | .readRequest _ | .checkOutputQueue _
  | .receiveWorkerMessage _ => isTrue trivial
  | .poll _ | .calculateTask _ _ | .receiveManagerRequest _ _ => isFalse id

inductive Action where
  | thread (action : Exits.Action)
  | sendComputableTasks (order : PassOrder := .ascending)
  | receiveManagerRequest (found : Option String)
  | transfer (action : Fleet.Action)
  /-- A pool thread takes a task. -/
  | poll (identity : String)
  /-- It queues the answer. -/
  | calculateTask (job : Job)
  | updateComputableTasks

def step (s : Deployment) : Action → Option Deployment
  | .thread action =>
    if IsLocal action then do
      let c ← Exits.step s.toCluster action
      some (s.withCluster c)
    else none
  | .sendComputableTasks order => do
    let (tasks, dispatcher) ← (s.dispatcher.sendComputableTasks order).toOption
    some { s with dispatcher, brokerConnection := s.brokerConnection ++ tasks }
  | .receiveManagerRequest found =>
    match s.brokerConnection with
    | [] => none
    | task :: brokerConnection => do
      let fleet ← s.fleet.step (.receiveManagerRequest found task)
      some { s with fleet, brokerConnection }
  | .transfer action =>
    if IsTransfer action then do
      let fleet ← s.fleet.step action
      some { s with fleet }
    else none
  | .poll identity => do
    let m ← s.fleet.members identity
    let task ← m.worker.tasks.head?
    let fleet ← s.fleet.step (.poll identity)
    some { s with fleet, jobs := { task } ::ₘ s.jobs }
  | .calculateTask job =>
    if job ∈ s.jobs ∧ job.stage = .written then do
      let fleet ← s.fleet.step (.calculateTask job.task.identity job.task)
      some { s with fleet, jobs := s.jobs.erase job }
    else none
  | .updateComputableTasks => do
    let id ← s.fleet.broker.managerConnection[s.readCount]?
    let dispatcher ← (s.dispatcher.updateComputableTasks id).toOption
    some { s with dispatcher, readCount := s.readCount + 1 }

/-- All of it on this store, with nothing under way and no worker yet. -/
def start (database : Database) : Deployment := { database }

/-! ## What one step does -/

section Steps

variable {s s' : Deployment} {action : Exits.Action} {fleetAction : Fleet.Action}
  {found : Option String} {identity : String} {job : Job}

theorem step_thread : step s (.thread action) = some s' ↔ IsLocal action ∧ ∃ c,
    Exits.step s.toCluster action = some c ∧ s' = s.withCluster c := by
  simp [step, Option.bind_eq_some_iff, eq_comm (a := s')]

theorem step_sendComputableTasks {order : PassOrder} :
    step s (.sendComputableTasks order) = some s' ↔
    ∃ tasks dispatcher, s.dispatcher.sendComputableTasks order = .ok (tasks, dispatcher) ∧
      s' = { s with dispatcher, brokerConnection := s.brokerConnection ++ tasks } := by
  simp [step, Option.bind_eq_some_iff, eq_comm (a := s')]

theorem step_receiveManagerRequest : step s (.receiveManagerRequest found) = some s' ↔
    ∃ task brokerConnection fleet, s.brokerConnection = task :: brokerConnection ∧
      s.fleet.step (.receiveManagerRequest found task) = some fleet ∧
      s' = { s with fleet, brokerConnection } := by
  cases hconnection : s.brokerConnection with
  | nil => simp [step, hconnection]
  | cons task rest => simp [step, hconnection, Option.bind_eq_some_iff, eq_comm (a := s')]

theorem step_transfer : step s (.transfer fleetAction) = some s' ↔ IsTransfer fleetAction ∧
    ∃ fleet, s.fleet.step fleetAction = some fleet ∧ s' = { s with fleet } := by
  simp [step, Option.bind_eq_some_iff, eq_comm (a := s')]

theorem step_poll : step s (.poll identity) = some s' ↔ ∃ m task fleet,
    s.fleet.members identity = some m ∧ m.worker.tasks.head? = some task ∧
      s.fleet.step (.poll identity) = some fleet ∧
      s' = { s with fleet, jobs := { task } ::ₘ s.jobs } := by
  simp [step, Option.bind_eq_some_iff, eq_comm (a := s')]

theorem step_calculateTask : step s (.calculateTask job) = some s' ↔ job ∈ s.jobs ∧
    job.stage = .written ∧ ∃ fleet,
      s.fleet.step (.calculateTask job.task.identity job.task) = some fleet ∧
      s' = { s with fleet, jobs := s.jobs.erase job } := by
  simp [step, Option.bind_eq_some_iff, and_assoc, eq_comm (a := s')]

theorem step_updateComputableTasks : step s .updateComputableTasks = some s' ↔
    ∃ id dispatcher, s.fleet.broker.managerConnection[s.readCount]? = some id ∧
      s.dispatcher.updateComputableTasks id = .ok dispatcher ∧
      s' = { s with dispatcher, readCount := s.readCount + 1 } := by
  simp [step, Option.bind_eq_some_iff, eq_comm (a := s')]

/-- The worker whose thread takes a task. -/
theorem poll_cases {fleet : Fleet} (h : s.fleet.step (.poll identity) = some fleet) {m : Member}
    {task : WorkerTask} (hm : s.fleet.members identity = some m)
    (htask : m.worker.tasks.head? = some task) :
    ∃ tasks, m.worker.tasks = task :: tasks ∧ fleet = s.fleet.setMember identity { m with
      worker := { m.worker with tasks, hands := task ::ₘ m.worker.hands } } := by
  obtain ⟨m', m'', hm', hpoll, rfl⟩ := Fleet.onMember_eq_some.mp h
  obtain rfl := Option.some.inj (hm.symm.trans hm')
  obtain ⟨w', hw', rfl⟩ := Fleet.withWorker_eq_some hpoll
  cases hqueue : m.worker.tasks with
  | nil =>
    rw [hqueue] at htask
    cases htask
  | cons task' tasks =>
    rw [hqueue, List.head?_cons, Option.some.injEq] at htask
    subst htask
    simp only [Worker.poll, hqueue] at hw'
    split_ifs at hw'
    obtain rfl := Option.some.inj hw'
    exact ⟨tasks, rfl, rfl⟩

end Steps

/-! ## Local steps -/

section Local

variable {c c' t : Cluster} {action : Exits.Action}

/-- The state of the threads in a cluster in which there may be other things as well, and all
processes are there. -/
structure SameThreads (c t : Cluster) : Prop where
  dispatcher_eq : t.dispatcher = c.dispatcher
  calls_eq : t.calls = c.calls
  jobs_eq : t.jobs = c.jobs
  gone_eq : t.gone = []
  database_eq : t.database = c.database

theorem SameThreads.active (h : SameThreads c t) {job : Job} (hjob : c.Active job) :
    t.Active job := by
  refine ⟨h.jobs_eq ▸ hjob.1, ?_⟩
  rw [h.gone_eq]
  exact List.not_mem_nil

theorem SameThreads.withCluster (h : SameThreads c t) (s : Deployment) :
    SameThreads (s.withCluster c).toCluster t :=
  ⟨h.dispatcher_eq, h.calls_eq, h.jobs_eq, h.gone_eq, h.database_eq⟩

/-- The rest stays. -/
structure SameRest (t t' : Cluster) : Prop where
  requests_eq : t'.requests = t.requests
  replies_eq : t'.replies = t.replies
  sent_eq : t'.sent = t.sent

/-- **A local step looks at the threads and the store, and changes nothing else.** -/
theorem exits_step_of_sameThreads (h : SameThreads c t) (hlocal : IsLocal action)
    (hstep : Exits.step c action = some c') : ∃ t', Exits.step t action = some t' ∧
      SameThreads c' t' ∧ SameRest t t' := by
  have hactive : ∀ {job}, c.Active job → t.Active job := h.active
  obtain ⟨dispatcher, calls, requests, jobs, replies, gone, database, sent, inserted⟩ := t
  obtain ⟨rfl, rfl, rfl, rfl, rfl⟩ := h
  cases action with
  | served action =>
    cases action with
    | calculateProblem request =>
      rcases Cluster.step_calculateProblem.mp hstep with
        ⟨fault, hnew, rfl⟩ | ⟨calcData, hnew, rfl⟩
      · exact ⟨_, Cluster.step_calculateProblem.mpr (.inl ⟨fault, hnew, rfl⟩),
          ⟨rfl, rfl, rfl, rfl, rfl⟩, ⟨rfl, rfl, rfl⟩⟩
      · exact ⟨_, Cluster.step_calculateProblem.mpr (.inr ⟨calcData, hnew, rfl⟩),
          ⟨rfl, rfl, rfl, rfl, rfl⟩, ⟨rfl, rfl, rfl⟩⟩
    | readOperand job =>
      obtain ⟨operands, operand, r, hstage, hjob, hoperand, hread, rfl⟩ :=
        Cluster.step_readOperand.mp hstep
      exact ⟨_, Cluster.step_readOperand.mpr
        ⟨operands, operand, r, hstage, hactive hjob, hoperand, hread, rfl⟩,
        ⟨rfl, rfl, rfl, rfl, rfl⟩, ⟨rfl, rfl, rfl⟩⟩
    | calculate job =>
      obtain ⟨operands, r, hstage, hjob, hlength, hcalculate, rfl⟩ :=
        Cluster.step_calculate.mp hstep
      exact ⟨_, Cluster.step_calculate.mpr
        ⟨operands, r, hstage, hactive hjob, hlength, hcalculate, rfl⟩,
        ⟨rfl, rfl, rfl, rfl, rfl⟩, ⟨rfl, rfl, rfl⟩⟩
    | writeDynamicData job =>
      obtain ⟨r, hstage, hjob, rfl⟩ := Cluster.step_writeDynamicData.mp hstep
      exact ⟨_, Cluster.step_writeDynamicData.mpr ⟨r, hstage, hactive hjob, rfl⟩,
        ⟨rfl, rfl, rfl, rfl, rfl⟩, ⟨rfl, rfl, rfl⟩⟩
    | clearProblem i =>
      obtain ⟨call, hcall, hphase, hsync, rfl⟩ := Cluster.step_clearProblem.mp hstep
      exact ⟨_, Cluster.step_clearProblem.mpr ⟨call, hcall, hphase, hsync, rfl⟩,
        ⟨rfl, rfl, rfl, rfl, rfl⟩, ⟨rfl, rfl, rfl⟩⟩
    | readData i =>
      obtain ⟨call, hcall, hphase, ⟨r, hread, rfl⟩ | ⟨fault, hread, rfl⟩⟩ :=
        Cluster.step_readData.mp hstep
      · exact ⟨_, Cluster.step_readData.mpr ⟨call, hcall, hphase, .inl ⟨r, hread, rfl⟩⟩,
          ⟨rfl, rfl, rfl, rfl, rfl⟩, ⟨rfl, rfl, rfl⟩⟩
      · exact ⟨_, Cluster.step_readData.mpr ⟨call, hcall, hphase, .inr ⟨fault, hread, rfl⟩⟩,
          ⟨rfl, rfl, rfl, rfl, rfl⟩, ⟨rfl, rfl, rfl⟩⟩
    | clearIntermediateCalculations i =>
      obtain ⟨call, r, hcall, hphase, rfl⟩ :=
        Cluster.step_clearIntermediateCalculations.mp hstep
      exact ⟨_, Cluster.step_clearIntermediateCalculations.mpr ⟨call, r, hcall, hphase, rfl⟩,
        ⟨rfl, rfl, rfl, rfl, rfl⟩, ⟨rfl, rfl, rfl⟩⟩
    | sendComputableTasks | relay identity task | reply job | terminate identity
    | updateComputableTasks id =>
      exact hlocal.elim
  | writeDynamicDataFails job =>
    obtain ⟨r, hstage, hjob, rfl⟩ := Exits.step_writeDynamicDataFails.mp hstep
    exact ⟨_, Exits.step_writeDynamicDataFails.mpr ⟨r, hstage, hactive hjob, rfl⟩,
      ⟨rfl, rfl, rfl, rfl, rfl⟩, ⟨rfl, rfl, rfl⟩⟩
  | readDataFails i =>
    obtain ⟨call, hcall, hphase, rfl⟩ := Exits.step_readDataFails.mp hstep
    exact ⟨_, Exits.step_readDataFails.mpr ⟨call, hcall, hphase, rfl⟩,
      ⟨rfl, rfl, rfl, rfl, rfl⟩, ⟨rfl, rfl, rfl⟩⟩
  | clearIntermediateCalculationsFails i =>
    obtain ⟨call, r, hcall, hphase, rfl⟩ :=
      Exits.step_clearIntermediateCalculationsFails.mp hstep
    exact ⟨_, Exits.step_clearIntermediateCalculationsFails.mpr ⟨call, r, hcall, hphase, rfl⟩,
      ⟨rfl, rfl, rfl, rfl, rfl⟩, ⟨rfl, rfl, rfl⟩⟩

end Local

/-! ## A task on its way through a worker -/

/-- The worker reads a task, a pool thread takes it and goes on with this result to the answer, and
the broker reads that. -/
def onThread (task : WorkerTask) (operands : List ExprResult) (exprResult : ExprResult) :
    List Action :=
  [.transfer (.readRequest task.identity), .poll task.identity]
    ++ ((Cluster.wholeTask task.identity task.task operands exprResult).tail.dropLast).map
      (fun a => .thread (.served a))
    ++ [.calculateTask { task, stage := .written }, .transfer (.checkOutputQueue task.identity),
      .transfer (.receiveWorkerMessage task.identity)]

end Deployment
end TaskDispatch
