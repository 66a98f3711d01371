import Mathlib
import TaskDispatch.Deployment.Deployment

/-!
# When the broker is a relay

`Cluster` takes the broker and the connections for a relay: a request is handed to some worker at
most once, and an answer to the manager. Here it is shown of the deployment that it does just that,
in every run in which the store serves every call and no answer finds different tasks at the two
ends of the broker's queue: such a run is one of `Cluster` (`relayed_runs`). Requests that nobody
was subscribed for are there requests that nobody takes.

What makes it so is a count for each worker (`Carries`): of the tasks for it that it has heard, each
is still to be read, or queued, or was taken by a thread; and of those that were finished by a
thread, each answer is queued, on the connection, or has arrived.
-/

set_option autoImplicit false

namespace TaskDispatch

open Proto Transition

/-- A multiset is below another one if it is so on the elements of each kind. -/
theorem Multiset.le_of_filter_le {α β : Type} [DecidableEq α] [DecidableEq β] {f : α → β}
    {A B : Multiset α} (h : ∀ a ∈ A, A.filter (fun x => f x = f a) ≤ B) : A ≤ B := by
  rw [Multiset.le_iff_count]
  intro a
  by_cases ha : a ∈ A
  · have hcount := Multiset.le_iff_count.mp (h a ha) a
    rwa [Multiset.count_filter_of_pos (p := fun x => f x = f a) rfl] at hcount
  · rw [Multiset.count_eq_zero_of_notMem ha]
    exact Nat.zero_le _

/-- A task more for a worker. -/
theorem filter_cons_own {workerTask : WorkerTask} {identity : String}
    (h : workerTask.identity = identity) (tasks : Multiset WorkerTask) :
    (workerTask ::ₘ tasks).filter (·.identity = identity) =
      workerTask ::ₘ tasks.filter (·.identity = identity) :=
  Multiset.filter_cons_of_pos (p := fun wt : WorkerTask => wt.identity = identity) _ h

/-- It is none for another one. -/
theorem filter_cons_other {workerTask : WorkerTask} {identity identity' : String}
    (h : workerTask.identity = identity) (hne : identity' ≠ identity)
    (tasks : Multiset WorkerTask) :
    (workerTask ::ₘ tasks).filter (·.identity = identity') =
      tasks.filter (·.identity = identity') :=
  Multiset.filter_cons_of_neg (p := fun wt : WorkerTask => wt.identity = identity') _
    fun heq => hne (heq.symm.trans h)

/-! ## One worker -/

/-- `taken` are the tasks that the threads of a worker have taken, and `done` those whose answer
they have queued. -/
structure Carries (m : Member) (taken done : Multiset WorkerTask) : Prop where
  taken_eq : taken + (m.worker.own m.worker.subscriber : Multiset WorkerTask) + m.worker.tasks =
    (m.worker.own m.heard : Multiset WorkerTask)
  done_eq : done.map ThreadPool.response =
    (m.arrived ++ m.worker.dealer.filterMap Worker.taskId? ++ m.worker.finishedTasks :
      List WorkerTaskId)

namespace Carries

variable {m : Member} {taken done : Multiset WorkerTask} {w' : Worker} {task : WorkerTask}

theorem subscribe (h : Carries m taken done) : Carries { m with subscribed := true } taken done :=
  ⟨h.taken_eq, h.done_eq⟩

theorem readRequest (h : Carries m taken done) (hstep : m.worker.readRequest = some w') :
    Carries { m with worker := w' } taken done := by
  have htaken := h.taken_eq
  cases hsubscriber : m.worker.subscriber with
  | nil => simp [Worker.readRequest, hsubscriber] at hstep
  | cons task rest =>
    simp only [Worker.readRequest, hsubscriber] at hstep
    rw [hsubscriber] at htaken
    split_ifs at hstep with hother
    · -- the task of another worker is dropped
      obtain rfl := Option.some.inj hstep
      rw [Worker.own_cons_of_ne hother] at htaken
      exact ⟨htaken, h.done_eq⟩
    · obtain rfl := Option.some.inj hstep
      rw [Worker.own_cons_of_eq (not_not.mp hother), ← Multiset.cons_coe] at htaken
      refine ⟨Eq.trans ?_ htaken, h.done_eq⟩
      show taken + (m.worker.own rest : Multiset WorkerTask) +
        (m.worker.tasks ++ [task] : List WorkerTask) = _
      rw [← Multiset.coe_add, Multiset.coe_singleton, ← Multiset.singleton_add]
      ac_rfl

theorem checkOutputQueue (h : Carries m taken done) :
    Carries { m with worker := m.worker.checkOutputQueue } taken done := by
  have hdone := h.done_eq
  cases hqueue : m.worker.finishedTasks with
  | nil =>
    rw [Worker.checkOutputQueue, hqueue]
    exact h
  | cons id rest =>
    rw [Worker.checkOutputQueue, hqueue]
    rw [hqueue] at hdone
    refine ⟨h.taken_eq, hdone.trans ?_⟩
    simp [Worker.taskId?]

/-- A thread takes the task at the front of the queue. -/
theorem poll (h : Carries m taken done) {tasks : List WorkerTask}
    (htasks : m.worker.tasks = task :: tasks) :
    Carries { m with worker := { m.worker with tasks, hands := task ::ₘ m.worker.hands } }
      (task ::ₘ taken) done := by
  have htaken := h.taken_eq
  rw [htasks, ← Multiset.cons_coe, ← Multiset.singleton_add] at htaken
  refine ⟨Eq.trans ?_ htaken, h.done_eq⟩
  show task ::ₘ taken + (m.worker.own m.worker.subscriber : Multiset WorkerTask) + tasks = _
  rw [← Multiset.singleton_add]
  ac_rfl

/-- A thread queues an answer. -/
theorem calculateTask (h : Carries m taken done) (hstep : m.worker.calculateTask task = some w') :
    Carries { m with worker := w' } taken (task ::ₘ done) := by
  unfold Worker.calculateTask at hstep
  split_ifs at hstep
  obtain rfl := Option.some.inj hstep
  refine ⟨h.taken_eq, ?_⟩
  rw [Multiset.map_cons, h.done_eq, Multiset.cons_coe]
  apply Multiset.coe_eq_coe.mpr
  show List.Perm _ (_ ++ (m.worker.finishedTasks ++ [ThreadPool.response task]))
  rw [← List.append_assoc]
  exact (List.perm_append_singleton _ _).symm

/-- The broker takes a message off the connection. -/
theorem receive (h : Carries m taken done) {message : WorkerMessage} {dealer : List WorkerMessage}
    (hdealer : m.worker.dealer = message :: dealer) : Carries { m with
      worker := { m.worker with dealer }
      arrived := m.arrived ++ (Worker.taskId? message).toList } taken done := by
  refine ⟨h.taken_eq, ?_⟩
  rw [h.done_eq, hdealer]
  cases message <;> simp [Worker.taskId?, List.filterMap_cons]

/-- What is published is heard, and to be read, or neither. -/
theorem hear (h : Carries m taken done) (published : List WorkerTask) :
    Carries (m.hear published) taken done := by
  unfold Member.hear
  split_ifs
  · have hsplit : ∀ tasks, m.worker.own (tasks ++ published) =
        m.worker.own tasks ++ m.worker.own published := fun tasks => List.filter_append ..
    refine ⟨?_, h.done_eq⟩
    show taken + (m.worker.own (m.worker.subscriber ++ published) : Multiset WorkerTask) +
      m.worker.tasks = (m.worker.own (m.heard ++ published) : Multiset WorkerTask)
    rw [hsplit, hsplit, ← Multiset.coe_add, ← Multiset.coe_add, ← h.taken_eq]
    ac_rfl
  · exact h

end Carries

/-! ## All workers -/

namespace Fleet

/-- What the threads of each worker have taken and done. -/
structure AllCarry (s : Fleet) (taken done : Multiset WorkerTask) : Prop where
  member : ∀ identity m, s.members identity = some m → Carries m
    (taken.filter (·.identity = identity)) (done.filter (·.identity = identity))
  known : ∀ workerTask ∈ taken + done, ∃ m, s.members workerTask.identity = some m

namespace AllCarry

variable {s s' : Fleet} {taken done taken' done' : Multiset WorkerTask} {identity : String}
  {m m' : Member} {a : Action}

theorem init : AllCarry {} 0 0 where
  member := by simp
  known := by simp

/-- One worker moves on, and with it its share of what was taken and done. -/
theorem setMember (h : AllCarry s taken done)
    (hm' : Carries m' (taken'.filter (·.identity = identity))
      (done'.filter (·.identity = identity)))
    (htaken : ∀ identity' ≠ identity, taken'.filter (·.identity = identity') =
      taken.filter (·.identity = identity'))
    (hdone : ∀ identity' ≠ identity, done'.filter (·.identity = identity') =
      done.filter (·.identity = identity')) :
    AllCarry (s.setMember identity m') taken' done' where
  member identity' m hm := by
    rw [members_setMember] at hm
    split_ifs at hm with heq
    · subst heq
      obtain rfl := Option.some.inj hm
      exact hm'
    · rw [htaken identity' heq, hdone identity' heq]
      exact h.member identity' m hm
  known workerTask hmem := by
    rw [members_setMember]
    split_ifs with heq
    · exact ⟨m', rfl⟩
    · apply h.known workerTask
      rcases Multiset.mem_add.mp hmem with hmem | hmem
      · have hfilter : workerTask ∈ taken'.filter (·.identity = workerTask.identity) :=
          Multiset.mem_filter.mpr ⟨hmem, rfl⟩
        rw [htaken _ heq] at hfilter
        exact Multiset.mem_add.mpr (.inl (Multiset.mem_of_mem_filter hfilter))
      · have hfilter : workerTask ∈ done'.filter (·.identity = workerTask.identity) :=
          Multiset.mem_filter.mpr ⟨hmem, rfl⟩
        rw [hdone _ heq] at hfilter
        exact Multiset.mem_add.mpr (.inr (Multiset.mem_of_mem_filter hfilter))

/-- One worker moves on, but for its threads. -/
theorem onMember (h : AllCarry s taken done) {f : Member → Option Member}
    (hstep : s.onMember identity f = some s')
    (hf : ∀ m m' taken done, Carries m taken done → f m = some m' → Carries m' taken done) :
    AllCarry s' taken done := by
  obtain ⟨m, m', hm, hfm, rfl⟩ := onMember_eq_some.mp hstep
  exact h.setMember (hf m m' _ _ (h.member identity m hm) hfm) (fun _ _ => rfl) fun _ _ => rfl

/-- The broker goes on, and everyone hears what they hear. -/
theorem goOn (h : AllCarry s taken done) (b : Broker) : AllCarry (s.goOn b) taken done where
  member identity m hm := by
    obtain ⟨m, hold, rfl⟩ := Option.map_eq_some_iff.mp hm
    exact (h.member identity m hold).hear _
  known workerTask hmem := by
    obtain ⟨m, hm⟩ := h.known workerTask hmem
    exact ⟨_, Option.map_eq_some_iff.mpr ⟨m, hm, rfl⟩⟩

/-- A worker that was not there has taken nothing. -/
theorem filter_eq_zero (h : AllCarry s taken done) (hnone : s.members identity = none)
    {tasks : Multiset WorkerTask} (hle : tasks ≤ taken + done) :
    tasks.filter (·.identity = identity) = 0 := by
  rw [Multiset.filter_eq_nil]
  rintro workerTask hmem rfl
  obtain ⟨m, hm⟩ := h.known workerTask (Multiset.mem_of_le hle hmem)
  rw [hnone] at hm
  cases hm

theorem connect (h : AllCarry s taken done) {coreCount : ℕ}
    (hstep : Fleet.step s (.connect identity coreCount) = some s') : AllCarry s' taken done := by
  simp only [Fleet.step] at hstep
  split_ifs at hstep with hnew
  obtain rfl := Option.some.inj hstep
  refine h.setMember ?_ (fun _ _ => rfl) fun _ _ => rfl
  rw [h.filter_eq_zero hnew.2 (Multiset.le_add_right _ _),
    h.filter_eq_zero hnew.2 (Multiset.le_add_left _ _)]
  exact ⟨rfl, rfl⟩

/-- Tasks move, and no thread does. -/
theorem step (h : AllCarry s taken done) (hstep : Fleet.step s a = some s')
    (hpoll : ∀ identity, a ≠ .poll identity)
    (hcalculateTask : ∀ identity task, a ≠ .calculateTask identity task) :
    AllCarry s' taken done := by
  cases a with
  | connect identity coreCount => exact h.connect hstep
  | subscribe identity =>
    apply h.onMember hstep
    intro m m' _ _ hm hm'
    obtain rfl := Option.some.inj hm'
    exact hm.subscribe
  | readRequest identity =>
    apply h.onMember hstep
    intro m m' _ _ hm hm'
    obtain ⟨w', hw', rfl⟩ := withWorker_eq_some hm'
    exact hm.readRequest hw'
  | poll identity => exact absurd rfl (hpoll identity)
  | calculateTask identity task => exact absurd rfl (hcalculateTask identity task)
  | checkOutputQueue identity =>
    apply h.onMember hstep
    intro m m' _ _ hm hm'
    obtain rfl := Option.some.inj hm'
    exact hm.checkOutputQueue
  | receiveWorkerMessage identity =>
    obtain ⟨m, message, dealer, b, hm, hdealer, -, rfl⟩ := step_receiveWorkerMessage.mp hstep
    have hreceive := h.setMember ((h.member identity m hm).receive hdealer) (fun _ _ => rfl)
      fun _ _ => rfl
    exact hreceive.goOn b
  | receiveManagerRequest found task =>
    obtain ⟨-, b, -, rfl⟩ := step_receiveManagerRequest.mp hstep
    exact h.goOn b

/-- A thread takes a task: one of those the broker has published that none has taken. -/
theorem poll (h : AllCarry s taken done) {task : WorkerTask} {tasks : List WorkerTask}
    (hm : s.members identity = some m) (hidentity : task.identity = identity)
    (htasks : m.worker.tasks = task :: tasks) :
    AllCarry (s.setMember identity { m with
      worker := { m.worker with tasks, hands := task ::ₘ m.worker.hands } })
      (task ::ₘ taken) done := by
  refine h.setMember ?_ ?_ fun _ _ => rfl
  · rw [filter_cons_own hidentity]
    exact (h.member identity m hm).poll htasks
  · exact fun _ hne => filter_cons_other hidentity hne taken

theorem calculateTask (h : AllCarry s taken done) {task : WorkerTask}
    (hidentity : task.identity = identity)
    (hstep : Fleet.step s (.calculateTask identity task) = some s') :
    AllCarry s' taken (task ::ₘ done) := by
  obtain ⟨m, m', hm, hfm, rfl⟩ := onMember_eq_some.mp hstep
  obtain ⟨w', hw', rfl⟩ := withWorker_eq_some hfm
  refine h.setMember ?_ (fun _ _ => rfl) ?_
  · rw [filter_cons_own hidentity]
    exact (h.member identity m hm).calculateTask hw'
  · exact fun _ hne => filter_cons_other hidentity hne done

end AllCarry
/-- What the broker has sent to the manager stays sent. -/
theorem managerConnection_prefix {s s' : Fleet} {a : Action} (hstep : step s a = some s') :
    s.broker.managerConnection <+: s'.broker.managerConnection := by
  have honMember : ∀ {identity f}, s.onMember identity f = some s' →
      s.broker.managerConnection <+: s'.broker.managerConnection := by
    intro identity f h
    obtain ⟨_, _, -, -, rfl⟩ := onMember_eq_some.mp h
    exact List.prefix_refl _
  cases a with
  | connect identity coreCount =>
    simp only [step] at hstep
    split_ifs at hstep
    obtain rfl := Option.some.inj hstep
    exact List.prefix_refl _
  | subscribe identity | readRequest identity | poll identity | calculateTask identity task
  | checkOutputQueue identity => exact honMember hstep
  | receiveWorkerMessage identity =>
    obtain ⟨m, message, dealer, b, -, -, hb, rfl⟩ := step_receiveWorkerMessage.mp hstep
    show s.broker.managerConnection <+: b.managerConnection
    cases message with
    | coreCount count =>
      obtain ⟨-, rfl⟩ := Broker.registerWorker_eq_ok.mp hb
      exact List.prefix_refl _
    | taskId id =>
      rw [Broker.managerConnection_processWorkerTaskReply hb]
      exact List.prefix_append _ _
    | notSet => cases hb
  | receiveManagerRequest found task =>
    obtain ⟨-, b, hb, rfl⟩ := step_receiveManagerRequest.mp hstep
    rcases Broker.receiveManagerRequest_eq_ok.mp hb with
      ⟨-, rfl⟩ | ⟨identity, count, -, -, rfl⟩
    · exact List.prefix_refl _
    · exact List.prefix_refl _

end Fleet

namespace Deployment

/-! ## Manager, broker, workers and store -/

/-- The store serves every call, and an answer finds one task waiting at most. -/
def Undisturbed (s : Deployment) : Action → Prop
  | .thread (.served _) => True
  | .thread _ => False
  | .transfer action => s.fleet.OneWaits action
  | _ => True

instance (s : Deployment) : DecidablePred s.Undisturbed
  | .thread (.served _) => isTrue trivial
  | .thread (.writeDynamicDataFails _) | .thread (.readDataFails _)
  | .thread (.clearIntermediateCalculationsFails _) => isFalse id
  | .transfer action => inferInstanceAs (Decidable (s.fleet.OneWaits action))
  | .sendComputableTasks _ | .receiveManagerRequest _ | .poll _ | .calculateTask _
  | .updateComputableTasks => isTrue trivial

/-- In `t` the requests are what was sent and no thread has taken, and the replies are what the
threads have done and the dispatcher has not read. -/
structure Relays (s : Deployment) (t : Cluster) (traffic : Traffic)
    (taken done : Multiset WorkerTask) : Prop where
  threads : SameThreads s.toCluster t
  mirrors : s.fleet.Mirrors traffic
  balance : traffic.TasksBalance
  connection : traffic.received ++ s.brokerConnection = t.sent
  carry : s.fleet.AllCarry taken done
  requests : t.requests + taken.map (·.task) = t.sent
  replies : t.replies + (s.fleet.broker.managerConnection.take s.readCount :
    Multiset Proto.TaskId) = done.map (·.task.id)
  readCount_le : s.readCount ≤ s.fleet.broker.managerConnection.length

namespace Relays

variable {s s' : Deployment} {t : Cluster} {traffic : Traffic} {taken done : Multiset WorkerTask}
  {identity : String} {m : Member} {task : WorkerTask} {id : Proto.TaskId} {a : Action}

theorem init (db : Database) : Relays (start db) (.start db) {} 0 0 where
  threads := ⟨rfl, rfl, rfl, rfl, rfl⟩
  mirrors := .init
  balance := rfl
  connection := rfl
  carry := .init
  requests := rfl
  replies := rfl
  readCount_le := le_rfl

/-- **A task in the queue of a pool is one that was sent and that no thread has taken.** For each
worker, what its threads have taken and what waits for them was heard, so published to it. -/
theorem mem_requests (h : Relays s t traffic taken done) (hm : s.fleet.members identity = some m)
    (hidentity : task.identity = identity) (htask : task ∈ m.worker.tasks) :
    task.task ∈ t.requests := by
  have hheard : ∀ identity' m', s.fleet.members identity' = some m' →
      (m'.worker.own m'.heard : Multiset WorkerTask) ≤ traffic.broker.workerPub := by
    intro identity' m' hm'
    apply Multiset.coe_le.mpr
    exact ((h.mirrors.member identity' m' hm').heard.trans List.filter_sublist).subperm
  have hpublished : task ::ₘ taken ≤ traffic.broker.workerPub := by
    apply Multiset.le_of_filter_le (f := WorkerTask.identity)
    intro wt hwt
    by_cases heq : wt.identity = identity
    · rw [heq, filter_cons_own hidentity]
      refine le_trans ?_ (hheard identity m hm)
      rw [← (h.carry.member identity m hm).taken_eq, ← Multiset.singleton_add, add_comm, add_assoc]
      apply add_le_add_right
      exact (Multiset.singleton_le.mpr (Multiset.mem_coe.mpr htask)).trans
        (Multiset.le_add_left _ _)
    · have hmem : wt ∈ taken := by
        rcases Multiset.mem_cons.mp hwt with rfl | hmem
        · exact absurd hidentity heq
        · exact hmem
      obtain ⟨m', hm'⟩ := h.carry.known wt (Multiset.mem_add.mpr (.inl hmem))
      rw [filter_cons_other hidentity heq]
      refine le_trans ?_ (hheard _ m' hm')
      rw [← (h.carry.member _ m' hm').taken_eq, add_assoc]
      exact Multiset.le_add_right _ _
  have hreceived := (Traffic.tasksBalance_iff h.mirrors.balanced).mp h.balance
  have hsent : task.task ::ₘ taken.map (·.task) ≤ t.requests + taken.map (·.task) := by
    rw [h.requests, ← h.connection, ← Multiset.coe_add, hreceived, ← Multiset.map_cons]
    refine (Multiset.map_le_map hpublished).trans ?_
    rw [Multiset.map_coe, add_assoc]
    exact (Multiset.le_add_right _ _).trans (Multiset.le_add_left _ _)
  rw [← Multiset.singleton_add] at hsent
  exact Multiset.singleton_le.mp ((add_le_add_iff_right _).mp hsent)

/-- **An answer that the dispatcher reads is one that a thread has queued**, and was not read
before. -/
theorem mem_replies (h : Relays s t traffic taken done)
    (hid : s.fleet.broker.managerConnection[s.readCount]? = some id) : id ∈ t.replies := by
  have hresponses : (traffic.answered : Multiset WorkerTask).map ThreadPool.response ≤
      done.map ThreadPool.response := by
    apply Multiset.le_of_filter_le (f := WorkerTaskId.identity)
    intro response hresponse
    obtain ⟨wt, hwt, rfl⟩ := Multiset.mem_map.mp hresponse
    obtain ⟨m, hm⟩ := h.mirrors.answered wt (Multiset.mem_coe.mp hwt)
    have harrived := (h.mirrors.member wt.identity m hm).arrived
    have hdone := (h.carry.member wt.identity m hm).done_eq
    rw [Multiset.filter_map]
    show Multiset.map _ (Multiset.filter (fun x : WorkerTask => x.identity = wt.identity) _) ≤ _
    rw [Multiset.filter_coe, Multiset.map_coe, harrived]
    refine le_trans ?_ (Multiset.map_le_map (Multiset.filter_le
      (fun x : WorkerTask => x.identity = wt.identity) done))
    rw [hdone, List.append_assoc, ← Multiset.coe_add]
    exact Multiset.le_add_right _ _
  have hids : (s.fleet.broker.managerConnection : Multiset Proto.TaskId) ≤
      done.map (·.task.id) := by
    have hle := Multiset.map_le_map (f := WorkerTaskId.id) hresponses
    rw [Multiset.map_map, Multiset.map_map, Multiset.map_coe] at hle
    rw [← h.mirrors.broker_eq, h.mirrors.balanced.forwarded]
    exact hle
  have htake : (s.fleet.broker.managerConnection.take (s.readCount + 1) :
      Multiset Proto.TaskId) ≤ done.map (·.task.id) :=
    (Multiset.coe_le.mpr (List.take_sublist _ _).subperm).trans hids
  rw [List.take_add_one, hid, ← h.replies, ← Multiset.coe_add, add_comm,
    add_le_add_iff_right] at htake
  exact Multiset.singleton_le.mp htake

/-! ### Steps -/

/-- The fleet moves on, with its threads. -/
theorem fleet {action : Fleet.Action} {fleet : Fleet} {t' : Cluster} {jobs : Multiset Job}
    {taken' done' : Multiset WorkerTask} {connection : List Task}
    (h : Relays s t traffic taken done) (hstep : s.fleet.step action = some fleet)
    (hone : s.fleet.OneWaits action)
    (hconnection : s.brokerConnection = action.request?.toList ++ connection)
    (hthreads : SameThreads { s.toCluster with jobs } t') (hsent : t'.sent = t.sent)
    (hcarry : fleet.AllCarry taken' done')
    (hrequests : t'.requests + taken'.map (·.task) = t.requests + taken.map (·.task))
    (hreplies : ∀ read : Multiset Proto.TaskId, t.replies + read = done.map (·.task.id) →
      t'.replies + read = done'.map (·.task.id)) : ∃ traffic',
      Relays { s with fleet, brokerConnection := connection, jobs } t' traffic' taken' done' := by
  obtain ⟨_, traffic', -, hmirrors, hreceived, hbalance⟩ := h.mirrors.step hstep
  have hprefix := Fleet.managerConnection_prefix hstep
  refine ⟨traffic', ?_⟩
  exact
    { threads := hthreads
      mirrors := hmirrors
      balance := hbalance hone h.balance
      connection := by
        rw [hreceived, hsent, ← h.connection, hconnection, List.append_assoc]
      carry := hcarry
      requests := by rw [hrequests, hsent, h.requests]
      replies := by
        apply hreplies
        obtain ⟨rest, hrest⟩ := hprefix
        show _ + (fleet.broker.managerConnection.take s.readCount : Multiset Proto.TaskId) = _
        rw [← hrest, List.take_append_of_le_length h.readCount_le]
        exact h.replies
      readCount_le := h.readCount_le.trans hprefix.length_le }

/-- **An undisturbed step of the deployment is one of `Cluster`, or none.** -/
theorem step (h : Relays s t traffic taken done) (hok : s.Undisturbed a)
    (hstep : Deployment.step s a = some s') : ∃ actions t' traffic' taken' done',
      Runs Cluster.step t actions t' ∧ Relays s' t' traffic' taken' done' := by
  obtain ⟨hdispatcher, hcalls, hjobs, hgone, hdatabase⟩ := h.threads
  replace hdispatcher : t.dispatcher = s.dispatcher := hdispatcher
  replace hjobs : t.jobs = s.jobs := hjobs
  cases a with
  | thread action =>
    obtain ⟨hlocal, c, hc, rfl⟩ := step_thread.mp hstep
    obtain ⟨t', ht', hthreads, hrest⟩ := exits_step_of_sameThreads h.threads hlocal hc
    cases action with
    | served action =>
      have hstep : Cluster.step t action = some t' := ht'
      refine ⟨_, t', traffic, taken, done, Runs.single hstep, ?_⟩
      exact
        { threads := hthreads.withCluster s
          mirrors := h.mirrors
          balance := h.balance
          connection := hrest.sent_eq ▸ h.connection
          carry := h.carry
          requests := by rw [hrest.requests_eq, hrest.sent_eq, h.requests]
          replies := by rw [hrest.replies_eq]; exact h.replies
          readCount_le := h.readCount_le }
    | writeDynamicDataFails _ | readDataFails _ | clearIntermediateCalculationsFails _ =>
      exact hok.elim
  | sendComputableTasks =>
    obtain ⟨tasks, dispatcher, hsend, rfl⟩ := step_sendComputableTasks.mp hstep
    rw [← hdispatcher] at hsend
    have hstep := Cluster.step_sendComputableTasks.mpr ⟨tasks, dispatcher, hsend, rfl⟩
    refine ⟨_, _, traffic, taken, done, Runs.single hstep, ?_⟩
    exact
      { threads := ⟨rfl, hcalls, hjobs, hgone, hdatabase⟩
        mirrors := h.mirrors
        balance := h.balance
        connection := by
          show traffic.received ++ (s.brokerConnection ++ tasks) = t.sent ++ tasks
          rw [← h.connection, List.append_assoc]
        carry := h.carry
        requests := by
          show t.requests + tasks + taken.map (·.task) = ((t.sent ++ tasks : List Task) :
            Multiset Task)
          rw [← Multiset.coe_add, ← h.requests, add_right_comm]
        replies := h.replies
        readCount_le := h.readCount_le }
  | receiveManagerRequest found =>
    obtain ⟨task, connection, fleet, hconnection, hfleet, rfl⟩ :=
      step_receiveManagerRequest.mp hstep
    have hcarry := h.carry.step hfleet (by simp) (by simp)
    obtain ⟨traffic', h'⟩ := h.fleet hfleet trivial hconnection h.threads rfl hcarry rfl
      fun _ hread => hread
    exact ⟨[], t, traffic', taken, done, Runs.refl _ t, h'⟩
  | transfer action =>
    obtain ⟨htransfer, fleet, hfleet, rfl⟩ := step_transfer.mp hstep
    have hrequest : action.request? = none := by
      cases action with
      | receiveManagerRequest found task => exact htransfer.elim
      | _ => rfl
    have hcarry : fleet.AllCarry taken done := by
      apply h.carry.step hfleet
      · rintro identity rfl
        exact htransfer
      · rintro identity task rfl
        exact htransfer
    have hconnection : s.brokerConnection = action.request?.toList ++ s.brokerConnection := by
      rw [hrequest]
      rfl
    obtain ⟨traffic', h'⟩ := h.fleet hfleet hok hconnection h.threads rfl hcarry rfl
      fun _ hread => hread
    exact ⟨[], t, traffic', taken, done, Runs.refl _ t, h'⟩
  | poll identity =>
    obtain ⟨m, task, fleet, hm, htask, hfleet, rfl⟩ := step_poll.mp hstep
    obtain ⟨tasks, htasks, heq⟩ := poll_cases hfleet hm htask
    have hmem : task ∈ m.worker.tasks := List.mem_of_mem_head? htask
    have hok := h.mirrors.orderly.member identity m hm
    obtain ⟨_, _, hconserves⟩ := hok.conserves
    have hidentity : task.identity = identity :=
      (hconserves.identity_eq.1 task hmem).trans hok.identity_eq
    have hcarry : fleet.AllCarry (task ::ₘ taken) done := by
      rw [heq]
      exact h.carry.poll hm hidentity htasks
    have hrequest := h.mem_requests hm hidentity hmem
    have hstep : Cluster.step t (.relay task.identity task.task) = some { t with
        requests := t.requests.erase task.task
        jobs := { task } ::ₘ t.jobs } := Cluster.step_relay.mpr ⟨hrequest, rfl⟩
    have hthreads : SameThreads { s.toCluster with jobs := { task } ::ₘ s.jobs } { t with
        requests := t.requests.erase task.task
        jobs := { task } ::ₘ t.jobs } :=
      ⟨hdispatcher, hcalls, congrArg (({ task } : Job) ::ₘ ·) hjobs, hgone, hdatabase⟩
    have hrequests : t.requests.erase task.task + (task ::ₘ taken).map (·.task) =
        t.requests + taken.map (·.task) := by
      rw [Multiset.map_cons, Multiset.add_cons, ← Multiset.cons_add, Multiset.cons_erase hrequest]
    obtain ⟨traffic', h'⟩ := h.fleet hfleet trivial rfl hthreads rfl hcarry hrequests
      fun _ hread => hread
    exact ⟨_, _, traffic', _, done, Runs.single hstep, h'⟩
  | calculateTask job =>
    obtain ⟨hjob, hstage, fleet, hfleet, rfl⟩ := step_calculateTask.mp hstep
    have hcarry : fleet.AllCarry taken (job.task ::ₘ done) := h.carry.calculateTask rfl hfleet
    have hstep := Cluster.step_reply.mpr ⟨h.threads.active ⟨hjob, List.not_mem_nil⟩, hstage, rfl⟩
    have hthreads : SameThreads { s.toCluster with jobs := s.jobs.erase job } { t with
        jobs := t.jobs.erase job
        replies := job.id ::ₘ t.replies } :=
      ⟨hdispatcher, hcalls, congrArg (Multiset.erase · job) hjobs, hgone, hdatabase⟩
    have hreplies : ∀ read : Multiset Proto.TaskId, t.replies + read = done.map (·.task.id) →
        job.id ::ₘ t.replies + read = (job.task ::ₘ done).map (·.task.id) := by
      intro read hread
      rw [Multiset.cons_add, hread, Multiset.map_cons]
      rfl
    obtain ⟨traffic', h'⟩ := h.fleet hfleet trivial rfl hthreads rfl hcarry rfl hreplies
    exact ⟨_, _, traffic', taken, _, Runs.single hstep, h'⟩
  | updateComputableTasks =>
    obtain ⟨id, dispatcher, hid, hupdate, rfl⟩ := step_updateComputableTasks.mp hstep
    have hmem := h.mem_replies hid
    rw [← hdispatcher] at hupdate
    have hstep := Cluster.step_updateComputableTasks.mpr ⟨hmem, dispatcher, hupdate, rfl⟩
    refine ⟨_, _, traffic, taken, done, Runs.single hstep, ?_⟩
    exact
      { threads := ⟨rfl, hcalls, hjobs, hgone, hdatabase⟩
        mirrors := h.mirrors
        balance := h.balance
        connection := h.connection
        carry := h.carry
        requests := h.requests
        replies := by
          show t.replies.erase id + (s.fleet.broker.managerConnection.take (s.readCount + 1) :
            Multiset Proto.TaskId) = _
          rw [List.take_add_one, hid, ← h.replies, ← Multiset.coe_add, add_left_comm,
            add_comm t.replies, Option.toList_some, Multiset.coe_singleton,
            add_comm _ ({id} : Multiset Proto.TaskId), Multiset.singleton_add,
            Multiset.cons_erase hmem]
        readCount_le := (List.getElem?_eq_some_iff.mp hid).1 }

theorem of_runs {db : Database} {actions : List Action}
    (hrun : Runs Deployment.step (start db) actions s)
    (hmeets : Meets Deployment.step Undisturbed (start db) actions) :
    ∃ actions' t, Runs Cluster.step (.start db) actions' t ∧
      ∃ traffic taken done, Relays s t traffic taken done :=
  hrun.forward (P := fun _ => True) (R := fun s t => ∃ traffic taken done,
    Relays s t traffic taken done) (fun _ _ _ _ _ => trivial) (by
      rintro s₁ a s₂ t₁ ⟨traffic, taken, done, h⟩ hok - hstep
      obtain ⟨actions, t', traffic', taken', done', hruns, h'⟩ := h.step hok hstep
      exact ⟨actions, t', hruns, traffic', taken', done', h'⟩)
    ⟨{}, 0, 0, Relays.init db⟩ hmeets trivial

end Relays

/-! ## Results -/

/-- **Undisturbed, the deployment does what `Cluster` does.** In every run in which the store serves
every call and no answer finds different tasks at the two ends of the broker's queue, dispatcher,
calls, threads and store go through a run of `Cluster`. What was sent there is, in the same order,
what the broker has read and what is on the way to it; the requests there are what was sent and no
thread has taken. -/
theorem relayed_runs {db : Database} {actions : List Action} {s : Deployment}
    (hrun : Runs step (start db) actions s) (hmeets : Meets step Undisturbed (start db) actions) :
    ∃ actions' t traffic, Runs Cluster.step (.start db) actions' t ∧
      SameThreads s.toCluster t ∧ s.fleet.Mirrors traffic ∧
      traffic.received ++ s.brokerConnection = t.sent := by
  obtain ⟨actions', t, ht, traffic, _, _, h⟩ := Relays.of_runs hrun hmeets
  exact ⟨actions', t, traffic, ht, h.threads, h.mirrors, h.connection⟩

/-- The mean of the list, on a worker of two cores: the second task waits for the first. -/
def meanRun : List Action :=
  [.transfer (.connect "worker" 2), .transfer (.subscribe "worker"),
    .transfer (.receiveWorkerMessage "worker"), .thread (.served (.calculateProblem .mean)),
    .sendComputableTasks, .receiveManagerRequest (some "worker"), .receiveManagerRequest none]
    ++ onThread ⟨"worker", ⟨⟨0, 1⟩, 4, [.staticOperand "L"]⟩⟩ [.list [1, 2, 3, 4, 5]] (.scalar 15)
    ++ onThread ⟨"worker", ⟨⟨0, 2⟩, 5, [.staticOperand "L"]⟩⟩ [.list [1, 2, 3, 4, 5]] (.scalar 5)
    ++ [.updateComputableTasks, .updateComputableTasks, .sendComputableTasks,
      .receiveManagerRequest (some "worker")]
    ++ onThread ⟨"worker", ⟨⟨0, 3⟩, 15, [.dynOperand ⟨0, 1⟩, .dynOperand ⟨0, 2⟩]⟩⟩
      [.scalar 15, .scalar 5] (.scalar 3)
    ++ [.updateComputableTasks, .thread (.served (.clearProblem 0)),
      .thread (.served (.readData 0)), .thread (.served (.clearIntermediateCalculations 0))]

/-- It is a run of `Cluster` in which the call returns 3. -/
theorem relayed_runs_mean : ∃ s actions t call, Runs step (start Cluster.numbers) meanRun s ∧
    Runs Cluster.step (.start Cluster.numbers) actions t ∧ t.calls = [call] ∧
    call.phase = .returned (.scalar 3) := by
  obtain ⟨s, call, hrun, hcalls, hphase⟩ : ∃ s call,
      Runs step (start Cluster.numbers) meanRun s ∧ s.calls = [call] ∧
        call.phase = .returned (.scalar 3) := ⟨_, _, rfl, rfl, rfl⟩
  obtain ⟨actions, t, -, ht, hthreads, -, -⟩ :=
    @relayed_runs Cluster.numbers meanRun s hrun (by decide)
  exact ⟨s, actions, t, call, hrun, ht, hthreads.calls_eq.trans hcalls, hphase⟩

end Deployment
end TaskDispatch
