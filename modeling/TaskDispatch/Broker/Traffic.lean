import Mathlib
import TaskDispatch.Broker.Broker
import TaskDispatch.Lib.Run
import TaskDispatch.Worker.ThreadPool

/-!
# The broker and its traffic

The broker under any sequence of registrations, tasks and answers. An answer is for a task that was
published and has not been answered, and comes from the worker it was published to. The loop of
`Broker::Run` reads the manager only when a worker is registered; that it does is not needed here.

The cores balance (`cores_balance`): what a worker has free and what it has been given add up to
what it announced. The tasks balance as long as no answer is handled while the task at the front
of the queue is not the one at the back (`tasks_balance_iff`): the one at the back is sent, the
one at the front is dropped. -/

set_option autoImplicit false

namespace TaskDispatch

open Proto Transition

/-- The broker with a history: who registered, what was received from the manager, and which of the
published tasks were answered. -/
structure Traffic where
  broker : Broker := {}
  registrations : List (String × UInt32) := []
  received : List Task := []
  answered : List WorkerTask := []

namespace Traffic

/-- The tasks published to a worker and not yet answered. -/
def unanswered (s : Traffic) : Multiset WorkerTask :=
  (s.broker.workerPub : Multiset WorkerTask) - (s.answered : Multiset WorkerTask)

/-- A message from a worker: its registration, or the answer to a task. -/
inductive WorkerEvent where
  | coreCount (identity : String) (count : UInt32)
  | taskId (workerTask : WorkerTask)

inductive Action where
  | receiveWorkerMessage (event : WorkerEvent)
  | receiveManagerRequest (found : Option String) (task : Task)

def step (s : Traffic) : Action → Option Traffic
  | .receiveWorkerMessage (.coreCount identity count) => do
    let broker ← (s.broker.receiveWorkerMessage identity (.coreCount count)).toOption
    some { s with broker, registrations := s.registrations ++ [(identity, count)] }
  | .receiveWorkerMessage (.taskId workerTask) =>
    if workerTask ∈ s.unanswered then do
      let broker ← (s.broker.receiveWorkerMessage workerTask.identity
        (.taskId (ThreadPool.response workerTask))).toOption
      some { s with broker, answered := s.answered ++ [workerTask] }
    else none
  | .receiveManagerRequest found task =>
    if s.broker.Finds found then do
      let broker ← (s.broker.receiveManagerRequest found task).toOption
      some { s with broker, received := s.received ++ [task] }
    else none

section Steps

variable {s s' : Traffic} {identity : String} {count : UInt32} {workerTask : WorkerTask}
  {found : Option String} {task : Task}

theorem step_coreCount :
    step s (.receiveWorkerMessage (.coreCount identity count)) = some s' ↔
      identity ∉ s.broker.workerRoutingIdToAvailableCoreCount ∧ s' = { s with
        broker := { s.broker with
          workerRoutingIdToAvailableCoreCount :=
            s.broker.workerRoutingIdToAvailableCoreCount.insert identity count.toUInt64 }
        registrations := s.registrations ++ [(identity, count)] } := by
  simp [step, Broker.receiveWorkerMessage, Option.bind_eq_some_iff, Broker.registerWorker_eq_ok,
    and_assoc, eq_comm (a := s')]

/-- What an answer does, by what it finds in the queue. -/
theorem step_taskId : step s (.receiveWorkerMessage (.taskId workerTask)) = some s' ↔
    workerTask ∈ s.unanswered ∧ ∃ count,
      s.broker.workerRoutingIdToAvailableCoreCount[workerTask.identity]? = some count ∧
      ((s.broker.taskQueue = [] ∧ s' = { s with
          broker := { s.broker with
            managerConnection := s.broker.managerConnection ++ [workerTask.task.id]
            workerRoutingIdToAvailableCoreCount :=
              s.broker.workerRoutingIdToAvailableCoreCount.insert workerTask.identity
                (count + 1) }
          answered := s.answered ++ [workerTask] }) ∨
        ∃ task, s.broker.taskQueue.getLast? = some task ∧ s' = { s with
          broker := { s.broker with
            managerConnection := s.broker.managerConnection ++ [workerTask.task.id]
            workerPub := s.broker.workerPub ++ [⟨workerTask.identity, task⟩]
            taskQueue := s.broker.taskQueue.tail }
          answered := s.answered ++ [workerTask] }) := by
  cases hback : s.broker.taskQueue.getLast? with
  | none =>
    have hnil : s.broker.taskQueue = [] := List.getLast?_eq_none_iff.mp hback
    simp [step, Broker.receiveWorkerMessage, Option.bind_eq_some_iff, hnil,
      Broker.processWorkerTaskReply_of_nil hnil, ThreadPool.response, eq_comm (a := s')]
  | some task =>
    have hne : s.broker.taskQueue ≠ [] := by
      intro hnil
      rw [hnil] at hback
      cases hback
    simp [step, Broker.receiveWorkerMessage, Option.bind_eq_some_iff, hne,
      Broker.processWorkerTaskReply_of_ne_nil hback, ThreadPool.response, eq_comm (a := s')]

theorem step_receiveManagerRequest :
    step s (.receiveManagerRequest found task) = some s' ↔ s.broker.Finds found ∧
      ((found = none ∧ s' = { s with
          broker := { s.broker with taskQueue := s.broker.taskQueue ++ [task] }
          received := s.received ++ [task] }) ∨
        ∃ identity count, found = some identity ∧
          s.broker.workerRoutingIdToAvailableCoreCount[identity]? = some count ∧ s' = { s with
            broker := { s.broker with
              workerPub := s.broker.workerPub ++ [⟨identity, task⟩]
              workerRoutingIdToAvailableCoreCount :=
                s.broker.workerRoutingIdToAvailableCoreCount.insert identity (count - 1) }
            received := s.received ++ [task] }) := by
  cases found with
  | none =>
    simp [step, Option.bind_eq_some_iff, Broker.receiveManagerRequest_eq_ok, eq_comm (a := s')]
  | some identity =>
    simp [step, Option.bind_eq_some_iff, Broker.receiveManagerRequest_eq_ok, eq_comm (a := s')]

end Steps

/-! ## What is out -/

section Unanswered

variable {published answered : List WorkerTask} {workerTask : WorkerTask}

/-- A task more that is published is one more that is not answered. -/
theorem unanswered_publish (hle : (answered : Multiset WorkerTask) ≤ published) :
    ((published ++ [workerTask] : List WorkerTask) : Multiset WorkerTask) - answered =
      workerTask ::ₘ ((published : Multiset WorkerTask) - answered) := by
  rw [← Multiset.coe_add, Multiset.coe_singleton, add_comm, Multiset.singleton_add,
    Multiset.cons_sub_of_le _ hle]

/-- A task that is answered is one less. -/
theorem unanswered_answer :
    (published : Multiset WorkerTask) - ((answered ++ [workerTask] : List WorkerTask) :
      Multiset WorkerTask) = ((published : Multiset WorkerTask) - answered).erase workerTask := by
  rw [← Multiset.coe_add, Multiset.coe_singleton, tsub_add_eq_tsub_tsub, Multiset.sub_singleton]

theorem answered_le (hle : (answered : Multiset WorkerTask) ≤ published)
    (hmem : workerTask ∈ (published : Multiset WorkerTask) - answered) :
    ((answered ++ [workerTask] : List WorkerTask) : Multiset WorkerTask) ≤ published := by
  rw [← Multiset.coe_add, Multiset.coe_singleton, ← add_tsub_cancel_of_le hle]
  exact add_le_add_right (Multiset.singleton_le.mpr hmem) _

end Unanswered

/-! ## The cores -/

theorem toNat_increment {n : UInt64} (h : n.toNat < 2 ^ 32) : (n + 1).toNat = n.toNat + 1 := by
  have hone : (1 : UInt64).toNat = 1 := rfl
  rw [UInt64.toNat_add, hone, Nat.mod_eq_of_lt]
  omega

theorem toNat_decrement {n : UInt64} (h : n ≠ 0) : (n - 1).toNat + 1 = n.toNat := by
  have hne : n.toNat ≠ 0 := fun hzero => h (UInt64.toNat_inj.mp hzero)
  have hone : (1 : UInt64).toNat = 1 := rfl
  have hle : (1 : UInt64) ≤ n := by
    rw [UInt64.le_iff_toNat_le, hone]
    exact Nat.one_le_iff_ne_zero.mpr hne
  rw [UInt64.toNat_sub_of_le _ _ hle, hone]
  omega

/-- The books of the broker: a worker's free cores and its tasks add up to what it announced. -/
structure Balanced (s : Traffic) : Prop where
  answered_le : (s.answered : Multiset WorkerTask) ≤ s.broker.workerPub
  registered : ∀ identity, identity ∈ s.broker.workerRoutingIdToAvailableCoreCount ↔
    ∃ count, (identity, count) ∈ s.registrations
  published : ∀ workerTask ∈ s.broker.workerPub,
    workerTask.identity ∈ s.broker.workerRoutingIdToAvailableCoreCount
  cores : ∀ identity count, (identity, count) ∈ s.registrations → ∃ available,
    s.broker.workerRoutingIdToAvailableCoreCount[identity]? = some available ∧
      available.toNat + s.unanswered.countP (·.identity = identity) = count.toNat
  forwarded : s.broker.managerConnection = s.answered.map (·.task.id)

namespace Balanced

variable {s s' : Traffic} {identity : String} {count : UInt32} {workerTask : WorkerTask}
  {found : Option String} {task : Task}

theorem init : Balanced {} where
  answered_le := le_rfl
  registered := by simp
  published := by simp
  cores := by simp
  forwarded := rfl

theorem mem_published (h : workerTask ∈ s.unanswered) : workerTask ∈ s.broker.workerPub :=
  Multiset.mem_coe.mp (Multiset.mem_of_le (Multiset.sub_le_self _ _) h)

theorem coreCount (h : Balanced s)
    (hstep : Traffic.step s (.receiveWorkerMessage (.coreCount identity count)) = some s') :
    Balanced s' := by
  obtain ⟨hnew, rfl⟩ := step_coreCount.mp hstep
  refine { h with
    registered := ?_
    published := ?_
    cores := ?_ }
  · intro w
    rw [Std.ExtTreeMap.mem_insert, h.registered w]
    by_cases heq : identity = w
    · simp [heq]
    · simp [heq, Ne.symm heq]
  · intro wt hwt
    exact Std.ExtTreeMap.mem_insert.mpr (.inr (h.published wt hwt))
  · intro w c hw
    rcases List.mem_append.mp hw with hold | hadded
    · have hne : identity ≠ w := by
        rintro rfl
        exact hnew ((h.registered identity).mpr ⟨c, hold⟩)
      obtain ⟨available, havailable, hsum⟩ := h.cores w c hold
      refine ⟨available, ?_, hsum⟩
      simp [Std.ExtTreeMap.getElem?_insert, hne, havailable]
    · -- the new worker was given nothing: what is published went to workers already known
      obtain ⟨rfl, rfl⟩ := Prod.mk.inj (List.mem_singleton.mp hadded)
      have hzero : s.unanswered.countP (·.identity = w) = 0 := by
        rw [Multiset.countP_eq_zero]
        rintro wt hwt rfl
        exact hnew (h.published wt (mem_published hwt))
      refine ⟨c.toUInt64, Std.ExtTreeMap.getElem?_insert_self, ?_⟩
      show c.toUInt64.toNat + s.unanswered.countP (·.identity = w) = c.toNat
      rw [hzero, add_zero, UInt32.toNat_toUInt64]

/-- The cores after one of `w` has changed, with the tasks it has been given. -/
theorem cores_insert (h : Balanced s) {w : String} {available available' : UInt64}
    {unanswered : Multiset WorkerTask}
    (hw : s.broker.workerRoutingIdToAvailableCoreCount[w]? = some available)
    (hsum : available'.toNat + unanswered.countP (·.identity = w) =
      available.toNat + s.unanswered.countP (·.identity = w))
    (hother : ∀ identity ≠ w, unanswered.countP (·.identity = identity) =
      s.unanswered.countP (·.identity = identity)) :
    ∀ identity count, (identity, count) ∈ s.registrations → ∃ available,
      (s.broker.workerRoutingIdToAvailableCoreCount.insert w available')[identity]? =
        some available ∧
      available.toNat + unanswered.countP (·.identity = identity) = count.toNat := by
  intro identity count hmem
  obtain ⟨n, hn, hcores⟩ := h.cores identity count hmem
  by_cases heq : identity = w
  · subst heq
    obtain rfl := Option.some.inj (hw.symm.trans hn)
    exact ⟨available', Std.ExtTreeMap.getElem?_insert_self, hsum.trans hcores⟩
  · refine ⟨n, ?_, by rw [hother identity heq, hcores]⟩
    simp [Std.ExtTreeMap.getElem?_insert, Ne.symm heq, hn]

theorem taskId (h : Balanced s)
    (hstep : Traffic.step s (.receiveWorkerMessage (.taskId workerTask)) = some s') :
    Balanced s' := by
  obtain ⟨hmem, available, hw, ⟨-, rfl⟩ | ⟨task, -, rfl⟩⟩ := step_taskId.mp hstep
  all_goals
    obtain ⟨rest, hrest⟩ := Multiset.exists_cons_of_mem hmem
    have herase : s.unanswered.erase workerTask = rest := by
      rw [hrest, Multiset.erase_cons_head]
  · -- a core is free again
    have hunanswered : ((s.broker.workerPub : Multiset WorkerTask) -
        ((s.answered ++ [workerTask] : List WorkerTask) : Multiset WorkerTask)) = rest := by
      rw [unanswered_answer, ← herase]
      rfl
    -- no more cores are free than were registered, so the sum does not come round
    have hbound : available.toNat < 2 ^ 32 := by
      obtain ⟨count, hregistered⟩ := (h.registered workerTask.identity).mp
        (Std.ExtTreeMap.getElem?_eq_some_iff.mp hw).1
      obtain ⟨n, hn, hsum⟩ := h.cores _ _ hregistered
      obtain rfl := Option.some.inj (hw.symm.trans hn)
      have hcount := count.toNat_lt
      omega
    refine
      { answered_le := Traffic.answered_le h.answered_le hmem
        registered := fun w => ?_
        published := fun wt hwt => ?_
        cores := ?_
        forwarded := by simp [h.forwarded] }
    · exact (Broker.mem_insert_of_getElem? hw w).trans (h.registered w)
    · exact (Broker.mem_insert_of_getElem? hw _).mpr (h.published wt hwt)
    · refine h.cores_insert hw ?_ ?_
      · rw [unanswered, hunanswered, hrest, Multiset.countP_cons, if_pos rfl,
          toNat_increment hbound]
        omega
      · intro identity hne
        rw [unanswered, hunanswered, hrest, Multiset.countP_cons, if_neg (Ne.symm hne), add_zero]
  · -- the core goes to the next task
    have hunanswered : (((s.broker.workerPub ++ [⟨workerTask.identity, task⟩] : List WorkerTask) :
        Multiset WorkerTask) - ((s.answered ++ [workerTask] : List WorkerTask) :
          Multiset WorkerTask)) = ⟨workerTask.identity, task⟩ ::ₘ rest := by
      rw [unanswered_publish (Traffic.answered_le h.answered_le hmem), unanswered_answer, ← herase]
      rfl
    refine
      { answered_le := ?_
        registered := h.registered
        published := fun wt hwt => ?_
        cores := ?_
        forwarded := by simp [h.forwarded] }
    · apply (Traffic.answered_le h.answered_le hmem).trans
      rw [← Multiset.coe_add]
      exact Multiset.le_add_right _ _
    · rcases List.mem_append.mp hwt with hold | hadded
      · exact h.published wt hold
      · rw [List.mem_singleton.mp hadded]
        exact (Std.ExtTreeMap.getElem?_eq_some_iff.mp hw).1
    · intro identity count hregistered
      obtain ⟨n, hn, hsum⟩ := h.cores identity count hregistered
      refine ⟨n, hn, ?_⟩
      rw [unanswered, hunanswered, ← hsum, hrest, Multiset.countP_cons, Multiset.countP_cons]

theorem receiveManagerRequest (h : Balanced s)
    (hstep : Traffic.step s (.receiveManagerRequest found task) = some s') : Balanced s' := by
  obtain ⟨hfinds, ⟨rfl, rfl⟩ | ⟨w, available, rfl, hw, rfl⟩⟩ := step_receiveManagerRequest.mp hstep
  · exact { h with }
  · have hne : available ≠ 0 := by
      obtain ⟨n, hn, hne⟩ := hfinds
      rwa [Option.some.inj (hw.symm.trans hn)]
    have hunanswered : ((s.broker.workerPub ++ [⟨w, task⟩] : List WorkerTask) :
        Multiset WorkerTask) - (s.answered : Multiset WorkerTask) = ⟨w, task⟩ ::ₘ s.unanswered :=
      unanswered_publish h.answered_le
    refine { h with
      answered_le := ?_
      registered := ?_
      published := ?_
      cores := ?_ }
    · apply h.answered_le.trans
      rw [← Multiset.coe_add]
      exact Multiset.le_add_right _ _
    · intro identity
      exact (Broker.mem_insert_of_getElem? hw identity).trans (h.registered identity)
    · intro wt hwt
      rw [Broker.mem_insert_of_getElem? hw]
      rcases List.mem_append.mp hwt with hold | hadded
      · exact h.published wt hold
      · rw [List.mem_singleton.mp hadded]
        exact (Std.ExtTreeMap.getElem?_eq_some_iff.mp hw).1
    · refine h.cores_insert hw ?_ ?_
      · rw [unanswered, hunanswered, Multiset.countP_cons, if_pos rfl, ← toNat_decrement hne]
        omega
      · intro identity hidentity
        rw [unanswered, hunanswered, Multiset.countP_cons, if_neg (Ne.symm hidentity), add_zero]

theorem step {a : Action} (h : Balanced s) (hstep : Traffic.step s a = some s') : Balanced s' := by
  cases a with
  | receiveWorkerMessage event =>
    cases event with
    | coreCount identity count => exact h.coreCount hstep
    | taskId workerTask => exact h.taskId hstep
  | receiveManagerRequest found task => exact h.receiveManagerRequest hstep

theorem of_runs {actions : List Action} (hrun : Runs Traffic.step {} actions s) : Balanced s :=
  hrun.invariant (I := fun _ s => Balanced s) init fun _ _ _ _ _ h hstep => h.step hstep

end Balanced

/-- **The cores balance.** After any sequence of registrations, tasks and answers: what a registered
worker has free and what it has been given and not answered add up to what it registered with, so
neither exceeds it; an answer finds its worker, and the core it frees is there to be taken again; a
task goes to a worker that has a free core. -/
theorem cores_balance {actions : List Action} {s : Traffic} (hrun : Runs step {} actions s) :
    (∀ identity, identity ∈ s.broker.workerRoutingIdToAvailableCoreCount ↔
      ∃ count, (identity, count) ∈ s.registrations) ∧
    (∀ identity count, (identity, count) ∈ s.registrations → ∃ available,
      s.broker.workerRoutingIdToAvailableCoreCount[identity]? = some available ∧
        available.toNat + s.unanswered.countP (·.identity = identity) = count.toNat ∧
        available.toNat ≤ count.toNat ∧
        s.unanswered.countP (·.identity = identity) ≤ count.toNat) ∧
    (∀ workerTask ∈ s.unanswered, ∃ available b,
      s.broker.workerRoutingIdToAvailableCoreCount[workerTask.identity]? = some available ∧
        available + 1 ≠ 0 ∧
        s.broker.receiveWorkerMessage workerTask.identity
          (.taskId (ThreadPool.response workerTask)) = .ok b) ∧
    ∀ found task, s.broker.Finds found → (∃ b, s.broker.receiveManagerRequest found task = .ok b) ∧
      ∀ identity, found = some identity → ∃ available,
        s.broker.workerRoutingIdToAvailableCoreCount[identity]? = some available ∧
          available ≠ 0 := by
  have h := Balanced.of_runs hrun
  refine ⟨h.registered, ?_, ?_,
    ?_⟩
  · intro identity count hregistered
    obtain ⟨available, hw, hsum⟩ := h.cores identity count hregistered
    exact ⟨available, hw, hsum, by omega, by omega⟩
  · intro workerTask hmem
    have hknown := h.published workerTask (Balanced.mem_published hmem)
    obtain ⟨count, hregistered⟩ := (h.registered _).mp hknown
    obtain ⟨available, hw, hsum⟩ := h.cores _ _ hregistered
    have hbound : available.toNat < 2 ^ 32 := by
      have hcount := count.toNat_lt
      omega
    have hne : available + 1 ≠ 0 := by
      intro hzero
      have hnat := toNat_increment hbound
      rw [hzero] at hnat
      exact Nat.succ_ne_zero _ hnat.symm
    cases hback : s.broker.taskQueue.getLast? with
    | none =>
      have hnil : s.broker.taskQueue = [] := List.getLast?_eq_none_iff.mp hback
      exact ⟨available, _, hw, hne,
        (Broker.processWorkerTaskReply_of_nil hnil).mpr ⟨available, hw, rfl⟩⟩
    | some task =>
      exact ⟨available, _, hw, hne,
        (Broker.processWorkerTaskReply_of_ne_nil hback).mpr ⟨available, hw, rfl⟩⟩
  · intro found task hfinds
    cases found with
    | none => exact ⟨⟨_, Broker.receiveManagerRequest_eq_ok.mpr (.inl ⟨rfl, rfl⟩)⟩, by simp⟩
    | some identity =>
      obtain ⟨available, hw, hne⟩ := hfinds
      refine ⟨⟨_, Broker.receiveManagerRequest_eq_ok.mpr
        (.inr ⟨identity, available, rfl, hw, rfl⟩)⟩, ?_⟩
      rintro _ ⟨⟩
      exact ⟨available, hw, hne⟩

/-! ## The tasks -/

/-- The tasks whose result was passed on to the manager. -/
def forwarded (s : Traffic) : List Task := s.answered.map (·.task)

/-- What went to the manager are the ids of these tasks, in this order. -/
theorem managerConnection_eq {actions : List Action} {s : Traffic} (hrun : Runs step {} actions s) :
    s.broker.managerConnection = s.forwarded.map (·.id) := by
  rw [(Balanced.of_runs hrun).forwarded, forwarded, List.map_map]
  rfl

/-- Every task received waits, is out, or has been passed on, and there are no others. -/
def TasksBalance (s : Traffic) : Prop :=
  (s.received : Multiset Task) =
    s.broker.taskQueue + s.unanswered.map (·.task) + s.forwarded

instance : DecidablePred TasksBalance := fun _ => inferInstanceAs (Decidable (_ = _))

/-- An answer finds the same task at both ends of the queue, or none. -/
def OneWaits (s : Traffic) : Action → Prop
  | .receiveWorkerMessage (.taskId _) => s.broker.taskQueue.head? = s.broker.taskQueue.getLast?
  | _ => True

instance (s : Traffic) : DecidablePred s.OneWaits
  | .receiveWorkerMessage (.taskId _) => inferInstanceAs (Decidable (_ = _))
  | .receiveWorkerMessage (.coreCount _ _) => isTrue trivial
  | .receiveManagerRequest _ _ => isTrue trivial

section Tasks

variable {s s' : Traffic}

/-- What is out and what was answered is what was published. -/
theorem tasksBalance_iff (h : Balanced s) : s.TasksBalance ↔
    (s.received : Multiset Task) = s.broker.taskQueue + s.broker.workerPub.map (·.task) := by
  have hpublished : s.unanswered.map (·.task) + (s.forwarded : Multiset Task) =
      s.broker.workerPub.map (·.task) := by
    rw [forwarded, ← Multiset.map_coe, ← Multiset.map_coe, ← Multiset.map_add, unanswered,
      tsub_add_cancel_of_le h.answered_le]
  rw [TasksBalance, add_assoc, hpublished]

theorem coe_map_publish (published : List WorkerTask) (identity : String) (task : Task) :
    (((published ++ [(⟨identity, task⟩ : WorkerTask)]).map (·.task) : List Task) : Multiset Task) =
      task ::ₘ (published.map (·.task) : List Task) := by
  rw [List.map_append, ← Multiset.coe_add, add_comm]
  rfl

/-- One step keeps the balance exactly when it is no answer that finds two tasks waiting. -/
theorem tasksBalance_step {a : Action} (h : Balanced s) (hbalance : s.TasksBalance)
    (hstep : step s a = some s') : s'.TasksBalance ↔ s.OneWaits a := by
  have h' := h.step hstep
  rw [tasksBalance_iff h] at hbalance
  rw [tasksBalance_iff h']
  cases a with
  | receiveWorkerMessage event =>
    cases event with
    | coreCount identity count =>
      obtain ⟨-, rfl⟩ := step_coreCount.mp hstep
      exact iff_of_true hbalance trivial
    | taskId workerTask =>
      obtain ⟨-, _, -, ⟨hnil, rfl⟩ | ⟨back, hback, rfl⟩⟩ := step_taskId.mp hstep
      · apply iff_of_true hbalance
        show s.broker.taskQueue.head? = s.broker.taskQueue.getLast?
        rw [hnil]
        rfl
      · show (s.received : Multiset Task) = s.broker.taskQueue.tail +
            ((s.broker.workerPub ++ [(⟨workerTask.identity, back⟩ : WorkerTask)]).map (·.task) :
              List Task) ↔ s.broker.taskQueue.head? = s.broker.taskQueue.getLast?
        cases hqueue : s.broker.taskQueue with
        | nil =>
          rw [hqueue] at hback
          cases hback
        | cons front rest =>
          rw [hqueue] at hbalance hback
          -- on both sides the rest of the queue and what was published, with one task more
          rw [hback, List.tail_cons, List.head?_cons, Option.some.injEq, coe_map_publish, hbalance,
            ← Multiset.cons_coe, Multiset.cons_add, Multiset.add_cons]
          exact Multiset.cons_inj_left _
  | receiveManagerRequest found task =>
    refine iff_of_true ?_ trivial
    obtain ⟨-, ⟨rfl, rfl⟩ | ⟨identity, _, rfl, -, rfl⟩⟩ := step_receiveManagerRequest.mp hstep
    · show ((s.received ++ [task] : List Task) : Multiset Task) =
        (s.broker.taskQueue ++ [task] : List Task) + (s.broker.workerPub.map (·.task) : List Task)
      rw [← Multiset.coe_add, hbalance, ← Multiset.coe_add, add_right_comm]
    · show ((s.received ++ [task] : List Task) : Multiset Task) = s.broker.taskQueue +
        ((s.broker.workerPub ++ [(⟨identity, task⟩ : WorkerTask)]).map (·.task) : List Task)
      rw [coe_map_publish, Multiset.add_cons, ← hbalance, ← Multiset.coe_add, add_comm]
      rfl

end Tasks

/-- **When the tasks balance.** In every state of a run the tasks received are those that wait,
those that are out and those passed on, if and only if no answer of the run finds different tasks
at the two ends of the queue. -/
theorem tasks_balance_iff {actions : List Action} {s : Traffic} (hrun : Runs step {} actions s) :
    Throughout step TasksBalance {} actions ↔ Meets step OneWaits {} actions :=
  hrun.throughout_iff_meets (J := Balanced) (fun _ _ _ h hstep => h.step hstep)
    (fun _ _ _ h hbalance hstep => tasksBalance_step h hbalance hstep) .init rfl

/-- A task of one problem. -/
def taskNumber (v : UInt32) : Task := ⟨⟨0, v⟩, 5, [.staticOperand "L"]⟩

/-- A worker with one core, the next task waiting. -/
def oneWaitsRun : List Action :=
  [.receiveWorkerMessage (.coreCount "worker" 1),
    .receiveManagerRequest (some "worker") (taskNumber 1),
    .receiveManagerRequest none (taskNumber 2),
    .receiveWorkerMessage (.taskId ⟨"worker", taskNumber 1⟩)]

/-- The worker has one core and one task. -/
theorem cores_balance_oneWaits : ∃ s, Runs step {} oneWaitsRun s ∧
    s.registrations = [("worker", 1)] ∧ ∃ available,
      s.broker.workerRoutingIdToAvailableCoreCount["worker"]? = some available ∧
        available.toNat + s.unanswered.countP (·.identity = "worker") = 1 := by
  obtain ⟨s, hrun, hregistrations⟩ : ∃ s, Runs step {} oneWaitsRun s ∧
    s.registrations = [("worker", 1)] := ⟨_, rfl, rfl⟩
  obtain ⟨-, hcores, -⟩ := @cores_balance oneWaitsRun s hrun
  obtain ⟨available, hw, hsum, -⟩ := hcores "worker" 1 (by rw [hregistrations]; simp)
  exact ⟨s, hrun, hregistrations, available, hw, hsum⟩

theorem tasks_balance_oneWaits : ∃ s, Runs step {} oneWaitsRun s ∧
    Throughout step TasksBalance {} oneWaitsRun := by
  obtain ⟨s, hrun⟩ : ∃ s, Runs step {} oneWaitsRun s := ⟨_, rfl⟩
  exact ⟨s, hrun, (@tasks_balance_iff oneWaitsRun s hrun).mpr (by decide)⟩

/-- With a third task, the second is dropped at the first answer, and the third is sent and still
waits. -/
theorem task_dropped : ∃ s, Runs step {}
    [.receiveWorkerMessage (.coreCount "worker" 1),
      .receiveManagerRequest (some "worker") (taskNumber 1),
      .receiveManagerRequest none (taskNumber 2), .receiveManagerRequest none (taskNumber 3),
      .receiveWorkerMessage (.taskId ⟨"worker", taskNumber 1⟩)] s ∧
    s.received = [taskNumber 1, taskNumber 2, taskNumber 3] ∧
    s.broker.taskQueue = [taskNumber 3] ∧ s.unanswered = {⟨"worker", taskNumber 3⟩} ∧
    s.forwarded = [taskNumber 1] ∧ ¬s.TasksBalance :=
  ⟨_, rfl, rfl, rfl, rfl, rfl, by decide⟩

end Traffic
end TaskDispatch
