import Mathlib
import TaskDispatch.Broker.Traffic

/-!
# Tasks are handed out in the order of arrival, or not

Tasks are overtaken at two places. An answer sends the task at the back of the queue and takes out
the one at the front. And a request that finds a free core is sent at once, also where tasks wait:
that happens after a worker has registered, which brings cores and looks at no task. As long as no
answer finds two different tasks waiting, and no request finds both a core and a task that waits,
what has been published is what was received first, in this order (`arrivalOrder_of_inTurn`). -/

set_option autoImplicit false

namespace TaskDispatch

open Proto Transition

namespace Traffic

/-- The tasks that were published are the first of those received, in the same order: whatever was
received before one of them was published before it. -/
def InArrivalOrder (s : Traffic) : Prop := s.broker.workerPub.map (·.task) <+: s.received

instance : DecidablePred InArrivalOrder := fun _ => inferInstanceAs (Decidable (_ <+: _))

/-- An answer finds the same task at both ends of the queue, or none; a request that is sent at once
finds none. -/
def InTurn (s : Traffic) : Action → Prop
  | .receiveWorkerMessage (.taskId _) => s.broker.taskQueue.head? = s.broker.taskQueue.getLast?
  | .receiveManagerRequest (some _) _ => s.broker.taskQueue = []
  | _ => True

instance (s : Traffic) : DecidablePred s.InTurn
  | .receiveWorkerMessage (.taskId _) => inferInstanceAs (Decidable (_ = _))
  | .receiveWorkerMessage (.coreCount _ _) => isTrue trivial
  | .receiveManagerRequest (some _) _ => inferInstanceAs (Decidable (_ = _))
  | .receiveManagerRequest none _ => isTrue trivial

/-- What was received is what was published and then what waits. -/
def InOrder (s : Traffic) : Prop :=
  s.received = s.broker.workerPub.map (·.task) ++ s.broker.taskQueue

section Steps

variable {s s' : Traffic}

theorem InOrder.inArrivalOrder (h : InOrder s) : InArrivalOrder s :=
  ⟨s.broker.taskQueue, h.symm⟩

theorem InOrder.step {a : Action} (h : InOrder s) (hturn : s.InTurn a)
    (hstep : Traffic.step s a = some s') : InOrder s' := by
  cases a with
  | receiveWorkerMessage event =>
    cases event with
    | coreCount identity count =>
      obtain ⟨-, rfl⟩ := step_coreCount.mp hstep
      exact h
    | taskId workerTask =>
      obtain ⟨-, _, -, ⟨-, rfl⟩ | ⟨back, hback, rfl⟩⟩ := step_taskId.mp hstep
      · exact h
      · -- what is copied from the back is what is popped from the front
        have hfront : s.broker.taskQueue.head? = some back := Eq.trans hturn hback
        obtain ⟨rest, hqueue⟩ := List.head?_eq_some_iff.mp hfront
        show s.received = (s.broker.workerPub ++ [_]).map WorkerTask.task ++ s.broker.taskQueue.tail
        rw [h, hqueue, List.map_append, List.append_assoc]
        rfl
  | receiveManagerRequest found task =>
    obtain ⟨-, ⟨rfl, rfl⟩ | ⟨identity, count, rfl, -, rfl⟩⟩ :=
      step_receiveManagerRequest.mp hstep
    · show s.received ++ [task] = _ ++ (s.broker.taskQueue ++ [task])
      rw [h, List.append_assoc]
    · have hnil : s.broker.taskQueue = [] := hturn
      show s.received ++ [task] =
        (s.broker.workerPub ++ [_]).map WorkerTask.task ++ s.broker.taskQueue
      rw [h, hnil, List.map_append, List.append_nil, List.append_nil]
      rfl

/-- Where the tasks received differ, a step out of turn breaks the order at once. -/
theorem InOrder.inTurn {a : Action} (h : InOrder s) (hnodup : s'.received.Nodup)
    (horder : s'.InArrivalOrder) (hstep : Traffic.step s a = some s') : s.InTurn a := by
  cases a with
  | receiveWorkerMessage event =>
    cases event with
    | coreCount identity count => trivial
    | taskId workerTask =>
      show s.broker.taskQueue.head? = s.broker.taskQueue.getLast?
      obtain ⟨-, _, -, ⟨hnil, rfl⟩ | ⟨back, hback, rfl⟩⟩ := step_taskId.mp hstep
      · rw [hnil]
        rfl
      · have hprefix : (s.broker.workerPub ++ [_]).map WorkerTask.task <+: s.received := horder
        rw [h, List.map_append, List.prefix_append_right_inj] at hprefix
        obtain ⟨rest, hqueue⟩ := hprefix
        rw [hback, ← hqueue]
        rfl
  | receiveManagerRequest found task =>
    obtain ⟨-, ⟨rfl, rfl⟩ | ⟨identity, count, rfl, -, rfl⟩⟩ :=
      step_receiveManagerRequest.mp hstep
    · trivial
    · show s.broker.taskQueue = []
      have hprefix : (s.broker.workerPub ++ [_]).map WorkerTask.task <+: s.received ++ [task] :=
        horder
      have hnodup : (s.received ++ [task]).Nodup := hnodup
      rw [h, List.map_append, List.append_assoc, List.prefix_append_right_inj] at hprefix
      obtain ⟨rest, hrest⟩ := hprefix
      cases hqueue : s.broker.taskQueue with
      | nil => rfl
      | cons front others =>
        -- the task would have been received twice
        rw [hqueue] at hrest
        have hfront : task = front := (List.cons.inj hrest).1
        rw [h, hqueue, List.nodup_append] at hnodup
        exact absurd hfront.symm (hnodup.2.2 front (by simp) task (by simp))

theorem received_extends {a : Action} (hstep : step s a = some s') :
    s.received <+: s'.received := by
  cases a with
  | receiveWorkerMessage event =>
    cases event with
    | coreCount identity count =>
      obtain ⟨-, rfl⟩ := step_coreCount.mp hstep
      exact List.prefix_rfl
    | taskId workerTask =>
      obtain ⟨-, _, -, ⟨-, rfl⟩ | ⟨back, -, rfl⟩⟩ := step_taskId.mp hstep
      · exact List.prefix_rfl
      · exact List.prefix_rfl
  | receiveManagerRequest found task =>
    obtain ⟨-, ⟨rfl, rfl⟩ | ⟨identity, count, rfl, -, rfl⟩⟩ :=
      step_receiveManagerRequest.mp hstep
    · exact List.prefix_append _ _
    · exact List.prefix_append _ _

end Steps

/-- **When tasks are handed out in the order of arrival**: as long as every answer and every request
comes in turn, and, where the tasks received all differ, not beyond. -/
theorem arrivalOrder_of_inTurn {actions : List Action} {s : Traffic}
    (hrun : Runs step {} actions s) :
    (Meets step InTurn {} actions → Throughout step InArrivalOrder {} actions) ∧
      (s.received.Nodup → Throughout step InArrivalOrder {} actions →
        Meets step InTurn {} actions) := by
  have hinit : InOrder {} := rfl
  constructor
  · intro hmeets
    exact (throughout_of_meets (fun _ _ _ => InOrder.step) hinit hmeets).mono
      fun _ => InOrder.inArrivalOrder
  · intro hnodup horder
    exact hrun.meets_of_throughout (P := fun s => s.received.Nodup)
      (fun _ _ _ hstep hnodup => hnodup.sublist (received_extends hstep).sublist)
      (fun _ _ _ => InOrder.step)
      (fun _ _ _ h hnodup horder hstep => h.inTurn hnodup horder hstep) hinit hnodup horder

/-- With one task waiting at a time the order is kept. -/
theorem arrivalOrder_oneWaits : ∃ s, Runs step {} oneWaitsRun s ∧
    Throughout step InArrivalOrder {} oneWaitsRun := by
  obtain ⟨s, hrun⟩ : ∃ s, Runs step {} oneWaitsRun s := ⟨_, rfl⟩
  exact ⟨s, hrun, (@arrivalOrder_of_inTurn oneWaitsRun s hrun).1 (by decide)⟩

/-- With two tasks waiting, the second is published and the first is not; and where a worker joins
while a task waits, the next one overtakes it. -/
theorem task_overtaken :
    (∃ s, Runs step {}
      [.receiveWorkerMessage (.coreCount "worker" 1),
        .receiveManagerRequest (some "worker") (taskNumber 1),
        .receiveManagerRequest none (taskNumber 2), .receiveManagerRequest none (taskNumber 3),
        .receiveWorkerMessage (.taskId ⟨"worker", taskNumber 1⟩)] s ∧
      s.received = [taskNumber 1, taskNumber 2, taskNumber 3] ∧
      s.broker.workerPub.map (·.task) = [taskNumber 1, taskNumber 3] ∧ ¬s.InArrivalOrder) ∧
    ∃ s, Runs step {}
      [.receiveWorkerMessage (.coreCount "first" 1),
        .receiveManagerRequest (some "first") (taskNumber 1),
        .receiveManagerRequest none (taskNumber 2),
        .receiveWorkerMessage (.coreCount "second" 1),
        .receiveManagerRequest (some "second") (taskNumber 3)] s ∧
      s.received = [taskNumber 1, taskNumber 2, taskNumber 3] ∧
      s.broker.workerPub.map (·.task) = [taskNumber 1, taskNumber 3] ∧ ¬s.InArrivalOrder :=
  ⟨⟨_, rfl, rfl, rfl, by decide⟩, _, rfl, rfl, rfl, by decide⟩

end Traffic
end TaskDispatch
