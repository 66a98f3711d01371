import Mathlib
import TaskDispatch.Worker.ThreadPool

/-!
# `worker-impl`: a worker between its two sockets

`Worker` and its `ThreadPool` as a record of the queues. What the `SUB` socket has taken in and
nobody has read is in `subscriber`, what was sent on the `DEALER` socket and has not arrived is in
`dealer`; the tasks that pool threads are working on are in `hands`. The critical sections of
`tasks_m_` and of the mutex of the output queue are one step each. What a thread computes, and what
it reads and writes on the way, is left to `ThreadPool.calculateTask`; here it only takes time.

A worker reads the tasks of all workers and keeps its own. `Conserves` says where those are.
-/

set_option autoImplicit false

namespace TaskDispatch

open Proto

/-- `coreCount` is `CORE_COUNT`, an `int` that is not negative, and the number of pool threads. -/
structure Worker where
  identity : String
  coreCount : ℕ
  coreCount_lt : coreCount < 2 ^ 31
  subscriber : List WorkerTask := []
  dealer : List WorkerMessage := []
  tasks : List WorkerTask := []
  hands : Multiset WorkerTask := 0
  finishedTasks : List WorkerTaskId := []

namespace Worker

/-! ## The steps -/

/-- `core_count_ - 1`, a `size_t`, in the field of the message: one core is kept back. -/
def announced (coreCount : ℕ) : UInt32 := (UInt64.ofNat coreCount - 1).toUInt32

def sendAckMessage (w : Worker) : Worker :=
  { w with dealer := w.dealer ++ [.coreCount (announced w.coreCount)] }

/-- `ThreadPool::PushTask` -/
def pushTask (w : Worker) (task : WorkerTask) : Worker := { w with tasks := w.tasks ++ [task] }

def readRequest (w : Worker) : Option Worker :=
  match w.subscriber with
  | [] => none
  | task :: subscriber =>
    let w := { w with subscriber }
    if task.identity ≠ w.identity then some w else some (w.pushTask task)

/-- One round of `ThreadPool::Poll`, on a thread that is free: the front of the queue is taken. -/
def poll (w : Worker) : Option Worker :=
  match w.tasks with
  | [] => none
  | task :: tasks =>
    if w.hands.card < w.coreCount then some { w with tasks, hands := task ::ₘ w.hands } else none

/-- The end of `ThreadPool::CalculateTask`, which did not throw -/
def calculateTask (w : Worker) (task : WorkerTask) : Option Worker :=
  if task ∈ w.hands then
    some { w with
      hands := w.hands.erase task
      finishedTasks := w.finishedTasks ++ [ThreadPool.response task] }
  else none

def checkOutputQueue (w : Worker) : Worker :=
  match w.finishedTasks with
  | [] => w
  | id :: finishedTasks => { w with finishedTasks, dealer := w.dealer ++ [.taskId id] }

section Steps

variable {w w' : Worker} {task : WorkerTask}

/-- The name of the worker, and what it has sent. -/
structure SameOutside (w w' : Worker) : Prop where
  identity_eq : w'.identity = w.identity
  dealer_eq : w'.dealer = w.dealer

theorem sameOutside_readRequest (h : w.readRequest = some w') : SameOutside w w' := by
  unfold readRequest at h
  split at h
  · cases h
  · dsimp only at h
    split_ifs at h <;> obtain rfl := Option.some.inj h <;> exact ⟨rfl, rfl⟩

theorem sameOutside_poll (h : w.poll = some w') : SameOutside w w' := by
  unfold poll at h
  split at h
  · cases h
  · split_ifs at h
    obtain rfl := Option.some.inj h
    exact ⟨rfl, rfl⟩

theorem sameOutside_calculateTask (h : w.calculateTask task = some w') : SameOutside w w' := by
  unfold calculateTask at h
  split_ifs at h
  obtain rfl := Option.some.inj h
  exact ⟨rfl, rfl⟩

theorem checkOutputQueue_eq (w : Worker) : w.checkOutputQueue.identity = w.identity ∧
    ((w.finishedTasks = [] ∧ w.checkOutputQueue.dealer = w.dealer) ∨ ∃ id ∈ w.finishedTasks,
      w.checkOutputQueue.dealer = w.dealer ++ [.taskId id]) := by
  unfold checkOutputQueue
  split
  · rename_i hqueue
    exact ⟨rfl, .inl ⟨hqueue, rfl⟩⟩
  · rename_i id rest hqueue
    exact ⟨rfl, .inr ⟨id, hqueue ▸ List.mem_cons_self, rfl⟩⟩

end Steps

/-! ## Where the tasks are -/

/-- The id in an answer. -/
def taskId? : WorkerMessage → Option WorkerTaskId
  | .taskId id => some id
  | .coreCount _ | .notSet => none

/-- The tasks among these that are for the worker. -/
def own (w : Worker) (tasks : List WorkerTask) : List WorkerTask :=
  tasks.filter fun task => task.identity = w.identity

theorem own_cons_of_eq {w : Worker} {task : WorkerTask} {tasks : List WorkerTask}
    (h : task.identity = w.identity) : w.own (task :: tasks) = task :: w.own tasks :=
  List.filter_cons_of_pos (decide_eq_true h)

/-- Which tasks are for a worker is a matter of its name. -/
theorem own_congr {w w' : Worker} (h : w'.identity = w.identity) (tasks : List WorkerTask) :
    w'.own tasks = w.own tasks := by
  rw [own, own, h]

theorem own_cons_of_ne {w : Worker} {task : WorkerTask} {tasks : List WorkerTask}
    (h : task.identity ≠ w.identity) : w.own (task :: tasks) = w.own tasks :=
  List.filter_cons_of_neg (by simpa using h)

/-- Of the tasks for the worker among those it has been handed, each is still to be read, or queued,
or in the hands of a thread, or finished, or answered. `arrived` are the answers that have left the
socket.

A finished task and an answer are ids; `finished` and `answered` are the tasks they are for. -/
structure Conserves (w : Worker) (heard : List WorkerTask) (arrived : List WorkerTaskId)
    (finished answered : List WorkerTask) : Prop where
  finished_eq : w.finishedTasks = finished.map ThreadPool.response
  answered_eq : arrived ++ w.dealer.filterMap taskId? = answered.map ThreadPool.response
  heard_eq : (w.own heard : Multiset WorkerTask) =
    w.own w.subscriber + w.tasks + w.hands + finished + answered
  threads : w.hands.card ≤ w.coreCount

namespace Conserves

variable {w w' : Worker} {heard finished answered : List WorkerTask} {arrived : List WorkerTaskId}
  {task : WorkerTask}

theorem new (identity : String) (coreCount : ℕ) (h : coreCount < 2 ^ 31) :
    Conserves { identity, coreCount, coreCount_lt := h } [] [] [] [] where
  finished_eq := rfl
  answered_eq := rfl
  heard_eq := rfl
  threads := Nat.zero_le _

theorem sendAckMessage (h : Conserves w heard arrived finished answered) :
    Conserves w.sendAckMessage heard arrived finished answered :=
  { h with
    answered_eq := by
      rw [Worker.sendAckMessage, List.filterMap_append, ← h.answered_eq]
      exact congrArg _ (List.append_nil _) }

/-- What is handed to the worker is there to be read. -/
theorem hear (h : Conserves w heard arrived finished answered) (published : List WorkerTask) :
    Conserves { w with subscriber := w.subscriber ++ published } (heard ++ published) arrived
      finished answered :=
  { h with
    heard_eq := by
      have hsplit : ∀ tasks, w.own (tasks ++ published) = w.own tasks ++ w.own published :=
        fun tasks => List.filter_append ..
      show (w.own (heard ++ published) : Multiset WorkerTask) =
        w.own (w.subscriber ++ published) + w.tasks + w.hands + finished + answered
      rw [hsplit, hsplit, ← Multiset.coe_add, ← Multiset.coe_add, h.heard_eq]
      ac_rfl }

theorem readRequest (h : Conserves w heard arrived finished answered)
    (hstep : w.readRequest = some w') : Conserves w' heard arrived finished answered := by
  have hheard := h.heard_eq
  cases hsubscriber : w.subscriber with
  | nil => simp [Worker.readRequest, hsubscriber] at hstep
  | cons task rest =>
    simp only [Worker.readRequest, hsubscriber] at hstep
    rw [hsubscriber] at hheard
    split_ifs at hstep with hother
    · -- the task of another worker is dropped
      obtain rfl := Option.some.inj hstep
      rw [own_cons_of_ne hother] at hheard
      exact { h with heard_eq := hheard }
    · obtain rfl := Option.some.inj hstep
      rw [own_cons_of_eq (not_not.mp hother)] at hheard
      refine { h with heard_eq := hheard.trans ?_ }
      show _ = (w.own rest : Multiset WorkerTask) + (w.tasks ++ [task] : List WorkerTask) +
        w.hands + finished + answered
      rw [← Multiset.cons_coe, ← Multiset.singleton_add, ← Multiset.coe_add,
        Multiset.coe_singleton]
      ac_rfl

theorem poll (h : Conserves w heard arrived finished answered) (hstep : w.poll = some w') :
    Conserves w' heard arrived finished answered := by
  have hheard := h.heard_eq
  cases htasks : w.tasks with
  | nil => simp [Worker.poll, htasks] at hstep
  | cons task rest =>
    simp only [Worker.poll, htasks] at hstep
    split_ifs at hstep with hfree
    obtain rfl := Option.some.inj hstep
    rw [htasks] at hheard
    refine { h with
      heard_eq := hheard.trans ?_
      threads := by simpa using hfree }
    show _ = (w.own w.subscriber : Multiset WorkerTask) + rest + (task ::ₘ w.hands) + finished +
      answered
    rw [← Multiset.cons_coe, ← Multiset.singleton_add, ← Multiset.singleton_add]
    ac_rfl

/-- A task that a thread is done with is finished. -/
theorem calculateTask (h : Conserves w heard arrived finished answered)
    (hstep : w.calculateTask task = some w') :
    Conserves w' heard arrived (finished ++ [task]) answered := by
  have hheard := h.heard_eq
  have hthreads := h.threads
  simp only [Worker.calculateTask] at hstep
  split_ifs at hstep with hmem
  obtain rfl := Option.some.inj hstep
  obtain ⟨rest, hrest⟩ := Multiset.exists_cons_of_mem hmem
  rw [hrest] at hheard hthreads
  rw [Multiset.card_cons] at hthreads
  have herase : w.hands.erase task = rest := by rw [hrest, Multiset.erase_cons_head]
  refine
    { finished_eq := by simp [h.finished_eq]
      answered_eq := h.answered_eq
      heard_eq := hheard.trans ?_
      threads := ?_ }
  · show _ = (w.own w.subscriber : Multiset WorkerTask) + w.tasks + w.hands.erase task +
      (finished ++ [task] : List WorkerTask) + answered
    rw [herase, ← Multiset.singleton_add, ← Multiset.coe_add, Multiset.coe_singleton]
    ac_rfl
  · show (w.hands.erase task).card ≤ w.coreCount
    rw [herase]
    exact Nat.le_of_succ_le hthreads

/-- The answer to the task that was finished first is sent. -/
theorem checkOutputQueue (h : Conserves w heard arrived finished answered) :
    ∃ finished' answered', Conserves w.checkOutputQueue heard arrived finished' answered' := by
  have hfinished := h.finished_eq
  cases hqueue : w.finishedTasks with
  | nil =>
    refine ⟨finished, answered, ?_⟩
    rw [Worker.checkOutputQueue, hqueue]
    exact h
  | cons id rest =>
    rw [hqueue] at hfinished
    obtain ⟨task, finished', rfl, rfl, hrest⟩ := List.map_eq_cons_iff.mp hfinished.symm
    refine ⟨finished', answered ++ [task], ?_⟩
    rw [Worker.checkOutputQueue, hqueue]
    refine { h with
      finished_eq := hrest.symm
      answered_eq := ?_
      heard_eq := h.heard_eq.trans ?_ }
    · rw [List.filterMap_append, ← List.append_assoc, h.answered_eq, List.map_append]
      rfl
    · show _ = (w.own w.subscriber : Multiset WorkerTask) + w.tasks + w.hands + finished' +
        (answered ++ [task] : List WorkerTask)
      rw [← Multiset.cons_coe, ← Multiset.singleton_add, ← Multiset.coe_add,
        Multiset.coe_singleton]
      ac_rfl

/-- A message leaves the socket. -/
theorem receive {message : WorkerMessage} {dealer : List WorkerMessage}
    (h : Conserves w heard arrived finished answered) (hdealer : w.dealer = message :: dealer) :
    Conserves { w with dealer } heard (arrived ++ (taskId? message).toList) finished answered :=
  { h with
    answered_eq := by
      rw [← h.answered_eq, hdealer]
      cases message <;> simp [taskId?, List.filterMap_cons] }

/-- Nothing of another worker is queued, worked on, or answered here. -/
theorem identity_eq (h : Conserves w heard arrived finished answered) :
    (∀ task ∈ w.tasks, task.identity = w.identity) ∧
    (∀ task ∈ w.hands, task.identity = w.identity) ∧
    (∀ id ∈ w.finishedTasks, id.identity = w.identity) ∧
    ∀ id ∈ arrived ++ w.dealer.filterMap taskId?, id.identity = w.identity := by
  have hall : ∀ task ∈ (w.own w.subscriber + w.tasks + w.hands + finished + answered :
      Multiset WorkerTask), task.identity = w.identity := by
    intro task htask
    rw [← h.heard_eq, Multiset.mem_coe, own, List.mem_filter] at htask
    simpa using htask.2
  simp only [Multiset.mem_add, Multiset.mem_coe] at hall
  refine ⟨?_, ?_, ?_, ?_⟩
  · intro task htask
    exact hall task (.inl (.inl (.inl (.inr htask))))
  · intro task htask
    exact hall task (.inl (.inl (.inr htask)))
  · intro id hid
    rw [h.finished_eq] at hid
    obtain ⟨task, htask, rfl⟩ := List.mem_map.mp hid
    exact hall task (.inl (.inr htask))
  · intro id hid
    rw [h.answered_eq] at hid
    obtain ⟨task, htask, rfl⟩ := List.mem_map.mp hid
    exact hall task (.inr htask)

end Conserves

end Worker
end TaskDispatch
