import Mathlib
import TaskDispatch.Common.Messages

/-!
# `broker-impl`: tasks to workers, answers to the manager

`Broker` as a record of its fields. Of the sockets only what was sent is kept, in order; what
arrives is an argument of the handler that takes it. The free cores are `size_t`, so `++` and `--`
are those of `UInt64`.

The order in which `std::find_if` runs over an `unordered_map` is not fixed. Its result is an
argument, and `Finds` says which results are possible.

Nothing catches what a handler throws: the broker is gone.
-/

set_option autoImplicit false

namespace TaskDispatch

open Proto

structure Broker where
  managerConnection : List Proto.TaskId := []
  workerPub : List WorkerTask := []
  workerRoutingIdToAvailableCoreCount : Std.ExtTreeMap String UInt64 := ∅
  taskQueue : List Task := []

namespace Broker

/-! ## The handlers -/

def registerWorker (b : Broker) (identity : String) (coreCount : UInt32) : Result Broker :=
  if identity ∈ b.workerRoutingIdToAvailableCoreCount then
    .error (.thrown (.logicError "Worker with exisiting identity tried to register"))
  else .ok { b with
    workerRoutingIdToAvailableCoreCount :=
      b.workerRoutingIdToAvailableCoreCount.insert identity coreCount.toUInt64 }

/-- The message is out before the core is looked up. -/
def sendTaskToWorkerImpl (b : Broker) (workerTask : WorkerTask) : Result Broker := do
  let count ← .ofLookup b.workerRoutingIdToAvailableCoreCount[workerTask.identity]?
  .ok { b with
    workerPub := b.workerPub ++ [workerTask]
    workerRoutingIdToAvailableCoreCount :=
      b.workerRoutingIdToAvailableCoreCount.insert workerTask.identity (count - 1) }

/-- The copy is of the back of the queue; `pop` takes the front. -/
def sendTaskToWorkerFromQueue (b : Broker) (identity : String) : Result Broker :=
  match b.taskQueue.getLast? with
  | some managerTask =>
    { b with taskQueue := b.taskQueue.tail }.sendTaskToWorkerImpl ⟨identity, managerTask⟩
  | none => .error .undefined

def sendResultToManager (b : Broker) (workerTaskId : WorkerTaskId) : Broker :=
  { b with managerConnection := b.managerConnection ++ [workerTaskId.id] }

def processWorkerTaskReply (b : Broker) (message : WorkerTaskId) : Result Broker := do
  let count ← .ofLookup b.workerRoutingIdToAvailableCoreCount[message.identity]?
  let b := { b with
    workerRoutingIdToAvailableCoreCount :=
      b.workerRoutingIdToAvailableCoreCount.insert message.identity (count + 1) }
  let b ← if b.taskQueue ≠ [] then b.sendTaskToWorkerFromQueue message.identity else .ok b
  .ok (b.sendResultToManager message)

/-- `identity` is the first frame, which the router socket puts before the message. -/
def receiveWorkerMessage (b : Broker) (identity : String) : WorkerMessage → Result Broker
  | .coreCount count => b.registerWorker identity count
  | .taskId id => b.processWorkerTaskReply id
  | .notSet => .error (.thrown (.logicError "Invalid message"))

/-- A worker with a core that is not taken, or nothing where there is none. -/
def Finds (b : Broker) : Option String → Prop
  | some identity => ∃ count, b.workerRoutingIdToAvailableCoreCount[identity]? = some count ∧
      count ≠ 0
  | none => ∀ entry ∈ b.workerRoutingIdToAvailableCoreCount.toList, entry.2 = 0

instance (b : Broker) : DecidablePred b.Finds
  | some identity =>
    match h : b.workerRoutingIdToAvailableCoreCount[identity]? with
    | some count => decidable_of_iff (count ≠ 0) (by simp [Finds, h])
    | none => isFalse (by simp [Finds, h])
  | none => inferInstanceAs (Decidable (∀ entry ∈ _, _))

def sendTaskToWorker (b : Broker) (found : Option String) (managerTask : Task) : Result Broker :=
  match found with
  | none => .ok { b with taskQueue := b.taskQueue ++ [managerTask] }
  | some identity => b.sendTaskToWorkerImpl ⟨identity, managerTask⟩

def receiveManagerRequest (b : Broker) (found : Option String) (managerTask : Task) :
    Result Broker := b.sendTaskToWorker found managerTask

/-! ## What the handlers do -/

variable {b b' : Broker} {identity : String} {workerTask : WorkerTask} {found : Option String}
  {managerTask : Task} {message : WorkerTaskId} {count : UInt32}

theorem finds_none : b.Finds none ↔ ∀ (identity : String) (count : UInt64),
    b.workerRoutingIdToAvailableCoreCount[identity]? = some count → count = 0 := by
  simp [Finds, Std.ExtTreeMap.mem_toList_iff_getElem?_eq_some]

theorem registerWorker_eq_ok : b.registerWorker identity count = .ok b' ↔
    identity ∉ b.workerRoutingIdToAvailableCoreCount ∧ b' = { b with
      workerRoutingIdToAvailableCoreCount :=
        b.workerRoutingIdToAvailableCoreCount.insert identity count.toUInt64 } := by
  unfold registerWorker
  split_ifs with hmem <;> simp [hmem, eq_comm]

theorem sendTaskToWorkerImpl_eq_ok : b.sendTaskToWorkerImpl workerTask = .ok b' ↔
    ∃ count, b.workerRoutingIdToAvailableCoreCount[workerTask.identity]? = some count ∧
      b' = { b with
        workerPub := b.workerPub ++ [workerTask]
        workerRoutingIdToAvailableCoreCount :=
          b.workerRoutingIdToAvailableCoreCount.insert workerTask.identity (count - 1) } := by
  simp only [sendTaskToWorkerImpl, Result.bind_ok_iff, Result.ofLookup_eq_ok, Except.ok.injEq,
    eq_comm (a := b')]

/-- A request goes to a worker, or waits. -/
theorem receiveManagerRequest_eq_ok : b.receiveManagerRequest found managerTask = .ok b' ↔
    (found = none ∧ b' = { b with taskQueue := b.taskQueue ++ [managerTask] }) ∨
      ∃ identity count, found = some identity ∧
        b.workerRoutingIdToAvailableCoreCount[identity]? = some count ∧ b' = { b with
          workerPub := b.workerPub ++ [⟨identity, managerTask⟩]
          workerRoutingIdToAvailableCoreCount :=
            b.workerRoutingIdToAvailableCoreCount.insert identity (count - 1) } := by
  cases found with
  | none => simp [receiveManagerRequest, sendTaskToWorker, eq_comm (a := b')]
  | some identity =>
    simp [receiveManagerRequest, sendTaskToWorker, sendTaskToWorkerImpl_eq_ok]

/-- An answer with nothing in the queue frees a core. -/
theorem processWorkerTaskReply_of_nil (hqueue : b.taskQueue = []) :
    b.processWorkerTaskReply message = .ok b' ↔
      ∃ count, b.workerRoutingIdToAvailableCoreCount[message.identity]? = some count ∧
        b' = { b with
          managerConnection := b.managerConnection ++ [message.id]
          workerRoutingIdToAvailableCoreCount :=
            b.workerRoutingIdToAvailableCoreCount.insert message.identity (count + 1) } := by
  simp [processWorkerTaskReply, hqueue, sendResultToManager, eq_comm (a := b')]

/-- An answer while tasks wait hands the core on: to the task at the back, while the one at the
front is taken out. -/
theorem processWorkerTaskReply_of_ne_nil {managerTask : Task}
    (hback : b.taskQueue.getLast? = some managerTask) :
    b.processWorkerTaskReply message = .ok b' ↔
      ∃ count, b.workerRoutingIdToAvailableCoreCount[message.identity]? = some count ∧
        b' = { b with
          managerConnection := b.managerConnection ++ [message.id]
          workerPub := b.workerPub ++ [⟨message.identity, managerTask⟩]
          taskQueue := b.taskQueue.tail } := by
  have hne : b.taskQueue ≠ [] := by
    intro hnil
    rw [hnil] at hback
    cases hback
  -- the core is freed and taken again
  have hinsert : ∀ count, b.workerRoutingIdToAvailableCoreCount[message.identity]? = some count →
      (b.workerRoutingIdToAvailableCoreCount.insert message.identity (count + 1)).insert
        message.identity (count + 1 - 1) = b.workerRoutingIdToAvailableCoreCount := by
    intro count hcount
    apply Std.ExtTreeMap.ext_getElem?
    intro identity
    by_cases heq : message.identity = identity
    · simp [← heq, hcount]
    · simp [Std.ExtTreeMap.getElem?_insert, heq]
  simp only [processWorkerTaskReply, Result.bind_ok_iff, Result.ofLookup_eq_ok, ne_eq, hne,
    not_false_eq_true, if_true, sendTaskToWorkerFromQueue, hback, sendTaskToWorkerImpl_eq_ok,
    Except.ok.injEq]
  constructor
  · rintro ⟨count, hcount, _, ⟨count', hcount', rfl⟩, rfl⟩
    rw [Std.ExtTreeMap.getElem?_insert_self, Option.some.injEq] at hcount'
    subst hcount'
    refine ⟨count, hcount, ?_⟩
    rw [sendResultToManager, hinsert count hcount]
  · rintro ⟨count, hcount, rfl⟩
    refine ⟨count, hcount, _, ⟨count + 1, Std.ExtTreeMap.getElem?_insert_self, rfl⟩, ?_⟩
    rw [sendResultToManager, hinsert count hcount]

/-- A change to the cores of a worker leaves the workers what they are. -/
theorem mem_insert_of_getElem? {map : Std.ExtTreeMap String UInt64} {w : String}
    {available available' : UInt64} (hw : map[w]? = some available) (identity : String) :
    identity ∈ map.insert w available' ↔ identity ∈ map := by
  rw [Std.ExtTreeMap.mem_insert, Std.compare_eq_iff_eq]
  constructor
  · rintro (rfl | hmem)
    · exact (Std.ExtTreeMap.getElem?_eq_some_iff.mp hw).1
    · exact hmem
  · exact .inr

/-- An answer that is handled is passed on, whatever else it sets off. -/
theorem managerConnection_processWorkerTaskReply (h : b.processWorkerTaskReply message = .ok b') :
    b'.managerConnection = b.managerConnection ++ [message.id] := by
  cases hback : b.taskQueue.getLast? with
  | none =>
    have hnil : b.taskQueue = [] := List.getLast?_eq_none_iff.mp hback
    obtain ⟨_, -, rfl⟩ := (processWorkerTaskReply_of_nil hnil).mp h
    rfl
  | some managerTask =>
    obtain ⟨_, -, rfl⟩ := (processWorkerTaskReply_of_ne_nil hback).mp h
    rfl

end Broker
end TaskDispatch
