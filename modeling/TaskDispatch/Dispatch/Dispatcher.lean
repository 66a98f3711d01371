import Mathlib
import TaskDispatch.Common.Messages
import TaskDispatch.Decomposition.Decomposition

/-!
# `dispatch/dispatch`: the scheduler of the manager

The two maps of `Dispatcher` and the handlers that work on them under its mutex. Each handler is a
function of the state, so a definition below is one atomic step of the manager.

The problems are in a `std::map`, the computable tasks of each in a `std::unordered_map`, which
promises no order of iteration. So a pass over them has the order as an argument (`PassOrder`).
-/

set_option autoImplicit false

namespace TaskDispatch

open Proto

abbrev ProblemId := ℕ
abbrev TaskId := VertexDescriptor

inductive TaskStatus where
  | processing
  | completed
  deriving DecidableEq, Repr

/-! ## One problem -/

@[ext] structure CalculationData where
  decompositor : TaskDecompositor
  processedTasksToStatus : Std.ExtTreeMap TaskId TaskStatus
  taskToVariableId : Std.ExtTreeMap TaskId VariableId
  computableTaskToDependencies : Std.ExtTreeMap TaskId (List TaskId)

namespace CalculationData

def new (ast : AST) : Result CalculationData := do
  let decompositor ← TaskDecompositor.new ast
  let taskToVariableId ← decompositor.getIndependentTasks
  let computedTasks := taskToVariableId.keys.toFinset
  .ok {
    decompositor, taskToVariableId
    processedTasksToStatus := taskToVariableId.map fun _ _ => .completed
    computableTaskToDependencies := decompositor.getComputableTasks computedTasks ∅ }

/-- What `SendComputableTasks` leaves of a problem whose computable tasks have been sent. -/
def markSent (calcData : CalculationData) : CalculationData :=
  { calcData with
    processedTasksToStatus := calcData.computableTaskToDependencies.foldl
      (fun status taskId _ => status.insert taskId .processing) calcData.processedTasksToStatus
    computableTaskToDependencies := ∅ }

/-- `processed_tasks_to_status.at(task_id) = TaskStatus::completed` -/
def complete (calcData : CalculationData) (taskId : TaskId) : Result CalculationData := do
  let _ ← Result.ofLookup calcData.processedTasksToStatus[taskId]?
  .ok { calcData with
    processedTasksToStatus := calcData.processedTasksToStatus.insert taskId .completed }

/-- The tasks with a status, as the `switch` collects them. -/
def tasksWith (calcData : CalculationData) (status : TaskStatus) : Finset TaskId :=
  ((calcData.processedTasksToStatus.toList.filter (·.2 = status)).map (·.1)).toFinset

/-- `computable_task_to_dependencies` from scratch. -/
def recompute (calcData : CalculationData) : CalculationData :=
  { calcData with
    computableTaskToDependencies := calcData.decompositor.getComputableTasks
      (calcData.tasksWith .completed) (calcData.tasksWith .processing) }

end CalculationData

structure SyncData where
  isComputed : Bool := false
  deriving DecidableEq, Repr

/-! ## The dispatcher -/

/-- The order in which a pass finds the computable tasks of each problem. -/
structure PassOrder where
  entries : ProblemId → List (TaskId × List TaskId) → List (TaskId × List TaskId)
  perm : ∀ p l, (entries p l).Perm l

/-- The order of the keys -/
def PassOrder.ascending : PassOrder where
  entries _ l := l
  perm _ l := .refl l

/-- `problemId` is the static `PROBLEM_ID`: the id the next problem gets. -/
structure Dispatcher where
  problemIdToCalculationData : Std.ExtTreeMap ProblemId CalculationData := ∅
  problemIdToSyncData : Std.ExtTreeMap ProblemId SyncData := ∅
  problemId : ℕ := 0

namespace Dispatcher

def formOperand (d : Dispatcher) (problemId : ProblemId) (operandId : TaskId) :
    Result Operand := do
  let calcData ← Result.ofLookup d.problemIdToCalculationData[problemId]?
  match calcData.taskToVariableId[operandId]? with
  | some variableId => .ok (.staticOperand variableId)
  | none => .ok (.dynOperand (.mk' problemId operandId))

def formTaskRequest (d : Dispatcher) (problemId : ProblemId) (taskId : TaskId)
    (dependencies : List TaskId) : Result Task := do
  let calcData ← Result.ofLookup d.problemIdToCalculationData[problemId]?
  let operands ← dependencies.mapM (d.formOperand problemId)
  .ok {
    id := .mk' problemId taskId
    operationType := .ofNat (calcData.decompositor.getOperationType taskId)
    operands }

/-- The requests `SendComputableTasks` sends for one problem. -/
def formTaskRequests (d : Dispatcher) (order : PassOrder) :
    ProblemId × CalculationData → Result (List Task)
  | (problemId, calcData) =>
    (order.entries problemId calcData.computableTaskToDependencies.toList).mapM
      fun (taskId, dependencies) => d.formTaskRequest problemId taskId dependencies

/-- The requests, and the state after them. `FormTaskRequest` reads nothing that the loop around it
changes, so it may be run for all problems first. -/
def sendComputableTasks (d : Dispatcher) (order : PassOrder) :
    Result (List Task × Dispatcher) := do
  let requests ← d.problemIdToCalculationData.toList.mapM (d.formTaskRequests order)
  .ok (requests.flatten, { d with
    problemIdToCalculationData :=
      d.problemIdToCalculationData.map fun _ calcData => calcData.markSent })

def notifyComputedProblem (d : Dispatcher) (problemId : ProblemId) (taskId : TaskId) :
    Result Dispatcher := do
  let calcData ← Result.ofLookup d.problemIdToCalculationData[problemId]?
  let calcData ← calcData.complete taskId
  let syncData ← Result.ofLookup d.problemIdToSyncData[problemId]?
  .ok { d with
    problemIdToCalculationData := d.problemIdToCalculationData.insert problemId calcData
    problemIdToSyncData :=
      d.problemIdToSyncData.insert problemId { syncData with isComputed := true } }

def updateComputableTasksImpl (d : Dispatcher) (problemId : ProblemId) (taskId : TaskId) :
    Result Dispatcher := do
  let calcData ← Result.ofLookup d.problemIdToCalculationData[problemId]?
  let calcData ← calcData.complete taskId
  .ok { d with
    problemIdToCalculationData :=
      d.problemIdToCalculationData.insert problemId calcData.recompute }

/-- `UpdateComputableTasks` for the reply that was read -/
def updateComputableTasks (d : Dispatcher) (taskId : Proto.TaskId) : Result Dispatcher := do
  let calcData ← Result.ofLookup d.problemIdToCalculationData[taskId.problemId.toNat]?
  let last ← calcData.decompositor.lastTask
  if taskId.taskId.toNat = last then
    d.notifyComputedProblem taskId.problemId.toNat taskId.taskId.toNat
  else
    d.updateComputableTasksImpl taskId.problemId.toNat taskId.taskId.toNat

/-- `emplace` keeps an entry that is there. -/
def pushProblem (d : Dispatcher) (calcData : CalculationData) (syncData : SyncData) :
    ProblemId × Dispatcher :=
  (d.problemId, {
    problemIdToCalculationData :=
      d.problemIdToCalculationData.insertIfNew d.problemId calcData
    problemIdToSyncData := d.problemIdToSyncData.insertIfNew d.problemId syncData
    problemId := (d.problemId + 1) % 2 ^ 64 })

def clearProblem (d : Dispatcher) (problemId : ProblemId) : Dispatcher :=
  { d with
    problemIdToCalculationData := d.problemIdToCalculationData.erase problemId
    problemIdToSyncData := d.problemIdToSyncData.erase problemId }

/-- The condition `CalculateProblem` waits for. -/
def isComputed (d : Dispatcher) (problemId : ProblemId) : Result Bool := do
  let syncData ← Result.ofLookup d.problemIdToSyncData[problemId]?
  .ok syncData.isComputed

end Dispatcher

/-! ## What the handlers do to a problem -/

namespace CalculationData

variable {calcData calcData' : CalculationData} {v : TaskId}

theorem getElem?_markSent : calcData.markSent.processedTasksToStatus[v]? =
    if v ∈ calcData.computableTaskToDependencies then some .processing
    else calcData.processedTasksToStatus[v]? := by
  have hloop : ∀ (vs : List TaskId) (status : Std.ExtTreeMap TaskId TaskStatus),
      (vs.foldl (fun status v => status.insert v TaskStatus.processing) status)[v]? =
        if v ∈ vs then some TaskStatus.processing else status[v]? := by
    intro vs
    induction vs with
    | nil => simp
    | cons w vs ih =>
      intro status
      rw [List.foldl_cons, ih, Std.ExtTreeMap.getElem?_insert]
      by_cases hw : w = v
      · simp [hw]
      · simp [hw, Ne.symm hw]
  rw [markSent, Std.ExtTreeMap.foldl_eq_foldl_keys, hloop]
  simp

theorem mem_tasksWith {status : TaskStatus} :
    v ∈ calcData.tasksWith status ↔ calcData.processedTasksToStatus[v]? = some status := by
  simp [tasksWith]

theorem complete_eq_ok : calcData.complete v = .ok calcData' ↔
    v ∈ calcData.processedTasksToStatus ∧ calcData' = { calcData with
      processedTasksToStatus := calcData.processedTasksToStatus.insert v .completed } := by
  unfold complete
  rw [Result.bind_ok_iff]
  simp only [Result.ofLookup_eq_ok, Except.ok.injEq, exists_and_right,
    Std.ExtTreeMap.mem_iff_isSome_getElem?, Option.isSome_iff_exists, eq_comm (a := calcData')]

/-- The operand of a request, as `FormOperand` finds it. -/
def operand (calcData : CalculationData) (problemId : ProblemId) (operandId : TaskId) : Operand :=
  match calcData.taskToVariableId[operandId]? with
  | some variableId => .staticOperand variableId
  | none => .dynOperand (.mk' problemId operandId)

/-- The request for a task. -/
def taskRequest (calcData : CalculationData) (problemId : ProblemId) (taskId : TaskId)
    (dependencies : List TaskId) : Task where
  id := .mk' problemId taskId
  operationType := .ofNat (calcData.decompositor.getOperationType taskId)
  operands := dependencies.map (calcData.operand problemId)

def taskRequests (calcData : CalculationData) (order : PassOrder) (problemId : ProblemId) :
    List Task :=
  (order.entries problemId calcData.computableTaskToDependencies.toList).map
    fun (taskId, dependencies) => calcData.taskRequest problemId taskId dependencies

theorem mem_taskRequests {order : PassOrder} {p : ProblemId} {t : Task} :
    t ∈ calcData.taskRequests order p ↔
      ∃ v dependencies, calcData.computableTaskToDependencies[v]? = some dependencies ∧
        t = calcData.taskRequest p v dependencies := by
  simp only [taskRequests, List.mem_map, (order.perm p _).mem_iff, Prod.exists,
    Std.ExtTreeMap.mem_toList_iff_getElem?_eq_some, eq_comm (a := t)]

/-- The ids of one problem's requests differ as long as they fit their fields. -/
theorem nodup_taskRequests {order : PassOrder} {p : ProblemId} (hp : p < 2 ^ 32)
    (hv : ∀ v ∈ calcData.computableTaskToDependencies, v < 2 ^ 32) :
    ((calcData.taskRequests order p).map (·.id)).Nodup := by
  have hids : ((calcData.taskRequests order p).map (·.id)).Perm
      (calcData.computableTaskToDependencies.keys.map (TaskId.mk' p)) := by
    rw [taskRequests, List.map_map, ← Std.ExtTreeMap.map_fst_toList_eq_keys, List.map_map]
    exact (order.perm p _).map _
  rw [hids.nodup_iff, List.nodup_map_iff_inj_on Std.ExtTreeMap.nodup_keys]
  intro v hmem w hmem' heq
  rw [Std.ExtTreeMap.mem_keys] at hmem hmem'
  exact ((TaskId.mk'_inj hp (hv v hmem) hp (hv w hmem')).mp heq).2

end CalculationData

namespace Dispatcher

variable {d d' : Dispatcher} {calcData : CalculationData} {p : ProblemId} {v : TaskId}
  {order : PassOrder}

theorem formTaskRequest_eq (h : d.problemIdToCalculationData[p]? = some calcData)
    (dependencies : List TaskId) :
    d.formTaskRequest p v dependencies = .ok (calcData.taskRequest p v dependencies) := by
  have hoperands : dependencies.mapM (d.formOperand p) =
      .ok (dependencies.map (calcData.operand p)) := by
    apply Result.mapM_eq_ok
    intro u _
    rw [formOperand, h, Result.ofLookup_some, Result.ok_bind, CalculationData.operand]
    cases calcData.taskToVariableId[u]? <;> rfl
  rw [formTaskRequest, h, Result.ofLookup_some, Result.ok_bind, hoperands]
  rfl

/-- **`SendComputableTasks` never throws.** It sends the requests of every problem. -/
theorem sendComputableTasks_eq (d : Dispatcher) (order : PassOrder) :
    d.sendComputableTasks order = .ok
      (d.problemIdToCalculationData.toList.flatMap
        fun (p, calcData) => calcData.taskRequests order p,
      { d with problemIdToCalculationData :=
          d.problemIdToCalculationData.map fun _ calcData => calcData.markSent }) := by
  have hrequests : d.problemIdToCalculationData.toList.mapM (d.formTaskRequests order) =
      .ok (d.problemIdToCalculationData.toList.map
        fun (p, calcData) => calcData.taskRequests order p) := by
    apply Result.mapM_eq_ok
    intro (p, calcData) hmem
    rw [Std.ExtTreeMap.mem_toList_iff_getElem?_eq_some] at hmem
    exact Result.mapM_eq_ok fun (v, dependencies) _ => formTaskRequest_eq hmem dependencies
  rw [sendComputableTasks, hrequests, Result.ok_bind, List.flatMap_def]

/-- The order of the pass is that of the requests, and tells nothing else. -/
theorem perm_sendComputableTasks {order' : PassOrder} {tasks tasks' : List Task}
    {d'' : Dispatcher} (h : d.sendComputableTasks order = .ok (tasks, d'))
    (h' : d.sendComputableTasks order' = .ok (tasks', d'')) : tasks.Perm tasks' ∧ d' = d'' := by
  rw [sendComputableTasks_eq] at h h'
  obtain ⟨rfl, rfl⟩ := Prod.mk.inj (Except.ok.inj h)
  obtain ⟨rfl, rfl⟩ := Prod.mk.inj (Except.ok.inj h')
  refine ⟨List.Perm.flatMap_left _ fun (p, calcData) _ => ?_, rfl⟩
  exact ((order.perm p _).trans (order'.perm p _).symm).map _

/-- The requests of one pass are those for the computable tasks. -/
theorem mem_sendComputableTasks {tasks : List Task}
    (h : d.sendComputableTasks order = .ok (tasks, d')) (t : Task) : t ∈ tasks ↔
      ∃ (p : ProblemId) (calcData : CalculationData) (v : TaskId) (dependencies : List TaskId),
        d.problemIdToCalculationData[p]? = some calcData ∧
          calcData.computableTaskToDependencies[v]? = some dependencies ∧
          t = calcData.taskRequest p v dependencies := by
  rw [sendComputableTasks_eq] at h
  obtain ⟨rfl, -⟩ := Prod.mk.inj (Except.ok.inj h)
  simp only [List.mem_flatMap, Prod.exists, Std.ExtTreeMap.mem_toList_iff_getElem?_eq_some,
    CalculationData.mem_taskRequests]
  constructor
  · rintro ⟨p, calcData, hcd, v, dependencies, hdeps, rfl⟩
    exact ⟨p, calcData, v, dependencies, hcd, hdeps, rfl⟩
  · rintro ⟨p, calcData, v, dependencies, hcd, hdeps, rfl⟩
    exact ⟨p, calcData, hcd, v, dependencies, hdeps, rfl⟩

theorem mem_map_id_sendComputableTasks {tasks : List Task} {id : Proto.TaskId}
    (h : d.sendComputableTasks order = .ok (tasks, d')) : id ∈ tasks.map (·.id) ↔
      ∃ (p : ProblemId) (calcData : CalculationData) (v : TaskId),
        d.problemIdToCalculationData[p]? = some calcData ∧
          v ∈ calcData.computableTaskToDependencies ∧ id = .mk' p v := by
  simp only [List.mem_map, mem_sendComputableTasks h]
  constructor
  · rintro ⟨_, ⟨p, calcData, v, dependencies, hcd, hdeps, rfl⟩, rfl⟩
    exact ⟨p, calcData, v, hcd, (Std.ExtTreeMap.getElem?_eq_some_iff.mp hdeps).1, rfl⟩
  · rintro ⟨p, calcData, v, hcd, hv, rfl⟩
    have hdeps := Std.ExtTreeMap.getElem?_eq_some_getElem hv
    exact ⟨_, ⟨p, calcData, v, _, hcd, hdeps, rfl⟩, rfl⟩

/-- The ids of the requests of one pass differ as long as they fit their fields. -/
theorem nodup_sendComputableTasks {tasks : List Task}
    (h : d.sendComputableTasks order = .ok (tasks, d'))
    (hfits : ∀ p calcData, d.problemIdToCalculationData[p]? = some calcData →
      p < 2 ^ 32 ∧ ∀ v ∈ calcData.computableTaskToDependencies, v < 2 ^ 32) :
    (tasks.map (·.id)).Nodup := by
  rw [sendComputableTasks_eq] at h
  obtain ⟨rfl, -⟩ := Prod.mk.inj (Except.ok.inj h)
  rw [List.map_flatMap, List.nodup_flatMap]
  constructor
  · rintro ⟨p, calcData⟩ hmem
    rw [Std.ExtTreeMap.mem_toList_iff_getElem?_eq_some] at hmem
    obtain ⟨hp, hv⟩ := hfits p calcData hmem
    exact CalculationData.nodup_taskRequests hp hv
  · apply d.problemIdToCalculationData.distinct_keys_toList.imp_of_mem
    rintro ⟨p, calcData⟩ ⟨p', calcData'⟩ hmem hmem' hne id hid hid'
    rw [Std.ExtTreeMap.mem_toList_iff_getElem?_eq_some] at hmem hmem'
    obtain ⟨hp, hv⟩ := hfits p calcData hmem
    obtain ⟨hp', hv'⟩ := hfits p' calcData' hmem'
    obtain ⟨t, ht, rfl⟩ := List.mem_map.mp hid
    obtain ⟨t', ht', heq⟩ := List.mem_map.mp hid'
    obtain ⟨v, deps, hdeps, rfl⟩ := CalculationData.mem_taskRequests.mp ht
    obtain ⟨v', deps', hdeps', rfl⟩ := CalculationData.mem_taskRequests.mp ht'
    have hin := (Std.ExtTreeMap.getElem?_eq_some_iff.mp hdeps).1
    have hin' := Std.ExtTreeMap.mem_iff_isSome_getElem?.mpr (Option.isSome_of_eq_some hdeps')
    have heq := (TaskId.mk'_inj hp' (hv' v' hin') hp (hv v hin)).mp heq
    exact hne (by simp [heq.1])

/-- What a reply can do: finish a problem, or complete one of its other tasks. -/
theorem updateComputableTasks_eq_ok {id : Proto.TaskId} : d.updateComputableTasks id = .ok d' ↔
    ∃ calcData last calcData',
      d.problemIdToCalculationData[id.problemId.toNat]? = some calcData ∧
      calcData.decompositor.lastTask = .ok last ∧
      calcData.complete id.taskId.toNat = .ok calcData' ∧
      ((id.taskId.toNat = last ∧ ∃ syncData,
          d.problemIdToSyncData[id.problemId.toNat]? = some syncData ∧
          d' = { d with
            problemIdToCalculationData :=
              d.problemIdToCalculationData.insert id.problemId.toNat calcData'
            problemIdToSyncData :=
              d.problemIdToSyncData.insert id.problemId.toNat { isComputed := true } }) ∨
        (id.taskId.toNat ≠ last ∧ d' = { d with
          problemIdToCalculationData :=
            d.problemIdToCalculationData.insert id.problemId.toNat calcData'.recompute })) := by
  unfold updateComputableTasks
  simp only [Result.bind_ok_iff, Result.ofLookup_eq_ok]
  constructor
  · rintro ⟨calcData, hcd, last, hlast, h⟩
    by_cases hid : id.taskId.toNat = last
    · rw [if_pos hid] at h
      simp only [notifyComputedProblem, Result.bind_ok_iff, Result.ofLookup_eq_ok, hcd,
        Option.some.injEq, exists_eq_left', Except.ok.injEq] at h
      obtain ⟨calcData', hc, syncData, hsync, rfl⟩ := h
      exact ⟨calcData, last, calcData', hcd, hlast, hc, .inl ⟨hid, syncData, hsync, rfl⟩⟩
    · rw [if_neg hid] at h
      simp only [updateComputableTasksImpl, Result.bind_ok_iff, Result.ofLookup_eq_ok, hcd,
        Option.some.injEq, exists_eq_left', Except.ok.injEq] at h
      obtain ⟨calcData', hc, rfl⟩ := h
      exact ⟨calcData, last, calcData', hcd, hlast, hc, .inr ⟨hid, rfl⟩⟩
  · rintro ⟨calcData, last, calcData', hcd, hlast, hc, ⟨hid, syncData, hsync, rfl⟩ | ⟨hid, rfl⟩⟩
    · refine ⟨calcData, hcd, last, hlast, ?_⟩
      rw [if_pos hid]
      simp [notifyComputedProblem, hcd, hc, hsync]
    · refine ⟨calcData, hcd, last, hlast, ?_⟩
      rw [if_neg hid]
      simp [updateComputableTasksImpl, hcd, hc]

end Dispatcher
end TaskDispatch
