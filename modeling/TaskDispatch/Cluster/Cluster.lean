import Mathlib
import TaskDispatch.Cluster.Evaluation
import TaskDispatch.Dispatch.ExactlyOnce

/-!
# Manager, workers and store together

Client threads in `Dispatcher::CalculateProblem`, the dispatcher thread, workers with a task each,
and the store they share. A step is what one party does between two points where another can come
in: a critical section of the dispatcher, one call to the store, a computation, a message sent or
taken. The broker is a relay that hands each request to some worker, and each answer to the
manager, at most once, in any order and after any delay; a message that is lost is one that is
never taken.

`ThreadPool::Poll` catches nothing: a task that throws or aborts ends the process of its worker, and
with it all tasks the worker has. So no step takes such a task further; a process that has ended
(`terminate`) takes none of its tasks further. They stay where they are, as do those it is handed
later, and a task whose answer has not left the process is one of them. The broker takes no second
worker with the same identity, so the first does not come back.

Seen from the dispatcher a run is one of `Exchange` (`exchange_runs`): what is in flight there is
here a request, a task on a worker, or an answer.
-/

set_option autoImplicit false

namespace TaskDispatch

open Proto Frontier Transition

/-! ## The parties -/

/-- How far `ThreadPool::CalculateTask` has come: the operands read so far, the result, or the
result written. -/
inductive Stage where
  | extracting (operands : List ExprResult)
  | calculated (exprResult : ExprResult)
  | written
  deriving DecidableEq, Repr

/-- A task on a worker. -/
structure Job where
  task : WorkerTask
  stage : Stage := .extracting []
  deriving DecidableEq, Repr

/-- The id the answer to a job will carry. -/
def Job.id (job : Job) : Proto.TaskId := job.task.task.id

/-- The key a job writes to. -/
def Job.key (job : Job) : DynamicRecordId :=
  ⟨.ofNat job.id.problemId.toNat, .ofNat job.id.taskId.toNat⟩

/-- How far `Dispatcher::CalculateProblem` has come after the push: waiting for the flag, erased
from the maps, the result read, and out again, by `return` or by an exception. -/
inductive Phase where
  | waiting
  | cleared
  | read (exprResult : ExprResult)
  | returned (exprResult : ExprResult)
  | threw (fault : Fault)
  deriving DecidableEq, Repr

/-- A call of `CalculateProblem` with its local variables. -/
structure Call where
  request : AstRequest
  problemId : ProblemId
  taskId : TaskDispatch.TaskId
  phase : Phase := .waiting

/-- `gone` are the workers whose process has ended. `sent` and `inserted` are histories: the
requests sent and the rows inserted, in order. -/
structure Cluster where
  dispatcher : Dispatcher := {}
  calls : List Call := []
  requests : Multiset Task := 0
  jobs : Multiset Job := 0
  replies : Multiset Proto.TaskId := 0
  gone : List String := []
  database : Database
  sent : List Task := []
  inserted : List DynamicRecordId := []

namespace Cluster

/-! ## The steps -/

inductive Action where
  | calculateProblem (request : AstRequest)
  | sendComputableTasks (order : PassOrder := .ascending)
  /-- The broker hands a request to the worker `identity`. -/
  | relay (identity : String) (task : Task)
  | readOperand (job : Job)
  | calculate (job : Job)
  | writeDynamicData (job : Job)
  | reply (job : Job)
  /-- The process of the worker `identity` ends. -/
  | terminate (identity : String)
  | updateComputableTasks (id : Proto.TaskId)
  | clearProblem (call : ℕ)
  | readData (call : ℕ)
  | clearIntermediateCalculations (call : ℕ)

/-- A worker has the job, and its process is there. -/
def Active (s : Cluster) (job : Job) : Prop := job ∈ s.jobs ∧ job.task.identity ∉ s.gone

instance (s : Cluster) (job : Job) : Decidable (s.Active job) :=
  inferInstanceAs (Decidable (_ ∧ _))

/-- A job moves on to a stage. -/
def advance (s : Cluster) (job : Job) (stage : Stage) : Cluster :=
  { s with jobs := { job with stage } ::ₘ s.jobs.erase job }

/-- A call moves on to a phase. -/
def setPhase (s : Cluster) (i : ℕ) (phase : Phase) : Cluster :=
  { s with calls := s.calls.modify i fun call => { call with phase } }

def step (s : Cluster) : Action → Option Cluster
  | .calculateProblem request =>
    match CalculationData.new request.ast with
    | .error _ => some s
    | .ok calcData => do
      let (problemId, dispatcher) := s.dispatcher.pushProblem calcData {}
      let taskId ← calcData.decompositor.lastTask.toOption
      some { s with dispatcher, calls := s.calls ++ [{ request, problemId, taskId }] }
  | .sendComputableTasks order => do
    let (tasks, dispatcher) ← (s.dispatcher.sendComputableTasks order).toOption
    some { s with dispatcher, requests := s.requests + tasks, sent := s.sent ++ tasks }
  | .relay identity task =>
    if task ∈ s.requests then
      some { s with
        requests := s.requests.erase task
        jobs := { task := { identity, task } } ::ₘ s.jobs }
    else none
  | .readOperand job =>
    match job.stage with
    | .extracting operands =>
      if s.Active job then do
        let operand ← job.task.task.operands[operands.length]?
        let exprResult ← (ThreadPool.readOperand s.database operand).toOption
        some (s.advance job (.extracting (operands ++ [exprResult])))
      else none
    | _ => none
  | .calculate job =>
    match job.stage with
    | .extracting operands =>
      if s.Active job ∧ operands.length = job.task.task.operands.length then do
        let exprResult ← (ThreadPool.calculate job.task operands).toOption
        some (s.advance job (.calculated exprResult))
      else none
    | _ => none
  | .writeDynamicData job =>
    match job.stage with
    | .calculated exprResult =>
      if s.Active job then
        some { s.advance job .written with
          database := ThreadPool.writeResult s.database job.task exprResult
          inserted := if s.database.select job.key = none then s.inserted ++ [job.key]
            else s.inserted }
      else none
    | _ => none
  | .reply job =>
    if s.Active job ∧ job.stage = .written then
      some { s with
        jobs := s.jobs.erase job
        replies := (ThreadPool.response job.task).id ::ₘ s.replies }
    else none
  | .terminate identity => some { s with gone := identity :: s.gone }
  | .updateComputableTasks id =>
    if id ∈ s.replies then do
      let dispatcher ← (s.dispatcher.updateComputableTasks id).toOption
      some { s with dispatcher, replies := s.replies.erase id }
    else none
  | .clearProblem i => do
    let call ← s.calls[i]?
    let isComputed ← (s.dispatcher.isComputed call.problemId).toOption
    if call.phase = .waiting ∧ isComputed then
      some { s.setPhase i .cleared with
        dispatcher := s.dispatcher.clearProblem call.problemId }
    else none
  | .readData i => do
    let call ← s.calls[i]?
    if call.phase = .cleared then
      match DatabaseClient.readData s.database (.dynRecordId call.problemId call.taskId) with
      | .ok exprResult => some (s.setPhase i (.read exprResult))
      | .error fault => some (s.setPhase i (.threw fault))
    else none
  | .clearIntermediateCalculations i => do
    let call ← s.calls[i]?
    match call.phase with
    | .read exprResult =>
      some { s.setPhase i (.returned exprResult) with
        database := DatabaseClient.clearIntermediateCalculations s.database call.problemId }
    | _ => none

/-- A manager that starts on this store, with nothing under way. -/
def start (database : Database) : Cluster := { database }

/-- The access to the variables, which no step changes. -/
def read (s : Cluster) (identifier : VariableId) : Result ExprResult :=
  DatabaseClient.readData s.database (.identifier identifier)

/-! ## The dispatcher's view -/

/-- The request a problem id was given to. -/
def origin (s : Cluster) (p : ProblemId) : Option AstRequest := s.calls[p]?.map (·.request)

/-- The exchange between dispatcher and broker. -/
def exchange (s : Cluster) : Exchange where
  dispatcher := s.dispatcher
  origin := s.origin
  submitted := s.calls.length
  sent := s.sent
  inFlight := s.requests.map (·.id) + s.jobs.map Job.id + s.replies

/-! ## What each step does -/

section Steps

variable {s s' : Cluster} {request : AstRequest} {identity : String} {task : Task} {job : Job}
  {id : Proto.TaskId} {i : ℕ} {order : PassOrder}

theorem step_calculateProblem : step s (.calculateProblem request) = some s' ↔
    (∃ fault, CalculationData.new request.ast = .error fault ∧ s' = s) ∨
      ∃ calcData, CalculationData.new request.ast = .ok calcData ∧
        s' = { s with
          dispatcher := (s.dispatcher.pushProblem calcData {}).2
          calls := s.calls ++ [{
            request
            problemId := s.dispatcher.problemId
            taskId := request.ast.dag.root }] } := by
  cases hnew : CalculationData.new request.ast with
  | error fault => simp [step, hnew, eq_comm]
  | ok calcData =>
    have hlast : calcData.decompositor.lastTask = .ok request.ast.dag.root := by
      rw [(CalculationData.Tracks.new hnew).decompositor_eq, AST.lastTask_decompositor]
    simp only [step, hnew, hlast, reduceCtorEq, false_and, exists_false, false_or, Except.ok.injEq,
      exists_eq_left', bind, Except.toOption, Option.bind_some, Option.some.injEq,
      eq_comm (b := s')]
    rfl

theorem step_sendComputableTasks : step s (.sendComputableTasks order) = some s' ↔
    ∃ tasks dispatcher, s.dispatcher.sendComputableTasks order = .ok (tasks, dispatcher) ∧
      s' = { s with dispatcher, requests := s.requests + tasks, sent := s.sent ++ tasks } := by
  simp [step, Option.bind_eq_some_iff, eq_comm (a := s')]

theorem step_relay : step s (.relay identity task) = some s' ↔ task ∈ s.requests ∧
    s' = { s with
      requests := s.requests.erase task
      jobs := { task := { identity, task } } ::ₘ s.jobs } := by
  simp [step, eq_comm (a := s')]

theorem step_readOperand : step s (.readOperand job) = some s' ↔
    ∃ operands operand exprResult, job.stage = .extracting operands ∧ s.Active job ∧
      job.task.task.operands[operands.length]? = some operand ∧
      ThreadPool.readOperand s.database operand = .ok exprResult ∧
      s' = s.advance job (.extracting (operands ++ [exprResult])) := by
  cases h : job.stage with
  | extracting operands =>
    simp [step, h, Option.bind_eq_some_iff, eq_comm (a := s')]
  | _ => simp [step, h]

theorem step_calculate : step s (.calculate job) = some s' ↔
    ∃ operands exprResult, job.stage = .extracting operands ∧ s.Active job ∧
      operands.length = job.task.task.operands.length ∧
      ThreadPool.calculate job.task operands = .ok exprResult ∧
      s' = s.advance job (.calculated exprResult) := by
  cases h : job.stage with
  | extracting operands =>
    simp [step, h, Option.bind_eq_some_iff, and_assoc, eq_comm (a := s')]
  | _ => simp [step, h]

theorem step_writeDynamicData : step s (.writeDynamicData job) = some s' ↔
    ∃ exprResult, job.stage = .calculated exprResult ∧ s.Active job ∧
      s' = { s.advance job .written with
        database := ThreadPool.writeResult s.database job.task exprResult
        inserted := if s.database.select job.key = none then s.inserted ++ [job.key]
          else s.inserted } := by
  cases h : job.stage with
  | calculated exprResult => simp [step, h, eq_comm (a := s')]
  | _ => simp [step, h]

theorem step_reply : step s (.reply job) = some s' ↔ s.Active job ∧ job.stage = .written ∧
    s' = { s with jobs := s.jobs.erase job, replies := job.id ::ₘ s.replies } := by
  simp [step, and_assoc, ThreadPool.response, Job.id, eq_comm (a := s')]

theorem step_terminate : step s (.terminate identity) = some s' ↔
    s' = { s with gone := identity :: s.gone } := by
  simp [step, eq_comm (a := s')]

theorem step_updateComputableTasks : step s (.updateComputableTasks id) = some s' ↔
    id ∈ s.replies ∧ ∃ dispatcher, s.dispatcher.updateComputableTasks id = .ok dispatcher ∧
      s' = { s with dispatcher, replies := s.replies.erase id } := by
  simp [step, Option.bind_eq_some_iff, eq_comm (a := s')]

theorem step_clearProblem : step s (.clearProblem i) = some s' ↔
    ∃ call, s.calls[i]? = some call ∧ call.phase = .waiting ∧
      s.dispatcher.problemIdToSyncData[call.problemId]? = some { isComputed := true } ∧
      s' = { s.setPhase i .cleared with
        dispatcher := s.dispatcher.clearProblem call.problemId } := by
  cases hcall : s.calls[i]? with
  | none => simp [step, hcall]
  | some call =>
    rcases h : s.dispatcher.problemIdToSyncData[call.problemId]? with _ | ⟨_ | _⟩ <;>
      simp [step, hcall, Dispatcher.isComputed, h, Except.toOption, bind, Except.bind,
        Result.ofLookup, eq_comm (a := s')]

theorem step_readData : step s (.readData i) = some s' ↔
    ∃ call, s.calls[i]? = some call ∧ call.phase = .cleared ∧
      ((∃ exprResult,
          DatabaseClient.readData s.database (.dynRecordId call.problemId call.taskId) =
            .ok exprResult ∧ s' = s.setPhase i (.read exprResult)) ∨
        ∃ fault,
          DatabaseClient.readData s.database (.dynRecordId call.problemId call.taskId) =
            .error fault ∧ s' = s.setPhase i (.threw fault)) := by
  cases hcall : s.calls[i]? with
  | none => simp [step, hcall]
  | some call =>
    cases h : DatabaseClient.readData s.database (.dynRecordId call.problemId call.taskId) <;>
      simp [step, hcall, h, eq_comm (a := s')]

theorem step_clearIntermediateCalculations :
    step s (.clearIntermediateCalculations i) = some s' ↔
      ∃ call exprResult, s.calls[i]? = some call ∧ call.phase = .read exprResult ∧
        s' = { s.setPhase i (.returned exprResult) with
          database :=
            DatabaseClient.clearIntermediateCalculations s.database call.problemId } := by
  cases hcall : s.calls[i]? with
  | none => simp [step, hcall]
  | some call => cases h : call.phase <;> simp [step, hcall, h, eq_comm (a := s')]

/-! ## Simulation -/

/-- What is in flight does not change when a job moves on. -/
theorem map_id_advance {stage : Stage} (hjob : job ∈ s.jobs) :
    (s.advance job stage).jobs.map Job.id = s.jobs.map Job.id := by
  obtain ⟨rest, hrest⟩ := Multiset.exists_cons_of_mem hjob
  simp [advance, hrest, Job.id]

theorem getElem?_setPhase {phase : Phase} (p : ℕ) :
    (s.setPhase i phase).calls[p]? =
      s.calls[p]?.map fun call => if i = p then { call with phase } else call := by
  rw [setPhase, List.getElem?_modify]
  by_cases hip : i = p <;> simp [hip]

@[simp] theorem length_setPhase {phase : Phase} :
    (s.setPhase i phase).calls.length = s.calls.length := by
  rw [setPhase, List.length_modify]

/-- After a call has moved on, a call is that one or an old one. -/
theorem of_getElem?_setPhase {phase : Phase} {call call' : Call} {p : ℕ}
    (hcall : s.calls[i]? = some call) (hcall' : (s.setPhase i phase).calls[p]? = some call') :
    (p = i ∧ call' = { call with phase }) ∨ (p ≠ i ∧ s.calls[p]? = some call') := by
  rw [getElem?_setPhase, Option.map_eq_some_iff] at hcall'
  obtain ⟨call₀, hcall₀, rfl⟩ := hcall'
  by_cases hip : i = p
  · subst hip
    obtain rfl := Option.some.inj (hcall.symm.trans hcall₀)
    exact .inl ⟨rfl, if_pos rfl⟩
  · exact .inr ⟨Ne.symm hip, by rw [if_neg hip, hcall₀]⟩

theorem origin_setPhase {phase : Phase} : (s.setPhase i phase).origin = s.origin := by
  funext p
  rw [origin, getElem?_setPhase, origin]
  cases s.calls[p]? with
  | none => rfl
  | some call => by_cases hip : i = p <;> simp [hip]

/-- A step the dispatcher takes no part in. -/
theorem exchange_eq (hd : s'.dispatcher = s.dispatcher)
    (horigin : s'.origin = s.origin) (hlength : s'.calls.length = s.calls.length)
    (hsent : s'.sent = s.sent)
    (hinFlight : s'.requests.map (·.id) + s'.jobs.map Job.id + s'.replies =
      s.requests.map (·.id) + s.jobs.map Job.id + s.replies) :
    s'.exchange = s.exchange := by
  simp only [exchange, hd, horigin, hlength, hsent, hinFlight]

theorem exchange_setPhase {phase : Phase} : (s.setPhase i phase).exchange = s.exchange :=
  exchange_eq rfl origin_setPhase length_setPhase rfl rfl

/-- The new problem's id is the number of calls before it. -/
theorem exchange_push (h : s.exchange.Accounted) {calcData : CalculationData}
    (hnew : CalculationData.new request.ast = .ok calcData)
    (hs' : s' = { s with
      dispatcher := (s.dispatcher.pushProblem calcData {}).2
      calls := s.calls ++ [{
        request, problemId := s.dispatcher.problemId, taskId := request.ast.dag.root }] }) :
    Exchange.step s.exchange (.pushProblem request) = some s'.exchange := by
  have hid : s.dispatcher.problemId = s.calls.length := h.problemId_eq
  have horigin : s'.origin = Function.update s.origin s.dispatcher.problemId (some request) := by
    funext p
    rw [Function.update_apply, hid, hs', origin, origin]
    by_cases hp : p = s.calls.length
    · simp [hp]
    · by_cases hlt : p < s.calls.length
      · simp [hp, List.getElem?_append_left hlt]
      · have hgt : s.calls.length < p := lt_of_le_of_ne (not_lt.mp hlt) (Ne.symm hp)
        simp [hp, hgt, hgt.le]
  refine Exchange.step_push.mpr ⟨calcData, hnew, ?_⟩
  rw [if_neg h.problemId_notMem, exchange, horigin, hs', List.length_append]
  rfl

/-- What a submission adds: a call under the next id, and its problem. -/
theorem calculateProblem_spec (h : s.exchange.Accounted) (hlt : s'.calls.length ≤ 2 ^ 32)
    {calcData : CalculationData} (hnew : CalculationData.new request.ast = .ok calcData)
    (hs' : s' = { s with
      dispatcher := (s.dispatcher.pushProblem calcData {}).2
      calls := s.calls ++ [{
        request
        problemId := s.dispatcher.problemId
        taskId := request.ast.dag.root }] }) :
    s'.origin = Function.update s.origin s.calls.length (some request) ∧
      (∀ q : ProblemId, s'.dispatcher.problemIdToCalculationData[q]? =
        if q = s.calls.length then some calcData
        else s.dispatcher.problemIdToCalculationData[q]?) ∧
      ∀ {p call}, s'.calls[p]? = some call →
        (p ≠ s.calls.length ∧ s.calls[p]? = some call) ∨ (p = s.calls.length ∧
          call = { request, problemId := p, taskId := request.ast.dag.root }) := by
  obtain ⟨calcData', hnew', -, -, horigin, hentries, -⟩ :=
    h.push_spec hlt (exchange_push h hnew hs')
  obtain rfl := Except.ok.inj (hnew.symm.trans hnew')
  have hid : s.dispatcher.problemId = s.calls.length := h.problemId_eq
  refine ⟨horigin, hentries, ?_⟩
  intro p call hp
  rw [hs', List.getElem?_append] at hp
  by_cases hlt : p < s.calls.length
  · rw [if_pos hlt] at hp
    exact .inl ⟨hlt.ne, hp⟩
  · -- past the old calls there is only the new one
    rw [if_neg hlt, List.getElem?_singleton] at hp
    have heq : p = s.calls.length := by
      split_ifs at hp
      omega
    subst heq
    rw [Nat.sub_self, if_pos rfl, hid] at hp
    exact .inr ⟨rfl, (Option.some.inj hp).symm⟩

theorem exchange_send (hstep : step s (.sendComputableTasks order) = some s') :
    Exchange.step s.exchange (.sendComputableTasks order) = some s'.exchange := by
  obtain ⟨tasks, dispatcher, hsend, rfl⟩ := step_sendComputableTasks.mp hstep
  refine Exchange.step_send.mpr ⟨tasks, dispatcher, hsend, ?_⟩
  simp [exchange, add_right_comm]
  rfl

theorem exchange_update (hstep : step s (.updateComputableTasks id) = some s') :
    Exchange.step s.exchange (.updateComputableTasks id) = some s'.exchange := by
  obtain ⟨hid, dispatcher, hupdate, rfl⟩ := step_updateComputableTasks.mp hstep
  refine Exchange.step_update.mpr ⟨Multiset.mem_add.mpr (.inr hid), dispatcher, hupdate, ?_⟩
  simp only [exchange, Multiset.erase_add_right_pos _ hid]
  rfl

theorem exchange_clear {call : Call} (hcall : s.calls[i]? = some call)
    (hstep : step s (.clearProblem i) = some s') :
    Exchange.step s.exchange (.clearProblem call.problemId) = some s'.exchange := by
  obtain ⟨_, hcall', -, hsync, rfl⟩ := step_clearProblem.mp hstep
  obtain rfl := Option.some.inj (hcall.symm.trans hcall')
  refine Exchange.step_clear.mpr ⟨hsync, ?_⟩
  have hexchange : (s.setPhase i .cleared).exchange = s.exchange := exchange_setPhase
  rw [← hexchange]
  rfl

/-- A step the dispatcher does not see. -/
theorem runs_of_exchange_eq (h : s'.exchange = s.exchange) :
    ∃ actions, Runs Exchange.step s.exchange actions s'.exchange :=
  ⟨[], Runs.nil_iff.mpr h.symm⟩

/-- **The dispatcher sees a run of `Exchange`**: every step is one of its own or invisible. -/
theorem exchange_step {a : Action} (h : s.exchange.Accounted) (hstep : step s a = some s') :
    ∃ actions, Runs Exchange.step s.exchange actions s'.exchange := by
  cases a with
  | calculateProblem request =>
    rcases step_calculateProblem.mp hstep with ⟨_, -, rfl⟩ | ⟨calcData, hnew, hs'⟩
    · exact runs_of_exchange_eq rfl
    · exact ⟨_, Runs.single (exchange_push h hnew hs')⟩
  | sendComputableTasks => exact ⟨_, Runs.single (exchange_send hstep)⟩
  | relay identity task =>
    obtain ⟨htask, rfl⟩ := step_relay.mp hstep
    obtain ⟨rest, hrest⟩ := Multiset.exists_cons_of_mem htask
    apply runs_of_exchange_eq
    refine exchange_eq rfl rfl rfl rfl ?_
    simp [hrest, Job.id]
  | readOperand job =>
    obtain ⟨_, _, _, -, hjob, -, -, rfl⟩ := step_readOperand.mp hstep
    exact runs_of_exchange_eq (exchange_eq rfl rfl rfl rfl (by rw [map_id_advance hjob.1]; rfl))
  | calculate job =>
    obtain ⟨_, _, -, hjob, -, -, rfl⟩ := step_calculate.mp hstep
    exact runs_of_exchange_eq (exchange_eq rfl rfl rfl rfl (by rw [map_id_advance hjob.1]; rfl))
  | writeDynamicData job =>
    obtain ⟨_, -, hjob, rfl⟩ := step_writeDynamicData.mp hstep
    apply runs_of_exchange_eq
    refine exchange_eq rfl rfl rfl rfl ?_
    simp only [map_id_advance hjob.1]
    rfl
  | reply job =>
    obtain ⟨hjob, -, rfl⟩ := step_reply.mp hstep
    obtain ⟨rest, hrest⟩ := Multiset.exists_cons_of_mem hjob.1
    apply runs_of_exchange_eq
    refine exchange_eq rfl rfl rfl rfl ?_
    simp [hrest]
  | terminate identity =>
    obtain rfl := step_terminate.mp hstep
    exact runs_of_exchange_eq rfl
  | updateComputableTasks id => exact ⟨_, Runs.single (exchange_update hstep)⟩
  | clearProblem i =>
    obtain ⟨call, hcall, -⟩ := step_clearProblem.mp hstep
    exact ⟨_, Runs.single (exchange_clear hcall hstep)⟩
  | readData i =>
    obtain ⟨call, hcall, -, ⟨_, -, rfl⟩ | ⟨_, -, rfl⟩⟩ := step_readData.mp hstep
    · exact runs_of_exchange_eq exchange_setPhase
    · exact runs_of_exchange_eq exchange_setPhase
  | clearIntermediateCalculations i =>
    obtain ⟨call, _, hcall, -, rfl⟩ := step_clearIntermediateCalculations.mp hstep
    exact runs_of_exchange_eq (exchange_setPhase (s := s))

/-! ## What every step leaves -/

/-- Calls stay but for their phase, and a call that has returned stays altogether; the variables
stay; rows are inserted by a write. -/
structure Frame (s : Cluster) (a : Action) (s' : Cluster) : Prop where
  calls : ∀ (p : ProblemId) (call : Call), s.calls[p]? = some call → ∃ phase,
    s'.calls[p]? = some { call with phase } ∧ ∀ r, call.phase = .returned r → phase = .returned r
  staticData : s'.database.staticData = s.database.staticData
  inserted : s'.inserted = s.inserted ∨ ∃ job, a = .writeDynamicData job

/-- A step no call moves in. -/
theorem Frame.of_calls {a : Action} (hcalls : s'.calls = s.calls)
    (hstatic : s'.database.staticData = s.database.staticData)
    (hinserted : s'.inserted = s.inserted ∨ ∃ job, a = .writeDynamicData job) : Frame s a s' where
  calls p call hcall := ⟨call.phase, by rw [hcalls, hcall], fun _ h => h⟩
  staticData := hstatic
  inserted := hinserted

/-- A step in which a call moves on that has not returned. -/
theorem Frame.of_setPhase {a : Action} {phase : Phase} {call : Call}
    (hcall : s.calls[i]? = some call) (hphase : ∀ r, call.phase ≠ .returned r)
    (hcalls : s'.calls = (s.setPhase i phase).calls)
    (hstatic : s'.database.staticData = s.database.staticData)
    (hinserted : s'.inserted = s.inserted) : Frame s a s' where
  calls p call' hcall' := by
    rw [hcalls, getElem?_setPhase, hcall', Option.map_some]
    by_cases hip : i = p
    · subst hip
      obtain rfl := Option.some.inj (hcall.symm.trans hcall')
      exact ⟨phase, by rw [if_pos rfl], fun r h => absurd h (hphase r)⟩
    · exact ⟨call'.phase, by rw [if_neg hip], fun _ h => h⟩
  staticData := hstatic
  inserted := .inl hinserted

theorem step_frame {a : Action} (hstep : step s a = some s') : Frame s a s' := by
  cases a with
  | calculateProblem request =>
    rcases step_calculateProblem.mp hstep with ⟨_, -, rfl⟩ | ⟨calcData, hnew, rfl⟩
    · exact .of_calls rfl rfl (.inl rfl)
    · refine ⟨fun p call hcall => ⟨call.phase, ?_, fun _ h => h⟩, rfl, .inl rfl⟩
      have hlt : p < s.calls.length := (List.getElem?_eq_some_iff.mp hcall).1
      exact (List.getElem?_append_left hlt).trans hcall
  | sendComputableTasks =>
    obtain ⟨_, _, -, rfl⟩ := step_sendComputableTasks.mp hstep
    exact .of_calls rfl rfl (.inl rfl)
  | relay identity task =>
    obtain ⟨-, rfl⟩ := step_relay.mp hstep
    exact .of_calls rfl rfl (.inl rfl)
  | readOperand job =>
    obtain ⟨_, _, _, -, -, -, -, rfl⟩ := step_readOperand.mp hstep
    exact .of_calls rfl rfl (.inl rfl)
  | calculate job =>
    obtain ⟨_, _, -, -, -, -, rfl⟩ := step_calculate.mp hstep
    exact .of_calls rfl rfl (.inl rfl)
  | writeDynamicData job =>
    obtain ⟨_, -, -, rfl⟩ := step_writeDynamicData.mp hstep
    exact .of_calls rfl DatabaseClient.staticData_writeDynamicData (.inr ⟨job, rfl⟩)
  | reply job =>
    obtain ⟨-, -, rfl⟩ := step_reply.mp hstep
    exact .of_calls rfl rfl (.inl rfl)
  | terminate identity =>
    obtain rfl := step_terminate.mp hstep
    exact .of_calls rfl rfl (.inl rfl)
  | updateComputableTasks id =>
    obtain ⟨-, _, -, rfl⟩ := step_updateComputableTasks.mp hstep
    exact .of_calls rfl rfl (.inl rfl)
  | clearProblem i =>
    obtain ⟨call, hcall, hphase, -, rfl⟩ := step_clearProblem.mp hstep
    exact .of_setPhase hcall (by simp [hphase]) rfl rfl rfl
  | readData i =>
    obtain ⟨call, hcall, hphase, ⟨_, -, rfl⟩ | ⟨_, -, rfl⟩⟩ := step_readData.mp hstep
    · exact .of_setPhase hcall (by simp [hphase]) rfl rfl rfl
    · exact .of_setPhase hcall (by simp [hphase]) rfl rfl rfl
  | clearIntermediateCalculations i =>
    obtain ⟨call, _, hcall, hphase, rfl⟩ := step_clearIntermediateCalculations.mp hstep
    exact .of_setPhase hcall (by simp [hphase]) rfl
      DatabaseClient.staticData_clearIntermediateCalculations rfl

/-- The requests so far keep their ids. -/
theorem origin_step {a : Action} (hstep : step s a = some s') :
    s.calls.length ≤ s'.calls.length ∧
      ∀ p request, s.origin p = some request → s'.origin p = some request := by
  have hcalls := (step_frame hstep).calls
  constructor
  · apply le_of_not_gt
    intro hlt
    -- the first call that were gone
    obtain ⟨_, hcall, -⟩ := hcalls _ _ (List.getElem?_eq_getElem hlt)
    exact lt_irrefl _ (List.getElem?_eq_some_iff.mp hcall).1
  · intro p request hp
    obtain ⟨call, hcall, rfl⟩ := Option.map_eq_some_iff.mp hp
    obtain ⟨_, hcall', -⟩ := hcalls p call hcall
    rw [origin, hcall']
    rfl

/-- **Every run is a run of `Exchange`** to the dispatcher, as long as the ids tell the problems
apart. -/
theorem exchange_runs {db : Database} {actions : List Action}
    (hrun : Runs step (start db) actions s) (hlt : s.calls.length < 2 ^ 32) :
    s.exchange.Accounted ∧ ∃ actions', Runs Exchange.step {} actions' s.exchange := by
  have hstart : (start db).exchange = {} := rfl
  rw [← hstart]
  refine hrun.simulates (P := fun s => s.calls.length < 2 ^ 32)
    (I := fun s => s.exchange.Accounted) ?_ Exchange.Accounted.init ?_ hlt
  · intro s₁ a s₂ hstep hlt
    exact (origin_step hstep).1.trans_lt hlt
  · intro s₁ a s₂ h hlt hstep
    obtain ⟨actions', hruns⟩ := exchange_step h hstep
    exact ⟨h.runs hruns hlt.le, actions', hruns⟩

/-! ## A task that nothing comes between -/

/-- A worker takes a task, reads these operands, and goes on with this result to the answer. -/
def wholeTask (identity : String) (task : Task) (operands : List ExprResult)
    (exprResult : ExprResult) : List Action :=
  let job (stage : Stage) : Job := { task := { identity, task }, stage }
  .relay identity task ::
    (List.range operands.length).map (fun k => .readOperand (job (.extracting (operands.take k))))
    ++ [.calculate (job (.extracting operands)), .writeDynamicData (job (.calculated exprResult)),
      .reply (job .written)]

/-- The reads of a job, one after the other. -/
theorem runs_readOperand {rest : Multiset Job} (halive : identity ∉ s.gone)
    (hjobs : s.jobs = { task := { identity, task } } ::ₘ rest)
    {operands : List ExprResult}
    (hread : ThreadPool.extractOperands s.database { identity, task } = .ok operands) :
    ∀ k ≤ operands.length, Runs step s
      ((List.range k).map fun k => .readOperand
        { task := { identity, task }, stage := .extracting (operands.take k) })
      { s with jobs :=
          { task := { identity, task }, stage := .extracting (operands.take k) } ::ₘ rest } := by
  have hall := Result.mapM_ok_iff.mp hread
  intro k
  induction k with
  | zero =>
    intro _
    rw [List.range_zero, List.map_nil, List.take_zero, ← hjobs]
    exact Runs.refl step s
  | succ k ih =>
    intro hk
    have hlt : k < task.operands.length := hall.length_eq ▸ hk
    rw [List.range_succ, List.map_append]
    refine (ih (Nat.le_of_succ_le hk)).trans (Runs.single (step_readOperand.mpr ?_))
    refine ⟨operands.take k, task.operands[k], operands[k], rfl,
      ⟨Multiset.mem_cons_self _ _, halive⟩, ?_,
      hall.get hlt hk, ?_⟩
    · rw [List.length_take, min_eq_left (Nat.le_of_succ_le hk)]
      exact List.getElem?_eq_getElem hlt
    · rw [advance, Multiset.erase_cons_head, List.take_append_getElem hk]

/-- **Undisturbed, the stages of a job are `ThreadPool::CalculateTask`.** -/
theorem runs_wholeTask (halive : identity ∉ s.gone) (htask : task ∈ s.requests)
    {database : Database} {response : WorkerTaskId}
    (h : ThreadPool.calculateTask s.database { identity, task } = .ok (database, response)) :
    ∃ operands exprResult inserted,
      Runs step s (wholeTask identity task operands exprResult) { s with
        requests := s.requests.erase task
        replies := response.id ::ₘ s.replies
        database
        inserted } := by
  simp only [ThreadPool.calculateTask, Result.bind_ok_iff, Except.ok.injEq, Prod.mk.injEq] at h
  obtain ⟨operands, hread, exprResult, hcalculate, rfl, rfl⟩ := h
  have hlength := (Result.mapM_ok_iff.mp hread).length_eq
  let key := Job.key { task := { identity, task } }
  refine ⟨operands, exprResult,
    if s.database.select key = none then s.inserted ++ [key] else s.inserted, ?_⟩
  let s₁ : Cluster := { s with
    requests := s.requests.erase task
    jobs := { task := { identity, task } } ::ₘ s.jobs }
  have hrelay : step s (.relay identity task) = some s₁ := step_relay.mpr ⟨htask, rfl⟩
  have hreads := runs_readOperand (s := s₁) halive rfl hread operands.length le_rfl
  rw [List.take_length] at hreads
  refine (Runs.cons_iff.mpr ⟨s₁, hrelay, hreads⟩).trans ?_
  refine Runs.cons_iff.mpr ⟨_, step_calculate.mpr ⟨operands, exprResult, rfl,
    ⟨Multiset.mem_cons_self _ _, halive⟩, hlength.symm, hcalculate, rfl⟩, ?_⟩
  refine Runs.cons_iff.mpr ⟨_, step_writeDynamicData.mpr ⟨exprResult, rfl, ?_, rfl⟩, ?_⟩
  · exact ⟨Multiset.mem_cons_self _ _, halive⟩
  refine Runs.single (step_reply.mpr ⟨⟨Multiset.mem_cons_self _ _, halive⟩, rfl, ?_⟩)
  simp only [advance, Multiset.erase_cons_head]
  rfl

end Steps
end Cluster
end TaskDispatch
