import Mathlib
import TaskDispatch.Cluster.Exits

/-!
# When nothing arrives as it should

In `Cluster` and `Exits` a message arrives at most once, and an answer is one that a worker gave.
Here neither is so. A request that was sent may arrive any number of times, at any time and at any
worker; a worker may be gone with its job; the dispatcher may be told of any task at all that it is
completed; and any call to the store may fail.

A call may then wait for ever, and it may throw. What it returns is the value of its tree all the
same, and no row under its id ever holds anything else (`returned_eq_eval`). For that it is not
needed that a task is sent after the tasks it depends on have been completed: where they have not,
there is no row, and a worker that reads a row that is not there gets an exception and not a value.
-/

set_option autoImplicit false

namespace TaskDispatch

open Proto Frontier Transition

namespace Unreliable

open Cluster

/-! ## The steps -/

inductive Action where
  /-- Something that is as it should be, but that a call to the store may fail. -/
  | regular (action : Exits.Action)
  /-- A request that was sent reaches the worker `identity`, be it for the first time or not. -/
  | deliver (identity : String) (task : Task)
  /-- A worker is gone. -/
  | crash (job : Job)
  /-- The dispatcher reads an answer, wherever that is from. -/
  | answer (id : Proto.TaskId)

def step (s : Cluster) : Action → Option Cluster
  | .regular action => Exits.step s action
  | .deliver identity task =>
    if task ∈ s.sent then some { s with jobs := { task := { identity, task } } ::ₘ s.jobs }
    else none
  | .crash job => some { s with jobs := s.jobs.erase job }
  | .answer id => do
    let dispatcher ← (s.dispatcher.updateComputableTasks id).toOption
    some { s with dispatcher }

/-! ## What is to hold -/

/-- Every row under the id holds the value of its vertex. -/
def RowsRight (read : VariableId → Result ExprResult) (db : Database) (request : AstRequest)
    (p : ProblemId) : Prop :=
  ∀ v < request.ast.vertexCount, ∀ field, db.select ⟨.ofNat p, .ofNat v⟩ = some field →
    ∃ r, request.ast.valueAt read v = .ok r ∧ field = DatabaseClient.toField r

/-- What a worker has for a vertex so far is right. -/
def StageRight (read : VariableId → Result ExprResult) (request : AstRequest)
    (v : TaskDispatch.TaskId) : Stage → Prop
  | .extracting operands =>
    List.Forall₂ (fun u r => request.ast.valueAt read u = .ok r)
      ((request.ast.dag.deps v).take operands.length) operands
  | .calculated r => request.ast.valueAt read v = .ok r
  | .written => True

/-- What a call has so far is right. -/
def PhaseRight (read : VariableId → Result ExprResult) (request : AstRequest) : Phase → Prop
  | .read r | .returned r => request.ast.root.eval read = .ok r
  | .waiting | .cleared | .threw _ => True

/-- A job is for an operator of a submitted problem, and what it has so far is right if the rows
under the id were right at the start. -/
def JobRight (db₀ : Database) (s : Cluster) (job : Job) : Prop :=
  ∃ p request v, OperatorOf s.origin p request v ∧ job.task.task = request.ast.taskRequest p v ∧
    (RowsRight (start db₀).read db₀ request p →
      StageRight (start db₀).read request v job.stage)

/-- The invariant, for a run that starts on the store `db₀`. -/
structure Genuine (db₀ : Database) (s : Cluster) : Prop where
  tracked : s.exchange.Tracked
  problemId_eq : s.dispatcher.problemId = s.calls.length
  static : s.database.staticData = db₀.staticData
  call : ∀ (i : ℕ) (call : Call), s.calls[i]? = some call →
    call.problemId = i ∧ call.taskId = call.request.ast.dag.root
  later : ∀ id, s.calls.length ≤ id.problemId.toNat → s.database.select id = db₀.select id
  rows : ∀ p request, s.origin p = some request → RowsRight (start db₀).read db₀ request p →
    RowsRight (start db₀).read s.database request p
  sent : ∀ t ∈ s.sent, ∃ p request v, OperatorOf s.origin p request v ∧
    t = request.ast.taskRequest p v
  request : ∀ t ∈ s.requests, t ∈ s.sent
  job : ∀ job ∈ s.jobs, JobRight db₀ s job
  phase : ∀ (p : ℕ) (call : Call), s.calls[p]? = some call →
    RowsRight (start db₀).read db₀ call.request p →
      PhaseRight (start db₀).read call.request call.phase

/-! ## What one step does -/

section Steps

variable {s s' : Cluster} {identity : String} {task : Task} {job : Job} {id : Proto.TaskId}
  {a : Action}

theorem step_deliver : step s (.deliver identity task) = some s' ↔ task ∈ s.sent ∧
    s' = { s with jobs := { task := { identity, task } } ::ₘ s.jobs } := by
  simp [step, eq_comm (a := s')]

theorem step_answer : step s (.answer id) = some s' ↔ ∃ dispatcher,
    s.dispatcher.updateComputableTasks id = .ok dispatcher ∧ s' = { s with dispatcher } := by
  simp [step, Option.bind_eq_some_iff, eq_comm (a := s')]

theorem length_step (hstep : step s a = some s') : s.calls.length ≤ s'.calls.length := by
  cases a with
  | regular action => exact Exits.length_step hstep
  | deliver identity task =>
    obtain ⟨-, rfl⟩ := step_deliver.mp hstep
    exact le_rfl
  | crash job =>
    obtain rfl := Option.some.inj hstep
    exact le_rfl
  | answer id =>
    obtain ⟨_, -, rfl⟩ := step_answer.mp hstep
    exact le_rfl

end Steps

/-! ## The invariant -/

namespace Genuine

variable {db₀ : Database} {s s' : Cluster} {p : ProblemId} {request : AstRequest}
  {v : TaskDispatch.TaskId} {job : Job} {id : Proto.TaskId} {i : ℕ} {call : Call}

theorem init (db₀ : Database) : Genuine db₀ (start db₀) where
  tracked := .init
  problemId_eq := rfl
  static := rfl
  call := by simp [start]
  later _ _ := rfl
  rows := by simp [start, origin]
  sent := by simp [start]
  request := by simp [start]
  job := by simp [start]
  phase := by simp [start]

/-- Whether the problems in the maps are live does not depend on what is in flight. -/
theorem tracked_congr {e e' : Exchange} (h : e.Tracked) (hdispatcher : e'.dispatcher = e.dispatcher)
    (horigin : e'.origin = e.origin) : e'.Tracked := by
  refine ⟨?_, ?_⟩
  · rw [hdispatcher, horigin]
    exact h.entry
  · rw [hdispatcher]
    exact h.sync_subset

/-- No live problem has the next id. -/
theorem problemId_notMem (h : Genuine db₀ s) :
    s.dispatcher.problemId ∉ s.dispatcher.problemIdToCalculationData := by
  intro hmem
  obtain ⟨_, _, horigin, -⟩ :=
    h.tracked.entry _ _ (Std.ExtTreeMap.getElem?_eq_some_getElem hmem)
  exact (Sound.lt_length horigin).ne h.problemId_eq

/-- **What a worker gets for an operand is the value of the operand**, if it gets anything. -/
theorem valueAt_of_readOperand (h : Genuine db₀ s) (hlt : s.calls.length < 2 ^ 32)
    (hop : OperatorOf s.origin p request v) (hrows : RowsRight (start db₀).read db₀ request p)
    {u : TaskDispatch.TaskId} (hu : u ∈ request.ast.dag.deps v) {r : ExprResult}
    (hread : ThreadPool.readOperand s.database (request.ast.operand p u) = .ok r) :
    request.ast.valueAt (start db₀).read u = .ok r := by
  have hult : u < request.ast.vertexCount := request.ast.dag.deps_mem v hop.lt u hu
  cases hvar : request.ast.decompositor.leafVariable u with
  | some x =>
    rw [AST.operand, hvar] at hread
    rw [AST.valueAt_leaf hult hvar, ← hread]
    exact (DatabaseClient.readData_identifier_congr h.static x).symm
  | none =>
    have hp : p < 2 ^ 32 := (Sound.lt_length hop.origin_eq).trans hlt
    have hread : DatabaseClient.readData s.database (.dynRecordId (UInt32.ofNat p).toNat
        (UInt32.ofNat u).toNat) = .ok r := by
      rw [AST.operand, hvar] at hread
      exact hread
    rw [DatabaseClient.readData_dyn, UInt32.ofNat_toNat, UInt32.ofNat_toNat] at hread
    cases hrow : s.database.select ⟨.ofNat p, .ofNat u⟩ with
    | none =>
      -- there is no value to be had where there is no row
      rw [hrow] at hread
      cases hread
    | some field =>
      obtain ⟨r', hvalue, rfl⟩ := h.rows p request hop.origin_eq hrows u hult field hrow
      simp only [hrow, DatabaseClient.ofReply_toField, Except.ok.injEq] at hread
      rwa [hread] at hvalue

/-! ### The workers' steps -/

/-- Jobs come, go and move on, and nothing else changes. -/
theorem of_jobs (h : Genuine db₀ s) (hdispatcher : s'.dispatcher = s.dispatcher)
    (hcalls : s'.calls = s.calls) (hsent : s'.sent = s.sent) (hdatabase : s'.database = s.database)
    (hrequest : ∀ t ∈ s'.requests, t ∈ s.requests) (hjob : ∀ job ∈ s'.jobs, JobRight db₀ s job) :
    Genuine db₀ s' := by
  have horigin : s'.origin = s.origin := by
    funext p
    rw [origin, origin, hcalls]
  refine
    { tracked := tracked_congr h.tracked hdispatcher horigin
      problemId_eq := by rw [hdispatcher, hcalls, h.problemId_eq]
      static := by rw [hdatabase, h.static]
      call := hcalls ▸ h.call
      later := by rw [hcalls, hdatabase]; exact h.later
      rows := by rw [horigin, hdatabase]; exact h.rows
      sent := by rw [horigin, hsent]; exact h.sent
      request := fun t ht => hsent ▸ h.request t (hrequest t ht)
      job := ?_
      phase := hcalls ▸ h.phase }
  intro job hjob'
  rw [JobRight, horigin]
  exact hjob job hjob'

/-- A worker that has got a request starts with nothing. -/
theorem jobRight_new (h : Genuine db₀ s) {identity : String} {task : Task} (htask : task ∈ s.sent) :
    JobRight db₀ s { task := { identity, task } } := by
  obtain ⟨p, request, v, hop, heq⟩ := h.sent task htask
  exact ⟨p, request, v, hop, heq, fun _ => List.Forall₂.nil⟩

/-- A job that moves on. -/
theorem advance (h : Genuine db₀ s) {stage : Stage} (hjob : job ∈ s.jobs)
    (hstage : ∀ p request v, OperatorOf s.origin p request v →
      job.task.task = request.ast.taskRequest p v → RowsRight (start db₀).read db₀ request p →
      StageRight (start db₀).read request v job.stage →
      StageRight (start db₀).read request v stage) :
    Genuine db₀ (s.advance job stage) := by
  refine h.of_jobs rfl rfl rfl rfl (fun _ ht => ht) ?_
  intro job' hjob'
  rcases Sound.mem_advance hjob' with rfl | hold
  · obtain ⟨p, request, v, hop, htask, hok⟩ := h.job job hjob
    exact ⟨p, request, v, hop, htask, fun hrows =>
      hstage p request v hop htask hrows (hok hrows)⟩
  · exact h.job job' hold

theorem readOperand (h : Genuine db₀ s) (hlt : s.calls.length < 2 ^ 32)
    (hstep : s.step (.readOperand job) = some s') : Genuine db₀ s' := by
  obtain ⟨operands, operand, r, hstage, ⟨hjob, -⟩, hoperand, hread, rfl⟩ :=
    step_readOperand.mp hstep
  apply h.advance hjob
  intro p request v hop htask hrows hok
  rw [hstage] at hok
  rw [htask] at hoperand
  obtain ⟨u, hu, rfl⟩ := List.getElem?_map.symm.trans hoperand |> Option.map_eq_some_iff.mp
  have hvalue := h.valueAt_of_readOperand hlt hop hrows (List.mem_of_getElem? hu) hread
  show List.Forall₂ _ ((request.ast.dag.deps v).take (operands ++ [r]).length) _
  rw [List.length_append, List.length_singleton, List.take_add_one, hu]
  exact List.rel_append hok (.cons hvalue .nil)

theorem calculate (h : Genuine db₀ s) (hstep : s.step (.calculate job) = some s') :
    Genuine db₀ s' := by
  obtain ⟨operands, r, hstage, ⟨hjob, -⟩, hlength, hcalculate, rfl⟩ := step_calculate.mp hstep
  apply h.advance hjob
  intro p request v hop htask _ hok
  rw [hstage] at hok
  rw [htask] at hlength
  have hall : List.Forall₂ (fun u r => request.ast.valueAt (start db₀).read u = .ok r)
      (request.ast.dag.deps v) operands := by
    have hdeps : operands.length = (request.ast.dag.deps v).length :=
      hlength.trans (List.length_map _)
    have htake : (request.ast.dag.deps v).take operands.length = request.ast.dag.deps v :=
      List.take_of_length_le hdeps.ge
    exact htake ▸ hok
  show request.ast.valueAt (start db₀).read v = .ok r
  rw [AST.valueAt_operator hop.lt hop.deps hall, ← hcalculate, ThreadPool.calculate, htask,
    AST.ofOperationType_taskRequest]

theorem writeDynamicData (h : Genuine db₀ s) (hlt : s.calls.length < 2 ^ 32)
    (hstep : s.step (.writeDynamicData job) = some s') : Genuine db₀ s' := by
  obtain ⟨r, hstage, ⟨hjob, -⟩, rfl⟩ := step_writeDynamicData.mp hstep
  obtain ⟨p, request, v, hop, htask, hvalue⟩ := h.job job hjob
  have hdb := Sound.writeResult_eq htask s.database r
  have hp : p < s.calls.length := Sound.lt_length hop.origin_eq
  refine
    { tracked := tracked_congr h.tracked rfl rfl
      problemId_eq := h.problemId_eq
      static := ?_
      call := h.call
      later := ?_
      rows := ?_
      sent := h.sent
      request := h.request
      job := ?_
      phase := h.phase }
  · show (ThreadPool.writeResult s.database job.task r).staticData = _
    rw [hdb, DatabaseClient.staticData_writeDynamicData, h.static]
  · -- the row written is under the id of a call, so under none to come
    intro id hid
    show (ThreadPool.writeResult s.database job.task r).select id = _
    rw [hdb, DatabaseClient.select_writeDynamicData, if_neg, h.later id hid]
    rintro ⟨rfl, -⟩
    have hle : s.calls.length ≤ (UInt32.ofNat (UInt32.ofNat p).toNat).toNat := hid
    rw [UInt32.ofNat_toNat, toNat_ofNat_of_lt (hp.trans hlt)] at hle
    exact absurd hle (not_le.mpr hp)
  · intro q request' hq hrows u hu field hrow
    have hrow : (ThreadPool.writeResult s.database job.task r).select ⟨.ofNat q, .ofNat u⟩ =
      some field := hrow
    rw [hdb, DatabaseClient.select_writeDynamicData, UInt32.ofNat_toNat, UInt32.ofNat_toNat]
      at hrow
    split_ifs at hrow with hkey
    · -- the new row: its vertex is the one the job was for
      have hqlt : q < 2 ^ 32 := (Sound.lt_length hq).trans hlt
      obtain ⟨rfl, rfl⟩ := (TaskId.mk'_inj hqlt (hu.trans request'.vertexCount_lt) (hp.trans hlt)
        (hop.lt.trans request.vertexCount_lt)).mp
          (congrArg (fun key : DynamicRecordId => (⟨key.problemId, key.taskId⟩ : Proto.TaskId))
            hkey.1)
      obtain rfl := Option.some.inj (hop.origin_eq.symm.trans hq)
      have hok := hvalue hrows
      rw [hstage] at hok
      exact ⟨r, hok, (Option.some.inj hrow).symm⟩
    · exact h.rows q request' hq hrows u hu field hrow
  · intro job' hjob'
    rcases Sound.mem_advance hjob' with rfl | hold
    · exact ⟨p, request, v, hop, htask, fun _ => trivial⟩
    · exact h.job job' hold

/-! ### The dispatcher's steps -/

/-- The dispatcher goes on, with the calls and the store as they are. -/
theorem of_dispatcher (h : Genuine db₀ s) (hcalls : s'.calls = s.calls)
    (hdatabase : s'.database = s.database) (hjobs : s'.jobs = s.jobs)
    (htracked : s'.exchange.Tracked) (hproblemId : s'.dispatcher.problemId = s.dispatcher.problemId)
    (hrequest : ∀ t ∈ s'.requests, t ∈ s'.sent)
    (hsent : ∀ t ∈ s'.sent, t ∈ s.sent ∨ ∃ p request v, OperatorOf s.origin p request v ∧
      t = request.ast.taskRequest p v) : Genuine db₀ s' := by
  have horigin : s'.origin = s.origin := by
    funext p
    rw [origin, origin, hcalls]
  refine
    { tracked := htracked
      problemId_eq := by rw [hproblemId, hcalls, h.problemId_eq]
      static := by rw [hdatabase, h.static]
      call := hcalls ▸ h.call
      later := by rw [hcalls, hdatabase]; exact h.later
      rows := by rw [horigin, hdatabase]; exact h.rows
      sent := ?_
      request := hrequest
      job := ?_
      phase := hcalls ▸ h.phase }
  · intro t ht
    rw [horigin]
    rcases hsent t ht with hold | hnew
    · exact h.sent t hold
    · exact hnew
  · intro job hjob
    rw [JobRight, horigin]
    exact h.job job (hjobs ▸ hjob)

theorem sendComputableTasks {order : PassOrder} (h : Genuine db₀ s)
    (hstep : s.step (.sendComputableTasks order) = some s') : Genuine db₀ s' := by
  have htracked := h.tracked.send (exchange_send hstep)
  obtain ⟨tasks, dispatcher, hsend, rfl⟩ := step_sendComputableTasks.mp hstep
  have hproblemId : dispatcher.problemId = s.dispatcher.problemId := by
    rw [Dispatcher.sendComputableTasks_eq] at hsend
    obtain ⟨-, rfl⟩ := Prod.mk.inj (Except.ok.inj hsend)
    rfl
  refine h.of_dispatcher rfl rfl rfl htracked hproblemId ?_ ?_
  · intro t ht
    rcases Multiset.mem_add.mp ht with hold | hnew
    · exact List.mem_append_left _ (h.request t hold)
    · exact List.mem_append_right _ (Multiset.mem_coe.mp hnew)
  · intro t ht
    apply (List.mem_append.mp ht).imp_right
    intro hnew
    -- a new request is for a computable task, so for an operator
    obtain ⟨p, calcData, v, dependencies, hcd, hdeps, rfl⟩ :=
      (Dispatcher.mem_sendComputableTasks hsend t).mp hnew
    obtain ⟨request, _, horigin, -, hlive⟩ := h.tracked.entry p calcData hcd
    have hcomputable : v ∈ calcData.schedule.computable :=
      (Std.ExtTreeMap.getElem?_eq_some_iff.mp hdeps).1
    obtain ⟨hvlt, hne, -, -⟩ := Exchange.Accounted.of_computable hlive hcomputable
    refine ⟨p, request, v, ⟨horigin, hvlt, hne⟩, ?_⟩
    rw [hlive.tracks.dependencies v dependencies hdeps, hlive.tracks.taskRequest_eq hvlt]

/-- An answer completes a task, whoever gave it. -/
theorem answer (h : Genuine db₀ s) {dispatcher : Dispatcher}
    (hupdate : s.dispatcher.updateComputableTasks id = .ok dispatcher)
    (hs' : s'.dispatcher = dispatcher) (hcalls : s'.calls = s.calls)
    (hdatabase : s'.database = s.database) (hjobs : s'.jobs = s.jobs)
    (hsent : s'.sent = s.sent) (hrequests : s'.requests = s.requests) : Genuine db₀ s' := by
  -- to the dispatcher it is as if this task and no other were in flight
  let e : Exchange := { s.exchange with inFlight := {id} }
  have hstep : e.step (.updateComputableTasks id) =
      some { e with dispatcher, inFlight := e.inFlight.erase id } :=
    Exchange.step_update.mpr ⟨Multiset.mem_singleton_self id, dispatcher, hupdate, rfl⟩
  have hlive : e.Tracked := tracked_congr h.tracked rfl rfl
  have htracked := hlive.update hstep
  have hproblemId : dispatcher.problemId = s.dispatcher.problemId := by
    obtain ⟨-, _, _, _, _, -, -, -, -, -, ⟨-, heq⟩ | ⟨-, heq⟩⟩ := hlive.update_cases hstep
    all_goals exact congrArg (fun e : Exchange => e.dispatcher.problemId) heq
  have horigin : s'.origin = s.origin := by
    funext p
    rw [origin, origin, hcalls]
  refine h.of_dispatcher hcalls hdatabase hjobs (tracked_congr htracked hs' horigin)
    (hs' ▸ hproblemId) ?_ ?_
  · rw [hrequests, hsent]
    exact h.request
  · rw [hsent]
    exact fun t ht => .inl ht

/-! ### The client threads' steps -/

theorem calculateProblem (h : Genuine db₀ s) (hlt : s'.calls.length < 2 ^ 32)
    (hstep : s.step (.calculateProblem request) = some s') : Genuine db₀ s' := by
  rcases step_calculateProblem.mp hstep with ⟨_, -, rfl⟩ | ⟨calcData, hnew, hs'⟩
  · exact h
  have hold : ∀ p request, s.origin p = some request → s'.origin p = some request :=
    (origin_step hstep).2
  have hcalls : s'.calls = s.calls ++ [{
      request, problemId := s.calls.length, taskId := request.ast.dag.root }] := by
    rw [hs', ← h.problemId_eq]
  have hlength : s'.calls.length = s.calls.length + 1 := by
    rw [hcalls, List.length_append, List.length_singleton]
  have hcall : ∀ {p : ℕ} {call : Call}, s'.calls[p]? = some call → s.calls[p]? = some call ∨
      p = s.calls.length ∧
        call = { request, problemId := s.calls.length, taskId := request.ast.dag.root } := by
    intro p call hp
    rw [hcalls, List.getElem?_append] at hp
    split_ifs at hp with hlt
    · exact .inl hp
    · rw [List.getElem?_singleton] at hp
      split_ifs at hp with hzero
      exact .inr ⟨by omega, (Option.some.inj hp).symm⟩
  have horigin : s'.origin = Function.update s.origin s.calls.length (some request) := by
    funext p
    rw [Function.update_apply, origin, origin, hcalls]
    rcases lt_trichotomy p s.calls.length with hlt | rfl | hgt
    · rw [if_neg hlt.ne, List.getElem?_append_left hlt]
    · simp
    · simp [hgt.ne', hgt.le, hgt]
  have hdb : s'.database = s.database := by rw [hs']
  have hsent : s'.sent = s.sent := by rw [hs']
  have hrequests : s'.requests = s.requests := by rw [hs']
  have hjobs : s'.jobs = s.jobs := by rw [hs']
  refine
    { tracked := ?_
      problemId_eq := ?_
      static := hdb ▸ h.static
      call := ?_
      later := ?_
      rows := ?_
      sent := ?_
      request := fun t ht => hsent ▸ h.request t (hrequests ▸ ht)
      job := ?_
      phase := ?_ }
  · have hmaps := h.tracked.pushProblem_of_notMem calcData h.problemId_notMem
    have hdispatcher : s'.dispatcher = (s.dispatcher.pushProblem calcData {}).2 := by rw [hs']
    refine h.tracked.set_entry (p := s.dispatcher.problemId) ?_ ?_ (.new hnew) ?_ ?_
    · show s'.origin _ = _
      rw [horigin, h.problemId_eq, Function.update_self]
    · intro q hq
      show s'.origin q = s.origin q
      rw [horigin, Function.update_of_ne (h.problemId_eq ▸ hq)]
    · intro q
      show s'.dispatcher.problemIdToCalculationData[q]? = _
      rw [hdispatcher]
      exact (hmaps q).1
    · intro q
      show s'.dispatcher.problemIdToSyncData[q]? = _
      rw [hdispatcher]
      exact (hmaps q).2
  · rw [hlength, hs']
    show (s.dispatcher.problemId + 1) % 2 ^ 64 = _
    rw [h.problemId_eq]
    omega
  · intro p call hp
    rcases hcall hp with hp | ⟨rfl, rfl⟩
    · exact h.call p call hp
    · exact ⟨rfl, rfl⟩
  · intro id hle
    rw [hdb]
    exact h.later id (by omega)
  · intro p request' hp hrows
    rw [hdb]
    rw [horigin, Function.update_apply] at hp
    split_ifs at hp with heq
    · -- no step has touched the rows under the new id
      obtain rfl := Option.some.inj hp
      intro v hv field hrow
      apply hrows v hv field
      rw [← hrow]
      refine (h.later _ ?_).symm
      show s.calls.length ≤ (UInt32.ofNat p).toNat
      rw [heq, toNat_ofNat_of_lt (by omega)]
    · exact h.rows p request' hp hrows
  · intro t ht
    obtain ⟨p, request', v, hop, heq⟩ := h.sent t (hsent ▸ ht)
    exact ⟨p, request', v, hop.mono hold, heq⟩
  · intro job hjob
    obtain ⟨p, request', v, hop, hrest⟩ := h.job job (hjobs ▸ hjob)
    exact ⟨p, request', v, hop.mono hold, hrest⟩
  · intro p call hp hrows
    rcases hcall hp with hp | ⟨rfl, rfl⟩
    · exact h.phase p call hp hrows
    · trivial

/-- A call moves on. Problems may leave the maps, and rows may go. -/
theorem moveOn (h : Genuine db₀ s) {phase : Phase} (dispatcher : Dispatcher) (database : Database)
    (hcall : s.calls[i]? = some call)
    (htracked : ∀ e : Exchange, e.dispatcher = dispatcher → e.origin = s.origin → e.Tracked)
    (hproblemId : dispatcher.problemId = s.dispatcher.problemId)
    (hstatic : database.staticData = s.database.staticData)
    (hrows : ∀ id field, database.select id = some field → s.database.select id = some field)
    (hlater : ∀ id, s.calls.length ≤ id.problemId.toNat →
      database.select id = s.database.select id)
    (hphase : RowsRight (start db₀).read db₀ call.request i →
      PhaseRight (start db₀).read call.request phase) :
    Genuine db₀ { s.setPhase i phase with dispatcher, database } := by
  have horigin : (s.setPhase i phase).origin = s.origin := origin_setPhase
  have hlength : (s.setPhase i phase).calls.length = s.calls.length := length_setPhase
  refine
    { tracked := htracked _ rfl horigin
      problemId_eq := (hproblemId.trans h.problemId_eq).trans hlength.symm
      static := hstatic.trans h.static
      call := ?_
      later := ?_
      rows := ?_
      sent := ?_
      request := h.request
      job := ?_
      phase := ?_ }
  · intro p call' hcall'
    rcases of_getElem?_setPhase hcall hcall' with ⟨rfl, rfl⟩ | ⟨-, hcall'⟩
    · exact h.call p call hcall
    · exact h.call p call' hcall'
  · intro id hid
    have hle : s.calls.length ≤ id.problemId.toNat := hlength ▸ hid
    exact (hlater id hle).trans (h.later id hle)
  · intro p request hp hright v hv field hrow
    have hp : (s.setPhase i phase).origin p = some request := hp
    rw [horigin] at hp
    exact h.rows p request hp hright v hv field (hrows _ field hrow)
  · intro t ht
    show ∃ p request v, OperatorOf (s.setPhase i phase).origin p request v ∧ _
    rw [horigin]
    exact h.sent t ht
  · intro job hjob
    show ∃ p request v, OperatorOf (s.setPhase i phase).origin p request v ∧ _
    rw [horigin]
    exact h.job job hjob
  · intro p call' hcall' hright
    rcases of_getElem?_setPhase hcall hcall' with ⟨rfl, rfl⟩ | ⟨-, hcall'⟩
    · exact hphase hright
    · exact h.phase p call' hcall' hright

/-- A call moves on, and nothing else does. -/
theorem setPhase (h : Genuine db₀ s) {phase : Phase} (hcall : s.calls[i]? = some call)
    (hphase : RowsRight (start db₀).read db₀ call.request i →
      PhaseRight (start db₀).read call.request phase) : Genuine db₀ (s.setPhase i phase) :=
  h.moveOn s.dispatcher s.database hcall
    (fun _ hd ho => tracked_congr h.tracked hd ho) rfl rfl (fun _ _ hrow => hrow) (fun _ _ => rfl)
    hphase

theorem clearProblem (h : Genuine db₀ s) (hstep : s.step (.clearProblem i) = some s') :
    Genuine db₀ s' := by
  obtain ⟨call, hcall, hphase, hsync, rfl⟩ := step_clearProblem.mp hstep
  refine h.moveOn _ s.database hcall ?_ rfl rfl (fun _ _ hrow => hrow) (fun _ _ => rfl)
    (fun _ => trivial)
  intro e hdispatcher horigin
  have hstep : Exchange.step s.exchange (.clearProblem call.problemId) =
      some { s.exchange with dispatcher := s.dispatcher.clearProblem call.problemId } :=
    Exchange.step_clear.mpr ⟨hsync, rfl⟩
  exact tracked_congr (h.tracked.clear hstep) hdispatcher horigin

theorem readData (h : Genuine db₀ s) (hstep : s.step (.readData i) = some s') : Genuine db₀ s' := by
  obtain ⟨call, hcall, -, ⟨r, hread, rfl⟩ | ⟨fault, -, rfl⟩⟩ := step_readData.mp hstep
  · obtain ⟨hid, hroot⟩ := h.call i call hcall
    apply h.setPhase hcall
    intro hright
    have horigin : s.origin i = some call.request := by
      rw [origin, hcall]
      rfl
    rw [hid, hroot, DatabaseClient.readData_dyn] at hread
    show call.request.ast.root.eval (start db₀).read = .ok r
    cases hrow : s.database.select ⟨.ofNat i, .ofNat call.request.ast.dag.root⟩ with
    | none =>
      rw [hrow] at hread
      cases hread
    | some field =>
      obtain ⟨r', hvalue, rfl⟩ :=
        h.rows i call.request horigin hright _ AST.root_lt field hrow
      simp only [hrow, DatabaseClient.ofReply_toField, Except.ok.injEq] at hread
      rw [← AST.valueAt_root, hvalue, hread]
  · exact h.setPhase hcall fun _ => trivial

theorem clearIntermediateCalculations (h : Genuine db₀ s) (hlt : s.calls.length < 2 ^ 32)
    (hstep : s.step (.clearIntermediateCalculations i) = some s') : Genuine db₀ s' := by
  obtain ⟨call, r, hcall, hread, rfl⟩ := step_clearIntermediateCalculations.mp hstep
  obtain ⟨hid, -⟩ := h.call i call hcall
  have hi : i < s.calls.length := (List.getElem?_eq_some_iff.mp hcall).1
  refine h.moveOn s.dispatcher _ hcall
    (fun _ hd ho => tracked_congr h.tracked hd ho) rfl
    DatabaseClient.staticData_clearIntermediateCalculations ?_ ?_ ?_
  · intro id field hrow
    rw [DatabaseClient.select_clearIntermediateCalculations] at hrow
    split_ifs at hrow
    exact hrow
  · -- a call clears the rows under its own id only
    intro id hle
    rw [DatabaseClient.select_clearIntermediateCalculations, if_neg]
    intro heq
    rw [heq, hid, toNat_ofNat_of_lt (hi.trans hlt)] at hle
    exact absurd hle (not_le.mpr hi)
  · intro hright
    have hok := h.phase i call hcall hright
    rwa [hread] at hok

/-! ### Every step -/

theorem cluster_step {action : Cluster.Action} (h : Genuine db₀ s) (hlt : s'.calls.length < 2 ^ 32)
    (hstep : s.step action = some s') : Genuine db₀ s' := by
  have hlt' : s.calls.length < 2 ^ 32 := (origin_step hstep).1.trans_lt hlt
  cases action with
  | calculateProblem request => exact h.calculateProblem hlt hstep
  | sendComputableTasks => exact h.sendComputableTasks hstep
  | relay identity task =>
    obtain ⟨htask, rfl⟩ := step_relay.mp hstep
    refine h.of_jobs rfl rfl rfl rfl (fun t ht => Multiset.mem_of_mem_erase ht) ?_
    intro job hjob
    rcases Multiset.mem_cons.mp hjob with rfl | hold
    · exact h.jobRight_new (h.request task htask)
    · exact h.job job hold
  | readOperand job => exact h.readOperand hlt' hstep
  | calculate job => exact h.calculate hstep
  | writeDynamicData job => exact h.writeDynamicData hlt' hstep
  | reply job =>
    obtain ⟨-, -, rfl⟩ := step_reply.mp hstep
    exact h.of_jobs rfl rfl rfl rfl (fun _ ht => ht)
      fun job' hjob' => h.job job' (Multiset.mem_of_mem_erase hjob')
  | terminate identity =>
    obtain rfl := step_terminate.mp hstep
    exact h.of_jobs rfl rfl rfl rfl (fun _ ht => ht) h.job
  | updateComputableTasks id =>
    obtain ⟨-, dispatcher, hupdate, rfl⟩ := step_updateComputableTasks.mp hstep
    exact h.answer hupdate rfl rfl rfl rfl rfl rfl
  | clearProblem i => exact h.clearProblem hstep
  | readData i => exact h.readData hstep
  | clearIntermediateCalculations i => exact h.clearIntermediateCalculations hlt' hstep

theorem exits_step {a : Exits.Action} (h : Genuine db₀ s) (hlt : s'.calls.length < 2 ^ 32)
    (hstep : Exits.step s a = some s') : Genuine db₀ s' := by
  cases a with
  | served action => exact h.cluster_step hlt hstep
  | writeDynamicDataFails job =>
    obtain ⟨_, -, ⟨hjob, -⟩, rfl⟩ := Exits.step_writeDynamicDataFails.mp hstep
    exact h.advance hjob fun _ _ _ _ _ _ _ => trivial
  | readDataFails i =>
    obtain ⟨call, hcall, -, rfl⟩ := Exits.step_readDataFails.mp hstep
    exact h.setPhase hcall fun _ => trivial
  | clearIntermediateCalculationsFails i =>
    obtain ⟨call, r, hcall, hread, rfl⟩ :=
      Exits.step_clearIntermediateCalculationsFails.mp hstep
    apply h.setPhase hcall
    intro hright
    have hok := h.phase i call hcall hright
    rwa [hread] at hok

theorem step {a : Action} (h : Genuine db₀ s) (hlt : s'.calls.length < 2 ^ 32)
    (hstep : Unreliable.step s a = some s') : Genuine db₀ s' := by
  cases a with
  | regular action => exact h.exits_step hlt hstep
  | deliver identity task =>
    obtain ⟨htask, rfl⟩ := step_deliver.mp hstep
    refine h.of_jobs rfl rfl rfl rfl (fun _ ht => ht) ?_
    intro job hjob
    rcases Multiset.mem_cons.mp hjob with rfl | hold
    · exact h.jobRight_new htask
    · exact h.job job hold
  | crash job =>
    obtain rfl := Option.some.inj hstep
    exact h.of_jobs rfl rfl rfl rfl (fun _ ht => ht)
      fun job' hjob' => h.job job' (Multiset.mem_of_mem_erase hjob')
  | answer id =>
    obtain ⟨dispatcher, hupdate, rfl⟩ := step_answer.mp hstep
    exact h.answer hupdate rfl rfl rfl rfl rfl rfl

theorem of_runs {actions : List Action} (hrun : Runs Unreliable.step (start db₀) actions s)
    (hlt : s.calls.length < 2 ^ 32) : Genuine db₀ s :=
  hrun.invariant_within (P := fun s => s.calls.length < 2 ^ 32) (I := Genuine db₀)
    (fun _ _ _ hstep hlt => (length_step hstep).trans_lt hlt) (init db₀)
    (fun _ _ _ h hlt hstep => h.step hlt hstep) hlt

/-- The rows of a call, and what it returns. -/
theorem result (h : Genuine db₀ s) (hcall : s.calls[i]? = some call)
    (hright : RowsRight (start db₀).read db₀ call.request i) :
    RowsRight (start db₀).read s.database call.request i ∧
      ∀ r, call.phase = .returned r → call.request.ast.root.eval (start db₀).read = .ok r := by
  have horigin : s.origin i = some call.request := by
    rw [origin, hcall]
    rfl
  refine ⟨h.rows i call.request horigin hright, ?_⟩
  intro r hreturned
  have hok := h.phase i call hcall hright
  rwa [hreturned] at hok

end Genuine

/-! ## Results -/

/-- No row, no wrong row. -/
theorem rowsRight_of_nil {db : Database} (hempty : db.dynamicData = []) {p : ProblemId}
    {request : AstRequest} : RowsRight (start db).read db request p := by
  intro v _ field hrow
  rw [Database.select, hempty] at hrow
  cases hrow

/-- **A wrong value is never returned, nor stored.** Whatever is lost, comes twice, too late or out
of turn, whoever is gone, and whichever calls to the store fail: if no row that the store held under
an id at the start contradicts the tree that got the id, then none ever does, and a value that
`CalculateProblem` returns is the value of its tree. -/
theorem returned_eq_eval {db : Database} {actions : List Action} {s : Cluster}
    (hrun : Runs step (start db) actions s) (hlt : s.calls.length < 2 ^ 32) {i : ℕ} {call : Call}
    (hcall : s.calls[i]? = some call)
    (hright : RowsRight (start db).read db call.request i) :
    RowsRight (start db).read s.database call.request i ∧
      ∀ r, call.phase = .returned r → call.request.ast.root.eval (start db).read = .ok r :=
  (Genuine.of_runs hrun hlt).result hcall hright

/-- What a worker does with a request that has reached it, up to the write. -/
def compute (identity : String) (task : Task) (operands : List ExprResult)
    (exprResult : ExprResult) : List Action :=
  .deliver identity task ::
    ((wholeTask identity task operands exprResult).tail.dropLast).map fun a =>
      .regular (.served a)

/-- The mean of the list. The dispatcher is told too early that sum and size are there, the worker
that gets the division first is gone, the sum is computed on two workers, and the store does not
serve the clearing. -/
def meanRun : List Action :=
  [.regular (.served (.calculateProblem .mean)), .regular (.served .sendComputableTasks),
    .answer ⟨0, 1⟩, .answer ⟨0, 2⟩, .regular (.served .sendComputableTasks),
    .deliver "a" ⟨⟨0, 3⟩, 15, [.dynOperand ⟨0, 1⟩, .dynOperand ⟨0, 2⟩]⟩,
    .crash { task := ⟨"a", ⟨⟨0, 3⟩, 15, [.dynOperand ⟨0, 1⟩, .dynOperand ⟨0, 2⟩]⟩⟩ }]
    ++ compute "b" ⟨⟨0, 1⟩, 4, [.staticOperand "L"]⟩ [.list [1, 2, 3, 4, 5]] (.scalar 15)
    ++ compute "c" ⟨⟨0, 1⟩, 4, [.staticOperand "L"]⟩ [.list [1, 2, 3, 4, 5]] (.scalar 15)
    ++ compute "b" ⟨⟨0, 2⟩, 5, [.staticOperand "L"]⟩ [.list [1, 2, 3, 4, 5]] (.scalar 5)
    ++ compute "c" ⟨⟨0, 3⟩, 15, [.dynOperand ⟨0, 1⟩, .dynOperand ⟨0, 2⟩]⟩
      [.scalar 15, .scalar 5] (.scalar 3)
    ++ [.answer ⟨0, 3⟩, .regular (.served (.clearProblem 0)), .regular (.served (.readData 0)),
      .regular (.clearIntermediateCalculationsFails 0)]

/-- It comes out as 3. -/
theorem returned_eq_eval_mean : ∃ s call, Runs step (start numbers) meanRun s ∧
    s.calls = [call] ∧ call.phase = .returned (.scalar 3) ∧
    s.database.select ⟨0, 1⟩ = some (.scalar 15) ∧
    call.request.ast.root.eval (start numbers).read = .ok (.scalar 3) := by
  obtain ⟨s, call, hrun, hcalls, hphase, hrow⟩ : ∃ s call,
      Runs step (start numbers) meanRun s ∧ s.calls = [call] ∧
        call.phase = .returned (.scalar 3) ∧ s.database.select ⟨0, 1⟩ = some (.scalar 15) :=
    ⟨_, _, rfl, rfl, rfl, rfl⟩
  have hlt : s.calls.length < 2 ^ 32 := by simp [hcalls]
  have hcall : s.calls[0]? = some call := by simp [hcalls]
  have hright : RowsRight (start numbers).read numbers call.request 0 := rowsRight_of_nil rfl
  exact ⟨s, call, hrun, hcalls, hphase, hrow,
    (@returned_eq_eval numbers meanRun s hrun hlt 0 call hcall hright).2 _ hphase⟩

end Unreliable
end TaskDispatch
