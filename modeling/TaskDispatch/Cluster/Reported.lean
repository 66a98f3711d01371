import Mathlib
import TaskDispatch.Cluster.Store

/-!
# What is reported and what is stored

`ThreadPool::CalculateTask` writes its result to the store and queues the answer.
`DatabaseClient::WriteDynamicData` returns nothing: the status of the call, which tells whether the
row is there, stays in a local variable. So here a write has a status of its own, and the answer is
queued whatever it is.

A result is in its row when it is reported, in every state of a run, exactly if no write fails that
would have been the first of its row, and no row is cleared on the way (`stored_iff`). Then every
task is sent after the results it needs were stored. A write that fails, where it matters, leaves a
dependent task that no worker can compute (`unstored_reported`).
-/

set_option autoImplicit false

namespace TaskDispatch

open Proto Transition

/-- The status of a call, as far as it can be told apart from the outside. -/
inductive RpcStatus where
  | ok
  | error
  deriving DecidableEq, Repr

/-- `unreported` are the tasks between the write and the output queue, each with the result that was
computed for it. -/
structure Reporting where
  cluster : Cluster
  unreported : Multiset (WorkerTask × ExprResult) := 0

namespace Reporting

inductive Action where
  /-- A failed call leaves the store as it was, be it for a key that is taken or for any other
  reason. -/
  | writeDynamicData (job : Job) (status : RpcStatus)
  | reply (job : Job) (exprResult : ExprResult)
  | other (action : Cluster.Action)

/-- What the store makes of a write with this status. -/
def written (s : Cluster) (job : Job) (exprResult : ExprResult) : RpcStatus → Option Cluster
  | .ok => do
    let database ← (s.database.writeDynamicDataImpl (DatabaseClient.buildWriteRequest
      job.id.problemId.toNat job.id.taskId.toNat exprResult)).toOption
    some { s.advance job .written with database, inserted := s.inserted ++ [job.key] }
  | .error => some (s.advance job .written)

def step (s : Reporting) : Action → Option Reporting
  | .writeDynamicData job status =>
    match job.stage with
    | .calculated exprResult =>
      if s.cluster.Active job then do
        let cluster ← written s.cluster job exprResult status
        some { cluster, unreported := (job.task, exprResult) ::ₘ s.unreported }
      else none
    | _ => none
  | .reply job exprResult =>
    if (job.task, exprResult) ∈ s.unreported then do
      let cluster ← s.cluster.step (.reply job)
      some { cluster, unreported := s.unreported.erase (job.task, exprResult) }
    else none
  | .other (.writeDynamicData _) | .other (.reply _) => none
  | .other action => do
    let cluster ← s.cluster.step action
    some { s with cluster }

def start (database : Database) : Reporting := { cluster := .start database }

/-- Every result that is about to be reported is in its row. -/
def Stored (s : Reporting) : Prop :=
  ∀ p ∈ s.unreported,
    s.cluster.database.select p.1.task.id.key = some (DatabaseClient.toField p.2)

/-- A write that fails finds its result in the row, and no row is cleared before its task is
reported. -/
def Lands (s : Reporting) : Action → Prop
  | .writeDynamicData job .error =>
    match job.stage with
    | .calculated exprResult =>
      s.cluster.database.select job.id.key = some (DatabaseClient.toField exprResult)
    | _ => True
  | .other (.clearIntermediateCalculations i) =>
    match s.cluster.calls[i]? with
    | some call => ∀ p ∈ s.unreported, p.1.task.id.problemId ≠ .ofNat call.problemId
    | none => True
  | _ => True

/-! ## What one step does -/

section Steps

variable {db : Database} {s s' : Reporting} {job : Job} {status : RpcStatus} {r : ExprResult}
  {a : Action} {action : Cluster.Action}

theorem step_writeDynamicData : step s (.writeDynamicData job status) = some s' ↔
    ∃ exprResult cluster, job.stage = .calculated exprResult ∧ s.cluster.Active job ∧
      written s.cluster job exprResult status = some cluster ∧
      s' = { cluster, unreported := (job.task, exprResult) ::ₘ s.unreported } := by
  cases h : job.stage with
  | calculated exprResult =>
    simp [step, h, Option.bind_eq_some_iff, eq_comm (a := s')]
  | _ => simp [step, h]

theorem step_reply : step s (.reply job r) = some s' ↔ (job.task, r) ∈ s.unreported ∧
    ∃ cluster, s.cluster.step (.reply job) = some cluster ∧
      s' = { cluster, unreported := s.unreported.erase (job.task, r) } := by
  simp [step, Option.bind_eq_some_iff, eq_comm (a := s')]

theorem step_other (h : step s (.other action) = some s') :
    (∀ job, action ≠ .writeDynamicData job) ∧ ∃ cluster,
      s.cluster.step action = some cluster ∧ s' = { s with cluster } := by
  cases action with
  | writeDynamicData job | reply job => cases h
  | _ =>
    simp only [step, bind, Option.bind_eq_some_iff, Option.some.injEq] at h
    obtain ⟨cluster, hstep, rfl⟩ := h
    exact ⟨by simp, cluster, hstep, rfl⟩

/-- A write that goes well is the first of its row, and is the write of `Cluster`. -/
theorem written_ok {cluster : Cluster} : written s.cluster job r .ok = some cluster ↔
    s.cluster.database.select job.key = none ∧ cluster = { s.cluster.advance job .written with
      database := ThreadPool.writeResult s.cluster.database job.task r
      inserted := s.cluster.inserted ++ [job.key] } := by
  simp only [written, bind, Option.bind_eq_some_iff, Result.toOption_eq_some,
    DatabaseClient.writeDynamicDataImpl_eq_ok, Option.some.injEq, eq_comm (a := cluster)]
  constructor
  · rintro ⟨_, ⟨hnone, rfl⟩, rfl⟩
    exact ⟨hnone, rfl⟩
  · rintro ⟨hnone, rfl⟩
    exact ⟨_, ⟨hnone, rfl⟩, rfl⟩

/-- The row that such a write adds. -/
theorem select_writeResult (hnone : s.cluster.database.select job.key = none)
    (key : DynamicRecordId) :
    (ThreadPool.writeResult s.cluster.database job.task r).select key =
      if key = job.id.key then some (DatabaseClient.toField r)
      else s.cluster.database.select key := by
  have hwrite : (ThreadPool.writeResult s.cluster.database job.task r).select key =
      if key = job.key ∧ s.cluster.database.select key = none then some (DatabaseClient.toField r)
      else s.cluster.database.select key := DatabaseClient.select_writeDynamicData
  rw [hwrite, ← Job.key_eq]
  by_cases hkey : key = job.key
  · rw [if_pos ⟨hkey, hkey ▸ hnone⟩, if_pos hkey]
  · rw [if_neg fun h => hkey h.1, if_neg hkey]

/-- The steps of `Cluster` that leave the store alone. -/
theorem database_of_step {cluster : Cluster} (hwrite : ∀ job, action ≠ .writeDynamicData job)
    (hclear : ∀ i, action ≠ .clearIntermediateCalculations i)
    (hstep : s.cluster.step action = some cluster) : cluster.database = s.cluster.database := by
  cases action with
  | calculateProblem request =>
    rcases Cluster.step_calculateProblem.mp hstep with ⟨_, -, rfl⟩ | ⟨_, -, rfl⟩ <;> rfl
  | sendComputableTasks =>
    obtain ⟨_, _, -, rfl⟩ := Cluster.step_sendComputableTasks.mp hstep
    rfl
  | relay identity task =>
    obtain ⟨-, rfl⟩ := Cluster.step_relay.mp hstep
    rfl
  | readOperand job =>
    obtain ⟨_, _, _, -, -, -, -, rfl⟩ := Cluster.step_readOperand.mp hstep
    rfl
  | calculate job =>
    obtain ⟨_, _, -, -, -, -, rfl⟩ := Cluster.step_calculate.mp hstep
    rfl
  | writeDynamicData job => exact absurd rfl (hwrite job)
  | reply job =>
    obtain ⟨-, -, rfl⟩ := Cluster.step_reply.mp hstep
    rfl
  | terminate identity =>
    obtain rfl := Cluster.step_terminate.mp hstep
    rfl
  | updateComputableTasks id =>
    obtain ⟨-, _, -, rfl⟩ := Cluster.step_updateComputableTasks.mp hstep
    rfl
  | clearProblem i =>
    obtain ⟨_, -, -, -, rfl⟩ := Cluster.step_clearProblem.mp hstep
    rfl
  | readData i =>
    obtain ⟨_, -, -, ⟨_, -, rfl⟩ | ⟨_, -, rfl⟩⟩ := Cluster.step_readData.mp hstep <;> rfl
  | clearIntermediateCalculations i => exact absurd rfl (hclear i)

/-- **What is reported stays stored exactly if the step lands.** -/
theorem stored_step (h : s.Stored) (hstep : step s a = some s') : s'.Stored ↔ s.Lands a := by
  cases a with
  | writeDynamicData job status =>
    obtain ⟨r, cluster, hstage, ⟨hjob, -⟩, hwritten, rfl⟩ := step_writeDynamicData.mp hstep
    cases status with
    | ok =>
      obtain ⟨hnone, rfl⟩ := written_ok.mp hwritten
      refine iff_of_true ?_ trivial
      intro p hp
      show (ThreadPool.writeResult s.cluster.database job.task r).select _ = _
      rw [select_writeResult hnone]
      rcases Multiset.mem_cons.mp hp with rfl | hold
      · exact if_pos rfl
      · -- an older result is in a row of its own, since its row was there
        rw [if_neg, h p hold]
        intro hkey
        rw [Job.key_eq, ← hkey, h p hold] at hnone
        cases hnone
    | error =>
      -- nothing was written, so it depends on the row that is there
      obtain rfl := Option.some.inj hwritten
      show (∀ p ∈ (job.task, r) ::ₘ s.unreported, s.cluster.database.select p.1.task.id.key =
        some (DatabaseClient.toField p.2)) ↔ _
      rw [Multiset.forall_mem_cons, Lands, hstage]
      exact and_iff_left h
  | reply job r =>
    obtain ⟨-, cluster, hreply, rfl⟩ := step_reply.mp hstep
    refine iff_of_true ?_ trivial
    intro p hp
    rw [database_of_step (by simp) (by simp) hreply]
    exact h p (Multiset.mem_of_mem_erase hp)
  | other action =>
    obtain ⟨hwrite, cluster, hcluster, rfl⟩ := step_other hstep
    by_cases hclear : ∀ i, action ≠ .clearIntermediateCalculations i
    · have hdb := database_of_step hwrite hclear hcluster
      refine iff_of_true ?_ ?_
      · intro p hp
        rw [hdb]
        exact h p hp
      · cases action with
        | clearIntermediateCalculations i => exact absurd rfl (hclear i)
        | _ => trivial
    · obtain ⟨i, rfl⟩ : ∃ i, action = .clearIntermediateCalculations i := by
        simpa using hclear
      obtain ⟨call, _, hcall, -, rfl⟩ := Cluster.step_clearIntermediateCalculations.mp hcluster
      -- the rows of one problem go
      rw [Lands, hcall]
      apply forall₂_congr
      intro p hp
      show (DatabaseClient.clearIntermediateCalculations s.cluster.database
        call.problemId).select p.1.task.id.key = _ ↔ p.1.task.id.key.problemId ≠ _
      rw [DatabaseClient.select_clearIntermediateCalculations, h p hp]
      split_ifs with hid
      · exact iff_of_false (by simp) (absurd hid)
      · exact iff_of_true rfl hid

/-- **A step that lands is one of `Cluster`.** -/
theorem cluster_step (hlands : s.Lands a) (hstep : step s a = some s') :
    ∃ action, s.cluster.step action = some s'.cluster := by
  cases a with
  | writeDynamicData job status =>
    obtain ⟨r, cluster, hstage, hjob, hwritten, rfl⟩ := step_writeDynamicData.mp hstep
    refine ⟨.writeDynamicData job,
      Cluster.step_writeDynamicData.mpr ⟨r, hstage, hjob, ?_⟩⟩
    cases status with
    | ok =>
      obtain ⟨hnone, rfl⟩ := written_ok.mp hwritten
      rw [if_pos hnone]
    | error =>
      obtain rfl := Option.some.inj hwritten
      rw [Lands, hstage, ← Job.key_eq] at hlands
      have hlost : ThreadPool.writeResult s.cluster.database job.task r = s.cluster.database :=
        DatabaseClient.writeDynamicData_of_row hlands
      rw [hlost, if_neg (by simp [hlands])]
      rfl
  | reply job r =>
    obtain ⟨-, cluster, hreply, rfl⟩ := step_reply.mp hstep
    exact ⟨_, hreply⟩
  | other action =>
    obtain ⟨-, cluster, hcluster, rfl⟩ := step_other hstep
    exact ⟨_, hcluster⟩

end Steps

/-! ## Over a whole run -/

section Runs

variable {db : Database} {s : Reporting} {actions : List Action}

/-- Where every step lands, nothing but `Cluster` is seen. -/
theorem cluster_runs (hrun : Runs step (start db) actions s)
    (hlands : Meets step Lands (start db) actions) :
    ∃ actions', Runs Cluster.step (Cluster.start db) actions' s.cluster := by
  have hall := throughout_of_meets
    (I := fun s => ∃ actions', Runs Cluster.step (Cluster.start db) actions' s.cluster)
    (fun s a s' h hok hstep => ?_) ⟨[], Runs.refl Cluster.step (Cluster.start db)⟩ hlands
  · exact hall actions s (List.prefix_refl actions) hrun
  · obtain ⟨actions', hruns⟩ := h
    obtain ⟨action, haction⟩ := cluster_step hok hstep
    exact ⟨actions' ++ [action], hruns.trans (Runs.single haction)⟩

end Runs

/-- **When what is reported is stored.** In every state of a run each result that is about to be
reported is in its row, if and only if every write of the run that fails finds its result in the
row, and no row is cleared before its task is reported. Where that is so, and the store had no
intermediate results at the start, the rows a task needs are there as soon as the task is sent. -/
theorem stored_iff {db : Database} {actions : List Action} {s : Reporting}
    (hrun : Runs step (start db) actions s) :
    (Throughout step Stored (start db) actions ↔ Meets step Lands (start db) actions) ∧
    (Meets step Lands (start db) actions → db.dynamicData = [] →
      s.cluster.calls.length < 2 ^ 32 →
      (∀ t ∈ s.cluster.requests, ∀ id, .dynOperand id ∈ t.operands →
        (s.cluster.database.select id.key).isSome) ∧
      ∀ job ∈ s.cluster.jobs, ∀ id, .dynOperand id ∈ job.task.task.operands →
        (s.cluster.database.select id.key).isSome) := by
  constructor
  · exact hrun.throughout_iff_meets (J := fun _ => True) (fun _ _ _ _ _ => trivial)
      (fun _ _ _ _ h hstep => stored_step h hstep) trivial (by simp [Stored, start])
  · intro hlands hempty hlt
    obtain ⟨actions', hruns⟩ := cluster_runs hrun hlands
    have h := Cluster.Disciplined.of_runs hempty hruns hlt
    exact ⟨fun t ht id hid => (h.found_request hempty hlt ht hid).1,
      fun job hjob id hid => (h.found_operand hempty hlt hjob hid).1⟩

/-- A worker takes a task, reads these operands, and goes on with this result to the answer,
whatever the status of the write is. -/
def wholeTask (identity : String) (task : Task) (operands : List ExprResult)
    (exprResult : ExprResult) (status : RpcStatus) : List Action :=
  let job (stage : Stage) : Job := { task := { identity, task }, stage }
  .other (.relay identity task) ::
    (List.range operands.length).map
      (fun k => .other (.readOperand (job (.extracting (operands.take k)))))
    ++ [.other (.calculate (job (.extracting operands))),
      .writeDynamicData (job (.calculated exprResult)) status, .reply (job .written) exprResult]

/-- The mean of a list, up to the point where the quotient is sent; the write of the sum has this
status. -/
def quotientSent (status : RpcStatus) : List Action :=
  [.other (.calculateProblem .mean), .other .sendComputableTasks]
    ++ wholeTask "worker" ⟨⟨0, 2⟩, 5, [.staticOperand "L"]⟩ [.list [1, 2, 3, 4, 5]] (.scalar 5) .ok
    ++ wholeTask "worker" ⟨⟨0, 1⟩, 4, [.staticOperand "L"]⟩ [.list [1, 2, 3, 4, 5]] (.scalar 15)
      status
    ++ [.other (.updateComputableTasks ⟨0, 2⟩), .other (.updateComputableTasks ⟨0, 1⟩),
      .other .sendComputableTasks]

/-- The sum over the size. -/
def quotient : Task := ⟨⟨0, 3⟩, 15, [.dynOperand ⟨0, 1⟩, .dynOperand ⟨0, 2⟩]⟩

/-- When the writes go well, the sum is there as soon as the quotient is sent. -/
theorem stored_mean : ∃ s, Runs step (start Cluster.numbers) (quotientSent .ok) s ∧
    Throughout step Stored (start Cluster.numbers) (quotientSent .ok) ∧
    quotient ∈ s.cluster.requests ∧ (s.cluster.database.select ⟨0, 1⟩).isSome := by
  obtain ⟨s, hrun, hrequests, hcalls⟩ : ∃ s,
      Runs step (start Cluster.numbers) (quotientSent .ok) s ∧
        s.cluster.requests = {quotient} ∧ s.cluster.calls.length = 1 := ⟨_, rfl, rfl, rfl⟩
  have hquotient : quotient ∈ s.cluster.requests := by simp [hrequests]
  have hlands : Meets step Lands (start Cluster.numbers) (quotientSent .ok) := by
    apply Meets.of_forall
    intro a ha s
    fin_cases ha <;> trivial
  obtain ⟨hiff, hthen⟩ := @stored_iff Cluster.numbers (quotientSent .ok) s hrun
  obtain ⟨hrows, -⟩ := hthen hlands rfl (by simp [hcalls])
  exact ⟨s, hrun, hiff.mpr hlands, hquotient, hrows quotient hquotient ⟨0, 1⟩ (by decide)⟩

/-- When the write of the sum fails, the sum is reported all the same: the quotient is sent, and the
worker that takes it finds no row. -/
theorem unstored_reported : ∃ s,
    Runs step (start Cluster.numbers) (quotientSent .error) s ∧ quotient ∈ s.cluster.requests ∧
    s.cluster.database.select ⟨0, 1⟩ = none ∧
    ThreadPool.extractOperands s.cluster.database ⟨"worker", quotient⟩ =
      .error (.thrown (.logicError "Invalid message")) ∧
    ¬Throughout step Stored (start Cluster.numbers) (quotientSent .error) := by
  obtain ⟨s, hrun, hrequests, hrow, hread⟩ : ∃ s,
      Runs step (start Cluster.numbers) (quotientSent .error) s ∧
        s.cluster.requests = {quotient} ∧ s.cluster.database.select ⟨0, 1⟩ = none ∧
        ThreadPool.extractOperands s.cluster.database ⟨"worker", quotient⟩ =
          .error (.thrown (.logicError "Invalid message")) := ⟨_, rfl, rfl, rfl, rfl⟩
  refine ⟨s, hrun, by simp [hrequests], hrow, hread, fun hstored => ?_⟩
  -- up to the write that fails
  obtain ⟨t, hrun', hunreported, hrow'⟩ : ∃ t,
      Runs step (start Cluster.numbers) ((quotientSent .error).take 11) t ∧
        t.unreported = {(⟨"worker", ⟨⟨0, 1⟩, 4, [.staticOperand "L"]⟩⟩, .scalar 15)} ∧
        t.cluster.database.select ⟨0, 1⟩ = none := ⟨_, rfl, rfl, rfl⟩
  have hrow := hstored _ t (List.take_prefix 11 _) hrun' _
    (hunreported ▸ Multiset.mem_singleton_self _)
  have hnone : t.cluster.database.select ⟨0, 1⟩ = some _ := hrow
  rw [hrow'] at hnone
  cases hnone

end Reporting
end TaskDispatch
