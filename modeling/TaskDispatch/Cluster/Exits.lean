import Mathlib
import TaskDispatch.Cluster.Store
import TaskDispatch.Dispatch.Progress

/-!
# What a call leaves behind

`Dispatcher::CalculateProblem` is left by an exception of `CalculationData::New`, before anything is
pushed, by an exception of `DatabaseClient::ReadData`, after the problem was erased from the maps,
or by `return`, after `DatabaseClient::ClearIntermediateCalculations`. So the maps are clean on
every path. The rows are not: the exception of `ReadData` skips the call that deletes them, and
nobody looks at the status of that call.

Here a call to the store is served or fails, and a request is relayed at most once, as in `Cluster`.
Every call that has been left leaves nothing, in every state of such a run, exactly if no problem
has rows when its read fails or finds no result in the row of the root, nor when its clearing fails
(`leavesNothing_iff`). Where the table was empty at the start and the store answers every call, that
is so (`meets_served`). A task the broker publishes twice can be written once more after the rows
were cleared; that is in none of these runs.
-/

set_option autoImplicit false

namespace TaskDispatch

open Proto Transition

/-- `dynamic_data` holds no row of the problem. -/
def Database.NoRows (db : Database) (p : ProblemId) : Prop :=
  ∀ row ∈ db.dynamicData, row.recordId.problemId ≠ .ofNat p

instance (db : Database) (p : ProblemId) : Decidable (db.NoRows p) :=
  inferInstanceAs (Decidable (∀ row ∈ db.dynamicData, row.recordId.problemId ≠ .ofNat p))

theorem Database.noRows_iff {db : Database} {p : ProblemId} :
    db.NoRows p ↔ ∀ key, key.problemId = .ofNat p → db.select key = none := by
  constructor
  · intro h key hkey
    rw [DatabaseClient.select_eq_none_iff]
    intro hmem
    obtain ⟨row, hrow, rfl⟩ := List.mem_map.mp hmem
    exact h row hrow hkey
  · intro h row hrow hp
    exact DatabaseClient.select_eq_none_iff.mp (h row.recordId hp) (List.mem_map_of_mem hrow)

/-- `CalculateProblem` has been left. -/
def Phase.isLeft : Phase → Bool
  | .returned _ | .threw _ => true
  | .waiting | .cleared | .read _ => false

theorem Phase.ne_waiting_of_isLeft {phase : Phase} (h : phase.isLeft) : phase ≠ .waiting := by
  intro heq
  rw [heq] at h
  cases h

namespace Exits

/-! ## The steps -/

inductive Action where
  /-- A step in which the store, if it is called, answers. -/
  | served (action : Cluster.Action)
  | writeDynamicDataFails (job : Job)
  | readDataFails (call : ℕ)
  | clearIntermediateCalculationsFails (call : ℕ)

/-- A call that fails has no effect on the store and leaves its reply empty, and the client goes on
all the same. One that took effect before it failed is served, for all the client sees. -/
def step (s : Cluster) : Action → Option Cluster
  | .served action => s.step action
  | .writeDynamicDataFails job =>
    match job.stage with
    | .calculated _ => if s.Active job then some (s.advance job .written) else none
    | _ => none
  | .readDataFails i => do
    let call ← s.calls[i]?
    if call.phase = .cleared then
      match DatabaseClient.ofReply .notSet with
      | .ok exprResult => some (s.setPhase i (.read exprResult))
      | .error fault => some (s.setPhase i (.threw fault))
    else none
  | .clearIntermediateCalculationsFails i => do
    let call ← s.calls[i]?
    match call.phase with
    | .read exprResult => some (s.setPhase i (.returned exprResult))
    | _ => none

/-- The problem whose call takes the step. -/
def caller (s : Cluster) : Action → Option ProblemId
  | .served (.calculateProblem _) => some s.dispatcher.problemId
  | .served (.clearProblem i) | .served (.readData i)
  | .served (.clearIntermediateCalculations i)
  | .readDataFails i | .clearIntermediateCalculationsFails i => s.calls[i]?.map (·.problemId)
  | _ => none

/-! ## What is to hold -/

/-- Nothing is left of a problem. -/
structure Gone (s : Cluster) (p : ProblemId) : Prop where
  calculationData : p ∉ s.dispatcher.problemIdToCalculationData
  syncData : p ∉ s.dispatcher.problemIdToSyncData
  noRows : s.database.NoRows p

/-- Every call that has been left leaves nothing of its problem. -/
def LeavesNothing (s : Cluster) : Prop :=
  ∀ call ∈ s.calls, call.phase.isLeft → Gone s call.problemId

/-- A read finds a result in the row of the root, or the problem has no rows. It has none either
when the read or the clearing fails. -/
def Cleans (s : Cluster) : Action → Prop
  | .served (.readData i) => ∀ call : Call, s.calls[i]? = some call →
    (∃ field ∈ s.database.select ⟨.ofNat call.problemId, .ofNat call.taskId⟩, field ≠ .notSet) ∨
      s.database.NoRows call.problemId
  | .readDataFails i | .clearIntermediateCalculationsFails i =>
    ∀ call : Call, s.calls[i]? = some call → s.database.NoRows call.problemId
  | _ => True

/-! ## What one step does -/

section Steps

variable {s s' : Cluster} {job : Job} {i : ℕ} {p : ProblemId} {call : Call}

theorem step_writeDynamicDataFails : step s (.writeDynamicDataFails job) = some s' ↔
    ∃ exprResult, job.stage = .calculated exprResult ∧ s.Active job ∧
      s' = s.advance job .written := by
  cases h : job.stage with
  | calculated exprResult => simp [step, h, eq_comm (a := s')]
  | _ => simp [step, h]

theorem step_readDataFails : step s (.readDataFails i) = some s' ↔
    ∃ call, s.calls[i]? = some call ∧ call.phase = .cleared ∧
      s' = s.setPhase i (.threw (.thrown (.logicError "Invalid message"))) := by
  cases hcall : s.calls[i]? with
  | none => simp [step, hcall]
  | some call => simp [step, hcall, DatabaseClient.ofReply, eq_comm (a := s')]

theorem step_clearIntermediateCalculationsFails :
    step s (.clearIntermediateCalculationsFails i) = some s' ↔
      ∃ call exprResult, s.calls[i]? = some call ∧ call.phase = .read exprResult ∧
        s' = s.setPhase i (.returned exprResult) := by
  cases hcall : s.calls[i]? with
  | none => simp [step, hcall]
  | some call => cases h : call.phase <;> simp [step, hcall, h, eq_comm (a := s')]

/-- The dispatcher sees a run of `Exchange` here too. -/
theorem exchange_step {a : Action} (h : s.exchange.Accounted) (hstep : step s a = some s') :
    ∃ actions, Runs Exchange.step s.exchange actions s'.exchange := by
  cases a with
  | served action => exact Cluster.exchange_step h hstep
  | writeDynamicDataFails job =>
    obtain ⟨_, -, ⟨hjob, -⟩, rfl⟩ := step_writeDynamicDataFails.mp hstep
    apply Cluster.runs_of_exchange_eq
    refine Cluster.exchange_eq rfl rfl rfl rfl ?_
    rw [Cluster.map_id_advance hjob]
    rfl
  | readDataFails i =>
    obtain ⟨_, -, -, rfl⟩ := step_readDataFails.mp hstep
    exact Cluster.runs_of_exchange_eq Cluster.exchange_setPhase
  | clearIntermediateCalculationsFails i =>
    obtain ⟨_, _, -, -, rfl⟩ := step_clearIntermediateCalculationsFails.mp hstep
    exact Cluster.runs_of_exchange_eq Cluster.exchange_setPhase

theorem length_step {a : Action} (hstep : step s a = some s') :
    s.calls.length ≤ s'.calls.length := by
  cases a with
  | served action => exact (Cluster.origin_step hstep).1
  | writeDynamicDataFails job =>
    obtain ⟨_, -, -, rfl⟩ := step_writeDynamicDataFails.mp hstep
    exact le_rfl
  | readDataFails i =>
    obtain ⟨_, -, -, rfl⟩ := step_readDataFails.mp hstep
    exact Cluster.length_setPhase.ge
  | clearIntermediateCalculationsFails i =>
    obtain ⟨_, _, -, -, rfl⟩ := step_clearIntermediateCalculationsFails.mp hstep
    exact Cluster.length_setPhase.ge

end Steps

/-! ## The maps -/

/-- A problem is in the maps while its call waits, whatever the store makes of the calls to it. -/
structure Kept (s : Cluster) : Prop where
  accounted : s.exchange.Accounted
  problemId_eq : ∀ (i : ℕ) (call : Call), s.calls[i]? = some call → call.problemId = i
  waiting_iff : ∀ (i : ℕ) (call : Call), s.calls[i]? = some call →
    (call.phase = .waiting ↔ i ∈ s.dispatcher.problemIdToCalculationData)

namespace Kept

variable {db : Database} {s s' : Cluster} {job : Job} {i : ℕ} {p : ProblemId} {call : Call}
  {request : AstRequest}

theorem init (db : Database) : Kept (.start db) where
  accounted := Exchange.Accounted.init
  problemId_eq := by simp [Cluster.start]
  waiting_iff := by simp [Cluster.start]

/-- A call that does not wait any more has its problem in neither map. -/
theorem notMem (h : Kept s) (hcall : s.calls[i]? = some call) (hphase : call.phase ≠ .waiting) :
    call.problemId ∉ s.dispatcher.problemIdToCalculationData ∧
      call.problemId ∉ s.dispatcher.problemIdToSyncData := by
  rw [h.problemId_eq i call hcall]
  have hcalc : i ∉ s.dispatcher.problemIdToCalculationData :=
    fun hmem => hphase ((h.waiting_iff i call hcall).mpr hmem)
  exact ⟨hcalc, fun hmem => hcalc (h.accounted.tracked.sync_subset i hmem)⟩

/-- A problem with a job is waited for. -/
theorem waiting_of_job (h : Kept s) (hlt : s.calls.length < 2 ^ 32) (hjob : job ∈ s.jobs)
    (hcall : s.calls[i]? = some call) (hi : job.id.problemId = .ofNat i) :
    call.phase = .waiting := by
  have hinFlight : job.id ∈ s.exchange.inFlight :=
    Multiset.mem_add.mpr (.inl (Multiset.mem_add.mpr (.inr (Multiset.mem_map_of_mem _ hjob))))
  obtain ⟨p, _, _, _, _, -, hp, -, hcd, -⟩ := h.accounted.of_mem_inFlight hlt.le hinFlight
  have hilt : i < 2 ^ 32 := (List.getElem?_eq_some_iff.mp hcall).1.trans hlt
  rw [hi, toNat_ofNat_of_lt hilt] at hp
  subst hp
  exact (h.waiting_iff i call hcall).mpr (Std.ExtTreeMap.getElem?_eq_some_iff.mp hcd).1

/-! ### Steps -/

/-- A step no call moves in, and no problem comes or goes. -/
theorem of_calls (h : Kept s) (haccounted : s'.exchange.Accounted) (hcalls : s'.calls = s.calls)
    (hmem : ∀ p : ProblemId, p ∈ s'.dispatcher.problemIdToCalculationData ↔
      p ∈ s.dispatcher.problemIdToCalculationData) : Kept s' where
  accounted := haccounted
  problemId_eq := by
    rw [hcalls]
    exact h.problemId_eq
  waiting_iff i call hcall := by
    rw [hcalls] at hcall
    rw [hmem]
    exact h.waiting_iff i call hcall

/-- A call that does not wait any more moves on. -/
theorem of_setPhase (h : Kept s) {phase : Phase} (haccounted : s'.exchange.Accounted)
    (hcall : s.calls[i]? = some call) (hold : call.phase ≠ .waiting) (hnew : phase ≠ .waiting)
    (hcalls : s'.calls = (s.setPhase i phase).calls) (hdispatcher : s'.dispatcher = s.dispatcher) :
    Kept s' := by
  refine ⟨haccounted, ?_, ?_⟩ <;> intro p call' hcall' <;> rw [hcalls] at hcall' <;>
    rcases Cluster.of_getElem?_setPhase hcall hcall' with ⟨rfl, rfl⟩ | ⟨-, hcall'⟩
  · exact h.problemId_eq p call hcall
  · exact h.problemId_eq p call' hcall'
  · rw [hdispatcher, ← h.waiting_iff p call hcall]
    exact iff_of_false hnew hold
  · rw [hdispatcher]
    exact h.waiting_iff p call' hcall'

theorem calculateProblem (h : Kept s) (hlt : s'.calls.length ≤ 2 ^ 32)
    (haccounted : s'.exchange.Accounted)
    (hstep : s.step (.calculateProblem request) = some s') : Kept s' := by
  rcases Cluster.step_calculateProblem.mp hstep with ⟨_, -, rfl⟩ | ⟨calcData, hnew, hs'⟩
  · exact h
  obtain ⟨-, hentries, hcalls⟩ := Cluster.calculateProblem_spec h.accounted hlt hnew hs'
  refine ⟨haccounted, ?_, ?_⟩ <;> intro p call hcall <;>
    rcases hcalls hcall with ⟨hne, hold⟩ | ⟨rfl, rfl⟩
  · exact h.problemId_eq p call hold
  · rfl
  · simp only [h.waiting_iff p call hold, Std.ExtTreeMap.mem_iff_isSome_getElem?, hentries,
      if_neg hne]
  · refine iff_of_true rfl ?_
    rw [Std.ExtTreeMap.mem_iff_isSome_getElem?, hentries, if_pos rfl]
    rfl

theorem clearProblem (h : Kept s) (haccounted : s'.exchange.Accounted)
    (hstep : s.step (.clearProblem i) = some s') : Kept s' := by
  obtain ⟨call, hcall, -, -, rfl⟩ := Cluster.step_clearProblem.mp hstep
  have hid : call.problemId = i := h.problemId_eq i call hcall
  have hmem : ∀ p : ProblemId,
      p ∈ (s.dispatcher.clearProblem call.problemId).problemIdToCalculationData ↔
        p ≠ i ∧ p ∈ s.dispatcher.problemIdToCalculationData := by
    intro p
    simp [Dispatcher.clearProblem, hid, eq_comm (a := i)]
  refine ⟨haccounted, ?_, ?_⟩ <;> intro p call' hcall' <;>
    rcases Cluster.of_getElem?_setPhase hcall hcall' with ⟨rfl, rfl⟩ | ⟨hne, hcall'⟩
  · exact hid
  · exact h.problemId_eq p call' hcall'
  · rw [hmem]
    exact iff_of_false (by simp) fun hp => hp.1 rfl
  · rw [hmem]
    exact (h.waiting_iff p call' hcall').trans (and_iff_right hne).symm

theorem cluster_step {action : Cluster.Action} (h : Kept s) (hlt : s'.calls.length < 2 ^ 32)
    (hstep : s.step action = some s') : Kept s' := by
  have haccounted : s'.exchange.Accounted := by
    obtain ⟨actions, hruns⟩ := Cluster.exchange_step h.accounted hstep
    exact h.accounted.runs hruns hlt.le
  cases action with
  | calculateProblem request => exact h.calculateProblem hlt.le haccounted hstep
  | sendComputableTasks =>
    have hsame := h.accounted.sameProblems_send (Cluster.exchange_send hstep)
    obtain ⟨_, _, -, rfl⟩ := Cluster.step_sendComputableTasks.mp hstep
    exact h.of_calls haccounted rfl hsame.mem_iff
  | relay identity task =>
    obtain ⟨-, rfl⟩ := Cluster.step_relay.mp hstep
    exact h.of_calls haccounted rfl fun _ => Iff.rfl
  | readOperand job =>
    obtain ⟨_, _, _, -, -, -, -, rfl⟩ := Cluster.step_readOperand.mp hstep
    exact h.of_calls haccounted rfl fun _ => Iff.rfl
  | calculate job =>
    obtain ⟨_, _, -, -, -, -, rfl⟩ := Cluster.step_calculate.mp hstep
    exact h.of_calls haccounted rfl fun _ => Iff.rfl
  | writeDynamicData job =>
    obtain ⟨_, -, -, rfl⟩ := Cluster.step_writeDynamicData.mp hstep
    exact h.of_calls haccounted rfl fun _ => Iff.rfl
  | reply job =>
    obtain ⟨-, -, rfl⟩ := Cluster.step_reply.mp hstep
    exact h.of_calls haccounted rfl fun _ => Iff.rfl
  | terminate identity =>
    obtain rfl := Cluster.step_terminate.mp hstep
    exact h.of_calls haccounted rfl fun _ => Iff.rfl
  | updateComputableTasks id =>
    have hlt' : s.calls.length ≤ 2 ^ 32 := ((Cluster.origin_step hstep).1.trans_lt hlt).le
    have hsame := h.accounted.sameProblems_update hlt' (Cluster.exchange_update hstep)
    obtain ⟨-, _, -, rfl⟩ := Cluster.step_updateComputableTasks.mp hstep
    exact h.of_calls haccounted rfl hsame.mem_iff
  | clearProblem i => exact h.clearProblem haccounted hstep
  | readData i =>
    obtain ⟨call, hcall, hphase, ⟨_, -, rfl⟩ | ⟨_, -, rfl⟩⟩ := Cluster.step_readData.mp hstep
    · exact h.of_setPhase haccounted hcall (by simp [hphase]) (by simp) rfl rfl
    · exact h.of_setPhase haccounted hcall (by simp [hphase]) (by simp) rfl rfl
  | clearIntermediateCalculations i =>
    obtain ⟨call, _, hcall, hphase, rfl⟩ := Cluster.step_clearIntermediateCalculations.mp hstep
    exact h.of_setPhase haccounted hcall (by simp [hphase]) (by simp) rfl rfl

theorem step {a : Action} (h : Kept s) (hlt : s'.calls.length < 2 ^ 32)
    (hstep : Exits.step s a = some s') : Kept s' := by
  have haccounted : s'.exchange.Accounted := by
    obtain ⟨actions, hruns⟩ := exchange_step h.accounted hstep
    exact h.accounted.runs hruns hlt.le
  cases a with
  | served action => exact h.cluster_step hlt hstep
  | writeDynamicDataFails job =>
    obtain ⟨_, -, -, rfl⟩ := step_writeDynamicDataFails.mp hstep
    exact h.of_calls haccounted rfl fun _ => Iff.rfl
  | readDataFails i =>
    obtain ⟨call, hcall, hphase, rfl⟩ := step_readDataFails.mp hstep
    exact h.of_setPhase haccounted hcall (by simp [hphase]) (by simp) rfl rfl
  | clearIntermediateCalculationsFails i =>
    obtain ⟨call, _, hcall, hphase, rfl⟩ := step_clearIntermediateCalculationsFails.mp hstep
    exact h.of_setPhase haccounted hcall (by simp [hphase]) (by simp) rfl rfl

end Kept

/-! ## The rows -/

/-- No call that has been left has a row in the table. -/
def RowsGone (s : Cluster) (db : Database) : Prop :=
  ∀ (i : ℕ) (call : Call), s.calls[i]? = some call → call.phase.isLeft → db.NoRows call.problemId

section Rows

variable {db : Database} {s s' : Cluster} {job : Job} {i : ℕ} {p : ProblemId} {call : Call}
  {a : Action}

/-- The maps are clean anyhow, so it depends on the rows. -/
theorem Kept.leavesNothing_iff_rowsGone (h : Kept s) : LeavesNothing s ↔ RowsGone s s.database := by
  constructor
  · intro hall i call hcall hleft
    exact (hall call (List.mem_of_getElem? hcall) hleft).noRows
  · intro hrows call hmem hleft
    obtain ⟨i, hcall⟩ := List.mem_iff_getElem?.mp hmem
    obtain ⟨hcalc, hsync⟩ := h.notMem hcall (Phase.ne_waiting_of_isLeft hleft)
    exact ⟨hcalc, hsync, hrows i call hcall hleft⟩

/-- A call that has not been left moves on. -/
theorem rowsGone_setPhase {phase : Phase} (hcall : s.calls[i]? = some call)
    (hold : ¬call.phase.isLeft) : RowsGone (s.setPhase i phase) db ↔
      RowsGone s db ∧ (phase.isLeft → db.NoRows call.problemId) := by
  have hnew : (s.setPhase i phase).calls[i]? = some { call with phase } := by
    rw [Cluster.getElem?_setPhase, hcall, Option.map_some, if_pos rfl]
  constructor
  · intro h
    refine ⟨?_, h i _ hnew⟩
    intro p call' hcall' hleft
    by_cases hip : i = p
    · subst hip
      obtain rfl := Option.some.inj (hcall.symm.trans hcall')
      exact absurd hleft hold
    · refine h p call' ?_ hleft
      rw [Cluster.getElem?_setPhase, hcall', Option.map_some, if_neg hip]
  · intro h p call' hcall' hleft
    rcases Cluster.of_getElem?_setPhase hcall hcall' with ⟨rfl, rfl⟩ | ⟨-, hcall'⟩
    · exact h.2 hleft
    · exact h.1 p call' hcall' hleft

/-- A job writes no row of a problem whose call has been left. -/
theorem RowsGone.write {r : ExprResult} (h : RowsGone s s.database) (hkept : Kept s)
    (hlt : s.calls.length < 2 ^ 32) (hjob : job ∈ s.jobs) :
    RowsGone s (ThreadPool.writeResult s.database job.task r) := by
  intro p call hcall hleft
  rw [Database.noRows_iff]
  intro key hkey
  have hwrite : (ThreadPool.writeResult s.database job.task r).select key =
      if key = job.key ∧ s.database.select key = none then some (DatabaseClient.toField r)
      else s.database.select key := DatabaseClient.select_writeDynamicData
  rw [hwrite, if_neg]
  · exact Database.noRows_iff.mp (h p call hcall hleft) key hkey
  · intro hrow
    rw [hrow.1, Job.key_eq, hkept.problemId_eq p call hcall] at hkey
    exact Phase.ne_waiting_of_isLeft hleft (hkept.waiting_of_job hlt hjob hcall hkey)

/-- Rows that go take none with them that are to be gone. -/
theorem RowsGone.clear (h : RowsGone s db) (p : ProblemId) :
    RowsGone s (DatabaseClient.clearIntermediateCalculations db p) := by
  intro q call hcall hleft row hrow
  exact h q call hcall hleft row (List.mem_of_mem_filter hrow)

theorem noRows_clear : (DatabaseClient.clearIntermediateCalculations db p).NoRows p := by
  intro row hrow
  simpa using (List.mem_filter.mp hrow).2

/-- What the read finds. -/
theorem readData_eq_ok_iff {p t : ℕ} :
    (∃ r, DatabaseClient.readData db (.dynRecordId p t) = .ok r) ↔
      ∃ field ∈ db.select ⟨.ofNat p, .ofNat t⟩, field ≠ .notSet := by
  rw [DatabaseClient.readData_dyn]
  cases db.select ⟨.ofNat p, .ofNat t⟩ with
  | none => simp [DatabaseClient.ofReply]
  | some field => cases field <;> simp [DatabaseClient.ofReply]

/-- A step that leaves calls and rows as they are. -/
theorem leavesNothing_of_eq (hI : LeavesNothing s) (h : Kept s) (h' : Kept s')
    (hcalls : s'.calls = s.calls) (hdb : s'.database = s.database) : LeavesNothing s' := by
  rw [h'.leavesNothing_iff_rowsGone, RowsGone, hcalls, hdb]
  exact h.leavesNothing_iff_rowsGone.mp hI

/-- A step in which a call moves on and the rows stay. -/
theorem leavesNothing_setPhase {phase : Phase} (hI : LeavesNothing s) (h : Kept s)
    (h' : Kept (s.setPhase i phase)) (hcall : s.calls[i]? = some call)
    (hold : ¬call.phase.isLeft) : LeavesNothing (s.setPhase i phase) ↔
      (phase.isLeft → s.database.NoRows call.problemId) := by
  rw [h'.leavesNothing_iff_rowsGone]
  exact (rowsGone_setPhase hcall hold).trans (and_iff_right (h.leavesNothing_iff_rowsGone.mp hI))

/-- A new call waits. -/
theorem leavesNothing_calculateProblem {request : AstRequest} (hI : LeavesNothing s) (h : Kept s)
    (h' : Kept s') (hlt : s'.calls.length < 2 ^ 32)
    (hstep : s.step (.calculateProblem request) = some s') : LeavesNothing s' := by
  rcases Cluster.step_calculateProblem.mp hstep with ⟨_, -, rfl⟩ | ⟨calcData, hnew, hs'⟩
  · exact hI
  obtain ⟨-, -, hcalls⟩ := Cluster.calculateProblem_spec h.accounted hlt.le hnew hs'
  have hdb : s'.database = s.database := by rw [hs']
  rw [h'.leavesNothing_iff_rowsGone, hdb]
  intro p call hcall hleft
  rcases hcalls hcall with ⟨-, hold⟩ | ⟨rfl, rfl⟩
  · exact h.leavesNothing_iff_rowsGone.mp hI p call hold hleft
  · cases hleft

/-- A read that finds no result leaves the call, and the rows where they are. -/
theorem leavesNothing_readData (hI : LeavesNothing s) (h : Kept s) (h' : Kept s')
    (hstep : s.step (.readData i) = some s') :
    LeavesNothing s' ↔ Cleans s (.served (.readData i)) := by
  obtain ⟨call, hcall, hphase, hcases⟩ := Cluster.step_readData.mp hstep
  have hold : ¬call.phase.isLeft := by simp [hphase, Phase.isLeft]
  have hcleans : Cleans s (.served (.readData i)) ↔
      (∃ r, DatabaseClient.readData s.database (.dynRecordId call.problemId call.taskId) =
        .ok r) ∨ s.database.NoRows call.problemId := by
    rw [readData_eq_ok_iff, Cleans]
    simp [hcall]
  rw [hcleans]
  rcases hcases with ⟨r, hr, rfl⟩ | ⟨fault, hfault, rfl⟩
  · rw [leavesNothing_setPhase hI h h' hcall hold]
    exact iff_of_true nofun (.inl ⟨r, hr⟩)
  · rw [leavesNothing_setPhase hI h h' hcall hold]
    simp [hfault, Phase.isLeft]

/-- What a served step keeps. -/
theorem leavesNothing_cluster_step {action : Cluster.Action} (hI : LeavesNothing s) (h : Kept s)
    (h' : Kept s') (hlt : s'.calls.length < 2 ^ 32) (hstep : s.step action = some s') :
    LeavesNothing s' ↔ Cleans s (.served action) := by
  have hlt' : s.calls.length < 2 ^ 32 := (Cluster.origin_step hstep).1.trans_lt hlt
  have hrows := h.leavesNothing_iff_rowsGone.mp hI
  cases action with
  | calculateProblem request =>
    exact iff_of_true (leavesNothing_calculateProblem hI h h' hlt hstep) trivial
  | sendComputableTasks =>
    obtain ⟨_, _, -, rfl⟩ := Cluster.step_sendComputableTasks.mp hstep
    exact iff_of_true (leavesNothing_of_eq hI h h' rfl rfl) trivial
  | relay identity task =>
    obtain ⟨-, rfl⟩ := Cluster.step_relay.mp hstep
    exact iff_of_true (leavesNothing_of_eq hI h h' rfl rfl) trivial
  | readOperand job =>
    obtain ⟨_, _, _, -, -, -, -, rfl⟩ := Cluster.step_readOperand.mp hstep
    exact iff_of_true (leavesNothing_of_eq hI h h' rfl rfl) trivial
  | calculate job =>
    obtain ⟨_, _, -, -, -, -, rfl⟩ := Cluster.step_calculate.mp hstep
    exact iff_of_true (leavesNothing_of_eq hI h h' rfl rfl) trivial
  | writeDynamicData job =>
    obtain ⟨_, -, ⟨hjob, -⟩, rfl⟩ := Cluster.step_writeDynamicData.mp hstep
    exact iff_of_true (h'.leavesNothing_iff_rowsGone.mpr (hrows.write h hlt' hjob)) trivial
  | reply job =>
    obtain ⟨-, -, rfl⟩ := Cluster.step_reply.mp hstep
    exact iff_of_true (leavesNothing_of_eq hI h h' rfl rfl) trivial
  | terminate identity =>
    obtain rfl := Cluster.step_terminate.mp hstep
    exact iff_of_true (leavesNothing_of_eq hI h h' rfl rfl) trivial
  | updateComputableTasks id =>
    obtain ⟨-, _, -, rfl⟩ := Cluster.step_updateComputableTasks.mp hstep
    exact iff_of_true (leavesNothing_of_eq hI h h' rfl rfl) trivial
  | clearProblem i =>
    obtain ⟨call, hcall, hphase, -, rfl⟩ := Cluster.step_clearProblem.mp hstep
    refine iff_of_true (h'.leavesNothing_iff_rowsGone.mpr ?_) trivial
    have hmoved : RowsGone (s.setPhase i .cleared) s.database :=
      (rowsGone_setPhase hcall (by simp [hphase, Phase.isLeft])).mpr ⟨hrows, nofun⟩
    exact hmoved
  | readData i => exact leavesNothing_readData hI h h' hstep
  | clearIntermediateCalculations i =>
    obtain ⟨call, r, hcall, hphase, rfl⟩ :=
      Cluster.step_clearIntermediateCalculations.mp hstep
    refine iff_of_true (h'.leavesNothing_iff_rowsGone.mpr ?_) trivial
    have hmoved : RowsGone (s.setPhase i (.returned r))
        (DatabaseClient.clearIntermediateCalculations s.database call.problemId) :=
      (rowsGone_setPhase hcall (by simp [hphase, Phase.isLeft])).mpr
        ⟨hrows.clear call.problemId, fun _ => noRows_clear⟩
    exact hmoved

/-- **Nothing stays behind exactly if the step cleans.** -/
theorem leavesNothing_step (h : Kept s) (hlt : s'.calls.length < 2 ^ 32) (hI : LeavesNothing s)
    (hstep : step s a = some s') : LeavesNothing s' ↔ Cleans s a := by
  have h' : Kept s' := h.step hlt hstep
  cases a with
  | served action => exact leavesNothing_cluster_step hI h h' hlt hstep
  | writeDynamicDataFails job =>
    obtain ⟨_, -, -, rfl⟩ := step_writeDynamicDataFails.mp hstep
    exact iff_of_true (leavesNothing_of_eq hI h h' rfl rfl) trivial
  | readDataFails i =>
    obtain ⟨call, hcall, hphase, rfl⟩ := step_readDataFails.mp hstep
    rw [leavesNothing_setPhase hI h h' hcall (by simp [hphase, Phase.isLeft])]
    simp [Phase.isLeft, Cleans, hcall]
  | clearIntermediateCalculationsFails i =>
    obtain ⟨call, r, hcall, hphase, rfl⟩ := step_clearIntermediateCalculationsFails.mp hstep
    rw [leavesNothing_setPhase hI h h' hcall (by simp [hphase, Phase.isLeft])]
    simp [Phase.isLeft, Cleans, hcall]

end Rows

/-! ## The others -/

/-- The entries and the rows of the other problems are as they were. -/
def OthersKept (s s' : Cluster) (p : ProblemId) : Prop :=
  (∀ q ≠ p, s'.dispatcher.problemIdToCalculationData[q]? =
      s.dispatcher.problemIdToCalculationData[q]? ∧
    s'.dispatcher.problemIdToSyncData[q]? = s.dispatcher.problemIdToSyncData[q]?) ∧
  ∀ key, key.problemId ≠ .ofNat p → s'.database.select key = s.database.select key

theorem OthersKept.of_eq {s s' : Cluster} {p : ProblemId} (hd : s'.dispatcher = s.dispatcher)
    (hdb : s'.database = s.database) : OthersKept s s' p := by
  simp [OthersKept, hd, hdb]

/-- **The step of a call is felt by its own problem only.** -/
theorem OthersKept.step {s s' : Cluster} {a : Action} {p : ProblemId}
    (hstep : Exits.step s a = some s') (hp : caller s a = some p) : OthersKept s s' p := by
  cases a with
  | served action =>
    cases action with
    | calculateProblem request =>
      obtain rfl := Option.some.inj hp
      rcases Cluster.step_calculateProblem.mp hstep with ⟨_, -, rfl⟩ | ⟨calcData, -, rfl⟩
      · exact .of_eq rfl rfl
      refine ⟨?_, fun _ _ => rfl⟩
      intro q hq
      simp [Dispatcher.pushProblem, Std.ExtTreeMap.getElem?_insertIfNew, Ne.symm hq]
    | clearProblem i =>
      obtain ⟨call, hcall, -, -, rfl⟩ := Cluster.step_clearProblem.mp hstep
      obtain rfl : call.problemId = p := by simpa [caller, hcall] using hp
      refine ⟨?_, fun _ _ => rfl⟩
      intro q hq
      simp [Dispatcher.clearProblem, Std.ExtTreeMap.getElem?_erase, Ne.symm hq]
    | readData i =>
      obtain ⟨call, -, -, ⟨_, -, rfl⟩ | ⟨_, -, rfl⟩⟩ := Cluster.step_readData.mp hstep
      · exact .of_eq rfl rfl
      · exact .of_eq rfl rfl
    | clearIntermediateCalculations i =>
      obtain ⟨call, _, hcall, -, rfl⟩ := Cluster.step_clearIntermediateCalculations.mp hstep
      obtain rfl : call.problemId = p := by simpa [caller, hcall] using hp
      refine ⟨fun _ _ => ⟨rfl, rfl⟩, ?_⟩
      intro key hkey
      exact DatabaseClient.select_clearIntermediateCalculations.trans (if_neg hkey)
    | _ => cases hp
  | writeDynamicDataFails job => cases hp
  | readDataFails i =>
    obtain ⟨_, -, -, rfl⟩ := step_readDataFails.mp hstep
    exact .of_eq rfl rfl
  | clearIntermediateCalculationsFails i =>
    obtain ⟨_, _, -, -, rfl⟩ := step_clearIntermediateCalculationsFails.mp hstep
    exact .of_eq rfl rfl

/-! ## Over a whole run -/

theorem Kept.of_runs {db : Database} {actions : List Action} {s : Cluster}
    (hrun : Runs Exits.step (.start db) actions s) (hlt : s.calls.length < 2 ^ 32) : Kept s :=
  hrun.invariant_within (P := fun s => s.calls.length < 2 ^ 32) (I := Kept)
    (fun _ _ _ hstep hlt => (length_step hstep).trans_lt hlt) (.init db)
    (fun _ _ _ h hlt hstep => h.step hlt hstep) hlt

/-- **When nothing is left behind.** While the ids in the table tell the problems apart and no
request is relayed twice (a request that is relayed is out of `requests`), every call that has been
left, in every state of a run, leaves neither an entry nor a row, if and only if every step of the
run cleans. The entries go in any case, a request that `CalculationData::New` rejects changes
nothing, and no step of a call touches what is there of another problem. -/
theorem leavesNothing_iff {db : Database} {actions : List Action} {s : Cluster}
    (hrun : Runs step (.start db) actions s) (hlt : s.calls.length < 2 ^ 32) :
    (Throughout step LeavesNothing (.start db) actions ↔ Meets step Cleans (.start db) actions) ∧
    (∀ call ∈ s.calls, call.phase.isLeft →
      call.problemId ∉ s.dispatcher.problemIdToCalculationData ∧
        call.problemId ∉ s.dispatcher.problemIdToSyncData) ∧
    (∀ request fault, CalculationData.new request.ast = .error fault →
      step s (.served (.calculateProblem request)) = some s) ∧
    ∀ a s' p, step s a = some s' → caller s a = some p → OthersKept s s' p := by
  refine ⟨?_, ?_, ?_, fun _ _ _ => OthersKept.step⟩
  · exact hrun.throughout_iff_meets_within (P := fun s => s.calls.length < 2 ^ 32) (J := Kept)
      (fun _ _ _ hstep hlt => (length_step hstep).trans_lt hlt)
      (fun _ _ _ h hlt hstep => h.step hlt hstep)
      (fun _ _ _ h hlt hI hstep => leavesNothing_step h hlt hI hstep) (.init db)
      (by simp [LeavesNothing, Cluster.start]) hlt
  · intro call hmem hleft
    obtain ⟨i, hcall⟩ := List.mem_iff_getElem?.mp hmem
    exact (Kept.of_runs hrun hlt).notMem hcall (Phase.ne_waiting_of_isLeft hleft)
  · intro request fault hnew
    exact Cluster.step_calculateProblem.mpr (.inl ⟨fault, hnew, rfl⟩)

/-- **Where the store answers, every step cleans**: the row of the root is there when it is read. -/
theorem meets_served {db : Database} (hempty : db.dynamicData = []) {actions : List Cluster.Action}
    {s : Cluster} (hrun : Runs Cluster.step (.start db) actions s)
    (hlt : s.calls.length < 2 ^ 32) : Meets step Cleans (.start db) (actions.map .served) := by
  rw [Meets.map_iff]
  refine hrun.meets_of_throughout (P := fun s => s.calls.length < 2 ^ 32) (W := fun _ => True)
    (I := fun s => s.calls.length < 2 ^ 32 → Cluster.Disciplined db s)
    (fun _ _ _ hstep hlt => (Cluster.origin_step hstep).1.trans_lt hlt) ?_ ?_ ?_ hlt
    (fun _ _ _ _ => trivial)
  · intro s a s' h _ hstep hlt
    exact (h ((Cluster.origin_step hstep).1.trans_lt hlt)).runs (Runs.single hstep) hlt
  · intro s a s' h hlt _ hstep
    have hsound := (h ((Cluster.origin_step hstep).1.trans_lt hlt)).sound
    cases a with
    | readData i =>
      intro call hcall
      obtain ⟨_, hcall', hphase, -⟩ := Cluster.step_readData.mp hstep
      obtain rfl := Option.some.inj (hcall.symm.trans hcall')
      obtain ⟨hid, hroot, -⟩ := hsound.call i call hcall
      have hok := hsound.phase i call hcall (Cluster.untainted_of_nil hempty)
      rw [hphase] at hok
      obtain ⟨r, -, hrow⟩ := hok
      rw [hid, hroot]
      exact .inl ⟨_, hrow, by cases r <;> simp [DatabaseClient.toField]⟩
    | _ => trivial
  · intro _
    exact ⟨.init db, .init hempty⟩

/-- The mean of a list, served all the way, leaves nothing. -/
theorem leavesNothing_mean : ∃ s call,
    Runs step (.start Cluster.numbers) (Cluster.meanRun.map .served) s ∧ s.calls = [call] ∧
    call.phase = .returned (.scalar 3) ∧
    Throughout step LeavesNothing (.start Cluster.numbers) (Cluster.meanRun.map .served) := by
  obtain ⟨s, call, hrun, hcalls, hphase, -⟩ := Cluster.runs_meanRun
  have hlt : s.calls.length < 2 ^ 32 := by simp [hcalls]
  have hserved : Runs step (.start Cluster.numbers) (Cluster.meanRun.map .served) s := by
    rw [Runs, List.foldlM_map]
    exact hrun
  obtain ⟨hiff, -⟩ := @leavesNothing_iff Cluster.numbers _ s hserved hlt
  exact ⟨s, call, hserved, hcalls, hphase, hiff.mpr (meets_served rfl hrun hlt)⟩

/-- The mean of a list, up to the read of the root. That call to the store fails. -/
def meanUnread : List Action := (Cluster.meanRun.take 23).map .served ++ [.readDataFails 0]

/-- The read throws, so the rows of the tasks stay in the table. -/
theorem readDataFails_leaves : ∃ s call, Runs step (.start Cluster.numbers) meanUnread s ∧
    s.calls = [call] ∧ call.phase = .threw (.thrown (.logicError "Invalid message")) ∧
    s.database.select ⟨0, 1⟩ = some (.scalar 15) ∧
    ¬Throughout step LeavesNothing (.start Cluster.numbers) meanUnread := by
  obtain ⟨s, call, hrun, hcalls, hphase, hid, hrow⟩ : ∃ s call,
      Runs step (.start Cluster.numbers) meanUnread s ∧ s.calls = [call] ∧
        call.phase = .threw (.thrown (.logicError "Invalid message")) ∧ call.problemId = 0 ∧
        s.database.select ⟨0, 1⟩ = some (.scalar 15) := ⟨_, _, rfl, rfl, rfl, rfl, rfl⟩
  refine ⟨s, call, hrun, hcalls, hphase, hrow, ?_⟩
  intro hall
  have hall : LeavesNothing s := hall _ s (List.prefix_refl meanUnread) hrun
  have hgone : Gone s call.problemId :=
    hall call (by simp [hcalls]) (by simp [hphase, Phase.isLeft])
  have hnone := Database.noRows_iff.mp hgone.noRows ⟨0, 1⟩ (by rw [hid]; rfl)
  rw [hrow] at hnone
  cases hnone

end Exits
end TaskDispatch
