import Mathlib
import TaskDispatch.Cluster.Cluster

/-!
# Every row holds the value of its vertex

The invariant that links the store to the trees: a row under an operator of a submitted problem
holds the value of that operator, and the row is there once the vertex is completed, as well as
while its answer is on the way (`Sound`). A worker reads the values of the operands, because the
task was only sent when they were completed, and so computes the value of the vertex. What
`CalculateProblem` returns is the value at the root.

The invariant speaks about the problems for which the rows in the store at the start, where there
are any under their id, are right (`Untainted`). An empty store has none (`result_eq_eval`). Rows
that an earlier manager left behind are not told apart from the new ones: a write that hits one is
lost without a word, and whoever reads the key gets the old value (`stale_row_returned`); a problem
whose id has no wrong row gets the right result (`result_eq_eval_after_restart`).
-/

set_option autoImplicit false

namespace TaskDispatch

open Proto Frontier Transition

namespace Cluster

/-! ## Rows and values -/

/-- The value of the vertex is there to be read. -/
def HasValue (read : VariableId → Result ExprResult) (db : Database) (request : AstRequest)
    (p : ProblemId) (v : TaskDispatch.TaskId) : Prop :=
  ∃ r, request.ast.valueAt read v = .ok r ∧
    db.select ⟨.ofNat p, .ofNat v⟩ = some (DatabaseClient.toField r)

/-- A row under an operator of the tree holds its value. -/
def AgreesWith (read : VariableId → Result ExprResult) (db : Database) (request : AstRequest)
    (p : ProblemId) : Prop :=
  ∀ v < request.ast.vertexCount, request.ast.dag.deps v ≠ [] → ∀ field,
    db.select ⟨.ofNat p, .ofNat v⟩ = some field →
      ∃ r, request.ast.valueAt read v = .ok r ∧ field = DatabaseClient.toField r

/-- The rows that were there before the run are right for the tree that gets their id. -/
def Untainted (db₀ : Database) (p : ProblemId) (request : AstRequest) : Prop :=
  AgreesWith (start db₀).read db₀ request p

/-- What a job has so far is right. -/
def StageOk (read : VariableId → Result ExprResult) (db : Database) (request : AstRequest)
    (p : ProblemId) (v : TaskDispatch.TaskId) : Stage → Prop
  | .extracting operands =>
    List.Forall₂ (fun u r => request.ast.valueAt read u = .ok r)
      ((request.ast.dag.deps v).take operands.length) operands
  | .calculated r => request.ast.valueAt read v = .ok r
  | .written => HasValue read db request p v

/-- What a call has so far is right, and it does not throw. -/
def PhaseOk (read : VariableId → Result ExprResult) (db : Database) (request : AstRequest)
    (p : ProblemId) : Phase → Prop
  | .waiting => True
  | .cleared => HasValue read db request p request.ast.dag.root
  | .read r | .returned r => request.ast.root.eval read = .ok r
  | .threw _ => False

section Rows

variable {read : VariableId → Result ExprResult} {db db' : Database} {request : AstRequest}
  {p : ProblemId} {v : TaskDispatch.TaskId} {stage : Stage} {phase : Phase}

/-- The rows of a problem are kept. -/
def KeepsRows (db db' : Database) (p : ProblemId) : Prop :=
  ∀ (v : TaskDispatch.TaskId) (field : Field), db.select ⟨.ofNat p, .ofNat v⟩ = some field →
    db'.select ⟨.ofNat p, .ofNat v⟩ = some field

theorem HasValue.mono (hkeep : KeepsRows db db' p) (h : HasValue read db request p v) :
    HasValue read db' request p v := by
  obtain ⟨r, hvalue, hrow⟩ := h
  exact ⟨r, hvalue, hkeep v _ hrow⟩

theorem StageOk.mono (hkeep : KeepsRows db db' p) (h : StageOk read db request p v stage) :
    StageOk read db' request p v stage := by
  cases stage with
  | extracting operands => exact h
  | calculated r => exact h
  | written => exact HasValue.mono hkeep h

theorem PhaseOk.mono (hkeep : KeepsRows db db' p) (h : PhaseOk read db request p phase) :
    PhaseOk read db' request p phase := by
  cases phase with
  | cleared => exact HasValue.mono hkeep h
  | waiting | read r | returned r | threw fault => exact h

/-- Reading the row gives the value. -/
theorem HasValue.readData (h : HasValue read db request p v) : ∃ r,
    request.ast.valueAt read v = .ok r ∧
      DatabaseClient.readData db (.dynRecordId p v) = .ok r := by
  obtain ⟨r, hvalue, hrow⟩ := h
  refine ⟨r, hvalue, ?_⟩
  rw [DatabaseClient.readData_dyn, hrow]
  exact DatabaseClient.ofReply_toField r

/-- A write leaves the rows that are there. -/
theorem keepsRows_write {q t : ℕ} {r : ExprResult} :
    KeepsRows db (DatabaseClient.writeDynamicData db q t r) p := by
  intro v field hrow
  rw [DatabaseClient.select_writeDynamicData, if_neg, hrow]
  rintro ⟨-, hnone⟩
  rw [hrow] at hnone
  cases hnone

/-- Clearing one problem leaves the rows of another. -/
theorem keepsRows_clear {q : ProblemId} (hp : p < 2 ^ 32) (hq : q < 2 ^ 32) (hne : p ≠ q) :
    KeepsRows db (DatabaseClient.clearIntermediateCalculations db q) p := by
  intro v field hrow
  rw [DatabaseClient.select_clearIntermediateCalculations, if_neg, hrow]
  intro heq
  apply hne
  have hnat := congrArg UInt32.toNat heq
  rwa [toNat_ofNat_of_lt hp, toNat_ofNat_of_lt hq] at hnat

/-- Writing the value of a vertex puts it there, whether or not a right row was there before. -/
theorem HasValue.write {r : ExprResult} (hvalue : request.ast.valueAt read v = .ok r)
    (hagree : ∀ field, db.select ⟨.ofNat p, .ofNat v⟩ = some field →
      ∃ r, request.ast.valueAt read v = .ok r ∧ field = DatabaseClient.toField r) :
    HasValue read (DatabaseClient.writeDynamicData db (UInt32.ofNat p).toNat
      (UInt32.ofNat v).toNat r) request p v := by
  refine ⟨r, hvalue, ?_⟩
  rw [DatabaseClient.select_writeDynamicData, UInt32.ofNat_toNat, UInt32.ofNat_toNat]
  cases hrow : db.select ⟨.ofNat p, .ofNat v⟩ with
  | none => rw [if_pos ⟨rfl, rfl⟩]
  | some field =>
    obtain ⟨r', hvalue', rfl⟩ := hagree field hrow
    obtain rfl := Except.ok.inj (hvalue.symm.trans hvalue')
    simp

end Rows

/-! ## The invariant -/

/-- `v` is an operator of the tree the id `p` was given to. -/
structure OperatorOf (origin : ProblemId → Option AstRequest) (p : ProblemId) (request : AstRequest)
    (v : TaskDispatch.TaskId) : Prop where
  origin_eq : origin p = some request
  lt : v < request.ast.vertexCount
  deps : request.ast.dag.deps v ≠ []

theorem OperatorOf.mono {origin origin' : ProblemId → Option AstRequest} {p : ProblemId}
    {request : AstRequest} {v : TaskDispatch.TaskId}
    (hold : ∀ p request, origin p = some request → origin' p = some request)
    (h : OperatorOf origin p request v) : OperatorOf origin' p request v :=
  { h with origin_eq := hold p request h.origin_eq }

/-- The invariant, for a run that starts on the store `db₀`. -/
structure Sound (db₀ : Database) (s : Cluster) : Prop where
  accounted : s.exchange.Accounted
  static : s.database.staticData = db₀.staticData
  call : ∀ i call, s.calls[i]? = some call → call.problemId = i ∧
    call.taskId = call.request.ast.dag.root ∧
    (call.phase = .waiting ↔ i ∈ s.dispatcher.problemIdToCalculationData)
  later : ∀ id, s.calls.length ≤ id.problemId.toNat → s.database.select id = db₀.select id
  agrees : ∀ p request, s.origin p = some request → Untainted db₀ p request →
    AgreesWith (start db₀).read s.database request p
  completed : ∀ p request calcData v, OperatorOf s.origin p request v →
    s.dispatcher.problemIdToCalculationData[p]? = some calcData →
    v ∈ calcData.schedule.completed → Untainted db₀ p request →
    HasValue (start db₀).read s.database request p v
  request : ∀ t ∈ s.requests, ∃ p request v, OperatorOf s.origin p request v ∧
    t = request.ast.taskRequest p v
  job : ∀ job ∈ s.jobs, ∃ p request v, OperatorOf s.origin p request v ∧
    job.task.task = request.ast.taskRequest p v ∧
    (Untainted db₀ p request → StageOk (start db₀).read s.database request p v job.stage)
  reply : ∀ id ∈ s.replies, ∃ p request v, OperatorOf s.origin p request v ∧ id = .mk' p v ∧
    (Untainted db₀ p request → HasValue (start db₀).read s.database request p v)
  phase : ∀ p call, s.calls[p]? = some call → Untainted db₀ p call.request →
    PhaseOk (start db₀).read s.database call.request p call.phase

namespace Sound

variable {db₀ : Database} {s s' : Cluster} {p : ProblemId} {request : AstRequest}
  {v : TaskDispatch.TaskId} {job : Job} {id : Proto.TaskId} {i : ℕ} {call : Call}

theorem init (db₀ : Database) : Sound db₀ (start db₀) where
  accounted := Exchange.Accounted.init
  static := rfl
  call := by simp [start]
  later _ _ := rfl
  agrees := by simp [start, origin]
  completed := by simp [start]
  request := by simp [start]
  job := by simp [start]
  reply := by simp [start]
  phase := by simp [start]

theorem read_eq (h : Sound db₀ s) : s.read = (start db₀).read :=
  funext fun identifier => DatabaseClient.readData_identifier_congr h.static identifier

theorem lt_length (horigin : s.origin p = some request) : p < s.calls.length := by
  obtain ⟨call, hcall, -⟩ := Option.map_eq_some_iff.mp horigin
  exact (List.getElem?_eq_some_iff.mp hcall).1

/-- A task that is on its way belongs to a live problem, and is in process there. -/
theorem live (h : Sound db₀ s) (hlt : s.calls.length < 2 ^ 32)
    (hop : OperatorOf s.origin p request v) (hid : TaskId.mk' p v ∈ s.exchange.inFlight) :
    ∃ calcData syncData,
      s.dispatcher.problemIdToCalculationData[p]? = some calcData ∧
      Exchange.Live request syncData calcData ∧ v ∈ calcData.schedule.processing := by
  obtain ⟨q, calcData, u, request', syncData, heq, -, -, hcd, horigin, -, hlive, hu, hult⟩ :=
    h.accounted.of_mem_inFlight hlt.le hid
  obtain ⟨rfl, rfl⟩ := (h.accounted.mk'_inj hlt.le hop.origin_eq hop.lt horigin hult).mp heq
  obtain rfl := Option.some.inj (hop.origin_eq.symm.trans horigin)
  exact ⟨calcData, syncData, hcd, hlive, hu⟩

theorem job_inFlight (hjob : job ∈ s.jobs) (htask : job.task.task = request.ast.taskRequest p v) :
    TaskId.mk' p v ∈ s.exchange.inFlight := by
  have hid : job.id = .mk' p v := by
    rw [Job.id, htask]
    rfl
  exact Multiset.mem_add.mpr (.inl (Multiset.mem_add.mpr (.inr
    (Multiset.mem_map.mpr ⟨job, hjob, hid⟩))))

theorem request_inFlight (ht : request.ast.taskRequest p v ∈ s.requests) :
    TaskId.mk' p v ∈ s.exchange.inFlight :=
  Multiset.mem_add.mpr (.inl (Multiset.mem_add.mpr (.inl
    (Multiset.mem_map.mpr ⟨_, ht, rfl⟩))))

theorem reply_inFlight (hid : id ∈ s.replies) : id ∈ s.exchange.inFlight :=
  Multiset.mem_add.mpr (.inr hid)

/-- The operands of a task on its way have their values. -/
theorem operand_hasValue (h : Sound db₀ s) (hlt : s.calls.length < 2 ^ 32)
    (hop : OperatorOf s.origin p request v) (hid : TaskId.mk' p v ∈ s.exchange.inFlight)
    (huntainted : Untainted db₀ p request) {u : TaskDispatch.TaskId}
    (hu : u ∈ request.ast.dag.deps v) (hdeps : request.ast.dag.deps u ≠ []) :
    HasValue (start db₀).read s.database request p u := by
  obtain ⟨calcData, syncData, hcd, hlive, hv⟩ := h.live hlt hop hid
  have hcompleted := (hlive.tracks.coherent.processing_subset hv).2.2.2 u hu
  have hult := request.ast.dag.deps_mem v hop.lt u hu
  exact h.completed p request calcData u ⟨hop.origin_eq, hult, hdeps⟩ hcd hcompleted huntainted

/-! ### The worker's steps -/

/-- A leaf that a task refers to has a variable. -/
theorem leafVariable_isSome (h : Sound db₀ s) (hlt : s.calls.length < 2 ^ 32)
    (hop : OperatorOf s.origin p request v) (hid : TaskId.mk' p v ∈ s.exchange.inFlight)
    {u : TaskDispatch.TaskId} (hu : u ∈ request.ast.dag.deps v)
    (hdeps : request.ast.dag.deps u = []) :
    (request.ast.decompositor.leafVariable u).isSome := by
  obtain ⟨calcData, syncData, -, hlive, -⟩ := h.live hlt hop hid
  have hult : u < request.ast.vertexCount := request.ast.dag.deps_mem v hop.lt u hu
  obtain ⟨-, hsome⟩ :=
    TaskDecompositor.getElem?_getIndependentTasks _ hlive.tracks.independent u
  exact hsome (AST.mem_tasks_decompositor.mpr hult) ((AST.isLeaf_iff hult).mpr hdeps)

/-- **What a worker reads for an operand is the value of the operand**, and it does read
something. -/
theorem readOperand_eq (h : Sound db₀ s) (hlt : s.calls.length < 2 ^ 32)
    (hop : OperatorOf s.origin p request v) (hid : TaskId.mk' p v ∈ s.exchange.inFlight)
    (huntainted : Untainted db₀ p request) {u : TaskDispatch.TaskId}
    (hu : u ∈ request.ast.dag.deps v) :
    ThreadPool.readOperand s.database (request.ast.operand p u) =
      request.ast.valueAt (start db₀).read u := by
  have hult : u < request.ast.vertexCount := request.ast.dag.deps_mem v hop.lt u hu
  cases hvar : request.ast.decompositor.leafVariable u with
  | some x =>
    rw [AST.operand, hvar, AST.valueAt_leaf hult hvar]
    exact congrFun h.read_eq x
  | none =>
    have hdeps : request.ast.dag.deps u ≠ [] := by
      intro hnil
      have hsome := h.leafVariable_isSome hlt hop hid hu hnil
      rw [hvar] at hsome
      cases hsome
    obtain ⟨r, hvalue, hread⟩ := (h.operand_hasValue hlt hop hid huntainted hu hdeps).readData
    have hp : p < 2 ^ 32 := (lt_length hop.origin_eq).trans hlt
    rw [AST.operand, hvar, hvalue, ← hread]
    show DatabaseClient.readData s.database (.dynRecordId (UInt32.ofNat p).toNat
      (UInt32.ofNat u).toNat) = _
    rw [toNat_ofNat_of_lt hp, toNat_ofNat_of_lt (hult.trans request.vertexCount_lt)]

theorem mem_advance {stage : Stage} {job' : Job} (h : job' ∈ (s.advance job stage).jobs) :
    job' = { job with stage } ∨ job' ∈ s.jobs :=
  (Multiset.mem_cons.mp h).imp_right Multiset.mem_of_mem_erase

/-- A job that moves on while nothing else changes. -/
theorem advance (h : Sound db₀ s) {stage : Stage}
    (haccounted : (s.advance job stage).exchange.Accounted) (hjob : job ∈ s.jobs)
    (hstage : ∀ p request v, OperatorOf s.origin p request v →
      job.task.task = request.ast.taskRequest p v → Untainted db₀ p request →
      StageOk (start db₀).read s.database request p v job.stage →
      StageOk (start db₀).read s.database request p v stage) :
    Sound db₀ (s.advance job stage) where
  accounted := haccounted
  static := h.static
  call := h.call
  later := h.later
  agrees := h.agrees
  completed := h.completed
  request := h.request
  job job' hjob' := by
    rcases mem_advance hjob' with rfl | hold
    · obtain ⟨p, request, v, hop, htask, hok⟩ := h.job job hjob
      exact ⟨p, request, v, hop, htask, fun huntainted =>
        hstage p request v hop htask huntainted (hok huntainted)⟩
    · exact h.job job' hold
  reply := h.reply
  phase := h.phase

theorem readOperand (h : Sound db₀ s) (hlt : s.calls.length < 2 ^ 32)
    (haccounted : s'.exchange.Accounted) (hstep : Cluster.step s (.readOperand job) = some s') :
    Sound db₀ s' := by
  obtain ⟨operands, operand, r, hstage, ⟨hjob, -⟩, hoperand, hread, rfl⟩ :=
    step_readOperand.mp hstep
  apply h.advance haccounted hjob
  intro p request v hop htask huntainted hok
  rw [hstage] at hok
  rw [htask] at hoperand
  obtain ⟨u, hu, rfl⟩ := List.getElem?_map.symm.trans hoperand |> Option.map_eq_some_iff.mp
  rw [h.readOperand_eq hlt hop (job_inFlight hjob htask) huntainted
    (List.mem_of_getElem? hu)] at hread
  show List.Forall₂ _ ((request.ast.dag.deps v).take (operands ++ [r]).length) _
  rw [List.length_append, List.length_singleton, List.take_add_one, hu]
  exact List.rel_append hok (.cons hread .nil)

theorem calculate (h : Sound db₀ s) (haccounted : s'.exchange.Accounted)
    (hstep : Cluster.step s (.calculate job) = some s') : Sound db₀ s' := by
  obtain ⟨operands, r, hstage, ⟨hjob, -⟩, hlength, hcalculate, rfl⟩ := step_calculate.mp hstep
  apply h.advance haccounted hjob
  intro p request v hop htask _ hok
  rw [hstage] at hok
  rw [htask] at hlength
  have hall : List.Forall₂ (fun u r => request.ast.valueAt (start db₀).read u = .ok r)
      (request.ast.dag.deps v) operands := by
    have hdeps : operands.length = (request.ast.dag.deps v).length :=
      hlength.trans (List.length_map _)
    have htake : (request.ast.dag.deps v).take operands.length = request.ast.dag.deps v :=
      List.take_of_length_le hdeps.ge
    exact htake ▸ hok
  show request.ast.valueAt (start db₀).read v = .ok r
  rw [AST.valueAt_operator hop.lt hop.deps hall, ← hcalculate, ThreadPool.calculate, htask,
    AST.ofOperationType_taskRequest]

/-- The row a job writes to. -/
theorem writeResult_eq (htask : job.task.task = request.ast.taskRequest p v) (db : Database)
    (r : ExprResult) : ThreadPool.writeResult db job.task r =
      DatabaseClient.writeDynamicData db (UInt32.ofNat p).toNat (UInt32.ofNat v).toNat r := by
  rw [ThreadPool.writeResult, htask]
  rfl

theorem writeDynamicData (h : Sound db₀ s) (hlt : s.calls.length < 2 ^ 32)
    (haccounted : s'.exchange.Accounted)
    (hstep : Cluster.step s (.writeDynamicData job) = some s') : Sound db₀ s' := by
  obtain ⟨r, hstage, ⟨hjob, -⟩, rfl⟩ := step_writeDynamicData.mp hstep
  obtain ⟨p, request, v, hop, htask, hvalue⟩ := h.job job hjob
  rw [hstage] at hvalue
  have hdb := writeResult_eq htask s.database r
  have hkeep : ∀ q, KeepsRows s.database (ThreadPool.writeResult s.database job.task r) q :=
    fun q => keepsRows_write
  have hplt := lt_length hop.origin_eq
  refine
    { accounted := haccounted
      static := ?_
      call := h.call
      later := ?_
      agrees := ?_
      completed := fun q request' calcData u hop' hcd hu huntainted =>
        (h.completed q request' calcData u hop' hcd hu huntainted).mono (hkeep q)
      request := h.request
      job := ?_
      reply := ?_
      phase := fun q call hcall huntainted => (h.phase q call hcall huntainted).mono (hkeep q) }
  · show (ThreadPool.writeResult s.database job.task r).staticData = _
    rw [hdb, DatabaseClient.staticData_writeDynamicData, h.static]
  · -- the row written is under the id of a call, so under none to come
    intro id hid
    show (ThreadPool.writeResult s.database job.task r).select id = _
    rw [hdb, DatabaseClient.select_writeDynamicData, if_neg, h.later id hid]
    rintro ⟨rfl, -⟩
    have hle : s.calls.length ≤ (UInt32.ofNat (UInt32.ofNat p).toNat).toNat := hid
    rw [UInt32.ofNat_toNat, toNat_ofNat_of_lt (hplt.trans hlt)] at hle
    exact absurd hle (not_le.mpr hplt)
  · intro q request' hq huntainted u hult hdeps field hrow
    have hrow : (ThreadPool.writeResult s.database job.task r).select ⟨.ofNat q, .ofNat u⟩ =
      some field := hrow
    rw [hdb, DatabaseClient.select_writeDynamicData, UInt32.ofNat_toNat, UInt32.ofNat_toNat]
      at hrow
    split_ifs at hrow with hkey
    · -- the new row: its vertex is the one the job was for
      obtain ⟨rfl, rfl⟩ := (h.accounted.mk'_inj hlt.le hq hult hop.origin_eq hop.lt).mp
        (congrArg (fun key : DynamicRecordId => (⟨key.problemId, key.taskId⟩ : Proto.TaskId))
          hkey.1)
      obtain rfl := Option.some.inj (hop.origin_eq.symm.trans hq)
      exact ⟨r, hvalue huntainted, (Option.some.inj hrow).symm⟩
    · exact h.agrees q request' hq huntainted u hult hdeps field hrow
  · intro job' hjob'
    rcases mem_advance hjob' with rfl | hold
    · -- a row that was there already has the same value, so both writes leave it
      refine ⟨p, request, v, hop, htask, ?_⟩
      intro huntainted
      show HasValue _ (ThreadPool.writeResult s.database job.task r) _ _ _
      rw [hdb]
      exact HasValue.write (hvalue huntainted)
        (h.agrees p request hop.origin_eq huntainted v hop.lt hop.deps)
    · obtain ⟨q, request', u, hop', htask', hok⟩ := h.job job' hold
      exact ⟨q, request', u, hop', htask', fun huntainted => (hok huntainted).mono (hkeep q)⟩
  · intro id hid
    obtain ⟨q, request', u, hop', heq, hvalue'⟩ := h.reply id hid
    exact ⟨q, request', u, hop', heq, fun huntainted => (hvalue' huntainted).mono (hkeep q)⟩

theorem reply' (h : Sound db₀ s) (haccounted : s'.exchange.Accounted)
    (hstep : Cluster.step s (.reply job) = some s') : Sound db₀ s' := by
  obtain ⟨⟨hjob, -⟩, hstage, rfl⟩ := step_reply.mp hstep
  refine { h with
    accounted := haccounted
    job := fun job' hjob' => h.job job' (Multiset.mem_of_mem_erase hjob')
    reply := ?_ }
  intro id hid
  rcases Multiset.mem_cons.mp hid with rfl | hold
  · obtain ⟨p, request, v, hop, htask, hvalue⟩ := h.job job hjob
    rw [hstage] at hvalue
    refine ⟨p, request, v, hop, ?_, hvalue⟩
    rw [Job.id, htask]
    rfl
  · exact h.reply id hold

theorem relay {identity : String} {task : Task} (h : Sound db₀ s)
    (haccounted : s'.exchange.Accounted)
    (hstep : Cluster.step s (.relay identity task) = some s') : Sound db₀ s' := by
  obtain ⟨htask, rfl⟩ := step_relay.mp hstep
  refine { h with
    accounted := haccounted
    request := fun t ht => h.request t (Multiset.mem_of_mem_erase ht)
    job := ?_ }
  intro job hjob
  rcases Multiset.mem_cons.mp hjob with rfl | hold
  · obtain ⟨p, request, v, hop, heq⟩ := h.request task htask
    exact ⟨p, request, v, hop, heq, fun _ => List.Forall₂.nil⟩
  · exact h.job job hold

/-! ### The dispatcher's steps -/

theorem sendComputableTasks {order : PassOrder} (h : Sound db₀ s)
    (haccounted : s'.exchange.Accounted)
    (hstep : Cluster.step s (.sendComputableTasks order) = some s') : Sound db₀ s' := by
  obtain ⟨tasks, dispatcher, hsend, rfl⟩ := step_sendComputableTasks.mp hstep
  have hentries : ∀ q : ProblemId, dispatcher.problemIdToCalculationData[q]? =
      s.dispatcher.problemIdToCalculationData[q]?.map CalculationData.markSent := by
    intro q
    rw [Dispatcher.sendComputableTasks_eq] at hsend
    obtain ⟨-, rfl⟩ := Prod.mk.inj (Except.ok.inj hsend)
    rw [Std.ExtTreeMap.getElem?_map]
  refine { h with
    accounted := haccounted
    call := ?_
    completed := ?_
    request := ?_ }
  · intro i call hcall
    obtain ⟨hid, hroot, hwaiting⟩ := h.call i call hcall
    refine ⟨hid, hroot, ?_⟩
    rw [hwaiting, Std.ExtTreeMap.mem_iff_isSome_getElem?, Std.ExtTreeMap.mem_iff_isSome_getElem?,
      hentries, Option.isSome_map]
  · intro p request calcData' v hop hcd hv
    -- a pass changes no task that is completed
    rw [hentries, Option.map_eq_some_iff] at hcd
    obtain ⟨calcData, hcd, rfl⟩ := hcd
    obtain ⟨-, _, _, -, -, hlive⟩ := h.accounted.entry hcd
    rw [hlive.tracks.schedule_markSent] at hv
    exact h.completed p request calcData v hop hcd hv
  · intro t ht
    rcases Multiset.mem_add.mp ht with hold | hnew
    · exact h.request t hold
    · -- a new request is for a computable task, so for an operator
      obtain ⟨p, calcData, v, dependencies, hcd, hdeps, rfl⟩ :=
        (Dispatcher.mem_sendComputableTasks hsend t).mp (Multiset.mem_coe.mp hnew)
      obtain ⟨-, request, _, horigin, -, hlive⟩ := h.accounted.entry hcd
      have hcomputable : v ∈ calcData.schedule.computable :=
        (Std.ExtTreeMap.getElem?_eq_some_iff.mp hdeps).1
      obtain ⟨hvlt, hne, -, -⟩ := Exchange.Accounted.of_computable hlive hcomputable
      refine ⟨p, request, v, ⟨horigin, hvlt, hne⟩, ?_⟩
      rw [hlive.tracks.dependencies v dependencies hdeps, hlive.tracks.taskRequest_eq hvlt]

theorem updateComputableTasks (h : Sound db₀ s) (hlt : s.calls.length < 2 ^ 32)
    (haccounted : s'.exchange.Accounted)
    (hstep : Cluster.step s (.updateComputableTasks id) = some s') : Sound db₀ s' := by
  obtain ⟨p, calcData, v, request, syncData, calcData', heq, -, horigin, hcd, hlive, hv, hentries,
    hcompleted, -⟩ := h.accounted.update_spec hlt.le (exchange_update hstep)
  obtain ⟨hid, dispatcher, -, rfl⟩ := step_updateComputableTasks.mp hstep
  replace hentries : ∀ q : ProblemId, dispatcher.problemIdToCalculationData[q]? =
      if q = p then some calcData' else s.dispatcher.problemIdToCalculationData[q]? := hentries
  refine { h with
    accounted := haccounted
    call := ?_
    completed := ?_
    reply := fun id' hid' => h.reply id' (Multiset.mem_of_mem_erase hid') }
  · intro i call hcall
    obtain ⟨hid, hroot, hwaiting⟩ := h.call i call hcall
    refine ⟨hid, hroot, ?_⟩
    rw [hwaiting, Std.ExtTreeMap.mem_iff_isSome_getElem?, Std.ExtTreeMap.mem_iff_isSome_getElem?,
      hentries]
    -- no problem leaves the maps
    by_cases hip : i = p
    · rw [if_pos hip, hip]
      exact iff_of_true (Option.isSome_of_eq_some hcd) rfl
    · rw [if_neg hip]
  · intro q request' calcData₁ u hop hcd₁ hu huntainted
    rw [hentries] at hcd₁
    by_cases hqp : q = p
    · subst hqp
      rw [if_pos rfl, Option.some.injEq] at hcd₁
      rw [← hcd₁, hcompleted] at hu
      rcases hu with rfl | hu
      · -- the task answered: its row was written before the worker replied
        obtain ⟨q', request₁, u', hop', heq', hvalue⟩ := h.reply id hid
        obtain ⟨rfl, rfl⟩ := (h.accounted.mk'_inj hlt.le hop.origin_eq hop.lt hop'.origin_eq
          hop'.lt).mp (heq.symm.trans heq')
        obtain rfl := Option.some.inj (hop.origin_eq.symm.trans hop'.origin_eq)
        exact hvalue huntainted
      · exact h.completed q request' calcData u hop hcd hu huntainted
    · rw [if_neg hqp] at hcd₁
      exact h.completed q request' calcData₁ u hop hcd₁ hu huntainted

/-! ### The client threads' steps -/

/-- A call that moves on from one phase of the second half to the next. -/
theorem setPhase_call (h : Sound db₀ s) {phase : Phase} (hcall : s.calls[i]? = some call)
    (hold : call.phase ≠ .waiting) (hnew : phase ≠ .waiting) (p : ℕ) (call' : Call)
    (hcall' : (s.setPhase i phase).calls[p]? = some call') :
    call'.problemId = p ∧ call'.taskId = call'.request.ast.dag.root ∧
      (call'.phase = .waiting ↔ p ∈ s.dispatcher.problemIdToCalculationData) := by
  rcases of_getElem?_setPhase hcall hcall' with ⟨rfl, rfl⟩ | ⟨-, hcall'⟩
  · obtain ⟨hid, hroot, hwaiting⟩ := h.call p call hcall
    exact ⟨hid, hroot, iff_of_false hnew fun hmem => hold (hwaiting.mpr hmem)⟩
  · exact h.call p call' hcall'

/-- The phases after a call has moved on. -/
theorem setPhase_phase {phase : Phase} {db : Database}
    (h : ∀ p call, p ≠ i → s.calls[p]? = some call → Untainted db₀ p call.request →
      PhaseOk (start db₀).read db call.request p call.phase)
    (hcall : s.calls[i]? = some call)
    (hphase : Untainted db₀ i call.request → PhaseOk (start db₀).read db call.request i phase)
    (p : ℕ) (call' : Call) (hcall' : (s.setPhase i phase).calls[p]? = some call')
    (huntainted : Untainted db₀ p call'.request) :
    PhaseOk (start db₀).read db call'.request p call'.phase := by
  rcases of_getElem?_setPhase hcall hcall' with ⟨rfl, rfl⟩ | ⟨hne, hcall'⟩
  · exact hphase huntainted
  · exact h p call' hne hcall' huntainted

/-- A call moves on. Problems may leave the maps and rows may go, but not rows of a problem in the
maps. -/
theorem moveOn (h : Sound db₀ s) (hlt : s.calls.length < 2 ^ 32) (phase : Phase)
    (dispatcher : Dispatcher) (database : Database)
    (haccounted : Exchange.Accounted
      (exchange { s.setPhase i phase with dispatcher, database }))
    (hstatic : database.staticData = s.database.staticData)
    (hrows : ∀ id field, database.select id = some field → s.database.select id = some field)
    (hlater : ∀ id, s.calls.length ≤ id.problemId.toNat →
      database.select id = s.database.select id)
    (hkeep : ∀ q ∈ s.dispatcher.problemIdToCalculationData, KeepsRows s.database database q)
    (hentries : ∀ (q : ProblemId) calcData,
      dispatcher.problemIdToCalculationData[q]? = some calcData →
        s.dispatcher.problemIdToCalculationData[q]? = some calcData)
    (hcall : ∀ p call, (s.setPhase i phase).calls[p]? = some call → call.problemId = p ∧
      call.taskId = call.request.ast.dag.root ∧
      (call.phase = .waiting ↔ p ∈ dispatcher.problemIdToCalculationData))
    (hphase : ∀ p call, (s.setPhase i phase).calls[p]? = some call →
      Untainted db₀ p call.request → PhaseOk (start db₀).read database call.request p call.phase) :
    Sound db₀ { s.setPhase i phase with dispatcher, database } := by
  have horigin : (s.setPhase i phase).origin = s.origin := origin_setPhase
  -- what is in flight is for a problem in the maps, whose rows are kept
  have hinFlight : ∀ {p request v}, OperatorOf s.origin p request v →
      TaskId.mk' p v ∈ s.exchange.inFlight → KeepsRows s.database database p := by
    intro p request v hop hid
    obtain ⟨calcData, -, hcd, -, -⟩ := h.live hlt hop hid
    exact hkeep p (Std.ExtTreeMap.getElem?_eq_some_iff.mp hcd).1
  refine
    { accounted := haccounted
      static := hstatic.trans h.static
      call := hcall
      later := ?_
      agrees := ?_
      completed := ?_
      request := ?_
      job := ?_
      reply := ?_
      phase := hphase }
  · intro id hid
    have hle : (s.setPhase i phase).calls.length ≤ id.problemId.toNat := hid
    rw [length_setPhase] at hle
    exact (hlater id hle).trans (h.later id hle)
  · intro p request hp huntainted v hv hdeps field hrow
    have hp : (s.setPhase i phase).origin p = some request := hp
    rw [horigin] at hp
    exact h.agrees p request hp huntainted v hv hdeps field (hrows _ field hrow)
  · intro p request calcData v hop hcd hv huntainted
    have hop : OperatorOf (s.setPhase i phase).origin p request v := hop
    rw [horigin] at hop
    have hcd := hentries p calcData hcd
    have hmem := (Std.ExtTreeMap.getElem?_eq_some_iff.mp hcd).1
    exact (h.completed p request calcData v hop hcd hv huntainted).mono (hkeep p hmem)
  · intro t ht
    show ∃ p request v, OperatorOf (s.setPhase i phase).origin p request v ∧ _
    rw [horigin]
    exact h.request t ht
  · intro job hjob
    show ∃ p request v, OperatorOf (s.setPhase i phase).origin p request v ∧ _
    rw [horigin]
    obtain ⟨p, request, v, hop, htask, hok⟩ := h.job job hjob
    exact ⟨p, request, v, hop, htask, fun huntainted =>
      (hok huntainted).mono (hinFlight hop (job_inFlight hjob htask))⟩
  · intro id hid
    show ∃ p request v, OperatorOf (s.setPhase i phase).origin p request v ∧ _
    rw [horigin]
    obtain ⟨p, request, v, hop, rfl, hvalue⟩ := h.reply id hid
    exact ⟨p, request, v, hop, rfl, fun huntainted =>
      (hvalue huntainted).mono (hinFlight hop (reply_inFlight hid))⟩

theorem clearProblem (h : Sound db₀ s) (hlt : s.calls.length < 2 ^ 32)
    (haccounted : s'.exchange.Accounted)
    (hstep : Cluster.step s (.clearProblem i) = some s') : Sound db₀ s' := by
  obtain ⟨call, hcall, hphase, hsync, rfl⟩ := step_clearProblem.mp hstep
  obtain ⟨hid, hroot, hwaiting⟩ := h.call i call hcall
  have hentries : ∀ q : ProblemId,
      (s.dispatcher.clearProblem call.problemId).problemIdToCalculationData[q]? =
        if i = q then none else s.dispatcher.problemIdToCalculationData[q]? := by
    intro q
    simp [Dispatcher.clearProblem, Std.ExtTreeMap.getElem?_erase, hid]
  refine h.moveOn hlt .cleared _ s.database haccounted rfl
    (fun _ _ hrow => hrow) (fun _ _ => rfl) (fun _ _ _ _ hrow => hrow) ?_ ?_
    (setPhase_phase (fun p call _ => h.phase p call) hcall ?_)
  · intro q calcData hq
    rw [hentries] at hq
    split_ifs at hq
    exact hq
  · intro p call' hcall'
    rw [Std.ExtTreeMap.mem_iff_isSome_getElem?, hentries]
    rcases of_getElem?_setPhase hcall hcall' with ⟨rfl, rfl⟩ | ⟨hne, hcall'⟩
    · -- the call no longer waits, and its problem has left the maps
      rw [if_pos rfl]
      exact ⟨hid, hroot, by simp⟩
    · rw [if_neg (Ne.symm hne), ← Std.ExtTreeMap.mem_iff_isSome_getElem?]
      exact h.call p call' hcall'
  · -- the flag is up: the root is completed, and it is an operator
    intro huntainted
    have horigin : s.origin i = some call.request := by
      rw [origin, hcall]
      rfl
    have hcd := Std.ExtTreeMap.getElem?_eq_some_getElem (hwaiting.mp hphase)
    obtain ⟨-, request, syncData, horigin', hsync', hlive⟩ := h.accounted.entry hcd
    obtain rfl := Option.some.inj (horigin.symm.trans horigin')
    rw [hid] at hsync
    obtain rfl := Option.some.inj (hsync.symm.trans hsync')
    exact h.completed i call.request _ _
      ⟨horigin, AST.root_lt, h.accounted.flag i call.request horigin hsync⟩ hcd
      (hlive.completed_of_isComputed rfl) huntainted

theorem readData (h : Sound db₀ s) (hlt : s.calls.length < 2 ^ 32)
    (haccounted : s'.exchange.Accounted)
    (hstep : Cluster.step s (.readData i) = some s') : Sound db₀ s' := by
  obtain ⟨call, hcall, hcleared, hcases⟩ := step_readData.mp hstep
  obtain ⟨hid, hroot, -⟩ := h.call i call hcall
  have hold : call.phase ≠ .waiting := by simp [hcleared]
  have hread : Untainted db₀ i call.request → ∃ r, call.request.ast.root.eval (start db₀).read =
      .ok r ∧ DatabaseClient.readData s.database (.dynRecordId call.problemId call.taskId) =
        .ok r := by
    intro huntainted
    have hok := h.phase i call hcall huntainted
    rw [hcleared] at hok
    rw [hid, hroot, ← AST.valueAt_root]
    exact hok.readData
  -- nothing but the phase changes
  have hmove : ∀ phase, phase ≠ .waiting → (s.setPhase i phase).exchange.Accounted →
      (Untainted db₀ i call.request →
        PhaseOk (start db₀).read s.database call.request i phase) →
      Sound db₀ (s.setPhase i phase) := by
    intro phase hphase haccounted hok
    exact h.moveOn hlt phase s.dispatcher s.database haccounted rfl
      (fun _ _ hrow => hrow) (fun _ _ => rfl) (fun _ _ _ _ hrow => hrow) (fun _ _ hq => hq)
      (h.setPhase_call hcall hold hphase)
      (setPhase_phase (fun p call _ => h.phase p call) hcall hok)
  rcases hcases with ⟨r, hr, rfl⟩ | ⟨fault, hfault, rfl⟩
  · apply hmove _ (by simp) haccounted
    intro huntainted
    obtain ⟨r', hvalue, hr'⟩ := hread huntainted
    -- the row of the root is still there, so what was read is its value
    obtain rfl := Except.ok.inj (hr.symm.trans hr')
    exact hvalue
  · apply hmove _ (by simp) haccounted
    intro huntainted
    obtain ⟨r', -, hr'⟩ := hread huntainted
    rw [hfault] at hr'
    cases hr'

theorem clearIntermediateCalculations (h : Sound db₀ s) (hlt : s.calls.length < 2 ^ 32)
    (haccounted : s'.exchange.Accounted)
    (hstep : Cluster.step s (.clearIntermediateCalculations i) = some s') : Sound db₀ s' := by
  obtain ⟨call, r, hcall, hread, rfl⟩ := step_clearIntermediateCalculations.mp hstep
  obtain ⟨hid, -, hwaiting⟩ := h.call i call hcall
  have hold : call.phase ≠ .waiting := by simp [hread]
  have hi : i < 2 ^ 32 := (List.getElem?_eq_some_iff.mp hcall).1.trans hlt
  have hkeep : ∀ p, p < 2 ^ 32 → p ≠ i → KeepsRows s.database
      (DatabaseClient.clearIntermediateCalculations s.database call.problemId) p :=
    fun p hp hne => keepsRows_clear hp (hid ▸ hi) (hid ▸ hne)
  refine h.moveOn hlt _ s.dispatcher _ haccounted
    DatabaseClient.staticData_clearIntermediateCalculations ?_ ?_ ?_ (fun _ _ hq => hq)
    (h.setPhase_call hcall hold (by simp)) (setPhase_phase ?_ hcall ?_)
  · intro id field hrow
    rw [DatabaseClient.select_clearIntermediateCalculations] at hrow
    split_ifs at hrow
    exact hrow
  · -- a call clears the rows under its own id only
    intro id hle
    rw [DatabaseClient.select_clearIntermediateCalculations, if_neg]
    intro heq
    rw [heq, hid, toNat_ofNat_of_lt hi] at hle
    exact absurd hle (not_le.mpr (List.getElem?_eq_some_iff.mp hcall).1)
  · -- its problem has left the maps when it does so
    intro q hq
    have hcd := Std.ExtTreeMap.getElem?_eq_some_getElem hq
    apply hkeep q ((h.accounted.entry hcd).1.trans hlt)
    rintro rfl
    exact hold (hwaiting.mpr hq)
  · intro p call' hne hcall' huntainted
    have hp : p < 2 ^ 32 := (List.getElem?_eq_some_iff.mp hcall').1.trans hlt
    exact (h.phase p call' hcall' huntainted).mono (hkeep p hp hne)
  · intro huntainted
    have hok := h.phase i call hcall huntainted
    rw [hread] at hok
    exact hok

theorem calculateProblem (h : Sound db₀ s) (hlt : s'.calls.length < 2 ^ 32)
    (haccounted : s'.exchange.Accounted)
    (hstep : Cluster.step s (.calculateProblem request) = some s') : Sound db₀ s' := by
  rcases step_calculateProblem.mp hstep with ⟨_, -, rfl⟩ | ⟨calcData, hnew, hs'⟩
  · exact h
  obtain ⟨horigin, hentries, hcalls⟩ := calculateProblem_spec h.accounted hlt.le hnew hs'
  have hold : ∀ p request, s.origin p = some request → s'.origin p = some request :=
    (origin_step hstep).2
  have hlength : s.calls.length < 2 ^ 32 := (origin_step hstep).1.trans_lt hlt
  have hdb : s'.database = s.database := by rw [hs']
  have hrequests : s'.requests = s.requests := by rw [hs']
  have hjobs : s'.jobs = s.jobs := by rw [hs']
  have hreplies : s'.replies = s.replies := by rw [hs']
  refine
    { accounted := haccounted
      static := hdb ▸ h.static
      call := ?_
      later := ?_
      agrees := ?_
      completed := ?_
      request := ?_
      job := ?_
      reply := ?_
      phase := ?_ }
  · intro p call hp
    rw [Std.ExtTreeMap.mem_iff_isSome_getElem?, hentries]
    rcases hcalls hp with ⟨hne, hp⟩ | ⟨rfl, rfl⟩
    · rw [if_neg hne, ← Std.ExtTreeMap.mem_iff_isSome_getElem?]
      exact h.call p call hp
    · -- the new call waits, and its problem is in the maps
      exact ⟨rfl, rfl, by simp⟩
  · intro id hle
    rw [hdb]
    exact h.later id ((origin_step hstep).1.trans hle)
  · intro p request' hp huntainted
    rw [hdb]
    rw [horigin, Function.update_apply] at hp
    split_ifs at hp with heq
    · -- no step has touched the rows under the new id
      obtain rfl := Option.some.inj hp
      intro v hv hdeps field hrow
      apply huntainted v hv hdeps field
      rw [← hrow]
      refine (h.later _ ?_).symm
      show s.calls.length ≤ (UInt32.ofNat p).toNat
      rw [heq, toNat_ofNat_of_lt hlength]
    · exact h.agrees p request' hp huntainted
  · intro p request' calcData' v hop hcd hv huntainted
    rw [hdb]
    have hp := hop.origin_eq
    rw [hentries] at hcd
    rw [horigin, Function.update_apply] at hp
    split_ifs at hcd hp with heq
    · -- of a new problem only the leaves are completed
      obtain rfl := Option.some.inj hp
      obtain rfl := Option.some.inj hcd
      rw [CalculationData.schedule_new hnew] at hv
      exact absurd hv.2 hop.deps
    · exact h.completed p request' calcData' v ⟨hp, hop.lt, hop.deps⟩ hcd hv huntainted
  · intro t ht
    obtain ⟨p, request', v, hop, hrest⟩ := h.request t (hrequests ▸ ht)
    exact ⟨p, request', v, hop.mono hold, hrest⟩
  · intro job hjob
    obtain ⟨p, request', v, hop, hrest⟩ := h.job job (hjobs ▸ hjob)
    rw [hdb]
    exact ⟨p, request', v, hop.mono hold, hrest⟩
  · intro id hid
    obtain ⟨p, request', v, hop, hrest⟩ := h.reply id (hreplies ▸ hid)
    rw [hdb]
    exact ⟨p, request', v, hop.mono hold, hrest⟩
  · intro p call hp huntainted
    rw [hdb]
    rcases hcalls hp with ⟨-, hp⟩ | ⟨rfl, rfl⟩
    · exact h.phase p call hp huntainted
    · trivial

theorem step {a : Action} (h : Sound db₀ s) (hlt : s'.calls.length < 2 ^ 32)
    (hstep : Cluster.step s a = some s') : Sound db₀ s' := by
  obtain ⟨actions, hruns⟩ := exchange_step h.accounted hstep
  have haccounted := h.accounted.runs hruns hlt.le
  have hlt' : s.calls.length < 2 ^ 32 := (origin_step hstep).1.trans_lt hlt
  cases a with
  | calculateProblem request => exact h.calculateProblem hlt haccounted hstep
  | sendComputableTasks => exact h.sendComputableTasks haccounted hstep
  | relay identity task => exact h.relay haccounted hstep
  | readOperand job => exact h.readOperand hlt' haccounted hstep
  | calculate job => exact h.calculate haccounted hstep
  | writeDynamicData job => exact h.writeDynamicData hlt' haccounted hstep
  | reply job => exact h.reply' haccounted hstep
  | terminate identity =>
    obtain rfl := step_terminate.mp hstep
    exact { h with accounted := haccounted }
  | updateComputableTasks id => exact h.updateComputableTasks hlt' haccounted hstep
  | clearProblem i => exact h.clearProblem hlt' haccounted hstep
  | readData i => exact h.readData hlt' haccounted hstep
  | clearIntermediateCalculations i =>
    exact h.clearIntermediateCalculations hlt' haccounted hstep

theorem of_runs {actions : List Action} (hrun : Runs Cluster.step (start db₀) actions s)
    (hlt : s.calls.length < 2 ^ 32) : Sound db₀ s :=
  hrun.invariant_within (P := fun s => s.calls.length < 2 ^ 32) (I := Sound db₀)
    (fun _ _ _ hstep hlt => (origin_step hstep).1.trans_lt hlt) (init db₀)
    (fun _ _ _ h hlt hstep => h.step hlt hstep) hlt

/-- What a call returns for a problem without wrong rows. -/
theorem eval_eq (h : Sound db₀ s) {r : ExprResult} (hcall : s.calls[i]? = some call)
    (hreturned : call.phase = .returned r) (huntainted : Untainted db₀ i call.request) :
    call.request.ast.root.eval (start db₀).read = .ok r := by
  have hok := h.phase i call hcall huntainted
  rw [hreturned] at hok
  exact hok

end Sound

/-! ## Results -/

/-- No row, no wrong row. -/
theorem untainted_of_nil {db : Database} {p : ProblemId} {request : AstRequest}
    (hempty : db.dynamicData = []) : Untainted db p request := by
  intro v _ _ field hrow
  rw [Database.select, hempty] at hrow
  cases hrow

/-- The variables stay what they are. -/
theorem read_of_runs {actions : List Action} {s s' : Cluster} (hrun : Runs step s actions s') :
    s'.read = s.read := by
  have hstatic : s'.database.staticData = s.database.staticData :=
    hrun.invariant (I := fun _ t => t.database.staticData = s.database.staticData) rfl
      fun _ _ _ _ _ h hstep => (step_frame hstep).staticData.trans h
  exact funext (DatabaseClient.readData_identifier_congr hstatic)

/-- **The distributed evaluation is the recursive one.** On a store without intermediate results,
with any number of problems and workers, in any order of steps: a value that `CalculateProblem`
returns is the value of its tree. -/
theorem result_eq_eval {db : Database} (hempty : db.dynamicData = []) {actions : List Action}
    {s : Cluster} (hrun : Runs step (start db) actions s) (hlt : s.calls.length < 2 ^ 32) {i : ℕ}
    {call : Call} {r : ExprResult} (hcall : s.calls[i]? = some call)
    (hreturned : call.phase = .returned r) :
    call.request.ast.root.eval (start db).read = .ok r :=
  (Sound.of_runs hrun hlt).eval_eq hcall hreturned (untainted_of_nil hempty)

/-- A store with one list. -/
def numbers : Database where
  staticData identifier := if identifier = "L" then some (.list [1, 2, 3, 4, 5]) else none

/-- The mean of the list, on one worker. -/
def meanRun : List Action :=
  [.calculateProblem .mean, .sendComputableTasks]
    ++ wholeTask "worker" ⟨⟨0, 2⟩, 5, [.staticOperand "L"]⟩ [.list [1, 2, 3, 4, 5]] (.scalar 5)
    ++ wholeTask "worker" ⟨⟨0, 1⟩, 4, [.staticOperand "L"]⟩ [.list [1, 2, 3, 4, 5]] (.scalar 15)
    ++ [.updateComputableTasks ⟨0, 2⟩, .updateComputableTasks ⟨0, 1⟩, .sendComputableTasks]
    ++ wholeTask "worker" ⟨⟨0, 3⟩, 15, [.dynOperand ⟨0, 1⟩, .dynOperand ⟨0, 2⟩]⟩
      [.scalar 15, .scalar 5] (.scalar 3)
    ++ [.updateComputableTasks ⟨0, 3⟩, .clearProblem 0, .readData 0,
      .clearIntermediateCalculations 0]

/-- It goes through to the return. -/
theorem runs_meanRun : ∃ s call, Runs step (start numbers) meanRun s ∧ s.calls = [call] ∧
    call.phase = .returned (.scalar 3) ∧ s.inserted = [⟨0, 2⟩, ⟨0, 1⟩, ⟨0, 3⟩] :=
  ⟨_, _, rfl, rfl, rfl, rfl⟩

/-- The mean comes out as 3. -/
theorem result_eq_eval_mean : ∃ s call, Runs step (start numbers) meanRun s ∧
    s.calls = [call] ∧ call.phase = .returned (.scalar 3) ∧
    call.request.ast.root.eval (start numbers).read = .ok (.scalar 3) := by
  obtain ⟨s, call, hrun, hcalls, hphase, -⟩ := runs_meanRun
  have hlt : s.calls.length < 2 ^ 32 := by simp [hcalls]
  have hcall : s.calls[0]? = some call := by simp [hcalls]
  exact ⟨s, call, hrun, hcalls, hphase,
    @result_eq_eval numbers rfl meanRun s hrun hlt 0 call _ hcall hphase⟩

/-- **After a restart** on what an earlier manager left, wherever that one stopped: a value that
`CalculateProblem` returns is the value of its tree if no row left under the new id contradicts the
tree. -/
theorem result_eq_eval_after_restart {db : Database} {old new : List Action} {s₀ s : Cluster}
    (hold : Runs step (start db) old s₀) (hrun : Runs step (start s₀.database) new s)
    (hlt : s.calls.length < 2 ^ 32) {i : ℕ} {call : Call} {r : ExprResult}
    (hcall : s.calls[i]? = some call) (hreturned : call.phase = .returned r)
    (huntainted : Untainted s₀.database i call.request) :
    call.request.ast.root.eval (start db).read = .ok r := by
  have hread : (start s₀.database).read = (start db).read := by
    show s₀.read = _
    exact read_of_runs hold
  rw [← hread]
  exact (Sound.of_runs hrun hlt).eval_eq hcall hreturned huntainted

/-! ### A restart in the middle of a problem -/

/-- A reduction of the list. -/
def reduction (type : ReduceType) : AstRequest where
  ast := ⟨.reduceExpr type (some (.listExpr "L")), .reduceExpr .listExpr⟩
  fits := by cases type <;> decide

/-- Up to the answer of the worker, which has computed `r`. -/
def reductionRun (type : ReduceType) (r : ExprResult) : List Action :=
  [.calculateProblem (reduction type), .sendComputableTasks]
    ++ wholeTask "worker" ⟨⟨0, 1⟩, .ofNat (reduction type).ast.root.getType.toOperationType,
      [.staticOperand "L"]⟩ [.list [1, 2, 3, 4, 5]] r

/-- From the answer to the return. -/
def returnRun : List Action :=
  [.updateComputableTasks ⟨0, 1⟩, .clearProblem 0, .readData 0, .clearIntermediateCalculations 0]

theorem records_reduction (type : ReduceType) : (reduction type).ast.numbering.records =
    [.listExpr "L", (reduction type).ast.root] := by
  have htraverse : (reduction type).ast.root.postorderTraverse DagVisitor.visit {} =
      .ok { records := [.listExpr "L", (reduction type).ast.root] } := by
    cases type <;> rfl
  rw [AST.records_numbering] at htraverse
  exact DagVisitor.mk.inj (Except.ok.inj htraverse)

/-- The row that a reduction leaves is right for a reduction of the same kind. -/
theorem untainted_reduction {db : Database} {type : ReduceType} {r : ExprResult}
    (hrow : db.select ⟨0, 1⟩ = some (DatabaseClient.toField r))
    (hvalue : (reduction type).ast.root.eval (start db).read = .ok r) :
    Untainted db 0 (reduction type) := by
  have hrecords := records_reduction type
  intro v hv hdeps field hfield
  rw [AST.vertexCount, hrecords] at hv
  rcases Nat.lt_succ_iff.mp hv with _ | hzero
  · rw [AST.valueAt_of_record (by rw [hrecords]; rfl)]
    exact ⟨r, hvalue, Option.some.inj (hfield.symm.trans hrow)⟩
  · -- the list depends on nothing
    obtain rfl := Nat.le_zero.mp hzero
    rw [AST.deps_of_record (by rw [hrecords]; rfl)] at hdeps
    exact absurd rfl hdeps

/-- What a manager leaves that stops after the sum was computed. -/
def sumStored : Database := { numbers with
  dynamicData := [⟨⟨0, 1⟩, .scalar 15⟩]
  primaryKey := List.nodup_singleton _ }

theorem runs_sumStored : ∃ s₀,
    Runs step (start numbers) (reductionRun .sum (.scalar 15)) s₀ ∧ s₀.database = sumStored :=
  ⟨_, rfl, rfl⟩

/-- The next one is asked for the sum. -/
theorem result_eq_eval_after_restart_sum : ∃ s₀ s call,
    Runs step (start numbers) (reductionRun .sum (.scalar 15)) s₀ ∧
    Runs step (start s₀.database) (reductionRun .sum (.scalar 15) ++ returnRun) s ∧
    s.calls = [call] ∧ call.phase = .returned (.scalar 15) ∧
    call.request.ast.root.eval (start numbers).read = .ok (.scalar 15) := by
  obtain ⟨s₀, hold, hdb⟩ := runs_sumStored
  obtain ⟨s, call, hrun, hcalls, hrequest, hphase⟩ : ∃ s call,
      Runs step (start sumStored) (reductionRun .sum (.scalar 15) ++ returnRun) s ∧
      s.calls = [call] ∧ call.request = reduction .sum ∧ call.phase = .returned (.scalar 15) :=
    ⟨_, _, rfl, rfl, rfl, rfl⟩
  rw [← hdb] at hrun
  have hlt : s.calls.length < 2 ^ 32 := by simp [hcalls]
  have hcall : s.calls[0]? = some call := by simp [hcalls]
  have huntainted : Untainted s₀.database 0 call.request := by
    rw [hdb, hrequest]
    exact @untainted_reduction sumStored .sum (.scalar 15) rfl rfl
  exact ⟨s₀, s, call, hold, hrun, hcalls, hphase,
    @result_eq_eval_after_restart numbers _ _ s₀ s hold hrun hlt 0 call _ hcall hphase huntainted⟩

/-- The next one is asked for the product: its worker computes 120, the write fails, and what
`CalculateProblem` returns is the sum. -/
theorem stale_row_returned : ∃ s₀ s call, numbers.dynamicData = [] ∧
    Runs step (start numbers) (reductionRun .sum (.scalar 15)) s₀ ∧
    Runs step (start s₀.database) (reductionRun .mul (.scalar 120) ++ returnRun) s ∧
    s.calls = [call] ∧ call.request = reduction .mul ∧ call.phase = .returned (.scalar 15) ∧
    call.request.ast.root.eval (start numbers).read = .ok (.scalar 120) := by
  obtain ⟨s₀, hold, hdb⟩ := runs_sumStored
  obtain ⟨s, call, hrun, hcalls, hrequest, hphase⟩ : ∃ s call,
      Runs step (start sumStored) (reductionRun .mul (.scalar 120) ++ returnRun) s ∧
      s.calls = [call] ∧ call.request = reduction .mul ∧ call.phase = .returned (.scalar 15) :=
    ⟨_, _, rfl, rfl, rfl, rfl⟩
  refine ⟨s₀, s, call, rfl, hold, ?_, hcalls, hrequest, hphase, ?_⟩
  · rwa [hdb]
  · rw [hrequest]
    rfl

end Cluster
end TaskDispatch
