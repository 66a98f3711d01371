import Mathlib
import TaskDispatch.Cluster.Results

/-!
# Every task whose operands have values is reached

`Sound` tells what a worker finds if it gets that far. Here is a run that gets it there: one worker,
one problem, and the tasks one after the other in the order of the vertices, those below before
those above. Each of them can be carried out as long as its value is there, so a vertex whose
operands have values is sent in the end, and its operands are read (`exists_job`).
-/

set_option autoImplicit false

namespace TaskDispatch

open Proto Frontier Transition

namespace Cluster

/-- The one problem is under way, with none of its tasks on a worker or answered. -/
structure Idle (db : Database) (request : AstRequest) (calcData : CalculationData) (s : Cluster) :
    Prop where
  reached : ∃ actions, Runs step (start db) actions s
  length : s.calls.length = 1
  origin : s.origin 0 = some request
  entry : s.dispatcher.problemIdToCalculationData[0]? = some calcData
  jobs : s.jobs = 0
  replies : s.replies = 0
  gone : s.gone = []

namespace Idle

variable {db : Database} {request : AstRequest} {calcData : CalculationData} {s : Cluster}
  {v : TaskDispatch.TaskId} {r : ExprResult}

theorem lt (h : Idle db request calcData s) : s.calls.length < 2 ^ 32 := by
  rw [h.length]
  norm_num

theorem notMem_gone (h : Idle db request calcData s) (identity : String) : identity ∉ s.gone := by
  simp [h.gone]

theorem sound (h : Idle db request calcData s) : Sound db s := by
  obtain ⟨actions, hrun⟩ := h.reached
  exact .of_runs hrun h.lt

theorem live (h : Idle db request calcData s) :
    ∃ syncData, Exchange.Live request syncData calcData := by
  obtain ⟨-, request', syncData, horigin, -, hlive⟩ := h.sound.accounted.entry h.entry
  obtain rfl := Option.some.inj (h.origin.symm.trans horigin)
  exact ⟨syncData, hlive⟩

/-- What is in process is an operator: the leaves are completed. -/
theorem operatorOf (h : Idle db request calcData s) (hv : v ∈ calcData.schedule.processing) :
    OperatorOf s.origin 0 request v := by
  obtain ⟨syncData, hlive⟩ := h.live
  obtain ⟨hvlt, hopen, -, -⟩ := hlive.tracks.coherent.processing_subset hv
  exact ⟨h.origin, hvlt, fun hnil => hopen (hlive.tracks.leaves ⟨hvlt, hnil⟩)⟩

/-- After the push. -/
theorem init (hnew : CalculationData.new request.ast = .ok calcData) :
    ∃ s, Idle db request calcData s := by
  have hstep := step_calculateProblem.mpr (.inr ⟨calcData, hnew, rfl⟩ :
    (∃ fault, CalculationData.new request.ast = .error fault ∧ _ = start db) ∨ _)
  refine ⟨_, ⟨⟨_, Runs.single hstep⟩, rfl, rfl, ?_, rfl, rfl, rfl⟩⟩
  show (Std.ExtTreeMap.insertIfNew ∅ 0 calcData)[(0 : ProblemId)]? = some calcData
  rw [Std.ExtTreeMap.getElem?_insertIfNew]
  simp

/-- After a pass of the dispatcher. -/
theorem send (h : Idle db request calcData s) : ∃ s', Idle db request calcData.markSent s' := by
  obtain ⟨s', hstep⟩ : ∃ s', step s .sendComputableTasks = some s' :=
    ⟨_, step_sendComputableTasks.mpr ⟨_, _, Dispatcher.sendComputableTasks_eq _ _, rfl⟩⟩
  obtain ⟨tasks, -, -, -, -, -, -, hentries, -⟩ :=
    h.sound.accounted.send_spec (exchange_send hstep)
  have hentry : s'.dispatcher.problemIdToCalculationData[0]? = some calcData.markSent := by
    rw [show s'.dispatcher = s'.exchange.dispatcher from rfl, hentries,
      show s.exchange.dispatcher = s.dispatcher from rfl, h.entry]
    rfl
  obtain ⟨actions, hrun⟩ := h.reached
  have hruns : Runs step (start db) (actions ++ [.sendComputableTasks]) s' :=
    hrun.trans (Runs.single hstep)
  obtain ⟨_, _, -, rfl⟩ := step_sendComputableTasks.mp hstep
  exact ⟨_, ⟨_, hruns⟩, h.length, h.origin, hentry, h.jobs, h.replies, h.gone⟩

/-- What has its operands completed is in process then. -/
theorem mem_processing_markSent (h : Idle db request calcData s) (hv : v < request.ast.vertexCount)
    (hopen : v ∉ calcData.schedule.completed)
    (hdeps : ∀ u ∈ request.ast.dag.deps v, u ∈ calcData.schedule.completed) :
    v ∈ calcData.markSent.schedule.processing := by
  obtain ⟨syncData, hlive⟩ := h.live
  rw [hlive.tracks.schedule_markSent, hlive.tracks.coherent.processing_send]
  exact ⟨hv, hopen, Set.notMem_empty v, hdeps⟩

theorem completed_markSent (h : Idle db request calcData s) :
    calcData.markSent.schedule.completed = calcData.schedule.completed := by
  obtain ⟨syncData, hlive⟩ := h.live
  rw [hlive.tracks.schedule_markSent]
  rfl

/-- What is in process waits for a worker. -/
theorem mem_requests (h : Idle db request calcData s) (hv : v ∈ calcData.schedule.processing) :
    request.ast.taskRequest 0 v ∈ s.requests := by
  have hinFlight : TaskId.mk' 0 v ∈ s.exchange.inFlight :=
    (h.sound.accounted.mem_inFlight _).mpr ⟨0, calcData, v, h.entry, hv, rfl⟩
  have hmem : TaskId.mk' 0 v ∈ s.requests.map (·.id) := by
    simpa [exchange, h.jobs, h.replies] using hinFlight
  obtain ⟨t, ht, hid⟩ := Multiset.mem_map.mp hmem
  obtain ⟨p, request', u, hop, rfl⟩ := h.sound.request t ht
  obtain ⟨rfl, rfl⟩ := (h.sound.accounted.mk'_inj h.lt.le hop.origin_eq hop.lt h.origin
    (h.operatorOf hv).lt).mp hid
  obtain rfl := Option.some.inj (h.origin.symm.trans hop.origin_eq)
  exact ht

/-- The worker finds the values of the operands. -/
theorem extractOperands (h : Idle db request calcData s) (huntainted : Untainted db 0 request)
    (hv : v ∈ calcData.schedule.processing) {operands : List ExprResult}
    (hvalues : List.Forall₂ (fun u r => request.ast.valueAt (start db).read u = .ok r)
      (request.ast.dag.deps v) operands) (identity : String) :
    ThreadPool.extractOperands s.database ⟨identity, request.ast.taskRequest 0 v⟩ =
      .ok operands := by
  have hinFlight := Sound.request_inFlight (h.mem_requests hv)
  rw [ThreadPool.extractOperands, Result.mapM_ok_iff, AST.taskRequest, List.forall₂_map_left_iff]
  refine ((List.forall₂_and_left _ _).mpr ⟨fun _ hu => hu, hvalues⟩).imp ?_
  rintro u r ⟨hu, hr⟩
  exact (h.sound.readOperand_eq h.lt (h.operatorOf hv) hinFlight huntainted hu).trans hr

/-- The answer to a task in process -/
theorem update (h : Idle db request calcData s) (hv : v ∈ calcData.schedule.processing)
    {s₁ : Cluster} {actions : List Action} (hrun : Runs step s actions s₁)
    (hcalls : s₁.calls = s.calls) (hdispatcher : s₁.dispatcher = s.dispatcher)
    (hjobs : s₁.jobs = 0) (hreplies : s₁.replies = {.mk' 0 v}) (hgone : s₁.gone = s.gone) :
    ∃ calcData' s', Idle db request calcData' s' ∧
      calcData'.schedule.completed = insert v calcData.schedule.completed := by
  obtain ⟨actions₀, hrun₀⟩ := h.reached
  have hlt : s₁.calls.length < 2 ^ 32 := hcalls ▸ h.lt
  have hsound : Sound db s₁ := .of_runs (hrun₀.trans hrun) hlt
  have hid : TaskId.mk' 0 v ∈ s₁.replies := by simp [hreplies]
  obtain ⟨_, hexchange⟩ := hsound.accounted.update_returns hlt.le (Sound.reply_inFlight hid)
  obtain ⟨-, d, hd, -⟩ := Exchange.step_update.mp hexchange
  have hstep := step_updateComputableTasks.mpr ⟨hid, d, hd, rfl⟩
  obtain ⟨p, calcData₁, u, request', syncData', calcData', heq, -, horigin, hentry₁, hlive₁, hu,
    hentries, hcompleted, -⟩ := hsound.accounted.update_spec hlt.le (exchange_update hstep)
  -- the answer is for this task
  have horigin₁ : s₁.origin 0 = some request := by
    rw [Cluster.origin, hcalls]
    exact h.origin
  obtain ⟨rfl, rfl⟩ := (hsound.accounted.mk'_inj hlt.le horigin₁ (h.operatorOf hv).lt horigin
    (hlive₁.tracks.coherent.processing_subset hu).1).mp heq
  have hentry₁ : s₁.dispatcher.problemIdToCalculationData[0]? = some calcData₁ := hentry₁
  rw [hdispatcher, h.entry] at hentry₁
  obtain rfl := Option.some.inj hentry₁
  refine ⟨calcData', _, ⟨⟨_, (hrun₀.trans hrun).trans (Runs.single hstep)⟩, hcalls ▸ h.length,
    horigin₁, (hentries 0).trans (if_pos rfl), hjobs, ?_, hgone.trans h.gone⟩, hcompleted⟩
  simp [hreplies]

/-- A task in process whose value is there can be carried out and answered. -/
theorem compute (h : Idle db request calcData s) (huntainted : Untainted db 0 request)
    (hv : v ∈ calcData.schedule.processing)
    (hvalue : request.ast.valueAt (start db).read v = .ok r) :
    ∃ calcData' s', Idle db request calcData' s' ∧
      calcData'.schedule.completed = insert v calcData.schedule.completed := by
  obtain ⟨operands, hvalues, hcalculate⟩ :=
    AST.operands_of_valueAt (h.operatorOf hv).lt (h.operatorOf hv).deps hvalue
  have hwhole : ∃ database, ThreadPool.calculateTask s.database
      ⟨"worker", request.ast.taskRequest 0 v⟩ = .ok (database, ⟨"worker", .mk' 0 v⟩) := by
    rw [ThreadPool.calculateTask, h.extractOperands huntainted hv hvalues, Result.ok_bind,
      ThreadPool.calculate, AST.ofOperationType_taskRequest, hcalculate, Result.ok_bind]
    exact ⟨_, rfl⟩
  obtain ⟨database, hwhole⟩ := hwhole
  obtain ⟨_, _, _, hruns⟩ := runs_wholeTask (h.notMem_gone _) (h.mem_requests hv) hwhole
  exact h.update hv hruns rfl rfl h.jobs (by rw [h.replies]; rfl) rfl

end Idle

variable {db : Database} {request : AstRequest} {calcData : CalculationData}

/-- The operands of a vertex are completed once everything below it that has a value is. -/
theorem deps_completed {v : TaskDispatch.TaskId} {operands : List ExprResult}
    (hcompleted : ∀ u < v, u < request.ast.vertexCount →
      (∃ r, request.ast.valueAt (start db).read u = .ok r) → u ∈ calcData.schedule.completed)
    (hv : v < request.ast.vertexCount)
    (hvalues : List.Forall₂ (fun u r => request.ast.valueAt (start db).read u = .ok r)
      (request.ast.dag.deps v) operands) :
    ∀ u ∈ request.ast.dag.deps v, u ∈ calcData.schedule.completed := by
  intro u hu
  have hult : u < v := ValueNumbering.Numbering.deps_lt hu
  obtain ⟨i, hi, rfl⟩ := List.mem_iff_getElem.mp hu
  have hi' : i < operands.length := hvalues.length_eq ▸ hi
  exact hcompleted _ hult (hult.trans hv) ⟨operands[i], hvalues.get hi hi'⟩

/-- Vertex by vertex from below, what has a value is completed, and nothing further up is. -/
theorem exists_completed (hnew : CalculationData.new request.ast = .ok calcData)
    (huntainted : Untainted db 0 request) (n : ℕ) : ∃ calcData' s, Idle db request calcData' s ∧
      (∀ v < n, v < request.ast.vertexCount → (∃ r, request.ast.valueAt (start db).read v = .ok r) →
        v ∈ calcData'.schedule.completed) ∧
      ∀ v ∈ calcData'.schedule.completed, request.ast.dag.deps v = [] ∨ v < n := by
  induction n with
  | zero =>
    obtain ⟨s, h⟩ : ∃ s, Idle db request calcData s := Idle.init hnew
    refine ⟨calcData, s, h, by simp, ?_⟩
    rw [CalculationData.schedule_new hnew]
    exact fun v hv => .inl hv.2
  | succ n ih =>
    obtain ⟨calcData', s, h, hcompleted, hbelow⟩ := ih
    have hbelow' : ∀ v ∈ calcData'.schedule.completed,
        request.ast.dag.deps v = [] ∨ v < n + 1 :=
      fun v hv => (hbelow v hv).imp_right fun hlt => hlt.trans (Nat.lt_succ_self n)
    by_cases hn : n ∉ calcData'.schedule.completed ∧ n < request.ast.vertexCount ∧
      ∃ r, request.ast.valueAt (start db).read n = .ok r
    · -- send what is computable, and carry out this task
      obtain ⟨hopen, hnlt, r, hvalue⟩ := hn
      have hdeps : request.ast.dag.deps n ≠ [] := by
        intro hnil
        obtain ⟨syncData, hlive⟩ := h.live
        exact hopen (hlive.tracks.leaves ⟨hnlt, hnil⟩)
      obtain ⟨operands, hvalues, -⟩ := AST.operands_of_valueAt hnlt hdeps hvalue
      have hprocessing := h.mem_processing_markSent hnlt hopen
        (deps_completed hcompleted hnlt hvalues)
      obtain ⟨s₁, h₁⟩ := h.send
      obtain ⟨calcData'', s₂, h₂, hinsert⟩ := h₁.compute huntainted hprocessing hvalue
      rw [h.completed_markSent] at hinsert
      refine ⟨calcData'', s₂, h₂, ?_, ?_⟩ <;> rw [hinsert]
      · intro v hv hvlt hvalue
        rcases Nat.lt_succ_iff_lt_or_eq.mp hv with hlt | rfl
        · exact .inr (hcompleted v hlt hvlt hvalue)
        · exact .inl rfl
      · rintro v (rfl | hv)
        · exact .inr (Nat.lt_succ_self v)
        · exact hbelow' v hv
    · -- nothing to do for this vertex
      refine ⟨calcData', s, h, ?_, hbelow'⟩
      intro v hv hvlt hvalue
      rcases Nat.lt_succ_iff_lt_or_eq.mp hv with hlt | rfl
      · exact hcompleted v hlt hvlt hvalue
      · by_contra hopen
        exact hn ⟨hopen, hvlt, hvalue⟩

/-- **Every operator whose operands have values is reached**: in some run a worker has its task, and
has read these values. -/
theorem exists_job (hnew : CalculationData.new request.ast = .ok calcData)
    (huntainted : Untainted db 0 request) {v : TaskDispatch.TaskId}
    (hv : v < request.ast.vertexCount) (hdeps : request.ast.dag.deps v ≠ [])
    {operands : List ExprResult}
    (hvalues : List.Forall₂ (fun u r => request.ast.valueAt (start db).read u = .ok r)
      (request.ast.dag.deps v) operands) :
    ∃ actions s, Runs step (start db) actions s ∧ s.calls.length = 1 ∧ s.origin 0 = some request ∧
      (⟨⟨"worker", request.ast.taskRequest 0 v⟩, .extracting operands⟩ : Job) ∈ s.jobs := by
  obtain ⟨calcData', s, h, hcompleted, hbelow⟩ := exists_completed hnew huntainted v
  have hopen : v ∉ calcData'.schedule.completed := by
    intro hmem
    rcases hbelow v hmem with hnil | hlt
    · exact hdeps hnil
    · exact lt_irrefl v hlt
  have hprocessing := h.mem_processing_markSent hv hopen
    (deps_completed hcompleted hv hvalues)
  obtain ⟨s₁, h₁⟩ := h.send
  have hread := h₁.extractOperands huntainted hprocessing hvalues "worker"
  obtain ⟨actions, hrun⟩ := h₁.reached
  -- the broker hands the task out, and the worker reads
  let s₂ : Cluster := { s₁ with
    requests := s₁.requests.erase (request.ast.taskRequest 0 v)
    jobs := { task := { identity := "worker", task := request.ast.taskRequest 0 v } } ::ₘ s₁.jobs }
  have hrelay : step s₁ (.relay "worker" (request.ast.taskRequest 0 v)) = some s₂ :=
    step_relay.mpr ⟨h₁.mem_requests hprocessing, rfl⟩
  have hreads := runs_readOperand (s := s₂) (h₁.notMem_gone _) rfl hread operands.length le_rfl
  rw [List.take_length] at hreads
  exact ⟨_, _, (hrun.trans (Runs.single hrelay)).trans hreads, h₁.length, h₁.origin,
    Multiset.mem_cons_self _ _⟩

end Cluster
end TaskDispatch
