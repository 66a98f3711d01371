import Mathlib
import TaskDispatch.Cluster.Kinds
import TaskDispatch.Cluster.Operands
import TaskDispatch.Cluster.Reached
import TaskDispatch.Worker.Defined

/-!
# When the computations of a problem are defined

Kinds are all that is looked at before a task is computed, and they are not enough: an `assert` on
the lengths of two lists stops the worker, and an empty list, a divisor or a sum can make the
computation undefined. Which trees and which variables are safe can be told by evaluating the tree
on the integers (`Expr.exact`): every operation must fit the values of its operands (`Expr.Fits`).
Where that is so, no call of `CalculateTaskImpl` goes wrong in any run, and where it is not, some
run has one that may (`callsDefined_iff`).
-/

set_option autoImplicit false

namespace TaskDispatch

open Proto Frontier Transition ValueNumbering

/-! ## On the integers -/

namespace Expr

mutual

/-- The value of a tree in integers, if all of it fits. -/
def exact (read : VariableId → Result ExprResult) : Expr → Option Exact
  | e@(reduceExpr _ operand) => do
    ThreadPool.exactOp e.getType [← exactOperand read operand]
  | e@(mapExpr _ lhs rhs) => do
    ThreadPool.exactOp e.getType [← exactOperand read lhs, ← exactOperand read rhs]
  | e@(listOpExpr _ lhs rhs) => do
    ThreadPool.exactOp e.getType [← exactOperand read lhs, ← exactOperand read rhs]
  | e@(scalarOpExpr _ lhs rhs) => do
    ThreadPool.exactOp e.getType [← exactOperand read lhs, ← exactOperand read rhs]
  | listExpr l => (read l).toOption.map ExprResult.exact
  | scalarConstExpr x => some (.scalar x.toInt)
  | scalarVarExpr x => (read x).toOption.map ExprResult.exact

def exactOperand (read : VariableId → Result ExprResult) : Option Expr → Option Exact
  | some operand => exact read operand
  | none => none

end

/-- Each operator of the tree fits the values of its operands, where these have values. -/
def Fits (read : VariableId → Result ExprResult) (e : Expr) : Prop :=
  ∀ c ∈ e.postorder, c.operands ≠ [] → ∀ operands,
    List.Forall₂ (fun d z => d.exact read = some z) c.operands operands →
      ThreadPool.OpFits c.getType operands

/-- Each operator of the tree is defined on what its operands evaluate to. -/
def OperatorsDefined (read : VariableId → Result ExprResult) (e : Expr) : Prop :=
  ∀ c ∈ e.postorder, c.operands ≠ [] → ∀ operands,
    List.Forall₂ (fun d r => Expr.eval read d = .ok r) c.operands operands →
      ∀ x, ThreadPool.Outcome operands c.getType x → x.Defined

variable {read : VariableId → Result ExprResult} {e : Expr}

/-- The value of an operator comes from the values of its operands. -/
theorem Complete.exact_eq_some_iff (h : e.Complete) (hop : e.operands ≠ []) {z : Exact} :
    e.exact read = some z ↔ ∃ operands,
      List.Forall₂ (fun d z => d.exact read = some z) e.operands operands ∧
        ThreadPool.exactOp e.getType operands = some z := by
  cases h with
  | reduceExpr | mapExpr | listOpExpr | scalarOpExpr =>
    simp [exact, exactOperand, operands, getLhs, getRhs, Option.bind_eq_some_iff,
      List.forall₂_cons_left_iff, and_assoc]
  | listExpr | scalarConstExpr | scalarVarExpr => simp [operands, getLhs, getRhs] at hop

theorem Complete.exact_leaf (h : e.Complete) (hop : e.operands = []) {z : Exact} :
    e.exact read = some z ↔ ∃ r, e.eval read = .ok r ∧ r.exact = z := by
  cases h with
  | reduceExpr | mapExpr | listOpExpr | scalarOpExpr => simp [operands, getLhs, getRhs] at hop
  | listExpr | scalarVarExpr => simp [exact, eval, Option.map_eq_some_iff]
  | scalarConstExpr => simp [exact, eval, ExprResult.exact]

theorem forall₂_exact_iff {cs : List Expr}
    (h : ∀ c ∈ cs, ∀ z, c.exact read = some z ↔ ∃ r, c.eval read = .ok r ∧ r.exact = z)
    {operands : List Exact} :
    List.Forall₂ (fun c z => c.exact read = some z) cs operands ↔
      ∃ results, List.Forall₂ (fun c r => Expr.eval read c = .ok r) cs results ∧
        results.map ExprResult.exact = operands := by
  induction cs generalizing operands with
  | nil => simp [eq_comm]
  | cons c cs ih =>
    have hrest := fun d (hd : d ∈ cs) => h d (List.mem_cons_of_mem c hd)
    constructor
    · rintro (_ | ⟨hz, hzs⟩)
      obtain ⟨r, hr, rfl⟩ := (h c List.mem_cons_self _).mp hz
      obtain ⟨rs, hrs, rfl⟩ := (ih hrest).mp hzs
      exact ⟨r :: rs, .cons hr hrs, rfl⟩
    · rintro ⟨_, _ | ⟨hr, hrs⟩, rfl⟩
      exact .cons ((h c List.mem_cons_self _).mpr ⟨_, hr, rfl⟩) ((ih hrest).mpr ⟨_, hrs, rfl⟩)

/-- Conditions on the operators of a tree hold of the operators of its operands. -/
theorem Fits.of_mem {c : Expr} (h : e.Fits read) (hcomplete : e.Complete)
    (hc : c ∈ e.postorder) : c.Fits read :=
  fun d hd => h d (hcomplete.postorder_subset c hc hd)

theorem OperatorsDefined.of_mem {c : Expr} (h : e.OperatorsDefined read) (hcomplete : e.Complete)
    (hc : c ∈ e.postorder) : c.OperatorsDefined read :=
  fun d hd => h d (hcomplete.postorder_subset c hc hd)

/-- **Where a tree fits, its value is the one in integers.** -/
theorem Fits.exact_eq_some_iff (h : e.Fits read) (hcomplete : e.Complete) (z : Exact) :
    e.exact read = some z ↔ ∃ r, e.eval read = .ok r ∧ r.exact = z := by
  revert h z
  apply hcomplete.induct (motive := fun e => e.Fits read → ∀ z,
    e.exact read = some z ↔ ∃ r, e.eval read = .ok r ∧ r.exact = z)
  intro e he ih h z
  by_cases hop : e.operands = []
  · exact he.exact_leaf hop
  have hoperands : ∀ c ∈ e.operands, ∀ z,
      c.exact read = some z ↔ ∃ r, c.eval read = .ok r ∧ r.exact = z := by
    intro c hc
    exact (ih c hc).2 (h.of_mem he (he.operand_mem_postorder hc))
  -- the operation fits the values of the operands, so it gives theirs
  have hexact : ∀ results, List.Forall₂ (fun c r => Expr.eval read c = .ok r) e.operands results →
      (ThreadPool.exactOp e.getType (results.map ExprResult.exact) = some z ↔
        ∃ r, ThreadPool.calculateTaskImpl e.getType results = .ok r ∧ r.exact = z) := by
    intro results hresults
    have hfits := h e he.self_mem_postorder hop _
      ((forall₂_exact_iff hoperands).mpr ⟨results, hresults, rfl⟩)
    rw [← (ThreadPool.settled e.getType results).exact hfits]
    simp [Option.map_eq_some_iff]
  rw [he.exact_eq_some_iff hop, he.eval_operator hop]
  simp only [forall₂_exact_iff hoperands, Result.bind_ok_iff, Result.mapM_ok_iff]
  constructor
  · rintro ⟨_, ⟨results, hresults, rfl⟩, hz⟩
    obtain ⟨r, hr, rfl⟩ := (hexact results hresults).mp hz
    exact ⟨r, ⟨results, hresults, hr⟩, rfl⟩
  · rintro ⟨r, ⟨results, hresults, hr⟩, rfl⟩
    exact ⟨_, ⟨results, hresults, rfl⟩, (hexact results hresults).mpr ⟨r, hr, rfl⟩⟩

/-- **The operators of a tree are defined exactly if they fit.** -/
theorem Complete.operatorsDefined_iff (h : e.Complete) :
    e.OperatorsDefined read ↔ e.Fits read := by
  constructor
  · apply h.induct (motive := fun e => e.OperatorsDefined read → e.Fits read)
    intro e he ih hdefined
    have hfits : ∀ c ∈ e.operands, c.Fits read := by
      intro c hc
      exact (ih c hc).2 (hdefined.of_mem he (he.operand_mem_postorder hc))
    intro c hc hop operands hoperands
    rcases he.mem_postorder.mp hc with ⟨d, hd, hc⟩ | rfl
    · exact hfits d hd c hc hop operands hoperands
    · -- below the first operator that does not fit, the values are right
      obtain ⟨results, hresults, rfl⟩ := (forall₂_exact_iff fun d hd =>
        (hfits d hd).exact_eq_some_iff (ih d hd).1).mp hoperands
      exact (ThreadPool.settled _ results).defined_iff.mp
        (hdefined c he.self_mem_postorder hop results hresults)
  · intro hfits c hc hop results hresults
    have hcomplete := h.of_mem_postorder c hc
    refine (ThreadPool.settled _ results).defined_iff.mpr (hfits c hc hop _
      ((forall₂_exact_iff fun d hd => ?_).mpr ⟨results, hresults, rfl⟩))
    exact ((hfits.of_mem h hc).of_mem hcomplete
      (hcomplete.operand_mem_postorder hd)).exact_eq_some_iff (hcomplete.operand d hd)

end Expr

/-! ## On the cluster -/

namespace Cluster

/-- No call of `CalculateTaskImpl` for the request goes wrong, in any run on a store with these
variables: it throws, or every operation in it is defined. -/
def CallsDefined (staticData : VariableId → Option Field) (request : AstRequest) : Prop :=
  ∀ actions s, Runs step (start (.setup staticData)) actions s → s.calls.length < 2 ^ 32 →
    ∀ p, s.origin p = some request → ∀ job ∈ s.jobs, job.id.problemId = .ofNat p →
      ∀ operands, job.stage = .extracting operands →
        operands.length = job.task.task.operands.length →
          ∀ x, ThreadPool.Outcome operands
            (.ofOperationType job.task.task.operationType.toNat) x → x.Defined

variable {staticData : VariableId → Option Field} {request : AstRequest}

/-- A job of the request is one for an operator of the tree, and what it has read are the values of
the operands. -/
theorem operator_of_job {db : Database} {s : Cluster} (h : Sound db s)
    (hlt : s.calls.length < 2 ^ 32) {p : ProblemId} (horigin : s.origin p = some request)
    (huntainted : Untainted db p request) {job : Job} (hjob : job ∈ s.jobs)
    (hid : job.id.problemId = .ofNat p) {operands : List ExprResult}
    (hstage : job.stage = .extracting operands)
    (hlength : operands.length = job.task.task.operands.length) :
    ∃ e ∈ request.ast.root.postorder, e.operands ≠ [] ∧
      ExprType.ofOperationType job.task.task.operationType.toNat = e.getType ∧
      List.Forall₂ (fun c r => Expr.eval (start db).read c = .ok r) e.operands operands := by
  obtain ⟨q, request', v, hop, htask, hok⟩ := h.job job hjob
  rw [Job.id, htask] at hid
  obtain ⟨rfl, rfl⟩ := problem_eq hlt horigin hop.origin_eq hid
  obtain ⟨e, he⟩ := AST.exists_record hop.lt
  have hdeps : operands.length = (request'.ast.dag.deps v).length := by
    rw [hlength, htask, AST.taskRequest, List.length_map]
  have hvalues := hok huntainted
  rw [hstage, StageOk, List.take_of_length_le hdeps.ge] at hvalues
  refine ⟨e, (Numbering.mem_ofList _).mp (List.mem_of_getElem? he), ?_, ?_,
    (AST.forall₂_operands he).mp hvalues⟩
  · intro hnil
    apply hop.deps
    rw [AST.deps_of_record he, hnil]
    rfl
  · rw [htask, AST.ofOperationType_taskRequest, AST.typeAt_of_record he]

/-- `CalculationData::New` returned for a request that has a job. -/
theorem new_of_job {db : Database} {s : Cluster} (h : Sound db s) (hlt : s.calls.length < 2 ^ 32)
    {p : ProblemId} (horigin : s.origin p = some request) {job : Job} (hjob : job ∈ s.jobs)
    (hid : job.id.problemId = .ofNat p) :
    ∃ calcData, CalculationData.new request.ast = .ok calcData := by
  obtain ⟨q, request', v, hop, htask, -⟩ := h.job job hjob
  rw [Job.id, htask] at hid
  obtain ⟨rfl, rfl⟩ := problem_eq hlt horigin hop.origin_eq hid
  obtain ⟨calcData, syncData, -, hlive, -⟩ := h.live hlt hop (Sound.job_inFlight hjob htask)
  exact ⟨_, CalculationData.new_eq_ok.mpr ⟨_, hlive.tracks.independent, rfl⟩⟩

theorem untainted_setup {p : ProblemId} : Untainted (.setup staticData) p request :=
  untainted_of_nil rfl

/-- A request that is accepted has all its calls defined exactly if its operators are. -/
theorem callsDefined_iff_operatorsDefined {calcData : CalculationData}
    (hnew : CalculationData.new request.ast = .ok calcData) :
    CallsDefined staticData request ↔
      request.ast.root.OperatorsDefined (start (.setup staticData)).read := by
  constructor
  · intro hcalls e hmem hop operands hoperands x hx
    have hrecord : e ∈ request.ast.numbering.records := (Numbering.mem_ofList _).mpr hmem
    have he := Numbering.getElem?_number hrecord
    have hdeps : request.ast.dag.deps (request.ast.numbering.number e) ≠ [] := by
      rw [AST.deps_of_record he, Ne, List.map_eq_nil_iff]
      exact hop
    have hvalues := (AST.forall₂_operands he).mpr hoperands
    -- a run in which a worker comes to compute this operator
    obtain ⟨actions, s, hrun, hlength, horigin, hjob⟩ :=
      exists_job hnew untainted_setup (AST.lt_of_record he) hdeps hvalues
    have hlt : s.calls.length < 2 ^ 32 := by
      rw [hlength]
      norm_num
    refine hcalls actions s hrun hlt 0 horigin _ hjob rfl operands rfl ?_ x ?_
    · rw [AST.taskRequest, List.length_map]
      exact hvalues.length_eq.symm
    · rw [AST.ofOperationType_taskRequest, AST.typeAt_of_record he]
      exact hx
  · intro hdefined actions s hrun hlt p horigin job hjob hid operands hstage hlength x hx
    obtain ⟨e, hmem, hop, htype, hvalues⟩ := operator_of_job (.of_runs hrun hlt) hlt horigin
      untainted_setup hjob hid hstage hlength
    rw [htype] at hx
    exact hdefined e hmem hop operands hvalues x hx

/-- **When evaluating a request is defined behaviour**: exactly if `CalculationData::New` refuses it
for a constant, or each operator of the tree fits the values of its operands. -/
theorem callsDefined_iff (staticData : VariableId → Option Field) (request : AstRequest) :
    CallsDefined staticData request ↔
      (∃ path x, request.ast.root.subtreeAt path = some (.scalarConstExpr x)) ∨
        request.ast.root.Fits (start (.setup staticData)).read := by
  by_cases hnew : ∃ calcData, CalculationData.new request.ast = .ok calcData
  · have hconst := CalculationData.new_returns_iff.mp hnew
    obtain ⟨calcData, hnew⟩ := hnew
    rw [callsDefined_iff_operatorsDefined hnew, request.ast.complete.operatorsDefined_iff]
    refine (or_iff_right ?_).symm
    rintro ⟨path, x, hx⟩
    exact hconst path x hx
  · -- without a problem there are no calls
    refine iff_of_true ?_ (.inl ?_)
    · intro actions s hrun hlt p horigin job hjob hid
      exact absurd (new_of_job (.of_runs hrun hlt) hlt horigin hjob hid) hnew
    · rw [CalculationData.new_returns_iff] at hnew
      simpa using hnew

/-- The sum of two lists, position by position -/
def pairwiseSum : AstRequest where
  ast := ⟨.listOpExpr .add (some (.listExpr "A")) (some (.listExpr "B")),
    .listOpExpr .listExpr .listExpr⟩
  fits := by decide

/-- Two lists, one longer than the other -/
def unequal : VariableId → Option Field
  | "A" => some (.list [1])
  | "B" => some (.list [1, 2])
  | _ => none

/-- The job for the sum, with both lists read -/
def pairwiseSumJob : Job where
  task := ⟨"worker", ⟨0, 2⟩, 9, [.staticOperand "A", .staticOperand "B"]⟩
  stage := .extracting [.list [1], .list [1, 2]]

/-- The tree is well-kinded and both variables are lists, and the worker that gets the task fails
the assertion. -/
theorem not_callsDefined_unequal : pairwiseSum.ast.root.WellKinded .list ∧
    pairwiseSum.ast.root.Provided unequal ∧
    (∃ actions s, Runs step (start (.setup unequal)) actions s ∧ pairwiseSumJob ∈ s.jobs) ∧
    ThreadPool.calculate pairwiseSumJob.task [.list [1], .list [1, 2]] = .error .aborted ∧
    ¬CallsDefined unequal pairwiseSum := by
  have hrun : ∃ s, Runs step (start (.setup unequal)) [.calculateProblem pairwiseSum,
      .sendComputableTasks, .relay "worker" pairwiseSumJob.task.task,
      .readOperand { pairwiseSumJob with stage := .extracting [] },
      .readOperand { pairwiseSumJob with stage := .extracting [.list [1]] }] s ∧
      s.jobs = {pairwiseSumJob} ∧ s.calls.length = 1 ∧ s.origin 0 = some pairwiseSum :=
    ⟨_, rfl, rfl, rfl, rfl⟩
  obtain ⟨s, hrun, hjobs, hlength, horigin⟩ := hrun
  have hjob : pairwiseSumJob ∈ s.jobs := by simp [hjobs]
  refine ⟨.listOpExpr (by decide) .listExpr .listExpr, ?_, ⟨_, s, hrun, hjob⟩, rfl, ?_⟩
  · intro c hc
    constructor
    · intro l _ field hfield
      unfold unequal at hfield
      split at hfield <;> cases hfield <;> exact ⟨_, rfl⟩
    · rintro x rfl
      simp [pairwiseSum, Expr.postorder, Expr.postorder?] at hc
  · intro hcalls
    exact (hcalls _ s hrun (by rw [hlength]; norm_num) 0 horigin _ hjob rfl _ rfl rfl _
      .calculated).1 rfl

end Cluster
end TaskDispatch
