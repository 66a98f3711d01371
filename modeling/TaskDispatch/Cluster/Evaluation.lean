import Mathlib
import TaskDispatch.Dispatch.Schedule
import TaskDispatch.Worker.ThreadPool

/-!
# What a problem should evaluate to

`Expr.eval` is the plain recursive evaluation that the distributed one is measured by: leaves are
read, operators are what a worker computes for the values of their operands. `AST.valueAt` is the
same, vertex by vertex, and `AST.taskRequest` is the message for a vertex. A worker that is given
the values of the operands computes the value of the vertex (`valueAt_operator`).
-/

set_option autoImplicit false

namespace TaskDispatch

open Proto ValueNumbering

/-! ## Recursive evaluation -/

namespace Expr

mutual

/-- `read` is the access to the variables. -/
def eval (read : VariableId → Result ExprResult) : Expr → Result ExprResult
  | e@(reduceExpr _ operand) => do
    ThreadPool.calculateTaskImpl e.getType [← evalOperand read operand]
  | e@(mapExpr _ lhs rhs) => do
    ThreadPool.calculateTaskImpl e.getType [← evalOperand read lhs, ← evalOperand read rhs]
  | e@(listOpExpr _ lhs rhs) => do
    ThreadPool.calculateTaskImpl e.getType [← evalOperand read lhs, ← evalOperand read rhs]
  | e@(scalarOpExpr _ lhs rhs) => do
    ThreadPool.calculateTaskImpl e.getType [← evalOperand read lhs, ← evalOperand read rhs]
  | listExpr l => read l
  | scalarConstExpr x => .ok (.scalar x)
  | scalarVarExpr x => read x

def evalOperand (read : VariableId → Result ExprResult) : Option Expr → Result ExprResult
  | some operand => eval read operand
  | none => .error .undefined

end

variable {read : VariableId → Result ExprResult} {e : Expr}

/-- An operator evaluates its operands from left to right and applies itself. -/
theorem Complete.eval_operator (h : e.Complete) (hop : e.operands ≠ []) :
    e.eval read = e.operands.mapM (eval read) >>= ThreadPool.calculateTaskImpl e.getType := by
  cases h with
  | reduceExpr | mapExpr | listOpExpr | scalarOpExpr =>
    simp [eval, evalOperand, operands, getLhs, getRhs]
  | listExpr | scalarConstExpr | scalarVarExpr => simp [operands, getLhs, getRhs] at hop

end Expr

/-! ## Vertex by vertex -/

namespace AST

variable {ast : AST} {read : VariableId → Result ExprResult} {v u : VertexDescriptor} {e : Expr}
  {p : ProblemId}

/-- The value of the tree a vertex stands for. -/
noncomputable def valueAt (ast : AST) (read : VariableId → Result ExprResult)
    (v : VertexDescriptor) : Result ExprResult :=
  match ast.numbering.records[v]? with
  | some e => e.eval read
  | none => .error .undefined

theorem valueAt_of_record (h : ast.numbering.records[v]? = some e) :
    ast.valueAt read v = e.eval read := by
  rw [valueAt, h]

theorem valueAt_root : ast.valueAt read ast.dag.root = ast.root.eval read :=
  valueAt_of_record record_root

/-- The type of a vertex. -/
noncomputable def typeAt (ast : AST) (v : VertexDescriptor) : ExprType :=
  (ast.decompositor.graph.properties v).type

/-- The type in the graph is that of the tree the vertex stands for. -/
theorem typeAt_of_record (h : ast.numbering.records[v]? = some e) : ast.typeAt v = e.getType := by
  rw [typeAt, decompositor, properties_graphOf h]

/-- The values of the vertices an operator depends on are those of its operands, in order. -/
theorem forall₂_operands (h : ast.numbering.records[v]? = some e) {operands : List ExprResult} :
    List.Forall₂ (fun u r => ast.valueAt read u = .ok r) (ast.dag.deps v) operands ↔
      List.Forall₂ (fun c r => Expr.eval read c = .ok r) e.operands operands := by
  have hmem : ∀ c ∈ e.operands, c ∈ ast.numbering.records :=
    fun c hc => ast.numbering.childrenFirst.mem (List.mem_of_getElem? h) hc
  have hvalue : ∀ c ∈ e.operands, ∀ r,
      ast.valueAt read (ast.numbering.number c) = .ok r ↔ Expr.eval read c = .ok r := by
    intro c hc r
    rw [valueAt_of_record (Numbering.getElem?_number (hmem c hc))]
  rw [deps_of_record h, List.forall₂_map_left_iff]
  constructor
  · intro hall
    exact (((List.forall₂_and_left _ _).mpr ⟨fun _ hc => hc, hall⟩).imp
      fun c r hc => (hvalue c hc.1 r).mp hc.2)
  · intro hall
    exact (((List.forall₂_and_left _ _).mpr ⟨fun _ hc => hc, hall⟩).imp
      fun c r hc => (hvalue c hc.1 r).mpr hc.2)

/-- The node at an operator. -/
theorem exists_operator_record (hv : v < ast.vertexCount) (hdeps : ast.dag.deps v ≠ []) :
    ∃ e, ast.numbering.records[v]? = some e ∧ e.Complete ∧ e.operands ≠ [] := by
  obtain ⟨e, he⟩ := exists_record hv
  refine ⟨e, he, complete_of_mem (List.mem_of_getElem? he), ?_⟩
  intro hnil
  rw [deps_of_record he, hnil] at hdeps
  exact hdeps rfl

/-- **The value of an operator is computed from the values of its operands.** -/
theorem valueAt_operator (hv : v < ast.vertexCount) (hdeps : ast.dag.deps v ≠ [])
    {operands : List ExprResult}
    (h : List.Forall₂ (fun u r => ast.valueAt read u = .ok r) (ast.dag.deps v) operands) :
    ast.valueAt read v = ThreadPool.calculateTaskImpl (ast.typeAt v) operands := by
  obtain ⟨e, he, hcomplete, hop⟩ := exists_operator_record hv hdeps
  have hvalues : e.operands.mapM (Expr.eval read) = .ok operands :=
    Result.mapM_ok_iff.mpr ((forall₂_operands he).mp h)
  rw [valueAt_of_record he, hcomplete.eval_operator hop, hvalues, Result.ok_bind,
    typeAt_of_record he]

/-- The other way round, an operator that has a value has operands with values. -/
theorem operands_of_valueAt (hv : v < ast.vertexCount) (hdeps : ast.dag.deps v ≠ [])
    {r : ExprResult} (hr : ast.valueAt read v = .ok r) : ∃ operands,
      List.Forall₂ (fun u r => ast.valueAt read u = .ok r) (ast.dag.deps v) operands ∧
        ThreadPool.calculateTaskImpl (ast.typeAt v) operands = .ok r := by
  obtain ⟨e, he, hcomplete, hop⟩ := exists_operator_record hv hdeps
  rw [valueAt_of_record he, hcomplete.eval_operator hop, Result.bind_ok_iff] at hr
  obtain ⟨operands, hoperands, hcalculate⟩ := hr
  refine ⟨operands, (forall₂_operands he).mpr (Result.mapM_ok_iff.mp hoperands), ?_⟩
  rw [typeAt_of_record he, hcalculate]

/-- A leaf that has a variable has the value of the variable. -/
theorem valueAt_leaf {x : VariableId} (hv : v < ast.vertexCount)
    (h : ast.decompositor.leafVariable v = some x) : ast.valueAt read v = read x := by
  obtain ⟨e, he⟩ := exists_record hv
  rw [valueAt_of_record he]
  rw [TaskDecompositor.leafVariable, decompositor, properties_graphOf he] at h
  split at h
  · cases e with
    | listExpr | scalarVarExpr => simp_all [Expr.getData, Expr.eval]
    | _ => simp_all [Expr.getData]
  · cases h

/-- The operand a request holds for a vertex. -/
noncomputable def operand (ast : AST) (p : ProblemId) (u : VertexDescriptor) : Operand :=
  match ast.decompositor.leafVariable u with
  | some x => .staticOperand x
  | none => .dynOperand (.mk' p u)

/-- The request for a vertex. -/
noncomputable def taskRequest (ast : AST) (p : ProblemId) (v : VertexDescriptor) : Task where
  id := .mk' p v
  operationType := .ofNat (ast.decompositor.getOperationType v)
  operands := (ast.dag.deps v).map (ast.operand p)

/-- The worker gets the type of the vertex back out of the message. -/
theorem ofOperationType_taskRequest :
    ExprType.ofOperationType (ast.taskRequest p v).operationType.toNat = ast.typeAt v := by
  have hlt := ExprType.toOperationType_lt (ast.typeAt v)
  show ExprType.ofOperationType (UInt32.ofNat (ast.typeAt v).toOperationType).toNat = _
  rw [toNat_ofNat_of_lt (by omega), ExprType.ofOperationType_toOperationType]

end AST

namespace CalculationData

variable {calcData : CalculationData} {ast : AST} {p : ProblemId} {v : TaskId}

/-- The requests of a problem are those of its tree. -/
theorem Tracks.taskRequest_eq (h : Tracks calcData ast) (hv : v < ast.vertexCount) :
    calcData.taskRequest p v (ast.dag.deps v) = ast.taskRequest p v := by
  have hoperand : ∀ u ∈ ast.dag.deps v, calcData.operand p u = ast.operand p u := by
    intro u hu
    have hult : u < ast.vertexCount := ast.dag.deps_mem v hv u hu
    obtain ⟨hlookup, -⟩ := TaskDecompositor.getElem?_getIndependentTasks _ h.independent u
    rw [if_pos (AST.mem_tasks_decompositor.mpr hult)] at hlookup
    cases hvar : ast.decompositor.leafVariable u with
    | none => simp [operand, AST.operand, hlookup, hvar]
    | some x => simp [operand, AST.operand, hlookup, hvar]
  rw [taskRequest, AST.taskRequest, h.decompositor_eq, List.map_congr_left hoperand]

end CalculationData
end TaskDispatch
