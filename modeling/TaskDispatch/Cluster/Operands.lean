import Mathlib
import TaskDispatch.Cluster.Evaluation
import TaskDispatch.Decomposition.FromJson
import TaskDispatch.Decomposition.Identity

/-!
# What the operands of a request stand for

A worker reads an operand from the store: a variable where the request names one, and else the row
of a vertex. So a variable or an operator below an operator reaches the worker with its value. A
constant has no way to it: the map of the leaves holds variables only, and
`CalculationData::New` throws at the first `scalar_const` it finds (`operandsReach_iff`).
-/

set_option autoImplicit false

namespace TaskDispatch

open Proto ValueNumbering

/-- What a worker should read for a child of the problem, with `u` for its vertex. -/
def childValue (db : Database) (problemId : ProblemId) (u : TaskId) : Expr → Result ExprResult
  | .listExpr x | .scalarVarExpr x => DatabaseClient.readData db (.identifier x)
  | .scalarConstExpr x => .ok (.scalar x)
  | .reduceExpr .. | .mapExpr .. | .listOpExpr .. | .scalarOpExpr .. =>
    DatabaseClient.readData db (.dynRecordId problemId u)

/-- Whatever is stored, the worker reads for the operand what it should for the child. -/
def Denotes (graph : Graph) (problemId : ProblemId) (operand : Operand) (child : Expr) : Prop :=
  ∃ u, (∀ fuel, u < fuel → graph.unfold fuel u = .ok child) ∧
    ∀ db, ThreadPool.readOperand db operand = childValue db problemId u child

/-- `CalculationData::New` returns, and as long as the problem is in the maps the request for an
operator has an operand for every child, in order, that denotes it. -/
def OperandsReach (ast : AST) : Prop :=
  ∃ calcData, CalculationData.new ast = .ok calcData ∧
    ∀ (d : Dispatcher) (p : ProblemId) (calcData' : CalculationData),
      d.problemIdToCalculationData[p]? = some calcData' →
      calcData'.decompositor = calcData.decompositor →
      calcData'.taskToVariableId = calcData.taskToVariableId →
      ∀ v ∈ calcData.decompositor.tasks, ∀ e, e.operands ≠ [] →
        (∀ fuel, v < fuel → calcData.decompositor.graph.unfold fuel v = .ok e) →
        ∃ request,
          d.formTaskRequest p v (calcData.decompositor.graph.adjacentVertices v) = .ok request ∧
          List.Forall₂ (Denotes calcData.decompositor.graph p) request.operands e.operands

/-! ## The leaves that have a variable -/

section Leaves

variable {ast : AST} {v : VertexDescriptor} {e : Expr}

theorem AST.leafVariable_of_record (h : ast.numbering.records[v]? = some e) :
    ast.decompositor.leafVariable v =
      match e with
      | .listExpr x | .scalarVarExpr x => some x
      | _ => none := by
  have hcomplete : e.Complete := complete_of_mem (List.mem_of_getElem? h)
  rw [TaskDecompositor.leafVariable, decompositor, properties_graphOf h]
  cases e with
  | listExpr | scalarVarExpr | scalarConstExpr => rfl
  | reduceExpr | mapExpr | listOpExpr | scalarOpExpr =>
    split
    · rename_i hleaf
      rw [hcomplete.isLeaf_iff] at hleaf
      cases hcomplete
      simp [Expr.operands, Expr.getLhs, Expr.getRhs] at hleaf
    · rfl

/-- **`CalculationData::New` returns exactly for trees without constants.** -/
theorem CalculationData.new_returns_iff : (∃ calcData, CalculationData.new ast = .ok calcData) ↔
    ∀ path x, ast.root.subtreeAt path ≠ some (.scalarConstExpr x) := by
  constructor
  · rintro ⟨calcData, hnew⟩ path x hx
    obtain ⟨m, hm, -⟩ := new_eq_ok.mp hnew
    -- the constant is a leaf, and would have to have a variable
    have hmem := AST.mem_records_of_subtreeAt hx
    have hrecord := Numbering.getElem?_number hmem
    have hsome := (TaskDecompositor.getElem?_getIndependentTasks _ hm _).2
      (AST.mem_tasks_decompositor.mpr (Numbering.number_lt hmem))
    rw [AST.leafVariable_of_record hrecord, AST.decompositor, properties_graphOf hrecord] at hsome
    cases hsome (.inr (.inl rfl))
  · intro h
    have hleaves : ∀ v ∈ ast.decompositor.tasks,
        (ast.decompositor.graph.properties v).type.IsLeaf →
          (ast.decompositor.leafVariable v).isSome := by
      intro v hv hleaf
      obtain ⟨e, he⟩ := AST.exists_record (AST.mem_tasks_decompositor.mp hv)
      have hmem : e ∈ ast.numbering.records := List.mem_of_getElem? he
      have hcomplete : e.Complete := AST.complete_of_mem hmem
      obtain ⟨path, hpath⟩ :=
        (ast.complete.mem_postorder_iff e).mp ((Numbering.mem_ofList _).mp hmem)
      rw [AST.decompositor, properties_graphOf he, hcomplete.isLeaf_iff] at hleaf
      rw [AST.leafVariable_of_record he]
      cases hcomplete with
      | scalarConstExpr => exact absurd hpath (h path _)
      | listExpr | scalarVarExpr => rfl
      | reduceExpr | mapExpr | listOpExpr | scalarOpExpr =>
        simp [Expr.operands, Expr.getLhs, Expr.getRhs] at hleaf
    obtain ⟨m, hm⟩ := TaskDecompositor.getIndependentTasks_returns _ hleaves
    exact ⟨_, new_eq_ok.mpr ⟨m, hm, rfl⟩⟩

end Leaves

/-! ## The operands of a request -/

/-- The row that is read is the one of the vertex, also where the ids do not fit their fields. -/
theorem readOperand_dynOperand (db : Database) (p : ProblemId) (u : TaskId) :
    ThreadPool.readOperand db (.dynOperand (.mk' p u)) =
      DatabaseClient.readData db (.dynRecordId p u) := by
  simp only [ThreadPool.readOperand, TaskId.mk', DatabaseClient.readData,
    DatabaseClient.toRecordId, UInt32.ofNat_toNat]

section Denotes

variable {ast : AST} {p : ProblemId} {v : VertexDescriptor} {e c : Expr}

/-- The operand for a vertex denotes the tree the vertex stands for, unless that is a constant. -/
theorem AST.denotes_operand (hc : c ∈ ast.numbering.records)
    (hconst : ∀ x, c ≠ .scalarConstExpr x) :
    Denotes ast.decompositor.graph p (ast.operand p (ast.numbering.number c)) c := by
  refine ⟨ast.numbering.number c, fun fuel => AST.unfold_number hc, ?_⟩
  intro db
  rw [AST.operand, AST.leafVariable_of_record (Numbering.getElem?_number hc)]
  cases c with
  | listExpr x | scalarVarExpr x => rfl
  | scalarConstExpr x => exact absurd rfl (hconst x)
  | reduceExpr | mapExpr | listOpExpr | scalarOpExpr => exact readOperand_dynOperand db p _

theorem AST.denotes_operands (h : ast.numbering.records[v]? = some e)
    (hconst : ∀ path x, ast.root.subtreeAt path ≠ some (.scalarConstExpr x)) :
    List.Forall₂ (Denotes ast.decompositor.graph p) (ast.taskRequest p v).operands e.operands := by
  rw [AST.taskRequest, deps_of_record h, List.map_map, List.forall₂_map_left_iff]
  apply List.forall₂_same.mpr
  intro c hc
  have hmem : c ∈ ast.numbering.records :=
    ast.numbering.childrenFirst.mem (List.mem_of_getElem? h) hc
  apply AST.denotes_operand hmem
  rintro x rfl
  obtain ⟨path, hpath⟩ := (ast.complete.mem_postorder_iff _).mp ((Numbering.mem_ofList _).mp hmem)
  exact hconst path x hpath

end Denotes

/-- **When every leaf reaches the workers with its value**: exactly where no leaf of the tree is a
`scalar_const`. -/
theorem operandsReach_iff (ast : AST) : OperandsReach ast ↔
    ∀ path x, ast.root.subtreeAt path ≠ some (.scalarConstExpr x) := by
  constructor
  · rintro ⟨calcData, hnew, -⟩
    exact CalculationData.new_returns_iff.mp ⟨calcData, hnew⟩
  · intro hconst
    obtain ⟨calcData, hnew⟩ := CalculationData.new_returns_iff.mpr hconst
    have htracks := CalculationData.Tracks.new hnew
    refine ⟨calcData, hnew, ?_⟩
    intro d p calcData' hentry hdecompositor hvariables v hv e _ hunfold
    rw [htracks.decompositor_eq] at hdecompositor hv hunfold ⊢
    have hvlt := AST.mem_tasks_decompositor.mp hv
    obtain ⟨e', he'⟩ := AST.exists_record hvlt
    have heq := hunfold (v + 1) (Nat.lt_succ_self v)
    rw [AST.decompositor, unfold_graphOf (fun _ => AST.complete_of_mem) he' (Nat.lt_succ_self v),
      Except.ok.injEq] at heq
    subst heq
    have hoperand : calcData'.operand p = calcData.operand p := by
      funext u
      rw [CalculationData.operand, CalculationData.operand, hvariables]
    have hrequest : calcData'.taskRequest p v (ast.dag.deps v) = ast.taskRequest p v := by
      rw [← htracks.taskRequest_eq hvlt, CalculationData.taskRequest, CalculationData.taskRequest,
        hdecompositor, htracks.decompositor_eq, hoperand]
    refine ⟨ast.taskRequest p v, ?_, AST.denotes_operands he' hconst⟩
    rw [AST.adjacentVertices_decompositor, Dispatcher.formTaskRequest_eq hentry, hrequest]

/-- A variable plus one, as a document and as a tree. -/
def plusOneJson : Json :=
  .object [("ast", .object [("so_add", .object [("lhs", .object [("scalar_var", .string "x")]),
    ("rhs", .object [("scalar_const", .numberUnsigned 1)])])])]

def AST.plusOne : AST where
  root := .scalarOpExpr .add (some (.scalarVarExpr "x")) (some (.scalarConstExpr 1))
  complete := .scalarOpExpr .scalarVarExpr .scalarConstExpr

/-- The document is read, and `CalculationData::New` throws at the constant. -/
theorem plusOne_throws : Expr.fromJson plusOneJson = .ok AST.plusOne.root ∧
    ¬OperandsReach .plusOne := by
  refine ⟨rfl, ?_⟩
  rintro ⟨calcData, hnew, -⟩
  exact CalculationData.new_returns_iff.mp ⟨calcData, hnew⟩ [.rhs] 1 rfl

end TaskDispatch
