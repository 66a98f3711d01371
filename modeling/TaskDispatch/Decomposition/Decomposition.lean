import Mathlib
import TaskDispatch.Decomposition.DagVisitor
import TaskDispatch.Lib.DepthFirst
import TaskDispatch.Lib.Frontier

/-!
# `decomposition/decomposition`: the task graph

`TaskDecompositor::New` runs the visitor, builds the graph and sorts it. `new_eq` says what comes
out for a complete tree: the graph of its value numbering, with the vertices in numerical order.
`AST.dag` is that graph as a rooted dependency graph. Its root is the tree itself, which is
the last record because a tree is none of its proper subtrees.
-/

set_option autoImplicit false

namespace TaskDispatch

open ValueNumbering Frontier

/-- `std::get<domain::VariableId>` -/
def ExprData.getVariableId : ExprData → Result VariableId
  | .variableId id => .ok id
  | _ => .error (.thrown .badVariantAccess)

/-- `boost::topological_sort`: the vertices in the order in which a depth-first search finishes
them. The second failure is one of the model, not of the library. -/
def topologicalSort (graph : Graph) : Result (List VertexDescriptor) :=
  match DepthFirst.search graph.adjacentVertices graph.vertices.length with
  | .ok tasks => .ok tasks
  | .error .backEdge => .error (.thrown .notADag)
  | .error .outOfFuel => .error .undefined

structure TaskDecompositor where
  graph : Graph
  tasks : List VertexDescriptor
  deriving DecidableEq, Repr

namespace TaskDecompositor

def new (ast : AST) : Result TaskDecompositor := do
  let dagVisitor ← ast.root.postorderTraverse DagVisitor.visit {}
  let graph ← dagVisitor.buildGraph
  let tasks ← topologicalSort graph
  .ok { graph, tasks }

/-- One round of the loop of `GetIndependentTasks`. A `scalar_const` is a leaf too, but its data is
no `VariableId`, so `std::get` throws. -/
def emplaceIfLeaf (d : TaskDecompositor)
    (independentTasks : Std.ExtTreeMap VertexDescriptor VariableId) (task : VertexDescriptor) :
    Result (Std.ExtTreeMap VertexDescriptor VariableId) :=
  if (d.graph.properties task).type.IsLeaf then do
    let id ← (d.graph.properties task).data.getVariableId
    .ok (independentTasks.insertIfNew task id)
  else .ok independentTasks

/-- The leaves with their variables. -/
def getIndependentTasks (d : TaskDecompositor) :
    Result (Std.ExtTreeMap VertexDescriptor VariableId) :=
  d.tasks.foldlM d.emplaceIfLeaf ∅

/-- One round of the loop of `GetComputableTasks` -/
def emplaceIfComputable (d : TaskDecompositor)
    (computedTasks excludedTasks : Finset VertexDescriptor)
    (computable : Std.ExtTreeMap VertexDescriptor (List VertexDescriptor))
    (task : VertexDescriptor) : Std.ExtTreeMap VertexDescriptor (List VertexDescriptor) :=
  if task ∉ computedTasks ∧ task ∉ excludedTasks then
    if ∀ vertex ∈ d.graph.adjacentVertices task, vertex ∈ computedTasks then
      computable.insertIfNew task (d.graph.adjacentVertices task)
    else computable
  else computable

/-- The tasks neither computed nor excluded all of whose operands are computed, each with its
operands in order. -/
def getComputableTasks (d : TaskDecompositor)
    (computedTasks excludedTasks : Finset VertexDescriptor) :
    Std.ExtTreeMap VertexDescriptor (List VertexDescriptor) :=
  d.tasks.foldl (d.emplaceIfComputable computedTasks excludedTasks) ∅

def getOperationType (d : TaskDecompositor) (task : VertexDescriptor) : ℕ :=
  (d.graph.properties task).type.toOperationType

/-- `GetSortedTasks().back()` -/
def lastTask (d : TaskDecompositor) : Result VertexDescriptor :=
  match d.tasks.getLast? with
  | some task => .ok task
  | none => .error .undefined

/-! ## What the two queries return -/

section GetComputableTasks

variable (d : TaskDecompositor) (C X : Finset VertexDescriptor) (v : VertexDescriptor)

/-- What the two tests of the loop ask of a task. -/
def IsComputable : Prop := v ∉ C ∧ v ∉ X ∧ ∀ u ∈ d.graph.adjacentVertices v, u ∈ C

instance : Decidable (d.IsComputable C X v) := inferInstanceAs (Decidable (_ ∧ _ ∧ _))

theorem emplaceIfComputable_eq
    (computable : Std.ExtTreeMap VertexDescriptor (List VertexDescriptor))
    (task : VertexDescriptor) :
    d.emplaceIfComputable C X computable task =
      if d.IsComputable C X task then
        computable.insertIfNew task (d.graph.adjacentVertices task)
      else computable := by
  unfold emplaceIfComputable
  by_cases h₁ : task ∉ C ∧ task ∉ X
  · by_cases h₂ : ∀ u ∈ d.graph.adjacentVertices task, u ∈ C
    · rw [if_pos h₁, if_pos h₂, if_pos ⟨h₁.1, h₁.2, h₂⟩]
    · rw [if_pos h₁, if_neg h₂, if_neg fun h => h₂ h.2.2]
  · rw [if_neg h₁, if_neg fun h => h₁ ⟨h.1, h.2.1⟩]

theorem getElem?_getComputableTasks :
    (d.getComputableTasks C X)[v]? =
      if v ∈ d.tasks ∧ d.IsComputable C X v then some (d.graph.adjacentVertices v) else none := by
  unfold getComputableTasks
  induction d.tasks using List.reverseRecOn with
  | nil => simp
  | append_singleton ts t ih =>
    rw [List.foldl_append, List.foldl_cons, List.foldl_nil, emplaceIfComputable_eq]
    by_cases ht : t = v
    · subst ht
      by_cases hc : d.IsComputable C X t
      · rw [if_pos hc, Std.ExtTreeMap.getElem?_insertIfNew]
        by_cases hts : t ∈ ts <;> simp_all
      · simp_all
    · have ht' : v ≠ t := Ne.symm ht
      split_ifs <;> simp_all [Std.ExtTreeMap.getElem?_insertIfNew]

end GetComputableTasks

section GetIndependentTasks

variable (d : TaskDecompositor)

/-- The variable of a leaf. -/
def leafVariable (v : VertexDescriptor) : Option VariableId :=
  if (d.graph.properties v).type.IsLeaf then
    match (d.graph.properties v).data with
    | .variableId id => some id
    | _ => none
  else none

theorem emplaceIfLeaf_ok {m m' : Std.ExtTreeMap VertexDescriptor VariableId}
    {t : VertexDescriptor} (h : d.emplaceIfLeaf m t = .ok m') (v : VertexDescriptor) :
    ((d.graph.properties t).type.IsLeaf → (d.leafVariable t).isSome) ∧
      m'[v]? = if v = t ∧ m[v]? = none then d.leafVariable v else m[v]? := by
  unfold emplaceIfLeaf at h
  split at h
  · rename_i hleaf
    obtain ⟨id, hid, hm⟩ := Result.bind_ok_iff.mp h
    obtain rfl := Except.ok.inj hm
    have hvar : d.leafVariable t = some id := by
      unfold ExprData.getVariableId at hid
      unfold leafVariable
      split at hid <;> simp_all
    refine ⟨fun _ => by simp [hvar], ?_⟩
    rw [Std.ExtTreeMap.getElem?_insertIfNew]
    by_cases hvt : v = t
    · subst hvt
      by_cases hm : m[v]? = none <;> simp_all
    · simp [hvt, Ne.symm hvt]
  · rename_i hleaf
    obtain rfl := Except.ok.inj h
    refine ⟨fun h => absurd h hleaf, ?_⟩
    split_ifs with hc
    · rw [hc.2, leafVariable, if_neg (hc.1 ▸ hleaf)]
    · rfl

/-- What `GetIndependentTasks` has to have found where it returns. -/
theorem getElem?_getIndependentTasks {m : Std.ExtTreeMap VertexDescriptor VariableId}
    (h : d.getIndependentTasks = .ok m) (v : VertexDescriptor) :
    m[v]? = (if v ∈ d.tasks then d.leafVariable v else none) ∧
      (v ∈ d.tasks → (d.graph.properties v).type.IsLeaf → (d.leafVariable v).isSome) := by
  unfold getIndependentTasks at h
  generalize d.tasks = ts at h ⊢
  induction ts using List.reverseRecOn generalizing m with
  | nil =>
    obtain rfl := Except.ok.inj h
    simp
  | append_singleton ts t ih =>
    rw [List.foldlM_append, Result.bind_ok_iff] at h
    obtain ⟨m₀, hm₀, hm⟩ := h
    obtain ⟨hlookup, hsome⟩ := ih hm₀
    obtain ⟨hleaf, hstep⟩ := d.emplaceIfLeaf_ok (by simpa using hm) v
    rw [hstep, hlookup]
    by_cases hvt : v = t
    · subst hvt
      by_cases hts : v ∈ ts <;> simp_all
    · simpa [hvt] using hsome

/-- It returns when no leaf is a constant. -/
theorem getIndependentTasks_returns
    (h : ∀ v ∈ d.tasks, (d.graph.properties v).type.IsLeaf → (d.leafVariable v).isSome) :
    ∃ m, d.getIndependentTasks = .ok m := by
  unfold getIndependentTasks
  generalize (∅ : Std.ExtTreeMap VertexDescriptor VariableId) = m
  generalize d.tasks = ts at h ⊢
  induction ts generalizing m with
  | nil => exact ⟨m, rfl⟩
  | cons t ts ih =>
    have hstep : ∃ m', d.emplaceIfLeaf m t = .ok m' := by
      unfold emplaceIfLeaf
      split
      · rename_i hleaf
        have ht := h t List.mem_cons_self hleaf
        unfold leafVariable at ht
        rw [if_pos hleaf] at ht
        split at ht
        · rename_i id hdata
          exact ⟨_, by rw [hdata]; rfl⟩
        · simp at ht
      · exact ⟨m, rfl⟩
    obtain ⟨m', hm'⟩ := hstep
    rw [List.foldlM_cons, hm']
    exact ih m' fun v hv => h v (List.mem_cons_of_mem _ hv)

end GetIndependentTasks

end TaskDecompositor

/-! ## The task graph of a complete tree -/

namespace Expr

variable {e : Expr}

/-- A proper subtree has fewer nodes. -/
theorem Complete.length_postorder_lt (h : e.Complete) {c : Expr} (hc : c ∈ e.operands) :
    c.postorder.length < e.postorder.length := by
  rw [h.postorder_eq, List.length_append, List.length_flatMap]
  have hle : c.postorder.length ≤ (e.operands.map fun c => c.postorder.length).sum :=
    List.single_le_sum (by simp) _ (List.mem_map_of_mem hc)
  simp only [List.length_singleton]
  omega

theorem Complete.length_le_of_mem (h : e.Complete) :
    ∀ c ∈ e.postorder, c.postorder.length ≤ e.postorder.length := by
  apply h.induct_node (motive := fun e c => c.postorder.length ≤ e.postorder.length)
  · intro e _
    exact le_rfl
  · intro e d c he hd hc
    exact hc.trans (he.length_postorder_lt hd).le

/-- A tree is none of its proper subtrees. -/
theorem Complete.notMem_operands (h : e.Complete) : e ∉ e.operands.flatMap postorder := by
  rw [List.mem_flatMap]
  rintro ⟨c, hc, hmem⟩
  have := (h.operand c hc).length_le_of_mem e hmem
  have := h.length_postorder_lt hc
  omega

/-- Every node is reached from the root by taking operands. -/
theorem Complete.reachable (h : e.Complete) : ∀ c ∈ e.postorder,
    Relation.ReflTransGen (fun a b : Expr => b ∈ a.operands) e c := by
  apply h.induct_node (motive := fun e c =>
    Relation.ReflTransGen (fun a b : Expr => b ∈ a.operands) e c)
  · intro e _
    exact .refl
  · intro e d c _ hd hc
    exact .head hd hc

/-- The leaves are the nodes without operands. -/
theorem Complete.isLeaf_iff (h : e.Complete) : e.getType.IsLeaf ↔ e.operands = [] := by
  cases h with
  | @reduceExpr type =>
    cases type <;> simp [getType, ReduceType.getType, ExprType.IsLeaf, operands, getLhs, getRhs]
  | @mapExpr type =>
    cases type <;> simp [getType, MapType.getType, ExprType.IsLeaf, operands, getLhs, getRhs]
  | @listOpExpr type =>
    cases type <;> simp [getType, ListOpType.getType, ExprType.IsLeaf, operands, getLhs, getRhs]
  | @scalarOpExpr type =>
    cases type <;> simp [getType, ScalarOpType.getType, ExprType.IsLeaf, operands, getLhs, getRhs]
  | _ => simp [getType, ExprType.IsLeaf, operands, getLhs, getRhs]

end Expr

namespace AST

variable (ast : AST)

/-- The number of vertices of the graph: of distinct subtrees. -/
noncomputable def vertexCount : ℕ := ast.numbering.records.length

theorem root_mem : ast.root ∈ ast.numbering.records :=
  (Numbering.mem_ofList _).mpr ast.complete.self_mem_postorder

/-- The tree itself is the last record. -/
theorem number_root : ast.numbering.number ast.root + 1 = ast.vertexCount := by
  have hrecords : ast.numbering.records =
      (ast.root.operands.flatMap Expr.postorder).foldl insertNew [] ++ [ast.root] := by
    have hpost := ast.complete.postorder_eq
    have hfirst := ast.complete.childrenFirst
    rw [hpost] at hfirst
    rw [← Numbering.records_ofList_snoc hfirst ast.complete.notMem_operands]
    simp [numbering, ← hpost]
  have hnot : ast.root ∉ (ast.root.operands.flatMap Expr.postorder).foldl insertNew [] := by
    simpa [mem_foldl_insertNew] using ast.complete.notMem_operands
  unfold vertexCount Numbering.number
  rw [hrecords, List.idxOf_append_of_notMem hnot]
  simp

/-- The graph as a dependency graph with the tree as its root. -/
noncomputable def dag : RootedDag VertexDescriptor where
  vertices := {v | v < ast.vertexCount}
  deps := ast.numbering.deps
  root := ast.numbering.number ast.root
  wf := Subrelation.wf (fun h => Numbering.deps_lt h) Nat.lt_wfRel.wf
  root_mem := Numbering.number_lt ast.root_mem
  deps_mem := fun _ hv _ hu => (Numbering.deps_lt hu).trans hv
  root_reaches := by
    intro v hv
    have hmem : ast.numbering.records[v] ∈ ast.root.postorder :=
      (Numbering.mem_ofList _).mp (List.getElem_mem hv)
    have hreach := Numbering.reachable_number ast.root_mem
      (ast.complete.reachable _ hmem)
    rw [(Numbering.number_eq_iff hreach.1).mpr (List.getElem?_eq_getElem hv)] at hreach
    exact hreach.2

/-- The graph of the numbering, the vertices in numerical order. -/
noncomputable def decompositor : TaskDecompositor where
  graph := graphOf ast.numbering
  tasks := List.range ast.vertexCount

/-- Edges go to smaller numbers, so the search meets no cycle and finishes in numerical order. -/
theorem topologicalSort_decompositor {ast : AST} :
    topologicalSort ast.decompositor.graph = .ok ast.decompositor.tasks := by
  have hdesc : ∀ v, ∀ u ∈ (graphOf ast.numbering).adjacentVertices v, u < v := by
    intro v u hu
    rw [adjacentVertices_graphOf] at hu
    exact Numbering.deps_lt hu
  rw [decompositor, topologicalSort, DepthFirst.search_of_descending _ hdesc,
    length_vertices_graphOf]
  rfl

end AST

namespace TaskDecompositor

/-- **`TaskDecompositor::New` returns** for every complete tree. -/
theorem new_eq (ast : AST) : new ast = .ok ast.decompositor := by
  have hsort : topologicalSort (graphOf ast.numbering) = .ok (List.range ast.vertexCount) :=
    AST.topologicalSort_decompositor
  simp [new, ast.records_numbering, buildGraph_eq fun _ => AST.complete_of_mem, hsort,
    AST.decompositor]

end TaskDecompositor

/-! ## The vertices of a tree -/

namespace AST

variable {ast : AST} {v : VertexDescriptor} {e : Expr}

theorem mem_vertices : v ∈ ast.dag.vertices ↔ v < ast.vertexCount := Iff.rfl

theorem exists_record (hv : v < ast.vertexCount) : ∃ e, ast.numbering.records[v]? = some e :=
  ⟨_, List.getElem?_eq_getElem hv⟩

theorem lt_of_record (h : ast.numbering.records[v]? = some e) : v < ast.vertexCount :=
  (List.getElem?_eq_some_iff.mp h).1

theorem deps_of_record (h : ast.numbering.records[v]? = some e) :
    ast.dag.deps v = e.operands.map ast.numbering.number :=
  Numbering.deps_of_getElem? h

@[simp] theorem adjacentVertices_decompositor :
    ast.decompositor.graph.adjacentVertices v = ast.dag.deps v := adjacentVertices_graphOf

@[simp] theorem mem_tasks_decompositor : v ∈ ast.decompositor.tasks ↔ v < ast.vertexCount :=
  List.mem_range

/-- The leaves of the tree are the vertices that depend on nothing. -/
theorem isLeaf_iff (hv : v < ast.vertexCount) :
    (ast.decompositor.graph.properties v).type.IsLeaf ↔ ast.dag.deps v = [] := by
  obtain ⟨e, he⟩ := exists_record hv
  have hcomplete : e.Complete := complete_of_mem (List.mem_of_getElem? he)
  rw [deps_of_record he, List.map_eq_nil_iff, ← hcomplete.isLeaf_iff, decompositor,
    properties_graphOf he]

theorem root_lt : ast.dag.root < ast.vertexCount := ast.dag.root_mem

theorem record_root : ast.numbering.records[ast.dag.root]? = some ast.root :=
  Numbering.getElem?_number ast.root_mem

/-- The back of the sorted tasks is the root. -/
theorem lastTask_decompositor (ast : AST) : ast.decompositor.lastTask = .ok ast.dag.root := by
  have hlast : ast.decompositor.tasks.getLast? = some ast.dag.root := by
    have hcount : ast.dag.root + 1 = ast.vertexCount := ast.number_root
    rw [decompositor, ← hcount, List.range_succ, List.getLast?_concat]
  rw [TaskDecompositor.lastTask, hlast]

/-- A leaf at the root means that the tree is a single leaf. -/
theorem deps_root_eq_nil_iff : ast.dag.deps ast.dag.root = [] ↔ ast.root.getType.IsLeaf := by
  rw [ast.complete.isLeaf_iff, deps_of_record record_root, List.map_eq_nil_iff]

end AST

end TaskDispatch
