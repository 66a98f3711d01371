import Mathlib
import TaskDispatch.Decomposition.Decomposition

/-!
# Value numbering preserves the expression

A vertex of the graph stands for a tree: the node its properties describe, over the trees its
out-edges lead to, in the order in which they were added. `Graph.unfold` reads that tree back
with the program's own factory, and `unfold_graphOf` says that on the graph of a complete tree it
gives back the record of the vertex: nothing is shared that differs, no operand edge is lost,
merged or swapped.

The order the vertices are sorted into ends with the vertex that unfolds to the whole tree, and
that one reaches all others (`new_sorts`).
-/

set_option autoImplicit false

namespace TaskDispatch

open ValueNumbering

/-- The variable among the alternatives of the data, as an argument of the factory -/
def ExprData.variableId? : ExprData → Option VariableId
  | .variableId id => some id
  | _ => none

def ExprData.scalar? : ExprData → Option Scalar
  | .scalar x => some x
  | _ => none

/-- The node with these properties over these operands. A node has at most two. -/
def VertexProperties.toExpr (p : VertexProperties) : List Expr → Result Expr
  | [] => Expr.new p.type none none p.data.variableId? p.data.scalar?
  | [lhs] => Expr.new p.type (some lhs) none p.data.variableId? p.data.scalar?
  | [lhs, rhs] => Expr.new p.type (some lhs) (some rhs) p.data.variableId? p.data.scalar?
  | _ => .error .undefined

/-- The tree a vertex stands for, to depth `fuel`. -/
def Graph.unfold (graph : Graph) : ℕ → VertexDescriptor → Result Expr
  | 0, _ => .error .undefined
  | fuel + 1, v => do
    let operands ← (graph.adjacentVertices v).mapM (graph.unfold fuel)
    (graph.properties v).toExpr operands

/-- The factory is inverse to `GetType`, `GetData` and the operands. -/
theorem Expr.Complete.toExpr {e : Expr} (h : e.Complete) :
    VertexProperties.toExpr ⟨e.getType, e.getData⟩ e.operands = .ok e := by
  cases h with
  | @reduceExpr type => cases type <;> rfl
  | @mapExpr type => cases type <;> rfl
  | @listOpExpr type => cases type <;> rfl
  | @scalarOpExpr type => cases type <;> rfl
  | _ => rfl

/-- **The graph of a numbering unfolds to its records.** -/
theorem unfold_graphOf {N : Numbering Expr.operands} (hrec : ∀ r ∈ N.records, r.Complete) :
    ∀ {fuel v : ℕ} {e : Expr}, N.records[v]? = some e → v < fuel →
      (graphOf N).unfold fuel v = .ok e := by
  intro fuel
  induction fuel with
  | zero => intro v e _ hlt; omega
  | succ fuel ih =>
    intro v e he hlt
    have hmem : e ∈ N.records := List.mem_of_getElem? he
    have hoperands : (N.deps v).mapM ((graphOf N).unfold fuel) = .ok e.operands := by
      rw [Numbering.deps_of_getElem? he, Result.mapM_ok_iff, List.forall₂_map_left_iff]
      apply List.forall₂_same.mpr
      intro c hc
      have hc' : c ∈ N.records := N.childrenFirst.mem hmem hc
      have hcv : N.number c < N.number e := Numbering.number_child_lt hmem hc
      rw [(Numbering.number_eq_iff hmem).mpr he] at hcv
      exact ih (Numbering.getElem?_number hc') (by omega)
    rw [Graph.unfold, adjacentVertices_graphOf, hoperands, Result.ok_bind, properties_graphOf he]
    exact (hrec e hmem).toExpr

/-- **Value numbering preserves the expression.** For every tree with all its operands the
traversal and `BuildGraph` return, every vertex unfolds to the expression recorded for it, the
last one to the whole tree, and the out-edges of a binary node are two, first the one to the
record of `lhs`, then the one to the record of `rhs`, also where the two are the same. -/
theorem buildGraph_preserves_expression (ast : AST) :
    ∃ visitor graph, ast.root.postorderTraverse DagVisitor.visit {} = .ok visitor ∧
      visitor.buildGraph = .ok graph ∧
      graph.vertices.length = visitor.records.length ∧
      (∀ v e, visitor.records[v]? = some e → ∀ fuel, v < fuel → graph.unfold fuel v = .ok e) ∧
      visitor.records.getLast? = some ast.root ∧
      ∀ v e lhs rhs, visitor.records[v]? = some e → e.getLhs = some lhs → e.getRhs = some rhs →
        ∃ i j, graph.adjacentVertices v = [i, j] ∧ visitor.records[i]? = some lhs ∧
          visitor.records[j]? = some rhs := by
  refine ⟨{ records := ast.numbering.records }, graphOf ast.numbering, ast.records_numbering,
    buildGraph_eq fun _ => AST.complete_of_mem, length_vertices_graphOf,
    fun v e he fuel => unfold_graphOf (fun _ => AST.complete_of_mem) he, ?_, ?_⟩
  · have hlast : ast.numbering.records.length - 1 = ast.numbering.number ast.root := by
      have := ast.number_root
      unfold AST.vertexCount at this
      omega
    rw [List.getLast?_eq_getElem?, hlast]
    exact Numbering.getElem?_number ast.root_mem
  · intro v e lhs rhs he hlhs hrhs
    have hmem : e ∈ ast.numbering.records := List.mem_of_getElem? he
    have hops : e.operands = [lhs, rhs] := by simp [Expr.operands, hlhs, hrhs]
    have hin : ∀ c ∈ e.operands, c ∈ ast.numbering.records :=
      fun c hc => ast.numbering.childrenFirst.mem hmem hc
    refine ⟨ast.numbering.number lhs, ast.numbering.number rhs, ?_,
      Numbering.getElem?_number (hin lhs (by simp [hops])),
      Numbering.getElem?_number (hin rhs (by simp [hops]))⟩
    rw [adjacentVertices_graphOf, Numbering.deps_of_getElem? he, hops]
    rfl

/-! ## The order of the vertices -/

/-- **The schedule is a dependency order that ends in the root.** For every tree with all its
operands `TaskDecompositor::New` returns: the graph has no cycle, every vertex is sorted once and
after all its operands, and the last one stands for the whole tree and reaches every vertex. -/
theorem TaskDecompositor.new_sorts (ast : AST) :
    ∃ d, new ast = .ok d ∧
      (∀ v, ¬Relation.TransGen (fun v u => u ∈ d.graph.adjacentVertices v) v v) ∧
      topologicalSort d.graph = .ok d.tasks ∧
      d.tasks.Nodup ∧ (∀ v, v ∈ d.tasks ↔ v < d.graph.vertices.length) ∧
      (∀ before v after, d.tasks = before ++ v :: after →
        ∀ u ∈ d.graph.adjacentVertices v, u ∈ before) ∧
      ∃ root, d.lastTask = .ok root ∧
        (∀ fuel, root < fuel → d.graph.unfold fuel root = .ok ast.root) ∧
        ∀ v ∈ d.tasks,
          Relation.ReflTransGen (fun v u => u ∈ d.graph.adjacentVertices v) root v := by
  have hout : ∀ v, ∀ u ∈ ast.decompositor.graph.adjacentVertices v, u < v := by
    intro v u hu
    rw [AST.adjacentVertices_decompositor] at hu
    exact Numbering.deps_lt hu
  refine ⟨ast.decompositor, new_eq ast, ?_, AST.topologicalSort_decompositor,
    List.nodup_range, ?_, ?_, ast.dag.root, ast.lastTask_decompositor, ?_, ?_⟩
  · -- every edge leads to a vertex that was numbered before
    intro v hcycle
    have hdesc : ∀ {v w}, Relation.TransGen
        (fun v u => u ∈ ast.decompositor.graph.adjacentVertices v) v w → w < v := by
      intro v w hpath
      induction hpath with
      | single hedge => exact hout v _ hedge
      | tail _ hedge ih => exact (hout _ _ hedge).trans ih
    exact lt_irrefl v (hdesc hcycle)
  · intro v
    rw [AST.mem_tasks_decompositor]
    exact Iff.of_eq (congrArg (v < ·) length_vertices_graphOf.symm)
  · intro before v after hsplit u hu
    have hrange : List.range ast.vertexCount = before ++ v :: after := hsplit
    -- in numerical order, what stands before `v` is what is smaller
    obtain ⟨hv, hbefore⟩ : before.length = v ∧ before = List.range before.length := by
      obtain ⟨k, hk⟩ : ∃ k, ast.vertexCount = before.length + (k + 1) :=
        ⟨after.length, by simpa using congrArg List.length hrange⟩
      rw [hk, List.range_add, List.range_succ_eq_map, List.map_cons] at hrange
      obtain ⟨hfirst, hrest⟩ := List.append_inj hrange (by simp)
      exact ⟨(List.cons.inj hrest).1, hfirst.symm⟩
    rw [hbefore, List.mem_range, hv]
    exact hout v u hu
  · intro fuel hlt
    exact unfold_graphOf (fun _ => AST.complete_of_mem) AST.record_root hlt
  · intro v hv
    have hreach := ast.dag.root_reaches v (AST.mem_tasks_decompositor.mp hv)
    simpa only [AST.adjacentVertices_decompositor] using hreach

end TaskDispatch
