import Mathlib
import TaskDispatch.Decomposition.Expr
import TaskDispatch.Lib.ValueNumbering

/-!
# `decomposition/dag_visitor`: from a tree to a graph

`DagVisitor` records a node unless an equal one is recorded already, and `BuildGraph` turns the
records into vertices and looks every operand up among them again. Both searches compare with
`operator==`, which on complete trees decides equality; so on complete trees the records are a
value numbering of the tree (`visit_complete`), both searches agree on the position of a term, and
the graph is the one of the numbering (`buildGraph_eq`).
-/

set_option autoImplicit false

namespace TaskDispatch

open ValueNumbering

/-! ## The graph -/

structure VertexProperties where
  type : ExprType
  data : ExprData
  deriving DecidableEq, Repr

abbrev VertexDescriptor := ℕ

/-- What `adjacency_list<vecS, vecS, directedS, VertexProperties>` stores for a vertex. -/
structure StoredVertex where
  properties : VertexProperties
  outEdges : List VertexDescriptor := []
  deriving DecidableEq, Repr

structure Graph where
  vertices : List StoredVertex := []
  deriving DecidableEq, Repr

namespace Graph

/-- `boost::add_vertex` -/
def addVertex (properties : VertexProperties) (graph : Graph) : VertexDescriptor × Graph :=
  (graph.vertices.length, { vertices := graph.vertices ++ [{ properties }] })

/-- `boost::add_edge`: parallel edges are kept, in the order in which they were added. -/
def addEdge (u v : VertexDescriptor) (graph : Graph) : Graph where
  vertices := graph.vertices.modify u fun s => { s with outEdges := s.outEdges ++ [v] }

/-- `graph[v]`. Descriptors come from the graph itself, the default is never read. -/
def properties (graph : Graph) (v : VertexDescriptor) : VertexProperties :=
  (graph.vertices[v]?.map (·.properties)).getD ⟨.invalid, .monostate⟩

/-- `boost::adjacent_vertices` -/
def adjacentVertices (graph : Graph) (v : VertexDescriptor) : List VertexDescriptor :=
  (graph.vertices[v]?.map (·.outEdges)).getD []

end Graph

/-! ## The visitor -/

structure DagVisitor where
  records : List Expr := []
  deriving Repr

/-- `std::distance` from the start to what `std::find_if` returns: the length where there is no
match. -/
def findIf (p : Expr → Result Bool) : List Expr → Result ℕ
  | [] => .ok 0
  | e :: es => do
    if ← p e then .ok 0
    else
      let i ← findIf p es
      .ok (i + 1)

namespace DagVisitor

def visit (expr : Expr) (visitor : DagVisitor) : Result DagVisitor := do
  let it ← findIf (fun el => el.opEq expr) visitor.records
  if it ≠ visitor.records.length then .ok visitor
  else .ok { records := visitor.records ++ [expr] }

/-- The first loop of `BuildGraph`: a vertex for every record, and the descriptor under the
record's position. -/
def addVertices (records : List Expr) : Graph × Std.ExtTreeMap ℕ VertexDescriptor :=
  records.zipIdx.foldl
    (fun (graph, idToDescriptor) (e, id) =>
      let (descriptor, graph) := graph.addVertex ⟨e.getType, e.getData⟩
      (graph, idToDescriptor.insert id descriptor))
    ({}, ∅)

/-- The lambda `add_edge` of `BuildGraph` -/
def addEdge (records : List Expr) (idToDescriptor : Std.ExtTreeMap ℕ VertexDescriptor)
    (root : ℕ) (operand : Expr) (graph : Graph) : Result Graph := do
  let rootDescriptor ← Result.ofLookup idToDescriptor[root]?
  let operandIt ← findIf (fun record => record.opEq operand) records
  let operandDescriptor ← Result.ofLookup idToDescriptor[operandIt]?
  .ok (graph.addEdge rootDescriptor operandDescriptor)

/-- `if (operand) add_edge(root_it, operand);` -/
def addEdgeIf (records : List Expr) (idToDescriptor : Std.ExtTreeMap ℕ VertexDescriptor)
    (root : ℕ) : Option Expr → Graph → Result Graph
  | some operand, graph => addEdge records idToDescriptor root operand graph
  | none, graph => .ok graph

/-- One round of the second loop of `BuildGraph` -/
def addEdges (records : List Expr) (idToDescriptor : Std.ExtTreeMap ℕ VertexDescriptor)
    (graph : Graph) : Expr × ℕ → Result Graph
  | (expr, it) => do
    let graph ← addEdgeIf records idToDescriptor it expr.getLhs graph
    addEdgeIf records idToDescriptor it expr.getRhs graph

def buildGraph (visitor : DagVisitor) : Result Graph :=
  let (graph, idToDescriptor) := addVertices visitor.records
  visitor.records.zipIdx.foldlM (addEdges visitor.records idToDescriptor) graph

end DagVisitor

/-! ## Complete records are a value numbering -/

/-- On complete trees `operator==` is this equality. -/
noncomputable instance : DecidableEq Expr := Classical.decEq Expr

theorem Expr.Complete.opEq_eq {a b : Expr} (ha : a.Complete) (hb : b.Complete) :
    a.opEq b = .ok (decide (a = b)) := by
  obtain ⟨r, hr, hiff⟩ := ha.opEq hb
  rw [hr, Except.ok.injEq, Bool.eq_iff_iff, hiff, decide_eq_true_iff]

/-- The search finds the first position of an equal record. -/
theorem findIf_complete {records : List Expr} {e : Expr} (hrec : ∀ r ∈ records, r.Complete)
    (he : e.Complete) : findIf (fun el => el.opEq e) records = .ok (records.idxOf e) := by
  induction records with
  | nil => rfl
  | cons r rs ih =>
    have hr := (hrec r List.mem_cons_self).opEq_eq he
    have ih := ih fun r hr => hrec r (List.mem_cons_of_mem _ hr)
    by_cases heq : r = e
    · subst heq
      simp [findIf, hr]
    · simp [findIf, hr, heq, ih, List.idxOf_cons_ne _ heq]

namespace DagVisitor

theorem visit_complete {visitor : DagVisitor} {e : Expr}
    (hrec : ∀ r ∈ visitor.records, r.Complete) (he : e.Complete) :
    visit e visitor = .ok { records := insertNew visitor.records e } := by
  simp only [visit, findIf_complete hrec he, Result.ok_bind, insertNew]
  by_cases hmem : e ∈ visitor.records
  · simp [hmem, (List.idxOf_lt_length_iff.mpr hmem).ne]
  · simp [hmem]

theorem foldlM_visit {es : List Expr} {visitor : DagVisitor} (hes : ∀ e ∈ es, e.Complete)
    (hrec : ∀ r ∈ visitor.records, r.Complete) :
    es.foldlM (fun s e => visit e s) visitor =
      .ok { records := es.foldl insertNew visitor.records } := by
  induction es generalizing visitor with
  | nil => rfl
  | cons e es ih =>
    have he : e.Complete := hes e List.mem_cons_self
    rw [List.foldlM_cons, visit_complete hrec he, Result.ok_bind, ih, List.foldl_cons]
    · exact fun e he => hes e (List.mem_cons_of_mem _ he)
    · intro r hr
      rcases mem_insertNew.mp hr with hr | rfl
      · exact hrec r hr
      · exact he

/-- Traversing a complete tree records its nodes in postorder, each once. -/
theorem postorderTraverse_visit {e : Expr} (h : e.Complete) :
    e.postorderTraverse visit {} = .ok { records := e.postorder.foldl insertNew [] } := by
  rw [h.postorderTraverse, foldlM_visit h.of_mem_postorder (by simp)]

end DagVisitor

theorem childrenFirst_flatMap {es : List Expr} {f : Expr → List Expr}
    (h : ∀ e ∈ es, ChildrenFirst Expr.operands (f e)) :
    ChildrenFirst Expr.operands (es.flatMap f) := by
  induction es with
  | nil => exact .nil
  | cons e es ih =>
    exact (h e List.mem_cons_self).append (ih fun e he => h e (List.mem_cons_of_mem _ he))

theorem Expr.Complete.childrenFirst {e : Expr} (h : e.Complete) :
    ChildrenFirst Expr.operands e.postorder := by
  apply h.induct (motive := fun e => ChildrenFirst operands e.postorder)
  intro e he ih
  rw [he.postorder_eq]
  apply (childrenFirst_flatMap fun c hc => (ih c hc).2).snoc
  intro c hc
  exact List.mem_flatMap.mpr ⟨c, hc, (ih c hc).1.self_mem_postorder⟩

/-- The value numbering of a complete tree. -/
noncomputable def AST.numbering (ast : AST) : Numbering Expr.operands :=
  .ofList ast.root.postorder ast.complete.childrenFirst

theorem AST.records_numbering (ast : AST) :
    ast.root.postorderTraverse DagVisitor.visit {} =
      .ok { records := ast.numbering.records } :=
  DagVisitor.postorderTraverse_visit ast.complete

theorem AST.complete_of_mem {ast : AST} {e : Expr} (h : e ∈ ast.numbering.records) :
    e.Complete :=
  ast.complete.of_mem_postorder e ((Numbering.mem_ofList _).mp h)

/-! ## The graph of a numbering -/

/-- The vertex of a record: edges to the numbers of the operands, left before right. -/
noncomputable def vertexOf (N : Numbering Expr.operands) (e : Expr) : StoredVertex where
  properties := ⟨e.getType, e.getData⟩
  outEdges := e.operands.map N.number

noncomputable def graphOf (N : Numbering Expr.operands) : Graph where
  vertices := N.records.map (vertexOf N)

namespace DagVisitor

/-- The first loop numbers the records by position. -/
theorem addVertices_spec (records : List Expr) :
    (addVertices records).1.vertices =
        records.map (fun e => { properties := ⟨e.getType, e.getData⟩ }) ∧
      ∀ i < records.length, (addVertices records).2[i]? = some i := by
  induction records using List.reverseRecOn with
  | nil => simp [addVertices]
  | append_singleton records e ih =>
    have hstep : addVertices (records ++ [e]) =
        (((addVertices records).1.addVertex ⟨e.getType, e.getData⟩).2,
          (addVertices records).2.insert records.length
            ((addVertices records).1.addVertex ⟨e.getType, e.getData⟩).1) := by
      simp [addVertices, List.zipIdx_append]
    rw [hstep]
    obtain ⟨hvertices, hid⟩ := ih
    refine ⟨by simp [Graph.addVertex, hvertices], ?_⟩
    intro i hi
    rw [Std.ExtTreeMap.getElem?_insert]
    by_cases hlast : records.length = i
    · simp [hlast, Graph.addVertex, hvertices]
    · have : i < records.length := by simp at hi; omega
      simp [hlast, hid i this]

theorem addEdges_eq (records : List Expr) (idToDescriptor : Std.ExtTreeMap ℕ VertexDescriptor)
    (graph : Graph) (e : Expr) (it : ℕ) :
    addEdges records idToDescriptor graph (e, it) =
      e.operands.foldlM (fun g c => addEdge records idToDescriptor it c g) graph := by
  cases hl : e.getLhs <;> cases hr : e.getRhs <;>
    simp [addEdges, addEdgeIf, Expr.operands, hl, hr]

theorem modify_length_append {α : Type} (f : α → α) (before : List α) (a : α) (after : List α) :
    (before ++ a :: after).modify before.length f = before ++ f a :: after := by
  induction before with
  | nil => rfl
  | cons b before ih => simp [ih]

/-- An operand of a record is found where it is recorded. -/
theorem addEdge_complete {N : Numbering Expr.operands} (hrec : ∀ r ∈ N.records, r.Complete)
    {idToDescriptor : Std.ExtTreeMap ℕ VertexDescriptor}
    (hid : ∀ i < N.records.length, idToDescriptor[i]? = some i) {root : ℕ}
    (hroot : root < N.records.length) {operand : Expr} (hop : operand ∈ N.records)
    (graph : Graph) :
    addEdge N.records idToDescriptor root operand graph =
      .ok (graph.addEdge root (N.number operand)) := by
  simp only [addEdge, hid root hroot, findIf_complete hrec (hrec operand hop), Result.ofLookup_some,
    Result.ok_bind]
  have hlt : N.records.idxOf operand < N.records.length := Numbering.number_lt hop
  simp [hid _ hlt, Numbering.number]

/-- The edges of one record, added in order to its vertex in the middle of the graph. -/
theorem foldlM_addEdge {N : Numbering Expr.operands} (hrec : ∀ r ∈ N.records, r.Complete)
    {idToDescriptor : Std.ExtTreeMap ℕ VertexDescriptor}
    (hid : ∀ i < N.records.length, idToDescriptor[i]? = some i)
    {before : List StoredVertex} (after : List StoredVertex)
    (hroot : before.length < N.records.length) {cs : List Expr} (hcs : ∀ c ∈ cs, c ∈ N.records)
    (s : StoredVertex) :
    cs.foldlM (fun g c => addEdge N.records idToDescriptor before.length c g)
        { vertices := before ++ s :: after } =
      .ok { vertices := before ++
        { s with outEdges := s.outEdges ++ cs.map N.number } :: after } := by
  induction cs generalizing s with
  | nil => simp
  | cons c cs ih =>
    rw [List.foldlM_cons, addEdge_complete hrec hid hroot (hcs c List.mem_cons_self),
      Result.ok_bind]
    have hadd : Graph.addEdge before.length (N.number c) { vertices := before ++ s :: after } =
        { vertices := before ++ { s with outEdges := s.outEdges ++ [N.number c] } :: after } := by
      rw [Graph.addEdge, modify_length_append]
    rw [hadd, ih fun c hc => hcs c (List.mem_cons_of_mem _ hc)]
    simp

/-- The second loop, from the record at position `before.length` on. -/
theorem foldlM_addEdges {N : Numbering Expr.operands} (hrec : ∀ r ∈ N.records, r.Complete)
    {idToDescriptor : Std.ExtTreeMap ℕ VertexDescriptor}
    (hid : ∀ i < N.records.length, idToDescriptor[i]? = some i)
    (before after : List Expr) (hsplit : N.records = before ++ after) :
    (after.zipIdx before.length).foldlM (addEdges N.records idToDescriptor)
        { vertices := before.map (vertexOf N) ++
          after.map (fun e => { properties := ⟨e.getType, e.getData⟩ }) } =
      .ok (graphOf N) := by
  induction after generalizing before with
  | nil => simp [graphOf, hsplit]
  | cons e after ih =>
    have he : e ∈ N.records := hsplit ▸ List.mem_append_right _ List.mem_cons_self
    have hlen : (before.map (vertexOf N)).length = before.length := List.length_map _
    have hroot : (before.map (vertexOf N)).length < N.records.length := by
      rw [hlen, hsplit]; simp
    have hedges := foldlM_addEdge hrec hid
      (after.map fun e => { properties := ⟨e.getType, e.getData⟩ }) hroot
      (fun c hc => N.childrenFirst.mem he hc) { properties := ⟨e.getType, e.getData⟩ }
    rw [hlen] at hedges
    rw [List.zipIdx_cons, List.foldlM_cons, addEdges_eq, List.map_cons, hedges, Result.ok_bind]
    have ih := ih (before ++ [e]) (by simpa using hsplit)
    simpa [vertexOf] using ih

end DagVisitor

/-- **`BuildGraph` on a value numbering of complete trees never throws** and gives the graph of
the numbering. -/
theorem buildGraph_eq {N : Numbering Expr.operands} (hrec : ∀ r ∈ N.records, r.Complete) :
    DagVisitor.buildGraph { records := N.records } = .ok (graphOf N) := by
  obtain ⟨hvertices, hid⟩ := DagVisitor.addVertices_spec N.records
  have hgraph : (DagVisitor.addVertices N.records).1 = { vertices := N.records.map fun e =>
      { properties := ⟨e.getType, e.getData⟩ } } := by
    rw [← hvertices]
  have hloop := DagVisitor.foldlM_addEdges hrec hid [] N.records rfl
  simpa [DagVisitor.buildGraph, hgraph] using hloop

/-! ## Reading the graph of a numbering -/

section GraphOf

variable {N : Numbering Expr.operands} {e : Expr} {v : VertexDescriptor}

@[simp] theorem length_vertices_graphOf :
    (graphOf N).vertices.length = N.records.length := List.length_map _

theorem properties_graphOf (h : N.records[v]? = some e) :
    (graphOf N).properties v = ⟨e.getType, e.getData⟩ := by
  simp [Graph.properties, graphOf, h, vertexOf]

theorem adjacentVertices_graphOf : (graphOf N).adjacentVertices v = N.deps v := by
  cases h : N.records[v]? with
  | none => simp [Graph.adjacentVertices, graphOf, Numbering.deps, h]
  | some e => simp [Graph.adjacentVertices, graphOf, Numbering.deps, h, vertexOf]

end GraphOf
end TaskDispatch
