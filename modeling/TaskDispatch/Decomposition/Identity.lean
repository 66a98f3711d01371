import Mathlib
import TaskDispatch.Decomposition.Unfold

/-!
# Structural identity

A place in a tree is the way to it from the root, left or right at every node. Two trees are
identical when they have the same places, nodes of the same type at each, and the same data at the
leaves; that is what the seven overrides of `operator==` compute (`opEq_identical`). The places of
a tree are followed in its graph as well, along the out-edges of the vertices: where two ways lead
to one vertex, identical trees stand at their ends (`follow_eq_follow_iff`).
-/

set_option autoImplicit false

namespace TaskDispatch

open ValueNumbering

/-- The operands of a node by position -/
inductive Side where
  | lhs
  | rhs
  deriving DecidableEq, Repr

namespace Expr

def operandAt (e : Expr) : Side → Option Expr
  | .lhs => e.getLhs
  | .rhs => e.getRhs

/-- The tree that stands where `path` leads. -/
def subtreeAt : List Side → Expr → Option Expr
  | [], e => some e
  | side :: path, e => (e.operandAt side).bind (subtreeAt path)

/-- The same node types at the same places, and the same data at the leaves. -/
structure Identical (a b : Expr) : Prop where
  places : ∀ path, (subtreeAt path a).isSome ↔ (subtreeAt path b).isSome
  getType_eq : ∀ path c d, subtreeAt path a = some c → subtreeAt path b = some d →
    c.getType = d.getType
  getData_eq : ∀ path c d, subtreeAt path a = some c → subtreeAt path b = some d →
    c.getType.IsLeaf → c.getData = d.getData

/-! ## Identical trees -/

section Identical

variable {a b c : Expr} {side : Side} {path : List Side}

theorem Identical.refl (a : Expr) : Identical a a where
  places _ := Iff.rfl
  getType_eq path c d hc hd := by
    obtain rfl := Option.some.inj (hc.symm.trans hd)
    rfl
  getData_eq path c d hc hd _ := by
    obtain rfl := Option.some.inj (hc.symm.trans hd)
    rfl

theorem subtreeAt_cons (h : a.operandAt side = some c) :
    subtreeAt (side :: path) a = subtreeAt path c := by
  rw [subtreeAt, h, Option.bind_some]

/-- Identical trees have identical operands at the same positions. -/
theorem Identical.operandAt (h : Identical a b) (side : Side) :
    a.operandAt side = none ∧ b.operandAt side = none ∨
      ∃ c d, a.operandAt side = some c ∧ b.operandAt side = some d ∧ Identical c d := by
  have hplace := h.places [side]
  cases ha : a.operandAt side with
  | none =>
    cases hb : b.operandAt side with
    | none => exact .inl ⟨rfl, rfl⟩
    | some d => simp [subtreeAt, ha, hb] at hplace
  | some c =>
    cases hb : b.operandAt side with
    | none => simp [subtreeAt, ha, hb] at hplace
    | some d =>
      refine .inr ⟨c, d, rfl, rfl, ?_, ?_, ?_⟩
      · intro path
        simpa only [subtreeAt_cons ha, subtreeAt_cons hb] using h.places (side :: path)
      · intro path
        simpa only [subtreeAt_cons ha, subtreeAt_cons hb] using h.getType_eq (side :: path)
      · intro path
        simpa only [subtreeAt_cons ha, subtreeAt_cons hb] using h.getData_eq (side :: path)

/-- Only leaves have data. -/
theorem getData_of_operator (h : ¬a.getType.IsLeaf) : a.getData = .monostate := by
  cases a <;> simp_all [getType, getData, ExprType.IsLeaf]

theorem mem_operands_iff : c ∈ a.operands ↔ ∃ side, a.operandAt side = some c := by
  constructor
  · intro h
    rcases List.mem_append.mp h with h | h
    · exact ⟨.lhs, Option.mem_toList.mp h⟩
    · exact ⟨.rhs, Option.mem_toList.mp h⟩
  · rintro ⟨_ | _, h⟩
    · exact List.mem_append_left _ (Option.mem_toList.mpr h)
    · exact List.mem_append_right _ (Option.mem_toList.mpr h)

/-- Complete trees that are identical are equal: the factory builds both from the same parts. -/
theorem Complete.eq_of_identical (ha : a.Complete) :
    ∀ b : Expr, b.Complete → Identical a b → a = b := by
  apply ha.induct (motive := fun a => ∀ b : Expr, b.Complete → Identical a b → a = b)
  intro a ha ih b hb h
  have hside : ∀ side, a.operandAt side = b.operandAt side := by
    intro side
    rcases h.operandAt side with ⟨hca, hcb⟩ | ⟨c, d, hca, hcb, hcd⟩
    · rw [hca, hcb]
    · have hc := (ih c (mem_operands_iff.mpr ⟨side, hca⟩)).2
      rw [hca, hcb, hc d (hb.operand d (mem_operands_iff.mpr ⟨side, hcb⟩)) hcd]
  have hoperands : a.operands = b.operands := by
    rw [operands, operands]
    exact congrArg₂ (fun l r : Option Expr => l.toList ++ r.toList) (hside .lhs) (hside .rhs)
  have htype : a.getType = b.getType := h.getType_eq [] a b rfl rfl
  have hdata : a.getData = b.getData := by
    by_cases hleaf : a.getType.IsLeaf
    · exact h.getData_eq [] a b rfl rfl hleaf
    · rw [getData_of_operator hleaf, getData_of_operator (htype ▸ hleaf)]
  have hnew := ha.toExpr
  rw [htype, hdata, hoperands, hb.toExpr] at hnew
  exact (Except.ok.inj hnew).symm

theorem Complete.identical_iff (ha : a.Complete) (hb : b.Complete) : Identical a b ↔ a = b := by
  constructor
  · exact ha.eq_of_identical b hb
  · rintro rfl
    exact .refl a

/-! ## The places of a tree -/

/-- The nodes of a complete tree are the trees that stand somewhere in it. -/
theorem Complete.mem_postorder_iff (ha : a.Complete) :
    ∀ c, c ∈ a.postorder ↔ ∃ path, subtreeAt path a = some c := by
  apply ha.induct (motive := fun a => ∀ c, c ∈ a.postorder ↔ ∃ path, subtreeAt path a = some c)
  intro a ha ih c
  rw [ha.mem_postorder]
  constructor
  · rintro (⟨d, hd, hc⟩ | rfl)
    · obtain ⟨path, hpath⟩ := ((ih d hd).2 c).mp hc
      obtain ⟨side, hside⟩ := mem_operands_iff.mp hd
      exact ⟨side :: path, (subtreeAt_cons hside).trans hpath⟩
    · exact ⟨[], rfl⟩
  · rintro ⟨_ | ⟨side, path⟩, hpath⟩
    · exact .inr (Option.some.inj hpath).symm
    · obtain ⟨d, hside, hpath⟩ := Option.bind_eq_some_iff.mp hpath
      have hd : d ∈ a.operands := mem_operands_iff.mpr ⟨side, hside⟩
      exact .inl ⟨d, hd, ((ih d hd).2 c).mpr ⟨path, hpath⟩⟩

theorem Complete.subtreeAt (ha : a.Complete) (h : subtreeAt path a = some c) : c.Complete :=
  ha.of_mem_postorder c ((ha.mem_postorder_iff c).mpr ⟨path, h⟩)

/-- What stands at a place other than the root is another tree. -/
theorem Complete.ne_of_subtreeAt (ha : a.Complete) (hpath : path ≠ [])
    (h : Expr.subtreeAt path a = some c) : a ≠ c := by
  rintro rfl
  cases path with
  | nil => exact hpath rfl
  | cons side path =>
    obtain ⟨d, hside, h⟩ := Option.bind_eq_some_iff.mp h
    have hd : d ∈ a.operands := mem_operands_iff.mpr ⟨side, hside⟩
    apply ha.notMem_operands
    exact List.mem_flatMap.mpr ⟨d, hd, ((ha.operand d hd).mem_postorder_iff a).mpr ⟨path, h⟩⟩

end Identical

/-- **`operator==` is structural identity.** On trees with all their operands it follows no null
pointer and holds exactly of identical ones; so it is an equivalence, and a tree is equal to none
of its proper subtrees. -/
theorem opEq_identical (a b c : AST) :
    (∃ r, a.root.opEq b.root = .ok r ∧ (r = true ↔ Identical a.root b.root)) ∧
      a.root.opEq a.root = .ok true ∧
      (a.root.opEq b.root = .ok true → b.root.opEq a.root = .ok true) ∧
      (a.root.opEq b.root = .ok true → b.root.opEq c.root = .ok true →
        a.root.opEq c.root = .ok true) ∧
      ∀ path d, path ≠ [] → subtreeAt path a.root = some d →
        a.root.opEq d = .ok false ∧ d.opEq a.root = .ok false := by
  have heq : ∀ a b : AST, a.root.opEq b.root = .ok true ↔ a.root = b.root := by
    intro a b
    rw [a.complete.opEq_eq b.complete, Except.ok.injEq, decide_eq_true_iff]
  refine ⟨?_, (heq a a).mpr rfl, ?_, ?_, ?_⟩
  · obtain ⟨r, hr, hiff⟩ := a.complete.opEq b.complete
    exact ⟨r, hr, hiff.trans (a.complete.identical_iff b.complete).symm⟩
  · intro hab
    exact (heq b a).mpr ((heq a b).mp hab).symm
  · intro hab hbc
    exact (heq a c).mpr (((heq a b).mp hab).trans ((heq b c).mp hbc))
  · intro path d hpath hd
    have hne : a.root ≠ d := a.complete.ne_of_subtreeAt hpath hd
    have hcomplete : d.Complete := a.complete.subtreeAt hd
    rw [a.complete.opEq_eq hcomplete, hcomplete.opEq_eq a.complete]
    simp [hne, hne.symm]

end Expr

/-! ## The vertex of a place -/

/-- The position of an operand among the out-edges of its node -/
def Side.edge : Side → ℕ
  | .lhs => 0
  | .rhs => 1

/-- The vertex to which the out-edges at these positions lead. -/
def Graph.follow (graph : Graph) : VertexDescriptor → List Side → Option VertexDescriptor
  | v, [] => some v
  | v, side :: path =>
    (graph.adjacentVertices v)[side.edge]?.bind fun u => graph.follow u path

theorem Expr.Complete.operandAt_eq {e : Expr} (h : e.Complete) (side : Side) :
    e.operandAt side = e.operands[side.edge]? := by
  cases h <;> cases side <;> rfl

/-- In the graph of a numbering a way leads to the number of the tree that stands at its end. -/
theorem follow_graphOf {N : Numbering Expr.operands} (hrec : ∀ r ∈ N.records, r.Complete) :
    ∀ {path : List Side} {v : VertexDescriptor} {e : Expr}, N.records[v]? = some e →
      (graphOf N).follow v path = (e.subtreeAt path).map N.number := by
  intro path
  induction path with
  | nil =>
    intro v e he
    have hmem : e ∈ N.records := List.mem_of_getElem? he
    rw [Graph.follow, Expr.subtreeAt, Option.map_some, (Numbering.number_eq_iff hmem).mpr he]
  | cons side path ih =>
    intro v e he
    have hmem : e ∈ N.records := List.mem_of_getElem? he
    rw [Graph.follow, Expr.subtreeAt, adjacentVertices_graphOf, Numbering.deps_of_getElem? he,
      List.getElem?_map, (hrec e hmem).operandAt_eq]
    cases hc : e.operands[side.edge]? with
    | none => rfl
    | some c =>
      have hc' : c ∈ N.records := N.childrenFirst.mem hmem (List.mem_of_getElem? hc)
      exact ih (Numbering.getElem?_number hc')

namespace AST

variable {ast : AST} {path path' : List Side} {e e' : Expr} {u v : VertexDescriptor}

theorem mem_records_of_subtreeAt (h : ast.root.subtreeAt path = some e) :
    e ∈ ast.numbering.records :=
  (Numbering.mem_ofList _).mpr ((ast.complete.mem_postorder_iff e).mpr ⟨path, h⟩)

theorem follow_root (h : ast.root.subtreeAt path = some e) :
    ast.decompositor.graph.follow ast.dag.root path = some (ast.numbering.number e) := by
  rw [decompositor, follow_graphOf (fun _ => complete_of_mem) record_root, h, Option.map_some]

theorem unfold_number (h : e ∈ ast.numbering.records) {fuel : ℕ}
    (hlt : ast.numbering.number e < fuel) :
    ast.decompositor.graph.unfold fuel (ast.numbering.number e) = .ok e :=
  unfold_graphOf (fun _ => complete_of_mem) (Numbering.getElem?_number h) hlt

/-- Two places share their vertex when identical trees stand there. -/
theorem follow_eq_follow_iff (h : ast.root.subtreeAt path = some e)
    (h' : ast.root.subtreeAt path' = some e') :
    ast.decompositor.graph.follow ast.dag.root path =
        ast.decompositor.graph.follow ast.dag.root path' ↔ Expr.Identical e e' := by
  have hmem := mem_records_of_subtreeAt h
  have hmem' := mem_records_of_subtreeAt h'
  rw [follow_root h, follow_root h', Option.some.injEq, Numbering.number_eq_iff hmem,
    Numbering.getElem?_number hmem', Option.some.injEq,
    (complete_of_mem hmem).identical_iff (complete_of_mem hmem')]
  exact eq_comm

/-- Different vertices stand for different trees. -/
theorem unfold_inj (hu : u < ast.vertexCount) (hv : v < ast.vertexCount) {fuel fuel' : ℕ}
    (hltu : u < fuel) (hltv : v < fuel')
    (h : ast.decompositor.graph.unfold fuel u = ast.decompositor.graph.unfold fuel' v) :
    u = v := by
  obtain ⟨e, he⟩ := exists_record hu
  obtain ⟨e', he'⟩ := exists_record hv
  have hunfold := unfold_graphOf (fun _ => complete_of_mem) he hltu
  rw [decompositor] at h
  rw [h, unfold_graphOf (fun _ => complete_of_mem) he' hltv, Except.ok.injEq] at hunfold
  subst hunfold
  have hmem : e' ∈ ast.numbering.records := List.mem_of_getElem? he
  exact ((Numbering.number_eq_iff hmem).mpr he).symm.trans ((Numbering.number_eq_iff hmem).mpr he')

/-- There are as many vertices as there are different trees at the places of the root. -/
theorem vertexCount_eq_ncard :
    ast.vertexCount = {e | ∃ path, ast.root.subtreeAt path = some e}.ncard := by
  have hset : {e | ∃ path, ast.root.subtreeAt path = some e} =
      (ast.numbering.records.toFinset : Set Expr) := by
    ext e
    rw [Set.mem_ofPred_eq, ← ast.complete.mem_postorder_iff, Finset.mem_coe, List.mem_toFinset]
    exact (Numbering.mem_ofList _).symm
  rw [hset, Set.ncard_coe_finset, List.toFinset_card_of_nodup ast.numbering.nodup, vertexCount]

end AST
end TaskDispatch
