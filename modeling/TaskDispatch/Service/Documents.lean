import Mathlib
import TaskDispatch.Cluster.Operands
import TaskDispatch.Decomposition.FromJson
import TaskDispatch.Dispatch.Exchange

/-!
# `grpc-server`: what becomes of a document

Before it asks for an id, `CalculateProblem` has read the document and decomposed its tree. Either
of the two may throw, and then there is no problem; or the manager runs into something that has no
defined behaviour. `intake_iff` says for which documents it does what.
-/

set_option autoImplicit false

namespace TaskDispatch

open ValueNumbering

/-! ## Trees with an operand missing -/

namespace Expr

section Traverse

variable {visitor : DagVisitor} {lhs rhs operand : Option Expr}

/-- A complete tree leaves complete records. -/
theorem Complete.traverse_visit {e : Expr} (he : e.Complete)
    (hrecords : ∀ record ∈ visitor.records, record.Complete) : ∃ visitor',
      e.postorderTraverse DagVisitor.visit visitor = .ok visitor' ∧
        ∀ record ∈ visitor'.records, record.Complete := by
  refine ⟨_, by rw [he.postorderTraverse, DagVisitor.foldlM_visit he.of_mem_postorder hrecords], ?_⟩
  intro record hrecord
  rcases mem_foldl_insertNew.mp hrecord with hold | hnew
  · exact hrecords record hold
  · exact he.of_mem_postorder record hnew

/-- Whether an operand is there, and complete -/
def Present (operand : Option Expr) : Prop := ∃ e, operand = some e ∧ e.Complete

/-- An operand is traversed to its first null pointer. -/
def Stops (operand : Option Expr) : Prop :=
  ¬Present operand → ∀ {visitor : DagVisitor}, (∀ record ∈ visitor.records, record.Complete) →
    derefTraverse DagVisitor.visit operand visitor = .error .undefined

/-- The left operand comes first; what is visited before the first null pointer is complete. -/
theorem Stops.pair (hlhs : Stops lhs) (hrhs : Stops rhs) (hnot : ¬(Present lhs ∧ Present rhs))
    (hrecords : ∀ record ∈ visitor.records, record.Complete) :
    (derefTraverse DagVisitor.visit lhs visitor >>=
      fun visitor => derefTraverse DagVisitor.visit rhs visitor) = .error .undefined := by
  by_cases hpresent : Present lhs
  · obtain ⟨e, rfl, he⟩ := hpresent
    obtain ⟨visitor', hvisitor', hrecords'⟩ := he.traverse_visit hrecords
    rw [derefTraverse, hvisitor', Result.ok_bind]
    exact hrhs (fun h => hnot ⟨⟨e, rfl, he⟩, h⟩) hrecords'
  · rw [hlhs hpresent hrecords]
    rfl

mutual

theorem traverse_of_not_complete : ∀ {e : Expr}, ¬e.Complete → ∀ {visitor : DagVisitor},
    (∀ record ∈ visitor.records, record.Complete) →
      e.postorderTraverse DagVisitor.visit visitor = .error .undefined
  | reduceExpr _ operand, hnot, visitor, hrecords => by
    have hstops := stops operand (fun ⟨e, heq, he⟩ => hnot (heq ▸ .reduceExpr he)) hrecords
    rw [postorderTraverse, hstops]
    rfl
  | mapExpr _ lhs rhs, hnot, visitor, hrecords => by
    have hstops := (stops lhs).pair (stops rhs)
      (fun ⟨⟨_, heq, ha⟩, _, heq', hb⟩ => hnot (heq ▸ heq' ▸ .mapExpr ha hb)) hrecords
    rw [postorderTraverse, ← bind_assoc, hstops]
    rfl
  | listOpExpr _ lhs rhs, hnot, visitor, hrecords => by
    have hstops := (stops lhs).pair (stops rhs)
      (fun ⟨⟨_, heq, ha⟩, _, heq', hb⟩ => hnot (heq ▸ heq' ▸ .listOpExpr ha hb)) hrecords
    rw [postorderTraverse, ← bind_assoc, hstops]
    rfl
  | scalarOpExpr _ lhs rhs, hnot, visitor, hrecords => by
    have hstops := (stops lhs).pair (stops rhs)
      (fun ⟨⟨_, heq, ha⟩, _, heq', hb⟩ => hnot (heq ▸ heq' ▸ .scalarOpExpr ha hb)) hrecords
    rw [postorderTraverse, ← bind_assoc, hstops]
    rfl
  | listExpr _, hnot, _, _ => absurd .listExpr hnot
  | scalarConstExpr _, hnot, _, _ => absurd .scalarConstExpr hnot
  | scalarVarExpr _, hnot, _, _ => absurd .scalarVarExpr hnot

theorem stops : ∀ operand : Option Expr, Stops operand
  | some e, hnot, _, hrecords => traverse_of_not_complete (fun he => hnot ⟨e, rfl, he⟩) hrecords
  | none, _, _, _ => rfl

end

/-- So a traversal that comes to its end has met no null pointer. -/
theorem complete_of_traverse {e : Expr}
    (h : e.postorderTraverse DagVisitor.visit {} = .ok visitor) : e.Complete := by
  by_contra hnot
  rw [traverse_of_not_complete hnot (by simp)] at h
  cases h

end Traverse

end Expr

/-! ## Constants -/

/-- `CalculationData::New` fails at a constant only. -/
theorem CalculationData.new_error {ast : AST} {fault : Fault}
    (h : CalculationData.new ast = .error fault) : fault = .thrown .badVariantAccess := by
  rw [CalculationData.new, TaskDecompositor.new_eq, Result.ok_bind, Result.bind_eq_error] at h
  rcases h with h | ⟨m, -, h⟩
  · -- one of the leaves has no variable
    have hround : ∀ (tasks : List VertexDescriptor)
        (m : Std.ExtTreeMap VertexDescriptor VariableId),
        tasks.foldlM ast.decompositor.emplaceIfLeaf m = .error fault →
          fault = .thrown .badVariantAccess := by
      intro tasks
      induction tasks with
      | nil => intro m h; cases h
      | cons task tasks ih =>
        intro m h
        rw [List.foldlM_cons, Result.bind_eq_error] at h
        rcases h with h | ⟨m', -, h⟩
        · unfold TaskDecompositor.emplaceIfLeaf at h
          split_ifs at h
          rw [Result.bind_eq_error] at h
          rcases h with h | ⟨_, -, h⟩
          · cases hdata : (ast.decompositor.graph.properties task).data <;>
              rw [hdata] at h <;> cases h <;> rfl
          · cases h
        · exact ih m' h
    exact hround _ _ h
  · cases h

/-! ## The handler, up to the id -/

/-- The text of an `AstRequest`, parsed. It is a field of a protobuf message, which stays below
2 GiB, and each node of a tree takes at least a byte of it. -/
structure Document where
  json : Json
  fits : ∀ e, Expr.fromJson json = .ok e → e.postorder.length < 2 ^ 31

/-- The document of a tree -/
def AstRequest.document (request : AstRequest) : Document where
  json := .object [("ast", request.ast.root.toJson)]
  fits e he := by
    have hroot : (Json.object [("ast", request.ast.root.toJson)]).member "ast" =
        some request.ast.root.toJson := rfl
    rw [fromJson_of_member hroot, request.ast.complete.spells.fromJsonImpl] at he
    obtain rfl := Except.ok.inj he
    exact request.fits

/-- `AST::FromJson` and `CalculationData::New`. The first thing the latter does is to traverse the
tree (`TaskDecompositor::New`), and no tree without all its operands gets beyond that. -/
def Document.intake (document : Document) : Result AstRequest :=
  match h : Expr.fromJson document.json with
  | .error fault => .error fault
  | .ok e =>
    match htraverse : e.postorderTraverse DagVisitor.visit {} with
    | .error fault => .error fault
    | .ok _ => do
      let request : AstRequest := ⟨⟨e, Expr.complete_of_traverse htraverse⟩, document.fits e h⟩
      let _ ← CalculationData.new request.ast
      .ok request

section Intake

variable {document : Document} {e : Expr} {request : AstRequest} {fault : Fault}

theorem intake_of_fromJson (h : Expr.fromJson document.json = .ok e) (he : e.Complete) :
    document.intake = (do
      let _ ← CalculationData.new ⟨e, he⟩
      .ok ⟨⟨e, he⟩, document.fits e h⟩) := by
  have htraverse := DagVisitor.postorderTraverse_visit he
  unfold Document.intake
  split
  · rename_i fault hfault
    rw [hfault] at h
    cases h
  · rename_i e' he'
    obtain rfl := Except.ok.inj (he'.symm.trans h)
    split
    · rename_i fault hfault
      rw [hfault] at htraverse
      cases htraverse
    · rfl

theorem intake_of_not_complete (h : Expr.fromJson document.json = .ok e) (he : ¬e.Complete) :
    document.intake = .error .undefined := by
  unfold Document.intake
  split
  · rename_i fault hfault
    rw [hfault] at h
    cases h
  · rename_i e' he'
    obtain rfl := Except.ok.inj (he'.symm.trans h)
    split
    · rename_i fault hfault
      rw [Expr.traverse_of_not_complete he (by simp)] at hfault
      cases hfault
      rfl
    · rename_i visitor htraverse
      exact absurd (Expr.complete_of_traverse htraverse) he

theorem intake_of_error (h : Expr.fromJson document.json = .error fault) :
    document.intake = .error fault := by
  unfold Document.intake
  split
  · rename_i fault' hfault'
    rw [Except.error.inj (hfault'.symm.trans h)]
  · rename_i e he
    rw [he] at h
    cases h

/-- A request that is taken in is the tree of the document, and it can be decomposed. -/
theorem intake_eq_ok : document.intake = .ok request ↔
    Expr.fromJson document.json = .ok request.ast.root ∧
      ∃ calcData, CalculationData.new request.ast = .ok calcData := by
  constructor
  · intro h
    cases hread : Expr.fromJson document.json with
    | error fault =>
      rw [intake_of_error hread] at h
      cases h
    | ok e =>
      by_cases he : e.Complete
      · rw [intake_of_fromJson hread he, Result.bind_ok_iff] at h
        obtain ⟨calcData, hnew, hrequest⟩ := h
        obtain rfl := Except.ok.inj hrequest
        exact ⟨rfl, calcData, hnew⟩
      · rw [intake_of_not_complete hread he] at h
        cases h
  · rintro ⟨hread, calcData, hnew⟩
    rw [intake_of_fromJson hread request.ast.complete, Result.bind_ok_iff]
    exact ⟨calcData, hnew, rfl⟩

/-- A leaf of the tree is a constant. -/
def HasConstant (e : Expr) : Prop := ∃ path x, e.subtreeAt path = some (.scalarConstExpr x)

/-- **What becomes of a document before there is an id.** It is taken in exactly if it is read as a
tree with all its operands and no constant. The handler throws exactly if the parser complains, or
at a constant in a tree that is complete; it has no defined behaviour exactly where the parser has
none, or with a tree that lacks an operand, which it reads without a word. -/
theorem intake_iff (document : Document) :
    ((∃ request, document.intake = .ok request) ↔
      ∃ e, Expr.fromJson document.json = .ok e ∧ e.Complete ∧ ¬HasConstant e) ∧
    ((∃ x, document.intake = .error (.thrown x)) ↔ Complains document.json ∨
      ∃ e, Expr.fromJson document.json = .ok e ∧ e.Complete ∧ HasConstant e) ∧
    (document.intake = .error .undefined ↔
      Expr.fromJson document.json = .error .undefined ∨
      ∃ e, Expr.fromJson document.json = .ok e ∧ ¬e.Complete) ∧
    document.intake ≠ .error .aborted := by
  cases hread : Expr.fromJson document.json with
  | error fault =>
    rw [intake_of_error hread, ← fromJson_thrown_iff, hread]
    have haborted : fault ≠ .aborted := by
      rintro rfl
      cases hroot : document.json.member "ast" with
      | none =>
        obtain ⟨x, hx⟩ := fromJson_of_none hroot
        simp [hread] at hx
      | some root =>
        rw [fromJson_of_member hroot] at hread
        exact (Described.of_json root).not_aborted hread
    simp [haborted]
  | ok e =>
    have hnot : ¬Complains document.json := by
      rw [← fromJson_thrown_iff, hread]
      simp
    by_cases he : e.Complete
    · have hconstant : (∃ calcData, CalculationData.new ⟨e, he⟩ = .ok calcData) ↔
          ∀ path x, e.subtreeAt path ≠ some (.scalarConstExpr x) :=
        CalculationData.new_returns_iff
      rw [intake_of_fromJson hread he]
      cases hnew : CalculationData.new ⟨e, he⟩ with
      | ok calcData =>
        have hnone : ¬HasConstant e := by
          rintro ⟨path, x, hx⟩
          exact hconstant.mp ⟨calcData, hnew⟩ path x hx
        simp [he, hnone, hnot]
      | error fault =>
        have hsome : HasConstant e := by
          by_contra hnone
          have hreturns : ∀ path x, e.subtreeAt path ≠ some (.scalarConstExpr x) :=
            fun path x hx => hnone ⟨path, x, hx⟩
          obtain ⟨calcData, hcalcData⟩ := hconstant.mpr hreturns
          rw [hnew] at hcalcData
          cases hcalcData
        rw [CalculationData.new_error hnew]
        simp [he, hsome]
    · rw [intake_of_not_complete hread he]
      simp [he, hnot]

end Intake

end TaskDispatch
