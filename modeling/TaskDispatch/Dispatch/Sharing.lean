import Mathlib
import TaskDispatch.Decomposition.Identity
import TaskDispatch.Dispatch.Exchange

/-!
# Common subexpressions are computed once

One vertex stands for all places of a tree at which identical subtrees stand, and while a problem
is in the maps each vertex is passed to `SendRequest` at most once. The second part needs nothing
about the replies: they may be for tasks never sent, repeated, or for other problems. A reply only
gives its task another status, and what has a status is never computable again.
-/

set_option autoImplicit false

namespace TaskDispatch

open Frontier Transition

/-- A dispatcher, and the tasks of one problem passed to `SendRequest` so far, in order. -/
structure ProblemLife where
  dispatcher : Dispatcher
  sent : List TaskId := []

namespace ProblemLife

/-- Any sequence of operations on the dispatcher, up to the erasure of the problem in view. -/
def step (p : ProblemId) (s : ProblemLife) : Exchange.Action → Option ProblemLife
  | .pushProblem request => do
    let calcData ← (CalculationData.new request.ast).toOption
    some { s with dispatcher := (s.dispatcher.pushProblem calcData {}).2 }
  | .sendComputableTasks order => do
    let calcData ← s.dispatcher.problemIdToCalculationData[p]?
    let (_, dispatcher) ← (s.dispatcher.sendComputableTasks order).toOption
    some { dispatcher, sent := s.sent ++ calcData.computableTaskToDependencies.keys }
  | .updateComputableTasks id => do
    let dispatcher ← (s.dispatcher.updateComputableTasks id).toOption
    some { s with dispatcher }
  | .clearProblem q =>
    if q ≠ p then some { s with dispatcher := s.dispatcher.clearProblem q } else none

variable {p : ProblemId} {ast : AST} {s s' : ProblemLife} {v : TaskId} {calcData : CalculationData}

/-- What was sent is recorded in the status map, each task once. -/
structure Inv (p : ProblemId) (ast : AST) (s : ProblemLife) (calcData : CalculationData) :
    Prop where
  entry : s.dispatcher.problemIdToCalculationData[p]? = some calcData
  tracks : calcData.Tracks ast
  nodup : s.sent.Nodup
  sent : ∀ v ∈ s.sent, v < ast.vertexCount ∧ v ∈ calcData.processedTasksToStatus

theorem Inv.new {d : Dispatcher} (hnew : CalculationData.new ast = .ok calcData)
    (hentry : d.problemIdToCalculationData[p]? = some calcData) :
    Inv p ast { dispatcher := d } calcData where
  entry := hentry
  tracks := .new hnew
  nodup := List.nodup_nil
  sent := by simp

/-- A new problem does not replace one that is there. -/
theorem Inv.push (h : Inv p ast s calcData) {request : AstRequest}
    (hstep : step p s (.pushProblem request) = some s') : Inv p ast s' calcData := by
  simp only [step, Option.bind_eq_bind, Option.bind_eq_some_iff, Option.some.injEq] at hstep
  obtain ⟨calcData', -, rfl⟩ := hstep
  refine ⟨?_, h.tracks, h.nodup, h.sent⟩
  have hmem : p ∈ s.dispatcher.problemIdToCalculationData :=
    (Std.ExtTreeMap.getElem?_eq_some_iff.mp h.entry).1
  rw [Dispatcher.pushProblem, Std.ExtTreeMap.getElem?_insertIfNew, if_neg, h.entry]
  rintro ⟨heq, hnot⟩
  rw [Std.compare_eq_iff_eq] at heq
  exact hnot (heq ▸ hmem)

theorem Inv.send {order : PassOrder} (h : Inv p ast s calcData)
    (hstep : step p s (.sendComputableTasks order) = some s') : Inv p ast s' calcData.markSent := by
  simp only [step, h.entry, Dispatcher.sendComputableTasks_eq, Except.toOption,
    Option.bind_eq_bind, Option.bind_some, Option.some.injEq] at hstep
  subst hstep
  have hcomputable : ∀ v ∈ calcData.computableTaskToDependencies,
      v < ast.vertexCount ∧ v ∉ calcData.processedTasksToStatus := by
    intro v hv
    have hmem : v ∈ calcData.schedule.computable := hv
    rw [h.tracks.coherent.computable_eq] at hmem
    obtain ⟨hlt, hC, hX, -⟩ := hmem
    rw [CalculationData.mem_status]
    exact ⟨hlt, fun hstatus => hstatus.elim hX hC⟩
  refine ⟨?_, h.tracks.markSent, ?_, ?_⟩
  · rw [Std.ExtTreeMap.getElem?_map, h.entry, Option.map_some]
  · apply h.nodup.append Std.ExtTreeMap.nodup_keys
    intro v hsent hv
    exact (hcomputable v (Std.ExtTreeMap.mem_keys.mp hv)).2 (h.sent v hsent).2
  · intro v hv
    rw [CalculationData.mem_status, h.tracks.schedule_markSent, RootedDag.send]
    rcases List.mem_append.mp hv with hv | hv
    · obtain ⟨hlt, hstatus⟩ := h.sent v hv
      exact ⟨hlt, (CalculationData.mem_status.mp hstatus).imp_left .inl⟩
    · have hmem := Std.ExtTreeMap.mem_keys.mp hv
      exact ⟨(hcomputable v hmem).1, .inl (.inr hmem)⟩

/-- A reply takes no status away. -/
theorem Inv.update (h : Inv p ast s calcData) {id : Proto.TaskId}
    (hstep : step p s (.updateComputableTasks id) = some s') :
    ∃ calcData', Inv p ast s' calcData' := by
  simp only [step, Option.bind_eq_bind, Option.bind_eq_some_iff, Result.toOption_eq_some,
    Option.some.injEq] at hstep
  obtain ⟨d, hd, rfl⟩ := hstep
  obtain ⟨c, last, c', hc, hlast, hcomplete, hcases⟩ := Dispatcher.updateComputableTasks_eq_ok.mp hd
  by_cases hp : id.problemId.toNat = p
  · rw [hp, h.entry, Option.some.injEq] at hc
    subst hc
    rw [h.tracks.decompositor_eq, AST.lastTask_decompositor, Except.ok.injEq] at hlast
    have hstatus : ∀ v ∈ s.sent, v < ast.vertexCount ∧ v ∈ c'.processedTasksToStatus := by
      intro v hv
      obtain ⟨-, rfl⟩ := CalculationData.complete_eq_ok.mp hcomplete
      exact ⟨(h.sent v hv).1, Std.ExtTreeMap.mem_insert.mpr (.inr (h.sent v hv).2)⟩
    rcases hcases with ⟨hroot, -, -, rfl⟩ | ⟨-, rfl⟩
    · rw [hroot, ← hlast] at hcomplete
      exact ⟨c', by simp [hp], h.tracks.finish hcomplete, h.nodup, hstatus⟩
    · exact ⟨c'.recompute, by simp [hp], h.tracks.reply hcomplete, h.nodup, hstatus⟩
  · refine ⟨calcData, ?_, h.tracks, h.nodup, h.sent⟩
    rcases hcases with ⟨-, -, -, rfl⟩ | ⟨-, rfl⟩ <;>
      simp [Std.ExtTreeMap.getElem?_insert, hp, h.entry]

theorem Inv.step {a : Exchange.Action} (h : Inv p ast s calcData) (hstep : step p s a = some s') :
    ∃ calcData', Inv p ast s' calcData' := by
  cases a with
  | pushProblem request => exact ⟨_, h.push hstep⟩
  | sendComputableTasks => exact ⟨_, h.send hstep⟩
  | updateComputableTasks id => exact h.update hstep
  | clearProblem q =>
    simp only [ProblemLife.step] at hstep
    split at hstep
    · rename_i hne
      obtain rfl := Option.some.inj hstep
      refine ⟨calcData, ?_, h.tracks, h.nodup, h.sent⟩
      simp [Dispatcher.clearProblem, Std.ExtTreeMap.getElem?_erase, hne, h.entry]
    · cases hstep

/-- The run lemma. -/
theorem Inv.of_runs {d : Dispatcher} {as : List Exchange.Action}
    (hnew : CalculationData.new ast = .ok calcData)
    (hentry : d.problemIdToCalculationData[p]? = some calcData)
    (hrun : Runs (ProblemLife.step p) { dispatcher := d } as s) :
    ∃ calcData', Inv p ast s calcData' :=
  hrun.invariant (I := fun _ s => ∃ calcData', Inv p ast s calcData') ⟨_, .new hnew hentry⟩
    fun _ _ _ _ _ ⟨_, h⟩ hstep => h.step hstep

/-- The trees computed for a problem all differ. -/
theorem Inv.nodup_unfold (h : Inv p ast s calcData) :
    (s.sent.map fun v => ast.decompositor.graph.unfold (v + 1) v).Nodup := by
  rw [List.nodup_map_iff_inj_on h.nodup]
  intro u hu v hv heq
  exact AST.unfold_inj (h.sent u hu).1 (h.sent v hv).1 (Nat.lt_succ_self u) (Nat.lt_succ_self v) heq

end ProblemLife

/-- **Common subexpressions are shared maximally.** Every place of the tree has a vertex that
unfolds to what stands there; two places have the same one exactly when identical trees stand
there; there are as many vertices as different subtrees, no two unfold to the same tree, and
between the push of the problem and its erasure no subtree is sent twice to be computed. -/
theorem common_subexpressions_shared (ast : AST) :
    ∃ d root, TaskDecompositor.new ast = .ok d ∧ d.lastTask = .ok root ∧
      (∀ path e, ast.root.subtreeAt path = some e → ∃ v ∈ d.tasks,
        d.graph.follow root path = some v ∧ ∀ fuel, v < fuel → d.graph.unfold fuel v = .ok e) ∧
      (∀ path path' e e', ast.root.subtreeAt path = some e → ast.root.subtreeAt path' = some e' →
        (d.graph.follow root path = d.graph.follow root path' ↔ Expr.Identical e e')) ∧
      d.graph.vertices.length = {e | ∃ path, ast.root.subtreeAt path = some e}.ncard ∧
      (∀ u ∈ d.tasks, ∀ v ∈ d.tasks, ∀ e, (∀ fuel, u < fuel → d.graph.unfold fuel u = .ok e) →
        (∀ fuel, v < fuel → d.graph.unfold fuel v = .ok e) → u = v) ∧
      ∀ calcData p dispatcher, CalculationData.new ast = .ok calcData →
        dispatcher.problemIdToCalculationData[p]? = some calcData →
        ∀ as s, Runs (ProblemLife.step p) { dispatcher } as s →
          (s.sent.map fun v => d.graph.unfold (v + 1) v).Nodup := by
  refine ⟨ast.decompositor, ast.dag.root, TaskDecompositor.new_eq ast, ast.lastTask_decompositor,
    ?_, ?_, ?_, ?_, ?_⟩
  · intro path e he
    have hmem := AST.mem_records_of_subtreeAt he
    exact ⟨_, AST.mem_tasks_decompositor.mpr (ValueNumbering.Numbering.number_lt hmem),
      AST.follow_root he, fun fuel => AST.unfold_number hmem⟩
  · intro path path' e e'
    exact AST.follow_eq_follow_iff
  · exact length_vertices_graphOf.trans AST.vertexCount_eq_ncard
  · intro u hu v hv e heu hev
    have heq := (heu (u + 1) (Nat.lt_succ_self u)).trans (hev (v + 1) (Nat.lt_succ_self v)).symm
    exact AST.unfold_inj (AST.mem_tasks_decompositor.mp hu) (AST.mem_tasks_decompositor.mp hv)
      (Nat.lt_succ_self u) (Nat.lt_succ_self v) heq
  · intro calcData p dispatcher hnew hentry as s hrun
    obtain ⟨_, h⟩ := ProblemLife.Inv.of_runs hnew hentry hrun
    exact h.nodup_unfold

end TaskDispatch
