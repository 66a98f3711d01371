import Mathlib
import TaskDispatch.Decomposition.Unfold
import TaskDispatch.Dispatch.Dispatcher

/-!
# The scheduling state of a problem

The status map and the pending map of a problem are the three sets of a scheduler over its task
graph, and the handlers are the operations of that scheduler: `CalculationData::New` starts it,
`SendComputableTasks` hands out, a reply recomputes the frontier, the reply for the root finishes.
`Tracks` is what holds of the data of a problem from the push to the erasure.
-/

set_option autoImplicit false

namespace TaskDispatch

open Frontier ValueNumbering

/-! ## The maps as sets -/

namespace CalculationData

variable {calcData calcData' : CalculationData} {ast : AST} {v u : TaskId}

def schedule (calcData : CalculationData) : Schedule TaskId where
  completed := {v | calcData.processedTasksToStatus[v]? = some .completed}
  processing := {v | calcData.processedTasksToStatus[v]? = some .processing}
  computable := {v | v ∈ calcData.computableTaskToDependencies}

@[simp] theorem mem_completed : v ∈ calcData.schedule.completed ↔
    calcData.processedTasksToStatus[v]? = some .completed := Iff.rfl

@[simp] theorem mem_processing : v ∈ calcData.schedule.processing ↔
    calcData.processedTasksToStatus[v]? = some .processing := Iff.rfl

@[simp] theorem mem_computable : v ∈ calcData.schedule.computable ↔
    v ∈ calcData.computableTaskToDependencies := Iff.rfl

/-- A task has a status when it was handed out or completed. -/
theorem mem_status : v ∈ calcData.processedTasksToStatus ↔
    v ∈ calcData.schedule.processing ∪ calcData.schedule.completed := by
  rw [Std.ExtTreeMap.mem_iff_isSome_getElem?, Set.mem_union, mem_processing, mem_completed]
  rcases calcData.processedTasksToStatus[v]? with _ | _ | _ <;> simp

/-- What holds of the data of a problem throughout. -/
structure Tracks (calcData : CalculationData) (ast : AST) : Prop where
  decompositor_eq : calcData.decompositor = ast.decompositor
  independent : ast.decompositor.getIndependentTasks = .ok calcData.taskToVariableId
  dependencies : ∀ v dependencies, calcData.computableTaskToDependencies[v]? = some dependencies →
    dependencies = ast.dag.deps v
  coherent : Coherent ast.dag calcData.schedule
  leaves : ast.dag.start.completed ⊆ calcData.schedule.completed

theorem getElem?_getComputableTasks (C X : Finset VertexDescriptor) (v : VertexDescriptor) :
    (ast.decompositor.getComputableTasks C X)[v]? =
      if v < ast.vertexCount ∧ ast.decompositor.IsComputable C X v then some (ast.dag.deps v)
      else none := by
  rw [TaskDecompositor.getElem?_getComputableTasks]
  simp only [AST.mem_tasks_decompositor, AST.adjacentVertices_decompositor]

/-- `GetComputableTasks` computes the frontier. -/
theorem mem_getComputableTasks {C X : Finset VertexDescriptor} :
    v ∈ ast.decompositor.getComputableTasks C X ↔ v ∈ ast.dag.frontier C X := by
  rw [Std.ExtTreeMap.mem_iff_isSome_getElem?, getElem?_getComputableTasks]
  simp [TaskDecompositor.IsComputable, RootedDag.frontier, Enabled, AST.mem_vertices]

/-- The variables belong to the leaves. -/
theorem mem_independent {m : Std.ExtTreeMap VertexDescriptor VariableId}
    (h : ast.decompositor.getIndependentTasks = .ok m) :
    v ∈ m ↔ v < ast.vertexCount ∧ ast.dag.deps v = [] := by
  obtain ⟨hlookup, hsome⟩ := TaskDecompositor.getElem?_getIndependentTasks _ h v
  rw [Std.ExtTreeMap.mem_iff_isSome_getElem?, hlookup]
  simp only [AST.mem_tasks_decompositor] at hsome ⊢
  by_cases hv : v < ast.vertexCount
  · rw [if_pos hv, ← AST.isLeaf_iff hv]
    constructor
    · intro hvar
      refine ⟨hv, ?_⟩
      by_contra hleaf
      rw [TaskDecompositor.leafVariable, if_neg hleaf] at hvar
      simp at hvar
    · exact fun hleaf => hsome hv hleaf.2
  · simp [hv]

/-- Recomputing finds the frontier beyond what is completed and in process. -/
theorem mem_recompute (h : calcData.decompositor = ast.decompositor) :
    v ∈ calcData.recompute.computableTaskToDependencies ↔
      v ∈ ast.dag.frontier calcData.schedule.completed calcData.schedule.processing := by
  have htasks : ∀ status : TaskStatus, ((calcData.tasksWith status : Finset TaskId) : Set TaskId) =
      {v | calcData.processedTasksToStatus[v]? = some status} := by
    intro status
    ext u
    simp [mem_tasksWith]
  rw [recompute, h, mem_getComputableTasks, htasks, htasks]
  rfl

theorem dependencies_of_getComputableTasks {C X : Finset VertexDescriptor}
    {dependencies : List TaskId}
    (h : (ast.decompositor.getComputableTasks C X)[v]? = some dependencies) :
    dependencies = ast.dag.deps v := by
  rw [getElem?_getComputableTasks] at h
  split at h
  · exact (Option.some.inj h).symm
  · cases h

theorem dependencies_of_recompute (h : calcData.decompositor = ast.decompositor)
    {dependencies : List TaskId}
    (hdeps : calcData.recompute.computableTaskToDependencies[v]? = some dependencies) :
    dependencies = ast.dag.deps v := by
  rw [recompute, h] at hdeps
  exact dependencies_of_getComputableTasks hdeps

theorem new_eq_ok : new ast = .ok calcData ↔
    ∃ m, ast.decompositor.getIndependentTasks = .ok m ∧ calcData = {
      decompositor := ast.decompositor
      taskToVariableId := m
      processedTasksToStatus := m.map fun _ _ => .completed
      computableTaskToDependencies :=
        ast.decompositor.getComputableTasks m.keys.toFinset ∅ } := by
  simp only [new, TaskDecompositor.new_eq, Result.ok_bind, Result.bind_ok_iff, Except.ok.injEq,
    eq_comm (a := calcData)]

/-- **`CalculationData::New`** starts the scheduler of the tree. -/
theorem schedule_new (h : new ast = .ok calcData) : calcData.schedule = ast.dag.start := by
  obtain ⟨m, hm, rfl⟩ := new_eq_ok.mp h
  have hcompleted : ∀ v, v ∈ m ↔ v ∈ ast.dag.start.completed := fun v => mem_independent hm
  ext v
  · rw [mem_completed, ← hcompleted, Std.ExtTreeMap.mem_iff_isSome_getElem?,
      Std.ExtTreeMap.getElem?_map]
    cases m[v]? <;> simp
  · simp [mem_processing, RootedDag.start]
  · have hset : ((m.keys.toFinset : Finset VertexDescriptor) : Set VertexDescriptor) =
        ast.dag.start.completed := by
      ext v
      simp [hcompleted]
    simp only [mem_computable, mem_getComputableTasks, hset, Finset.coe_empty]
    rfl

theorem Tracks.new (h : CalculationData.new ast = .ok calcData) : Tracks calcData ast := by
  have hschedule := schedule_new h
  obtain ⟨m, hm, rfl⟩ := new_eq_ok.mp h
  exact ⟨rfl, hm, fun _ _ => dependencies_of_getComputableTasks, hschedule ▸ Coherent.start _,
    hschedule ▸ le_rfl⟩

/-- **`SendComputableTasks`** hands out what is computable. -/
theorem Tracks.schedule_markSent (h : Tracks calcData ast) :
    calcData.markSent.schedule = RootedDag.send calcData.schedule := by
  have hdisjoint : ∀ v ∈ calcData.schedule.computable, v ∉ calcData.schedule.completed := by
    intro v hv
    rw [h.coherent.computable_eq] at hv
    exact hv.2.1
  ext v
  · by_cases hv : v ∈ calcData.computableTaskToDependencies
    · simpa [getElem?_markSent, hv, RootedDag.send] using hdisjoint v hv
    · simp [getElem?_markSent, hv, RootedDag.send]
  · by_cases hv : v ∈ calcData.computableTaskToDependencies
    · simp [getElem?_markSent, hv, RootedDag.send]
    · simp [getElem?_markSent, hv, RootedDag.send]
  · simp [markSent, RootedDag.send]

theorem Tracks.markSent (h : Tracks calcData ast) : Tracks calcData.markSent ast where
  decompositor_eq := h.decompositor_eq
  independent := h.independent
  dependencies := by simp [CalculationData.markSent]
  coherent := h.schedule_markSent ▸ h.coherent.send
  leaves := h.schedule_markSent ▸ h.leaves

/-- What `complete` does to the two sets of the status map. -/
theorem schedule_complete (hc : calcData.complete v = .ok calcData') :
    calcData'.schedule.completed = insert v calcData.schedule.completed ∧
      calcData'.schedule.processing = calcData.schedule.processing \ {v} ∧
      calcData'.schedule.computable = calcData.schedule.computable := by
  obtain ⟨-, rfl⟩ := complete_eq_ok.mp hc
  refine ⟨?_, ?_, rfl⟩
  · ext u
    by_cases hu : u = v
    · simp [hu]
    · simp [Std.ExtTreeMap.getElem?_insert, hu, Ne.symm hu]
  · ext u
    by_cases hu : u = v
    · simp [hu]
    · simp [Std.ExtTreeMap.getElem?_insert, hu, Ne.symm hu]

/-- **The reply for the root** leaves the frontier alone. -/
theorem schedule_finish (hc : calcData.complete ast.dag.root = .ok calcData') :
    calcData'.schedule = ast.dag.finish calcData.schedule := by
  obtain ⟨h₁, h₂, h₃⟩ := schedule_complete hc
  exact Schedule.ext h₁ h₂ h₃

/-- **A reply** completes its task and recomputes the frontier. -/
theorem Tracks.schedule_reply (h : Tracks calcData ast)
    (hc : calcData.complete v = .ok calcData') :
    calcData'.recompute.schedule = ast.dag.reply calcData.schedule v := by
  obtain ⟨h₁, h₂, -⟩ := schedule_complete hc
  have hd : calcData'.decompositor = ast.decompositor := by
    obtain ⟨-, rfl⟩ := complete_eq_ok.mp hc
    exact h.decompositor_eq
  apply Schedule.ext h₁ h₂
  ext u
  rw [mem_computable, mem_recompute hd, RootedDag.reply, ← h₁, ← h₂]

theorem Tracks.complete (h : Tracks calcData ast) (hc : calcData.complete v = .ok calcData') :
    calcData'.decompositor = ast.decompositor ∧
      ast.decompositor.getIndependentTasks = .ok calcData'.taskToVariableId ∧
      ast.dag.start.completed ⊆ calcData'.schedule.completed := by
  have hcompleted := (schedule_complete hc).1
  obtain ⟨-, rfl⟩ := complete_eq_ok.mp hc
  refine ⟨h.decompositor_eq, h.independent, ?_⟩
  rw [hcompleted]
  exact h.leaves.trans (Set.subset_insert _ _)

theorem Tracks.reply (h : Tracks calcData ast) (hc : calcData.complete v = .ok calcData') :
    Tracks calcData'.recompute ast := by
  obtain ⟨hd, hm, hleaves⟩ := h.complete hc
  refine ⟨hd, hm, fun _ _ => dependencies_of_recompute hd, ?_, hleaves⟩
  rw [h.schedule_reply hc]
  exact h.coherent.reply (mem_status.mp (complete_eq_ok.mp hc).1)

theorem Tracks.finish (h : Tracks calcData ast)
    (hc : calcData.complete ast.dag.root = .ok calcData') : Tracks calcData' ast := by
  obtain ⟨hd, hm, hleaves⟩ := h.complete hc
  refine ⟨hd, hm, ?_, ?_, hleaves⟩
  · intro u deps hdeps
    obtain ⟨-, rfl⟩ := complete_eq_ok.mp hc
    exact h.dependencies u deps hdeps
  · rw [schedule_finish hc]
    exact h.coherent.finish (mem_status.mp (complete_eq_ok.mp hc).1)

end CalculationData

/-! ## The frontier from call to call -/

namespace AST

variable {ast : AST} {v : VertexDescriptor}

/-- The dependencies of a vertex unfold to the operands of its expression, in their order. -/
theorem unfold_deps {e : Expr} (h : ast.numbering.records[v]? = some e) :
    List.Forall₂ (fun u c => ∀ fuel, u < fuel → ast.decompositor.graph.unfold fuel u = .ok c)
      (ast.dag.deps v) e.operands := by
  rw [deps_of_record h, List.forall₂_map_left_iff]
  apply List.forall₂_same.mpr
  intro c hc fuel
  apply unfold_graphOf fun _ => complete_of_mem
  exact Numbering.getElem?_number
    (ast.numbering.childrenFirst.mem (List.mem_of_getElem? h) hc)

end AST

/-- **Progress and stability of the frontier.** Whatever is completed, as long as the root is not,
some task is computable; what was computable is so with the same dependencies when more is
completed; and the dependencies are the operands, `lhs` before `rhs`, with repetitions. -/
theorem TaskDecompositor.getComputableTasks_progress_stability (ast : AST) :
    ∃ d root, TaskDecompositor.new ast = .ok d ∧ d.lastTask = .ok root ∧
      (∀ C : Finset VertexDescriptor, root ∉ C → ∃ v, v ∈ d.getComputableTasks C ∅) ∧
      (∀ C C' X : Finset VertexDescriptor, C ⊆ C' → ∀ (v : VertexDescriptor) dependencies,
        (d.getComputableTasks C X)[v]? = some dependencies → v ∉ C' →
        (d.getComputableTasks C' X)[v]? = some dependencies) ∧
      ∀ (C X : Finset VertexDescriptor) (v : VertexDescriptor) dependencies,
        (d.getComputableTasks C X)[v]? = some dependencies →
        ∃ e, (∀ fuel, v < fuel → d.graph.unfold fuel v = .ok e) ∧
          List.Forall₂ (fun u c => ∀ fuel, u < fuel → d.graph.unfold fuel u = .ok c)
            dependencies (e.getLhs.toList ++ e.getRhs.toList) := by
  refine ⟨ast.decompositor, ast.dag.root, new_eq ast, ast.lastTask_decompositor, ?_, ?_, ?_⟩
  · intro C hroot
    obtain ⟨v, hv⟩ := ast.dag.frontier_nonempty (C := C) hroot
    refine ⟨v, CalculationData.mem_getComputableTasks.mpr ?_⟩
    rwa [Finset.coe_empty]
  · intro C C' X hsub v dependencies hv hnot
    have hmem := CalculationData.mem_getComputableTasks.mp
      (Std.ExtTreeMap.getElem?_eq_some_iff.mp hv).1
    have hmem' := CalculationData.mem_getComputableTasks.mpr
      (ast.dag.frontier_mono (Finset.coe_subset.mpr hsub) hmem hnot)
    have hv' := Std.ExtTreeMap.getElem?_eq_some_getElem hmem'
    rw [hv', CalculationData.dependencies_of_getComputableTasks hv,
      CalculationData.dependencies_of_getComputableTasks hv']
  · intro C X v dependencies hv
    have hmem := CalculationData.mem_getComputableTasks.mp
      (Std.ExtTreeMap.getElem?_eq_some_iff.mp hv).1
    obtain ⟨e, he⟩ := AST.exists_record hmem.1
    rw [CalculationData.dependencies_of_getComputableTasks hv]
    exact ⟨e, fun fuel => unfold_graphOf (fun _ => AST.complete_of_mem) he, AST.unfold_deps he⟩

end TaskDispatch
