import Mathlib
import TaskDispatch.Dispatch.Schedule
import TaskDispatch.Lib.Run

/-!
# The scheduling state is a function of the replies handled

One problem of a dispatcher, followed through any sequence of sends and of replies to tasks that
were sent before. The pending map is thrown away on every reply and emptied on every send; still
nothing is forgotten, because what is recomputed is the frontier beyond the tasks in process, and
that frontier depends on the completed tasks alone. The replies for other problems come in between
as they like.
-/

set_option autoImplicit false

namespace TaskDispatch

open Frontier Transition

/-! ## What a reply does to the data of a problem -/

namespace CalculationData

variable {calcData calcData' : CalculationData} {ast : AST} {u v : TaskId}

/-- Two pending maps with the same tasks are equal when both hold the operands of the tasks. -/
theorem pending_ext {m m' : Std.ExtTreeMap TaskId (List TaskId)} {deps : TaskId → List TaskId}
    (hm : ∀ v dependencies, m[v]? = some dependencies → dependencies = deps v)
    (hm' : ∀ v dependencies, m'[v]? = some dependencies → dependencies = deps v)
    (hmem : ∀ v, v ∈ m ↔ v ∈ m') : m = m' := by
  refine Std.ExtTreeMap.ext_getElem? fun v => ?_
  have hv := hmem v
  rw [Std.ExtTreeMap.mem_iff_isSome_getElem?, Std.ExtTreeMap.mem_iff_isSome_getElem?] at hv
  cases h : m[v]? with
  | none => simpa [h] using hv
  | some dependencies =>
    obtain ⟨dependencies', h'⟩ := Option.isSome_iff_exists.mp (hv.mp (by rw [h]; rfl))
    rw [h', hm v _ h, hm' v _ h']

/-- The pending map is what recomputing it would give. -/
theorem Tracks.recompute_eq (h : Tracks calcData ast) : calcData.recompute = calcData := by
  refine CalculationData.ext rfl rfl rfl ?_
  refine pending_ext (fun v _ => dependencies_of_recompute h.decompositor_eq) h.dependencies
    ?_
  intro v
  rw [mem_recompute h.decompositor_eq, ← h.coherent.computable_eq, mem_computable]

/-- A reply that was handled before changes nothing. -/
theorem Tracks.complete_of_completed (h : Tracks calcData ast)
    (hv : v ∈ calcData.schedule.completed) :
    ∃ calcData', calcData.complete v = .ok calcData' ∧ calcData'.recompute = calcData := by
  have hinsert : calcData.processedTasksToStatus.insert v .completed =
      calcData.processedTasksToStatus := by
    refine Std.ExtTreeMap.ext_getElem? fun u => ?_
    rw [Std.ExtTreeMap.getElem?_insert]
    by_cases hu : v = u
    · subst hu
      simpa using hv.symm
    · simp [hu]
  refine ⟨calcData, complete_eq_ok.mpr ⟨mem_status.mpr (.inr hv), ?_⟩, h.recompute_eq⟩
  rw [hinsert]

end CalculationData

namespace Dispatcher

variable {d d' d₁ d₂ d₁₂ : Dispatcher} {calcData : CalculationData} {p q : ProblemId} {u v : TaskId}

theorem updateComputableTasksImpl_eq_ok : d.updateComputableTasksImpl p v = .ok d' ↔
    ∃ calcData calcData', d.problemIdToCalculationData[p]? = some calcData ∧
      calcData.complete v = .ok calcData' ∧
      d' = { d with
        problemIdToCalculationData :=
          d.problemIdToCalculationData.insert p calcData'.recompute } := by
  simp only [updateComputableTasksImpl, Result.bind_ok_iff, Result.ofLookup_eq_ok, Except.ok.injEq,
    eq_comm (b := d')]
  constructor
  · rintro ⟨calcData, hcd, calcData', hc, h⟩
    exact ⟨calcData, calcData', hcd, hc, h⟩
  · rintro ⟨calcData, calcData', hcd, hc, h⟩
    exact ⟨calcData, hcd, calcData', hc, h⟩

/-- A reply for one problem leaves the others alone. -/
theorem updateComputableTasksImpl_of_ne (h : d.updateComputableTasksImpl q v = .ok d')
    (hne : q ≠ p) : d'.problemIdToCalculationData[p]? = d.problemIdToCalculationData[p]? := by
  obtain ⟨_, _, _, _, rfl⟩ := updateComputableTasksImpl_eq_ok.mp h
  simp [Std.ExtTreeMap.getElem?_insert, hne]

theorem insert_insert {β : Type} (m : Std.ExtTreeMap ℕ β) (k : ℕ) (b b' : β) :
    (m.insert k b).insert k b' = m.insert k b' := by
  refine Std.ExtTreeMap.ext_getElem? fun j => ?_
  by_cases hj : k = j <;> simp [Std.ExtTreeMap.getElem?_insert, hj]

/-- **Replies commute.** -/
theorem updateComputableTasksImpl_comm (h₁ : d.updateComputableTasksImpl p u = .ok d₁)
    (h₁₂ : d₁.updateComputableTasksImpl p v = .ok d₁₂)
    (h₂ : d.updateComputableTasksImpl p v = .ok d₂) :
    d₂.updateComputableTasksImpl p u = .ok d₁₂ := by
  obtain ⟨calcData, calcData₁, hcd, hc₁, rfl⟩ := updateComputableTasksImpl_eq_ok.mp h₁
  obtain ⟨_, calcData₁₂, hcd₁, hc₁₂, rfl⟩ := updateComputableTasksImpl_eq_ok.mp h₁₂
  obtain ⟨_, calcData₂, hcd₂, hc₂, rfl⟩ := updateComputableTasksImpl_eq_ok.mp h₂
  obtain rfl := Option.some.inj (hcd.symm.trans hcd₂)
  simp only [Std.ExtTreeMap.getElem?_insert_self, Option.some.injEq] at hcd₁
  subst hcd₁
  obtain ⟨hu, rfl⟩ := CalculationData.complete_eq_ok.mp hc₁
  obtain ⟨hv, rfl⟩ := CalculationData.complete_eq_ok.mp hc₁₂
  obtain ⟨hv', rfl⟩ := CalculationData.complete_eq_ok.mp hc₂
  have hstatus : (calcData.processedTasksToStatus.insert v .completed).insert u .completed =
      (calcData.processedTasksToStatus.insert u .completed).insert v TaskStatus.completed := by
    refine Std.ExtTreeMap.ext_getElem? fun w => ?_
    simp only [Std.ExtTreeMap.getElem?_insert]
    split_ifs <;> rfl
  refine updateComputableTasksImpl_eq_ok.mpr
    ⟨_, _, Std.ExtTreeMap.getElem?_insert_self, CalculationData.complete_eq_ok.mpr ⟨?_, rfl⟩, ?_⟩
  · exact Std.ExtTreeMap.mem_insert.mpr (.inr hu)
  · simp only [insert_insert, CalculationData.recompute, hstatus, CalculationData.tasksWith]

end Dispatcher
/-! ## Runs -/

/-- A dispatcher, the tasks of one problem passed to `SendRequest` so far, and those among them
that were replied to. -/
structure ProblemRun where
  dispatcher : Dispatcher
  sent : Finset TaskId := ∅
  replied : Finset TaskId := ∅

namespace ProblemRun

inductive Action where
  | sendComputableTasks (order : PassOrder := .ascending)
  | updateComputableTasksImpl (taskId : TaskId)
  /-- A reply for another problem. -/
  | updateOther (problemId : ProblemId) (taskId : TaskId)

/-- The problem in view is `p`. Its replies are for tasks sent earlier and not for the root. -/
def step (p : ProblemId) (s : ProblemRun) : Action → Option ProblemRun
  | .sendComputableTasks order => do
    let calcData ← s.dispatcher.problemIdToCalculationData[p]?
    let (_, dispatcher) ← (s.dispatcher.sendComputableTasks order).toOption
    some { s with
      dispatcher, sent := s.sent ∪ calcData.computableTaskToDependencies.keys.toFinset }
  | .updateComputableTasksImpl v => do
    let calcData ← s.dispatcher.problemIdToCalculationData[p]?
    if v ∈ s.sent ∧ calcData.decompositor.tasks.getLast? ≠ some v then
      let dispatcher ← (s.dispatcher.updateComputableTasksImpl p v).toOption
      some { s with dispatcher, replied := insert v s.replied }
    else none
  | .updateOther q v => do
    if q ≠ p then
      let dispatcher ← (s.dispatcher.updateComputableTasksImpl q v).toOption
      some { s with dispatcher }
    else none

variable {p : ProblemId} {ast : AST} {s s' : ProblemRun} {v : TaskId} {calcData : CalculationData}
  {order : PassOrder}

/-- What a send does to the problem in view. -/
theorem step_send (hcd : s.dispatcher.problemIdToCalculationData[p]? = some calcData) :
    step p s (.sendComputableTasks order) = some s' ↔ s' = { s with
      dispatcher := { s.dispatcher with
        problemIdToCalculationData :=
          s.dispatcher.problemIdToCalculationData.map fun _ calcData => calcData.markSent }
      sent := s.sent ∪ calcData.computableTaskToDependencies.keys.toFinset } := by
  simp [step, hcd, Dispatcher.sendComputableTasks_eq, Except.toOption, eq_comm]

theorem step_update (hcd : s.dispatcher.problemIdToCalculationData[p]? = some calcData) :
    step p s (.updateComputableTasksImpl v) = some s' ↔
      (v ∈ s.sent ∧ calcData.decompositor.tasks.getLast? ≠ some v) ∧
      ∃ dispatcher, s.dispatcher.updateComputableTasksImpl p v = .ok dispatcher ∧
        s' = { s with dispatcher, replied := insert v s.replied } := by
  simp [step, hcd, Option.bind_eq_some_iff, eq_comm (a := s')]

theorem step_other {q : ProblemId} : step p s (.updateOther q v) = some s' ↔ q ≠ p ∧
    ∃ dispatcher, s.dispatcher.updateComputableTasksImpl q v = .ok dispatcher ∧
      s' = { s with dispatcher } := by
  simp [step, Option.bind_eq_some_iff, eq_comm (a := s')]

/-- What holds after every sequence: the completed tasks are the leaves and the tasks replied to,
and what was sent is in process or completed. -/
structure Inv (p : ProblemId) (ast : AST) (s : ProblemRun) (calcData : CalculationData) : Prop where
  entry : s.dispatcher.problemIdToCalculationData[p]? = some calcData
  tracks : calcData.Tracks ast
  completed : calcData.schedule.completed = ast.dag.start.completed ∪ s.replied
  sent : ∀ v ∈ s.sent, v ∈ calcData.processedTasksToStatus

theorem Inv.send (h : Inv p ast s calcData)
    (hstep : step p s (.sendComputableTasks order) = some s') :
    Inv p ast s' calcData.markSent := by
  obtain rfl := (step_send h.entry).mp hstep
  refine ⟨?_, h.tracks.markSent, ?_, ?_⟩
  · simp [Std.ExtTreeMap.getElem?_map, h.entry]
  · rw [h.tracks.schedule_markSent]
    exact h.completed
  · intro v hv
    rw [CalculationData.mem_status, h.tracks.schedule_markSent]
    rcases Finset.mem_union.mp hv with hv | hv
    · rcases CalculationData.mem_status.mp (h.sent v hv) with hp | hc
      · exact .inl (.inl hp)
      · exact .inr hc
    · exact .inl (.inr (by simpa using hv))

theorem Inv.update (h : Inv p ast s calcData)
    (hstep : step p s (.updateComputableTasksImpl v) = some s') :
    ∃ calcData', Inv p ast s' calcData' := by
  obtain ⟨-, d, hd, rfl⟩ := (step_update h.entry).mp hstep
  obtain ⟨_, calcData', hcd, hc, rfl⟩ := Dispatcher.updateComputableTasksImpl_eq_ok.mp hd
  obtain rfl := Option.some.inj (h.entry.symm.trans hcd)
  refine ⟨calcData'.recompute, by simp, h.tracks.reply hc, ?_, fun w hw => ?_⟩
  · rw [h.tracks.schedule_reply hc, RootedDag.reply, h.completed]
    simp [Set.union_insert]
  · obtain ⟨-, rfl⟩ := CalculationData.complete_eq_ok.mp hc
    exact Std.ExtTreeMap.mem_insert.mpr (.inr (h.sent w hw))

theorem Inv.other {q : ProblemId} (h : Inv p ast s calcData)
    (hstep : step p s (.updateOther q v) = some s') : Inv p ast s' calcData := by
  obtain ⟨hne, d, hd, rfl⟩ := step_other.mp hstep
  refine ⟨?_, h.tracks, h.completed, h.sent⟩
  rw [← h.entry]
  exact Dispatcher.updateComputableTasksImpl_of_ne hd hne

theorem Inv.step {a : Action} (h : Inv p ast s calcData) (hstep : step p s a = some s') :
    ∃ calcData', Inv p ast s' calcData' := by
  cases a with
  | sendComputableTasks => exact ⟨_, h.send hstep⟩
  | updateComputableTasksImpl v => exact h.update hstep
  | updateOther q v => exact ⟨_, h.other hstep⟩

theorem Inv.new {d : Dispatcher} (hnew : CalculationData.new ast = .ok calcData)
    (hentry : d.problemIdToCalculationData[p]? = some calcData) :
    Inv p ast { dispatcher := d } calcData where
  entry := hentry
  tracks := .new hnew
  completed := by simp [CalculationData.schedule_new hnew]
  sent := by simp

/-- The run lemma. -/
theorem Inv.of_runs {d : Dispatcher} {as : List Action}
    (hnew : CalculationData.new ast = .ok calcData)
    (hentry : d.problemIdToCalculationData[p]? = some calcData)
    (hrun : Runs (ProblemRun.step p) { dispatcher := d } as s) :
    ∃ calcData', Inv p ast s calcData' :=
  hrun.invariant (I := fun _ s => ∃ calcData', Inv p ast s calcData') ⟨_, .new hnew hentry⟩
    fun _ _ _ _ _ ⟨_, h⟩ hstep => h.step hstep

/-! ## The state after a send -/

/-- A leaf of the graph or a task replied to. -/
def Done (decompositor : TaskDecompositor) (replied : Finset TaskId) (v : TaskId) : Prop :=
  v ∈ decompositor.tasks ∧ (decompositor.graph.properties v).type.IsLeaf ∨ v ∈ replied

instance (decompositor : TaskDecompositor) (replied : Finset TaskId) (v : TaskId) :
    Decidable (Done decompositor replied v) := inferInstanceAs (Decidable (_ ∨ _))

theorem Inv.mem_completed (h : Inv p ast s calcData) :
    v ∈ calcData.schedule.completed ↔ Done ast.decompositor s.replied v := by
  rw [h.completed, Set.mem_union, Done, AST.mem_tasks_decompositor, Finset.mem_coe]
  refine or_congr_left (and_congr_right ?_)
  intro hv
  exact (AST.isLeaf_iff hv).symm

/-- The status of every task after a send. -/
theorem Inv.status_markSent (h : Inv p ast s calcData) (v : TaskId) :
    calcData.markSent.processedTasksToStatus[v]? =
      if Done ast.decompositor s.replied v then some .completed
      else if v ∈ ast.decompositor.tasks ∧
          ∀ u ∈ ast.decompositor.graph.adjacentVertices v, Done ast.decompositor s.replied u then
        some .processing
      else none := by
  have hcompleted : calcData.markSent.schedule.completed = calcData.schedule.completed := by
    rw [h.tracks.schedule_markSent, RootedDag.send]
  have hprocessing : v ∈ calcData.markSent.schedule.processing ↔
      v < ast.vertexCount ∧ ¬Done ast.decompositor s.replied v ∧
        ∀ u ∈ ast.dag.deps v, Done ast.decompositor s.replied u := by
    rw [h.tracks.schedule_markSent, h.tracks.coherent.processing_send]
    simp [RootedDag.frontier, Enabled, h.mem_completed, AST.mem_vertices]
  split_ifs with hdone hopen
  · exact hcompleted.superset (h.mem_completed.mpr hdone)
  · rw [AST.mem_tasks_decompositor, AST.adjacentVertices_decompositor] at hopen
    exact hprocessing.mpr ⟨hopen.1, hdone, hopen.2⟩
  · rw [AST.mem_tasks_decompositor, AST.adjacentVertices_decompositor] at hopen
    rw [← Option.not_isSome_iff_eq_none, ← Std.ExtTreeMap.mem_iff_isSome_getElem?,
      CalculationData.mem_status]
    rintro (hp | hc)
    · obtain ⟨hv, -, hdeps⟩ := hprocessing.mp hp
      exact hopen ⟨hv, hdeps⟩
    · exact hdone (h.mem_completed.mp (hcompleted.subset hc))

/-- Two sequences with the same replies leave the same data after a send. -/
theorem Inv.markSent_eq {s₁ s₂ : ProblemRun} {calcData₁ calcData₂ : CalculationData}
    (h₁ : Inv p ast s₁ calcData₁) (h₂ : Inv p ast s₂ calcData₂)
    (hreplied : s₁.replied = s₂.replied) :
    calcData₁.markSent = calcData₂.markSent := by
  refine CalculationData.ext ?_ (Std.ExtTreeMap.ext_getElem? fun v => ?_) ?_ rfl
  · exact h₁.tracks.decompositor_eq.trans h₂.tracks.decompositor_eq.symm
  · rw [h₁.status_markSent, h₂.status_markSent, hreplied]
  · exact Except.ok.inj (h₁.tracks.independent.symm.trans h₂.tracks.independent)

/-- A reply to a task that was sent is never refused. -/
theorem Inv.update_returns (h : Inv p ast s calcData) (hv : v ∈ s.sent) :
    ∃ d, s.dispatcher.updateComputableTasksImpl p v = .ok d :=
  ⟨_, Dispatcher.updateComputableTasksImpl_eq_ok.mpr ⟨calcData, _, h.entry,
    CalculationData.complete_eq_ok.mpr ⟨h.sent v hv, rfl⟩, rfl⟩⟩

/-- A repeated reply leaves the dispatcher as it was. -/
theorem Inv.update_of_replied (h : Inv p ast s calcData) (hv : v ∈ s.replied) :
    s.dispatcher.updateComputableTasksImpl p v = .ok s.dispatcher := by
  obtain ⟨calcData', hc, hrecompute⟩ :=
    h.tracks.complete_of_completed (h.mem_completed.mpr (.inr hv))
  refine Dispatcher.updateComputableTasksImpl_eq_ok.mpr ⟨calcData, calcData', h.entry, hc, ?_⟩
  have hinsert : s.dispatcher.problemIdToCalculationData.insert p calcData'.recompute =
      s.dispatcher.problemIdToCalculationData := by
    refine Std.ExtTreeMap.ext_getElem? fun q => ?_
    rw [Std.ExtTreeMap.getElem?_insert, hrecompute]
    by_cases hq : p = q
    · simp [← hq, h.entry]
    · simp [hq]
  rw [hinsert]

/-- **The scheduling state is a function of the set of replies handled.** After any sequence of
sends and replies, with those for other problems in between: a send leaves completed exactly the
leaves and the tasks replied to, in process exactly the other tasks with all operands completed,
and no status elsewhere; another sequence with the same replies leaves the same; no reply to a
task sent is refused, two replies may be exchanged, and one that is repeated changes nothing. -/
theorem state_of_replies {p : ProblemId} {ast : AST} {calcData : CalculationData} {d : Dispatcher}
    (hnew : CalculationData.new ast = .ok calcData)
    (hentry : d.problemIdToCalculationData[p]? = some calcData) {as : List Action} {s : ProblemRun}
    (hrun : Runs (step p) { dispatcher := d } as s) :
    (∀ order, ∃ s' calcData', step p s (.sendComputableTasks order) = some s' ∧
      s'.replied = s.replied ∧
      s'.dispatcher.problemIdToCalculationData[p]? = some calcData' ∧
      calcData'.computableTaskToDependencies = ∅ ∧
      (∀ v, calcData'.processedTasksToStatus[v]? =
        if Done calcData.decompositor s.replied v then some .completed
        else if v ∈ calcData.decompositor.tasks ∧
            ∀ u ∈ calcData.decompositor.graph.adjacentVertices v,
              Done calcData.decompositor s.replied u then
          some .processing
        else none) ∧
      ∀ as₂ s₂ order₂ s₂', Runs (step p) { dispatcher := d } as₂ s₂ → s₂.replied = s.replied →
        step p s₂ (.sendComputableTasks order₂) = some s₂' →
        s₂'.dispatcher.problemIdToCalculationData[p]? = some calcData') ∧
    (∀ v ∈ s.sent, ∃ d', s.dispatcher.updateComputableTasksImpl p v = .ok d') ∧
    (∀ u v s₁ s₁₂ s₂, step p s (.updateComputableTasksImpl u) = some s₁ →
      step p s₁ (.updateComputableTasksImpl v) = some s₁₂ →
      step p s (.updateComputableTasksImpl v) = some s₂ →
      step p s₂ (.updateComputableTasksImpl u) = some s₁₂) ∧
    ∀ v ∈ s.replied, s.dispatcher.updateComputableTasksImpl p v = .ok s.dispatcher := by
  obtain ⟨c, h⟩ := Inv.of_runs hnew hentry hrun
  have hd : calcData.decompositor = ast.decompositor :=
    (CalculationData.Tracks.new hnew).decompositor_eq
  refine ⟨fun order => ⟨_, c.markSent, (step_send h.entry).mpr rfl, rfl, ?_, rfl, ?_, ?_⟩,
    fun v hv => h.update_returns hv, ?_, fun v hv => h.update_of_replied hv⟩
  · simp [Std.ExtTreeMap.getElem?_map, h.entry]
  · rw [hd]
    exact h.status_markSent
  · intro as₂ s₂ order₂ s₂' hrun₂ hreplied hstep
    obtain ⟨c₂, h₂⟩ := Inv.of_runs hnew hentry hrun₂
    rw [(h₂.send hstep).entry, h₂.markSent_eq h hreplied]
  · intro u v s₁ s₁₂ s₂ hu huv hv
    obtain ⟨c₁, h₁⟩ := h.update hu
    obtain ⟨c₂, h₂⟩ := h.update hv
    obtain ⟨⟨hus, hur⟩, d₁, hd₁, rfl⟩ := (step_update h.entry).mp hu
    obtain ⟨⟨hvs, hvr⟩, d₂, hd₂, rfl⟩ := (step_update h.entry).mp hv
    obtain ⟨-, d₁₂, hd₁₂, rfl⟩ := (step_update h₁.entry).mp huv
    refine (step_update h₂.entry).mpr ⟨⟨hus, ?_⟩, d₁₂,
      Dispatcher.updateComputableTasksImpl_comm hd₁ hd₁₂ hd₂, ?_⟩
    · rwa [h₂.tracks.decompositor_eq, ← h.tracks.decompositor_eq]
    · rw [Finset.insert_comm]

/-- For the mean of a list: once the sum and the size are known, the division is in process. -/
theorem state_of_replies_mean : ∃ calcData s, CalculationData.new (.mean "L") = .ok calcData ∧
    Runs (step 0) { dispatcher := (Dispatcher.pushProblem {} calcData {}).2 }
      [.sendComputableTasks, .updateComputableTasksImpl 2, .updateComputableTasksImpl 1] s ∧
    ∃ s' calcData', step 0 s .sendComputableTasks = some s' ∧
      s'.dispatcher.problemIdToCalculationData[0]? = some calcData' ∧
      calcData'.processedTasksToStatus[3]? = some .processing := by
  refine ⟨_, _, rfl, rfl, ?_⟩
  obtain ⟨hsends, -⟩ :=
    @state_of_replies 0 (.mean "L") _ (Dispatcher.pushProblem {} _ {}).2 rfl rfl
      [.sendComputableTasks, .updateComputableTasksImpl 2, .updateComputableTasksImpl 1] _ rfl
  obtain ⟨s', calcData', hsend, -, hentry, -, hstatus, -⟩ := hsends .ascending
  exact ⟨s', calcData', hsend, hentry, (hstatus 3).trans rfl⟩

end ProblemRun
end TaskDispatch
