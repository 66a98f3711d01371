import Mathlib
import TaskDispatch.Dispatch.ExactlyOnce

/-!
# No operator problem gets stuck

A problem whose root is an operator always has a task that is computable or in process until its
flag is up, and sending and answering those tasks leads to the flag (`reaches_computed`). A
problem that is a single leaf has neither from the start: its only vertex is completed by
`CalculationData::New`, no task is ever sent, so no reply ever raises the flag. -/

set_option autoImplicit false

namespace TaskDispatch

open Proto Frontier Transition

namespace Exchange

/-- Some task of the problem is computable or in process. -/
def HasOpenTask (d : Dispatcher) (p : ProblemId) : Prop :=
  ∃ (calcData : CalculationData) (v : TaskDispatch.TaskId),
    d.problemIdToCalculationData[p]? = some calcData ∧
      (v ∈ calcData.computableTaskToDependencies ∨
        calcData.processedTasksToStatus[v]? = some .processing)

/-- The flag of the problem is there, and it is up or down. -/
def FlagIs (d : Dispatcher) (p : ProblemId) (isComputed : Bool) : Prop :=
  d.problemIdToSyncData[p]? = some { isComputed }

variable {s s' : Exchange} {p : ProblemId} {request : AstRequest} {calcData : CalculationData}

/-- The data of a problem whose flag is there. -/
theorem Tracked.of_flagIs (h : Tracked s) {b : Bool} (horigin : s.origin p = some request)
    (hflag : FlagIs s.dispatcher p b) :
    ∃ calcData, s.dispatcher.problemIdToCalculationData[p]? = some calcData ∧
      Live request { isComputed := b } calcData := by
  have hmem : p ∈ s.dispatcher.problemIdToSyncData :=
    (Std.ExtTreeMap.getElem?_eq_some_iff.mp hflag).1
  have hcd := Std.ExtTreeMap.getElem?_eq_some_getElem (h.sync_subset p hmem)
  obtain ⟨request', syncData, horigin', hsync, hlive⟩ := h.entry p _ hcd
  obtain rfl := Option.some.inj (horigin.symm.trans horigin')
  obtain rfl := Option.some.inj (hflag.symm.trans hsync)
  exact ⟨_, hcd, hlive⟩

theorem Live.root_notMem (h : Live request { isComputed := false } calcData)
    (hroot : ¬request.ast.root.getType.IsLeaf) :
    request.ast.dag.root ∉ calcData.schedule.completed :=
  fun hmem => by simpa using h.isComputed_of_completed hroot hmem

/-- While the flag of an operator problem is down, it has an open task. -/
theorem Tracked.hasOpenTask (h : Tracked s) (horigin : s.origin p = some request)
    (hflag : FlagIs s.dispatcher p false) (hroot : ¬request.ast.root.getType.IsLeaf) :
    HasOpenTask s.dispatcher p := by
  obtain ⟨calcData, hcd, hlive⟩ := h.of_flagIs horigin hflag
  obtain ⟨v, hv⟩ := hlive.tracks.coherent.exists_open (hlive.root_notMem hroot)
  exact ⟨calcData, v, hcd, hv⟩

/-! ## The way to the flag -/

/-- What is left to complete. -/
noncomputable def remaining (request : AstRequest) (calcData : CalculationData) : ℕ :=
  {v | v < request.ast.vertexCount ∧ v ∉ calcData.schedule.completed}.ncard

theorem remaining_lt {calcData' : CalculationData} {v : TaskDispatch.TaskId}
    (hv : v < request.ast.vertexCount) (hnot : v ∉ calcData.schedule.completed)
    (hinsert : calcData'.schedule.completed = insert v calcData.schedule.completed) :
    remaining request calcData' < remaining request calcData := by
  refine Set.ncard_lt_ncard ?_ ((Set.finite_lt_nat request.ast.vertexCount).subset fun _ h => h.1)
  rw [hinsert]
  refine ⟨fun u hu => ⟨hu.1, fun hmem => hu.2 (.inr hmem)⟩, ?_⟩
  intro hsub
  exact (hsub ⟨hv, hnot⟩).2 (.inl rfl)

/-- The same problems, under the same ids. -/
structure SameProblems (s s' : Exchange) : Prop where
  submitted_eq : s'.submitted = s.submitted
  origin_eq : s'.origin = s.origin
  mem_iff : ∀ p : ProblemId, p ∈ s'.dispatcher.problemIdToCalculationData ↔
    p ∈ s.dispatcher.problemIdToCalculationData

theorem SameProblems.refl (s : Exchange) : SameProblems s s := ⟨rfl, rfl, fun _ => Iff.rfl⟩

theorem SameProblems.trans {s'' : Exchange} (h : SameProblems s s') (h' : SameProblems s' s'') :
    SameProblems s s'' where
  submitted_eq := h'.submitted_eq.trans h.submitted_eq
  origin_eq := h'.origin_eq.trans h.origin_eq
  mem_iff p := (h'.mem_iff p).trans (h.mem_iff p)

theorem Accounted.sameProblems_send {order : PassOrder} (h : Accounted s)
    (hstep : Exchange.step s (.sendComputableTasks order) = some s') : SameProblems s s' := by
  obtain ⟨tasks, -, -, -, hsub, -, horigin, hentries, -⟩ := h.send_spec hstep
  refine ⟨hsub, horigin, ?_⟩
  intro p
  rw [Std.ExtTreeMap.mem_iff_isSome_getElem?, hentries, Option.isSome_map,
    ← Std.ExtTreeMap.mem_iff_isSome_getElem?]

theorem Accounted.sameProblems_update {id : Proto.TaskId} (h : Accounted s)
    (hlt : s.submitted ≤ 2 ^ 32)
    (hstep : Exchange.step s (.updateComputableTasks id) = some s') : SameProblems s s' := by
  obtain ⟨p, calcData, -, -, -, calcData', -, -, -, hcd, -, -, hentries, -, -, -, -, horigin, hsub,
    -⟩ := h.update_spec hlt hstep
  refine ⟨hsub, horigin, ?_⟩
  intro q
  rw [Std.ExtTreeMap.mem_iff_isSome_getElem?, hentries]
  split_ifs with hq
  · subst hq
    exact iff_of_true rfl (Std.ExtTreeMap.getElem?_eq_some_iff.mp hcd).1
  · exact Std.ExtTreeMap.mem_iff_isSome_getElem?.symm

/-- One round: everything computable is sent, and some task of the problem is answered. -/
theorem Accounted.round (h : Accounted s) (hlt : s.submitted ≤ 2 ^ 32)
    (horigin : s.origin p = some request) {b : Bool}
    (hcd : s.dispatcher.problemIdToCalculationData[p]? = some calcData)
    (hlive : Live request { isComputed := b } calcData)
    (hroot : request.ast.dag.root ∉ calcData.schedule.completed) :
    ∃ actions s' calcData', Runs Exchange.step s actions s' ∧ Accounted s' ∧ SameProblems s s' ∧
      s'.dispatcher.problemIdToCalculationData[p]? = some calcData' ∧
      remaining request calcData' < remaining request calcData := by
  obtain ⟨s₁, hsend⟩ : ∃ s₁, Exchange.step s .sendComputableTasks = some s₁ :=
    ⟨_, step_send.mpr ⟨_, _, Dispatcher.sendComputableTasks_eq _ _, rfl⟩⟩
  have h₁ : Accounted s₁ := h.send hlt hsend
  have hsame : SameProblems s s₁ := h.sameProblems_send hsend
  obtain ⟨tasks, -, -, -, -, -, -, hentries, -⟩ := h.send_spec hsend
  rw [← hsame.submitted_eq] at hlt
  have hcd₁ : s₁.dispatcher.problemIdToCalculationData[p]? = some calcData.markSent := by
    rw [hentries, hcd]
    rfl
  -- while the root is open, some task has all its operands completed, and it is in flight now
  obtain ⟨v, hv⟩ := request.ast.dag.frontier_nonempty hroot
  rw [← hlive.tracks.coherent.processing_send, ← hlive.tracks.schedule_markSent] at hv
  have hid : TaskId.mk' p v ∈ s₁.inFlight := (h₁.mem_inFlight _).mpr ⟨p, _, v, hcd₁, hv, rfl⟩
  obtain ⟨s₂, hupdate⟩ := h₁.update_returns hlt hid
  -- its answer completes it
  obtain ⟨q, calcData₁, u, request', syncData, calcData', heq, -, hq, hcd₁', hlive₁, hu, hentries₂,
    hcompleted, -⟩ := h₁.update_spec hlt hupdate
  have hv' := hlive.markSent.tracks.coherent.processing_subset hv
  obtain ⟨rfl, rfl⟩ := (h₁.mk'_inj hlt (hsame.origin_eq ▸ horigin) hv'.1 hq
    (hlive₁.tracks.coherent.processing_subset hu).1).mp heq
  obtain rfl := Option.some.inj (hcd₁.symm.trans hcd₁')
  refine ⟨[.sendComputableTasks, .updateComputableTasks (.mk' p v)], s₂, calcData',
    (Runs.single hsend).trans (Runs.single hupdate), h₁.update hlt hupdate,
    hsame.trans (h₁.sameProblems_update hlt hupdate), by rw [hentries₂, if_pos rfl], ?_⟩
  have hmarkSent : calcData.markSent.schedule.completed = calcData.schedule.completed := by
    rw [hlive.tracks.schedule_markSent, RootedDag.send]
  rw [hmarkSent] at hcompleted hv'
  exact remaining_lt hv'.1 hv'.2.1 hcompleted

/-- **Sending and answering raises the flag** of an operator problem, by induction on what is left
to complete. -/
theorem Accounted.reaches_computed (hroot : ¬request.ast.root.getType.IsLeaf) (h : Accounted s)
    (hlt : s.submitted ≤ 2 ^ 32) (horigin : s.origin p = some request)
    (hcd : s.dispatcher.problemIdToCalculationData[p]? = some calcData) :
    ∃ actions s', Runs Exchange.step s actions s' ∧ Accounted s' ∧ SameProblems s s' ∧
      FlagIs s'.dispatcher p true := by
  induction hn : remaining request calcData using Nat.strong_induction_on
    generalizing s calcData with
  | _ n ih =>
    obtain ⟨-, request', ⟨b⟩, horigin', hsync, hlive⟩ := h.entry hcd
    obtain rfl := Option.some.inj (horigin.symm.trans horigin')
    by_cases hmem : request.ast.dag.root ∈ calcData.schedule.completed
    · refine ⟨[], s, Runs.refl _ _, h, .refl s, ?_⟩
      have hup : b = true := hlive.isComputed_of_completed hroot hmem
      rw [FlagIs, hsync, hup]
    · obtain ⟨actions, s', calcData', hrun, h', hsame, hcd', hless⟩ :=
        h.round hlt horigin hcd hlive hmem
      obtain ⟨actions', s'', hrun', h'', hsame', hflag⟩ := ih _ (hn ▸ hless) h'
        (hsame.submitted_eq ▸ hlt) (hsame.origin_eq ▸ horigin) hcd' rfl
      exact ⟨actions ++ actions', s'', hrun.trans hrun', h'', hsame.trans hsame', hflag⟩

/-! ## Which problems never get stuck -/

/-- In every reachable state in which a problem pushed for this request waits for its flag, it has
an open task, and (while the ids on the wire tell the problems apart) a continuation of the run
raises the flag. -/
def NeverStuck (request : AstRequest) : Prop :=
  ∀ actions s p, Runs step {} actions s → s.origin p = some request →
    FlagIs s.dispatcher p false →
    HasOpenTask s.dispatcher p ∧ (s.submitted < 2 ^ 32 →
      ∃ actions' s', Runs step s actions' s' ∧ FlagIs s'.dispatcher p true)

/-- A problem that is a leaf has no open task right after the push. -/
theorem not_hasOpenTask_of_leaf (hnew : CalculationData.new request.ast = .ok calcData)
    (hleaf : request.ast.root.getType.IsLeaf) :
    ¬∃ v, v ∈ calcData.schedule.computable ∨ v ∈ calcData.schedule.processing := by
  have hschedule := CalculationData.schedule_new hnew
  have hcoherent := Coherent.start request.ast.dag
  have hroot : request.ast.dag.root ∈ request.ast.dag.start.completed :=
    ⟨request.ast.dag.root_mem, AST.deps_root_eq_nil_iff.mpr hleaf⟩
  have hall := request.ast.dag.vertices_subset hcoherent.completed_closed hroot
  rw [hschedule]
  rintro ⟨v, hv | hv⟩
  · rw [hcoherent.computable_eq] at hv
    exact hv.2.1 (hall hv.1)
  · exact hv

/-- **A problem never gets stuck exactly when its root is an operator.** -/
theorem neverStuck_iff {request : AstRequest} {calcData : CalculationData}
    (hnew : CalculationData.new request.ast = .ok calcData) :
    NeverStuck request ↔ ¬request.ast.root.getType.IsLeaf := by
  constructor
  · intro hstuck hleaf
    have hpush : step {} (.pushProblem request) = some _ := step_push.mpr ⟨calcData, hnew, rfl⟩
    have hmaps : (Dispatcher.pushProblem {} calcData {}).2.problemIdToCalculationData[0]? =
          some calcData ∧
        (Dispatcher.pushProblem {} calcData {}).2.problemIdToSyncData[0]? =
          some { isComputed := false } :=
      Tracked.init.pushProblem_of_notMem calcData (by simp) 0
    obtain ⟨⟨calcData', v, hcd, hv⟩, -⟩ := hstuck _ _ 0 (Runs.single hpush) (by simp) hmaps.2
    obtain rfl := Option.some.inj (hmaps.1.symm.trans hcd)
    exact not_hasOpenTask_of_leaf hnew hleaf ⟨v, hv⟩
  · intro hroot actions s p hrun horigin hflag
    have htracked := Tracked.of_runs hrun
    refine ⟨htracked.hasOpenTask horigin hflag hroot, ?_⟩
    intro hlt
    obtain ⟨calcData', hcd, -⟩ := htracked.of_flagIs horigin hflag
    obtain ⟨actions', s', hrun', -, -, hflag'⟩ :=
      (Accounted.of_runs hrun hlt.le).reaches_computed hroot hlt.le horigin hcd
    exact ⟨actions', s', hrun', hflag'⟩

/-- The mean of a list never gets stuck. -/
theorem neverStuck_mean : NeverStuck .mean :=
  (neverStuck_iff rfl).mpr (by decide)

/-- A request for a list as it is. -/
def singleList : AstRequest := ⟨⟨.listExpr "L", .listExpr⟩, by decide⟩

/-- The request for a list is accepted, waits for its flag, and has no open task. -/
theorem singleList_stuck : ∃ calcData s, CalculationData.new singleList.ast = .ok calcData ∧
    Runs step {} [.pushProblem singleList] s ∧ s.origin 0 = some singleList ∧
    FlagIs s.dispatcher 0 false ∧ ¬HasOpenTask s.dispatcher 0 := by
  refine ⟨_, _, rfl, rfl, rfl, rfl, ?_⟩
  rintro ⟨calcData, v, hcd, hv⟩
  obtain rfl := Option.some.inj (hcd : some _ = some calcData)
  exact @not_hasOpenTask_of_leaf singleList _ rfl (by decide) ⟨v, hv⟩

end Exchange
end TaskDispatch
