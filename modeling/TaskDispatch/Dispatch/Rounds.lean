import Mathlib
import TaskDispatch.Dispatch.ExactlyOnce
import TaskDispatch.Lib.Levels

/-!
# How many passes a problem takes

A pass of `SendComputableTasks` hands out everything that is computable, for all problems. So a
problem takes no more passes than its tree is high: a subtree of height `n` is sent in the `n`-th
pass after the push, if each pass waits for the answers to the one before. No order of passes and
answers has it sent in fewer (`status_iff_height_le`).
-/

set_option autoImplicit false

namespace TaskDispatch

open Proto Frontier Transition ValueNumbering

/-! ## The height of a tree -/

namespace Expr

mutual

/-- The number of operators on the longest way down. -/
def height : Expr → ℕ
  | reduceExpr _ operand => height? operand
  | mapExpr _ lhs rhs | listOpExpr _ lhs rhs | scalarOpExpr _ lhs rhs =>
    max (height? lhs) (height? rhs)
  | listExpr _ | scalarConstExpr _ | scalarVarExpr _ => 0

def height? : Option Expr → ℕ
  | some operand => height operand + 1
  | none => 0

end

variable {e : Expr}

theorem Complete.height_eq_zero_iff (h : e.Complete) : e.height = 0 ↔ e.operands = [] := by
  cases h <;> simp [height, height?, operands, getLhs, getRhs]

theorem Complete.height_le_succ_iff (h : e.Complete) {n : ℕ} :
    e.height ≤ n + 1 ↔ ∀ c ∈ e.operands, c.height ≤ n := by
  cases h <;> simp [height, height?, operands, getLhs, getRhs]

end Expr

/-- **The level of a vertex is the height of its tree.** -/
theorem AST.mem_level {ast : AST} {n : ℕ} {v : VertexDescriptor} {e : Expr}
    (he : ast.numbering.records[v]? = some e) : v ∈ ast.dag.level n ↔ e.height ≤ n := by
  induction n generalizing v e with
  | zero =>
    have hcomplete := AST.complete_of_mem (List.mem_of_getElem? he)
    rw [Nat.le_zero, hcomplete.height_eq_zero_iff]
    show v ∈ ast.dag.vertices ∧ ast.dag.deps v = [] ↔ _
    rw [AST.deps_of_record he, List.map_eq_nil_iff]
    exact and_iff_right (AST.lt_of_record he)
  | succ n ih =>
    have hcomplete := AST.complete_of_mem (List.mem_of_getElem? he)
    have hoperand : ∀ c ∈ e.operands, (ast.numbering.number c ∈ ast.dag.level n ↔ c.height ≤ n) :=
      fun c hc => ih (Numbering.getElem?_number
        (ast.numbering.childrenFirst.mem (List.mem_of_getElem? he) hc))
    rw [hcomplete.height_le_succ_iff]
    show v ∈ ast.dag.vertices ∧ Enabled ast.dag.deps (ast.dag.level n) v ↔ _
    rw [Enabled, AST.deps_of_record he, List.forall_mem_map]
    exact (and_iff_right (AST.lt_of_record he)).trans
      (forall₂_congr fun c hc => hoperand c hc)

/-! ## Passes -/

namespace Exchange

def Action.isPass : Action → Bool
  | .sendComputableTasks _ => true
  | _ => false

/-- The pass comes when nothing of the problem is in process. -/
def Waits (p : ProblemId) (s : Exchange) (a : Action) : Prop :=
  a.isPass → ∀ calcData, s.dispatcher.problemIdToCalculationData[p]? = some calcData →
    calcData.schedule.processing = ∅

variable {s s' : Exchange} {p : ProblemId} {request : AstRequest} {calcData : CalculationData}

/-- What a step does with a problem that is there: a pass sends its computable tasks, an answer
completes one of those in process. -/
theorem Accounted.entry_step {a : Action} {calcData' : CalculationData} (h : Accounted s)
    (hlt : s'.submitted ≤ 2 ^ 32) (hstep : Exchange.step s a = some s') (hp : p < s.submitted)
    (hcd' : s'.dispatcher.problemIdToCalculationData[p]? = some calcData') :
    ∃ calcData, s.dispatcher.problemIdToCalculationData[p]? = some calcData ∧
      ((a.isPass = true ∧ calcData'.schedule = RootedDag.send calcData.schedule) ∨
        a.isPass = false ∧ (calcData' = calcData ∨ ∃ v ∈ calcData.schedule.processing,
          calcData'.schedule.completed = insert v calcData.schedule.completed ∧
          calcData'.schedule.processing = calcData.schedule.processing \ {v})) := by
  cases a with
  | pushProblem request =>
    obtain ⟨_, -, -, -, -, hentries, -⟩ := h.push_spec hlt hstep
    rw [hentries, if_neg hp.ne] at hcd'
    exact ⟨calcData', hcd', .inr ⟨rfl, .inl rfl⟩⟩
  | sendComputableTasks =>
    obtain ⟨_, -, -, -, -, -, -, hentries, -⟩ := h.send_spec hstep
    rw [hentries, Option.map_eq_some_iff] at hcd'
    obtain ⟨calcData, hcd, rfl⟩ := hcd'
    obtain ⟨-, _, _, -, -, hlive⟩ := h.entry hcd
    exact ⟨calcData, hcd, .inl ⟨rfl, hlive.tracks.schedule_markSent⟩⟩
  | updateComputableTasks id =>
    obtain ⟨q, calcData, v, _, _, _, -, -, -, hcd, -, hv, hentries, hcompleted, hprocessing, -, -,
      -, hsub, -⟩ := h.update_spec (by
        obtain ⟨-, _, -, rfl⟩ := step_update.mp hstep
        exact hlt) hstep
    rw [hentries] at hcd'
    split_ifs at hcd' with hpq
    · subst hpq
      obtain rfl := Option.some.inj hcd'
      exact ⟨calcData, hcd, .inr ⟨rfl, .inr ⟨v, hv, hcompleted, hprocessing⟩⟩⟩
    · exact ⟨calcData', hcd', .inr ⟨rfl, .inl rfl⟩⟩
  | clearProblem q =>
    obtain ⟨-, rfl⟩ := step_clear.mp hstep
    simp only [Dispatcher.clearProblem, Std.ExtTreeMap.getElem?_erase] at hcd'
    split_ifs at hcd'
    exact ⟨calcData', hcd', .inr ⟨rfl, .inl rfl⟩⟩

/-- The books of one problem, after `n` passes: what was taken up of it lies on the first `n`
levels, and if all passes have `waited`, it is all of these. -/
structure Paced (p : ProblemId) (request : AstRequest) (waited : Prop) (n : ℕ) (s : Exchange) :
    Prop where
  accounted : Accounted s
  origin_eq : s.origin p = some request
  within : ∀ calcData, s.dispatcher.problemIdToCalculationData[p]? = some calcData →
    Within request.ast.dag calcData.schedule n
  covers : waited → ∀ calcData, s.dispatcher.problemIdToCalculationData[p]? = some calcData →
    Covers request.ast.dag calcData.schedule n

/-- A problem keeps its request. -/
theorem Accounted.origin_step {a : Action} (h : Accounted s) (hlt : s'.submitted ≤ 2 ^ 32)
    (hstep : Exchange.step s a = some s') (hp : s.origin p = some request) :
    s'.origin p = some request := by
  cases a with
  | pushProblem request' =>
    obtain ⟨_, -, -, -, horigin, -⟩ := h.push_spec hlt hstep
    rw [horigin, Function.update_of_ne (h.origin_lt p request hp).ne, hp]
  | sendComputableTasks =>
    obtain ⟨_, _, -, rfl⟩ := step_send.mp hstep
    exact hp
  | updateComputableTasks id =>
    obtain ⟨-, _, -, rfl⟩ := step_update.mp hstep
    exact hp
  | clearProblem q =>
    obtain ⟨-, rfl⟩ := step_clear.mp hstep
    exact hp

theorem Paced.step {a : Action} {waited : Prop} {n : ℕ} (h : Paced p request waited n s)
    (hlt : s'.submitted ≤ 2 ^ 32) (hwaits : waited → Waits p s a)
    (hstep : Exchange.step s a = some s') :
    Paced p request waited (n + a.isPass.toNat) s' := by
  have hp : p < s.submitted := h.accounted.origin_lt p request h.origin_eq
  have hcoherent : ∀ calcData, s.dispatcher.problemIdToCalculationData[p]? = some calcData →
      Coherent request.ast.dag calcData.schedule := by
    intro calcData hcd
    obtain ⟨-, request', _, horigin, -, hlive⟩ := h.accounted.entry hcd
    obtain rfl := Option.some.inj (h.origin_eq.symm.trans horigin)
    exact hlive.tracks.coherent
  refine ⟨h.accounted.step hlt hstep, h.accounted.origin_step hlt hstep h.origin_eq, ?_, ?_⟩
  · intro calcData' hcd'
    obtain ⟨calcData, hcd, ⟨hpass, hschedule⟩ | ⟨hpass, hcases⟩⟩ :=
      h.accounted.entry_step hlt hstep hp hcd'
    · rw [hpass, hschedule]
      exact (h.within calcData hcd).send (hcoherent calcData hcd)
    · rw [hpass]
      rcases hcases with rfl | ⟨v, hv, hcompleted, hprocessing⟩
      · exact h.within calcData' hcd
      · exact (h.within calcData hcd).reply hv hcompleted hprocessing
  · intro hwaited calcData' hcd'
    obtain ⟨calcData, hcd, ⟨hpass, hschedule⟩ | ⟨hpass, hcases⟩⟩ :=
      h.accounted.entry_step hlt hstep hp hcd'
    · rw [hpass, hschedule]
      exact (h.covers hwaited calcData hcd).send (hcoherent calcData hcd)
        (hwaits hwaited hpass calcData hcd)
    · rw [hpass]
      rcases hcases with rfl | ⟨v, -, hcompleted, hprocessing⟩
      · exact h.covers hwaited calcData' hcd
      · exact (h.covers hwaited calcData hcd).reply hcompleted hprocessing

/-- Right after the push -/
theorem Paced.push (waited : Prop) (h : Accounted s) (hlt : s'.submitted ≤ 2 ^ 32)
    (hstep : Exchange.step s (.pushProblem request) = some s') :
    Paced s.submitted request waited 0 s' := by
  obtain ⟨calcData, hnew, -, -, horigin, hentries, -⟩ := h.push_spec hlt hstep
  have hschedule : ∀ calcData',
      s'.dispatcher.problemIdToCalculationData[s.submitted]? = some calcData' →
        calcData'.schedule = request.ast.dag.start := by
    intro calcData' hcd
    rw [hentries, if_pos rfl, Option.some.injEq] at hcd
    rw [← hcd, CalculationData.schedule_new hnew]
  refine ⟨h.step hlt hstep, by rw [horigin, Function.update_self], ?_, ?_⟩
  · intro calcData' hcd
    rw [hschedule calcData' hcd]
    exact Within.start
  · intro _ calcData' hcd
    rw [hschedule calcData' hcd]
    exact Covers.start

theorem Paced.runs {actions : List Action} {waited : Prop} {n : ℕ}
    (h : Paced p request waited n s) (hlt : s'.submitted ≤ 2 ^ 32)
    (hwaits : waited → Meets Exchange.step (Waits p) s actions)
    (hrun : Runs Exchange.step s actions s') :
    Paced p request waited (n + actions.countP Action.isPass) s' := by
  induction actions generalizing s n with
  | nil => exact Runs.nil_iff.mp hrun ▸ h
  | cons a actions ih =>
    obtain ⟨s₁, hstep, hrest⟩ := Runs.cons_iff.mp hrun
    have hlt₁ : s₁.submitted ≤ 2 ^ 32 :=
      hrest.within (P := fun s => s.submitted ≤ 2 ^ 32)
        (fun _ _ _ hstep hb => (submitted_le hstep).trans hb) hlt
    have h₁ := h.step hlt₁ (fun hwaited => (hwaits hwaited).1) hstep
    have hall := ih h₁ (fun hwaited => (hwaits hwaited).2 s₁ hstep) hrest
    rw [List.countP_cons, Nat.add_comm (actions.countP _), ← Nat.add_assoc]
    cases hpass : a.isPass <;> rw [hpass] at hall <;> exact hall

/-- **The pass in which a subtree is sent.** However passes, answers and other problems come in
between, after `n` passes no subtree of a problem has been sent, or completed, that is higher than
`n`; if each pass waits for the answers to the one before, all others have been. So the flag of a
problem is not up before the passes are as many as its tree is high, and in that case, when the last
answers are there, it is. -/
theorem status_iff_height_le {before actions : List Action} {s₀ : Exchange}
    (hbefore : Runs step {} before s₀) (hpush : step s₀ (.pushProblem request) = some s)
    (hrun : Runs step s actions s') (hlt : s'.submitted ≤ 2 ^ 32)
    (hcd : s'.dispatcher.problemIdToCalculationData[s₀.submitted]? = some calcData) :
    (∀ v e, request.ast.numbering.records[v]? = some e →
      v ∈ calcData.processedTasksToStatus → e.height ≤ actions.countP Action.isPass) ∧
    (s'.dispatcher.problemIdToSyncData[s₀.submitted]? = some { isComputed := true } →
      request.ast.root.height ≤ actions.countP Action.isPass) ∧
    (Meets step (Waits s₀.submitted) s actions →
      (∀ v e, request.ast.numbering.records[v]? = some e →
        e.height ≤ actions.countP Action.isPass → v ∈ calcData.processedTasksToStatus) ∧
      (¬request.ast.root.getType.IsLeaf → calcData.schedule.processing = ∅ →
        request.ast.root.height ≤ actions.countP Action.isPass →
          s'.dispatcher.problemIdToSyncData[s₀.submitted]? = some { isComputed := true })) := by
  have hle : s.submitted ≤ s'.submitted :=
    hrun.invariant (I := fun _ t => s.submitted ≤ t.submitted) le_rfl
      fun _ _ _ _ _ h hstep => h.trans (submitted_le hstep)
  have h₀ : Accounted s₀ :=
    .of_runs hbefore ((submitted_le hpush).trans (hle.trans hlt))
  have h := (Paced.push (Meets step (Waits s₀.submitted) s actions) h₀ (hle.trans hlt)
    hpush).runs hlt (fun hwaited => hwaited) hrun
  rw [Nat.zero_add] at h
  have hwithin := h.within calcData hcd
  obtain ⟨-, request', syncData, horigin, hsync, hlive⟩ := h.accounted.entry hcd
  obtain rfl := Option.some.inj (h.origin_eq.symm.trans horigin)
  refine ⟨?_, ?_, ?_⟩
  · intro v e he hstatus
    rw [← AST.mem_level he]
    exact (CalculationData.mem_status.mp hstatus).elim (fun hX => hwithin.2 hX)
      fun hC => hwithin.1 hC
  · intro hflag
    obtain rfl := Option.some.inj (hflag.symm.trans hsync)
    rw [← AST.mem_level AST.record_root]
    exact hwithin.1 (hlive.completed_of_isComputed rfl)
  · intro hwaited
    have hcovers := h.covers hwaited calcData hcd
    refine ⟨?_, ?_⟩
    · intro v e he hheight
      exact CalculationData.mem_status.mpr (hcovers ((AST.mem_level he).mpr hheight)).symm
    · intro hroot hdone hheight
      have hmem := hcovers ((AST.mem_level AST.record_root).mpr hheight)
      rw [hdone, Set.union_empty] at hmem
      rw [hsync, ← hlive.isComputed_of_completed hroot hmem]

/-- The flag of the mean of a list is up after two passes, and its tree is two operators high. -/
theorem status_iff_height_le_mean : ∃ s s' calcData,
    step {} (.pushProblem .mean) = some s ∧ Runs step s ((meanRun.drop 1).take 5) s' ∧
    s'.dispatcher.problemIdToCalculationData[0]? = some calcData ∧
    s'.dispatcher.problemIdToSyncData[0]? = some { isComputed := true } ∧
    AstRequest.mean.ast.root.height ≤ 2 := by
  obtain ⟨s, s', calcData, hpush, hrun, hsubmitted, hcd, hflag⟩ : ∃ s s' calcData,
      step {} (.pushProblem .mean) = some s ∧ Runs step s ((meanRun.drop 1).take 5) s' ∧
      s'.submitted = 1 ∧ s'.dispatcher.problemIdToCalculationData[0]? = some calcData ∧
      s'.dispatcher.problemIdToSyncData[0]? = some { isComputed := true } :=
    ⟨_, _, _, rfl, rfl, rfl, rfl, rfl⟩
  have hlt : s'.submitted ≤ 2 ^ 32 := by
    rw [hsubmitted]
    norm_num
  exact ⟨s, s', calcData, hpush, hrun, hcd, hflag,
    (status_iff_height_le (Runs.refl step {}) hpush hrun hlt hcd).2.1 hflag⟩

end Exchange
end TaskDispatch
