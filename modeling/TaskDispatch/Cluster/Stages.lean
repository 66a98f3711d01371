import Mathlib
import TaskDispatch.Cluster.Results

/-!
# What a run costs

Every step but the submissions, the passes of the dispatcher and the ends of processes takes
something one stage further, and how many stages are left is known beforehand: a task has seven at
most, a call three. So the stages done and the stages left add up to a sum that does not depend on
the order of the steps (`steps_add_remaining`). In a run in which every call has returned, that sum,
and the requests that were sent, are told by the trees alone (`complete_run`).
-/

set_option autoImplicit false

namespace TaskDispatch

open Proto Frontier Transition

/-- The steps a task takes from the broker to its answer, and the handling of the answer. -/
def Proto.Task.cost (task : Task) : ℕ := task.operands.length + 5

/-- The steps that are left of a job and its answer. -/
def Job.remaining (job : Job) : ℕ :=
  match job.stage with
  | .extracting operands => job.task.task.operands.length - operands.length + 4
  | .calculated _ => 3
  | .written => 2

/-- The steps that are left of a call. Of one that threw the clearing is left, and never made. -/
def Phase.remaining : Phase → ℕ
  | .waiting => 3
  | .cleared => 2
  | .read _ | .threw _ => 1
  | .returned _ => 0

/-- A sum over a list in which one entry changes -/
theorem sum_map_modify {α : Type} {l : List α} {i : ℕ} {a : α} (f : α → α) (g : α → ℕ)
    (ha : l[i]? = some a) : ((l.modify i f).map g).sum + g a = (l.map g).sum + g (f a) := by
  induction l generalizing i with
  | nil => simp at ha
  | cons b l ih =>
    cases i with
    | zero =>
      obtain rfl : b = a := by simpa using ha
      simp
      omega
    | succ i =>
      have := ih (i := i) (by simpa using ha)
      simp
      omega

/-- An operator has two operands at most. -/
theorem AST.length_deps_le {ast : AST} {v : VertexDescriptor} (hv : v < ast.vertexCount) :
    (ast.dag.deps v).length ≤ 2 := by
  obtain ⟨e, he⟩ := AST.exists_record hv
  have hone (o : Option Expr) : o.toList.length ≤ 1 := by cases o <;> simp
  rw [AST.deps_of_record he, List.length_map, Expr.operands, List.length_append]
  exact Nat.add_le_add (hone _) (hone _)

namespace Cluster

/-! ## What is left -/

/-- The steps that are left of what is under way. -/
def remaining (s : Cluster) : ℕ :=
  (s.calls.map fun call => call.phase.remaining).sum + (s.requests.map fun t => t.cost).sum
    + (s.jobs.map fun job => job.remaining).sum + s.replies.card

/-- Neither a submission, nor a pass of the dispatcher, nor the end of a process. -/
def Action.isStage : Action → Bool
  | .calculateProblem _ | .sendComputableTasks _ | .terminate _ => false
  | _ => true

section Steps

variable {s s' : Cluster} {job : Job} {i : ℕ} {call : Call}

theorem remaining_advance (stage : Stage) (hjob : job ∈ s.jobs) :
    (s.advance job stage).remaining + job.remaining =
      s.remaining + Job.remaining { job with stage } := by
  obtain ⟨rest, hrest⟩ := Multiset.exists_cons_of_mem hjob
  simp only [remaining, advance, hrest, Multiset.erase_cons_head, Multiset.map_cons,
    Multiset.sum_cons]
  omega

theorem remaining_setPhase (phase : Phase) (hcall : s.calls[i]? = some call) :
    (s.setPhase i phase).remaining + call.phase.remaining = s.remaining + phase.remaining := by
  have hsum := sum_map_modify (fun call => { call with phase })
    (fun call : Call => call.phase.remaining) hcall
  simp only [remaining, setPhase] at hsum ⊢
  omega

/-- **A stage is one step less.** -/
theorem remaining_stage {a : Action} (hstage : a.isStage) (hstep : step s a = some s') :
    s'.remaining + 1 = s.remaining ∧ s'.calls.length = s.calls.length ∧ s'.sent = s.sent := by
  cases a with
  | calculateProblem request => cases hstage
  | sendComputableTasks => cases hstage
  | terminate identity => cases hstage
  | relay identity task =>
    obtain ⟨htask, rfl⟩ := step_relay.mp hstep
    obtain ⟨rest, hrest⟩ := Multiset.exists_cons_of_mem htask
    refine ⟨?_, rfl, rfl⟩
    simp only [remaining, hrest, Multiset.erase_cons_head, Multiset.map_cons, Multiset.sum_cons,
      Task.cost, Job.remaining, List.length_nil]
    omega
  | readOperand job =>
    obtain ⟨operands, operand, r, hjobStage, ⟨hjob, -⟩, hoperand, -, rfl⟩ :=
      step_readOperand.mp hstep
    refine ⟨?_, rfl, rfl⟩
    have hsum := remaining_advance (.extracting (operands ++ [r])) hjob
    have hlt := (List.getElem?_eq_some_iff.mp hoperand).1
    simp only [Job.remaining, hjobStage, List.length_append, List.length_singleton] at hsum
    omega
  | calculate job =>
    obtain ⟨operands, r, hjobStage, ⟨hjob, -⟩, hlength, -, rfl⟩ := step_calculate.mp hstep
    refine ⟨?_, rfl, rfl⟩
    have hsum := remaining_advance (.calculated r) hjob
    simp only [Job.remaining, hjobStage] at hsum
    omega
  | writeDynamicData job =>
    obtain ⟨r, hjobStage, ⟨hjob, -⟩, rfl⟩ := step_writeDynamicData.mp hstep
    refine ⟨?_, rfl, rfl⟩
    have hsum := remaining_advance .written hjob
    simp only [Job.remaining, hjobStage] at hsum
    exact Nat.add_right_cancel (m := 2) hsum
  | reply job =>
    obtain ⟨⟨hjob, -⟩, hjobStage, rfl⟩ := step_reply.mp hstep
    obtain ⟨rest, hrest⟩ := Multiset.exists_cons_of_mem hjob
    refine ⟨?_, rfl, rfl⟩
    simp only [remaining, hrest, Multiset.erase_cons_head, Multiset.map_cons, Multiset.sum_cons,
      Job.remaining, hjobStage, Multiset.card_cons]
    omega
  | updateComputableTasks id =>
    obtain ⟨hid, _, -, rfl⟩ := step_updateComputableTasks.mp hstep
    refine ⟨?_, rfl, rfl⟩
    have hcard := Multiset.card_erase_add_one hid
    simp only [remaining]
    omega
  | clearProblem i =>
    obtain ⟨call, hcall, hphase, -, rfl⟩ := step_clearProblem.mp hstep
    refine ⟨?_, length_setPhase, rfl⟩
    have hsum := remaining_setPhase .cleared hcall
    rw [hphase] at hsum
    exact Nat.add_right_cancel (m := 2) hsum
  | readData i =>
    obtain ⟨call, hcall, hphase, ⟨r, -, rfl⟩ | ⟨fault, -, rfl⟩⟩ := step_readData.mp hstep
    · refine ⟨?_, length_setPhase, rfl⟩
      have hsum := remaining_setPhase (.read r) hcall
      rw [hphase] at hsum
      exact Nat.add_right_cancel (m := 1) hsum
    · refine ⟨?_, length_setPhase, rfl⟩
      have hsum := remaining_setPhase (.threw fault) hcall
      rw [hphase] at hsum
      exact Nat.add_right_cancel (m := 1) hsum
  | clearIntermediateCalculations i =>
    obtain ⟨call, r, hcall, hphase, rfl⟩ := step_clearIntermediateCalculations.mp hstep
    refine ⟨?_, length_setPhase, rfl⟩
    have hsum := remaining_setPhase (.returned r) hcall
    rw [hphase] at hsum
    exact hsum

/-- A pass brings in the stages of the tasks it sends. -/
theorem remaining_send {tasks : List Task} {dispatcher : Dispatcher} :
    remaining { s with dispatcher, requests := s.requests + tasks, sent := s.sent ++ tasks } =
      s.remaining + (tasks.map fun t => t.cost).sum := by
  simp only [remaining, Multiset.map_add, Multiset.sum_add, Multiset.map_coe, Multiset.sum_coe]
  omega

/-- **The stages of a run.** Those done and those left are those of the calls and of the tasks sent,
in whatever order things happen. -/
theorem steps_add_remaining {db : Database} {actions : List Action}
    (hrun : Runs step (start db) actions s) :
    actions.countP Action.isStage + s.remaining =
      3 * s.calls.length + (s.sent.map fun t => t.cost).sum := by
  refine hrun.invariant (I := fun actions s => actions.countP Action.isStage + s.remaining =
    3 * s.calls.length + (s.sent.map fun t => t.cost).sum) rfl ?_
  intro actions s a s' _ h hstep
  rw [List.countP_append, List.countP_singleton]
  cases hstage : a.isStage with
  | true =>
    obtain ⟨hremaining, hlength, hsent⟩ := remaining_stage hstage hstep
    rw [hlength, hsent, if_pos rfl]
    omega
  | false =>
    cases a with
    | calculateProblem request =>
      rcases step_calculateProblem.mp hstep with ⟨_, -, rfl⟩ | ⟨_, -, rfl⟩
      · simpa using h
      · simp only [remaining, List.map_append, List.sum_append, List.length_append,
          List.map_singleton, List.sum_singleton, List.length_singleton, Phase.remaining] at h ⊢
        simp
        omega
    | sendComputableTasks =>
      obtain ⟨tasks, dispatcher, -, rfl⟩ := step_sendComputableTasks.mp hstep
      rw [remaining_send, List.map_append, List.sum_append]
      simp
      omega
    | terminate identity =>
      obtain rfl := step_terminate.mp hstep
      simpa [remaining] using h
    | _ => cases hstage

/-! ## What is to be sent -/

/-- The requests for the operators of the tree with this id. -/
noncomputable def operatorRequestsOf (s : Cluster) (p : ProblemId) : List Task :=
  (s.origin p).elim [] fun request =>
    ((List.range request.ast.vertexCount).filter fun v => request.ast.dag.deps v ≠ []).map
      (request.ast.taskRequest p)

/-- The requests for the operators of all submitted trees. -/
noncomputable def operatorRequests (s : Cluster) : List Task :=
  (List.range s.calls.length).flatMap s.operatorRequestsOf

theorem mem_operatorRequestsOf {t : Task} {p : ProblemId} : t ∈ s.operatorRequestsOf p ↔
    ∃ request v, OperatorOf s.origin p request v ∧ t = request.ast.taskRequest p v := by
  rw [operatorRequestsOf]
  constructor
  · intro ht
    cases horigin : s.origin p with
    | none => simp [horigin] at ht
    | some request =>
      rw [horigin] at ht
      obtain ⟨v, hv, rfl⟩ := List.mem_map.mp ht
      rw [List.mem_filter, List.mem_range, decide_eq_true_iff] at hv
      exact ⟨request, v, ⟨horigin, hv.1, hv.2⟩, rfl⟩
  · rintro ⟨request, v, hop, rfl⟩
    rw [hop.origin_eq]
    refine List.mem_map_of_mem (List.mem_filter.mpr ⟨List.mem_range.mpr hop.lt, ?_⟩)
    exact decide_eq_true hop.deps

theorem mem_operatorRequests {t : Task} : t ∈ s.operatorRequests ↔
    ∃ p request v, OperatorOf s.origin p request v ∧ t = request.ast.taskRequest p v := by
  simp only [operatorRequests, List.mem_flatMap, List.mem_range, mem_operatorRequestsOf]
  constructor
  · rintro ⟨p, -, request, v, h⟩
    exact ⟨p, request, v, h⟩
  · rintro ⟨p, request, v, hop, ht⟩
    exact ⟨p, Sound.lt_length hop.origin_eq, request, v, hop, ht⟩

/-- No two of them have the same id. -/
theorem nodup_operatorRequests (h : s.exchange.Accounted) (hlt : s.calls.length < 2 ^ 32) :
    (s.operatorRequests.map (·.id)).Nodup := by
  have hinj : ∀ {p q request request' v u}, OperatorOf s.origin p request v →
      OperatorOf s.origin q request' u →
        (request.ast.taskRequest p v).id = (request'.ast.taskRequest q u).id → p = q ∧ v = u :=
    fun hop hop' => (h.mk'_inj hlt.le hop.origin_eq hop.lt hop'.origin_eq hop'.lt).mp
  rw [operatorRequests, List.map_flatMap, List.nodup_flatMap]
  constructor
  · intro p _
    refine List.Nodup.map_on ?_ ?_
    · intro t ht t' ht' heq
      obtain ⟨request, v, hop, rfl⟩ := mem_operatorRequestsOf.mp ht
      obtain ⟨request', u, hop', rfl⟩ := mem_operatorRequestsOf.mp ht'
      obtain rfl := Option.some.inj (hop.origin_eq.symm.trans hop'.origin_eq)
      rw [(hinj hop hop' heq).2]
    · cases horigin : s.origin p with
      | none => simp [operatorRequestsOf, horigin]
      | some request =>
        rw [operatorRequestsOf, horigin]
        refine List.Nodup.map_on ?_ (List.nodup_range.filter _)
        intro v hv u hu heq
        have hv := List.mem_range.mp (List.mem_of_mem_filter hv)
        have hu := List.mem_range.mp (List.mem_of_mem_filter hu)
        exact ((h.mk'_inj hlt.le horigin hv horigin hu).mp (congrArg Task.id heq)).2
  · refine List.pairwise_lt_range.imp ?_
    intro p q hpq id hp hq
    -- an id in both would have two problem ids
    obtain ⟨t, ht, rfl⟩ := List.mem_map.mp hp
    obtain ⟨t', ht', heq⟩ := List.mem_map.mp hq
    obtain ⟨request, v, hop, rfl⟩ := mem_operatorRequestsOf.mp ht
    obtain ⟨request', u, hop', rfl⟩ := mem_operatorRequestsOf.mp ht'
    exact hpq.ne (hinj hop' hop heq).1.symm

/-- What is sent is for an operator of a submitted tree, and a call that waits no longer has an
operator at its root and has had all its operators sent. -/
structure Sends (s : Cluster) : Prop where
  sent : ∀ t ∈ s.sent, t ∈ s.operatorRequests
  call : ∀ p call, s.calls[p]? = some call → call.phase ≠ .waiting →
    call.request.ast.dag.deps call.request.ast.dag.root ≠ [] ∧
      ∀ t ∈ s.operatorRequestsOf p, t ∈ s.sent

/-- What a step adds to the requests sent. -/
theorem sent_step {a : Action} (hstep : step s a = some s') :
    ∃ tasks : List Task, s'.sent = s.sent ++ tasks ∧ ∀ t ∈ tasks, t ∈ s'.requests := by
  cases hstage : a.isStage with
  | true =>
    obtain ⟨-, -, hsent⟩ := remaining_stage hstage hstep
    exact ⟨[], by rw [hsent, List.append_nil], nofun⟩
  | false =>
    cases a with
    | calculateProblem request =>
      rcases step_calculateProblem.mp hstep with ⟨_, -, rfl⟩ | ⟨_, -, rfl⟩
      · exact ⟨[], (List.append_nil _).symm, nofun⟩
      · exact ⟨[], (List.append_nil _).symm, nofun⟩
    | sendComputableTasks =>
      obtain ⟨tasks, dispatcher, -, rfl⟩ := step_sendComputableTasks.mp hstep
      exact ⟨tasks, rfl, fun t ht => Multiset.mem_add.mpr (.inr (Multiset.mem_coe.mpr ht))⟩
    | terminate identity =>
      obtain rfl := step_terminate.mp hstep
      exact ⟨[], (List.append_nil _).symm, nofun⟩
    | _ => cases hstage

/-- A call that waits no longer did so before the step, unless the step was its erasure. -/
theorem call_step {a : Action} (hstep : step s a = some s') {p : ℕ}
    (hcall : s'.calls[p]? = some call) (hphase : call.phase ≠ .waiting) :
    ∃ call₀, s.calls[p]? = some call₀ ∧ call₀.request = call.request ∧
      (call₀.phase ≠ .waiting ∨ a = .clearProblem p) := by
  have hsetPhase : ∀ {i call₀ phase}, s.calls[i]? = some call₀ →
      (s.setPhase i phase).calls[p]? = some call → (call₀.phase ≠ .waiting ∨ a = .clearProblem i) →
        ∃ call₀, s.calls[p]? = some call₀ ∧ call₀.request = call.request ∧
          (call₀.phase ≠ .waiting ∨ a = .clearProblem p) := by
    intro i call₀ phase hcall₀ hmoved hwaits
    rcases of_getElem?_setPhase hcall₀ hmoved with ⟨rfl, rfl⟩ | ⟨-, hold⟩
    · exact ⟨call₀, hcall₀, rfl, hwaits⟩
    · exact ⟨call, hold, rfl, .inl hphase⟩
  cases a with
  | calculateProblem request =>
    rcases step_calculateProblem.mp hstep with ⟨_, -, rfl⟩ | ⟨_, -, rfl⟩
    · exact ⟨call, hcall, rfl, .inl hphase⟩
    · rw [List.getElem?_append] at hcall
      split_ifs at hcall
      · exact ⟨call, hcall, rfl, .inl hphase⟩
      · -- the new call waits
        rw [List.getElem?_singleton] at hcall
        split_ifs at hcall
        obtain rfl := Option.some.inj hcall
        exact absurd rfl hphase
  | sendComputableTasks =>
    obtain ⟨_, _, -, rfl⟩ := step_sendComputableTasks.mp hstep
    exact ⟨call, hcall, rfl, .inl hphase⟩
  | relay identity task =>
    obtain ⟨-, rfl⟩ := step_relay.mp hstep
    exact ⟨call, hcall, rfl, .inl hphase⟩
  | readOperand job =>
    obtain ⟨_, _, _, -, -, -, -, rfl⟩ := step_readOperand.mp hstep
    exact ⟨call, hcall, rfl, .inl hphase⟩
  | calculate job =>
    obtain ⟨_, _, -, -, -, -, rfl⟩ := step_calculate.mp hstep
    exact ⟨call, hcall, rfl, .inl hphase⟩
  | writeDynamicData job =>
    obtain ⟨_, -, -, rfl⟩ := step_writeDynamicData.mp hstep
    exact ⟨call, hcall, rfl, .inl hphase⟩
  | reply job =>
    obtain ⟨-, -, rfl⟩ := step_reply.mp hstep
    exact ⟨call, hcall, rfl, .inl hphase⟩
  | terminate identity =>
    obtain rfl := step_terminate.mp hstep
    exact ⟨call, hcall, rfl, .inl hphase⟩
  | updateComputableTasks id =>
    obtain ⟨-, _, -, rfl⟩ := step_updateComputableTasks.mp hstep
    exact ⟨call, hcall, rfl, .inl hphase⟩
  | clearProblem i =>
    obtain ⟨call₀, hcall₀, -, -, rfl⟩ := step_clearProblem.mp hstep
    exact hsetPhase hcall₀ hcall (.inr rfl)
  | readData i =>
    obtain ⟨call₀, hcall₀, hcleared, ⟨_, -, rfl⟩ | ⟨_, -, rfl⟩⟩ := step_readData.mp hstep
    · exact hsetPhase hcall₀ hcall (.inl (by simp [hcleared]))
    · exact hsetPhase hcall₀ hcall (.inl (by simp [hcleared]))
  | clearIntermediateCalculations i =>
    obtain ⟨call₀, _, hcall₀, hread, rfl⟩ := step_clearIntermediateCalculations.mp hstep
    exact hsetPhase hcall₀ hcall (.inl (by simp [hread]))

namespace Sends

variable {db : Database}

theorem init (db : Database) : Sends (start db) where
  sent := by simp [start]
  call := by simp [start]

/-- When the flag of a call is up, its operators have all been sent. -/
theorem of_flag (h : Sends s) (hsound : Sound db s) (hlt : s.calls.length < 2 ^ 32)
    (hcall : s.calls[i]? = some call) (hphase : call.phase = .waiting)
    (hflag : s.dispatcher.problemIdToSyncData[call.problemId]? = some { isComputed := true }) :
    call.request.ast.dag.deps call.request.ast.dag.root ≠ [] ∧
      ∀ t ∈ s.operatorRequestsOf i, t ∈ s.sent := by
  obtain ⟨hid, -, hwaiting⟩ := hsound.call i call hcall
  rw [hid] at hflag
  have horigin : s.origin i = some call.request := by
    rw [origin, hcall]
    rfl
  have hcd := Std.ExtTreeMap.getElem?_eq_some_getElem (hwaiting.mp hphase)
  obtain ⟨-, request, syncData, horigin', hsync, hlive⟩ := hsound.accounted.entry hcd
  obtain rfl := Option.some.inj (horigin.symm.trans horigin')
  obtain rfl := Option.some.inj (hflag.symm.trans hsync)
  refine ⟨hsound.accounted.flag i _ horigin hflag, ?_⟩
  intro t ht
  obtain ⟨_, v, hop, rfl⟩ := mem_operatorRequestsOf.mp ht
  obtain rfl := Option.some.inj (horigin.symm.trans hop.origin_eq)
  -- completed, so it has a status, so a request with its id was sent
  have hstatus := CalculationData.mem_status.mpr (.inr ((hlive.all_completed rfl).1 v hop.lt))
  obtain ⟨t, ht, hid⟩ := List.mem_map.mp
    ((hsound.accounted.sent_iff i _ _ hcd horigin v hop.lt).mpr ⟨hop.deps, hstatus⟩)
  obtain ⟨q, request, u, hop', rfl⟩ := mem_operatorRequests.mp (h.sent t ht)
  obtain ⟨rfl, rfl⟩ :=
    (hsound.accounted.mk'_inj hlt.le hop'.origin_eq hop'.lt horigin hop.lt).mp hid
  obtain rfl := Option.some.inj (horigin.symm.trans hop'.origin_eq)
  exact ht

theorem step {a : Action} (h : Sends s) (hsound : Sound db s) (hsound' : Sound db s')
    (hlt : s'.calls.length < 2 ^ 32) (hstep : Cluster.step s a = some s') : Sends s' := by
  obtain ⟨hle, horigin⟩ := origin_step hstep
  obtain ⟨tasks, hsent, htasks⟩ := sent_step hstep
  constructor
  · intro t ht
    rw [hsent, List.mem_append] at ht
    rw [mem_operatorRequests]
    rcases ht with hold | hnew
    · obtain ⟨p, request, v, hop, rfl⟩ := mem_operatorRequests.mp (h.sent t hold)
      exact ⟨p, request, v, hop.mono horigin, rfl⟩
    · exact hsound'.request t (htasks t hnew)
  · intro p call hcall hphase
    obtain ⟨call₀, hcall₀, hrequest, hwaits⟩ := call_step hstep hcall hphase
    have hdone : call₀.request.ast.dag.deps call₀.request.ast.dag.root ≠ [] ∧
        ∀ t ∈ s.operatorRequestsOf p, t ∈ s.sent := by
      by_cases hwaiting : call₀.phase = .waiting
      · obtain rfl := hwaits.resolve_left (not_not.mpr hwaiting)
        obtain ⟨_, hcall₁, -, hflag, -⟩ := step_clearProblem.mp hstep
        obtain rfl := Option.some.inj (hcall₀.symm.trans hcall₁)
        exact h.of_flag hsound (hle.trans_lt hlt) hcall₀ hwaiting hflag
      · exact h.call p call₀ hcall₀ hwaiting
    have hsame : s'.operatorRequestsOf p = s.operatorRequestsOf p := by
      rw [operatorRequestsOf, operatorRequestsOf, origin, origin, hcall, hcall₀, Option.map_some,
        Option.map_some, hrequest]
    rw [← hrequest, hsame, hsent]
    exact ⟨hdone.1, fun t ht => List.mem_append_left _ (hdone.2 t ht)⟩

theorem of_runs {actions : List Action} (hrun : Runs Cluster.step (start db) actions s)
    (hlt : s.calls.length < 2 ^ 32) : Sound db s ∧ Sends s :=
  hrun.invariant_within (P := fun s => s.calls.length < 2 ^ 32)
    (I := fun s => Sound db s ∧ Sends s)
    (fun _ _ _ hstep hlt => (origin_step hstep).1.trans_lt hlt) ⟨.init db, .init db⟩
    (fun _ _ _ h hlt hstep =>
      have hsound := h.1.step hlt hstep
      ⟨hsound, h.2.step h.1 hsound hlt hstep⟩) hlt

/-- Nothing is sent twice, so no more is sent than there is to send. -/
theorem length_le (h : Sends s) (hsound : Sound db s) :
    s.sent.length ≤ s.operatorRequests.length :=
  (hsound.accounted.sent_nodup.of_map.subperm h.sent).length_le

theorem cost_le (h : Sends s) {t : Task} (ht : t ∈ s.sent) : t.cost ≤ 7 := by
  obtain ⟨p, request, v, hop, rfl⟩ := mem_operatorRequests.mp (h.sent t ht)
  have hle := AST.length_deps_le hop.lt
  rw [Task.cost, AST.taskRequest, List.length_map]
  omega

end Sends

/-- Nothing is in flight when all calls have returned. -/
theorem Sound.inFlight_eq_zero {db : Database} (h : Sound db s) (hlt : s.calls.length < 2 ^ 32)
    (hall : ∀ call ∈ s.calls, ∃ r, call.phase = .returned r) : s.exchange.inFlight = 0 := by
  rw [Multiset.eq_zero_iff_forall_notMem]
  intro id hid
  obtain ⟨p, _, _, _, _, -, -, -, hcd, horigin, -⟩ := h.accounted.of_mem_inFlight hlt.le hid
  obtain ⟨call, hcall, -⟩ := Option.map_eq_some_iff.mp horigin
  -- its problem is in the maps, so its call waits
  have hwaiting := (h.call p call hcall).2.2.mpr (Std.ExtTreeMap.getElem?_eq_some_iff.mp hcd).1
  obtain ⟨r, hreturned⟩ := hall call (List.mem_of_getElem? hcall)
  rw [hwaiting] at hreturned
  cases hreturned

/-- So nothing is under way. -/
theorem Sound.remaining_eq_zero {db : Database} (h : Sound db s) (hlt : s.calls.length < 2 ^ 32)
    (hall : ∀ call ∈ s.calls, ∃ r, call.phase = .returned r) : s.remaining = 0 := by
  have hinFlight := h.inFlight_eq_zero hlt hall
  simp only [exchange, add_eq_zero, Multiset.map_eq_zero] at hinFlight
  obtain ⟨⟨hrequests, hjobs⟩, hreplies⟩ := hinFlight
  have hcalls : (s.calls.map fun call => call.phase.remaining).sum = 0 := by
    rw [List.sum_eq_zero_iff]
    intro n hn
    obtain ⟨call, hcall, rfl⟩ := List.mem_map.mp hn
    obtain ⟨r, hreturned⟩ := hall call hcall
    rw [hreturned]
    rfl
  simp [remaining, hcalls, hrequests, hjobs, hreplies]

/-- All there is to send has been sent. -/
theorem Sends.perm {db : Database} (h : Sends s) (hsound : Sound db s)
    (hlt : s.calls.length < 2 ^ 32) (hall : ∀ call ∈ s.calls, ∃ r, call.phase = .returned r) :
    s.sent.Perm s.operatorRequests := by
  have hnodup : s.sent.Nodup := hsound.accounted.sent_nodup.of_map
  rw [List.perm_ext_iff_of_nodup hnodup (nodup_operatorRequests hsound.accounted hlt).of_map]
  refine fun t => ⟨h.sent t, ?_⟩
  intro ht
  obtain ⟨p, request, v, hop, rfl⟩ := mem_operatorRequests.mp ht
  obtain ⟨call, hcall, -⟩ := Option.map_eq_some_iff.mp hop.origin_eq
  obtain ⟨r, hreturned⟩ := hall call (List.mem_of_getElem? hcall)
  refine (h.call p call hcall (by simp [hreturned])).2 _ ?_
  exact mem_operatorRequestsOf.mpr ⟨request, v, hop, rfl⟩

/-- **All complete runs do the same.** When every call has returned, the requests sent are those for
the operators of the trees, each of them once, and the number of stages is the sum of theirs and
three for each call: neither depends on the order of the steps. -/
theorem complete_run {db : Database} {actions : List Action}
    (hrun : Runs step (start db) actions s) (hlt : s.calls.length < 2 ^ 32)
    (hall : ∀ call ∈ s.calls, ∃ r, call.phase = .returned r) :
    s.sent.Perm s.operatorRequests ∧ actions.countP Action.isStage =
      3 * s.calls.length + (s.operatorRequests.map fun t => t.cost).sum := by
  obtain ⟨hsound, hsends⟩ := Sends.of_runs hrun hlt
  have hperm := hsends.perm hsound hlt hall
  refine ⟨hperm, ?_⟩
  have hsteps := steps_add_remaining hrun
  rwa [hsound.remaining_eq_zero hlt hall, Nat.add_zero, (hperm.map _).sum_eq] at hsteps

/-- The mean of a list is computed in 22 stages. -/
theorem complete_run_mean : ∃ s, Runs step (start numbers) meanRun s ∧
    s.sent.Perm s.operatorRequests ∧
    22 = 3 * s.calls.length + (s.operatorRequests.map fun t => t.cost).sum := by
  obtain ⟨s, call, hrun, hcalls, hphase, -⟩ := runs_meanRun
  have hlt : s.calls.length < 2 ^ 32 := by simp [hcalls]
  have hall : ∀ call ∈ s.calls, ∃ r, call.phase = .returned r := by
    rw [hcalls]
    simp [hphase]
  exact ⟨s, hrun, complete_run hrun hlt hall⟩

end Steps
end Cluster
end TaskDispatch
