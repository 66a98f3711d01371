import Mathlib
import TaskDispatch.Cluster.Stages
import TaskDispatch.Dispatch.Progress

/-!
# Where a run ends

Without new submissions the cluster comes to rest (`comes_to_rest`): every stage lowers what is
left, a pass of the dispatcher that finds something to send makes one unsent request fewer, and a
task that throws ends the process of its worker, which takes none of its tasks further. At rest a
call has returned, or it waits for a task on such a worker, or for a leaf
(`returned_iff_of_atRest`).
-/

set_option autoImplicit false

namespace TaskDispatch

open Proto Frontier Transition

/-- If the tree has a value, each of its vertices has one. -/
theorem AST.exists_valueAt {ast : AST} {read : VariableId → Result ExprResult} {r : ExprResult}
    (h : ast.root.eval read = .ok r) {v : VertexDescriptor} (hv : v < ast.vertexCount) :
    ∃ r, ast.valueAt read v = .ok r := by
  have hclosed : ∀ v ∈ {v | v < ast.vertexCount ∧ ∃ r, ast.valueAt read v = .ok r},
      Enabled ast.dag.deps {v | v < ast.vertexCount ∧ ∃ r, ast.valueAt read v = .ok r} v := by
    rintro v ⟨hv, r, hr⟩ u hu
    obtain ⟨operands, hvalues, -⟩ := AST.operands_of_valueAt hv (List.ne_nil_of_mem hu) hr
    refine ⟨ast.dag.deps_mem v hv u hu, ?_⟩
    obtain ⟨i, hi, rfl⟩ := List.mem_iff_getElem.mp hu
    exact ⟨_, hvalues.get hi (hvalues.length_eq ▸ hi)⟩
  exact (ast.dag.vertices_subset hclosed ⟨ast.dag.root_mem, r, AST.valueAt_root.trans h⟩ hv).2

theorem AST.valueAt_ne_error {ast : AST} {read : VariableId → Result ExprResult} {r : ExprResult}
    (h : ast.root.eval read = .ok r) {v : VertexDescriptor} (hv : v < ast.vertexCount)
    (fault : Fault) : ast.valueAt read v ≠ .error fault := by
  obtain ⟨r, hr⟩ := AST.exists_valueAt h hv
  simp [hr]

namespace Cluster

section Steps

variable {s s' : Cluster} {job : Job} {i : ℕ} {call : Call}

/-! ## Coming to rest -/

/-- What a thread does next with its task, the reading of an operand or the calculation, throws,
aborts or is undefined. -/
def Fails (s : Cluster) (job : Job) (fault : Fault) : Prop :=
  ∃ operands, job.stage = .extracting operands ∧
    ((∃ operand, job.task.task.operands[operands.length]? = some operand ∧
        ThreadPool.readOperand s.database operand = .error fault) ∨
      operands.length = job.task.task.operands.length ∧
        ThreadPool.calculate job.task operands = .error fault)

/-- The action takes something further: by a stage, by a pass that finds something to send, or by
the end of a process in which a task throws or aborts. -/
def Advances (s : Cluster) : Action → Prop
  | .calculateProblem _ => False
  | .sendComputableTasks order => ∃ tasks dispatcher,
      s.dispatcher.sendComputableTasks order = .ok (tasks, dispatcher) ∧ tasks ≠ []
  | .terminate identity => ∃ job fault, s.Active job ∧ job.task.identity = identity ∧
      s.Fails job fault ∧ fault ≠ .undefined
  | _ => True

/-- Nothing can be taken further. -/
def AtRest (s : Cluster) : Prop := ∀ a s', Advances s a → step s a ≠ some s'

/-- The tasks that the end of a process can still stop. -/
def losable (s : Cluster) : ℕ :=
  s.requests.card + (s.jobs.filter fun job => job.task.identity ∉ s.gone).card

/-- What is left of a cluster that gets no more submissions: the stages that are left, the tasks a
process can end with, and for each request that is still to be sent more than its task takes. -/
noncomputable def work (s : Cluster) : ℕ :=
  s.remaining + s.losable + 9 * (s.operatorRequests.length - s.sent.length)

theorem losable_advance (stage : Stage) (hjob : s.Active job) :
    (s.advance job stage).losable = s.losable := by
  obtain ⟨hmem, hgone⟩ := hjob
  obtain ⟨rest, hrest⟩ := Multiset.exists_cons_of_mem hmem
  simp [losable, advance, hrest, hgone]

theorem losable_terminate (hjob : s.Active job) :
    losable { s with gone := job.task.identity :: s.gone } < s.losable := by
  obtain ⟨hmem, hgone⟩ := hjob
  obtain ⟨rest, hrest⟩ := Multiset.exists_cons_of_mem hmem
  have hle : (rest.filter fun j => j.task.identity ∉ job.task.identity :: s.gone).card ≤
      (rest.filter fun j => j.task.identity ∉ s.gone).card :=
    Multiset.card_le_card (Multiset.monotone_filter_right rest
      fun _ hnotMem hmem => hnotMem (List.mem_cons_of_mem _ hmem))
  simp only [losable, hrest]
  rw [Multiset.filter_cons_of_neg rest (not_not.mpr List.mem_cons_self),
    Multiset.filter_cons_of_pos rest hgone, Multiset.card_cons]
  omega

theorem losable_stage {a : Action} (hstage : a.isStage) (hstep : step s a = some s') :
    s'.losable ≤ s.losable := by
  cases a with
  | calculateProblem | sendComputableTasks | terminate => cases hstage
  | relay identity task =>
    obtain ⟨htask, rfl⟩ := step_relay.mp hstep
    obtain ⟨rest, hrest⟩ := Multiset.exists_cons_of_mem htask
    simp only [losable, hrest, Multiset.erase_cons_head, Multiset.card_cons, Multiset.filter_cons]
    split_ifs
    · simp
    · simp
      omega
  | readOperand job =>
    obtain ⟨operands, _, r, -, hjob, -, -, rfl⟩ := step_readOperand.mp hstep
    exact (losable_advance _ hjob).le
  | calculate job =>
    obtain ⟨_, r, -, hjob, -, -, rfl⟩ := step_calculate.mp hstep
    exact (losable_advance _ hjob).le
  | writeDynamicData job =>
    obtain ⟨_, -, hjob, rfl⟩ := step_writeDynamicData.mp hstep
    exact (losable_advance .written hjob).le
  | reply job =>
    obtain ⟨-, -, rfl⟩ := step_reply.mp hstep
    exact Nat.add_le_add_left (Multiset.card_le_card
      (Multiset.filter_le_filter _ (Multiset.erase_le job s.jobs))) _
  | updateComputableTasks id =>
    obtain ⟨-, _, -, rfl⟩ := step_updateComputableTasks.mp hstep
    exact le_rfl
  | clearProblem i =>
    obtain ⟨_, -, -, -, rfl⟩ := step_clearProblem.mp hstep
    exact le_rfl
  | readData i =>
    obtain ⟨_, -, -, ⟨_, -, rfl⟩ | ⟨_, -, rfl⟩⟩ := step_readData.mp hstep
    · exact le_rfl
    · exact le_rfl
  | clearIntermediateCalculations i =>
    obtain ⟨_, _, -, -, rfl⟩ := step_clearIntermediateCalculations.mp hstep
    exact le_rfl

theorem Advances.length_eq {a : Action} (hadvances : Advances s a)
    (hstep : step s a = some s') : s'.calls.length = s.calls.length := by
  cases a with
  | calculateProblem request => exact hadvances.elim
  | sendComputableTasks =>
    obtain ⟨_, _, -, rfl⟩ := step_sendComputableTasks.mp hstep
    rfl
  | terminate identity => rw [step_terminate.mp hstep]
  | _ => exact (remaining_stage rfl hstep).2.1

/-- The requests there will be stay the same as long as nothing is submitted. -/
theorem operatorRequests_eq {a : Action} (hstep : step s a = some s')
    (hlength : s'.calls.length = s.calls.length) : s'.operatorRequests = s.operatorRequests := by
  have horigin : s'.origin = s.origin := by
    funext p
    cases hp : s.origin p with
    | some request => exact (origin_step hstep).2 p request hp
    | none =>
      rw [origin, Option.map_eq_none_iff, List.getElem?_eq_none_iff] at hp ⊢
      rwa [hlength]
  unfold operatorRequests operatorRequestsOf
  rw [hlength, horigin]

/-- **What advances lowers what is left.** -/
theorem Sends.work_lt {db : Database} (h' : Sends s') (hsound' : Sound db s') {a : Action}
    (hadvances : Advances s a) (hstep : Cluster.step s a = some s') : s'.work < s.work := by
  have hlength : s'.calls.length = s.calls.length := hadvances.length_eq hstep
  cases hstage : a.isStage with
  | true =>
    obtain ⟨hremaining, -, hsent⟩ := remaining_stage hstage hstep
    have hlosable := losable_stage hstage hstep
    rw [work, work, operatorRequests_eq hstep hlength, hsent]
    omega
  | false =>
    cases a with
    | calculateProblem request => exact hadvances.elim
    | sendComputableTasks =>
      obtain ⟨tasks, dispatcher, hsend, hs'⟩ := step_sendComputableTasks.mp hstep
      obtain ⟨_, _, hsend', hne⟩ := hadvances
      obtain ⟨rfl, -⟩ := Prod.mk.inj (Except.ok.inj (hsend.symm.trans hsend'))
      have hsent : s'.sent = s.sent ++ tasks := by rw [hs']
      have hcost : (tasks.map fun t => t.cost).sum ≤ tasks.length * 7 := by
        rw [← List.length_map (f := fun t : Task => t.cost)]
        refine List.sum_le_card_nsmul _ _ ?_
        intro n hn
        obtain ⟨t, ht, rfl⟩ := List.mem_map.mp hn
        exact h'.cost_le (hsent ▸ List.mem_append_right _ ht)
      have hpos : 0 < tasks.length := List.length_pos_of_ne_nil hne
      have hle := h'.length_le hsound'
      have hremaining : s'.remaining = s.remaining + (tasks.map fun t => t.cost).sum := by
        rw [hs', remaining_send]
      have hlosable : s'.losable = s.losable + tasks.length := by
        simp only [hs', losable, Multiset.card_add, Multiset.coe_card]
        omega
      rw [operatorRequests_eq hstep hlength, hsent, List.length_append] at hle
      rw [work, work, operatorRequests_eq hstep hlength, hremaining, hlosable, hsent,
        List.length_append]
      omega
    | terminate identity =>
      obtain ⟨job, _, hjob, rfl, -⟩ := hadvances
      have hrequests := operatorRequests_eq hstep hlength
      obtain rfl := step_terminate.mp hstep
      have hlosable := losable_terminate hjob
      rw [work, work, hrequests]
      simp only [remaining]
      omega
    | _ => cases hstage

/-- The states that can be reached from `s` without a submission -/
structure Continues (db : Database) (s t : Cluster) : Prop where
  sound : Sound db t
  sends : Sends t
  length_eq : t.calls.length = s.calls.length

theorem Continues.step {db : Database} {t t' : Cluster} {a : Action} (h : Continues db s t)
    (hlt : s.calls.length < 2 ^ 32) (hadvances : Advances t a)
    (hstep : Cluster.step t a = some t') : Continues db s t' ∧ t'.work < t.work := by
  have hlength := (hadvances.length_eq hstep).trans h.length_eq
  have hsound := h.sound.step (hlength ▸ hlt) hstep
  have hsends := h.sends.step h.sound hsound (hlength ▸ hlt) hstep
  exact ⟨⟨hsound, hsends, hlength⟩, hsends.work_lt hsound hadvances hstep⟩

theorem Continues.of_runs {db : Database} {actions : List Action}
    (hrun : Runs Cluster.step (start db) actions s) (hlt : s.calls.length < 2 ^ 32) :
    Continues db s s where
  sound := (Sends.of_runs hrun hlt).1
  sends := (Sends.of_runs hrun hlt).2
  length_eq := rfl

theorem exists_atRest {db : Database} {actions : List Action}
    (hrun : Runs step (start db) actions s) (hlt : s.calls.length < 2 ^ 32) :
    ∃ more t, Runs step s more t ∧ Meets step Advances s more ∧ Continues db s t ∧ AtRest t := by
  refine exists_rest work ?_ (Continues.of_runs hrun hlt)
  intro t h hrest
  simp only [AtRest, not_forall, not_not, exists_prop] at hrest
  obtain ⟨a, t', hadvances, hstep⟩ := hrest
  exact ⟨a, t', hadvances, hstep, h.step hlt hadvances hstep⟩

/-- **The cluster comes to rest.** Whatever has happened so far, what is under way can be taken
further a bounded number of times only, and in the end nothing can. -/
theorem comes_to_rest {db : Database} {actions : List Action}
    (hrun : Runs step (start db) actions s) (hlt : s.calls.length < 2 ^ 32) :
    (∀ more t, Runs step s more t → Meets step Advances s more → more.length ≤ s.work) ∧
      ∃ more t, Runs step s more t ∧ Meets step Advances s more ∧
        t.calls.length = s.calls.length ∧ AtRest t := by
  constructor
  · intro more t hmore hmeets
    have hle := hmore.length_le work (fun _ _ _ h hadvances hstep => h.step hlt hadvances hstep)
      (Continues.of_runs hrun hlt) hmeets
    omega
  · obtain ⟨more, t, hmore, hmeets, h, hrest⟩ := exists_atRest hrun hlt
    exact ⟨more, t, hmore, hmeets, h.length_eq, hrest⟩

/-- A cluster with one request for the mean of a list comes to rest. -/
theorem comes_to_rest_mean : ∃ s, Runs step (start numbers) [.calculateProblem .mean] s ∧
    ∃ more t, Runs step s more t ∧ Meets step Advances s more ∧
      t.calls.length = s.calls.length ∧ AtRest t := by
  obtain ⟨s, hrun, hlength⟩ : ∃ s, Runs step (start numbers) [.calculateProblem .mean] s ∧
      s.calls.length = 1 := ⟨_, rfl, rfl⟩
  exact ⟨s, hrun, (comes_to_rest hrun (by rw [hlength]; norm_num)).2⟩

/-! ## At rest -/

/-- The dispatcher can take in every answer that is on its way. -/
theorem Sound.update_returns {db : Database} {id : Proto.TaskId} (hsound : Sound db s)
    (hlt : s.calls.length < 2 ^ 32) (hid : id ∈ s.replies) :
    ∃ dispatcher, s.dispatcher.updateComputableTasks id = .ok dispatcher := by
  obtain ⟨_, hupdate⟩ := hsound.accounted.update_returns hlt.le (Sound.reply_inFlight hid)
  obtain ⟨-, dispatcher, hd, -⟩ := Exchange.step_update.mp hupdate
  exact ⟨dispatcher, hd⟩

/-- A step of a pool thread on this job -/
def Action.isOn (job : Job) : Action → Prop
  | .readOperand j | .calculate j | .writeDynamicData j | .reply j => j = job
  | _ => False

/-- **A job goes on, or the thread fails as the evaluation does**: at each stage it finds the values
of the operands. -/
theorem Sound.exists_step_on {db : Database} {p : ProblemId} {request : AstRequest}
    {v : TaskDispatch.TaskId} (hsound : Sound db s) (hlt : s.calls.length < 2 ^ 32)
    (hop : OperatorOf s.origin p request v) (huntainted : Untainted db p request)
    (htask : job.task.task = request.ast.taskRequest p v) (hjob : s.Active job) :
    (∃ a s', a.isOn job ∧ Cluster.step s a = some s') ∨ ∃ fault, s.Fails job fault ∧
      ∃ u < request.ast.vertexCount, request.ast.valueAt (start db).read u = .error fault := by
  obtain ⟨q, request', u, hop', htask', hok⟩ := hsound.job job hjob.1
  obtain ⟨rfl, rfl⟩ := (hsound.accounted.mk'_inj hlt.le hop.origin_eq hop.lt hop'.origin_eq
    hop'.lt).mp (congrArg Task.id (htask.symm.trans htask'))
  obtain rfl := Option.some.inj (hop.origin_eq.symm.trans hop'.origin_eq)
  specialize hok huntainted
  cases hstage : job.stage with
  | extracting operands =>
    rw [hstage] at hok
    have hle : operands.length ≤ (request.ast.dag.deps v).length := by
      have hlength := hok.length_eq
      rw [List.length_take] at hlength
      omega
    rcases hle.lt_or_eq with hless | hall
    · -- the next operand is read
      have hu : (request.ast.dag.deps v)[operands.length] ∈ request.ast.dag.deps v :=
        List.getElem_mem hless
      have hult := request.ast.dag.deps_mem v hop.lt _ hu
      have hread := hsound.readOperand_eq hlt hop (Sound.job_inFlight hjob.1 htask) huntainted hu
      have hoperand : job.task.task.operands[operands.length]? =
          some (request.ast.operand p (request.ast.dag.deps v)[operands.length]) := by
        rw [htask, AST.taskRequest, List.getElem?_map, List.getElem?_eq_getElem hless]
        rfl
      cases hvalue : request.ast.valueAt (start db).read (request.ast.dag.deps v)[operands.length]
        with
      | ok r =>
        exact .inl ⟨.readOperand job, _, rfl, step_readOperand.mpr
          ⟨operands, _, r, hstage, hjob, hoperand, hread.trans hvalue, rfl⟩⟩
      | error fault =>
        exact .inr ⟨fault, ⟨operands, hstage, .inl ⟨_, hoperand, hread.trans hvalue⟩⟩,
          _, hult, hvalue⟩
    · -- all are there, and they are the right ones
      rw [StageOk, List.take_of_length_le hall.ge] at hok
      have hlength : operands.length = job.task.task.operands.length := by
        rw [htask, AST.taskRequest, List.length_map, hall]
      have hcalculate : ThreadPool.calculate job.task operands =
          request.ast.valueAt (start db).read v := by
        rw [ThreadPool.calculate, htask, AST.ofOperationType_taskRequest,
          AST.valueAt_operator hop.lt hop.deps hok]
      cases hvalue : request.ast.valueAt (start db).read v with
      | ok r =>
        exact .inl ⟨.calculate job, _, rfl, step_calculate.mpr
          ⟨operands, r, hstage, hjob, hlength, hcalculate.trans hvalue, rfl⟩⟩
      | error fault =>
        exact .inr ⟨fault, ⟨operands, hstage, .inr ⟨hlength, hcalculate.trans hvalue⟩⟩,
          v, hop.lt, hvalue⟩
  | calculated r =>
    exact .inl ⟨.writeDynamicData job, _, rfl,
      step_writeDynamicData.mpr ⟨r, hstage, hjob, rfl⟩⟩
  | written => exact .inl ⟨.reply job, _, rfl, step_reply.mpr ⟨hjob, hstage, rfl⟩⟩

/-- A task of the problem is on a worker whose process has ended. -/
def Lost (s : Cluster) (p : ProblemId) : Prop :=
  ∃ job ∈ s.jobs, job.id.problemId.toNat = p ∧ job.task.identity ∈ s.gone

/-- The call waits for it. -/
theorem Sound.waiting_of_lost {db : Database} (hsound : Sound db s)
    (hlt : s.calls.length < 2 ^ 32) (hcall : s.calls[i]? = some call) (hlost : s.Lost i) :
    call.phase = .waiting := by
  obtain ⟨job, hjob, rfl, -⟩ := hlost
  have hid : job.id ∈ s.exchange.inFlight :=
    Multiset.mem_add.mpr (.inl (Multiset.mem_add.mpr (.inr (Multiset.mem_map_of_mem _ hjob))))
  obtain ⟨p, _, _, _, _, -, rfl, -, hcd, -⟩ := hsound.accounted.of_mem_inFlight hlt.le hid
  exact (hsound.call _ call hcall).2.2.mpr (Std.ExtTreeMap.getElem?_eq_some_iff.mp hcd).1

namespace AtRest

variable {db : Database} {p : ProblemId} {request : AstRequest} {v : TaskDispatch.TaskId}

/-- The broker keeps no request back. -/
theorem requests_eq (h : AtRest s) : s.requests = 0 := by
  rw [Multiset.eq_zero_iff_forall_notMem]
  intro task htask
  exact h (.relay "" task) _ trivial (step_relay.mpr ⟨htask, rfl⟩)

/-- Nor does the dispatcher an answer. -/
theorem replies_eq (h : AtRest s) (hsound : Sound db s) (hlt : s.calls.length < 2 ^ 32) :
    s.replies = 0 := by
  rw [Multiset.eq_zero_iff_forall_notMem]
  intro id hid
  obtain ⟨dispatcher, hd⟩ := hsound.update_returns hlt hid
  exact h (.updateComputableTasks id) _ trivial
    (step_updateComputableTasks.mpr ⟨hid, dispatcher, hd, rfl⟩)

/-- Every job is on a worker whose process has ended. -/
theorem mem_gone (h : AtRest s) (hsound : Sound db s) (hlt : s.calls.length < 2 ^ 32)
    (hop : OperatorOf s.origin p request v) (huntainted : Untainted db p request)
    (hdefined : ∀ u < request.ast.vertexCount,
      request.ast.valueAt (start db).read u ≠ .error .undefined)
    (htask : job.task.task = request.ast.taskRequest p v) (hjob : job ∈ s.jobs) :
    job.task.identity ∈ s.gone := by
  by_contra hgone
  have hactive : s.Active job := ⟨hjob, hgone⟩
  rcases hsound.exists_step_on hlt hop huntainted htask hactive with
    ⟨a, s', hon, hstep⟩ | ⟨fault, hfails, u, hu, hvalue⟩
  · refine h a s' ?_ hstep
    cases a with
    | readOperand | calculate | writeDynamicData | reply => trivial
    | _ => exact hon.elim
  · -- the process ends
    have hfault : fault ≠ .undefined := by
      rintro rfl
      exact hdefined u hu hvalue
    exact h (.terminate job.task.identity) _ ⟨job, fault, hactive, rfl, hfails, hfault⟩
      (step_terminate.mpr rfl)

/-- A problem that has lost no task has no open one. -/
theorem not_hasOpenTask (h : AtRest s) (hsound : Sound db s) (hlt : s.calls.length < 2 ^ 32)
    (horigin : s.origin p = some request) (huntainted : Untainted db p request)
    (hdefined : ∀ u < request.ast.vertexCount,
      request.ast.valueAt (start db).read u ≠ .error .undefined) (hkept : ¬s.Lost p) :
    ¬Exchange.HasOpenTask s.dispatcher p := by
  rintro ⟨calcData, v, hcd, hv | hv⟩
  · -- the next pass would send it
    have hsend := Dispatcher.sendComputableTasks_eq s.dispatcher .ascending
    have hmem := (Dispatcher.mem_map_id_sendComputableTasks hsend).mpr
      ⟨p, calcData, v, hcd, hv, rfl⟩
    refine h .sendComputableTasks _ ⟨_, _, hsend, ?_⟩
      (step_sendComputableTasks.mpr ⟨_, _, hsend, rfl⟩)
    intro hnil
    rw [hnil] at hmem
    cases hmem
  · -- it is in flight, so on a worker, and lost
    have hinFlight : TaskId.mk' p v ∈ s.exchange.inFlight :=
      (hsound.accounted.mem_inFlight _).mpr ⟨p, calcData, v, hcd, hv, rfl⟩
    have hjobs : TaskId.mk' p v ∈ s.jobs.map Job.id := by
      simpa [exchange, h.requests_eq, h.replies_eq hsound hlt] using hinFlight
    obtain ⟨job, hjob, hid⟩ := Multiset.mem_map.mp hjobs
    have hp : job.id.problemId.toNat = p := by
      rw [hid]
      exact toNat_ofNat_of_lt ((Sound.lt_length horigin).trans hlt)
    obtain ⟨q, request', u, hop, htask, -⟩ := hsound.job job hjob
    rw [Job.id, htask] at hid
    obtain ⟨-, request'', _, horigin', -, hlive⟩ := hsound.accounted.entry hcd
    obtain rfl := Option.some.inj (horigin.symm.trans horigin')
    obtain ⟨rfl, rfl⟩ := (hsound.accounted.mk'_inj hlt.le hop.origin_eq hop.lt horigin
      (hlive.tracks.coherent.processing_subset hv).1).mp hid
    obtain rfl := Option.some.inj (horigin.symm.trans hop.origin_eq)
    exact hkept ⟨job, hjob, hp, h.mem_gone hsound hlt hop huntainted hdefined htask hjob⟩

/-- A call that is not waiting has returned. -/
theorem waiting_or_returned (h : AtRest s) (hsound : Sound db s)
    (hcall : s.calls[i]? = some call) (huntainted : Untainted db i call.request) :
    call.phase = .waiting ∨ ∃ r, call.phase = .returned r ∧
      call.request.ast.root.eval (start db).read = .ok r := by
  have hok := hsound.phase i call hcall huntainted
  cases hphase : call.phase with
  | waiting => exact .inl rfl
  | cleared =>
    -- the read finds a result or throws; either way it is made
    exfalso
    cases hread : DatabaseClient.readData s.database (.dynRecordId call.problemId call.taskId) with
    | ok r =>
      exact h (.readData i) _ trivial
        (step_readData.mpr ⟨call, hcall, hphase, .inl ⟨r, hread, rfl⟩⟩)
    | error fault =>
      exact h (.readData i) _ trivial
        (step_readData.mpr ⟨call, hcall, hphase, .inr ⟨fault, hread, rfl⟩⟩)
  | read r =>
    exact absurd (step_clearIntermediateCalculations.mpr ⟨call, r, hcall, hphase, rfl⟩)
      (h (.clearIntermediateCalculations i) _ trivial)
  | returned r =>
    rw [hphase] at hok
    exact .inr ⟨r, rfl, hok⟩
  | threw fault =>
    rw [hphase] at hok
    exact hok.elim

/-- A call with an operator at the root of its tree does not wait if it has lost no task. -/
theorem ne_waiting (h : AtRest s) (hsound : Sound db s) (hlt : s.calls.length < 2 ^ 32)
    (hcall : s.calls[i]? = some call) (huntainted : Untainted db i call.request)
    (hdefined : ∀ u < call.request.ast.vertexCount,
      call.request.ast.valueAt (start db).read u ≠ .error .undefined)
    (hroot : ¬call.request.ast.root.getType.IsLeaf) (hkept : ¬s.Lost i) :
    call.phase ≠ .waiting := by
  intro hphase
  have horigin : s.origin i = some call.request := by
    rw [origin, hcall]
    rfl
  obtain ⟨hid, -, hwaiting⟩ := hsound.call i call hcall
  have hcd := Std.ExtTreeMap.getElem?_eq_some_getElem (hwaiting.mp hphase)
  obtain ⟨-, request, ⟨b⟩, horigin', hsync, hlive⟩ := hsound.accounted.entry hcd
  obtain rfl := Option.some.inj (horigin.symm.trans horigin')
  cases b with
  | true =>
    -- the flag is up, so the call can go on
    rw [← hid] at hsync
    exact h (.clearProblem i) _ trivial
      (step_clearProblem.mpr ⟨call, hcall, hphase, hsync, rfl⟩)
  | false =>
    exact h.not_hasOpenTask hsound hlt horigin huntainted hdefined hkept
      (hsound.accounted.tracked.hasOpenTask horigin hsync hroot)

/-- A call waits exactly if its tree is a leaf or it has lost a task. -/
theorem waiting_iff (h : AtRest s) (hsound : Sound db s) (hsends : Sends s)
    (hlt : s.calls.length < 2 ^ 32) (hcall : s.calls[i]? = some call)
    (huntainted : Untainted db i call.request)
    (hdefined : ∀ u < call.request.ast.vertexCount,
      call.request.ast.valueAt (start db).read u ≠ .error .undefined) :
    call.phase = .waiting ↔ call.request.ast.root.getType.IsLeaf ∨ s.Lost i := by
  constructor
  · intro hphase
    by_contra hnone
    obtain ⟨hroot, hkept⟩ := not_or.mp hnone
    exact h.ne_waiting hsound hlt hcall huntainted hdefined hroot hkept hphase
  · rintro (hleaf | hlost)
    · by_contra hphase
      exact (hsends.call i call hcall hphase).1 (AST.deps_root_eq_nil_iff.mpr hleaf)
    · exact hsound.waiting_of_lost hlt hcall hlost

/-- So it has returned exactly if it does not wait, with the value of its tree. -/
theorem returned_iff (h : AtRest s) (hsound : Sound db s) (hsends : Sends s)
    (hlt : s.calls.length < 2 ^ 32) (hcall : s.calls[i]? = some call)
    (huntainted : Untainted db i call.request)
    (hdefined : ∀ u < call.request.ast.vertexCount,
      call.request.ast.valueAt (start db).read u ≠ .error .undefined) (r : ExprResult) :
    call.phase = .returned r ↔ ¬call.request.ast.root.getType.IsLeaf ∧ ¬s.Lost i ∧
      call.request.ast.root.eval (start db).read = .ok r := by
  have hwaiting := h.waiting_iff hsound hsends hlt hcall huntainted hdefined
  rw [← and_assoc, ← not_or, ← hwaiting]
  constructor
  · intro hreturned
    exact ⟨by simp [hreturned], hsound.eval_eq hcall hreturned huntainted⟩
  · rintro ⟨hphase, hvalue⟩
    obtain ⟨r', hreturned, hvalue'⟩ :=
      (h.waiting_or_returned hsound hcall huntainted).resolve_left hphase
    rw [hreturned, Except.ok.inj (hvalue'.symm.trans hvalue)]

/-- A cluster in which all calls have returned is at rest. -/
theorem of_returned {actions : List Action} (hrun : Runs Cluster.step (start db) actions s)
    (hlt : s.calls.length < 2 ^ 32) (hall : ∀ call ∈ s.calls, ∃ r, call.phase = .returned r) :
    AtRest s := by
  intro a s' hadvances hstep
  obtain ⟨hsound, hsends⟩ := Sends.of_runs hrun hlt
  obtain ⟨-, hlower⟩ := (Continues.of_runs hrun hlt).step hlt hadvances hstep
  -- nothing is left that could become less
  have hinFlight := hsound.inFlight_eq_zero hlt hall
  simp only [exchange, add_eq_zero, Multiset.map_eq_zero] at hinFlight
  have hlosable : s.losable = 0 := by
    simp [losable, hinFlight]
  have hwork : s.work = 0 := by
    rw [work, hsound.remaining_eq_zero hlt hall, hlosable,
      (hsends.perm hsound hlt hall).length_eq, Nat.sub_self]
  omega

end AtRest

/-- **Who has an answer when nothing moves any more.** On a store without intermediate results, with
any number of workers, however the steps came, and whichever processes ended: if no tree computes
anything undefined, a call has returned if there is an operator at the root of its tree and none of
its tasks is on a worker whose process has ended, with the value of the tree. Else it waits. -/
theorem returned_iff_of_atRest {db : Database} (hempty : db.dynamicData = [])
    {actions : List Action} (hrun : Runs step (start db) actions s)
    (hlt : s.calls.length < 2 ^ 32)
    (hdefined : ∀ call ∈ s.calls, ∀ v < call.request.ast.vertexCount,
      call.request.ast.valueAt (start db).read v ≠ .error .undefined)
    (hrest : AtRest s) (hcall : s.calls[i]? = some call) :
    (∀ r, call.phase = .returned r ↔ ¬call.request.ast.root.getType.IsLeaf ∧ ¬s.Lost i ∧
      call.request.ast.root.eval (start db).read = .ok r) ∧
    (call.phase = .waiting ↔ call.request.ast.root.getType.IsLeaf ∨ s.Lost i) ∧
    (call.phase = .waiting ∨ ∃ r, call.phase = .returned r) := by
  obtain ⟨hsound, hsends⟩ := Sends.of_runs hrun hlt
  have huntainted : Untainted db i call.request := untainted_of_nil hempty
  have hdefined := hdefined call (List.mem_of_getElem? hcall)
  refine ⟨hrest.returned_iff hsound hsends hlt hcall huntainted hdefined,
    hrest.waiting_iff hsound hsends hlt hcall huntainted hdefined, ?_⟩
  exact (hrest.waiting_or_returned hsound hcall huntainted).imp_right
    fun ⟨r, hreturned, _⟩ => ⟨r, hreturned⟩

/-- A request for the mean of a list is answered, with 3. -/
theorem returned_iff_of_atRest_mean : ∃ s call, Runs step (start numbers) meanRun s ∧ AtRest s ∧
    s.calls = [call] ∧ ¬s.Lost 0 ∧ call.phase = .returned (.scalar 3) := by
  obtain ⟨s, call, hrun, hcalls, hphase, -⟩ := runs_meanRun
  have hlt : s.calls.length < 2 ^ 32 := by simp [hcalls]
  have hcall : s.calls[0]? = some call := by simp [hcalls]
  have hrest : AtRest s := .of_returned hrun hlt (by simp [hcalls, hphase])
  have hvalue : call.request.ast.root.eval (start numbers).read = .ok (.scalar 3) :=
    (Sound.of_runs hrun hlt).eval_eq hcall hphase (untainted_of_nil rfl)
  have hdefined : ∀ call ∈ s.calls, ∀ v < call.request.ast.vertexCount,
      call.request.ast.valueAt (start numbers).read v ≠ .error .undefined := by
    intro call' hcall' v hv
    rw [hcalls, List.mem_singleton] at hcall'
    subst hcall'
    exact AST.valueAt_ne_error hvalue hv .undefined
  obtain ⟨hreturned, -⟩ :=
    returned_iff_of_atRest rfl hrun hlt hdefined hrest hcall
  exact ⟨s, call, hrun, hrest, hcalls, ((hreturned _).mp hphase).2.1, hphase⟩

end Steps
end Cluster
end TaskDispatch
