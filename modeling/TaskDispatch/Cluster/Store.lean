import Mathlib
import TaskDispatch.Cluster.Results

/-!
# The discipline of the store

Nothing in the store orders the writes, the reads and the clearing of a problem; the messages do. A
row is written by the one job that carries its id, and a job exists only while its problem is in the
maps; the problem is cleared after it has left them. So every insert is the first of its key, every
read finds its row, and a problem that has returned leaves nothing and gets nothing
(`store_discipline`).
-/

set_option autoImplicit false

namespace TaskDispatch

open Proto Frontier Transition

/-- The key of the row for a task. -/
def Proto.TaskId.key (id : Proto.TaskId) : DynamicRecordId := ⟨id.problemId, id.taskId⟩

theorem Proto.TaskId.key_inj {id id' : Proto.TaskId} : id.key = id'.key ↔ id = id' := by
  cases id
  cases id'
  simp [TaskId.key]

theorem Job.key_eq (job : Job) : job.key = job.id.key := by
  rw [Job.key, UInt32.ofNat_toNat, UInt32.ofNat_toNat]
  rfl

/-- A task that is in flight was sent. -/
theorem Exchange.Accounted.mem_sent {s : Exchange} {id : Proto.TaskId} (h : s.Accounted)
    (hlt : s.submitted < 2 ^ 32) (hid : id ∈ s.inFlight) : id ∈ s.sent.map (·.id) := by
  obtain ⟨p, calcData, v, request, _, rfl, -, -, hcd, horigin, -, hlive, hv, hvlt⟩ :=
    h.of_mem_inFlight hlt.le hid
  refine (h.sent_iff p calcData request hcd horigin v hvlt).mpr ⟨?_, ?_⟩
  · intro hnil
    exact hlive.tracks.coherent.notMem_completed hv (hlive.tracks.leaves ⟨hvlt, hnil⟩)
  · exact CalculationData.mem_status.mpr (.inl hv)

namespace Cluster

/-- What was inserted, and what is there. -/
structure Orderly (s : Cluster) : Prop where
  nodup : s.inserted.Nodup
  sent : ∀ key ∈ s.inserted, ∃ t ∈ s.sent, key = t.id.key
  request : ∀ t ∈ s.requests, t.id.key ∉ s.inserted
  job : ∀ job ∈ s.jobs, job.stage ≠ .written → job.id.key ∉ s.inserted
  row : ∀ key field, s.database.select key = some field → key ∈ s.inserted
  returned : ∀ p call r, s.calls[p]? = some call → call.phase = .returned r →
    ∀ key, key.problemId = .ofNat p → s.database.select key = none

namespace Orderly

variable {db₀ : Database} {s s' : Cluster} {job : Job} {i : ℕ}

theorem init (hempty : db₀.dynamicData = []) : Orderly (start db₀) where
  nodup := List.nodup_nil
  sent := by simp [start]
  request := by simp [start]
  job := by simp [start]
  row key field hrow := by
    rw [start, Database.select, hempty] at hrow
    cases hrow
  returned := by simp [start]

/-! ### The worker's steps -/

/-- The id of a job is not that of another job, nor of a request. -/
theorem id_ne (h : s.exchange.Accounted) (hjob : job ∈ s.jobs) :
    (∀ t ∈ s.requests, t.id ≠ job.id) ∧ ∀ job' ∈ s.jobs.erase job, job'.id ≠ job.id := by
  obtain ⟨rest, hrest⟩ := Multiset.exists_cons_of_mem hjob
  have hnodup : (s.requests.map (·.id) + s.jobs.map Job.id + s.replies).Nodup := h.inFlight_nodup
  obtain ⟨hleft, -, -⟩ := Multiset.nodup_add.mp hnodup
  obtain ⟨-, hjobs, hdisjoint⟩ := Multiset.nodup_add.mp hleft
  constructor
  · intro t ht heq
    exact Multiset.disjoint_left.mp hdisjoint (Multiset.mem_map_of_mem _ ht)
      (heq ▸ Multiset.mem_map_of_mem Job.id hjob)
  · intro job' hjob' heq
    rw [hrest, Multiset.map_cons, Multiset.nodup_cons] at hjobs
    rw [hrest, Multiset.erase_cons_head] at hjob'
    exact hjobs.1 (heq ▸ Multiset.mem_map_of_mem Job.id hjob')

/-- A problem with a job is waited for. -/
theorem waiting_of_job (h : Sound db₀ s) (hlt : s.calls.length < 2 ^ 32) (hjob : job ∈ s.jobs)
    {p : ProblemId} {call : Call} (hcall : s.calls[p]? = some call)
    (hp : job.id.problemId = .ofNat p) : call.phase = .waiting := by
  have hplt : p < s.calls.length := (List.getElem?_eq_some_iff.mp hcall).1
  obtain ⟨q, request, v, hop, htask, -⟩ := h.job job hjob
  obtain ⟨calcData, -, hcd, -, -⟩ := h.live hlt hop (Sound.job_inFlight hjob htask)
  have hq : UInt32.ofNat q = UInt32.ofNat p := by
    rw [← hp, Job.id, htask]
    rfl
  have hqp : q = p := by
    have hnat := congrArg UInt32.toNat hq
    rwa [toNat_ofNat_of_lt ((Sound.lt_length hop.origin_eq).trans hlt),
      toNat_ofNat_of_lt (hplt.trans hlt)] at hnat
  rw [hqp] at hcd
  exact (h.call p call hcall).2.2.mpr
    (Std.ExtTreeMap.getElem?_eq_some_iff.mp hcd).1

/-- A write finds no row. -/
theorem select_eq_none (h : Orderly s) (hjob : job ∈ s.jobs) (hstage : job.stage ≠ .written) :
    s.database.select job.key = none := by
  cases hrow : s.database.select job.key with
  | none => rfl
  | some field =>
    have hmem := h.row job.key field hrow
    rw [Job.key_eq] at hmem
    exact absurd hmem (h.job job hjob hstage)

/-- A job that has not written yet moves on to a stage in which it has not. -/
theorem advance (h : Orderly s) {stage : Stage} (hjob : job ∈ s.jobs)
    (hold : job.stage ≠ .written) : Orderly (s.advance job stage) :=
  { h with
    job := by
      intro job' hjob' hnew
      rcases Sound.mem_advance hjob' with rfl | hmem
      · exact h.job job hjob hold
      · exact h.job job' hmem hnew }

theorem writeDynamicData (h : Orderly s) (hsound : Sound db₀ s) (hlt : s.calls.length < 2 ^ 32)
    (hstep : Cluster.step s (.writeDynamicData job) = some s') :
    Orderly s' ∧ s'.inserted = s.inserted ++ [job.id.key] := by
  obtain ⟨r, hstage, ⟨hjob, -⟩, rfl⟩ := step_writeDynamicData.mp hstep
  have hunwritten : job.stage ≠ .written := by simp [hstage]
  have hfresh := h.job job hjob hunwritten
  obtain ⟨hrequests, hjobs⟩ := id_ne hsound.accounted hjob
  have hinFlight : job.id ∈ s.exchange.inFlight :=
    Multiset.mem_add.mpr (.inl (Multiset.mem_add.mpr (.inr (Multiset.mem_map_of_mem _ hjob))))
  have hdb : ∀ key, (ThreadPool.writeResult s.database job.task r).select key =
      if key = job.id.key ∧ s.database.select key = none then some (DatabaseClient.toField r)
      else s.database.select key := by
    intro key
    rw [← Job.key_eq]
    exact DatabaseClient.select_writeDynamicData
  rw [if_pos (h.select_eq_none hjob hunwritten), Job.key_eq]
  refine ⟨
    { nodup := ?_
      sent := ?_
      request := ?_
      job := ?_
      row := ?_
      returned := ?_ }, rfl⟩
  · exact List.nodup_append.mpr ⟨h.nodup, List.nodup_singleton _, by
      intro key hkey key' hkey' heq
      rw [List.mem_singleton] at hkey'
      exact hfresh (hkey' ▸ heq ▸ hkey)⟩
  · intro key hkey
    rcases List.mem_append.mp hkey with hkey | hkey
    · exact h.sent key hkey
    · obtain rfl := List.mem_singleton.mp hkey
      obtain ⟨t, ht, hid⟩ := List.mem_map.mp (hsound.accounted.mem_sent hlt hinFlight)
      exact ⟨t, ht, by rw [hid]⟩
  · -- the key is that of the job, and no request or other job has it
    intro t ht hkey
    rcases List.mem_append.mp hkey with hkey | hkey
    · exact h.request t ht hkey
    · exact hrequests t ht (TaskId.key_inj.mp (List.mem_singleton.mp hkey))
  · intro job' hjob' hnew hkey
    rcases Multiset.mem_cons.mp hjob' with rfl | hmem
    · exact hnew rfl
    · rcases List.mem_append.mp hkey with hkey | hkey
      · exact h.job job' (Multiset.mem_of_mem_erase hmem) hnew hkey
      · exact hjobs job' hmem (TaskId.key_inj.mp (List.mem_singleton.mp hkey))
  · intro key field hrow
    have hrow : (ThreadPool.writeResult s.database job.task r).select key = some field := hrow
    rw [hdb] at hrow
    split_ifs at hrow with hkey
    · exact List.mem_append_right _ (List.mem_singleton.mpr hkey.1)
    · exact List.mem_append_left _ (h.row key field hrow)
  · intro p call r' hcall hreturned key hp
    show (ThreadPool.writeResult s.database job.task r).select key = none
    rw [hdb, if_neg]
    · exact h.returned p call r' hcall hreturned key hp
    · -- a job of a problem that has returned would keep the problem waiting
      rintro ⟨rfl, -⟩
      have hwaiting := waiting_of_job hsound hlt hjob hcall hp
      rw [hreturned] at hwaiting
      cases hwaiting

/-! ### The other steps -/

theorem sendComputableTasks {order : PassOrder} (h : Orderly s)
    (haccounted : s'.exchange.Accounted)
    (hstep : Cluster.step s (.sendComputableTasks order) = some s') : Orderly s' := by
  obtain ⟨tasks, dispatcher, -, rfl⟩ := step_sendComputableTasks.mp hstep
  have hnodup : ((s.sent ++ tasks).map (·.id)).Nodup := haccounted.sent_nodup
  rw [List.map_append] at hnodup
  refine { h with
    sent := ?_
    request := ?_ }
  · intro key hkey
    obtain ⟨t, ht, hid⟩ := h.sent key hkey
    exact ⟨t, List.mem_append_left _ ht, hid⟩
  · intro t ht
    rcases Multiset.mem_add.mp ht with hold | hnew
    · exact h.request t hold
    · intro hkey
      obtain ⟨t', ht', heq⟩ := h.sent t.id.key hkey
      have hid : t.id = t'.id := TaskId.key_inj.mp heq
      exact List.disjoint_of_nodup_append hnodup (hid ▸ List.mem_map_of_mem ht')
        (List.mem_map_of_mem (Multiset.mem_coe.mp hnew))

theorem relay {identity : String} {task : Task} (h : Orderly s)
    (hstep : Cluster.step s (.relay identity task) = some s') : Orderly s' := by
  obtain ⟨htask, rfl⟩ := step_relay.mp hstep
  refine { h with
    request := fun t ht => h.request t (Multiset.mem_of_mem_erase ht)
    job := ?_ }
  intro job hjob hunwritten
  rcases Multiset.mem_cons.mp hjob with rfl | hold
  · exact h.request task htask
  · exact h.job job hold hunwritten

/-- A call moves on: rows may go, and a call that returns leaves none. -/
theorem moveOn (h : Orderly s) (phase : Phase) (dispatcher : Dispatcher) (database : Database)
    (hrows : ∀ key, database.select key = none ∨ database.select key = s.database.select key)
    (hreturned : ∀ r, phase = .returned r →
      ∀ key, key.problemId = .ofNat i → database.select key = none) :
    Orderly { s.setPhase i phase with dispatcher, database } :=
  { h with
    row := by
      intro key field hrow
      have hrow : database.select key = some field := hrow
      rcases hrows key with hnone | hsame
      · rw [hnone] at hrow
        cases hrow
      · exact h.row key field (hsame ▸ hrow)
    returned := by
      intro p call r hcall hphase key hp
      have hcall : (s.setPhase i phase).calls[p]? = some call := hcall
      rw [getElem?_setPhase, Option.map_eq_some_iff] at hcall
      obtain ⟨call₀, hcall₀, rfl⟩ := hcall
      show database.select key = none
      by_cases hip : i = p
      · rw [if_pos hip] at hphase
        exact hreturned r hphase key (hip ▸ hp)
      · rw [if_neg hip] at hphase
        rcases hrows key with hnone | hsame
        · exact hnone
        · exact hsame.trans (h.returned p call₀ r hcall₀ hphase key hp) }

theorem clearIntermediateCalculations (h : Orderly s) (hsound : Sound db₀ s)
    (hstep : Cluster.step s (.clearIntermediateCalculations i) = some s') : Orderly s' := by
  obtain ⟨call, r, hcall, -, rfl⟩ := step_clearIntermediateCalculations.mp hstep
  have hid : call.problemId = i := (hsound.call i call hcall).1
  apply h.moveOn (.returned r) s.dispatcher
  · intro key
    rw [DatabaseClient.select_clearIntermediateCalculations]
    split_ifs
    · exact .inl rfl
    · exact .inr rfl
  · intro _ _ key hp
    rw [DatabaseClient.select_clearIntermediateCalculations, if_pos (by rw [hid, hp])]

theorem calculateProblem {request : AstRequest} (h : Orderly s)
    (hstep : Cluster.step s (.calculateProblem request) = some s') : Orderly s' := by
  rcases step_calculateProblem.mp hstep with ⟨_, -, rfl⟩ | ⟨calcData, -, rfl⟩
  · exact h
  refine { h with returned := ?_ }
  intro p call r hcall hphase
  have hcall : (s.calls ++ _)[p]? = some call := hcall
  rw [List.getElem?_append] at hcall
  split_ifs at hcall
  · exact h.returned p call r hcall hphase
  · rw [List.getElem?_singleton] at hcall
    split_ifs at hcall
    -- a new call waits
    rw [← Option.some.inj hcall] at hphase
    cases hphase

theorem step {a : Action} (h : Orderly s) (hsound : Sound db₀ s) (hlt : s'.calls.length < 2 ^ 32)
    (hstep : Cluster.step s a = some s') : Orderly s' := by
  have hsound' := hsound.step hlt hstep
  have hlt' : s.calls.length < 2 ^ 32 := (origin_step hstep).1.trans_lt hlt
  cases a with
  | calculateProblem request => exact h.calculateProblem hstep
  | sendComputableTasks => exact h.sendComputableTasks hsound'.accounted hstep
  | relay identity task => exact h.relay hstep
  | readOperand job =>
    obtain ⟨_, _, _, hstage, ⟨hjob, -⟩, -, -, rfl⟩ := step_readOperand.mp hstep
    exact h.advance hjob (by simp [hstage])
  | calculate job =>
    obtain ⟨_, _, hstage, ⟨hjob, -⟩, -, -, rfl⟩ := step_calculate.mp hstep
    exact h.advance hjob (by simp [hstage])
  | writeDynamicData job => exact (h.writeDynamicData hsound hlt' hstep).1
  | reply job =>
    obtain ⟨⟨hjob, -⟩, -, rfl⟩ := step_reply.mp hstep
    exact { h with job := fun job' hjob' => h.job job' (Multiset.mem_of_mem_erase hjob') }
  | terminate identity =>
    obtain rfl := step_terminate.mp hstep
    exact { h with }
  | updateComputableTasks id =>
    obtain ⟨-, _, -, rfl⟩ := step_updateComputableTasks.mp hstep
    exact { h with }
  | clearProblem i =>
    obtain ⟨call, -, -, -, rfl⟩ := step_clearProblem.mp hstep
    exact h.moveOn .cleared _ s.database (fun _ => .inr rfl) (by simp)
  | readData i =>
    obtain ⟨call, -, -, ⟨_, -, rfl⟩ | ⟨_, -, rfl⟩⟩ := step_readData.mp hstep <;>
      exact h.moveOn _ s.dispatcher s.database (fun _ => .inr rfl) (by simp)
  | clearIntermediateCalculations i => exact h.clearIntermediateCalculations hsound hstep

end Orderly

/-! ## Over a whole run -/

/-- The two invariants together. -/
structure Disciplined (db₀ : Database) (s : Cluster) : Prop where
  sound : Sound db₀ s
  orderly : Orderly s

namespace Disciplined

variable {db₀ : Database} {s s' : Cluster} {actions : List Action}

theorem runs (h : Disciplined db₀ s) (hrun : Runs Cluster.step s actions s')
    (hlt : s'.calls.length < 2 ^ 32) : Disciplined db₀ s' :=
  hrun.invariant_within (P := fun s => s.calls.length < 2 ^ 32) (I := Disciplined db₀)
    (fun _ _ _ hstep hlt => (origin_step hstep).1.trans_lt hlt) h
    (fun _ _ _ h hlt hstep => ⟨h.sound.step hlt hstep, h.orderly.step h.sound hlt hstep⟩) hlt

theorem of_runs (hempty : db₀.dynamicData = [])
    (hrun : Runs Cluster.step (start db₀) actions s) (hlt : s.calls.length < 2 ^ 32) :
    Disciplined db₀ s :=
  Disciplined.runs ⟨.init db₀, .init hempty⟩ hrun hlt

/-- A row that is there was inserted. -/
theorem found (h : Disciplined db₀ s) {read : VariableId → Result ExprResult} {p : ProblemId}
    {v : TaskDispatch.TaskId} {request : AstRequest}
    (hvalue : HasValue read s.database request p v) :
    (s.database.select ⟨.ofNat p, .ofNat v⟩).isSome ∧
      (⟨.ofNat p, .ofNat v⟩ : DynamicRecordId) ∈ s.inserted := by
  obtain ⟨r, -, hrow⟩ := hvalue
  exact ⟨Option.isSome_of_eq_some hrow, h.orderly.row _ _ hrow⟩

/-- The rows that a task on its way refers to are there. -/
theorem found_dynOperand (h : Disciplined db₀ s) (hempty : db₀.dynamicData = [])
    (hlt : s.calls.length < 2 ^ 32) {p : ProblemId} {request : AstRequest}
    {v : TaskDispatch.TaskId} (hop : OperatorOf s.origin p request v)
    (hinFlight : TaskId.mk' p v ∈ s.exchange.inFlight) {id : Proto.TaskId}
    (hid : .dynOperand id ∈ (request.ast.taskRequest p v).operands) :
    (s.database.select id.key).isSome ∧ id.key ∈ s.inserted := by
  obtain ⟨u, hu, hoperand⟩ := List.mem_map.mp hid
  have hvar : request.ast.decompositor.leafVariable u = none := by
    rw [AST.operand] at hoperand
    cases hvar : request.ast.decompositor.leafVariable u with
    | none => rfl
    | some x =>
      rw [hvar] at hoperand
      cases hoperand
  rw [AST.operand, hvar] at hoperand
  obtain rfl := Operand.dynOperand.inj hoperand
  have hdeps : request.ast.dag.deps u ≠ [] := by
    intro hnil
    have hsome := h.sound.leafVariable_isSome hlt hop hinFlight hu hnil
    rw [hvar] at hsome
    cases hsome
  exact h.found (h.sound.operand_hasValue hlt hop hinFlight (untainted_of_nil hempty) hu hdeps)

/-- The rows a job has to read are there. -/
theorem found_operand (h : Disciplined db₀ s) (hempty : db₀.dynamicData = [])
    (hlt : s.calls.length < 2 ^ 32) {job : Job} (hjob : job ∈ s.jobs) {id : Proto.TaskId}
    (hid : .dynOperand id ∈ job.task.task.operands) :
    (s.database.select id.key).isSome ∧ id.key ∈ s.inserted := by
  obtain ⟨p, request, v, hop, htask, -⟩ := h.sound.job job hjob
  rw [htask] at hid
  exact h.found_dynOperand hempty hlt hop (Sound.job_inFlight hjob htask) hid

/-- So are those a job will have to read that has only been sent. -/
theorem found_request (h : Disciplined db₀ s) (hempty : db₀.dynamicData = [])
    (hlt : s.calls.length < 2 ^ 32) {t : Task} (ht : t ∈ s.requests) {id : Proto.TaskId}
    (hid : .dynOperand id ∈ t.operands) :
    (s.database.select id.key).isSome ∧ id.key ∈ s.inserted := by
  obtain ⟨p, request, v, hop, rfl⟩ := h.sound.request t ht
  exact h.found_dynOperand hempty hlt hop (Sound.request_inFlight ht) hid

/-- The row a call has to read is there. -/
theorem found_root (h : Disciplined db₀ s) (hempty : db₀.dynamicData = []) {p : ProblemId}
    {call : Call} (hcall : s.calls[p]? = some call) (hphase : call.phase = .cleared) :
    (s.database.select ⟨.ofNat call.problemId, .ofNat call.taskId⟩).isSome ∧
      (⟨.ofNat call.problemId, .ofNat call.taskId⟩ : DynamicRecordId) ∈ s.inserted := by
  obtain ⟨hid, hroot, -⟩ := h.sound.call p call hcall
  have hok := h.sound.phase p call hcall (untainted_of_nil hempty)
  rw [hphase] at hok
  rw [hid, hroot]
  exact h.found hok

end Disciplined

/-! ## After the return -/

/-- The call for a problem has returned. -/
def Returned (s : Cluster) (p : ProblemId) : Prop :=
  ∃ call r, s.calls[p]? = some call ∧ call.phase = .returned r

/-- The keys of a problem that were inserted. -/
def insertedOf (s : Cluster) (p : ProblemId) : List DynamicRecordId :=
  s.inserted.filter fun key => key.problemId = .ofNat p

section Returned

variable {db₀ : Database} {s s' : Cluster} {p : ProblemId} {i : ℕ} {call : Call}

theorem Returned.step {a : Action} (h : Returned s p) (hstep : Cluster.step s a = some s') :
    Returned s' p := by
  obtain ⟨call, r, hcall, hphase⟩ := h
  obtain ⟨phase, hcall', hreturned⟩ := (step_frame hstep).calls p call hcall
  exact ⟨_, r, hcall', hreturned r hphase⟩

/-- A problem that has returned gets no row. -/
theorem Disciplined.insertedOf_step {a : Action} (h : Disciplined db₀ s)
    (hlt : s.calls.length < 2 ^ 32) (hreturned : Returned s p) (hstep : step s a = some s') :
    s'.insertedOf p = s.insertedOf p := by
  rcases (step_frame hstep).inserted with hsame | ⟨job, rfl⟩
  · rw [insertedOf, hsame, insertedOf]
  · obtain ⟨-, hinserted⟩ := h.orderly.writeDynamicData h.sound hlt hstep
    obtain ⟨_, -, ⟨hjob, -⟩, -⟩ := step_writeDynamicData.mp hstep
    have hne : ¬job.id.key.problemId = .ofNat p := by
      intro hp
      obtain ⟨call, r, hcall, hphase⟩ := hreturned
      have hwaiting := Orderly.waiting_of_job h.sound hlt hjob hcall hp
      rw [hphase] at hwaiting
      cases hwaiting
    rw [insertedOf, hinserted, List.filter_append, List.filter_singleton]
    simp [hne, insertedOf]

theorem Disciplined.insertedOf_runs {actions : List Action} (h : Disciplined db₀ s)
    (hreturned : Returned s p) (hrun : Runs step s actions s') (hlt : s'.calls.length < 2 ^ 32) :
    Disciplined db₀ s' ∧ Returned s' p ∧ s'.insertedOf p = s.insertedOf p :=
  hrun.invariant_within (P := fun s => s.calls.length < 2 ^ 32)
    (I := fun t => Disciplined db₀ t ∧ Returned t p ∧ t.insertedOf p = s.insertedOf p)
    (fun _ _ _ hstep hlt => (origin_step hstep).1.trans_lt hlt) ⟨h, hreturned, rfl⟩
    (fun _ _ _ ⟨h, hreturned, hsame⟩ hlt hstep =>
      ⟨h.runs (Runs.single hstep) hlt, hreturned.step hstep,
        (h.insertedOf_step ((origin_step hstep).1.trans_lt hlt) hreturned hstep).trans hsame⟩) hlt

end Returned

/-- **The discipline of the store.** From a store without intermediate results, in any order of
the steps of any number of problems and workers: no key is inserted twice, and no insert meets a
row; what a worker or a client thread has to read was inserted and is there; a problem that has
returned has no row, now or later, and no row of it is inserted later. -/
theorem store_discipline {db : Database} (hempty : db.dynamicData = []) {actions : List Action}
    {s : Cluster} (hrun : Runs step (start db) actions s) (hlt : s.calls.length < 2 ^ 32) :
    s.inserted.Nodup ∧
    (∀ job ∈ s.jobs, job.stage ≠ .written → s.database.select job.key = none) ∧
    (∀ job ∈ s.jobs, ∀ id, .dynOperand id ∈ job.task.task.operands →
      (s.database.select id.key).isSome ∧ id.key ∈ s.inserted) ∧
    (∀ call ∈ s.calls, call.phase = .cleared →
      (s.database.select ⟨.ofNat call.problemId, .ofNat call.taskId⟩).isSome ∧
        (⟨.ofNat call.problemId, .ofNat call.taskId⟩ : DynamicRecordId) ∈ s.inserted) ∧
    ∀ p, Returned s p → ∀ actions' s', Runs step s actions' s' → s'.calls.length < 2 ^ 32 →
      (∀ key, key.problemId = .ofNat p → s'.database.select key = none) ∧
        s'.insertedOf p = s.insertedOf p := by
  have h := Disciplined.of_runs hempty hrun hlt
  refine ⟨h.orderly.nodup, fun job hjob hstage => h.orderly.select_eq_none hjob hstage,
    fun job hjob id hid => h.found_operand hempty hlt hjob hid, ?_, ?_⟩
  · intro call hcall hphase
    obtain ⟨p, hp⟩ := List.mem_iff_getElem?.mp hcall
    exact h.found_root hempty hp hphase
  · intro p hreturned actions' s' hrun' hlt'
    obtain ⟨h', ⟨call, r, hcall, hphase⟩, hsame⟩ := h.insertedOf_runs hreturned hrun' hlt'
    exact ⟨h'.orderly.returned p call r hcall hphase, hsame⟩

/-- The mean of a list inserts three rows and leaves none. -/
theorem store_discipline_mean : ∃ s, Runs step (start numbers) meanRun s ∧
    s.inserted = [⟨0, 2⟩, ⟨0, 1⟩, ⟨0, 3⟩] ∧ s.inserted.Nodup ∧
    ∀ key, key.problemId = 0 → s.database.select key = none := by
  obtain ⟨s, call, hrun, hcalls, hphase, hinserted⟩ := runs_meanRun
  have hlt : s.calls.length < 2 ^ 32 := by simp [hcalls]
  have hreturned : Returned s 0 := ⟨call, _, by simp [hcalls], hphase⟩
  obtain ⟨hnodup, -, -, -, hafter⟩ := @store_discipline numbers rfl meanRun s hrun hlt
  exact ⟨s, hrun, hinserted, hnodup, (hafter 0 hreturned [] s (Runs.refl step s) hlt).1⟩

end Cluster
end TaskDispatch
