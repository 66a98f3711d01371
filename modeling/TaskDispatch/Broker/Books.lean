import Mathlib
import TaskDispatch.Broker.Capacity
import TaskDispatch.Broker.Fleet

/-!
# The broker's books and the workers they are about

`Traffic` takes the workers as given: an answer is for a task that was published to the worker it
comes from and not answered before. In `Fleet` nothing is given. There are the workers themselves,
with a subscription that comes too late or not at all, and with queues and threads. For the broker
it comes to the same: every run of `Fleet` is one of `Traffic` (`traffic_runs`).

So the books are right about the workers: what the broker counts as free and what a worker has of
it, on its connections, in its queues and on its threads, never exceed what the worker announced
(`within_announced`). A task that is in the queue of a pool has a thread to go to.
-/

set_option autoImplicit false

namespace TaskDispatch

open Proto Transition

/-! ## The cores of a worker -/

namespace Worker

variable {w w' : Worker} {task : WorkerTask}

theorem coreCount_readRequest (h : w.readRequest = some w') : w'.coreCount = w.coreCount := by
  unfold readRequest at h
  split at h
  · cases h
  · dsimp only at h
    split_ifs at h <;> obtain rfl := Option.some.inj h <;> rfl

theorem coreCount_poll (h : w.poll = some w') : w'.coreCount = w.coreCount := by
  unfold poll at h
  split at h
  · cases h
  · split_ifs at h
    obtain rfl := Option.some.inj h
    rfl

theorem coreCount_calculateTask (h : w.calculateTask task = some w') :
    w'.coreCount = w.coreCount := by
  unfold calculateTask at h
  split_ifs at h
  obtain rfl := Option.some.inj h
  rfl

theorem coreCount_checkOutputQueue : w.checkOutputQueue.coreCount = w.coreCount := by
  unfold checkOutputQueue
  split <;> rfl

end Worker

namespace Fleet

/-! ## What the broker takes in -/

/-- What an action takes in from the manager. -/
def Action.request? : Action → Option Task
  | .receiveManagerRequest _ task => some task
  | _ => none

/-- The answer that is first on the connection of a worker. -/
def nextAnswer (s : Fleet) (identity : String) : Option WorkerTaskId :=
  (s.members identity).bind (·.worker.dealer.head?.bind Worker.taskId?)

/-- As `Traffic.OneWaits`: an answer finds the same task at both ends of the queue, or none. -/
def OneWaits (s : Fleet) : Action → Prop
  | .receiveWorkerMessage identity =>
    s.nextAnswer identity ≠ none → s.broker.taskQueue.head? = s.broker.taskQueue.getLast?
  | _ => True

instance (s : Fleet) : DecidablePred s.OneWaits
  | .receiveWorkerMessage _ => inferInstanceAs (Decidable (_ ≠ _ → _ = _))
  | .connect _ _ | .subscribe _ | .readRequest _ | .poll _ | .calculateTask _ _
  | .checkOutputQueue _ | .receiveManagerRequest _ _ => isTrue trivial

/-! ## The broker's view -/

/-- What the broker knows of a worker: the number of cores it announces, what was published to it,
and what it answered. -/
structure Follows (t : Traffic) (identity : String) (m : Member) : Prop where
  identity_eq : m.worker.identity = identity
  announced : ∀ count, (identity, count) ∈ t.registrations ∨ .coreCount count ∈ m.worker.dealer →
    count = Worker.announced m.worker.coreCount
  heard : (m.worker.own m.heard).Sublist (t.broker.workerPub.filter (·.identity = identity))
  arrived : (t.answered.filter (·.identity = identity)).map ThreadPool.response = m.arrived

/-- It has the same books as the broker of `s`. -/
structure Seen (s : Fleet) (t : Traffic) : Prop where
  broker_eq : t.broker = s.broker
  member : ∀ identity m, s.members identity = some m → Follows t identity m
  answered : ∀ workerTask ∈ t.answered, ∃ m, s.members workerTask.identity = some m

/-- `t` is what `s` is to the broker. -/
structure Mirrors (s : Fleet) (t : Traffic) : Prop extends Seen s t where
  balanced : t.Balanced
  orderly : s.Orderly

namespace Follows

variable {t : Traffic} {identity : String} {m : Member} {w' : Worker}

/-- The worker does something the broker does not see. -/
theorem inside (h : Follows t identity m) (hidentity : w'.identity = m.worker.identity)
    (hcoreCount : w'.coreCount = m.worker.coreCount)
    (hdealer : ∀ count, .coreCount count ∈ w'.dealer → .coreCount count ∈ m.worker.dealer) :
    Follows t identity { m with worker := w' } where
  identity_eq := hidentity.trans h.identity_eq
  announced count hcount :=
    (h.announced count (hcount.imp_right (hdealer count))).trans (by rw [← hcoreCount])
  heard := by
    show (w'.own m.heard).Sublist _
    rw [Worker.own_congr hidentity]
    exact h.heard
  arrived := h.arrived

/-- What is published reaches the worker, or it does not. -/
theorem hear {b : Broker} {published : List WorkerTask} (h : Follows t identity m)
    (hpub : b.workerPub = t.broker.workerPub ++ published) :
    Follows { t with broker := b } identity (m.hear published) := by
  have hsame : m.hear published = m ∨ m.hear published = { m with
      worker := { m.worker with subscriber := m.worker.subscriber ++ published }
      heard := m.heard ++ published } := by
    unfold Member.hear
    split_ifs
    · exact .inr rfl
    · exact .inl rfl
  have hfilter : b.workerPub.filter (·.identity = identity) =
      t.broker.workerPub.filter (·.identity = identity) ++ m.worker.own published := by
    rw [hpub, List.filter_append, Worker.own, h.identity_eq]
  rcases hsame with heq | heq <;> rw [heq]
  · refine ⟨h.identity_eq, h.announced, ?_, h.arrived⟩
    show (m.worker.own m.heard).Sublist (b.workerPub.filter _)
    rw [hfilter]
    exact h.heard.trans (List.sublist_append_left _ _)
  · refine ⟨h.identity_eq, h.announced, ?_, h.arrived⟩
    show (m.worker.own (m.heard ++ published)).Sublist (b.workerPub.filter _)
    rw [hfilter, Worker.own, List.filter_append]
    exact h.heard.append (List.Sublist.refl _)

end Follows

namespace Mirrors

variable {s s' : Fleet} {t : Traffic} {identity : String} {m m' : Member} {coreCount : ℕ}
  {id : WorkerTaskId} {dealer : List WorkerMessage} {found : Option String} {task : Task}
  {a : Action}

theorem init : Mirrors {} {} where
  broker_eq := rfl
  member := by simp
  answered := by simp
  balanced := .init
  orderly := .init

/-- **An answer on its way is for a task that was published to this worker and is not answered.** Of
the answers with this id, one more is under way than has arrived, and no more than tasks were
heard. -/
theorem exists_unanswered (h : Mirrors s t) (hm : s.members identity = some m)
    (hdealer : m.worker.dealer = .taskId id :: dealer) :
    ∃ workerTask ∈ t.unanswered, ThreadPool.response workerTask = id := by
  obtain ⟨finished, answered, hconserves⟩ := (h.orderly.member identity m hm).conserves
  have hfollows := h.member identity m hm
  -- the answers, arrived or not, are for tasks that were heard, so for tasks published
  have hpublished : (answered : Multiset WorkerTask) ≤
      (t.broker.workerPub : Multiset WorkerTask).filter (·.identity = identity) := by
    refine le_trans ?_ (Multiset.coe_le.mpr hfollows.heard.subperm)
    rw [hconserves.heard_eq]
    exact Multiset.le_add_left _ _
  have hresponses : ((m.arrived ++ [id] : List WorkerTaskId) : Multiset WorkerTaskId) ≤
      ((t.broker.workerPub : Multiset WorkerTask).filter (·.identity = identity)).map
        ThreadPool.response := by
    refine le_trans ?_ (Multiset.map_le_map hpublished)
    rw [Multiset.map_coe, ← hconserves.answered_eq, hdealer]
    apply Multiset.coe_le.mpr
    exact ((List.Sublist.refl m.arrived).append
      (List.singleton_sublist.mpr List.mem_cons_self)).subperm
  -- what was published is what was answered and what was not
  have hsplit : (t.broker.workerPub : Multiset WorkerTask) = t.unanswered + t.answered :=
    (tsub_add_cancel_of_le h.balanced.answered_le).symm
  rw [hsplit, Multiset.filter_add, Multiset.map_add, Multiset.filter_coe, Multiset.map_coe,
    hfollows.arrived, ← Multiset.coe_add, add_comm, add_le_add_iff_right] at hresponses
  obtain ⟨workerTask, hmem, hid⟩ := Multiset.mem_map.mp
    (Multiset.mem_of_le hresponses (Multiset.mem_coe.mpr (List.mem_singleton_self id)))
  exact ⟨workerTask, Multiset.mem_of_mem_filter hmem, hid⟩

/-! ### Steps of a worker -/

/-- One worker moves on, and the broker does not. -/
theorem setMember (h : Mirrors s t) (horderly : (s.setMember identity m').Orderly)
    (hm' : Follows t identity m') : Mirrors (s.setMember identity m') t where
  broker_eq := h.broker_eq
  balanced := h.balanced
  orderly := horderly
  member identity' m hm := by
    rw [members_setMember] at hm
    split_ifs at hm with heq
    · subst heq
      obtain rfl := Option.some.inj hm
      exact hm'
    · exact h.member identity' m hm
  answered workerTask hmem := by
    rw [members_setMember]
    split_ifs
    · exact ⟨m', rfl⟩
    · exact h.answered workerTask hmem

theorem onMember (h : Mirrors s t) (horderly : s'.Orderly) {f : Member → Option Member}
    (hstep : s.onMember identity f = some s')
    (hf : ∀ m m', Follows t identity m → f m = some m' → Follows t identity m') :
    Mirrors s' t := by
  obtain ⟨m, m', hm, hfm, rfl⟩ := onMember_eq_some.mp hstep
  exact h.setMember horderly (hf m m' (h.member identity m hm) hfm)

theorem connect (h : Mirrors s t) (horderly : s'.Orderly)
    (hstep : Fleet.step s (.connect identity coreCount) = some s') : Mirrors s' t := by
  simp only [Fleet.step] at hstep
  split_ifs at hstep with hnew
  obtain rfl := Option.some.inj hstep
  apply h.setMember horderly
  refine ⟨rfl, ?_, List.nil_sublist _, ?_⟩
  · intro count hcount
    rcases hcount with hregistered | hannounced
    · -- only workers that are there are registered
      have hknown := (h.balanced.registered identity).mpr ⟨count, hregistered⟩
      rw [h.broker_eq] at hknown
      obtain ⟨m, hm⟩ := h.orderly.known identity hknown
      rw [hnew.2] at hm
      cases hm
    · exact WorkerMessage.coreCount.inj (List.mem_singleton.mp hannounced)
  · have hnone : t.answered.filter (·.identity = identity) = [] := by
      apply List.filter_eq_nil_iff.mpr
      intro workerTask hmem hidentity
      obtain ⟨m, hm⟩ := h.answered workerTask hmem
      rw [of_decide_eq_true hidentity, hnew.2] at hm
      cases hm
    rw [hnone]
    rfl

/-! ### Steps of the broker -/

/-- The broker goes on, with the members after what it has published. -/
theorem goOn {b : Broker} {published : List WorkerTask} (h : Seen s t)
    (hpublishes : Publishes s.broker b published) : Seen (s.goOn b) { t with broker := b } where
  broker_eq := rfl
  member identity m hm := by
    rw [members_goOn hpublishes, Option.map_eq_some_iff] at hm
    obtain ⟨m, hm, rfl⟩ := hm
    apply (h.member identity m hm).hear
    rw [h.broker_eq]
    exact hpublishes.workerPub
  answered workerTask hmem := by
    obtain ⟨m, hm⟩ := h.answered workerTask hmem
    exact ⟨m.hear published, by rw [members_goOn hpublishes, hm]; rfl⟩

theorem registerWorker (h : Mirrors s t) {count : UInt32} {b : Broker}
    (hm : s.members identity = some m) (hdealer : m.worker.dealer = [.coreCount count])
    (hb : s.broker.registerWorker identity count = .ok b) {s' : Fleet} (horderly : s'.Orderly)
    (hs' : s' = (s.setMember identity { m with
      worker := { m.worker with dealer := [] }
      arrived := m.arrived ++ (Worker.taskId? (.coreCount count)).toList }).goOn b) :
    ∃ t', t.step (.receiveWorkerMessage (.coreCount identity count)) = some t' ∧ Mirrors s' t' ∧
      t'.received = t.received := by
  have hmembers : s'.members = (s.setMember identity { m with
      worker := { m.worker with dealer := [] }
      arrived := m.arrived ++ (Worker.taskId? (.coreCount count)).toList }).members := by
    rw [hs']
    exact members_goOn_of_registerWorker hb
  obtain ⟨hnew, rfl⟩ := Broker.registerWorker_eq_ok.mp hb
  rw [← h.broker_eq] at hnew
  refine ⟨_, Traffic.step_coreCount.mpr ⟨hnew, rfl⟩, ?_, rfl⟩
  have hfollows := h.member identity m hm
  refine
    { broker_eq := by rw [hs', h.broker_eq]; rfl
      member := ?_
      answered := ?_
      balanced := h.balanced.step (Traffic.step_coreCount.mpr ⟨hnew, rfl⟩)
      orderly := horderly }
  · intro identity' m' hm'
    rw [hmembers, members_setMember] at hm'
    split_ifs at hm' with heq
    · subst heq
      obtain rfl := Option.some.inj hm'
      refine ⟨hfollows.identity_eq, ?_, hfollows.heard,
        hfollows.arrived.trans (List.append_nil _).symm⟩
      intro count' hcount
      rcases hcount with hregistered | hpending
      · apply hfollows.announced count'
        rcases List.mem_append.mp hregistered with hold | hadded
        · exact .inl hold
        · -- the registration just taken in was on the connection
          obtain ⟨-, rfl⟩ := Prod.mk.inj (List.mem_singleton.mp hadded)
          exact .inr (hdealer ▸ List.mem_singleton_self _)
      · cases hpending
    · have hfollows' := h.member identity' m' hm'
      refine ⟨hfollows'.identity_eq, ?_, hfollows'.heard, hfollows'.arrived⟩
      intro count' hcount
      apply hfollows'.announced count'
      rcases hcount with hregistered | hpending
      · rcases List.mem_append.mp hregistered with hold | hadded
        · exact .inl hold
        · exact absurd (Prod.mk.inj (List.mem_singleton.mp hadded)).1 heq
      · exact .inr hpending
  · intro workerTask hmem
    rw [hmembers, members_setMember]
    split_ifs
    · exact ⟨_, rfl⟩
    · exact h.answered workerTask hmem

/-- The answer to a task is taken off the connection, and the task is answered. -/
theorem receive (h : Seen s t) {workerTask : WorkerTask} (hm : s.members identity = some m)
    (hdealer : m.worker.dealer = .taskId (ThreadPool.response workerTask) :: dealer)
    (hidentity : workerTask.identity = identity) :
    Seen (s.setMember identity { m with
      worker := { m.worker with dealer }
      arrived := m.arrived ++ (Worker.taskId? (.taskId (ThreadPool.response workerTask))).toList })
      { t with answered := t.answered ++ [workerTask] } where
  broker_eq := h.broker_eq
  member identity' m' hm' := by
    rw [members_setMember] at hm'
    split_ifs at hm' with heq
    · subst heq
      obtain rfl := Option.some.inj hm'
      have hfollows := h.member identity' m hm
      refine ⟨hfollows.identity_eq, ?_, hfollows.heard, ?_⟩
      · intro count hcount
        apply hfollows.announced count
        rw [hdealer]
        exact hcount.imp_right (List.mem_cons_of_mem _)
      · show (List.filter _ (t.answered ++ [workerTask])).map _ = m.arrived ++ [_]
        rw [List.filter_append, List.map_append, hfollows.arrived]
        simp [hidentity]
    · have hfollows := h.member identity' m' hm'
      refine ⟨hfollows.identity_eq, hfollows.announced, hfollows.heard, ?_⟩
      show (List.filter _ (t.answered ++ [workerTask])).map _ = m'.arrived
      rw [List.filter_append, List.map_append, hfollows.arrived]
      have hne : ¬workerTask.identity = identity' := fun h => heq (h.symm.trans hidentity)
      simp [hne]
  answered wt hwt := by
    rw [members_setMember]
    split_ifs with heq
    · exact ⟨_, rfl⟩
    · rcases List.mem_append.mp hwt with hold | hadded
      · exact h.answered wt hold
      · rw [List.mem_singleton.mp hadded] at heq
        exact absurd hidentity heq

/-- An answer is handled, as the answer to a task that was published and is not answered. -/
theorem processWorkerTaskReply (h : Mirrors s t) {b : Broker} (hm : s.members identity = some m)
    (hdealer : m.worker.dealer = .taskId id :: dealer) (hidentity : id.identity = identity)
    (hb : s.broker.processWorkerTaskReply id = .ok b) {s' : Fleet} (horderly : s'.Orderly)
    (hs' : s' = (s.setMember identity { m with
      worker := { m.worker with dealer }
      arrived := m.arrived ++ (Worker.taskId? (.taskId id)).toList }).goOn b) :
    ∃ workerTask t', t.step (.receiveWorkerMessage (.taskId workerTask)) = some t' ∧
      Mirrors s' t' ∧ t'.received = t.received := by
  obtain ⟨workerTask, hmem, rfl⟩ := h.exists_unanswered hm hdealer
  obtain ⟨published, hpublishes, -⟩ := publishes_reply hb
  have hstep : t.step (.receiveWorkerMessage (.taskId workerTask)) =
      some { t with broker := b, answered := t.answered ++ [workerTask] } := by
    have hb' : t.broker.receiveWorkerMessage workerTask.identity
        (.taskId (ThreadPool.response workerTask)) = .ok b := by
      rw [h.broker_eq]
      exact hb
    simp [Traffic.step, hmem, hb', Except.toOption]
  refine ⟨workerTask, _, hstep, ?_, rfl⟩
  have hseen := goOn (receive h.toSeen hm hdealer hidentity) hpublishes
  rw [← hs'] at hseen
  exact { hseen with balanced := h.balanced.step hstep, orderly := horderly }

theorem receiveManagerRequest (h : Mirrors s t) (horderly : s'.Orderly)
    (hstep : Fleet.step s (.receiveManagerRequest found task) = some s') :
    ∃ t', t.step (.receiveManagerRequest found task) = some t' ∧ Mirrors s' t' ∧
      t'.received = t.received ++ [task] := by
  obtain ⟨hfinds, b, hb, rfl⟩ := step_receiveManagerRequest.mp hstep
  have hstep : t.step (.receiveManagerRequest found task) =
      some { t with broker := b, received := t.received ++ [task] } := by
    rw [← h.broker_eq] at hfinds hb
    simp [Traffic.step, hfinds, hb, Except.toOption]
  refine ⟨_, hstep, ?_, rfl⟩
  have hseen := goOn h.toSeen (publishes_request hb)
  exact
    { broker_eq := hseen.broker_eq
      member := fun identity m hm =>
        let hfollows := hseen.member identity m hm
        ⟨hfollows.identity_eq, hfollows.announced, hfollows.heard, hfollows.arrived⟩
      answered := hseen.answered
      balanced := h.balanced.step hstep
      orderly := horderly }

/-! ### Every step -/

/-- **Every step of the workers and the broker is one of `Traffic`, or none**, and what balances
there does so afterwards, as long as an answer finds one task waiting at most. -/
theorem step (h : Mirrors s t) (hstep : Fleet.step s a = some s') : ∃ actions t',
    Runs Traffic.step t actions t' ∧ Mirrors s' t' ∧
      t'.received = t.received ++ a.request?.toList ∧
      (s.OneWaits a → t.TasksBalance → t'.TasksBalance) := by
  have horderly := h.orderly.step hstep
  -- a step that the broker takes no part in
  have hinside : Mirrors s' t → a.request? = none → ∃ actions t',
      Runs Traffic.step t actions t' ∧ Mirrors s' t' ∧
        t'.received = t.received ++ a.request?.toList ∧
        (s.OneWaits a → t.TasksBalance → t'.TasksBalance) := by
    intro hmirrors hrequest
    exact ⟨[], t, Runs.refl _ t, hmirrors, by simp [hrequest], fun _ hbalance => hbalance⟩
  cases a with
  | connect identity coreCount => exact hinside (h.connect horderly hstep) rfl
  | subscribe identity =>
    refine hinside (h.onMember horderly hstep ?_) rfl
    intro m m' hfollows hm'
    obtain rfl := Option.some.inj hm'
    exact ⟨hfollows.identity_eq, hfollows.announced, hfollows.heard, hfollows.arrived⟩
  | readRequest identity =>
    refine hinside (h.onMember horderly hstep ?_) rfl
    intro m m' hfollows hm'
    obtain ⟨w', hw', rfl⟩ := withWorker_eq_some hm'
    have hsame := Worker.sameOutside_readRequest hw'
    exact hfollows.inside hsame.identity_eq (Worker.coreCount_readRequest hw')
      fun _ hmem => hsame.dealer_eq ▸ hmem
  | poll identity =>
    refine hinside (h.onMember horderly hstep ?_) rfl
    intro m m' hfollows hm'
    obtain ⟨w', hw', rfl⟩ := withWorker_eq_some hm'
    have hsame := Worker.sameOutside_poll hw'
    exact hfollows.inside hsame.identity_eq (Worker.coreCount_poll hw')
      fun _ hmem => hsame.dealer_eq ▸ hmem
  | calculateTask identity task =>
    refine hinside (h.onMember horderly hstep ?_) rfl
    intro m m' hfollows hm'
    obtain ⟨w', hw', rfl⟩ := withWorker_eq_some hm'
    have hsame := Worker.sameOutside_calculateTask hw'
    exact hfollows.inside hsame.identity_eq (Worker.coreCount_calculateTask hw')
      fun _ hmem => hsame.dealer_eq ▸ hmem
  | checkOutputQueue identity =>
    refine hinside (h.onMember horderly hstep ?_) rfl
    intro m m' hfollows hm'
    obtain rfl := Option.some.inj hm'
    obtain ⟨hidentity, ⟨-, hdealer⟩ | ⟨id, -, hdealer⟩⟩ := m.worker.checkOutputQueue_eq
    · exact hfollows.inside hidentity Worker.coreCount_checkOutputQueue
        fun _ hmem => hdealer ▸ hmem
    · apply hfollows.inside hidentity Worker.coreCount_checkOutputQueue
      intro count hmem
      -- an answer more, and no registration
      rw [hdealer] at hmem
      simpa using hmem
  | receiveWorkerMessage identity =>
    obtain ⟨m, message, dealer, b, hm, hdealer, hb, hs'⟩ := step_receiveWorkerMessage.mp hstep
    rcases h.orderly.receiveWorkerMessage_cases hm hdealer with
      ⟨count, rfl, rfl, -⟩ | ⟨id, rfl, hid, -⟩
    · obtain ⟨t', ht', hmirrors, hreceived⟩ := h.registerWorker hm hdealer hb horderly hs'
      refine ⟨_, t', Runs.single ht', hmirrors, by simp [hreceived, Action.request?], ?_⟩
      intro _ hbalance
      exact (Traffic.tasksBalance_step h.balanced hbalance ht').mpr trivial
    · obtain ⟨workerTask, t', ht', hmirrors, hreceived⟩ :=
        h.processWorkerTaskReply hm hdealer hid hb horderly hs'
      refine ⟨_, t', Runs.single ht', hmirrors, by simp [hreceived, Action.request?], ?_⟩
      intro hone hbalance
      apply (Traffic.tasksBalance_step h.balanced hbalance ht').mpr
      show t.broker.taskQueue.head? = t.broker.taskQueue.getLast?
      rw [h.broker_eq]
      apply hone
      simp [nextAnswer, hm, hdealer, Worker.taskId?]
  | receiveManagerRequest found task =>
    obtain ⟨t', ht', hmirrors, hreceived⟩ := h.receiveManagerRequest horderly hstep
    refine ⟨_, t', Runs.single ht', hmirrors, hreceived, ?_⟩
    intro _ hbalance
    exact (Traffic.tasksBalance_step h.balanced hbalance ht').mpr trivial

end Mirrors

theorem Mirrors.of_runs {actions : List Action} {s : Fleet}
    (hrun : Runs Fleet.step {} actions s) :
    ∃ actions' t, Runs Traffic.step {} actions' t ∧ Mirrors s t ∧
      t.received = actions.filterMap Action.request? := by
  refine hrun.invariant (I := fun actions s => ∃ actions' t, Runs Traffic.step {} actions' t ∧
    Mirrors s t ∧ t.received = actions.filterMap Action.request?) ⟨[], {}, rfl, .init, rfl⟩ ?_
  rintro actions s₁ a s₂ - ⟨actions', t, ht, hmirrors, hreceived⟩ hstep
  obtain ⟨actions'', t', ht', hmirrors', hreceived', -⟩ := hmirrors.step hstep
  refine ⟨_, t', ht.trans ht', hmirrors', ?_⟩
  rw [hreceived', hreceived, List.filterMap_append]
  cases a <;> rfl

end Fleet

/-- What a worker has of the broker's tasks: to be read, in the queue of the pool, on its threads,
in the output queue, and on the connection. -/
def Member.load (m : Member) : ℕ :=
  (m.worker.own m.worker.subscriber).length + m.worker.tasks.length + m.worker.hands.card +
    m.worker.finishedTasks.length + m.worker.dealer.length

namespace Fleet

section Load

variable {s : Fleet} {t : Traffic} {identity : String} {m : Member}

/-- What a registered worker has, and what it has answered, was published to it. -/
theorem Mirrors.load_le (h : Mirrors s t) (hm : s.members identity = some m)
    (hregistered : identity ∈ s.broker.workerRoutingIdToAvailableCoreCount) :
    m.load + m.arrived.length ≤ t.broker.workerPub.countP (·.identity = identity) := by
  have hok := h.orderly.member identity m hm
  obtain ⟨finished, answered, hconserves⟩ := hok.conserves
  have hanswers : ∀ message ∈ m.worker.dealer, ∃ id, message = .taskId id := by
    rcases hok.dealer with ⟨hnew, -⟩ | ⟨-, hanswers⟩
    · exact absurd hregistered hnew
    · exact hanswers
  -- every message on the connection is an answer
  have hdealer : (m.worker.dealer.filterMap Worker.taskId?).length = m.worker.dealer.length := by
    rw [List.length_filterMap_eq_countP]
    apply List.countP_eq_length.mpr
    intro message hmessage
    obtain ⟨id, rfl⟩ := hanswers message hmessage
    rfl
  have hfinished := congrArg List.length hconserves.finished_eq
  have hanswered := congrArg List.length hconserves.answered_eq
  have hheard := congrArg Multiset.card hconserves.heard_eq
  have hle := (h.member identity m hm).heard.length_le
  simp only [List.length_map, List.length_append, hdealer] at hfinished hanswered
  simp only [Multiset.card_add, Multiset.coe_card] at hheard
  rw [← List.countP_eq_length_filter] at hle
  rw [Member.load]
  omega

/-- Published, and answered or not. -/
theorem Mirrors.countP_unanswered (h : Mirrors s t) (hm : s.members identity = some m) :
    t.unanswered.countP (·.identity = identity) + m.arrived.length =
      t.broker.workerPub.countP (·.identity = identity) := by
  have hanswered : t.answered.countP (·.identity = identity) = m.arrived.length := by
    rw [← (h.member identity m hm).arrived, List.length_map, List.countP_eq_length_filter]
  have hsplit : (t.broker.workerPub : Multiset WorkerTask) = t.unanswered + t.answered :=
    (tsub_add_cancel_of_le h.balanced.answered_le).symm
  have hcount := congrArg (Multiset.countP fun wt => wt.identity = identity) hsplit
  rw [Multiset.countP_add, Multiset.coe_countP, Multiset.coe_countP, hanswered] at hcount
  exact hcount.symm

/-- The free cores, what was published, and what the worker has. -/
theorem Mirrors.available (h : Mirrors s t) (hm : s.members identity = some m)
    (hregistered : identity ∈ s.broker.workerRoutingIdToAvailableCoreCount) :
    ∃ available, s.broker.workerRoutingIdToAvailableCoreCount[identity]? = some available ∧
      available.toNat + s.broker.workerPub.countP (·.identity = identity) =
        (Worker.announced m.worker.coreCount).toNat + m.arrived.length ∧
      available.toNat + m.load ≤ (Worker.announced m.worker.coreCount).toNat := by
  have hload := h.load_le hm hregistered
  have hcount := h.countP_unanswered hm
  rw [← h.broker_eq] at hregistered ⊢
  obtain ⟨count, hcountMem⟩ := (h.balanced.registered identity).mp hregistered
  obtain ⟨available, havailable, hsum⟩ := h.balanced.cores identity count hcountMem
  rw [(h.member identity m hm).announced count (.inl hcountMem)] at hsum
  exact ⟨available, havailable, by omega, by omega⟩

end Load

/-! ## Results -/

/-- **To the broker, every run is a run of `Traffic`**: with the same broker, the same requests in
the same order, and answers only to tasks that were published to the worker they come from and not
answered before, and in the order in which that worker gave them. -/
theorem traffic_runs {actions : List Action} {s : Fleet} (hrun : Runs step {} actions s) :
    ∃ actions' t, Runs Traffic.step {} actions' t ∧ t.broker = s.broker ∧
      t.received = actions.filterMap Action.request? ∧
      ∀ identity m, s.members identity = some m →
        (t.answered.filter (·.identity = identity)).map ThreadPool.response = m.arrived := by
  obtain ⟨actions', t, ht, hmirrors, hreceived⟩ := Mirrors.of_runs hrun
  exact ⟨actions', t, ht, hmirrors.broker_eq, hreceived,
    fun identity m hm => (hmirrors.member identity m hm).arrived⟩

/-- A worker of two cores, one task on its way through it. -/
def queuedRun : List Action :=
  [.connect "worker" 2, .subscribe "worker", .receiveWorkerMessage "worker",
    .receiveManagerRequest (some "worker") (Traffic.taskNumber 1), .readRequest "worker"]

theorem traffic_runs_queued : ∃ s actions' t, Runs step {} queuedRun s ∧
    Runs Traffic.step {} actions' t ∧ t.broker = s.broker ∧
    t.received = [Traffic.taskNumber 1] := by
  obtain ⟨s, hrun⟩ : ∃ s, Runs step {} queuedRun s := ⟨_, rfl⟩
  obtain ⟨actions', t, ht, hbroker, hreceived, -⟩ := @traffic_runs queuedRun s hrun
  exact ⟨s, actions', t, hrun, ht, hbroker, hreceived⟩

/-- **The books are right about the workers.** In every run of the broker with its workers: the free
cores of a registered worker, and what was published to it, are what it announced and what it has
answered; so what it has never exceeds the cores it announced that are not free. -/
theorem within_announced {actions : List Action} {s : Fleet} (hrun : Runs step {} actions s)
    {identity : String} {m : Member} (hm : s.members identity = some m)
    (hregistered : identity ∈ s.broker.workerRoutingIdToAvailableCoreCount) :
    ∃ available, s.broker.workerRoutingIdToAvailableCoreCount[identity]? = some available ∧
      available.toNat + s.broker.workerPub.countP (·.identity = identity) =
        (Worker.announced m.worker.coreCount).toNat + m.arrived.length ∧
      available.toNat + m.load ≤ (Worker.announced m.worker.coreCount).toNat := by
  obtain ⟨_, _, -, h, -⟩ := Mirrors.of_runs hrun
  exact h.available hm hregistered

/-- The worker has the one core it announced. -/
theorem within_announced_queued : ∃ s m, Runs step {} queuedRun s ∧
    s.members "worker" = some m ∧ m.worker.tasks = [⟨"worker", Traffic.taskNumber 1⟩] ∧
    ∃ available, s.broker.workerRoutingIdToAvailableCoreCount["worker"]? = some available ∧
      available.toNat + m.load ≤ 1 := by
  obtain ⟨s, m, hrun, hm, htasks, hcount, hregistered⟩ : ∃ s m, Runs step {} queuedRun s ∧
      s.members "worker" = some m ∧ m.worker.tasks = [⟨"worker", Traffic.taskNumber 1⟩] ∧
      m.worker.coreCount = 2 ∧ "worker" ∈ s.broker.workerRoutingIdToAvailableCoreCount :=
    ⟨_, _, rfl, rfl, rfl, rfl, by decide⟩
  obtain ⟨available, havailable, -, hload⟩ := @within_announced queuedRun s hrun "worker" m hm
    hregistered
  rw [hcount] at hload
  exact ⟨s, m, hrun, hm, htasks, available, havailable, hload⟩

/-- **A task in the queue of a pool has a thread to go to.** A worker that was started with threads
is never given more tasks than leave one of them free. -/
theorem poll_of_tasks {actions : List Action} {s : Fleet} (hrun : Runs step {} actions s)
    {identity : String} {m : Member} (hm : s.members identity = some m)
    (htasks : m.worker.tasks ≠ []) (hpos : m.worker.coreCount ≠ 0) :
    m.worker.tasks.length + m.worker.hands.card < m.worker.coreCount ∧
      ∃ s', step s (.poll identity) = some s' := by
  have horderly := Orderly.of_runs hrun
  have hok := horderly.member identity m hm
  have hregistered : identity ∈ s.broker.workerRoutingIdToAvailableCoreCount := by
    obtain ⟨_, _, hconserves⟩ := hok.conserves
    obtain ⟨task, htask⟩ := List.exists_mem_of_ne_nil _ htasks
    -- it has been heard, so it was published to a worker that is known
    have hheard : task ∈ (m.worker.own m.heard : Multiset WorkerTask) := by
      rw [hconserves.heard_eq]
      simp [htask]
    obtain ⟨hmem, hidentity⟩ := List.mem_filter.mp (Multiset.mem_coe.mp hheard)
    have hknown := hok.known task hmem
    rwa [of_decide_eq_true hidentity, hok.identity_eq] at hknown
  obtain ⟨_, _, -, hmirrors, -⟩ := Mirrors.of_runs hrun
  obtain ⟨available, -, -, hload⟩ := hmirrors.available hm hregistered
  have hannounced := Worker.toNat_announced hpos m.worker.coreCount_lt
  rw [Member.load] at hload
  have hlt : m.worker.tasks.length + m.worker.hands.card < m.worker.coreCount := by omega
  refine ⟨hlt, ?_⟩
  cases hqueue : m.worker.tasks with
  | nil => exact absurd hqueue htasks
  | cons task rest =>
    have hfree : m.worker.hands.card < m.worker.coreCount := by omega
    simp [step, onMember, hm, Worker.poll, hqueue, hfree]

theorem poll_of_tasks_queued : ∃ s s', Runs step {} queuedRun s ∧
    step s (.poll "worker") = some s' := by
  obtain ⟨s, m, hrun, hm, htasks, hpos⟩ : ∃ s m, Runs step {} queuedRun s ∧
      s.members "worker" = some m ∧ m.worker.tasks ≠ [] ∧ m.worker.coreCount ≠ 0 :=
    ⟨_, _, rfl, rfl, by decide, by decide⟩
  obtain ⟨-, s', hstep⟩ := @poll_of_tasks queuedRun s hrun "worker" m hm htasks hpos
  exact ⟨s, s', hrun, hstep⟩

end Fleet
end TaskDispatch
