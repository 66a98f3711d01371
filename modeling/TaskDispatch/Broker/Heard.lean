import Mathlib
import TaskDispatch.Broker.Fleet

/-!
# A published task and its worker

Every task that is published to a worker is executed there, and answered once (`executed_once`),
provided that no task is given to a worker whose registration has overtaken its subscription.
Otherwise the task is lost, and the core that was taken for it stays taken (`allHeard_iff`,
`task_unheard`).
-/

set_option autoImplicit false

namespace TaskDispatch

open Proto Transition

namespace Fleet

/-- No request of the manager is given to a worker that is not subscribed. -/
def Audible (s : Fleet) : Action → Prop
  | .receiveManagerRequest (some identity) _ => ∀ m ∈ s.members identity, m.subscribed = true
  | _ => True

instance (s : Fleet) : DecidablePred s.Audible
  | .receiveManagerRequest (some identity) _ =>
    inferInstanceAs (Decidable (∀ m ∈ s.members identity, m.subscribed = true))
  | .receiveManagerRequest none _ | .connect .. | .subscribe _ | .readRequest _ | .poll _
  | .calculateTask .. | .checkOutputQueue _ | .receiveWorkerMessage _ => isTrue trivial

/-- What is published reaches the worker it is for, as often as it is published. -/
def AllHeard (s : Fleet) : Prop :=
  ∀ task ∈ s.broker.workerPub, ∃ m, s.members task.identity = some m ∧
    m.heard.count task = s.broker.workerPub.count task

/-- A worker has been handed its own tasks, all of them, in order. -/
def OwnHeard (s : Fleet) : Prop :=
  ∀ identity m, s.members identity = some m →
    m.worker.own m.heard = m.worker.own s.broker.workerPub

namespace OwnHeard

variable {s s' : Fleet} {identity : String} {m m' : Member} {a : Action}

theorem init : OwnHeard {} := by simp [OwnHeard]

/-- A worker is handed nothing. -/
theorem setMember (h : OwnHeard s)
    (hm' : m'.worker.own m'.heard = m'.worker.own s.broker.workerPub) :
    OwnHeard (s.setMember identity m') := by
  intro identity' m hm
  rw [members_setMember] at hm
  split_ifs at hm with heq
  · obtain rfl := Option.some.inj hm
    exact hm'
  · exact h identity' m hm

theorem onMember (h : OwnHeard s) {f : Member → Option Member}
    (hstep : s.onMember identity f = some s')
    (hf : ∀ m m', f m = some m' → m'.worker.identity = m.worker.identity ∧ m'.heard = m.heard) :
    OwnHeard s' := by
  obtain ⟨m, m', hm, hfm, rfl⟩ := onMember_eq_some.mp hstep
  obtain ⟨hidentity, hheard⟩ := hf m m' hfm
  apply h.setMember
  rw [Worker.own_congr hidentity, Worker.own_congr hidentity, hheard]
  exact h identity m hm

/-- Those who are published to hear it if they are subscribed. -/
theorem goOn {b : Broker} {published : List WorkerTask} (h : OwnHeard s) (horderly : Orderly s)
    (hpublishes : Publishes s.broker b published)
    (hsubscribed : ∀ task ∈ published, ∀ m ∈ s.members task.identity, m.subscribed = true) :
    OwnHeard (s.goOn b) := by
  intro identity m hm
  rw [members_goOn hpublishes, Option.map_eq_some_iff] at hm
  obtain ⟨m, hm, rfl⟩ := hm
  have hidentity := (horderly.member identity m hm).identity_eq
  have hown : ∀ tasks, m.worker.own (tasks ++ published) =
      m.worker.own tasks ++ m.worker.own published := fun tasks => List.filter_append ..
  show (m.hear published).worker.own (m.hear published).heard =
    (m.hear published).worker.own b.workerPub
  rw [hpublishes.workerPub]
  unfold Member.hear
  split_ifs with hsub
  · show m.worker.own (m.heard ++ published) = m.worker.own (s.broker.workerPub ++ published)
    rw [hown, hown, h identity m hm]
  · -- nothing was for this worker
    have hnone : m.worker.own published = [] := by
      apply List.filter_eq_nil_iff.mpr
      intro task htask hmine
      have heq : task.identity = identity := by
        rw [← hidentity]
        simpa using hmine
      exact hsub (hsubscribed task htask m (heq ▸ hm))
    rw [hown, hnone, List.append_nil, h identity m hm]

/-- Only those who have heard a task have answered one. -/
theorem subscribed_of_answer (hok : MemberOk s.broker identity m) {id : WorkerTaskId}
    {dealer : List WorkerMessage} (hdealer : m.worker.dealer = .taskId id :: dealer) :
    m.subscribed = true := by
  by_contra hdeaf
  obtain ⟨finished, answered, hconserves⟩ := hok.conserves
  have hheard := hconserves.heard_eq
  have hanswered := hconserves.answered_eq
  rw [hok.deaf (by simpa using hdeaf)] at hheard
  have hnil : answered = [] := by
    apply (Multiset.coe_eq_zero answered).mp
    apply Multiset.le_zero.mp
    have hzero : (m.worker.own [] : Multiset WorkerTask) = 0 := rfl
    rw [← hzero, hheard]
    exact Multiset.le_add_left _ _
  rw [hnil, hdealer] at hanswered
  simp [Worker.taskId?] at hanswered

theorem step (h : OwnHeard s) (horderly : Orderly s) (haudible : s.Audible a)
    (hstep : Fleet.step s a = some s') : OwnHeard s' := by
  cases a with
  | connect identity coreCount =>
    simp only [Fleet.step] at hstep
    split_ifs at hstep with hnew
    obtain rfl := Option.some.inj hstep
    apply h.setMember
    -- nothing was published for a worker that was not there
    symm
    apply List.filter_eq_nil_iff.mpr
    intro task htask hmine
    have heq : task.identity = identity := of_decide_eq_true hmine
    obtain ⟨m, hm⟩ := horderly.known _ (horderly.published task htask)
    rw [heq, hnew.2] at hm
    cases hm
  | subscribe identity =>
    apply h.onMember hstep
    intro m m' hm'
    obtain rfl := Option.some.inj hm'
    exact ⟨rfl, rfl⟩
  | readRequest identity =>
    apply h.onMember hstep
    intro m m' hm'
    obtain ⟨w', hw', rfl⟩ := withWorker_eq_some hm'
    exact ⟨(Worker.sameOutside_readRequest hw').identity_eq, rfl⟩
  | poll identity =>
    apply h.onMember hstep
    intro m m' hm'
    obtain ⟨w', hw', rfl⟩ := withWorker_eq_some hm'
    exact ⟨(Worker.sameOutside_poll hw').identity_eq, rfl⟩
  | calculateTask identity task =>
    apply h.onMember hstep
    intro m m' hm'
    obtain ⟨w', hw', rfl⟩ := withWorker_eq_some hm'
    exact ⟨(Worker.sameOutside_calculateTask hw').identity_eq, rfl⟩
  | checkOutputQueue identity =>
    apply h.onMember hstep
    intro m m' hm'
    obtain rfl := Option.some.inj hm'
    exact ⟨m.worker.checkOutputQueue_eq.1, rfl⟩
  | receiveWorkerMessage identity =>
    obtain ⟨m, message, dealer, b, hm, hdealer, hb, rfl⟩ := step_receiveWorkerMessage.mp hstep
    rcases horderly.receiveWorkerMessage_cases hm hdealer with
      ⟨count, rfl, rfl, -⟩ | ⟨id, rfl, hid, hregistered⟩
    · intro identity' m' hm'
      rw [members_goOn_of_registerWorker (s := s.setMember identity _) hb] at hm'
      obtain ⟨-, rfl⟩ := Broker.registerWorker_eq_ok.mp hb
      refine h.setMember ?_ identity' m' hm'
      exact h identity m hm
    · -- the core that is freed is one of the worker that answered, which is subscribed
      obtain ⟨published, hpublishes, hwho⟩ := publishes_reply hb
      have hsub := subscribed_of_answer (horderly.member identity m hm) hdealer
      have hset := horderly.receive hm hdealer hregistered
      refine goOn (h.setMember ?_) hset hpublishes fun task htask m' hm' => ?_
      · exact h identity m hm
      rw [hwho task htask, hid, Option.mem_def, members_setMember, if_pos rfl] at hm'
      obtain rfl := Option.some.inj hm'
      exact hsub
  | receiveManagerRequest found task =>
    obtain ⟨-, b, hb, rfl⟩ := step_receiveManagerRequest.mp hstep
    apply h.goOn horderly (publishes_request hb)
    intro task' htask' m hm
    cases found with
    | none => simp at htask'
    | some identity =>
      obtain rfl := List.mem_singleton.mp htask'
      exact haudible m hm

end OwnHeard

section Heard

variable {s s' : Fleet} {identity : String} {m : Member} {task : WorkerTask}

theorem OwnHeard.allHeard (h : OwnHeard s) (horderly : Orderly s) : AllHeard s := by
  intro task htask
  obtain ⟨m, hm⟩ := horderly.known _ (horderly.published task htask)
  have hmine : task.identity = m.worker.identity := (horderly.member _ m hm).identity_eq.symm
  have hcount : ∀ tasks, (m.worker.own tasks).count task = List.count task tasks :=
    fun tasks => List.count_filter (decide_eq_true hmine)
  refine ⟨m, hm, ?_⟩
  rw [← hcount m.heard, h _ m hm, hcount]

theorem OwnHeard.keep {a : Action} (h : Orderly s ∧ OwnHeard s) (haudible : s.Audible a)
    (hstep : Fleet.step s a = some s') : Orderly s' ∧ OwnHeard s' :=
  ⟨h.1.step hstep, h.2.step h.1 haudible hstep⟩

/-- A task that is given to a worker that is not subscribed is not heard. -/
theorem AllHeard.audible (horderly : Orderly s) {a : Action}
    (hstep : Fleet.step s a = some s') (h : AllHeard s') : s.Audible a := by
  cases a with
  | receiveManagerRequest found task =>
    cases found with
    | none => trivial
    | some identity =>
      intro m hm
      by_contra hdeaf
      have hsilent : m.subscribed = false := by simpa using hdeaf
      obtain ⟨-, b, hb, rfl⟩ := step_receiveManagerRequest.mp hstep
      have hpublishes := publishes_request hb
      have hpub : (⟨identity, task⟩ : WorkerTask) ∈ b.workerPub := by
        rw [hpublishes.workerPub]
        simp
      obtain ⟨m', hm', hcount⟩ := h _ hpub
      rw [members_goOn hpublishes, show s.members identity = some m from hm] at hm'
      obtain rfl := Option.some.inj hm'
      -- it is published once more than it is heard
      have hheard : (m.hear [⟨identity, task⟩]).heard = [] := by
        rw [Member.hear, hsilent]
        exact (horderly.member identity m hm).deaf hsilent
      have hpositive : 0 < b.workerPub.count ⟨identity, task⟩ := List.count_pos_iff.mpr hpub
      refine absurd hcount (Nat.ne_of_lt ?_)
      show List.count _ (m.hear [⟨identity, task⟩]).heard < _
      rw [hheard]
      exact hpositive
  | connect | subscribe | readRequest | poll | calculateTask | checkOutputQueue
  | receiveWorkerMessage => trivial

end Heard

/-! ## The main results -/

/-- What is published is heard if and only if no request is given to a worker whose registration
has overtaken its subscription. A task that an answer sets off always is heard: the worker has
heard the one it answers. -/
theorem allHeard_iff {actions : List Action} {s : Fleet} (hrun : Runs Fleet.step {} actions s) :
    Throughout Fleet.step AllHeard {} actions ↔ Meets Fleet.step Audible {} actions := by
  constructor
  · intro hheard
    refine hrun.meets_of_throughout (P := fun _ => True) (W := AllHeard)
      (I := fun s => Orderly s ∧ OwnHeard s) (fun _ _ _ _ _ => trivial)
      (fun _ _ _ h haudible hstep => OwnHeard.keep h haudible hstep) ?_
      ⟨Orderly.init, OwnHeard.init⟩ trivial hheard
    intro s a s' h _ hheard' hstep
    exact hheard'.audible h.1 hstep
  · intro haudible
    have hthroughout := throughout_of_meets (I := fun s => Orderly s ∧ OwnHeard s)
      (fun _ _ _ h haudible hstep => OwnHeard.keep h haudible hstep)
      ⟨Orderly.init, OwnHeard.init⟩ haudible
    exact hthroughout.mono fun s h => h.2.allHeard h.1

def servedTask : Task := ⟨⟨0, 0⟩, 0, []⟩

def servedRun : List Action :=
  [.connect "worker" 2, .subscribe "worker", .receiveWorkerMessage "worker",
    .receiveManagerRequest (some "worker") servedTask, .readRequest "worker", .poll "worker",
    .calculateTask "worker" ⟨"worker", servedTask⟩, .checkOutputQueue "worker",
    .receiveWorkerMessage "worker"]

theorem allHeard_served : ∃ s, Runs Fleet.step {} servedRun s ∧
    Throughout Fleet.step AllHeard {} servedRun := by
  obtain ⟨s, hrun⟩ : ∃ s, Runs Fleet.step {} servedRun s := ⟨_, rfl⟩
  exact ⟨s, hrun, (@allHeard_iff servedRun s hrun).mpr (by decide)⟩

/-- The registration is handled before the subscription is there, and a task is published in
between. The worker has nothing to do, and its core is taken. -/
theorem task_unheard : ∃ s, Runs Fleet.step {}
    [.connect "worker" 2, .receiveWorkerMessage "worker",
      .receiveManagerRequest (some "worker") servedTask, .subscribe "worker"] s ∧
    s.broker.workerPub = [⟨"worker", servedTask⟩] ∧
    (s.members "worker").map (fun m => (m.heard, m.worker.subscriber)) = some ([], []) ∧
    s.broker.workerRoutingIdToAvailableCoreCount["worker"]? = some 0 ∧ ¬AllHeard s := by
  refine ⟨_, rfl, rfl, rfl, by decide, fun h => ?_⟩
  obtain ⟨m, hm, hcount⟩ := h _ List.mem_cons_self
  obtain rfl := Option.some.inj hm
  exact absurd hcount (by decide)

/-- What the broker has published for a worker is, as often as it was published, on its `SUB`
connection, queued, in the hands of a thread, finished, or answered; there is nothing else at the
worker; and what comes next from it is handled. -/
structure Executes (b : Broker) (identity : String) (m : Member) : Prop where
  identity_eq : m.worker.identity = identity
  conserves : ∃ finished answered, m.worker.Conserves b.workerPub m.arrived finished answered
  tasks : ∀ task ∈ m.worker.tasks, task.identity = identity
  hands : ∀ task ∈ m.worker.hands, task.identity = identity
  finishedTasks : ∀ id ∈ m.worker.finishedTasks, id.identity = identity
  answers : ∀ id ∈ m.arrived ++ m.worker.dealer.filterMap Worker.taskId?, id.identity = identity
  handled : ∀ message dealer, m.worker.dealer = message :: dealer →
    ∃ b', b.receiveWorkerMessage identity message = .ok b'

theorem OwnHeard.executes {s : Fleet} {identity : String} {m : Member} (h : OwnHeard s)
    (horderly : Orderly s) (hm : s.members identity = some m) : Executes s.broker identity m := by
  have hok := horderly.member identity m hm
  obtain ⟨finished, answered, hconserves⟩ := hok.conserves
  obtain ⟨htasks, hhands, hfinished, hanswers⟩ := hconserves.identity_eq
  rw [hok.identity_eq] at htasks hhands hfinished hanswers
  have hpublished : m.worker.Conserves s.broker.workerPub m.arrived finished answered :=
    { hconserves with heard_eq := h identity m hm ▸ hconserves.heard_eq }
  exact
    { identity_eq := hok.identity_eq
      conserves := ⟨finished, answered, hpublished⟩
      tasks := htasks
      hands := hhands
      finishedTasks := hfinished
      answers := hanswers
      handled := fun _ _ hdealer => horderly.receiveWorkerMessage_returns hm hdealer }

/-- With the subscriptions in place every published task has its worker, which executes it and
answers it once, and no other does. -/
theorem executed_once {actions : List Action} {s : Fleet} (hrun : Runs Fleet.step {} actions s)
    (haudible : Meets Fleet.step Audible {} actions) :
    (∀ task ∈ s.broker.workerPub, ∃ m, s.members task.identity = some m) ∧
    ∀ identity m, s.members identity = some m → Executes s.broker identity m := by
  have hthroughout := throughout_of_meets (I := fun s => Orderly s ∧ OwnHeard s)
    (fun _ _ _ h haudible hstep => OwnHeard.keep h haudible hstep)
    ⟨Orderly.init, OwnHeard.init⟩ haudible
  obtain ⟨horderly, hown⟩ := hthroughout actions s (List.prefix_refl actions) hrun
  refine ⟨?_, fun identity m hm => hown.executes horderly hm⟩
  intro task htask
  exact horderly.known _ (horderly.published task htask)

theorem executed_once_served : ∃ s, Runs Fleet.step {} servedRun s ∧
    s.broker.workerPub = [⟨"worker", servedTask⟩] ∧
    ∀ identity m, s.members identity = some m → Executes s.broker identity m := by
  obtain ⟨s, hrun, hpub⟩ : ∃ s, Runs Fleet.step {} servedRun s ∧
    s.broker.workerPub = [⟨"worker", servedTask⟩] := ⟨_, rfl, rfl⟩
  exact ⟨s, hrun, hpub, (@executed_once servedRun s hrun (by decide)).2⟩

end Fleet
end TaskDispatch
