import Mathlib
import TaskDispatch.Broker.Traffic

/-!
# Tasks wait only while every core is taken

`Broker::Run` polls its two sockets and takes at most one message from each, the worker's first.
While no worker is registered it polls the router alone, so the manager is not read.

An answer hands its core on to a task that waits, and a request that finds a free core does not
wait. A registration brings cores and looks at no task. So the broker conserves work as long as
nobody registers with a core while tasks wait (`workConserving_iff`); the one core that the next
request of the same iteration takes does no harm, except that this request overtakes the tasks
that wait. -/

set_option autoImplicit false

namespace TaskDispatch

open Proto Transition

namespace Traffic

/-! ## The loop -/

/-- What the two sockets have for an iteration. -/
structure Iteration where
  workerMessage : Option WorkerEvent := none
  managerRequest : Option (Option String × Task) := none

def pollWorker (s : Traffic) : Option WorkerEvent → Option Traffic
  | some event => step s (.receiveWorkerMessage event)
  | none => some s

def pollManager (s : Traffic) : Option (Option String × Task) → Option Traffic
  | some (found, task) => step s (.receiveManagerRequest found task)
  | none => some s

def iterate (s : Traffic) (i : Iteration) : Option Traffic :=
  if s.broker.workerRoutingIdToAvailableCoreCount.isEmpty ∧ i.managerRequest.isSome then none
  else do
    let s ← s.pollWorker i.workerMessage
    s.pollManager i.managerRequest

section Loop

variable {s s' : Traffic} {i : Iteration} {iterations : List Iteration}

theorem iterate_cases (h : iterate s i = some s') :
    ∃ s₁, s.pollWorker i.workerMessage = some s₁ ∧ s₁.pollManager i.managerRequest = some s' := by
  unfold iterate at h
  split_ifs at h
  exact Option.bind_eq_some_iff.mp h

theorem runs_of_pollWorker {message : Option WorkerEvent} (h : s.pollWorker message = some s') :
    ∃ actions, Runs step s actions s' := by
  cases message with
  | none => exact ⟨[], Runs.nil_iff.mpr (Option.some.inj h)⟩
  | some event => exact ⟨[.receiveWorkerMessage event], Runs.single h⟩

theorem runs_of_pollManager {request : Option (Option String × Task)}
    (h : s.pollManager request = some s') : ∃ actions, Runs step s actions s' := by
  cases request with
  | none => exact ⟨[], Runs.nil_iff.mpr (Option.some.inj h)⟩
  | some request => exact ⟨[.receiveManagerRequest request.1 request.2], Runs.single h⟩

/-- **The loop stays within the traffic of the handlers**: what holds there holds here. -/
theorem runs_of_iterations (h : Runs iterate {} iterations s) :
    ∃ actions, Runs step {} actions s := by
  refine h.invariant (I := fun _ t => ∃ actions, Runs step {} actions t) ⟨[], rfl⟩ ?_
  intro _ s₁ i s₂ _ hreached hstep
  obtain ⟨s', hworker, hmanager⟩ := iterate_cases hstep
  obtain ⟨actions, hactions⟩ := hreached
  obtain ⟨first, hfirst⟩ := runs_of_pollWorker hworker
  obtain ⟨second, hsecond⟩ := runs_of_pollManager hmanager
  exact ⟨_, (hactions.trans hfirst).trans hsecond⟩

/-- So the cores balance between two iterations. -/
theorem Balanced.of_iterations (h : Runs iterate {} iterations s) : Balanced s := by
  obtain ⟨actions, hrun⟩ := runs_of_iterations h
  exact Balanced.of_runs hrun

end Loop

/-! ## Work conservation -/

/-- No task waits, or no core is free. -/
def WorkConserving (s : Traffic) : Prop := s.broker.taskQueue = [] ∨ s.broker.Finds none

instance : DecidablePred WorkConserving := fun _ => inferInstanceAs (Decidable (_ ∨ _))

/-- Who registers while tasks wait brings no core, or a single one while a request is there to take
it. -/
def BringsNoCore (s : Traffic) (i : Iteration) : Prop :=
  match i.workerMessage with
  | some (.coreCount _ count) =>
    s.broker.taskQueue = [] ∨ count = 0 ∨ (count = 1 ∧ i.managerRequest.isSome)
  | _ => True

instance (s : Traffic) (i : Iteration) : Decidable (s.BringsNoCore i) :=
  match h : i.workerMessage with
  | some (.coreCount _ count) =>
    decidable_of_iff
      (s.broker.taskQueue = [] ∨ count = 0 ∨ (count = 1 ∧ i.managerRequest.isSome))
      (by simp [BringsNoCore, h])
  | some (.taskId _) => isTrue (by simp [BringsNoCore, h])
  | none => isTrue (by simp [BringsNoCore, h])

section Steps

variable {s s₁ s' : Traffic} {identity : String} {count : UInt32} {workerTask : WorkerTask}
  {found : Option String} {task : Task}

/-- No core is free after an entry was written if it is not, and none is elsewhere. -/
theorem finds_none_insert {b : Broker} {map : Std.ExtTreeMap String UInt64} {n : UInt64}
    (hmap : b.workerRoutingIdToAvailableCoreCount = map.insert identity n) :
    b.Finds none ↔ n = 0 ∧ ∀ w ≠ identity, ∀ k : UInt64, map[w]? = some k → k = 0 := by
  rw [Broker.finds_none, hmap]
  constructor
  · intro h
    refine ⟨h identity n Std.ExtTreeMap.getElem?_insert_self, fun w hne k hk => h w k ?_⟩
    simp [Std.ExtTreeMap.getElem?_insert, Ne.symm hne, hk]
  · rintro ⟨rfl, h⟩ w k hk
    by_cases hne : identity = w
    · subst hne
      rw [Std.ExtTreeMap.getElem?_insert_self, Option.some.injEq] at hk
      exact hk.symm
    · simp only [Std.ExtTreeMap.getElem?_insert, Std.compare_eq_iff_eq, hne, if_false] at hk
      exact h w (Ne.symm hne) k hk

theorem toUInt64_eq_zero_iff : count.toUInt64 = 0 ↔ count = 0 := by
  rw [← UInt64.toNat_inj, ← UInt32.toNat_inj, UInt32.toNat_toUInt64]
  rfl

theorem toUInt64_sub_one_eq_zero_iff : count.toUInt64 - 1 = 0 ↔ count = 1 := by
  constructor
  · intro h
    have hone : count.toUInt64 = 1 := by
      rw [← UInt64.sub_add_cancel count.toUInt64 1, h]
      rfl
    rw [← UInt64.toNat_inj, UInt32.toNat_toUInt64] at hone
    exact UInt32.toNat_inj.mp hone
  · rintro rfl
    rfl

/-- A request waits only where nothing is free. -/
theorem WorkConserving.receiveManagerRequest (h : s.WorkConserving)
    (hstep : step s (.receiveManagerRequest found task) = some s') : s'.WorkConserving := by
  obtain ⟨hfinds, ⟨rfl, rfl⟩ | ⟨identity, available, rfl, hw, rfl⟩⟩ :=
    step_receiveManagerRequest.mp hstep
  · exact .inr hfinds
  · rcases h with hnil | hnone
    · exact .inl hnil
    · -- there was no free core to be found
      obtain ⟨n, hn, hne⟩ := hfinds
      exact absurd (Broker.finds_none.mp hnone identity n hn) hne

/-- The core of an answer goes to a task that waits. -/
theorem WorkConserving.taskId (h : s.WorkConserving)
    (hstep : step s (.receiveWorkerMessage (.taskId workerTask)) = some s') :
    s'.WorkConserving := by
  obtain ⟨-, available, hw, ⟨hnil, rfl⟩ | ⟨task, hback, rfl⟩⟩ := step_taskId.mp hstep
  · exact .inl hnil
  · rcases h with hnil | hnone
    · rw [hnil] at hback
      cases hback
    · exact .inr hnone

/-- A registration while tasks wait leaves a core free, if it brings one. -/
theorem WorkConserving.coreCount_iff (h : s.WorkConserving)
    (hstep : step s (.receiveWorkerMessage (.coreCount identity count)) = some s') :
    s'.WorkConserving ↔ s.broker.taskQueue = [] ∨ count = 0 := by
  obtain ⟨-, rfl⟩ := step_coreCount.mp hstep
  apply or_congr_right'
  intro hne
  have hnone := Broker.finds_none.mp (h.resolve_left hne)
  rw [finds_none_insert rfl, toUInt64_eq_zero_iff]
  exact and_iff_left fun w _ k hk => hnone w k hk

/-- A request that comes with the registration takes one of the new cores. -/
theorem workConserving_coreCount_request (hwait : s.broker.taskQueue ≠ [])
    (hnone : s.broker.Finds none) (hcount : count ≠ 0)
    (hregister : step s (.receiveWorkerMessage (.coreCount identity count)) = some s₁)
    (hrequest : step s₁ (.receiveManagerRequest found task) = some s') :
    s'.WorkConserving ↔ count = 1 := by
  have hnone := Broker.finds_none.mp hnone
  obtain ⟨-, rfl⟩ := step_coreCount.mp hregister
  have hnew : count.toUInt64 ≠ 0 := fun hzero => hcount (toUInt64_eq_zero_iff.mp hzero)
  obtain ⟨hfinds, ⟨rfl, rfl⟩ | ⟨w, available, rfl, hw, rfl⟩⟩ :=
    step_receiveManagerRequest.mp hrequest
  · exact absurd ((finds_none_insert rfl).mp hfinds).1 hnew
  · -- the new worker is the only one with a free core
    have hidentity : identity = w := by
      by_contra hne
      obtain ⟨n, hn, hn₀⟩ := hfinds
      simp only [Std.ExtTreeMap.getElem?_insert, Std.compare_eq_iff_eq, hne, if_false] at hn
      exact hn₀ (hnone w n hn)
    subst hidentity
    rw [Std.ExtTreeMap.getElem?_insert_self, Option.some.injEq] at hw
    subst hw
    rw [WorkConserving, or_iff_right hwait, finds_none_insert rfl, toUInt64_sub_one_eq_zero_iff]
    refine and_iff_left fun w hne k hk => hnone w k ?_
    simpa [Std.ExtTreeMap.getElem?_insert, Ne.symm hne] using hk

theorem WorkConserving.pollManager {request : Option (Option String × Task)}
    (h : s.WorkConserving) (hpoll : s.pollManager request = some s') : s'.WorkConserving := by
  cases request with
  | none => exact Option.some.inj hpoll ▸ h
  | some request => exact h.receiveManagerRequest hpoll

/-- An iteration that registers a worker. -/
theorem WorkConserving.register_iff (h : s.WorkConserving)
    {request : Option (Option String × Task)}
    (hregister : step s (.receiveWorkerMessage (.coreCount identity count)) = some s₁)
    (hpoll : s₁.pollManager request = some s') :
    s'.WorkConserving ↔
      s.broker.taskQueue = [] ∨ count = 0 ∨ (count = 1 ∧ request.isSome) := by
  by_cases hkeeps : s.broker.taskQueue = [] ∨ count = 0
  · have h₁ := (h.coreCount_iff hregister).mpr hkeeps
    exact iff_of_true (h₁.pollManager hpoll) (or_assoc.mp (.inl hkeeps))
  · obtain ⟨hwait, hcount⟩ := not_or.mp hkeeps
    rw [or_iff_right hwait, or_iff_right hcount]
    cases request with
    | none =>
      obtain rfl := Option.some.inj hpoll
      apply iff_of_false (fun h' => hkeeps ((h.coreCount_iff hregister).mp h'))
      rintro ⟨-, hsome⟩
      cases hsome
    | some request =>
      rw [workConserving_coreCount_request hwait (h.resolve_left hwait) hcount hregister hpoll]
      simp

theorem WorkConserving.iterate_iff {i : Iteration} (h : s.WorkConserving)
    (hstep : iterate s i = some s') : s'.WorkConserving ↔ s.BringsNoCore i := by
  obtain ⟨s₁, hworker, hmanager⟩ := iterate_cases hstep
  unfold BringsNoCore
  cases hmessage : i.workerMessage with
  | none =>
    rw [hmessage] at hworker
    obtain rfl := Option.some.inj hworker
    exact iff_of_true (h.pollManager hmanager) trivial
  | some event =>
    rw [hmessage] at hworker
    cases event with
    | coreCount identity count => exact h.register_iff hworker hmanager
    | taskId workerTask => exact iff_of_true ((h.taskId hworker).pollManager hmanager) trivial

end Steps

/-- **When the broker conserves work.** Between any two iterations of a run a task waits only if no
worker has a free core, if and only if nobody registers with cores to spare while a task waits. -/
theorem workConserving_iff {iterations : List Iteration} {s : Traffic}
    (hrun : Runs iterate {} iterations s) :
    Throughout iterate WorkConserving {} iterations ↔
      Meets iterate BringsNoCore {} iterations :=
  hrun.throughout_iff_meets (J := fun _ => True) (fun _ _ _ _ _ => trivial)
    (fun _ _ _ _ h hstep => h.iterate_iff hstep) trivial (.inl rfl)

/-- Two tasks on a worker with one core; then a second worker registers. -/
def lateRun (count : UInt32) : List Iteration :=
  [{ workerMessage := some (.coreCount "first" 1) },
    { managerRequest := some (some "first", taskNumber 1) },
    { managerRequest := some (none, taskNumber 2) },
    { workerMessage := some (.coreCount "second" count) }]

/-- The second worker has no core. -/
theorem workConserving_late : ∃ s, Runs iterate {} (lateRun 0) s ∧
    Throughout iterate WorkConserving {} (lateRun 0) := by
  obtain ⟨s, hrun⟩ : ∃ s, Runs iterate {} (lateRun 0) s := ⟨_, rfl⟩
  exact ⟨s, hrun, (@workConserving_iff (lateRun 0) s hrun).mpr (by decide)⟩

/-- With two cores it is idle, and the task goes on waiting. -/
theorem idle_core_while_waiting : ∃ s, Runs iterate {} (lateRun 2) s ∧
    s.broker.taskQueue = [taskNumber 2] ∧
    s.broker.workerRoutingIdToAvailableCoreCount["second"]? = some 2 ∧ ¬s.WorkConserving :=
  ⟨_, rfl, rfl, rfl, by decide⟩

end Traffic
end TaskDispatch
