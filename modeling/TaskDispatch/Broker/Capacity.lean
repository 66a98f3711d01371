import Mathlib
import TaskDispatch.Broker.Traffic
import TaskDispatch.Worker.Worker

/-!
# Tasks and threads

A worker announces one core less than its pool has threads, and the broker gives it no more tasks at
a time than it announced. The difference is taken in `size_t` and sent in a `uint32`: a worker that
was started with no cores announces as many as the field holds, and the first task it is given is
one too many (`withinThreads_iff`).
-/

set_option autoImplicit false

namespace TaskDispatch

open Proto Transition

/-! ## What is announced -/

namespace Worker

theorem toNat_announced {coreCount : ℕ} (hpos : coreCount ≠ 0) (hlt : coreCount < 2 ^ 31) :
    (announced coreCount).toNat + 1 = coreCount := by
  have hnat : (UInt64.ofNat coreCount).toNat = coreCount := by
    rw [UInt64.toNat_ofNat', Nat.mod_eq_of_lt]
    omega
  have hne : UInt64.ofNat coreCount ≠ 0 := by
    intro hzero
    rw [hzero] at hnat
    exact hpos hnat.symm
  have hdecrement := Traffic.toNat_decrement hne
  rw [announced, UInt64.toNat_toUInt32, Nat.mod_eq_of_lt]
  · rw [hdecrement, hnat]
  · omega

end Worker

/-! ## Workers by their environment -/

/-- The `CORE_COUNT` each worker is started with -/
structure CoreCounts where
  of : String → ℕ
  lt : ∀ identity, of identity < 2 ^ 31

namespace CoreCounts

variable (coreCounts : CoreCounts)

inductive Action where
  /-- The registration of a worker arrives. -/
  | sendAckMessage (identity : String)
  | processWorkerTaskReply (workerTask : WorkerTask)
  | receiveManagerRequest (found : Option String) (task : Task)
  deriving DecidableEq

/-- What the broker sees of it: a worker announces what its environment gives it. -/
def toTraffic : Action → Traffic.Action
  | .sendAckMessage identity =>
    .receiveWorkerMessage (.coreCount identity (Worker.announced (coreCounts.of identity)))
  | .processWorkerTaskReply workerTask => .receiveWorkerMessage (.taskId workerTask)
  | .receiveManagerRequest found task => .receiveManagerRequest found task

def step (s : Traffic) (a : Action) : Option Traffic := s.step (coreCounts.toTraffic a)

/-- No worker has more tasks that it has not answered than its pool has threads. -/
def WithinThreads (s : Traffic) : Prop :=
  ∀ identity, s.unanswered.countP (·.identity = identity) ≤ coreCounts.of identity

/-- A task that is handed out goes to a worker that has threads. -/
def HasThreads (_ : Traffic) : Action → Prop
  | .receiveManagerRequest (some identity) _ => coreCounts.of identity ≠ 0
  | _ => True

instance (s : Traffic) : DecidablePred (coreCounts.HasThreads s)
  | .receiveManagerRequest (some _) _ => inferInstanceAs (Decidable (_ ≠ _))
  | .receiveManagerRequest none _ => isTrue trivial
  | .sendAckMessage _ => isTrue trivial
  | .processWorkerTaskReply _ => isTrue trivial

/-- The books of the broker, and where their numbers come from. -/
structure Announced (s : Traffic) : Prop where
  balanced : s.Balanced
  registrations : ∀ identity count, (identity, count) ∈ s.registrations →
    count = Worker.announced (coreCounts.of identity)

section Steps

variable {coreCounts} {s s' : Traffic} {a : Action} {identity : String} {workerTask : WorkerTask}

theorem Announced.init : coreCounts.Announced {} where
  balanced := .init
  registrations := by simp

theorem Announced.step (h : coreCounts.Announced s) (hstep : coreCounts.step s a = some s') :
    coreCounts.Announced s' := by
  cases a with
  | sendAckMessage identity =>
    refine ⟨h.balanced.step hstep, ?_⟩
    obtain ⟨-, rfl⟩ := Traffic.step_coreCount.mp hstep
    intro identity' count hmem
    rcases List.mem_append.mp hmem with hold | hadded
    · exact h.registrations identity' count hold
    · obtain ⟨rfl, rfl⟩ := Prod.mk.inj (List.mem_singleton.mp hadded)
      rfl
  | processWorkerTaskReply workerTask =>
    refine ⟨h.balanced.step hstep, ?_⟩
    obtain ⟨-, _, -, ⟨-, rfl⟩ | ⟨_, -, rfl⟩⟩ := Traffic.step_taskId.mp hstep
    · exact h.registrations
    · exact h.registrations
  | receiveManagerRequest found task =>
    refine ⟨h.balanced.step hstep, ?_⟩
    obtain ⟨-, ⟨-, rfl⟩ | ⟨_, _, -, -, rfl⟩⟩ := Traffic.step_receiveManagerRequest.mp hstep
    · exact h.registrations
    · exact h.registrations

/-- A worker that has a thread has one more than tasks. -/
theorem Announced.countP_lt (h : coreCounts.Announced s) (hpos : coreCounts.of identity ≠ 0) :
    s.unanswered.countP (·.identity = identity) < coreCounts.of identity := by
  by_cases hregistered : ∃ count, (identity, count) ∈ s.registrations
  · obtain ⟨count, hcount⟩ := hregistered
    obtain ⟨available, -, hsum⟩ := h.balanced.cores identity count hcount
    rw [h.registrations identity count hcount] at hsum
    have hannounced := Worker.toNat_announced hpos (coreCounts.lt identity)
    omega
  · -- a worker that is not registered has been given nothing
    have hzero : s.unanswered.countP (·.identity = identity) = 0 := by
      rw [Multiset.countP_eq_zero]
      rintro wt hwt rfl
      apply hregistered
      exact (h.balanced.registered wt.identity).mp
        (h.balanced.published wt (Traffic.Balanced.mem_published hwt))
    omega

/-- So it is the workers without threads that count. -/
theorem Announced.within_iff (h : coreCounts.Announced s) : coreCounts.WithinThreads s ↔
    ∀ workerTask ∈ s.unanswered, coreCounts.of workerTask.identity ≠ 0 := by
  constructor
  · intro hwithin workerTask hmem hzero
    have hle := hwithin workerTask.identity
    rw [hzero, Nat.le_zero, Multiset.countP_eq_zero] at hle
    exact hle workerTask hmem rfl
  · intro hall identity
    by_cases hzero : coreCounts.of identity = 0
    · rw [hzero, Nat.le_zero, Multiset.countP_eq_zero]
      rintro workerTask hmem rfl
      exact hall workerTask hmem hzero
    · exact (h.countP_lt hzero).le

/-- One step keeps within the threads exactly when it gives no task to a worker without any. -/
theorem Announced.withinThreads_step (h : coreCounts.Announced s)
    (hwithin : coreCounts.WithinThreads s) (hstep : coreCounts.step s a = some s') :
    coreCounts.WithinThreads s' ↔ coreCounts.HasThreads s a := by
  have h' := h.step hstep
  rw [h.within_iff] at hwithin
  rw [h'.within_iff]
  cases a with
  | sendAckMessage identity =>
    obtain ⟨-, rfl⟩ := Traffic.step_coreCount.mp hstep
    exact iff_of_true hwithin trivial
  | processWorkerTaskReply workerTask =>
    refine iff_of_true ?_ trivial
    obtain ⟨hmem, _, -, ⟨-, rfl⟩ | ⟨task, -, rfl⟩⟩ := Traffic.step_taskId.mp hstep
    · intro wt hwt
      rw [Traffic.unanswered, Traffic.unanswered_answer] at hwt
      exact hwithin wt (Multiset.mem_of_mem_erase hwt)
    · -- the next task goes to a worker that has just answered one
      intro wt hwt
      rw [Traffic.unanswered, Traffic.unanswered_publish
        (Traffic.answered_le h.balanced.answered_le hmem), Traffic.unanswered_answer] at hwt
      rcases Multiset.mem_cons.mp hwt with rfl | hwt
      · exact hwithin workerTask hmem
      · exact hwithin wt (Multiset.mem_of_mem_erase hwt)
  | receiveManagerRequest found task =>
    obtain ⟨-, ⟨rfl, rfl⟩ | ⟨identity, _, rfl, -, rfl⟩⟩ :=
      Traffic.step_receiveManagerRequest.mp hstep
    · exact iff_of_true hwithin trivial
    · simp only [Traffic.unanswered, Traffic.unanswered_publish h.balanced.answered_le]
      constructor
      · intro hall
        exact hall ⟨identity, task⟩ (Multiset.mem_cons_self _ _)
      · intro hpos wt hwt
        rcases Multiset.mem_cons.mp hwt with rfl | hwt
        · exact hpos
        · exact hwithin wt hwt

end Steps

/-- **When a worker is given no more tasks than it has threads.** In every state of a run each
worker has at most as many tasks out as its pool has threads, if and only if no task of the run is
handed to a worker that was started with `CORE_COUNT` 0. -/
theorem withinThreads_iff {actions : List Action} {s : Traffic}
    (hrun : Runs coreCounts.step {} actions s) :
    Throughout coreCounts.step coreCounts.WithinThreads {} actions ↔
      Meets coreCounts.step coreCounts.HasThreads {} actions :=
  hrun.throughout_iff_meets (J := coreCounts.Announced) (fun _ _ _ h hstep => h.step hstep)
    (fun _ _ _ h hwithin hstep => h.withinThreads_step hwithin hstep) .init
    (Announced.init.within_iff.mpr (by simp [Traffic.unanswered]))

/-- Every worker is started with two cores. -/
def twoCores : CoreCounts := ⟨fun _ => 2, fun _ => by decide⟩

def noCores : CoreCounts := ⟨fun _ => 0, fun _ => by decide⟩

/-- A worker is given a task. -/
def oneTask : List Action :=
  [.sendAckMessage "worker", .receiveManagerRequest (some "worker") (Traffic.taskNumber 1)]

/-- With two threads there is one for the task. -/
theorem withinThreads_twoCores : ∃ s, Runs twoCores.step {} oneTask s ∧
    Throughout twoCores.step twoCores.WithinThreads {} oneTask := by
  obtain ⟨s, hrun⟩ : ∃ s, Runs twoCores.step {} oneTask s := ⟨_, rfl⟩
  exact ⟨s, hrun, (@withinThreads_iff twoCores oneTask s hrun).mpr (by decide)⟩

/-- Without threads the worker announces 4294967295 cores, and is given the task all the same. -/
theorem task_without_thread : ∃ s, Runs noCores.step {} oneTask s ∧
    s.registrations = [("worker", 4294967295)] ∧
    s.unanswered = {⟨"worker", Traffic.taskNumber 1⟩} ∧ ¬noCores.WithinThreads s := by
  refine ⟨_, rfl, rfl, rfl, ?_⟩
  intro h
  exact absurd (h "worker") (by decide)

end CoreCounts
end TaskDispatch
