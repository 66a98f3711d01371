import Mathlib
import TaskDispatch.Lib.Run
import TaskDispatch.Worker.Worker

/-!
# `worker-impl/thread_pool`: the queue and the threads that sleep on it

`Worker` lets a free thread take the front of the queue whenever there is one. The code gets there
by a mutex and a condition variable: `PushTask` pushes under `tasks_m_` and calls `notify_one` after
it has let go of it, and a thread of `Poll` that finds the queue empty goes to sleep in `wait`, from
which it wakes when it is notified or for no reason, to take the mutex and look again. A thread that
is not asleep is not told apart by whether it comes from a task or from `wait`: it is about to take
the mutex.

Every run of this machine is one of `Worker` (`worker_runs`), and whatever a worker can do, the
threads can do after some steps of their own (`follows`): no wake-up is lost, because the tasks in
the queue while some thread sleeps are never more than the threads on their way to it, the one that
is about to be notified among them. As in `Worker`, a computation that throws has no step: it ends
the process.
-/

set_option autoImplicit false

namespace TaskDispatch

open Proto Transition

/-! ## A worker as the fleet sees it -/

namespace Worker

inductive Action where
  /-- Tasks arrive at the `SUB` socket. -/
  | hear (published : List WorkerTask)
  | readRequest
  | poll
  | calculateTask (task : WorkerTask)
  | checkOutputQueue
  /-- The first message on the `DEALER` socket arrives at the broker. -/
  | receive

def step (w : Worker) : Action → Option Worker
  | .hear published => some { w with subscriber := w.subscriber ++ published }
  | .readRequest => w.readRequest
  | .poll => w.poll
  | .calculateTask task => w.calculateTask task
  | .checkOutputQueue => some w.checkOutputQueue
  | .receive => match w.dealer with
    | [] => none
    | _ :: dealer => some { w with dealer }

end Worker

/-! ## The threads -/

/-- `ready` threads are about to take `tasks_m_`, `waiting` ones asleep; the others have a task in
hand. `notifying` says that the thread of `Worker::Run` is in `PushTask`, between the push and
`notify_one`. -/
structure Pool where
  worker : Worker
  ready : ℕ
  waiting : ℕ := 0
  notifying : Bool := false

namespace Pool

inductive Action where
  | hear (published : List WorkerTask)
  | readRequest
  | notifyOne
  /-- A thread takes `tasks_m_` and looks whether there is a task. -/
  | lock
  /-- A thread wakes up for no reason. -/
  | wake
  | calculateTask (task : WorkerTask)
  | checkOutputQueue
  | receive

/-- `Worker::ReadRequest`, up to the call of `notify_one` in `PushTask` -/
def readRequest (p : Pool) : Option Pool :=
  match p.worker.subscriber with
  | [] => none
  | task :: subscriber =>
    let worker := { p.worker with subscriber }
    if task.identity ≠ worker.identity then some { p with worker }
    else some { p with worker := worker.pushTask task, notifying := true }

/-- `condition.notify_one()`: one of those that sleep, if any do -/
def notifyOne (p : Pool) : Pool :=
  if 0 < p.waiting then { p with
    ready := p.ready + 1
    waiting := p.waiting - 1
    notifying := false }
  else { p with notifying := false }

/-- `condition.wait(l, ...)` with `tasks_m_` held, and the task taken if there is one -/
def lock (p : Pool) : Pool :=
  match p.worker.tasks with
  | [] => { p with ready := p.ready - 1, waiting := p.waiting + 1 }
  | task :: tasks => { p with
    worker := { p.worker with tasks, hands := task ::ₘ p.worker.hands }
    ready := p.ready - 1 }

def step (p : Pool) : Action → Option Pool
  | .hear published => do some { p with worker := ← p.worker.step (.hear published) }
  | .readRequest => if p.notifying then none else p.readRequest
  | .notifyOne => if p.notifying then some p.notifyOne else none
  | .lock => if 0 < p.ready then some p.lock else none
  | .wake => if 0 < p.waiting then
      some { p with ready := p.ready + 1, waiting := p.waiting - 1 }
    else none
  | .calculateTask task => do
    some { p with worker := ← p.worker.calculateTask task, ready := p.ready + 1 }
  | .checkOutputQueue =>
    if p.notifying then none else some { p with worker := p.worker.checkOutputQueue }
  | .receive => do some { p with worker := ← p.worker.step .receive }

/-- `Worker::New`, and the first message of `Worker::Run`. The threads run. -/
def start (identity : String) (coreCount : ℕ) (h : coreCount < 2 ^ 31) : Pool where
  worker := Worker.sendAckMessage { identity, coreCount, coreCount_lt := h }
  ready := coreCount

/-- The steps that come by themselves and show to nobody outside. -/
def Action.isInternal : Action → Bool
  | .notifyOne | .lock => true
  | _ => false

/-! ## No wake-up is lost -/

/-- All threads are accounted for, and while one of them sleeps, the tasks in the queue are no more
than those who are on their way to it. -/
structure Awake (p : Pool) : Prop where
  threads : p.ready + p.waiting + p.worker.hands.card = p.worker.coreCount
  tasks : 0 < p.waiting → p.worker.tasks.length ≤ p.ready + p.notifying.toNat

section Steps

variable {p p' : Pool} {w' : Worker} {task : WorkerTask}

theorem readRequest_eq_some : p.readRequest = some p' ↔
    ∃ worker, p.worker.readRequest = some worker ∧ worker.hands = p.worker.hands ∧
      worker.coreCount = p.worker.coreCount ∧
      ((worker.tasks = p.worker.tasks ∧ p' = { p with worker }) ∨
        (worker.tasks.length = p.worker.tasks.length + 1 ∧
          p' = { p with worker, notifying := true })) := by
  unfold readRequest Worker.readRequest
  cases p.worker.subscriber with
  | nil => simp
  | cons task subscriber =>
    by_cases hother : task.identity = p.worker.identity
    · simp [hother, Worker.pushTask, eq_comm (a := p')]
    · simp [hother, eq_comm (a := p')]

theorem exists_readRequest (h : p.worker.readRequest = some w') :
    ∃ p', p.readRequest = some p' ∧ p'.worker = w' := by
  unfold Worker.readRequest at h
  unfold readRequest
  cases hsubscriber : p.worker.subscriber with
  | nil => simp [hsubscriber] at h
  | cons task subscriber =>
    simp only [hsubscriber] at h
    dsimp only
    split_ifs at h ⊢
    · exact ⟨_, rfl, Option.some.inj h⟩
    · exact ⟨_, rfl, Option.some.inj h⟩

theorem calculateTask_eq_some (h : p.worker.calculateTask task = some w') :
    w'.hands.card + 1 = p.worker.hands.card ∧ w'.coreCount = p.worker.coreCount ∧
      w'.tasks = p.worker.tasks := by
  unfold Worker.calculateTask at h
  split_ifs at h with hmem
  obtain rfl := Option.some.inj h
  exact ⟨Multiset.card_erase_add_one hmem, rfl, rfl⟩

/-- A step that leaves the queue and the hands. -/
theorem Awake.of_worker (h : Awake p) (hhands : w'.hands = p.worker.hands)
    (hcount : w'.coreCount = p.worker.coreCount) (htasks : w'.tasks = p.worker.tasks) :
    Awake { p with worker := w' } :=
  ⟨hhands ▸ hcount ▸ h.threads, htasks ▸ h.tasks⟩

theorem checkOutputQueue_same (w : Worker) : w.checkOutputQueue.hands = w.hands ∧
    w.checkOutputQueue.coreCount = w.coreCount ∧ w.checkOutputQueue.tasks = w.tasks := by
  unfold Worker.checkOutputQueue
  split <;> exact ⟨rfl, rfl, rfl⟩

theorem receive_eq_some {w : Worker} : w.step .receive = some w' ↔
    ∃ message dealer, w.dealer = message :: dealer ∧ w' = { w with dealer } := by
  simp only [Worker.step]
  cases w.dealer with
  | nil => simp
  | cons message dealer => simp [eq_comm (a := w')]

theorem Awake.step {a : Action} (h : Awake p) (hstep : Pool.step p a = some p') : Awake p' := by
  have hthreads := h.threads
  have htasks := h.tasks
  cases a with
  | hear published =>
    obtain rfl := Option.some.inj hstep
    exact h.of_worker rfl rfl rfl
  | readRequest =>
    simp only [Pool.step] at hstep
    split_ifs at hstep with hnotifying
    rw [Bool.not_eq_true] at hnotifying
    rw [hnotifying] at htasks
    obtain ⟨worker, -, hhands, hcount, ⟨hsame, rfl⟩ | ⟨hmore, rfl⟩⟩ :=
      readRequest_eq_some.mp hstep
    · exact h.of_worker hhands hcount hsame
    · -- the push is answered by the notification that is to come
      refine ⟨hhands ▸ hcount ▸ hthreads, ?_⟩
      intro hwaiting
      have hle := htasks hwaiting
      simp only [Bool.toNat_false, Bool.toNat_true] at hle ⊢
      omega
  | notifyOne =>
    simp only [Pool.step] at hstep
    split_ifs at hstep with hnotifying
    obtain rfl := Option.some.inj hstep
    rw [hnotifying] at htasks
    unfold notifyOne
    split_ifs with hwaiting
    · refine ⟨?_, ?_⟩
      · show p.ready + 1 + (p.waiting - 1) + p.worker.hands.card = p.worker.coreCount
        omega
      · intro _
        have hle := htasks hwaiting
        simp only [Bool.toNat_false, Bool.toNat_true] at hle ⊢
        omega
    · exact ⟨hthreads, fun hsome => absurd hsome hwaiting⟩
  | lock =>
    simp only [Pool.step] at hstep
    split_ifs at hstep with hready
    obtain rfl := Option.some.inj hstep
    unfold lock
    cases hqueue : p.worker.tasks with
    | nil =>
      refine ⟨?_, ?_⟩
      · show p.ready - 1 + (p.waiting + 1) + p.worker.hands.card = p.worker.coreCount
        omega
      · simp [hqueue]
    | cons task tasks =>
      rw [hqueue, List.length_cons] at htasks
      refine ⟨?_, ?_⟩
      · show p.ready - 1 + p.waiting + (task ::ₘ p.worker.hands).card = p.worker.coreCount
        rw [Multiset.card_cons]
        omega
      · intro hwaiting
        have hle := htasks hwaiting
        show tasks.length ≤ p.ready - 1 + p.notifying.toNat
        omega
  | wake =>
    simp only [Pool.step] at hstep
    split_ifs at hstep with hwaiting
    obtain rfl := Option.some.inj hstep
    refine ⟨?_, ?_⟩
    · show p.ready + 1 + (p.waiting - 1) + p.worker.hands.card = p.worker.coreCount
      omega
    · intro _
      have hle := htasks hwaiting
      show p.worker.tasks.length ≤ p.ready + 1 + p.notifying.toNat
      omega
  | calculateTask task =>
    obtain ⟨w', hw', hp'⟩ := Option.bind_eq_some_iff.mp hstep
    obtain rfl := Option.some.inj hp'
    obtain ⟨hhands, hcount, hqueue⟩ := calculateTask_eq_some hw'
    refine ⟨?_, ?_⟩
    · show p.ready + 1 + p.waiting + w'.hands.card = w'.coreCount
      omega
    · intro hwaiting
      have hle := htasks hwaiting
      show w'.tasks.length ≤ p.ready + 1 + p.notifying.toNat
      rw [hqueue]
      omega
  | checkOutputQueue =>
    simp only [Pool.step] at hstep
    split_ifs at hstep
    obtain rfl := Option.some.inj hstep
    obtain ⟨hhands, hcount, hqueue⟩ := checkOutputQueue_same p.worker
    exact h.of_worker hhands hcount hqueue
  | receive =>
    obtain ⟨w', hw', hp'⟩ := Option.bind_eq_some_iff.mp hstep
    obtain rfl := Option.some.inj hp'
    obtain ⟨_, _, -, rfl⟩ := receive_eq_some.mp hw'
    exact h.of_worker rfl rfl rfl

theorem Awake.of_runs {identity : String} {coreCount : ℕ} {h : coreCount < 2 ^ 31}
    {actions : List Action} (hrun : Runs Pool.step (start identity coreCount h) actions p) :
    Awake p := by
  refine hrun.invariant (I := fun _ p => Awake p) ⟨by simp [start, Worker.sendAckMessage], ?_⟩
    fun _ _ _ _ _ h hstep => h.step hstep
  simp [start]

/-! ## Both ways -/

/-- What the pool does is what the worker does, or nothing. -/
theorem worker_step {a : Action} (h : Awake p) (hstep : Pool.step p a = some p') :
    ∃ bs, Runs Worker.step p.worker bs p'.worker := by
  have hthreads := h.threads
  cases a with
  | hear published =>
    obtain rfl := Option.some.inj hstep
    exact ⟨[.hear published], Runs.single rfl⟩
  | readRequest =>
    simp only [Pool.step] at hstep
    split_ifs at hstep
    obtain ⟨worker, hread, -, -, ⟨-, rfl⟩ | ⟨-, rfl⟩⟩ := readRequest_eq_some.mp hstep
    · exact ⟨[.readRequest], Runs.single hread⟩
    · exact ⟨[.readRequest], Runs.single hread⟩
  | notifyOne =>
    simp only [Pool.step] at hstep
    split_ifs at hstep
    obtain rfl := Option.some.inj hstep
    refine ⟨[], Runs.nil_iff.mpr ?_⟩
    unfold notifyOne
    split_ifs <;> rfl
  | lock =>
    simp only [Pool.step] at hstep
    split_ifs at hstep with hready
    obtain rfl := Option.some.inj hstep
    unfold lock
    cases hqueue : p.worker.tasks with
    | nil => exact ⟨[], Runs.refl _ _⟩
    | cons task tasks =>
      -- a thread that is ready has no task in hand
      have hfree : p.worker.hands.card < p.worker.coreCount := by omega
      refine ⟨[.poll], Runs.single ?_⟩
      simp [Worker.step, Worker.poll, hqueue, hfree]
  | wake =>
    simp only [Pool.step] at hstep
    split_ifs at hstep
    obtain rfl := Option.some.inj hstep
    exact ⟨[], Runs.refl _ _⟩
  | calculateTask task =>
    obtain ⟨w', hw', hp'⟩ := Option.bind_eq_some_iff.mp hstep
    obtain rfl := Option.some.inj hp'
    exact ⟨[.calculateTask task], Runs.single hw'⟩
  | checkOutputQueue =>
    simp only [Pool.step] at hstep
    split_ifs at hstep
    obtain rfl := Option.some.inj hstep
    exact ⟨[.checkOutputQueue], Runs.single rfl⟩
  | receive =>
    obtain ⟨w', hw', hp'⟩ := Option.bind_eq_some_iff.mp hstep
    obtain rfl := Option.some.inj hp'
    exact ⟨[.receive], Runs.single hw'⟩

/-- **The threads with their condition variable are a worker.** -/
theorem worker_runs {identity : String} {coreCount : ℕ} {h : coreCount < 2 ^ 31}
    {actions : List Action} (hrun : Runs Pool.step (start identity coreCount h) actions p) :
    ∃ bs, Runs Worker.step (start identity coreCount h).worker bs p.worker :=
  (Runs.simulates (P := fun _ => True) (I := Awake) (fun _ _ _ _ _ => trivial)
    (Awake.of_runs (Runs.refl _ _)) (fun _ _ _ h _ hstep => ⟨h.step hstep, worker_step h hstep⟩)
    hrun trivial).2

/-- A task for a worker with two threads, which both sleep when it arrives. -/
def sumTask : WorkerTask := ⟨"worker", ⟨0, 1⟩, 4, [.staticOperand "L"]⟩

def sumStart : Pool := start "worker" 2 (by decide)

def sumRun : List Action := [.lock, .lock, .hear [sumTask], .readRequest, .notifyOne, .lock,
  .calculateTask sumTask, .checkOutputQueue]

/-- One of them is woken up, and computes. -/
theorem worker_runs_sum : ∃ p bs, Runs Pool.step sumStart sumRun p ∧ p.waiting = 1 ∧
    p.worker.dealer = [.coreCount 1, .taskId ⟨"worker", ⟨0, 1⟩⟩] ∧
    Runs Worker.step sumStart.worker bs p.worker := by
  obtain ⟨p, hrun, hwaiting, hdealer⟩ : ∃ p, Runs Pool.step sumStart sumRun p ∧ p.waiting = 1 ∧
      p.worker.dealer = [.coreCount 1, .taskId ⟨"worker", ⟨0, 1⟩⟩] := ⟨_, rfl, rfl, rfl⟩
  obtain ⟨bs, hbs⟩ := worker_runs hrun
  exact ⟨p, bs, hrun, hwaiting, hdealer, hbs⟩

/-- The main thread comes out of `PushTask`. -/
theorem runs_notifyOne (p : Pool) : ∃ actions p', (∀ a ∈ actions, a.isInternal) ∧
    Runs Pool.step p actions p' ∧ p'.worker = p.worker ∧ p'.notifying = false ∧
      (p.notifying = true → 0 < p.waiting → 0 < p'.ready) ∧ p.ready ≤ p'.ready := by
  cases hnotifying : p.notifying with
  | false => exact ⟨[], p, by simp, Runs.refl _ _, rfl, hnotifying, nofun, le_rfl⟩
  | true =>
    refine ⟨[.notifyOne], p.notifyOne, by simp [Action.isInternal],
      Runs.single (if_pos hnotifying), ?_⟩
    unfold notifyOne
    split_ifs with hwaiting
    · exact ⟨rfl, rfl, fun _ _ => Nat.succ_pos _, Nat.le_succ _⟩
    · exact ⟨rfl, rfl, fun _ hsome => absurd hsome hwaiting, le_rfl⟩

/-- **No wake-up is lost.** Whatever a worker can do next, the threads come to do, without a thread
that wakes up for no reason: in particular, a task in the queue is taken as long as not all threads
are at work. -/
theorem follows {identity : String} {coreCount : ℕ} {h : coreCount < 2 ^ 31}
    {actions : List Action} (hrun : Runs Pool.step (start identity coreCount h) actions p)
    {b : Worker.Action} (hstep : p.worker.step b = some w') :
    ∃ before a p', (∀ x ∈ before, x.isInternal) ∧ Runs Pool.step p (before ++ [a]) p' ∧
      p'.worker = w' := by
  have hawake := Awake.of_runs hrun
  obtain ⟨before, p₁, hinternal, hbefore, hworker, hdone, hwoken, hready⟩ := runs_notifyOne p
  have hlast : ∀ {a p'}, Pool.step p₁ a = some p' → p'.worker = w' → ∃ before a p',
      (∀ x ∈ before, x.isInternal) ∧ Runs Pool.step p (before ++ [a]) p' ∧ p'.worker = w' :=
    fun ha hw' => ⟨before, _, _, hinternal, Runs.snoc_iff.mpr ⟨p₁, hbefore, ha⟩, hw'⟩
  rw [← hworker] at hstep
  cases b with
  | hear published =>
    exact hlast (a := .hear published) (by rw [Pool.step, hstep]; rfl) rfl
  | readRequest =>
    obtain ⟨p', hread, hw'⟩ := exists_readRequest hstep
    exact hlast (a := .readRequest) (by rw [Pool.step, hdone, ← hread]; rfl) hw'
  | poll =>
    simp only [Worker.step, Worker.poll] at hstep
    cases hqueue : p₁.worker.tasks with
    | nil => simp [hqueue] at hstep
    | cons task tasks =>
      simp only [hqueue] at hstep
      split_ifs at hstep with hfree
      -- some thread is on its way: if all that are free sleep, one is about to be notified
      have hsome : 0 < p₁.ready := by
        rw [hworker] at hqueue hfree
        have hthreads := hawake.threads
        have htasks := hawake.tasks
        rw [hqueue, List.length_cons] at htasks
        rcases Nat.eq_zero_or_pos p.ready with hnone | hsome
        · have hwaiting : 0 < p.waiting := by omega
          have hle := htasks hwaiting
          cases hnotifying : p.notifying with
          | false =>
            rw [hnotifying, Bool.toNat_false] at hle
            omega
          | true => exact hwoken hnotifying hwaiting
        · exact hsome.trans_le hready
      refine hlast (a := .lock) (if_pos hsome) ?_
      rw [lock, hqueue]
      exact Option.some.inj hstep
  | calculateTask task =>
    have hcalculate : p₁.worker.calculateTask task = some w' := hstep
    exact hlast (a := .calculateTask task) (by rw [Pool.step, hcalculate]; rfl) rfl
  | checkOutputQueue =>
    have hcheck : p₁.worker.checkOutputQueue = w' := Option.some.inj hstep
    exact hlast (a := .checkOutputQueue) (by rw [Pool.step, hdone]; rfl) hcheck
  | receive => exact hlast (a := .receive) (by rw [Pool.step, hstep]; rfl) rfl

/-- With both threads asleep and the notification still to come, the task is taken. -/
theorem follows_sum : ∃ p before a p', Runs Pool.step sumStart (sumRun.take 4) p ∧
    p.waiting = 2 ∧ (∀ x ∈ before, x.isInternal) ∧ Runs Pool.step p (before ++ [a]) p' ∧
    p'.worker.hands = {sumTask} := by
  obtain ⟨p, w', hrun, hwaiting, hpoll, hhands⟩ : ∃ p w',
      Runs Pool.step sumStart (sumRun.take 4) p ∧ p.waiting = 2 ∧
        p.worker.step .poll = some w' ∧ w'.hands = {sumTask} := ⟨_, _, rfl, rfl, rfl, rfl⟩
  obtain ⟨before, a, p', hinternal, hmore, rfl⟩ := follows hrun hpoll
  exact ⟨p, before, a, p', hrun, hwaiting, hinternal, hmore, hhands⟩

end Steps
end Pool
end TaskDispatch
