import Mathlib
import TaskDispatch.Broker.Broker
import TaskDispatch.Lib.Run
import TaskDispatch.Worker.Worker

/-!
# The broker and its workers

The broker with any number of workers that join at any time. A worker has two connections, and
nothing orders what goes over one of them and what goes over the other: on the `DEALER` connection
its registration and its answers arrive in the order in which they were sent; on the `SUB`
connection it gets what is published from the moment on at which its subscription has reached the
`PUB` socket. What is published before is dropped for it, and nobody is told.

`Orderly` is what every run keeps, whatever is dropped.
-/

set_option autoImplicit false

namespace TaskDispatch

open Proto Transition

/-- A worker and its connections. `heard` is the history of what its `SUB` socket was handed, and
`arrived` that of the answers which the broker has taken in. -/
structure Member where
  worker : Worker
  subscribed : Bool := false
  heard : List WorkerTask := []
  arrived : List WorkerTaskId := []

/-- What is published reaches those who are subscribed. -/
def Member.hear (m : Member) (published : List WorkerTask) : Member :=
  if m.subscribed then { m with
    worker := { m.worker with subscriber := m.worker.subscriber ++ published }
    heard := m.heard ++ published }
  else m

theorem Member.hear_nil (m : Member) : m.hear [] = m := by
  unfold hear
  split_ifs
  · rw [List.append_nil, List.append_nil]
  · rfl

/-- The workers are told apart by their identities. -/
structure Fleet where
  broker : Broker := {}
  members : String → Option Member := fun _ => none

namespace Fleet

/-! ## The steps -/

inductive Action where
  /-- `Worker::New`, and the first message of `Worker::Run`. -/
  | connect (identity : String) (coreCount : ℕ)
  /-- The subscription of a worker reaches the `PUB` socket. -/
  | subscribe (identity : String)
  | readRequest (identity : String)
  | poll (identity : String)
  | calculateTask (identity : String) (task : WorkerTask)
  | checkOutputQueue (identity : String)
  | receiveWorkerMessage (identity : String)
  | receiveManagerRequest (found : Option String) (task : Task)

def setMember (s : Fleet) (identity : String) (m : Member) : Fleet :=
  { s with members := Function.update s.members identity (some m) }

/-- One worker does something. -/
def onMember (s : Fleet) (identity : String) (f : Member → Option Member) : Option Fleet := do
  let m ← s.members identity
  let m ← f m
  some (s.setMember identity m)

/-- The broker goes on to a state, and what it has published on the way is handed out. -/
def goOn (s : Fleet) (broker : Broker) : Fleet where
  broker
  members identity := (s.members identity).map
    (·.hear (broker.workerPub.drop s.broker.workerPub.length))

def step (s : Fleet) : Action → Option Fleet
  | .connect identity coreCount =>
    if h : coreCount < 2 ^ 31 ∧ s.members identity = none then
      let worker : Worker := { identity, coreCount, coreCount_lt := h.1 }
      some (s.setMember identity { worker := worker.sendAckMessage })
    else none
  | .subscribe identity => s.onMember identity fun m => some { m with subscribed := true }
  | .readRequest identity => s.onMember identity fun m => do
    some { m with worker := ← m.worker.readRequest }
  | .poll identity => s.onMember identity fun m => do some { m with worker := ← m.worker.poll }
  | .calculateTask identity task => s.onMember identity fun m => do
    some { m with worker := ← m.worker.calculateTask task }
  | .checkOutputQueue identity => s.onMember identity fun m =>
    some { m with worker := m.worker.checkOutputQueue }
  | .receiveWorkerMessage identity => do
    let m ← s.members identity
    match m.worker.dealer with
    | [] => none
    | message :: dealer =>
      let broker ← (s.broker.receiveWorkerMessage identity message).toOption
      let m : Member := { m with
        worker := { m.worker with dealer }
        arrived := m.arrived ++ (Worker.taskId? message).toList }
      some ((s.setMember identity m).goOn broker)
  | .receiveManagerRequest found task =>
    if s.broker.Finds found then do
      let broker ← (s.broker.receiveManagerRequest found task).toOption
      some (s.goOn broker)
    else none

section Steps

variable {s s' : Fleet} {identity : String} {coreCount : ℕ} {f : Member → Option Member}
  {found : Option String} {task : Task}

theorem members_setMember {m : Member} (identity' : String) :
    (s.setMember identity m).members identity' =
      if identity' = identity then some m else s.members identity' :=
  Function.update_apply ..

theorem onMember_eq_some : s.onMember identity f = some s' ↔ ∃ m m',
    s.members identity = some m ∧ f m = some m' ∧ s' = s.setMember identity m' := by
  simp [onMember, Option.bind_eq_some_iff, eq_comm (a := s')]

/-- The worker of a member does something, or cannot. -/
theorem withWorker_eq_some {m m' : Member} {w : Option Worker}
    (h : (do some { m with worker := ← w }) = some m') :
    ∃ w', w = some w' ∧ m' = { m with worker := w' } := by
  obtain ⟨w', hw', hm'⟩ := Option.bind_eq_some_iff.mp h
  exact ⟨w', hw', (Option.some.inj hm').symm⟩

theorem step_receiveWorkerMessage : step s (.receiveWorkerMessage identity) = some s' ↔
    ∃ m message dealer broker, s.members identity = some m ∧ m.worker.dealer = message :: dealer ∧
      s.broker.receiveWorkerMessage identity message = .ok broker ∧
      s' = (s.setMember identity { m with
        worker := { m.worker with dealer }
        arrived := m.arrived ++ (Worker.taskId? message).toList }).goOn broker := by
  cases hm : s.members identity with
  | none => simp [step, hm]
  | some m =>
    cases hdealer : m.worker.dealer with
    | nil => simp [step, hm, hdealer]
    | cons message dealer =>
      simp [step, hm, hdealer, Option.bind_eq_some_iff, eq_comm (a := s')]

theorem step_receiveManagerRequest : step s (.receiveManagerRequest found task) = some s' ↔
    s.broker.Finds found ∧ ∃ broker,
      s.broker.receiveManagerRequest found task = .ok broker ∧ s' = s.goOn broker := by
  simp [step, Option.bind_eq_some_iff, eq_comm (a := s')]

/-- What a handler publishes goes to workers that are known, and no worker is forgotten. -/
structure Publishes (b b' : Broker) (published : List WorkerTask) : Prop where
  workerPub : b'.workerPub = b.workerPub ++ published
  mem_iff : ∀ identity, identity ∈ b'.workerRoutingIdToAvailableCoreCount ↔
    identity ∈ b.workerRoutingIdToAvailableCoreCount
  known : ∀ task ∈ published, task.identity ∈ b.workerRoutingIdToAvailableCoreCount

theorem publishes_reply {b b' : Broker} {id : WorkerTaskId}
    (h : b.processWorkerTaskReply id = .ok b') : ∃ published, Publishes b b' published ∧
      ∀ task ∈ published, task.identity = id.identity := by
  cases hback : b.taskQueue.getLast? with
  | none =>
    have hnil : b.taskQueue = [] := List.getLast?_eq_none_iff.mp hback
    obtain ⟨count, hcount, rfl⟩ := (Broker.processWorkerTaskReply_of_nil hnil).mp h
    exact ⟨[], ⟨(List.append_nil _).symm, Broker.mem_insert_of_getElem? hcount, by simp⟩, by simp⟩
  | some task =>
    obtain ⟨count, hcount, rfl⟩ := (Broker.processWorkerTaskReply_of_ne_nil hback).mp h
    have hknown := (Std.ExtTreeMap.getElem?_eq_some_iff.mp hcount).1
    exact ⟨[⟨id.identity, task⟩], ⟨rfl, fun _ => Iff.rfl, by simpa using hknown⟩, by simp⟩

theorem publishes_request {b b' : Broker} (h : b.receiveManagerRequest found task = .ok b') :
    Publishes b b' (found.toList.map fun identity => ⟨identity, task⟩) := by
  rcases Broker.receiveManagerRequest_eq_ok.mp h with
    ⟨rfl, rfl⟩ | ⟨identity, count, rfl, hcount, rfl⟩
  · exact ⟨(List.append_nil _).symm, fun _ => Iff.rfl, by simp⟩
  · have hknown := (Std.ExtTreeMap.getElem?_eq_some_iff.mp hcount).1
    exact ⟨rfl, Broker.mem_insert_of_getElem? hcount, by simpa using hknown⟩

/-- Those who are subscribed get what was published. -/
theorem members_goOn {b : Broker} {published : List WorkerTask}
    (h : Publishes s.broker b published) (identity : String) :
    (s.goOn b).members identity = (s.members identity).map (·.hear published) := by
  rw [goOn, h.workerPub, List.drop_left]

/-- At a registration nothing is published. -/
theorem members_goOn_of_registerWorker {b : Broker} {count : UInt32}
    (h : s.broker.registerWorker identity count = .ok b) : (s.goOn b).members = s.members := by
  obtain ⟨-, rfl⟩ := Broker.registerWorker_eq_ok.mp h
  funext identity
  rw [goOn, List.drop_length]
  simp [Member.hear_nil]

end Steps

/-! ## What every run keeps -/

/-- A worker: its name, its books, and what is on its connections. The registration is the only
message until it is handled, and after it there are only answers. -/
structure MemberOk (b : Broker) (identity : String) (m : Member) : Prop where
  identity_eq : m.worker.identity = identity
  conserves : ∃ finished answered, m.worker.Conserves m.heard m.arrived finished answered
  deaf : m.subscribed = false → m.heard = []
  known : ∀ task ∈ m.heard, task.identity ∈ b.workerRoutingIdToAvailableCoreCount
  dealer : (identity ∉ b.workerRoutingIdToAvailableCoreCount ∧
      ∃ count, m.worker.dealer = [.coreCount count]) ∨
    identity ∈ b.workerRoutingIdToAvailableCoreCount ∧
      ∀ message ∈ m.worker.dealer, ∃ id, message = .taskId id

structure Orderly (s : Fleet) : Prop where
  member : ∀ identity m, s.members identity = some m → MemberOk s.broker identity m
  known : ∀ identity ∈ s.broker.workerRoutingIdToAvailableCoreCount,
    ∃ m, s.members identity = some m
  published : ∀ task ∈ s.broker.workerPub,
    task.identity ∈ s.broker.workerRoutingIdToAvailableCoreCount

namespace MemberOk

variable {b b' : Broker} {identity : String} {m : Member} {w' : Worker} {task : WorkerTask}

/-- A worker that is not registered has heard of no task of its own, so it has finished none. -/
theorem finishedTasks_eq_nil (h : MemberOk b identity m)
    (hnew : identity ∉ b.workerRoutingIdToAvailableCoreCount) : m.worker.finishedTasks = [] := by
  obtain ⟨finished, answered, hconserves⟩ := h.conserves
  have hown : m.worker.own m.heard = [] := by
    apply List.filter_eq_nil_iff.mpr
    intro task htask hmine
    have hidentity : task.identity = m.worker.identity := by simpa using hmine
    rw [h.identity_eq] at hidentity
    exact hnew (hidentity ▸ h.known task htask)
  have hempty := hconserves.heard_eq
  rw [hown] at hempty
  have hfinished : (finished : Multiset WorkerTask) = 0 := by
    have hle : (finished : Multiset WorkerTask) ≤ 0 := by
      rw [← Multiset.coe_nil, hempty, add_assoc]
      exact (Multiset.le_add_right _ _).trans (Multiset.le_add_left _ _)
    exact Multiset.le_zero.mp hle
  rw [hconserves.finished_eq, (Multiset.coe_eq_zero finished).mp hfinished, List.map_nil]

/-- The worker does something that does not show outside. -/
theorem inside (h : MemberOk b identity m) (hsame : m.worker.SameOutside w')
    (hconserves : ∀ finished answered, m.worker.Conserves m.heard m.arrived finished answered →
      ∃ finished answered, w'.Conserves m.heard m.arrived finished answered) :
    MemberOk b identity { m with worker := w' } where
  identity_eq := hsame.identity_eq.trans h.identity_eq
  conserves := by
    obtain ⟨finished, answered, hold⟩ := h.conserves
    exact hconserves finished answered hold
  deaf := h.deaf
  known := h.known
  dealer := hsame.dealer_eq ▸ h.dealer

theorem readRequest (h : MemberOk b identity m) (hstep : m.worker.readRequest = some w') :
    MemberOk b identity { m with worker := w' } :=
  h.inside (Worker.sameOutside_readRequest hstep)
    fun _ _ hconserves => ⟨_, _, hconserves.readRequest hstep⟩

theorem poll (h : MemberOk b identity m) (hstep : m.worker.poll = some w') :
    MemberOk b identity { m with worker := w' } :=
  h.inside (Worker.sameOutside_poll hstep) fun _ _ hconserves => ⟨_, _, hconserves.poll hstep⟩

theorem calculateTask (h : MemberOk b identity m)
    (hstep : m.worker.calculateTask task = some w') :
    MemberOk b identity { m with worker := w' } :=
  h.inside (Worker.sameOutside_calculateTask hstep)
    fun _ _ hconserves => ⟨_, _, hconserves.calculateTask hstep⟩

theorem checkOutputQueue (h : MemberOk b identity m) :
    MemberOk b identity { m with worker := m.worker.checkOutputQueue } := by
  obtain ⟨hidentity, hdealer⟩ := m.worker.checkOutputQueue_eq
  refine
    { identity_eq := hidentity.trans h.identity_eq
      conserves := ?_
      deaf := h.deaf
      known := h.known
      dealer := ?_ }
  · obtain ⟨_, _, hconserves⟩ := h.conserves
    exact hconserves.checkOutputQueue
  · rcases hdealer with ⟨-, hsame⟩ | ⟨id, hid, hsent⟩
    · exact hsame ▸ h.dealer
    · rcases h.dealer with ⟨hnew, -⟩ | ⟨hregistered, hanswers⟩
      · -- before the registration is handled there is nothing to answer
        rw [h.finishedTasks_eq_nil hnew] at hid
        cases hid
      · refine .inr ⟨hregistered, ?_⟩
        intro message hmessage
        rw [hsent] at hmessage
        rcases List.mem_append.mp hmessage with hold | hadded
        · exact hanswers message hold
        · exact ⟨id, List.mem_singleton.mp hadded⟩

theorem subscribe (h : MemberOk b identity m) :
    MemberOk b identity { m with subscribed := true } :=
  { h with deaf := by simp }

/-- What a handler publishes is heard by those who are subscribed. -/
theorem hear {published : List WorkerTask} (h : MemberOk b identity m)
    (hpublishes : Publishes b b' published) : MemberOk b' identity (m.hear published) := by
  have hdealer : (identity ∉ b'.workerRoutingIdToAvailableCoreCount ∧
      ∃ count, m.worker.dealer = [.coreCount count]) ∨
    identity ∈ b'.workerRoutingIdToAvailableCoreCount ∧
      ∀ message ∈ m.worker.dealer, ∃ id, message = .taskId id := by
    rw [hpublishes.mem_iff]
    exact h.dealer
  unfold Member.hear
  split_ifs with hsubscribed
  · refine
      { identity_eq := h.identity_eq
        conserves := ?_
        deaf := fun hdeaf => absurd (hsubscribed.symm.trans hdeaf) (by simp)
        known := fun task htask => (hpublishes.mem_iff _).mpr ?_
        dealer := hdealer }
    · obtain ⟨_, _, hconserves⟩ := h.conserves
      exact ⟨_, _, hconserves.hear published⟩
    · rcases List.mem_append.mp htask with hold | hadded
      · exact h.known task hold
      · exact hpublishes.known task hadded
  · exact { h with
      known := fun task htask => (hpublishes.mem_iff _).mpr (h.known task htask)
      dealer := hdealer }

end MemberOk

namespace Orderly

variable {s s' : Fleet} {identity : String} {coreCount : ℕ} {m m' : Member} {a : Action}

theorem init : Orderly {} where
  member := by simp
  known := by simp
  published := by simp

/-- A worker moves on, and the broker does not. -/
theorem setMember (h : Orderly s) (hm' : MemberOk s.broker identity m') :
    Orderly (s.setMember identity m') where
  member identity' m hm := by
    rw [members_setMember] at hm
    split_ifs at hm with heq
    · subst heq
      obtain rfl := Option.some.inj hm
      exact hm'
    · exact h.member identity' m hm
  known identity' hknown := by
    rw [members_setMember]
    split_ifs
    · exact ⟨m', rfl⟩
    · exact h.known identity' hknown
  published := h.published

theorem onMember (h : Orderly s) {f : Member → Option Member}
    (hstep : s.onMember identity f = some s')
    (hf : ∀ m m', MemberOk s.broker identity m → f m = some m' → MemberOk s.broker identity m') :
    Orderly s' := by
  obtain ⟨m, m', hm, hfm, rfl⟩ := onMember_eq_some.mp hstep
  exact h.setMember (hf m m' (h.member identity m hm) hfm)

theorem connect (h : Orderly s) (hstep : Fleet.step s (.connect identity coreCount) = some s') :
    Orderly s' := by
  simp only [Fleet.step] at hstep
  split_ifs at hstep with hnew
  obtain rfl := Option.some.inj hstep
  apply h.setMember
  refine
    { identity_eq := rfl
      conserves := ⟨[], [], (Worker.Conserves.new identity coreCount hnew.1).sendAckMessage⟩
      deaf := fun _ => rfl
      known := by simp
      dealer := .inl ⟨fun hknown => ?_, _, rfl⟩ }
  obtain ⟨m, hm⟩ := h.known identity hknown
  rw [hnew.2] at hm
  cases hm

/-- The broker publishes. -/
theorem goOn {b : Broker} {published : List WorkerTask} (h : Orderly s)
    (hpublishes : Publishes s.broker b published) : Orderly (s.goOn b) where
  member identity m hm := by
    rw [members_goOn hpublishes, Option.map_eq_some_iff] at hm
    obtain ⟨m, hm, rfl⟩ := hm
    exact (h.member identity m hm).hear hpublishes
  known identity hknown := by
    obtain ⟨m, hm⟩ := h.known identity ((hpublishes.mem_iff identity).mp hknown)
    exact ⟨m.hear published, by rw [members_goOn hpublishes, hm]; rfl⟩
  published task htask := by
    apply (hpublishes.mem_iff _).mpr
    have hmem : task ∈ b.workerPub := htask
    rw [hpublishes.workerPub] at hmem
    rcases List.mem_append.mp hmem with hold | hadded
    · exact h.published task hold
    · exact hpublishes.known task hadded

/-- The broker takes in a registration or an answer, and handles it. -/
theorem receiveWorkerMessage_cases (h : Orderly s) (hm : s.members identity = some m)
    {message : WorkerMessage} {dealer : List WorkerMessage}
    (hdealer : m.worker.dealer = message :: dealer) :
    (∃ count, message = .coreCount count ∧ dealer = [] ∧
      identity ∉ s.broker.workerRoutingIdToAvailableCoreCount) ∨
    ∃ id, message = .taskId id ∧ id.identity = identity ∧
      identity ∈ s.broker.workerRoutingIdToAvailableCoreCount := by
  have hok := h.member identity m hm
  rcases hok.dealer with ⟨hnew, count, hcount⟩ | ⟨hregistered, hanswers⟩
  · rw [hdealer] at hcount
    obtain ⟨rfl, rfl⟩ := List.cons.inj hcount
    exact .inl ⟨count, rfl, rfl, hnew⟩
  · obtain ⟨id, rfl⟩ := hanswers message (hdealer ▸ List.mem_cons_self)
    obtain ⟨_, _, hconserves⟩ := hok.conserves
    obtain ⟨-, -, -, hmine⟩ := hconserves.identity_eq
    have hid : id ∈ m.arrived ++ m.worker.dealer.filterMap Worker.taskId? := by
      rw [hdealer]
      exact List.mem_append_right _ List.mem_cons_self
    exact .inr ⟨id, rfl, (hmine id hid).trans hok.identity_eq, hregistered⟩

/-- The broker never throws at a message. -/
theorem receiveWorkerMessage_returns (h : Orderly s) (hm : s.members identity = some m)
    {message : WorkerMessage} {dealer : List WorkerMessage}
    (hdealer : m.worker.dealer = message :: dealer) :
    ∃ b, s.broker.receiveWorkerMessage identity message = .ok b := by
  rcases h.receiveWorkerMessage_cases hm hdealer with
    ⟨count, rfl, -, hnew⟩ | ⟨id, rfl, hid, hregistered⟩
  · exact ⟨_, Broker.registerWorker_eq_ok.mpr ⟨hnew, rfl⟩⟩
  · rw [← hid] at hregistered
    have hcount := Std.ExtTreeMap.getElem?_eq_some_getElem hregistered
    cases hback : s.broker.taskQueue.getLast? with
    | none =>
      have hnil : s.broker.taskQueue = [] := List.getLast?_eq_none_iff.mp hback
      exact ⟨_, (Broker.processWorkerTaskReply_of_nil hnil).mpr ⟨_, hcount, rfl⟩⟩
    | some task => exact ⟨_, (Broker.processWorkerTaskReply_of_ne_nil hback).mpr ⟨_, hcount, rfl⟩⟩

/-- A worker is registered. -/
theorem registerWorker (h : Orderly s) {b : Broker} {count : UInt32}
    (hm : s.members identity = some m) (hdealer : m.worker.dealer = [.coreCount count])
    (hb : s.broker.registerWorker identity count = .ok b) :
    Orderly ((s.setMember identity { m with
      worker := { m.worker with dealer := [] }
      arrived := m.arrived ++ (Worker.taskId? (.coreCount count)).toList }).goOn b) := by
  have hmembers : ∀ m', ((s.setMember identity m').goOn b).members =
      (s.setMember identity m').members := fun m' => members_goOn_of_registerWorker hb
  obtain ⟨-, rfl⟩ := Broker.registerWorker_eq_ok.mp hb
  have hok := h.member identity m hm
  have hmem : ∀ identity', identity' ∈ s.broker.workerRoutingIdToAvailableCoreCount.insert identity
      count.toUInt64 ↔
        identity' = identity ∨ identity' ∈ s.broker.workerRoutingIdToAvailableCoreCount := by
    intro identity'
    rw [Std.ExtTreeMap.mem_insert, Std.compare_eq_iff_eq, eq_comm]
  refine
    { member := ?_
      known := ?_
      published := fun task htask => (hmem _).mpr (.inr (h.published task htask)) }
  · intro identity' m' hm'
    rw [hmembers, members_setMember] at hm'
    split_ifs at hm' with heq
    · subst heq
      obtain rfl := Option.some.inj hm'
      refine
        { identity_eq := hok.identity_eq
          conserves := ?_
          deaf := hok.deaf
          known := fun task htask => (hmem _).mpr (.inr (hok.known task htask))
          dealer := .inr ⟨(hmem _).mpr (.inl rfl), by simp⟩ }
      obtain ⟨_, _, hconserves⟩ := hok.conserves
      exact ⟨_, _, hconserves.receive hdealer⟩
    · -- for another worker nothing changes
      have hok' := h.member identity' m' hm'
      have hsame : identity' ∈ s.broker.workerRoutingIdToAvailableCoreCount.insert identity
          count.toUInt64 ↔ identity' ∈ s.broker.workerRoutingIdToAvailableCoreCount := by
        rw [hmem]
        exact or_iff_right heq
      exact { hok' with
        known := fun task htask => (hmem _).mpr (.inr (hok'.known task htask))
        dealer := by
          show (identity' ∉ s.broker.workerRoutingIdToAvailableCoreCount.insert _ _ ∧ _) ∨
            identity' ∈ s.broker.workerRoutingIdToAvailableCoreCount.insert _ _ ∧ _
          rw [hsame]
          exact hok'.dealer }
  · intro identity' hknown
    rw [hmembers, members_setMember]
    split_ifs with heq
    · exact ⟨_, rfl⟩
    · exact h.known identity' (((hmem _).mp hknown).resolve_left heq)

/-- An answer leaves the connection. -/
theorem receive (h : Orderly s) {id : WorkerTaskId} {dealer : List WorkerMessage}
    (hm : s.members identity = some m) (hdealer : m.worker.dealer = .taskId id :: dealer)
    (hregistered : identity ∈ s.broker.workerRoutingIdToAvailableCoreCount) :
    Orderly (s.setMember identity { m with
      worker := { m.worker with dealer }
      arrived := m.arrived ++ (Worker.taskId? (.taskId id)).toList }) := by
  have hok := h.member identity m hm
  apply h.setMember
  refine { hok with
    conserves := ?_
    dealer := .inr ⟨hregistered, ?_⟩ }
  · obtain ⟨_, _, hconserves⟩ := hok.conserves
    exact ⟨_, _, hconserves.receive hdealer⟩
  · intro message hmessage
    rcases hok.dealer with ⟨hnew, -⟩ | ⟨-, hanswers⟩
    · exact absurd hregistered hnew
    · exact hanswers message (hdealer ▸ List.mem_cons_of_mem _ hmessage)

theorem step (h : Orderly s) (hstep : Fleet.step s a = some s') : Orderly s' := by
  cases a with
  | connect identity coreCount => exact h.connect hstep
  | subscribe identity =>
    apply h.onMember hstep
    intro m m' hok hm'
    obtain rfl := Option.some.inj hm'
    exact hok.subscribe
  | readRequest identity =>
    apply h.onMember hstep
    intro m m' hok hm'
    obtain ⟨w', hw', rfl⟩ := withWorker_eq_some hm'
    exact hok.readRequest hw'
  | poll identity =>
    apply h.onMember hstep
    intro m m' hok hm'
    obtain ⟨w', hw', rfl⟩ := withWorker_eq_some hm'
    exact hok.poll hw'
  | calculateTask identity task =>
    apply h.onMember hstep
    intro m m' hok hm'
    obtain ⟨w', hw', rfl⟩ := withWorker_eq_some hm'
    exact hok.calculateTask hw'
  | checkOutputQueue identity =>
    apply h.onMember hstep
    intro m m' hok hm'
    obtain rfl := Option.some.inj hm'
    exact hok.checkOutputQueue
  | receiveWorkerMessage identity =>
    obtain ⟨m, message, dealer, b, hm, hdealer, hb, rfl⟩ := step_receiveWorkerMessage.mp hstep
    rcases h.receiveWorkerMessage_cases hm hdealer with
      ⟨count, rfl, rfl, -⟩ | ⟨id, rfl, -, hregistered⟩
    · exact h.registerWorker hm hdealer hb
    · obtain ⟨published, hpublishes, -⟩ := publishes_reply hb
      exact (h.receive hm hdealer hregistered).goOn hpublishes
  | receiveManagerRequest found task =>
    obtain ⟨-, b, hb, rfl⟩ := step_receiveManagerRequest.mp hstep
    exact h.goOn (publishes_request hb)

theorem of_runs {actions : List Action} (hrun : Runs Fleet.step {} actions s) : Orderly s :=
  hrun.invariant (I := fun _ s => Orderly s) init fun _ _ _ _ _ h hstep => h.step hstep

end Orderly

end Fleet
end TaskDispatch
