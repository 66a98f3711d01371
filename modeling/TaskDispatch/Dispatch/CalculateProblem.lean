import Mathlib
import TaskDispatch.Dispatch.Exchange

/-!
# `CalculateProblem` and `RunDispatcher`, lock by lock

What `Exchange` takes as one step is taken apart here, as far as it shows. A caller that has pushed
its problem looks for its `SyncData` in the map, twice, and once more for each test of the flag;
between these it takes `cv_m`, gives it up to wait, is woken, by `notify_all` or by nobody, and
takes it again. The dispatcher that reads the reply to a root keeps `m_` while it takes `cv_m`, sets
the flag and notifies. Sections that hold `m_` and do nothing else are one step, as they were.

A `SyncData` is a local of `CalculateProblem`; the map has references. So it is part of its caller
here, and the map says whose. The callers are numbered in the order in which they push.
-/

set_option autoImplicit false

namespace TaskDispatch

open Proto Transition

/-- Where a caller is in `CalculateProblem`. `mutex` and `cv` say whose they are. -/
inductive Place where
  | pushed
  /-- It wants to take `cv_m`. -/
  | found (mutex : ℕ)
  | locked (mutex : ℕ)
  /-- In `wait`, with the lock, before the predicate is evaluated. -/
  | testing (mutex cv : ℕ)
  /-- The predicate was false. The lock is still held. -/
  | refused (mutex cv : ℕ)
  | waiting (mutex cv : ℕ)
  /-- It wants the lock back. -/
  | woken (mutex cv : ℕ)
  /-- The predicate was true. The lock is still held. -/
  | passed (mutex : ℕ)
  | released
  | cleared
  deriving DecidableEq, Repr

/-- `problem_id_to_sync_data_.at` has found this one, for the mutex or for the condition
variable. -/
def Place.find (syncData : ℕ) : Place → Option Place
  | .pushed => some (.found syncData)
  | .locked mutex => some (.testing mutex syncData)
  | .found _ | .testing .. | .refused .. | .waiting .. | .woken .. | .passed _ | .released
  | .cleared => none

/-- The lock that is asked for, and where the caller is when it has it. -/
def Place.lock : Place → Option (ℕ × Place)
  | .found mutex => some (mutex, .locked mutex)
  | .woken mutex cv => some (mutex, .testing mutex cv)
  | .pushed | .locked _ | .testing .. | .refused .. | .waiting .. | .passed _ | .released
  | .cleared => none

/-- The predicate of the wait is evaluated. -/
def Place.test (isComputed : Bool) : Place → Option Place
  | .testing mutex cv => some (if isComputed then .passed mutex else .refused mutex cv)
  | .pushed | .found _ | .locked _ | .refused .. | .waiting .. | .woken .. | .passed _ | .released
  | .cleared => none

/-- The lock that is given up, and where the caller is then. To wait is one step with it. -/
def Place.unlock : Place → Option (ℕ × Place)
  | .refused mutex cv => some (mutex, .waiting mutex cv)
  | .passed mutex => some (mutex, .released)
  | .pushed | .found _ | .locked _ | .testing .. | .waiting .. | .woken .. | .released
  | .cleared => none

/-- By `notify_all`, or by nobody. -/
def Place.wake : Place → Option Place
  | .waiting mutex cv => some (.woken mutex cv)
  | .pushed | .found _ | .locked _ | .testing .. | .refused .. | .woken .. | .passed _ | .released
  | .cleared => none

/-- `notify_all` on a condition variable -/
def Place.notify (cv : ℕ) : Place → Place
  | .waiting mutex cv' => if cv' = cv then .woken mutex cv' else .waiting mutex cv'
  | place => place

section

variable {place place' : Place} {o mutex : ℕ} {isComputed : Bool}

/-! None of these begins or ends where the problem is cleared. -/

theorem Place.find_live (h : place.find o = some place') :
    place ≠ .cleared ∧ place' ≠ .cleared := by
  cases place <;> cases h <;> simp

theorem Place.lock_live (h : place.lock = some (mutex, place')) :
    place ≠ .cleared ∧ place' ≠ .cleared := by
  cases place <;> cases h <;> simp

theorem Place.test_live (h : place.test isComputed = some place') :
    place ≠ .cleared ∧ place' ≠ .cleared := by
  cases isComputed <;> cases place <;> cases h <;> simp

theorem Place.unlock_live (h : place.unlock = some (mutex, place')) :
    place ≠ .cleared ∧ place' ≠ .cleared := by
  cases place <;> cases h <;> simp

theorem Place.wake_live (h : place.wake = some place') :
    place ≠ .cleared ∧ place' ≠ .cleared := by
  cases place <;> cases h
  simp

theorem Place.notify_live {cv : ℕ} : place.notify cv = .cleared ↔ place = .cleared := by
  cases place with
  | waiting mutex cv' => rw [notify]; split_ifs <;> simp
  | pushed | found | locked | testing | refused | woken | passed | released | cleared => rfl

end

/-- Past the wait. -/
def Place.Proceeds : Place → Prop
  | .passed _ | .released | .cleared => True
  | .pushed | .found _ | .locked _ | .testing .. | .refused .. | .waiting .. | .woken .. => False

/-- A call of `CalculateProblem`, from the push on. `cvM` is who holds the mutex. -/
structure Caller where
  problemId : ProblemId
  syncData : SyncData := {}
  cvM : Option ℕ := none
  place : Place := .pushed
  deriving DecidableEq, Repr

/-- The dispatcher in `NotifyComputedProblem`, with a reference to the `SyncData` of a caller. -/
inductive Notification where
  /-- It wants to take `cv_m`. -/
  | flagging (caller : ℕ)
  /-- The flag is set, and `cv_m` is free again. -/
  | notifying (caller : ℕ)
  | notified (caller : ℕ)
  deriving DecidableEq, Repr

/-- Whose `SyncData` the dispatcher refers to. -/
def Notification.caller : Notification → ℕ
  | .flagging c | .notifying c | .notified c => c

/-- `m_` is taken for longer than a step by the dispatcher only, and while there is a
`notification`. `origin`, `submitted`, `sent` and `inFlight` are as in `Exchange`; `reported` are
the callers whose root was reported, and `notified` those for which `notify_all` has run. -/
structure HandOff where
  problemIdToCalculationData : Std.ExtTreeMap ProblemId CalculationData := ∅
  problemIdToSyncData : Std.ExtTreeMap ProblemId ℕ := ∅
  problemId : ProblemId := 0
  notification : Option Notification := none
  callers : ℕ → Option Caller := fun _ => none
  origin : ProblemId → Option AstRequest := fun _ => none
  submitted : ℕ := 0
  sent : List Task := []
  inFlight : Multiset Proto.TaskId := 0
  reported : List ℕ := []
  notified : List ℕ := []

namespace HandOff

/-! ## The steps -/

inductive Action where
  | pushProblem (request : AstRequest)
  | sendComputableTasks (order : PassOrder := .ascending)
  /-- A reply. Where it is for a root, this is `NotifyComputedProblem` up to its first lock. -/
  | updateComputableTasks (id : Proto.TaskId)
  | setIsComputed
  | notifyAll
  /-- The dispatcher gives up `m_`. -/
  | endNotification
  | find (caller : ℕ)
  | lock (caller : ℕ)
  | test (caller : ℕ)
  | unlock (caller : ℕ)
  | wake (caller : ℕ)
  | clearProblem (caller : ℕ)

/-- Whose step it is. -/
def Action.caller? : Action → Option ℕ
  | .find c | .lock c | .test c | .unlock c | .wake c | .clearProblem c => some c
  | .pushProblem _ | .sendComputableTasks _ | .updateComputableTasks _ | .setIsComputed | .notifyAll
  | .endNotification => none

def setCaller (s : HandOff) (c : ℕ) (caller : Caller) : HandOff :=
  { s with callers := Function.update s.callers c (some caller) }

def pushProblem (s : HandOff) (request : AstRequest) (calcData : CalculationData) : HandOff :=
  { s.setCaller s.submitted { problemId := s.problemId } with
    problemIdToCalculationData :=
      s.problemIdToCalculationData.insertIfNew s.problemId calcData
    problemIdToSyncData := s.problemIdToSyncData.insertIfNew s.problemId s.submitted
    problemId := (s.problemId + 1) % 2 ^ 64
    origin := if s.problemId ∈ s.problemIdToCalculationData then s.origin
      else Function.update s.origin s.problemId (some request)
    submitted := s.submitted + 1 }

/-- `UpdateComputableTasks`, and `NotifyComputedProblem` until it has its reference. -/
def updateComputableTasks (s : HandOff) (id : Proto.TaskId) : Result HandOff := do
  let calcData ← Result.ofLookup s.problemIdToCalculationData[id.problemId.toNat]?
  let last ← calcData.decompositor.lastTask
  let completed ← calcData.complete id.taskId.toNat
  let s := { s with inFlight := s.inFlight.erase id }
  if id.taskId.toNat = last then
    let syncData ← Result.ofLookup s.problemIdToSyncData[id.problemId.toNat]?
    .ok { s with
      problemIdToCalculationData :=
        s.problemIdToCalculationData.insert id.problemId.toNat completed
      notification := some (.flagging syncData)
      reported := syncData :: s.reported }
  else
    .ok { s with
      problemIdToCalculationData :=
        s.problemIdToCalculationData.insert id.problemId.toNat completed.recompute }

def step (s : HandOff) : Action → Option HandOff
  | .pushProblem request =>
    if s.notification = none then do
      let calcData ← (CalculationData.new request.ast).toOption
      some (s.pushProblem request calcData)
    else none
  | .sendComputableTasks order =>
    -- of the fields of `Dispatcher` only this one is read and written
    if s.notification = none then do
      let dispatcher : Dispatcher := { problemIdToCalculationData := s.problemIdToCalculationData }
      let (tasks, dispatcher) ← (dispatcher.sendComputableTasks order).toOption
      some { s with
        problemIdToCalculationData := dispatcher.problemIdToCalculationData
        sent := s.sent ++ tasks
        inFlight := s.inFlight + tasks.map (·.id) }
    else none
  | .updateComputableTasks id =>
    if s.notification = none ∧ id ∈ s.inFlight then (s.updateComputableTasks id).toOption else none
  | .setIsComputed =>
    match s.notification with
    | some (.flagging c) => do
      let caller ← s.callers c
      -- the lock is taken and given back within the step
      if caller.cvM = none then
        some { s.setCaller c { caller with syncData := { isComputed := true } } with
          notification := some (.notifying c) }
      else none
    | _ => none
  | .notifyAll =>
    match s.notification with
    | some (.notifying c) => some { s with
        callers := fun c' => (s.callers c').map fun caller =>
          { caller with place := caller.place.notify c }
        notification := some (.notified c)
        notified := c :: s.notified }
    | _ => none
  | .endNotification =>
    match s.notification with
    | some (.notified _) => some { s with notification := none }
    | _ => none
  | .find c => do
    let caller ← s.callers c
    let syncData ← s.problemIdToSyncData[caller.problemId]?
    let place ← caller.place.find syncData
    some (s.setCaller c { caller with place })
  | .lock c => do
    let caller ← s.callers c
    let (mutex, place) ← caller.place.lock
    let owner ← s.callers mutex
    if owner.cvM = none then
      -- where two callers have one id, the mutex may be the other's
      let s := s.setCaller mutex { owner with cvM := some c }
      let caller ← s.callers c
      some (s.setCaller c { caller with place })
    else none
  | .test c => do
    -- the flag cannot change between the lookup and the read, since the lock is held
    let caller ← s.callers c
    let syncData ← s.problemIdToSyncData[caller.problemId]?
    let owner ← s.callers syncData
    let place ← caller.place.test owner.syncData.isComputed
    some (s.setCaller c { caller with place })
  | .unlock c => do
    let caller ← s.callers c
    let (mutex, place) ← caller.place.unlock
    let owner ← s.callers mutex
    let s := s.setCaller mutex { owner with cvM := none }
    let caller ← s.callers c
    some (s.setCaller c { caller with place })
  | .wake c => do
    let caller ← s.callers c
    let place ← caller.place.wake
    some (s.setCaller c { caller with place })
  | .clearProblem c => do
    let caller ← s.callers c
    if s.notification = none ∧ caller.place = .released then
      some { s.setCaller c { caller with place := .cleared } with
        problemIdToCalculationData := s.problemIdToCalculationData.erase caller.problemId
        problemIdToSyncData := s.problemIdToSyncData.erase caller.problemId }
    else none

section Steps

variable {s s' : HandOff} {c o : ℕ} {caller : Caller} {id : Proto.TaskId} {request : AstRequest}

theorem callers_setCaller (c' : ℕ) :
    (s.setCaller c caller).callers c' = if c' = c then some caller else s.callers c' :=
  Function.update_apply ..

theorem setCaller_setCaller (caller' : Caller) :
    (s.setCaller c caller).setCaller c caller' = s.setCaller c caller' := by
  rw [setCaller, setCaller, setCaller, Function.update_idem]

theorem step_pushProblem : step s (.pushProblem request) = some s' ↔ s.notification = none ∧
    ∃ calcData, CalculationData.new request.ast = .ok calcData ∧
      s' = s.pushProblem request calcData := by
  simp [step, Option.bind_eq_some_iff, eq_comm (a := s')]

theorem step_send {order : PassOrder} :
    step s (.sendComputableTasks order) = some s' ↔ s.notification = none ∧
    ∃ tasks dispatcher, ({ problemIdToCalculationData := s.problemIdToCalculationData } :
        Dispatcher).sendComputableTasks order = .ok (tasks, dispatcher) ∧ s' = { s with
      problemIdToCalculationData := dispatcher.problemIdToCalculationData
      sent := s.sent ++ tasks
      inFlight := s.inFlight + tasks.map (·.id) } := by
  simp [step, Option.bind_eq_some_iff, eq_comm (a := s')]

theorem step_update : step s (.updateComputableTasks id) = some s' ↔
    (s.notification = none ∧ id ∈ s.inFlight) ∧ s.updateComputableTasks id = .ok s' := by
  simp [step]

/-- What a reply does: it is for a root, and the dispatcher goes on to notify, or it is not. -/
theorem updateComputableTasks_eq_ok : s.updateComputableTasks id = .ok s' ↔
    ∃ calcData last completed,
      s.problemIdToCalculationData[id.problemId.toNat]? = some calcData ∧
      calcData.decompositor.lastTask = .ok last ∧
      calcData.complete id.taskId.toNat = .ok completed ∧
      ((id.taskId.toNat = last ∧ ∃ o, s.problemIdToSyncData[id.problemId.toNat]? = some o ∧
          s' = { s with
            problemIdToCalculationData :=
              s.problemIdToCalculationData.insert id.problemId.toNat completed
            notification := some (.flagging o)
            inFlight := s.inFlight.erase id
            reported := o :: s.reported }) ∨
        (id.taskId.toNat ≠ last ∧ s' = { s with
          problemIdToCalculationData :=
            s.problemIdToCalculationData.insert id.problemId.toNat completed.recompute
          inFlight := s.inFlight.erase id })) := by
  simp only [updateComputableTasks, Result.bind_ok_iff, Result.ofLookup_eq_ok]
  constructor
  · rintro ⟨calcData, hcd, last, hlast, completed, hc, h⟩
    refine ⟨calcData, last, completed, hcd, hlast, hc, ?_⟩
    split_ifs at h with hid
    · rw [Result.bind_ok_iff] at h
      obtain ⟨o, ho, h⟩ := h
      exact .inl ⟨hid, o, Result.ofLookup_eq_ok.mp ho, (Except.ok.inj h).symm⟩
    · exact .inr ⟨hid, (Except.ok.inj h).symm⟩
  · rintro ⟨calcData, last, completed, hcd, hlast, hc, ⟨hid, o, ho, rfl⟩ | ⟨hid, rfl⟩⟩
    · refine ⟨calcData, hcd, last, hlast, completed, hc, ?_⟩
      rw [if_pos hid, ho]
      rfl
    · refine ⟨calcData, hcd, last, hlast, completed, hc, ?_⟩
      rw [if_neg hid]

theorem step_setIsComputed : step s .setIsComputed = some s' ↔ ∃ c caller,
    s.notification = some (.flagging c) ∧ s.callers c = some caller ∧ caller.cvM = none ∧
      s' = { s.setCaller c { caller with syncData := { isComputed := true } } with
        notification := some (.notifying c) } := by
  rcases hnotification : s.notification with _ | ⟨_ | _ | _⟩ <;>
    simp [step, hnotification, Option.bind_eq_some_iff, eq_comm (a := s')]

theorem step_notifyAll : step s .notifyAll = some s' ↔ ∃ c,
    s.notification = some (.notifying c) ∧ s' = { s with
      callers := fun c' => (s.callers c').map fun caller =>
          { caller with place := caller.place.notify c }
      notification := some (.notified c)
      notified := c :: s.notified } := by
  rcases hnotification : s.notification with _ | ⟨_ | _ | _⟩ <;>
    simp [step, hnotification, eq_comm (a := s')]

theorem step_endNotification : step s .endNotification = some s' ↔ ∃ c,
    s.notification = some (.notified c) ∧ s' = { s with notification := none } := by
  rcases hnotification : s.notification with _ | ⟨_ | _ | _⟩ <;>
    simp [step, hnotification, eq_comm (a := s')]

theorem step_find : step s (.find c) = some s' ↔ ∃ caller o place, s.callers c = some caller ∧
    s.problemIdToSyncData[caller.problemId]? = some o ∧ caller.place.find o = some place ∧
      s' = s.setCaller c { caller with place } := by
  simp only [step, bind, Option.bind_eq_some_iff, Option.some.injEq, eq_comm (a := s')]
  tauto

theorem step_test : step s (.test c) = some s' ↔ ∃ caller o owner place,
    s.callers c = some caller ∧ s.problemIdToSyncData[caller.problemId]? = some o ∧
      s.callers o = some owner ∧ caller.place.test owner.syncData.isComputed = some place ∧
      s' = s.setCaller c { caller with place } := by
  simp only [step, bind, Option.bind_eq_some_iff, Option.some.injEq, eq_comm (a := s')]
  tauto

theorem step_wake : step s (.wake c) = some s' ↔ ∃ caller place, s.callers c = some caller ∧
    caller.place.wake = some place ∧ s' = s.setCaller c { caller with place } := by
  simp only [step, bind, Option.bind_eq_some_iff, Option.some.injEq, eq_comm (a := s')]
  tauto

theorem step_clearProblem : step s (.clearProblem c) = some s' ↔ ∃ caller,
    s.callers c = some caller ∧ s.notification = none ∧ caller.place = .released ∧
      s' = { s.setCaller c { caller with place := .cleared } with
        problemIdToCalculationData := s.problemIdToCalculationData.erase caller.problemId
        problemIdToSyncData := s.problemIdToSyncData.erase caller.problemId } := by
  simp [step, Option.bind_eq_some_iff, eq_comm (a := s'), and_assoc]

/-- A caller that moves on keeps its id, and no flag changes. -/
theorem map_setCaller {caller' : Caller} {x : ℕ} {β : Type} {f : Caller → β}
    (hc : s.callers c = some caller) (h : f caller' = f caller) :
    ((s.setCaller c caller').callers x).map f = (s.callers x).map f := by
  rw [callers_setCaller]
  split_ifs with heq
  · rw [heq, hc]
    exact congrArg some h
  · rfl

/-- The id and the flag of a caller -/
def Caller.entry (caller : Caller) : ProblemId × SyncData := (caller.problemId, caller.syncData)

/-- A caller that does not clear its problem leaves everything but the callers alone, and their
ids and flags. -/
theorem exists_callers {a : Action} (hstep : step s a = some s') (ha : a.caller? = some c)
    (hclear : a ≠ .clearProblem c) : ∃ callers, s' = { s with callers } ∧
      ∀ c', (callers c').map Caller.entry = (s.callers c').map Caller.entry := by
  cases a with
  | find c' =>
    obtain ⟨_, _, _, hc, -, -, rfl⟩ := step_find.mp hstep
    exact ⟨_, rfl, fun _ => map_setCaller hc rfl⟩
  | lock c' =>
    obtain ⟨_, -, hrest⟩ := Option.bind_eq_some_iff.mp hstep
    obtain ⟨⟨mutex, place⟩, -, hrest⟩ := Option.bind_eq_some_iff.mp hrest
    obtain ⟨owner, ho, hrest⟩ := Option.bind_eq_some_iff.mp hrest
    split_ifs at hrest
    obtain ⟨caller', hc', hrest⟩ := Option.bind_eq_some_iff.mp hrest
    obtain rfl := Option.some.inj hrest
    refine ⟨_, rfl, ?_⟩
    intro x
    refine (map_setCaller hc' ?_).trans (map_setCaller ho rfl)
    rfl
  | test c' =>
    obtain ⟨_, _, _, _, hc, -, -, -, rfl⟩ := step_test.mp hstep
    exact ⟨_, rfl, fun _ => map_setCaller hc rfl⟩
  | unlock c' =>
    obtain ⟨_, -, hrest⟩ := Option.bind_eq_some_iff.mp hstep
    obtain ⟨⟨mutex, place⟩, -, hrest⟩ := Option.bind_eq_some_iff.mp hrest
    obtain ⟨owner, ho, hrest⟩ := Option.bind_eq_some_iff.mp hrest
    obtain ⟨caller', hc', hrest⟩ := Option.bind_eq_some_iff.mp hrest
    obtain rfl := Option.some.inj hrest
    refine ⟨_, rfl, ?_⟩
    intro x
    refine (map_setCaller hc' ?_).trans (map_setCaller ho rfl)
    rfl
  | wake c' =>
    obtain ⟨_, _, hc, -, rfl⟩ := step_wake.mp hstep
    exact ⟨_, rfl, fun _ => map_setCaller hc rfl⟩
  | clearProblem c' =>
    obtain rfl := Option.some.inj ha
    exact absurd rfl hclear
  | pushProblem | sendComputableTasks | updateComputableTasks | setIsComputed | notifyAll
  | endNotification => cases ha

/-- A caller takes its own mutex. -/
theorem step_lock {place : Place} (hc : s.callers c = some caller)
    (hlock : caller.place.lock = some (c, place)) : step s (.lock c) = some s' ↔
      caller.cvM = none ∧ s' = s.setCaller c { caller with cvM := some c, place } := by
  simp [step, hc, hlock, callers_setCaller, setCaller_setCaller, eq_comm (a := s')]

/-- A caller gives its own mutex up. -/
theorem step_unlock {place : Place} (hc : s.callers c = some caller)
    (hunlock : caller.place.unlock = some (c, place)) : step s (.unlock c) = some s' ↔
      s' = s.setCaller c { caller with cvM := none, place } := by
  simp [step, hc, hunlock, callers_setCaller, setCaller_setCaller, eq_comm (a := s')]

end Steps

end HandOff
end TaskDispatch
