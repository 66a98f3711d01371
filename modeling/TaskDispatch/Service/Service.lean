import Mathlib
import TaskDispatch.Deployment.Integrity
import TaskDispatch.Deployment.Rest
import TaskDispatch.Service.Documents

/-!
# `grpc-server`: the service

What a client sees: documents go in, and a reply comes out, or the call fails, or it stays open. The
handler of a call reads the document and decomposes the tree by itself. Then it is the client thread
of a call of `Dispatcher::CalculateProblem`, in the deployment with the calls of all other clients.
When that returns, the handler makes the reply of the result and finishes; nobody waits for that, so
it is no step of its own.

Whatever goes wrong, no client gets a wrong reply (`finished_right`). If nothing goes wrong, then in
the end every client has got what its own document comes to, whoever else was there and in whichever
order things happened (`status_eq_answer`).
-/

set_option autoImplicit false

namespace TaskDispatch

open Proto Transition

/-! ## `computation.proto` -/

inductive Proto.CalculationReply where
  | scalar (value : Scalar)
  | list (values : List Scalar)
  deriving DecidableEq, Repr

/-! ## `DecompDispatchServiceImpl` -/

/-- A call of a client: the document, and the call of `Dispatcher::CalculateProblem` it led to, or
what the handler threw before. -/
structure Rpc where
  document : Document
  entered : Except Exception ℕ

structure Service where
  deployment : Deployment
  rpcs : List Rpc := []

/-- What a client has of its call. The status of a call that failed is not `OK`. -/
inductive Status where
  | waiting
  | finished (reply : CalculationReply)
  | failed (x : Exception)
  deriving DecidableEq, Repr

/-- `ExprResultVisitor` -/
def toReply : ExprResult → CalculationReply
  | .list list => .list list
  | .scalar scalar => .scalar scalar

/-- The rest of the handler, after `Dispatcher::CalculateProblem` -/
def Phase.status : Phase → Status
  | .returned exprResult => .finished (toReply exprResult)
  | .threw (.thrown x) => .failed x
  | .threw .aborted | .threw .undefined | .waiting | .cleared | .read _ => .waiting

namespace Service

def status (s : Service) (rpc : Rpc) : Status :=
  match rpc.entered with
  | .ok i => ((s.deployment.calls[i]?).map (·.phase.status)).getD .waiting
  | .error x => .failed x

inductive Action where
  | calculateProblem (document : Document)
  | inside (action : Deployment.Action)

/-- A call of `Dispatcher::CalculateProblem`, which only the handler makes -/
def IsSubmission : Deployment.Action → Prop
  | .thread (.served (.calculateProblem _)) => True
  | _ => False

instance : DecidablePred IsSubmission
  | .thread (.served (.calculateProblem _)) => isTrue trivial
  | .thread (.served (.sendComputableTasks _)) | .thread (.served (.relay _ _))
  | .thread (.served (.readOperand _)) | .thread (.served (.calculate _))
  | .thread (.served (.writeDynamicData _)) | .thread (.served (.reply _))
  | .thread (.served (.terminate _)) | .thread (.served (.updateComputableTasks _))
  | .thread (.served (.clearProblem _)) | .thread (.served (.readData _))
  | .thread (.served (.clearIntermediateCalculations _))
  | .thread (.writeDynamicDataFails _) | .thread (.readDataFails _)
  | .thread (.clearIntermediateCalculationsFails _) | .sendComputableTasks _
  | .receiveManagerRequest _ | .transfer _ | .poll _ | .calculateTask _
  | .updateComputableTasks => isFalse id

/-- After a document with which the handler has no defined behaviour nothing is said. -/
def step (s : Service) : Action → Option Service
  | .calculateProblem document =>
    match document.intake with
    | .ok request => do
      let deployment ← s.deployment.step (.thread (.served (.calculateProblem request)))
      some { deployment, rpcs := s.rpcs ++ [⟨document, .ok s.deployment.calls.length⟩] }
    | .error (.thrown x) => some { s with rpcs := s.rpcs ++ [⟨document, .error x⟩] }
    | .error .aborted | .error .undefined => none
  | .inside action =>
    if IsSubmission action then none
    else do
      let deployment ← s.deployment.step action
      some { s with deployment }

def start (database : Database) : Service := { deployment := .start database }

/-! ## What one step does -/

section Steps

variable {s s' : Service} {document : Document} {action : Deployment.Action}

theorem step_calculateProblem : step s (.calculateProblem document) = some s' ↔
    (∃ request deployment, document.intake = .ok request ∧
      s.deployment.step (.thread (.served (.calculateProblem request))) = some deployment ∧
      s' = { deployment, rpcs := s.rpcs ++ [⟨document, .ok s.deployment.calls.length⟩] }) ∨
    ∃ x, document.intake = .error (.thrown x) ∧
      s' = { s with rpcs := s.rpcs ++ [⟨document, .error x⟩] } := by
  cases hintake : document.intake with
  | ok request => simp [step, hintake, Option.bind_eq_some_iff, eq_comm (a := s')]
  | error fault => cases fault <;> simp [step, hintake, eq_comm (a := s')]

theorem step_inside : step s (.inside action) = some s' ↔ ¬IsSubmission action ∧
    ∃ deployment, s.deployment.step action = some deployment ∧ s' = { s with deployment } := by
  by_cases hsubmission : IsSubmission action
  · simp [step, hsubmission]
  · simp [step, hsubmission, Option.bind_eq_some_iff, eq_comm (a := s')]

end Steps

/-! ## Calls and documents -/

section Requests

variable {d d' : Deployment} {c : Cluster} {action : Deployment.Action}

theorem map_request_setPhase {i : ℕ} {phase : Phase} :
    (c.setPhase i phase).calls.map (·.request) = c.calls.map (·.request) := by
  apply List.ext_getElem?
  intro p
  rw [List.getElem?_map, List.getElem?_map, Cluster.getElem?_setPhase, Option.map_map]
  congr 1
  funext call
  show (if i = p then _ else call).request = call.request
  split_ifs <;> rfl

/-- Calls move on, and nothing but the handler makes one. -/
theorem map_request_step (hnot : ¬IsSubmission action) (hstep : d.step action = some d') :
    d'.calls.map (·.request) = d.calls.map (·.request) := by
  cases action with
  | thread action =>
    obtain ⟨hlocal, c, hc, rfl⟩ := Deployment.step_thread.mp hstep
    show c.calls.map (·.request) = d.toCluster.calls.map (·.request)
    cases action with
    | served action =>
      cases action with
      | calculateProblem request => exact absurd trivial hnot
      | readOperand job =>
        obtain ⟨_, _, _, -, -, -, -, rfl⟩ := Cluster.step_readOperand.mp hc
        rfl
      | calculate job =>
        obtain ⟨_, _, -, -, -, -, rfl⟩ := Cluster.step_calculate.mp hc
        rfl
      | writeDynamicData job =>
        obtain ⟨_, -, -, rfl⟩ := Cluster.step_writeDynamicData.mp hc
        rfl
      | clearProblem i =>
        obtain ⟨_, -, -, -, rfl⟩ := Cluster.step_clearProblem.mp hc
        exact map_request_setPhase
      | readData i =>
        obtain ⟨_, -, -, ⟨_, -, rfl⟩ | ⟨_, -, rfl⟩⟩ := Cluster.step_readData.mp hc
        · exact map_request_setPhase
        · exact map_request_setPhase
      | clearIntermediateCalculations i =>
        obtain ⟨_, _, -, -, rfl⟩ := Cluster.step_clearIntermediateCalculations.mp hc
        exact map_request_setPhase
      | sendComputableTasks | relay _ _ | reply _ | terminate _ | updateComputableTasks _ =>
        exact hlocal.elim
    | writeDynamicDataFails job =>
      obtain ⟨_, -, -, rfl⟩ := Exits.step_writeDynamicDataFails.mp hc
      rfl
    | readDataFails i =>
      obtain ⟨_, -, -, rfl⟩ := Exits.step_readDataFails.mp hc
      exact map_request_setPhase
    | clearIntermediateCalculationsFails i =>
      obtain ⟨_, _, -, -, rfl⟩ := Exits.step_clearIntermediateCalculationsFails.mp hc
      exact map_request_setPhase
  | sendComputableTasks =>
    obtain ⟨_, _, -, rfl⟩ := Deployment.step_sendComputableTasks.mp hstep
    rfl
  | receiveManagerRequest found =>
    obtain ⟨_, _, _, -, -, rfl⟩ := Deployment.step_receiveManagerRequest.mp hstep
    rfl
  | transfer action =>
    obtain ⟨-, _, -, rfl⟩ := Deployment.step_transfer.mp hstep
    rfl
  | poll identity =>
    obtain ⟨_, _, _, -, -, -, rfl⟩ := Deployment.step_poll.mp hstep
    rfl
  | calculateTask job =>
    obtain ⟨-, -, _, -, rfl⟩ := Deployment.step_calculateTask.mp hstep
    rfl
  | updateComputableTasks =>
    obtain ⟨_, _, -, -, rfl⟩ := Deployment.step_updateComputableTasks.mp hstep
    rfl

/-- A request that was taken in becomes the next call. -/
theorem map_request_submission {document : Document} {request : AstRequest}
    (hintake : document.intake = .ok request)
    (hstep : d.step (.thread (.served (.calculateProblem request))) = some d') :
    d'.calls.map (·.request) = d.calls.map (·.request) ++ [request] := by
  obtain ⟨-, c, hc, rfl⟩ := Deployment.step_thread.mp hstep
  obtain ⟨-, calcData, hnew⟩ := intake_eq_ok.mp hintake
  rcases Cluster.step_calculateProblem.mp hc with ⟨fault, hfault, -⟩ | ⟨_, -, rfl⟩
  · rw [hnew] at hfault
    cases hfault
  · exact List.map_append

end Requests

/-- Each call is for the tree of a document that was taken in, and these have got the calls in
turn. -/
structure Matched (s : Service) : Prop where
  entered : ∀ rpc ∈ s.rpcs, ∀ i, rpc.entered = .ok i → ∃ request,
    (s.deployment.calls.map (·.request))[i]? = some request ∧ rpc.document.intake = .ok request
  refused : ∀ rpc ∈ s.rpcs, ∀ x, rpc.entered = .error x →
    rpc.document.intake = .error (.thrown x)
  inTurn : s.rpcs.filterMap (·.entered.toOption) = List.range s.deployment.calls.length

namespace Matched

variable {s s' : Service} {a : Action}

theorem init (db : Database) : Matched (start db) where
  entered := by simp [start]
  refused := by simp [start]
  inTurn := rfl

theorem step (h : Matched s) (hstep : Service.step s a = some s') : Matched s' := by
  cases a with
  | calculateProblem document =>
    rcases step_calculateProblem.mp hstep with ⟨request, d, hintake, hd, rfl⟩ | ⟨x, hintake, rfl⟩
    · have hrequests := map_request_submission hintake hd
      have hlength : d.calls.length = s.deployment.calls.length + 1 := by
        simpa using congrArg List.length hrequests
      refine ⟨?_, ?_, ?_⟩
      · intro rpc hrpc i hi
        show ∃ request, (d.calls.map (·.request))[i]? = some request ∧ _
        rw [hrequests]
        rcases List.mem_append.mp hrpc with hold | hnew
        · obtain ⟨request', hrequest', hintake'⟩ := h.entered rpc hold i hi
          have hlt := (List.getElem?_eq_some_iff.mp hrequest').1
          exact ⟨request', by rw [List.getElem?_append_left hlt, hrequest'], hintake'⟩
        · obtain rfl := List.mem_singleton.mp hnew
          obtain rfl := Except.ok.inj hi
          refine ⟨request, ?_, hintake⟩
          rw [List.getElem?_append_right (by rw [List.length_map]), List.length_map, Nat.sub_self]
          rfl
      · intro rpc hrpc x hx
        rcases List.mem_append.mp hrpc with hold | hnew
        · exact h.refused rpc hold x hx
        · obtain rfl := List.mem_singleton.mp hnew
          cases hx
      · show _ = List.range d.calls.length
        rw [List.filterMap_append, h.inTurn, hlength, List.range_succ]
        rfl
    · refine ⟨?_, ?_, ?_⟩
      · intro rpc hrpc i hi
        rcases List.mem_append.mp hrpc with hold | hnew
        · exact h.entered rpc hold i hi
        · obtain rfl := List.mem_singleton.mp hnew
          cases hi
      · intro rpc hrpc x' hx'
        rcases List.mem_append.mp hrpc with hold | hnew
        · exact h.refused rpc hold x' hx'
        · obtain rfl := List.mem_singleton.mp hnew
          obtain rfl := Except.error.inj hx'
          exact hintake
      · show (s.rpcs ++ [_]).filterMap _ = _
        rw [List.filterMap_append, h.inTurn]
        exact List.append_nil _
  | inside action =>
    obtain ⟨hnot, d, hd, rfl⟩ := step_inside.mp hstep
    have hrequests := map_request_step hnot hd
    have hlength : d.calls.length = s.deployment.calls.length := by
      simpa using congrArg List.length hrequests
    refine ⟨?_, h.refused, ?_⟩
    · show ∀ rpc ∈ s.rpcs, ∀ i, rpc.entered = .ok i → ∃ request,
        (d.calls.map (·.request))[i]? = some request ∧ rpc.document.intake = .ok request
      rw [hrequests]
      exact h.entered
    · show s.rpcs.filterMap _ = List.range d.calls.length
      rw [hlength]
      exact h.inTurn

theorem of_runs {db : Database} {actions : List Action}
    (hrun : Runs Service.step (start db) actions s) : Matched s :=
  hrun.invariant (I := fun _ s => Matched s) (init db) fun _ _ _ _ _ h hstep => h.step hstep

/-- A client has what its call has come to. -/
theorem status_eq (h : Matched s) {rpc : Rpc} (hrpc : rpc ∈ s.rpcs) :
    (∃ x, rpc.document.intake = .error (.thrown x) ∧ s.status rpc = .failed x) ∨
    ∃ (i : ℕ) (call : Call), s.deployment.calls[i]? = some call ∧
      rpc.document.intake = .ok call.request ∧ s.status rpc = call.phase.status := by
  cases hentered : rpc.entered with
  | error x => exact .inl ⟨x, h.refused rpc hrpc x hentered, by rw [status, hentered]⟩
  | ok i =>
    obtain ⟨request, hrequest, hintake⟩ := h.entered rpc hrpc i hentered
    rw [List.getElem?_map, Option.map_eq_some_iff] at hrequest
    obtain ⟨call, hcall, rfl⟩ := hrequest
    refine .inr ⟨i, call, hcall, hintake, ?_⟩
    rw [status, hentered]
    show ((s.deployment.calls[i]?).map _).getD _ = _
    rw [hcall]
    rfl

end Matched

/-! ## Inside -/

section Inside

variable {db : Database} {actions : List Action} {s : Service}

/-- The conditions on what happens inside; a submission needs none. -/
def Regular (s : Service) : Action → Prop
  | .calculateProblem _ => True
  | .inside action => s.deployment.Undisturbed action ∧ s.deployment.Attended action

instance (s : Service) : DecidablePred s.Regular
  | .calculateProblem _ => isTrue trivial
  | .inside action =>
    inferInstanceAs (Decidable (s.deployment.Undisturbed action ∧ s.deployment.Attended action))

/-- Inside, a document is a call of `Dispatcher::CalculateProblem`, or nothing. -/
theorem deployment_runs (hrun : Runs step (start db) actions s) : ∃ actions',
    Runs Deployment.step (.start db) actions' s.deployment ∧
      (Meets step Regular (start db) actions → Meets Deployment.step
        (fun d a => d.Undisturbed a ∧ d.Attended a) (.start db) actions') := by
  refine hrun.projects (f := fun s : Service => s.deployment) ?_
  intro s₁ a s₂ hstep
  cases a with
  | calculateProblem document =>
    rcases step_calculateProblem.mp hstep with ⟨request, d, -, hd, rfl⟩ | ⟨x, -, rfl⟩
    · exact ⟨_, Runs.single hd, fun _ => ⟨⟨trivial, trivial⟩, fun _ _ => trivial⟩⟩
    · exact ⟨[], Runs.refl _ _, fun _ => trivial⟩
  | inside action =>
    obtain ⟨-, d, hd, rfl⟩ := step_inside.mp hstep
    exact ⟨_, Runs.single hd, fun hregular => ⟨hregular, fun _ _ => trivial⟩⟩

/-- A tree that was taken in is that of a call. -/
theorem Matched.exists_rpc (h : Matched s) {i : ℕ} {call : Call}
    (hcall : s.deployment.calls[i]? = some call) :
    ∃ rpc ∈ s.rpcs, rpc.document.intake = .ok call.request := by
  have hi : i ∈ s.rpcs.filterMap (·.entered.toOption) := by
    rw [h.inTurn, List.mem_range]
    exact (List.getElem?_eq_some_iff.mp hcall).1
  obtain ⟨rpc, hrpc, hentered⟩ := List.mem_filterMap.mp hi
  have hok : rpc.entered = .ok i := by
    cases heq : rpc.entered with
    | ok j =>
      rw [heq] at hentered
      exact congrArg Except.ok (Option.some.inj hentered)
    | error x =>
      rw [heq] at hentered
      cases hentered
  obtain ⟨request, hrequest, hintake⟩ := h.entered rpc hrpc i hok
  rw [List.getElem?_map, hcall] at hrequest
  obtain rfl := Option.some.inj hrequest
  exact ⟨rpc, hrpc, hintake⟩

end Inside

/-! ### Two clients -/

/-- An operator that does not exist. -/
def unknownOperator : Document where
  json := .object [("ast", .object [("ro_mean",
    .object [("lhs", .object [("list", .string "L")])])])]
  fits := by
    intro e he
    cases he

/-- One client asks for such an operator, and another one for the mean of a list. -/
def twoRun : List Action :=
  .calculateProblem unknownOperator :: (Deployment.meanRun.take 3).map .inside
    ++ .calculateProblem AstRequest.mean.document :: (Deployment.meanRun.drop 4).map .inside

/-! ## Results -/

/-- **No client gets a wrong reply.** In every run on a store without intermediate results, however
many clients there are, whatever the broker does with its queue and whichever calls to the store
fail: a reply is that for the value of the tree in the client's own document. -/
theorem finished_right {db : Database} (hempty : db.dynamicData = []) {actions : List Action}
    {s : Service} (hrun : Runs step (start db) actions s)
    (hlt : s.deployment.calls.length < 2 ^ 32) {rpc : Rpc} (hrpc : rpc ∈ s.rpcs)
    {reply : CalculationReply} (hfinished : s.status rpc = .finished reply) :
    ∃ e r, Expr.fromJson rpc.document.json = .ok e ∧ e.eval (Cluster.start db).read = .ok r ∧
      reply = toReply r := by
  rcases (Matched.of_runs hrun).status_eq hrpc with
    ⟨x, -, hstatus⟩ | ⟨i, call, hcall, hintake, hstatus⟩
  · rw [hstatus] at hfinished
    cases hfinished
  · obtain ⟨actions', hinside, -⟩ := deployment_runs hrun
    have hreturned : ∃ r, call.phase = .returned r ∧ reply = toReply r := by
      rw [hstatus] at hfinished
      unfold Phase.status at hfinished
      split at hfinished <;> cases hfinished
      exact ⟨_, ‹_›, rfl⟩
    obtain ⟨r, hphase, hreply⟩ := hreturned
    obtain ⟨_, t, ht, hsourced⟩ := Deployment.Sourced.of_runs hinside
    have hresult := hsourced.result ht hlt hcall (Unreliable.rowsRight_of_nil hempty)
    exact ⟨call.request.ast.root, r, (intake_eq_ok.mp hintake).1, hresult.2 r hphase, hreply⟩

/-- The mean of a list comes out as 3. -/
theorem finished_right_two : ∃ s rpc, Runs step (start Cluster.numbers) twoRun s ∧ rpc ∈ s.rpcs ∧
    s.status rpc = .finished (.scalar 3) ∧
    ∃ e r, Expr.fromJson rpc.document.json = .ok e ∧
      e.eval (Cluster.start Cluster.numbers).read = .ok r ∧ .scalar 3 = toReply r := by
  obtain ⟨s, refused, rpc, hrun, hlength, hrpcs, hstatus⟩ : ∃ s refused rpc,
      Runs step (start Cluster.numbers) twoRun s ∧ s.deployment.calls.length = 1 ∧
        s.rpcs = [refused, rpc] ∧ s.status rpc = .finished (.scalar 3) :=
    ⟨_, _, _, rfl, rfl, rfl, rfl⟩
  have hlt : s.deployment.calls.length < 2 ^ 32 := by simp [hlength]
  have hrpc : rpc ∈ s.rpcs := by simp [hrpcs]
  exact ⟨s, rpc, hrun, hrpc, hstatus,
    @finished_right Cluster.numbers rfl twoRun s hrun hlt rpc hrpc _ hstatus⟩

/-- What a document comes to: the exception, or the value of the tree. A tree that is a leaf, or has
no value, comes to nothing. -/
def answer (read : VariableId → Result ExprResult) (document : Document) : Status :=
  match document.intake with
  | .error (.thrown x) => .failed x
  | .error .aborted | .error .undefined => .waiting
  | .ok request =>
    if request.ast.root.getType.IsLeaf then .waiting
    else
      match request.ast.root.eval read with
      | .ok r => .finished (toReply r)
      | .error _ => .waiting

/-- **What the clients have when nothing moves any more.** In a regular run on a store without
intermediate results, with a worker of two cores, in which each tree that was taken in has a value:
at rest every client has what its own document comes to, whoever else was there and in whichever
order things happened. -/
theorem status_eq_answer {db : Database} (hempty : db.dynamicData = []) {actions : List Action}
    {s : Service} (hrun : Runs step (start db) actions s)
    (hlt : s.deployment.calls.length < 2 ^ 32)
    (hregular : Meets step Regular (start db) actions)
    (hworker : ∃ identity m, s.deployment.fleet.members identity = some m ∧
      2 ≤ m.worker.coreCount)
    (hvalues : ∀ rpc ∈ s.rpcs, ∀ request, rpc.document.intake = .ok request →
      ∃ r, request.ast.root.eval (Cluster.start db).read = .ok r)
    (hrest : s.deployment.AtRest) {rpc : Rpc} (hrpc : rpc ∈ s.rpcs) :
    s.status rpc = answer (Cluster.start db).read rpc.document := by
  have hmatched := Matched.of_runs hrun
  rcases hmatched.status_eq hrpc with ⟨x, hintake, hstatus⟩ | ⟨i, call, hcall, hintake, hstatus⟩
  · rw [hstatus, answer, hintake]
  · obtain ⟨actions', hinside, hmeets⟩ := deployment_runs hrun
    specialize hmeets hregular
    have hall : ∀ call ∈ s.deployment.calls,
        ∃ r, call.request.ast.root.eval (Cluster.start db).read = .ok r := by
      intro call' hcall'
      obtain ⟨j, hj⟩ := List.mem_iff_getElem?.mp hcall'
      obtain ⟨rpc', hrpc', hintake'⟩ := hmatched.exists_rpc hj
      exact hvalues rpc' hrpc' _ hintake'
    obtain ⟨hiff, hcases⟩ := hrest.returned_iff hempty hinside hlt
      (hmeets.mono fun _ _ h => h.1) (hmeets.mono fun _ _ h => h.2) hworker hall hcall
    obtain ⟨r, hvalue⟩ := hall call (List.mem_of_getElem? hcall)
    rw [hstatus, answer, hintake]
    dsimp only
    by_cases hleaf : call.request.ast.root.getType.IsLeaf
    · -- nobody answers for a leaf
      rw [if_pos hleaf]
      rcases hcases with hwaiting | ⟨r', hreturned⟩
      · rw [hwaiting]
        rfl
      · exact absurd hleaf ((hiff r').mp hreturned).1
    · rw [if_neg hleaf, hvalue, (hiff r).mpr ⟨hleaf, hvalue⟩]
      rfl

/-- One client gets the mean, and the other one an exception. -/
theorem status_eq_answer_two : ∃ s refused rpc, Runs step (start Cluster.numbers) twoRun s ∧
    s.deployment.AtRest ∧ s.rpcs = [refused, rpc] ∧ s.status refused = .failed .outOfRange ∧
    s.status rpc = .finished (.scalar 3) := by
  obtain ⟨s, refused, rpc, m, hrun, hinside, hlength, hrpcs, hrefused, hdocument, hm, hcores⟩ :
      ∃ s refused rpc m, Runs step (start Cluster.numbers) twoRun s ∧
        Runs Deployment.step (.start Cluster.numbers) Deployment.meanRun s.deployment ∧
        s.deployment.calls.length = 1 ∧ s.rpcs = [refused, rpc] ∧
        refused.document = unknownOperator ∧ rpc.document = AstRequest.mean.document ∧
        s.deployment.fleet.members "worker" = some m ∧ m.worker.coreCount = 2 :=
    ⟨_, _, _, _, rfl, rfl, rfl, rfl, rfl, rfl, rfl, rfl⟩
  have hlt : s.deployment.calls.length < 2 ^ 32 := by simp [hlength]
  have hrest : s.deployment.AtRest := Deployment.atRest_meanRun hinside
  have hvalues : ∀ rpc ∈ s.rpcs, ∀ request, rpc.document.intake = .ok request →
      ∃ r, request.ast.root.eval (Cluster.start Cluster.numbers).read = .ok r := by
    intro rpc' hrpc' request hintake
    rw [hrpcs, List.mem_pair] at hrpc'
    rcases hrpc' with rfl | rfl
    · rw [hrefused] at hintake
      cases hintake
    · rw [hdocument] at hintake
      obtain rfl := Except.ok.inj hintake
      exact ⟨.scalar 3, rfl⟩
  have hall : ∀ rpc ∈ s.rpcs,
      s.status rpc = answer (Cluster.start Cluster.numbers).read rpc.document := fun rpc hrpc =>
    @status_eq_answer Cluster.numbers rfl twoRun s hrun hlt (by decide) ⟨"worker", m, hm, hcores.ge⟩
      hvalues hrest rpc hrpc
  refine ⟨s, refused, rpc, hrun, hrest, hrpcs, ?_, ?_⟩
  · rw [hall refused (by simp [hrpcs]), hrefused]
    rfl
  · rw [hall rpc (by simp [hrpcs]), hdocument]
    rfl

end Service
end TaskDispatch
