import Mathlib
import TaskDispatch.Dispatch.HandOff

/-!
# What `Exchange` takes as one step

The dispatcher keeps `m_` from the reply to a root until it has notified. What others see of it is
one step: `Exchange` has it where the reply is read, with the flag set (`toExchange`). Where the
callers are in `CalculateProblem` does not show. So the runs, lock by lock, are runs of `Exchange`
(`refines`).
-/

set_option autoImplicit false

namespace TaskDispatch

open Proto Transition

namespace HandOff

/-- The flag of a caller, which may be about to be set. -/
def flag (s : HandOff) (c : ℕ) : SyncData where
  isComputed := (s.callers c).any (·.syncData.isComputed) || s.notification = some (.flagging c)

/-- The flags are in the map, and set with the reply. Who is where in `CalculateProblem` does not
show. -/
def toExchange (s : HandOff) : Exchange where
  dispatcher :=
    { problemIdToCalculationData := s.problemIdToCalculationData
      problemIdToSyncData := s.problemIdToSyncData.map fun _ c => s.flag c
      problemId := s.problemId }
  origin := s.origin
  submitted := s.submitted
  sent := s.sent
  inFlight := s.inFlight

section Refinement

variable {s s' : HandOff} {c : ℕ} {request : AstRequest} {id : Proto.TaskId}

theorem getElem?_flags (p : ProblemId) :
    s.toExchange.dispatcher.problemIdToSyncData[p]? = s.problemIdToSyncData[p]?.map s.flag :=
  Std.ExtTreeMap.getElem?_map

theorem toExchange_eq {flags : Std.ExtTreeMap ProblemId SyncData}
    (h : s.problemIdToSyncData.map (fun _ c => s.flag c) = flags) :
    s.toExchange = { s.toExchange with
      dispatcher := { s.toExchange.dispatcher with problemIdToSyncData := flags } } := by
  rw [← h]
  rfl

/-- A step that only the callers and the notification notice, and that keeps the flags. -/
theorem toExchange_congr {callers : ℕ → Option Caller} {n : Option Notification}
    {notified : List ℕ}
    (h : ∀ (p : ProblemId) c, s.problemIdToSyncData[p]? = some c →
      ({ s with callers, notification := n, notified } : HandOff).flag c = s.flag c) :
    ({ s with callers, notification := n, notified } : HandOff).toExchange = s.toExchange := by
  have hflags : s.problemIdToSyncData.map
      (fun _ c => ({ s with callers, notification := n, notified } : HandOff).flag c) =
      s.problemIdToSyncData.map fun _ c => s.flag c := by
    apply Std.ExtTreeMap.ext_getElem?
    intro p
    rw [Std.ExtTreeMap.getElem?_map, Std.ExtTreeMap.getElem?_map]
    cases hp : s.problemIdToSyncData[p]? with
    | none => rfl
    | some c => exact congrArg some (h p c hp)
  rw [toExchange, hflags]
  rfl

theorem flag_congr (hc : (s'.callers c).map (·.syncData) = (s.callers c).map (·.syncData))
    (hn : s'.notification = some (.flagging c) ↔ s.notification = some (.flagging c)) :
    s'.flag c = s.flag c := by
  have hany : ∀ x : Option Caller, x.any (·.syncData.isComputed) =
      (x.map (·.syncData)).any (·.isComputed) := by
    intro x
    cases x <;> rfl
  rw [flag, flag, hany, hany, hc, decide_eq_decide.mpr hn]

theorem toExchange_push (h : Separate s)
    (hstep : step s (.pushProblem request) = some s') :
    Exchange.step s.toExchange (.pushProblem request) = some s'.toExchange := by
  obtain ⟨hquiet, calcData, hnew, rfl⟩ := step_pushProblem.mp hstep
  have hnewFlag : (s.pushProblem request calcData).flag s.submitted = {} := by
    have hcaller : (s.pushProblem request calcData).callers s.submitted =
        some { problemId := s.problemId } := callers_setCaller_self
    have hquiet' : (s.pushProblem request calcData).notification = none := hquiet
    rw [flag, hcaller, hquiet']
    rfl
  have hflags : (s.problemIdToSyncData.insertIfNew s.problemId s.submitted).map
      (fun _ c => (s.pushProblem request calcData).flag c) =
      (s.problemIdToSyncData.map fun _ c => s.flag c).insertIfNew s.problemId {} := by
    apply Std.ExtTreeMap.ext_getElem?
    intro p
    simp only [Std.ExtTreeMap.getElem?_map, Std.ExtTreeMap.getElem?_insertIfNew,
      Std.ExtTreeMap.mem_map]
    split_ifs with hp
    · exact congrArg some hnewFlag
    · -- an entry that is there belongs to an older caller
      cases hc : s.problemIdToSyncData[p]? with
      | none => rfl
      | some c =>
        obtain ⟨caller, hcaller, -, -⟩ := h.reference p c hc
        refine congrArg some (flag_congr ?_ Iff.rfl)
        have hne : c ≠ s.submitted := Nat.ne_of_lt (h.lt c caller hcaller)
        exact congrArg _ (Function.update_of_ne hne _ _)
  exact Exchange.step_push.mpr ⟨calcData, hnew, toExchange_eq hflags⟩

theorem toExchange_send {order : PassOrder}
    (hstep : step s (.sendComputableTasks order) = some s') :
    Exchange.step s.toExchange (.sendComputableTasks order) = some s'.toExchange := by
  obtain ⟨-, tasks, dispatcher, hsend, rfl⟩ := step_send.mp hstep
  rw [Dispatcher.sendComputableTasks_eq] at hsend
  obtain ⟨rfl, rfl⟩ := Prod.mk.inj (Except.ok.inj hsend)
  exact Exchange.step_send.mpr ⟨_, _, Dispatcher.sendComputableTasks_eq _ _, rfl⟩

/-- In `Exchange` the flag is set with the reply to the root. -/
theorem toExchange_update (h : Separate s)
    (hstep : step s (.updateComputableTasks id) = some s') :
    Exchange.step s.toExchange (.updateComputableTasks id) = some s'.toExchange := by
  obtain ⟨⟨hquiet, hid⟩, hupdate⟩ := step_update.mp hstep
  obtain ⟨calcData, last, completed, hcd, hlast, hc, hcases⟩ :=
    updateComputableTasks_eq_ok.mp hupdate
  rcases hcases with ⟨hroot, o, ho, rfl⟩ | ⟨hroot, rfl⟩
  · have hflags : s.problemIdToSyncData.map (fun _ c =>
        ({ s with notification := some (.flagging o) } : HandOff).flag c) =
        (s.problemIdToSyncData.map fun _ c => s.flag c).insert id.problemId.toNat
          { isComputed := true } := by
      apply Std.ExtTreeMap.ext_getElem?
      intro p
      rw [Std.ExtTreeMap.getElem?_map, Std.ExtTreeMap.getElem?_insert,
        Std.ExtTreeMap.getElem?_map]
      split_ifs with hp
      · rw [Std.compare_eq_iff_eq] at hp
        rw [← hp, ho]
        simp [flag]
      · cases hp' : s.problemIdToSyncData[p]? with
        | none => rfl
        | some c =>
          refine congrArg some (flag_congr rfl ?_)
          -- a caller is in the map once
          have hne : o ≠ c := by
            rintro rfl
            obtain ⟨x, hx, hxid, -⟩ := h.reference _ _ ho
            obtain ⟨y, hy, hyid, -⟩ := h.reference _ _ hp'
            rw [hx] at hy
            obtain rfl := Option.some.inj hy
            exact hp (Std.compare_eq_iff_eq.mpr (hxid.symm.trans hyid))
          simp [hquiet, hne]
    refine Exchange.step_update.mpr ⟨hid, _, Dispatcher.updateComputableTasks_eq_ok.mpr
      ⟨calcData, last, completed, hcd, hlast, hc, .inl ⟨hroot, s.flag o, ?_, rfl⟩⟩, ?_⟩
    · exact (getElem?_flags _).trans (congrArg (Option.map s.flag) ho)
    · exact toExchange_eq hflags
  · exact Exchange.step_update.mpr ⟨hid, _, Dispatcher.updateComputableTasks_eq_ok.mpr
      ⟨calcData, last, completed, hcd, hlast, hc, .inr ⟨hroot, rfl⟩⟩, rfl⟩

theorem toExchange_clear (h : Separate s) (hstep : step s (.clearProblem c) = some s') :
    ∃ p, Exchange.step s.toExchange (.clearProblem p) = some s'.toExchange := by
  obtain ⟨caller, hc, -, hreleased, rfl⟩ := step_clearProblem.mp hstep
  have hentry := h.entry c caller hc (by simp [hreleased])
  have hset := (h.ok c caller hc).isComputed (by rw [hreleased]; trivial)
  have hflags : (s.problemIdToSyncData.erase caller.problemId).map
      (fun _ c' => (s.setCaller c { caller with place := .cleared }).flag c') =
      (s.problemIdToSyncData.map fun _ c => s.flag c).erase caller.problemId := by
    apply Std.ExtTreeMap.ext_getElem?
    intro p
    simp only [Std.ExtTreeMap.getElem?_map, Std.ExtTreeMap.getElem?_erase]
    split_ifs with hp
    · rfl
    · refine congrArg (s.problemIdToSyncData[p]?.map ·) (funext fun c' => ?_)
      exact flag_congr (map_setCaller hc rfl) Iff.rfl
  refine ⟨caller.problemId, Exchange.step_clear.mpr ⟨?_, toExchange_eq hflags⟩⟩
  rw [getElem?_flags, hentry, Option.map_some, flag, hc, Option.any_some, hset, Bool.true_or]

theorem toExchange_setIsComputed (hstep : step s .setIsComputed = some s') :
    s'.toExchange = s.toExchange := by
  obtain ⟨c, caller, hnotification, hc, -, rfl⟩ := step_setIsComputed.mp hstep
  apply toExchange_congr (s := s)
  intro p c' _
  by_cases heq : c' = c
  · -- the flag that is set now was counted as set
    subst heq
    simp [flag, setCaller, hnotification]
  · apply flag_congr (congrArg _ (Function.update_of_ne heq _ _))
    simp [hnotification, Ne.symm heq]

theorem toExchange_notifyAll (hstep : step s .notifyAll = some s') :
    s'.toExchange = s.toExchange := by
  obtain ⟨c, hnotification, rfl⟩ := step_notifyAll.mp hstep
  refine toExchange_congr fun p c' _ => flag_congr ?_ (by simp [hnotification])
  rw [Option.map_map]
  rfl

/-- A step is one of `Exchange`, or does not show there. -/
theorem toExchange_step (h : Separate s) {a : Action} (hstep : step s a = some s') :
    s'.toExchange = s.toExchange ∨
      ∃ a', Exchange.step s.toExchange a' = some s'.toExchange := by
  cases a with
  | pushProblem request => exact .inr ⟨_, toExchange_push h hstep⟩
  | sendComputableTasks => exact .inr ⟨_, toExchange_send hstep⟩
  | updateComputableTasks id => exact .inr ⟨_, toExchange_update h hstep⟩
  | setIsComputed => exact .inl (toExchange_setIsComputed hstep)
  | notifyAll => exact .inl (toExchange_notifyAll hstep)
  | endNotification =>
    obtain ⟨c, hnotification, rfl⟩ := step_endNotification.mp hstep
    left
    exact toExchange_congr fun p c' _ => flag_congr rfl (by simp [hnotification])
  | find c | lock c | test c | unlock c | wake c =>
    obtain ⟨callers, rfl, hcallers⟩ := exists_callers hstep rfl (by simp)
    left
    refine toExchange_congr fun p c' _ => flag_congr ?_ Iff.rfl
    have hflags := congrArg (Option.map Prod.snd) (hcallers c')
    rwa [Option.map_map, Option.map_map] at hflags
  | clearProblem c =>
    obtain ⟨p, hclear⟩ := toExchange_clear h hstep
    exact .inr ⟨_, hclear⟩

/-- **Refinement.** What holds of every run of `Exchange` holds here, lock by lock. -/
theorem refines {actions : List Action} (hrun : Runs step {} actions s)
    (hfree : Meets step IdFree {} actions) :
    ∃ actions', Runs Exchange.step {} actions' s.toExchange := by
  have hinit : ({} : HandOff).toExchange = {} := by
    have hempty : (∅ : Std.ExtTreeMap ProblemId ℕ).map (fun _ c => ({} : HandOff).flag c) = ∅ :=
      Std.ExtTreeMap.ext_getElem? fun p => by simp
    exact toExchange_eq hempty
  have hthroughout := throughout_of_meets
    (I := fun s => Separate s ∧ ∃ actions', Runs Exchange.step {} actions' s.toExchange)
    (fun s a s' ⟨h, actions', hrun⟩ hfree hstep => ?_) ⟨.init, [], Runs.nil_iff.mpr hinit.symm⟩
    hfree
  · exact (hthroughout actions s (List.prefix_refl actions) hrun).2
  · refine ⟨h.step hfree hstep, ?_⟩
    rcases toExchange_step h hstep with hsame | ⟨a', hstep'⟩
    · exact ⟨actions', hsame ▸ hrun⟩
    · exact ⟨actions' ++ [a'], hrun.trans (Runs.single hstep')⟩

end Refinement

end HandOff
end TaskDispatch
