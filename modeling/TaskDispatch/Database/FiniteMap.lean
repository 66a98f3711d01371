import Mathlib
import TaskDispatch.Database.Database
import TaskDispatch.Lib.WriteOnce

/-!
# The result store as a finite map

Seen through `DatabaseClient` with ids that fit their fields, `dynamic_data` is a write-once map
from problem and task to `ExprResult`: the two conversions of a value and the two of a key undo one
another, an `INSERT` under a key that is there fails, and a `DELETE` takes the rows of one problem.
-/

set_option autoImplicit false

namespace TaskDispatch

open Proto WriteOnce

/-- A request that `DatabaseClient` builds from ids in the range of `uint32` -/
abbrev StoreRequest := Op UInt32 UInt32 ExprResult DatabaseClient.RecordId

namespace Database

/-- The tables after a request. -/
def serve (db : Database) : StoreRequest → Database
  | .write problemId taskId exprResult =>
    DatabaseClient.writeDynamicData db problemId.toNat taskId.toNat exprResult
  | .read _ => db
  | .clear problemId => DatabaseClient.clearIntermediateCalculations db problemId.toNat

/-- The tables after a sequence of requests, from an empty `dynamic_data` on. -/
def served (staticData : VariableId → Option Field) (requests : List StoreRequest) : Database :=
  requests.foldl serve (setup staticData)

/-- The rows are the entries of the map, each serialised. -/
def Stores (db : Database) (m : UInt32 → UInt32 → Option ExprResult) : Prop :=
  ∀ p t, db.select ⟨p, t⟩ = (m p t).map DatabaseClient.toField

variable {db : Database} {m : UInt32 → UInt32 → Option ExprResult} {p t : UInt32}
  {r : ExprResult}

theorem Stores.write (h : db.Stores m) :
    (DatabaseClient.writeDynamicData db p.toNat t.toNat r).Stores
      (apply m (.write p t r : StoreRequest)) := by
  intro q u
  rw [DatabaseClient.select_writeDynamicData, UInt32.ofNat_toNat, UInt32.ofNat_toNat, apply_write,
    h q u]
  by_cases hkey : q = p ∧ u = t
  · obtain ⟨rfl, rfl⟩ := hkey
    cases hm : m q u <;> simp
  · rw [if_neg, if_neg hkey]
    rintro ⟨heq, -⟩
    exact hkey (DynamicRecordId.mk.inj heq)

theorem Stores.clear (h : db.Stores m) :
    (DatabaseClient.clearIntermediateCalculations db p.toNat).Stores
      (apply m (.clear p : StoreRequest)) := by
  intro q u
  rw [DatabaseClient.select_clearIntermediateCalculations, UInt32.ofNat_toNat, apply_clear, h q u]
  split <;> rfl

/-- **Each request does to the rows what it does to the map.** -/
theorem Stores.serve (h : db.Stores m) (request : StoreRequest) :
    (db.serve request).Stores (apply m request) := by
  cases request with
  | write p t r => exact h.write
  | read recordId => exact h
  | clear p => exact h.clear

theorem Stores.served (staticData : VariableId → Option Field) (requests : List StoreRequest) :
    (served staticData requests).Stores (run requests) := by
  have hall : ∀ (db : Database) m, db.Stores m →
      (requests.foldl Database.serve db).Stores (requests.foldl apply m) := by
    induction requests with
    | nil => exact fun _ _ h => h
    | cons request requests ih => exact fun _ _ h => ih _ _ (h.serve request)
  exact hall _ _ fun _ _ => rfl

theorem staticData_served (staticData : VariableId → Option Field) (requests : List StoreRequest) :
    (served staticData requests).staticData = staticData := by
  unfold served
  induction requests using List.reverseRecOn with
  | nil => rfl
  | append_singleton requests request ih =>
    rw [List.foldl_append, List.foldl_cons, List.foldl_nil]
    cases request with
    | write p t r => rw [Database.serve, DatabaseClient.staticData_writeDynamicData, ih]
    | read recordId => exact ih
    | clear p => exact ih

/-- A dynamic read gives the entry, as it was written. -/
theorem Stores.readData (h : db.Stores m) :
    DatabaseClient.readData db (.dynRecordId p.toNat t.toNat) =
      match m p t with
      | some r => .ok r
      | none => .error (.thrown (.logicError "Invalid message")) := by
  rw [DatabaseClient.readData_dyn, UInt32.ofNat_toNat, UInt32.ofNat_toNat, h p t]
  cases m p t with
  | none => rfl
  | some r => exact DatabaseClient.ofReply_toField r

/-- An `INSERT` goes well where there is no entry, and else throws. -/
theorem Stores.writeDynamicDataImpl (h : db.Stores m) (r : ExprResult) :
    db.writeDynamicDataImpl (DatabaseClient.buildWriteRequest p.toNat t.toNat r) =
      if m p t = none then .ok (DatabaseClient.writeDynamicData db p.toNat t.toNat r)
      else .error (.thrown .sqlite) := by
  have hselect := h p t
  split
  · rename_i hm
    apply DatabaseClient.writeDynamicDataImpl_eq_ok.mpr
    rw [UInt32.ofNat_toNat, UInt32.ofNat_toNat, hselect, hm]
    exact ⟨rfl, rfl⟩
  · rename_i hm
    have hrow : db.select ⟨p, t⟩ ≠ none := by rwa [hselect, ne_eq, Option.map_eq_none_iff]
    rw [Database.writeDynamicDataImpl, dif_pos]
    rw [DatabaseClient.buildWriteRequest, UInt32.ofNat_toNat, UInt32.ofNat_toNat]
    exact by_contra fun hmem => hrow (DatabaseClient.select_eq_none_iff.mpr hmem)

/-- **The result store behaves as a finite map.** After any requests: a read of a key returns what
the first write to it wrote since the last clear of its problem, and throws if there is none; a
write under a key that is present fails and changes nothing, and under another one succeeds; a
clear removes the rows of its problem and no others; a static read returns what it did at first. -/
theorem store_finite_map (staticData : VariableId → Option Field) (requests : List StoreRequest)
    (p t : UInt32) :
    DatabaseClient.readData (served staticData requests) (.dynRecordId p.toNat t.toNat) =
        (match firstWrite p t requests with
        | some r => .ok r
        | none => .error (.thrown (.logicError "Invalid message"))) ∧
      (∀ r₁, firstWrite p t requests = some r₁ → ∀ r,
        (served staticData requests).writeDynamicDataImpl
            (DatabaseClient.buildWriteRequest p.toNat t.toNat r) = .error (.thrown .sqlite) ∧
          served staticData (requests ++ [.write p t r]) = served staticData requests) ∧
      (firstWrite p t requests = none → ∀ r,
        (served staticData requests).writeDynamicDataImpl
            (DatabaseClient.buildWriteRequest p.toNat t.toNat r) =
          .ok (served staticData (requests ++ [.write p t r]))) ∧
      (served staticData (requests ++ [.clear p])).dynamicData =
        (served staticData requests).dynamicData.filter (·.recordId.problemId ≠ p) ∧
      ∀ identifier, DatabaseClient.readData (served staticData requests) (.identifier identifier) =
        DatabaseClient.readData (setup staticData) (.identifier identifier) := by
  have h := Stores.served staticData requests
  have hlast : ∀ request : StoreRequest, served staticData (requests ++ [request]) =
      (served staticData requests).serve request := by
    intro request
    rw [served, List.foldl_append]
    rfl
  rw [← run_eq_firstWrite]
  refine ⟨h.readData, ?_, ?_, ?_, ?_⟩
  · intro r₁ hr₁ r
    refine ⟨by rw [h.writeDynamicDataImpl, if_neg (by simp [hr₁])], ?_⟩
    rw [hlast, Database.serve]
    apply DatabaseClient.writeDynamicData_of_row
    rw [UInt32.ofNat_toNat, UInt32.ofNat_toNat, h p t, hr₁]
    rfl
  · intro hnone r
    rw [h.writeDynamicDataImpl, if_pos hnone, hlast, Database.serve]
  · rw [hlast, Database.serve, DatabaseClient.clearIntermediateCalculations, UInt32.ofNat_toNat]
    rfl
  · exact DatabaseClient.readData_identifier_congr (staticData_served staticData requests)

/-- The zero scalar and the empty list are told apart, also after a write that is lost. -/
example : DatabaseClient.readData
    (served (fun _ => none) [.write 0 1 (.list []), .write 0 2 (.scalar 0), .write 0 1 (.scalar 0)])
    (.dynRecordId 0 1) = .ok (.list []) := by decide

end Database
end TaskDispatch
