import Mathlib
import TaskDispatch.Common.Messages

/-!
# `database`: the store of variables and intermediate results

The two tables of `setup_database.py`, the handlers of `DatabaseServiceImpl` and the calls of
`DatabaseClient`. A row holds the serialised `Field`, which is the `Field` itself here.

An exception that leaves a handler reaches the client as a status, and the client looks at no
status: a write that hits the primary key goes unnoticed, a read of a missing row is seen by its
empty reply.
-/

set_option autoImplicit false

namespace TaskDispatch

open Proto

/-! ## The tables -/

/-- `static_data` and `dynamic_data`. Nothing writes the former. The latter has the primary key
`(problem_id, task_id)`. -/
structure Database where
  staticData : VariableId → Option Field
  dynamicData : List DynamicRecord := []
  primaryKey : (dynamicData.map (·.recordId)).Nodup := by simp

namespace Database

/-- The tables as `setup_database.py` leaves them. -/
def setup (staticData : VariableId → Option Field) : Database where
  staticData := staticData
  dynamicData := []
  primaryKey := List.nodup_nil

/-- `SELECT * FROM dynamic_data WHERE problem_id = ? AND task_id = ?` -/
def select (db : Database) (id : DynamicRecordId) : Option Field :=
  (db.dynamicData.find? fun row => row.recordId = id).map (·.field)

/-! ## `DatabaseServiceImpl` -/

/-- An `INSERT` on an existing key throws and leaves the table as it was. -/
def writeDynamicDataImpl (db : Database) (dynRecord : DynamicRecord) : Result Database :=
  if h : dynRecord.recordId ∈ db.dynamicData.map (·.recordId) then .error (.thrown .sqlite)
  else .ok { db with
    dynamicData := db.dynamicData ++ [dynRecord]
    primaryKey := by
      simp only [List.map_append, List.nodup_append, db.primaryKey, true_and]
      simpa using fun row hrow heq => h (List.mem_map.mpr ⟨row, hrow, heq⟩) }

/-- `getColumn` throws where `executeStep` found no row. -/
def readDataImpl (db : Database) : RecordId → Result Field
  | .dynId id =>
    match db.select id with
    | some field => .ok field
    | none => .error (.thrown .sqlite)
  | .staticId identifier =>
    match db.staticData identifier with
    | some field => .ok field
    | none => .error (.thrown .sqlite)
  | .notSet => .error (.thrown (.logicError "Invalid message"))

/-- `DELETE FROM dynamic_data WHERE problem_id = ?` -/
def clearIntermediateCalculationsImpl (db : Database) (problemId : UInt32) : Database where
  staticData := db.staticData
  dynamicData := db.dynamicData.filter fun row => row.recordId.problemId ≠ problemId
  primaryKey := db.primaryKey.sublist (List.filter_sublist.map _)

end Database

/-! ## `DatabaseClient` -/

namespace DatabaseClient

/-- `std::variant<std::string, DynRecordId>` -/
inductive RecordId where
  | identifier (id : VariableId)
  | dynRecordId (problemId taskId : ℕ)
  deriving DecidableEq, Repr

/-- `ExprResultVisitor` -/
def toField : ExprResult → Field
  | .scalar value => .scalar value
  | .list list => .list list

/-- `RecordIdVisitor` -/
def toRecordId : RecordId → Proto.RecordId
  | .identifier id => .staticId id
  | .dynRecordId problemId taskId => .dynId ⟨.ofNat problemId, .ofNat taskId⟩

def buildWriteRequest (problemId taskId : ℕ) (exprResult : ExprResult) : DynamicRecord where
  recordId := ⟨.ofNat problemId, .ofNat taskId⟩
  field := toField exprResult

/-- The status of the call is stored in a local variable and read by nobody. -/
def writeDynamicData (db : Database) (problemId taskId : ℕ) (exprResult : ExprResult) :
    Database :=
  match db.writeDynamicDataImpl (buildWriteRequest problemId taskId exprResult) with
  | .ok db' => db'
  | .error _ => db

/-- What `ReadData` makes of the reply. -/
def ofReply : Field → Result ExprResult
  | .scalar value => .ok (.scalar value)
  | .list values => .ok (.list values)
  | .notSet => .error (.thrown (.logicError "Invalid message"))

/-- A handler that threw leaves the reply empty. -/
def readData (db : Database) (recordId : RecordId) : Result ExprResult :=
  match db.readDataImpl (toRecordId recordId) with
  | .ok reply => ofReply reply
  | .error _ => ofReply .notSet

def clearIntermediateCalculations (db : Database) (problemId : ℕ) : Database :=
  db.clearIntermediateCalculationsImpl (.ofNat problemId)

/-! ## What the calls do to the rows -/

variable {db : Database} {p t : ℕ} {r : ExprResult} {id : DynamicRecordId}

@[simp] theorem ofReply_toField (r : ExprResult) : ofReply (toField r) = .ok r := by
  cases r <;> rfl

theorem select_eq_none_iff : db.select id = none ↔ id ∉ db.dynamicData.map (·.recordId) := by
  simp [Database.select, List.find?_eq_none]

/-- A write takes effect exactly where there is no row yet. -/
theorem select_writeDynamicData :
    (writeDynamicData db p t r).select id =
      if id = ⟨.ofNat p, .ofNat t⟩ ∧ db.select id = none then some (toField r)
      else db.select id := by
  have hrecord : (buildWriteRequest p t r).recordId = ⟨.ofNat p, .ofNat t⟩ := rfl
  unfold writeDynamicData Database.writeDynamicDataImpl
  by_cases hkey : db.select (buildWriteRequest p t r).recordId = none
  · rw [dif_neg (select_eq_none_iff.mp hkey)]
    by_cases hid : id = ⟨.ofNat p, .ofNat t⟩
    · subst hid
      rw [if_pos ⟨rfl, hkey⟩]
      rw [hrecord, Database.select, Option.map_eq_none_iff] at hkey
      simp only [Database.select, List.find?_append, hkey]
      simp [buildWriteRequest]
    · rw [if_neg fun h => hid h.1]
      have hlast : ¬(buildWriteRequest p t r).recordId = id := fun h => hid h.symm
      simp [Database.select, List.find?_append, hlast]
  · rw [dif_pos (by_contra fun h => hkey (select_eq_none_iff.mpr h)), if_neg]
    rintro ⟨rfl, h⟩
    exact hkey h

/-- The call goes well exactly where there is no row yet. -/
theorem writeDynamicDataImpl_eq_ok {db' : Database} :
    db.writeDynamicDataImpl (buildWriteRequest p t r) = .ok db' ↔
      db.select ⟨.ofNat p, .ofNat t⟩ = none ∧ db' = writeDynamicData db p t r := by
  have hrecord : (buildWriteRequest p t r).recordId = ⟨.ofNat p, .ofNat t⟩ := rfl
  rw [select_eq_none_iff, ← hrecord, writeDynamicData, Database.writeDynamicDataImpl]
  split_ifs with h
  · simp [h]
  · simp [h, eq_comm]

/-- A write that meets a row is lost. -/
theorem writeDynamicData_of_row {field : Field} (h : db.select ⟨.ofNat p, .ofNat t⟩ = some field) :
    writeDynamicData db p t r = db := by
  cases hwrite : db.writeDynamicDataImpl (buildWriteRequest p t r) with
  | ok db' =>
    rw [(writeDynamicDataImpl_eq_ok.mp hwrite).1] at h
    cases h
  | error fault => rw [writeDynamicData, hwrite]

theorem select_clearIntermediateCalculations :
    (clearIntermediateCalculations db p).select id =
      if id.problemId = .ofNat p then none else db.select id := by
  unfold clearIntermediateCalculations Database.clearIntermediateCalculationsImpl Database.select
  rw [List.find?_filter]
  split_ifs with h
  · rw [List.find?_eq_none.mpr, Option.map_none]
    rintro row - hrow
    simp only [decide_eq_true_eq] at hrow
    exact hrow.1 (hrow.2 ▸ h)
  · congr 1
    refine List.find?_congr fun row _ => ?_
    by_cases hrow : row.recordId = id
    · simp [hrow, h]
    · simp [hrow]

/-- A dynamic read returns the row, and throws where there is none. -/
theorem readData_dyn : readData db (.dynRecordId p t) =
    match db.select ⟨.ofNat p, .ofNat t⟩ with
    | some field => ofReply field
    | none => ofReply .notSet := by
  simp only [readData, toRecordId, Database.readDataImpl]
  cases db.select ⟨.ofNat p, .ofNat t⟩ <;> rfl

/-- So does a static read. -/
theorem readData_static {identifier : VariableId} : readData db (.identifier identifier) =
    match db.staticData identifier with
    | some field => ofReply field
    | none => ofReply .notSet := by
  simp only [readData, toRecordId, Database.readDataImpl]
  cases db.staticData identifier <;> rfl

@[simp] theorem staticData_writeDynamicData :
    (writeDynamicData db p t r).staticData = db.staticData := by
  unfold writeDynamicData Database.writeDynamicDataImpl
  split <;> rename_i h
  · split at h
    · cases h
    · cases h; rfl
  · rfl

@[simp] theorem staticData_clearIntermediateCalculations :
    (clearIntermediateCalculations db p).staticData = db.staticData := rfl

/-- A static read depends on the static table alone. -/
theorem readData_identifier_congr {db' : Database} (h : db.staticData = db'.staticData)
    (identifier : VariableId) :
    readData db (.identifier identifier) = readData db' (.identifier identifier) := by
  rw [readData_static, readData_static, h]

end DatabaseClient
end TaskDispatch
