import Mathlib
import TaskDispatch.Common.Domain

/-!
# `proto`: the messages between the processes

`task.proto`, `worker.proto` and `db.proto`. A `oneof` is an inductive type with a last
constructor for a message in which none of the alternatives is set. Identifiers travel in
`uint32` fields; the setters take a `size_t` and keep its low 32 bits, which is `UInt32.ofNat`.
Serialisation is assumed to be undone by parsing, so a message is its own serialised form.
-/

set_option autoImplicit false

namespace TaskDispatch.Proto

/-! ## `task.proto` and `worker.proto` -/

structure TaskId where
  problemId : UInt32
  taskId : UInt32
  deriving DecidableEq, Repr

inductive Operand where
  | staticOperand (identifier : VariableId)
  | dynOperand (id : TaskId)
  | notSet
  deriving DecidableEq, Repr

structure Task where
  id : TaskId
  operationType : UInt32
  operands : List Operand
  deriving DecidableEq, Repr

structure WorkerTask where
  identity : String
  task : Task
  deriving DecidableEq, Repr

structure WorkerTaskId where
  identity : String
  id : TaskId
  deriving DecidableEq, Repr

inductive WorkerMessage where
  | coreCount (count : UInt32)
  | taskId (id : WorkerTaskId)
  | notSet
  deriving DecidableEq, Repr

/-- Setting both fields of a `TaskId` from a problem and a vertex of the manager. -/
def TaskId.mk' (problemId taskId : ℕ) : TaskId := ⟨.ofNat problemId, .ofNat taskId⟩

/-- Below `2 ^ 32` the setters lose nothing. -/
theorem toNat_ofNat_of_lt {n : ℕ} (h : n < 2 ^ 32) : (UInt32.ofNat n).toNat = n := by
  rw [UInt32.toNat_ofNat', Nat.mod_eq_of_lt h]

theorem TaskId.mk'_inj {p t p' t' : ℕ} (hp : p < 2 ^ 32) (ht : t < 2 ^ 32) (hp' : p' < 2 ^ 32)
    (ht' : t' < 2 ^ 32) : mk' p t = mk' p' t' ↔ p = p' ∧ t = t' := by
  constructor
  · intro h
    obtain ⟨h₁, h₂⟩ := TaskId.mk.inj h
    have h₁ := congrArg UInt32.toNat h₁
    have h₂ := congrArg UInt32.toNat h₂
    simp only [toNat_ofNat_of_lt, hp, ht, hp', ht'] at h₁ h₂
    exact ⟨h₁, h₂⟩
  · rintro ⟨rfl, rfl⟩
    rfl

/-! ## `db.proto` -/

inductive Field where
  | scalar (value : Scalar)
  | list (values : List Scalar)
  | notSet
  deriving DecidableEq, Repr

structure DynamicRecordId where
  problemId : UInt32
  taskId : UInt32
  deriving DecidableEq, Repr

structure DynamicRecord where
  recordId : DynamicRecordId
  field : Field
  deriving DecidableEq, Repr

inductive RecordId where
  | dynId (id : DynamicRecordId)
  | staticId (identifier : VariableId)
  | notSet
  deriving DecidableEq, Repr

end TaskDispatch.Proto
