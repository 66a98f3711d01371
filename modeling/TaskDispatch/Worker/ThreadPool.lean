import Mathlib
import TaskDispatch.Database.Database

/-!
# `worker-impl/thread_pool`: one task on one worker

`ThreadPool::CalculateTask` reads the operands of a task from the store, one call each, computes,
writes the result back and only then queues the answer. The parts are kept apart, since the steps
of other threads and processes come between them.
-/

set_option autoImplicit false

namespace TaskDispatch.ThreadPool

open Proto

/-- One round of the loop of `ExtractOperands` -/
def readOperand (db : Database) : Operand → Result ExprResult
  | .staticOperand identifier => DatabaseClient.readData db (.identifier identifier)
  | .dynOperand id =>
    DatabaseClient.readData db (.dynRecordId id.problemId.toNat id.taskId.toNat)
  | .notSet => .error (.thrown (.logicError "Invalid message"))

def extractOperands (db : Database) (task : WorkerTask) : Result (List ExprResult) :=
  task.task.operands.mapM (readOperand db)

/-- `operands.front()` and `operands.back()` are taken before the type is looked at. -/
def calculateTaskImpl (type : ExprType) (operands : List ExprResult) : Result ExprResult :=
  match operands.head?, operands.getLast? with
  | some lhs, some rhs =>
    match type with
    | .reMin => do .ok (.scalar (← Domain.minList (← lhs.getList)))
    | .reMax => do .ok (.scalar (← Domain.maxList (← lhs.getList)))
    | .reMul => do .ok (.scalar (← Domain.mulList (← lhs.getList)))
    | .reSum => do .ok (.scalar (← Domain.sumList (← lhs.getList)))
    | .reSize => do .ok (.scalar (Domain.sizeList (← lhs.getList)))
    | .meAdd => do .ok (.list (← Domain.sumListScalar (← lhs.getList) (← rhs.getScalar)))
    | .meMul => do .ok (.list (← Domain.mulListScalar (← lhs.getList) (← rhs.getScalar)))
    | .meDiv => do .ok (.list (← Domain.divListScalar (← lhs.getList) (← rhs.getScalar)))
    | .loAdd => do .ok (.list (← Domain.sumLists (← lhs.getList) (← rhs.getList)))
    | .loMul => do .ok (.list (← Domain.mulLists (← lhs.getList) (← rhs.getList)))
    | .loDiv => do .ok (.list (← Domain.divLists (← lhs.getList) (← rhs.getList)))
    | .loDot => do .ok (.scalar (← Domain.dot (← lhs.getList) (← rhs.getList)))
    | .soAdd => do .ok (.scalar (← Domain.sumScalar (← lhs.getScalar) (← rhs.getScalar)))
    | .soMul => do .ok (.scalar (← Domain.mulScalar (← lhs.getScalar) (← rhs.getScalar)))
    | .soDiv => do .ok (.scalar (← Domain.divScalar (← lhs.getScalar) (← rhs.getScalar)))
    | .soMax => do .ok (.scalar (Domain.maxScalar (← lhs.getScalar) (← rhs.getScalar)))
    | .soMin => do .ok (.scalar (Domain.minScalar (← lhs.getScalar) (← rhs.getScalar)))
    | .invalid | .list | .scalarConst | .scalarVar =>
      .error (.thrown (.logicError "Invalid operation"))
  | _, _ => .error .undefined

/-- `CalculateTaskImpl` for the operation type of the message -/
def calculate (task : WorkerTask) (operands : List ExprResult) : Result ExprResult :=
  calculateTaskImpl (.ofOperationType task.task.operationType.toNat) operands

def writeResult (db : Database) (task : WorkerTask) (exprResult : ExprResult) : Database :=
  DatabaseClient.writeDynamicData db task.task.id.problemId.toNat task.task.id.taskId.toNat
    exprResult

/-- The answer pushed to the output queue -/
def response (task : WorkerTask) : WorkerTaskId := ⟨task.identity, task.task.id⟩

/-- `CalculateTask`, undisturbed. -/
def calculateTask (db : Database) (task : WorkerTask) : Result (Database × WorkerTaskId) := do
  let operands ← extractOperands db task
  let exprResult ← calculate task operands
  .ok (writeResult db task exprResult, response task)

end TaskDispatch.ThreadPool
