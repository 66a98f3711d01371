import Mathlib
import TaskDispatch.Common.Domain

/-!
# `decomposition/expression`: expression trees

The class hierarchy under `Expr` is one inductive type with a constructor per class. An operand is
a `std::unique_ptr<Expr>`, so it may be null; comparing or traversing a tree follows it without a
test, which is `Fault.undefined` at a null one. `Complete` trees have all their operands, and for
those the seven classes need no more case distinction: `Complete.induct` is induction over the
operands, whatever the node is.
-/

set_option autoImplicit false

namespace TaskDispatch

/-! ## The classes -/

/-- `ReduceExpr::Type` -/
inductive ReduceType where
  | min | max | mul | sum | size
  deriving DecidableEq, Repr

/-- `MapExpr::Type` -/
inductive MapType where
  | add | mul | div
  deriving DecidableEq, Repr

/-- `ListOpExpr::Type` -/
inductive ListOpType where
  | add | mul | div | dot
  deriving DecidableEq, Repr

/-- `ScalarOpExpr::Type` -/
inductive ScalarOpType where
  | add | mul | div | max | min
  deriving DecidableEq, Repr

/-- `std::variant<std::monostate, domain::VariableId, domain::Scalar>` -/
inductive ExprData where
  | monostate
  | variableId (id : VariableId)
  | scalar (x : Scalar)
  deriving DecidableEq, Repr

inductive Expr where
  | reduceExpr (type : ReduceType) (operand : Option Expr)
  | mapExpr (type : MapType) (lhs rhs : Option Expr)
  | listOpExpr (type : ListOpType) (lhs rhs : Option Expr)
  | scalarOpExpr (type : ScalarOpType) (lhs rhs : Option Expr)
  | listExpr (l : VariableId)
  | scalarConstExpr (x : Scalar)
  | scalarVarExpr (x : VariableId)
  deriving Repr

/-- `ReduceExpr::GetType` -/
def ReduceType.getType : ReduceType → ExprType
  | .min => .reMin
  | .max => .reMax
  | .mul => .reMul
  | .sum => .reSum
  | .size => .reSize

/-- `MapExpr::GetType` -/
def MapType.getType : MapType → ExprType
  | .mul => .meMul
  | .add => .meAdd
  | .div => .meDiv

/-- `ListOpExpr::GetType` -/
def ListOpType.getType : ListOpType → ExprType
  | .mul => .loMul
  | .add => .loAdd
  | .div => .loDiv
  | .dot => .loDot

/-- `ScalarOpExpr::GetType` -/
def ScalarOpType.getType : ScalarOpType → ExprType
  | .mul => .soMul
  | .add => .soAdd
  | .div => .soDiv
  | .max => .soMax
  | .min => .soMin

namespace Expr

def getType : Expr → ExprType
  | reduceExpr type _ => type.getType
  | mapExpr type _ _ => type.getType
  | listOpExpr type _ _ => type.getType
  | scalarOpExpr type _ _ => type.getType
  | listExpr _ => .list
  | scalarConstExpr _ => .scalarConst
  | scalarVarExpr _ => .scalarVar

def getLhs : Expr → Option Expr
  | reduceExpr _ operand => operand
  | mapExpr _ lhs _ | listOpExpr _ lhs _ | scalarOpExpr _ lhs _ => lhs
  | listExpr _ | scalarConstExpr _ | scalarVarExpr _ => none

def getRhs : Expr → Option Expr
  | reduceExpr _ _ => none
  | mapExpr _ _ rhs | listOpExpr _ _ rhs | scalarOpExpr _ _ rhs => rhs
  | listExpr _ | scalarConstExpr _ | scalarVarExpr _ => none

def getData : Expr → ExprData
  | reduceExpr .. | mapExpr .. | listOpExpr .. | scalarOpExpr .. => .monostate
  | listExpr l => .variableId l
  | scalarConstExpr x => .scalar x
  | scalarVarExpr x => .variableId x

/-- `Expr::New`, the factory: operands a class does not have are dropped. -/
def new (type : ExprType) (operand1 operand2 : Option Expr) (varId : Option VariableId)
    (x : Option Scalar) : Result Expr :=
  match type with
  | .reMin => .ok (reduceExpr .min operand1)
  | .reMax => .ok (reduceExpr .max operand1)
  | .reMul => .ok (reduceExpr .mul operand1)
  | .reSum => .ok (reduceExpr .sum operand1)
  | .reSize => .ok (reduceExpr .size operand1)
  | .meAdd => .ok (mapExpr .add operand1 operand2)
  | .meMul => .ok (mapExpr .mul operand1 operand2)
  | .meDiv => .ok (mapExpr .div operand1 operand2)
  | .loAdd => .ok (listOpExpr .add operand1 operand2)
  | .loMul => .ok (listOpExpr .mul operand1 operand2)
  | .loDiv => .ok (listOpExpr .div operand1 operand2)
  | .loDot => .ok (listOpExpr .dot operand1 operand2)
  | .list => do .ok (listExpr (← Result.ofOptional varId))
  | .scalarConst => do .ok (scalarConstExpr (← Result.ofOptional x))
  | .scalarVar => do .ok (scalarVarExpr (← Result.ofOptional varId))
  | .soAdd => .ok (scalarOpExpr .add operand1 operand2)
  | .soMul => .ok (scalarOpExpr .mul operand1 operand2)
  | .soDiv => .ok (scalarOpExpr .div operand1 operand2)
  | .soMax => .ok (scalarOpExpr .max operand1 operand2)
  | .soMin => .ok (scalarOpExpr .min operand1 operand2)
  | .invalid => .error (.thrown (.invalidArgument "Invalid can not be passed to factory"))

/-! ## Comparison and traversal -/

mutual

/-- `operator==`. The `typeid` test comes first, then the members in order, and `&&` stops at the
first that differ: operands are only followed while everything before them was equal. -/
def opEq : Expr → Expr → Result Bool
  | reduceExpr type operand, reduceExpr type' operand' =>
    if type = type' then derefEq operand operand' else .ok false
  | mapExpr type lhs rhs, mapExpr type' lhs' rhs' =>
    if type = type' then .andThen (derefEq lhs lhs') (derefEq rhs rhs') else .ok false
  | listOpExpr type lhs rhs, listOpExpr type' lhs' rhs' =>
    if type = type' then .andThen (derefEq lhs lhs') (derefEq rhs rhs') else .ok false
  | scalarOpExpr type lhs rhs, scalarOpExpr type' lhs' rhs' =>
    if type = type' then .andThen (derefEq lhs lhs') (derefEq rhs rhs') else .ok false
  | listExpr l, listExpr l' => .ok (l == l')
  | scalarConstExpr x, scalarConstExpr x' => .ok (x == x')
  | scalarVarExpr x, scalarVarExpr x' => .ok (x == x')
  | _, _ => .ok false

/-- `*lhs == *rhs` -/
def derefEq : Option Expr → Option Expr → Result Bool
  | some lhs, some rhs => opEq lhs rhs
  | _, _ => .error .undefined

end

section Traverse

variable {σ : Type} (visit : Expr → σ → Result σ)

mutual

/-- `PostorderTraverse` with a visitor whose state is `σ` -/
def postorderTraverse : Expr → σ → Result σ
  | e@(reduceExpr _ operand), s => do visit e (← derefTraverse operand s)
  | e@(mapExpr _ lhs rhs), s => do visit e (← derefTraverse rhs (← derefTraverse lhs s))
  | e@(listOpExpr _ lhs rhs), s => do visit e (← derefTraverse rhs (← derefTraverse lhs s))
  | e@(scalarOpExpr _ lhs rhs), s => do visit e (← derefTraverse rhs (← derefTraverse lhs s))
  | e@(listExpr _), s => visit e s
  | e@(scalarConstExpr _), s => visit e s
  | e@(scalarVarExpr _), s => visit e s

/-- `operand->PostorderTraverse(visitor)` -/
def derefTraverse : Option Expr → σ → Result σ
  | some operand, s => postorderTraverse operand s
  | none, _ => .error .undefined

end

end Traverse

/-! ## Complete trees -/

/-- The operands that are there, left before right. -/
def operands (e : Expr) : List Expr := e.getLhs.toList ++ e.getRhs.toList

mutual

/-- Every node of the tree, an operand before the node it belongs to. -/
def postorder : Expr → List Expr
  | e@(reduceExpr _ operand) => postorder? operand ++ [e]
  | e@(mapExpr _ lhs rhs) => postorder? lhs ++ postorder? rhs ++ [e]
  | e@(listOpExpr _ lhs rhs) => postorder? lhs ++ postorder? rhs ++ [e]
  | e@(scalarOpExpr _ lhs rhs) => postorder? lhs ++ postorder? rhs ++ [e]
  | e@(listExpr _) => [e]
  | e@(scalarConstExpr _) => [e]
  | e@(scalarVarExpr _) => [e]

def postorder? : Option Expr → List Expr
  | some operand => postorder operand
  | none => []

end

/-- No operand is null, at any depth. -/
inductive Complete : Expr → Prop where
  | reduceExpr {type a} : Complete a → Complete (reduceExpr type (some a))
  | mapExpr {type a b} : Complete a → Complete b → Complete (mapExpr type (some a) (some b))
  | listOpExpr {type a b} : Complete a → Complete b → Complete (listOpExpr type (some a) (some b))
  | scalarOpExpr {type a b} :
      Complete a → Complete b → Complete (scalarOpExpr type (some a) (some b))
  | listExpr {l} : Complete (listExpr l)
  | scalarConstExpr {x} : Complete (scalarConstExpr x)
  | scalarVarExpr {x} : Complete (scalarVarExpr x)

/-- Induction over the operands of a complete tree. -/
theorem Complete.induct {motive : Expr → Prop}
    (step : ∀ e : Expr, e.Complete → (∀ c ∈ e.operands, c.Complete ∧ motive c) → motive e)
    {e : Expr} (h : e.Complete) : motive e := by
  induction h with
  | reduceExpr ha iha =>
    exact step _ ha.reduceExpr (by simpa [operands, getLhs, getRhs] using ⟨ha, iha⟩)
  | mapExpr ha hb iha ihb =>
    exact step _ (ha.mapExpr hb) (by simpa [operands, getLhs, getRhs] using ⟨⟨ha, iha⟩, hb, ihb⟩)
  | listOpExpr ha hb iha ihb =>
    exact step _ (ha.listOpExpr hb)
      (by simpa [operands, getLhs, getRhs] using ⟨⟨ha, iha⟩, hb, ihb⟩)
  | scalarOpExpr ha hb iha ihb =>
    exact step _ (ha.scalarOpExpr hb)
      (by simpa [operands, getLhs, getRhs] using ⟨⟨ha, iha⟩, hb, ihb⟩)
  | listExpr => exact step _ .listExpr (by simp [operands, getLhs, getRhs])
  | scalarConstExpr => exact step _ .scalarConstExpr (by simp [operands, getLhs, getRhs])
  | scalarVarExpr => exact step _ .scalarVarExpr (by simp [operands, getLhs, getRhs])

theorem Complete.operand {e : Expr} (h : e.Complete) : ∀ c ∈ e.operands, c.Complete :=
  h.induct (motive := fun e => ∀ c ∈ e.operands, c.Complete) fun _ _ ih c hc => (ih c hc).1

theorem Complete.postorder_eq {e : Expr} (h : e.Complete) :
    e.postorder = e.operands.flatMap postorder ++ [e] := by
  cases h <;> simp [postorder, postorder?, operands, getLhs, getRhs]

/-- The nodes of a tree are those of its operands and the tree. -/
theorem Complete.mem_postorder {e c : Expr} (h : e.Complete) :
    c ∈ e.postorder ↔ (∃ d ∈ e.operands, c ∈ d.postorder) ∨ c = e := by
  rw [h.postorder_eq, List.mem_append, List.mem_flatMap, List.mem_singleton]

theorem Complete.self_mem_postorder {e : Expr} (h : e.Complete) : e ∈ e.postorder :=
  h.mem_postorder.mpr (.inr rfl)

/-- Induction along the way from the root to a node. -/
theorem Complete.induct_node {motive : Expr → Expr → Prop}
    (self : ∀ e : Expr, e.Complete → motive e e)
    (operand : ∀ e d c : Expr, e.Complete → d ∈ e.operands → motive d c → motive e c)
    {e : Expr} (h : e.Complete) : ∀ c ∈ e.postorder, motive e c := by
  apply h.induct (motive := fun e => ∀ c ∈ e.postorder, motive e c)
  intro e he ih c hc
  rcases he.mem_postorder.mp hc with ⟨d, hd, hc⟩ | rfl
  · exact operand e d c he hd ((ih d hd).2 c hc)
  · exact self c he

/-- The nodes of a complete tree are complete. -/
theorem Complete.of_mem_postorder {e : Expr} (h : e.Complete) :
    ∀ c ∈ e.postorder, c.Complete :=
  h.induct_node (motive := fun _ c => c.Complete) (fun _ he => he) fun _ _ _ _ _ hc => hc

/-- A traversal of a complete tree follows no null pointer: it visits the postorder list. -/
theorem Complete.postorderTraverse {σ : Type} (visit : Expr → σ → Result σ) {e : Expr}
    (h : e.Complete) (s : σ) :
    postorderTraverse visit e s = e.postorder.foldlM (fun s c => visit c s) s := by
  induction h generalizing s with
  | reduceExpr _ iha =>
    simp [Expr.postorderTraverse, derefTraverse, postorder, postorder?, List.foldlM_append, iha]
  | mapExpr _ _ iha ihb =>
    simp [Expr.postorderTraverse, derefTraverse, postorder, postorder?, List.foldlM_append, iha,
      ihb]
  | listOpExpr _ _ iha ihb =>
    simp [Expr.postorderTraverse, derefTraverse, postorder, postorder?, List.foldlM_append, iha,
      ihb]
  | scalarOpExpr _ _ iha ihb =>
    simp [Expr.postorderTraverse, derefTraverse, postorder, postorder?, List.foldlM_append, iha,
      ihb]
  | listExpr => simp [Expr.postorderTraverse, postorder]
  | scalarConstExpr => simp [Expr.postorderTraverse, postorder]
  | scalarVarExpr => simp [Expr.postorderTraverse, postorder]

/-- On complete trees `operator==` follows no null pointer and decides structural identity. -/
theorem Complete.opEq {a b : Expr} (ha : a.Complete) (hb : b.Complete) :
    ∃ r, opEq a b = .ok r ∧ (r = true ↔ a = b) := by
  induction ha generalizing b with
  | @reduceExpr type a _ iha =>
    cases hb with
    | @reduceExpr type' a' ha' =>
      obtain ⟨r, hr, hiff⟩ := iha ha'
      by_cases ht : type = type' <;> simp [Expr.opEq, derefEq, ht, hr, hiff]
    | _ => simp [Expr.opEq]
  | @mapExpr type a b _ _ iha ihb =>
    cases hb with
    | @mapExpr type' a' b' ha' hb' =>
      obtain ⟨r, hr, hiff⟩ := iha ha'
      obtain ⟨q, hq, hiff'⟩ := ihb hb'
      by_cases ht : type = type' <;> simp [Expr.opEq, derefEq, ht, hr, hq, hiff, hiff']
    | _ => simp [Expr.opEq]
  | @listOpExpr type a b _ _ iha ihb =>
    cases hb with
    | @listOpExpr type' a' b' ha' hb' =>
      obtain ⟨r, hr, hiff⟩ := iha ha'
      obtain ⟨q, hq, hiff'⟩ := ihb hb'
      by_cases ht : type = type' <;> simp [Expr.opEq, derefEq, ht, hr, hq, hiff, hiff']
    | _ => simp [Expr.opEq]
  | @scalarOpExpr type a b _ _ iha ihb =>
    cases hb with
    | @scalarOpExpr type' a' b' ha' hb' =>
      obtain ⟨r, hr, hiff⟩ := iha ha'
      obtain ⟨q, hq, hiff'⟩ := ihb hb'
      by_cases ht : type = type' <;> simp [Expr.opEq, derefEq, ht, hr, hq, hiff, hiff']
    | _ => simp [Expr.opEq]
  | listExpr => cases hb <;> simp [Expr.opEq]
  | scalarConstExpr => cases hb <;> simp [Expr.opEq]
  | scalarVarExpr => cases hb <;> simp [Expr.opEq]

end Expr

/-- `AST`, with the operands of every operator present. -/
structure AST where
  root : Expr
  complete : root.Complete

/-- The mean of a list: its sum over its size. The two operands share the list. -/
def AST.mean (l : VariableId) : AST where
  root := .scalarOpExpr .div (some (.reduceExpr .sum (some (.listExpr l))))
    (some (.reduceExpr .size (some (.listExpr l))))
  complete := .scalarOpExpr (.reduceExpr .listExpr) (.reduceExpr .listExpr)

end TaskDispatch
