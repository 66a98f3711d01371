import Mathlib
import TaskDispatch.Common.Fault
import TaskDispatch.Lib.Reduction

/-!
# `common/domain`: the values and the operations on them

`domain::Scalar` is `int`, so the arithmetic is that of `Int32` where C++ defines it and
`Fault.undefined` where it does not: a sum, product or quotient out of range, and a division by
zero. The operators on two lists check the lengths with `assert`, which is compiled in (the build
type is `Debug`). How `std::reduce` groups the elements is up to the library (`Grouping`).
-/

set_option autoImplicit false

namespace TaskDispatch

/-! ## Types -/

/-- `domain::ExprType`, the enumerators in the order of the header. -/
inductive ExprType where
  | invalid
  | reMin | reMax | reMul | reSum | reSize
  | meAdd | meMul | meDiv
  | loAdd | loMul | loDiv | loDot
  | soAdd | soMul | soDiv | soMax | soMin
  | list | scalarConst | scalarVar
  deriving DecidableEq, Repr

namespace ExprType

def all : List ExprType :=
  [.invalid, .reMin, .reMax, .reMul, .reSum, .reSize, .meAdd, .meMul, .meDiv, .loAdd, .loMul,
   .loDiv, .loDot, .soAdd, .soMul, .soDiv, .soMax, .soMin, .list, .scalarConst, .scalarVar]

/-- `static_cast<size_t>(type)` -/
def toOperationType (type : ExprType) : ℕ := all.idxOf type

/-- `static_cast<ExprType>(n)`. A number that is no enumerator goes wherever `invalid` does: to
the default branch. -/
def ofOperationType (n : ℕ) : ExprType := all[n]?.getD .invalid

@[simp] theorem ofOperationType_toOperationType (type : ExprType) :
    ofOperationType type.toOperationType = type := by
  cases type <;> rfl

theorem toOperationType_lt (type : ExprType) : type.toOperationType < 21 := by
  cases type <;> decide

/-- The three kinds of leaf, as `TaskDecompositor::GetIndependentTasks` lists them. -/
def IsLeaf (type : ExprType) : Prop := type = .list ∨ type = .scalarConst ∨ type = .scalarVar

instance (type : ExprType) : Decidable type.IsLeaf := inferInstanceAs (Decidable (_ ∨ _ ∨ _))

end ExprType

abbrev Scalar := Int32
abbrev VariableId := String

/-- `domain::ExprResult`, a `std::variant<List, Scalar>` -/
inductive ExprResult where
  | list (l : List Scalar)
  | scalar (x : Scalar)
  deriving DecidableEq, Repr

namespace ExprResult

/-- `std::get<domain::List>` -/
def getList : ExprResult → Result (List Scalar)
  | .list l => .ok l
  | .scalar _ => .error (.thrown .badVariantAccess)

/-- `std::get<domain::Scalar>` -/
def getScalar : ExprResult → Result Scalar
  | .scalar x => .ok x
  | .list _ => .error (.thrown .badVariantAccess)

end ExprResult

/-! ## Operations -/

namespace Domain

open Reduction

/-- The `int` with mathematical value `z`, where there is one. -/
def intOf (z : ℤ) : Result Scalar :=
  if Int32.minValue.toInt ≤ z ∧ z ≤ Int32.maxValue.toInt then .ok (Int32.ofInt z)
  else .error .undefined

def sumScalar (x₁ x₂ : Scalar) : Result Scalar := intOf (x₁.toInt + x₂.toInt)

def mulScalar (x₁ x₂ : Scalar) : Result Scalar := intOf (x₁.toInt * x₂.toInt)

/-- `x₁ / x₂` rounds towards zero. -/
def divScalar (x₁ x₂ : Scalar) : Result Scalar :=
  if x₂ = 0 then .error .undefined else intOf (x₁.toInt.tdiv x₂.toInt)

/-- `std::min` gives its first argument unless the second is smaller. -/
def minScalar (x₁ x₂ : Scalar) : Scalar := if x₂ < x₁ then x₂ else x₁

def maxScalar (x₁ x₂ : Scalar) : Scalar := if x₁ < x₂ then x₂ else x₁

/-- An implementation of `std::reduce`, which may combine the initial value and the elements in any
order and grouping. -/
structure Grouping where
  reduce : (Scalar → Scalar → Result Scalar) → Scalar → List Scalar → Result Scalar
  reduces : ∀ op init (l : List Scalar),
    Reduces op (init ::ₘ (l : Multiset Scalar)) (reduce op init l)

/-- The loop of libstdc++ takes four elements at a time as long as there are four. -/
def reduceByFour (op : Scalar → Scalar → Result Scalar) (init : Scalar) :
    List Scalar → Result Scalar
  | x₀ :: x₁ :: x₂ :: x₃ :: l => do
    let v₁ ← op x₀ x₁
    let v₂ ← op x₂ x₃
    let v₃ ← op v₁ v₂
    reduceByFour op (← op init v₃) l
  | l => l.foldlM op init

theorem reduces_reduceByFour {op : Scalar → Scalar → Result Scalar} :
    ∀ (l : List Scalar) {s : Multiset Scalar} {x : Result Scalar}, Reduces op s x →
      Reduces op (s + (l : Multiset Scalar)) (do reduceByFour op (← x) l)
  | x₀ :: x₁ :: x₂ :: x₃ :: l, s, x, h => by
    have hfour : Reduces op ({x₀} + {x₁} + ({x₂} + {x₃})) _ :=
      ((Reduces.single x₀).node (.single x₁)).node ((Reduces.single x₂).node (.single x₃))
    have hrest := reduces_reduceByFour l (h.node hfour)
    have hs : s + ({x₀} + {x₁} + ({x₂} + {x₃})) + (l : Multiset Scalar) =
        s + ((x₀ :: x₁ :: x₂ :: x₃ :: l : List Scalar) : Multiset Scalar) := by
      simp only [← Multiset.cons_coe, ← Multiset.singleton_add, add_assoc]
    rw [hs] at hrest
    cases x with
    | error fault => exact hrest
    | ok init =>
      simp only [Result.ok_bind, bind_assoc, reduceByFour] at hrest ⊢
      exact hrest
  | [], _, _, h | [_], _, _, h | [_, _], _, _, h | [_, _, _], _, _, h => h.foldlM _

/-- The implementation of the images the services are built in. -/
def libstdcxx : Grouping where
  reduce := reduceByFour
  reduces _ init l := Multiset.singleton_add init _ ▸ reduces_reduceByFour l (.single init)

def mulList (l : List Scalar) : Result Scalar := libstdcxx.reduce mulScalar 1 l

def sumList (l : List Scalar) : Result Scalar := libstdcxx.reduce sumScalar 0 l

/-- `*it` for the iterator at position `i` of `l` -/
def derefIterator (l : List Scalar) (i : ℕ) : Result Scalar :=
  match l[i]? with
  | some x => .ok x
  | none => .error .undefined

/-- `*std::min(l.begin(), l.end())`: the minimum is taken of the two iterators. -/
def minList (l : List Scalar) : Result Scalar := derefIterator l (min 0 l.length)

/-- Also `std::min`, on the iterators, in the source. -/
def maxList (l : List Scalar) : Result Scalar := derefIterator l (min 0 l.length)

/-- `size_t` to `int` keeps the low 32 bits. -/
def sizeList (l : List Scalar) : Scalar := Int32.ofNat l.length

/-- `std::transform` of a list with a scalar -/
def mapScalar (op : Scalar → Scalar → Result Scalar) (l : List Scalar) (x : Scalar) :
    Result (List Scalar) := l.mapM fun y => op y x

def sumListScalar (l : List Scalar) (x : Scalar) : Result (List Scalar) := mapScalar sumScalar l x

def mulListScalar (l : List Scalar) (x : Scalar) : Result (List Scalar) := mapScalar mulScalar l x

def divListScalar (l : List Scalar) (x : Scalar) : Result (List Scalar) := mapScalar divScalar l x

/-- Position by position, after the lengths have been asserted equal. -/
def zipLists (op : Scalar → Scalar → Result Scalar) (l₁ l₂ : List Scalar) :
    Result (List Scalar) :=
  if l₁.length = l₂.length then (l₁.zip l₂).mapM fun p => op p.1 p.2 else .error .aborted

def sumLists (l₁ l₂ : List Scalar) : Result (List Scalar) := zipLists sumScalar l₁ l₂

def mulLists (l₁ l₂ : List Scalar) : Result (List Scalar) := zipLists mulScalar l₁ l₂

def divLists (l₁ l₂ : List Scalar) : Result (List Scalar) := zipLists divScalar l₁ l₂

/-- `std::inner_product` from `0`, after the same assertion -/
def dot (l₁ l₂ : List Scalar) : Result Scalar :=
  if l₁.length = l₂.length then
    (l₁.zip l₂).foldlM (fun acc p => do sumScalar acc (← mulScalar p.1 p.2)) 0
  else .error .aborted

end Domain
end TaskDispatch
