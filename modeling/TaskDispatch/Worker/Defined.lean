import Mathlib
import TaskDispatch.Common.Defined
import TaskDispatch.Worker.ThreadPool

/-!
# When a task is defined

`CalculateTaskImpl` checks nothing about the operands but their kinds. `OpFits` is what its
operations rest on, in terms of the integers the operands stand for, and `exactOp` is what they give
then. Nothing less will do (`settled`): where the operands do not fit, some outcome of the call is a
failed `assert` or undefined. More than one outcome is possible where `std::reduce` is called.
-/

set_option autoImplicit false

namespace TaskDispatch

open Reduction

/-- The value of a `domain::ExprResult` as integers -/
inductive Exact where
  | list (l : List ℤ)
  | scalar (z : ℤ)
  deriving DecidableEq, Repr

def ExprResult.exact : ExprResult → Exact
  | .list l => .list (l.map Int32.toInt)
  | .scalar x => .scalar x.toInt

namespace Exact

def list? : Exact → Option (List ℤ)
  | .list l => some l
  | .scalar _ => none

def scalar? : Exact → Option ℤ
  | .scalar z => some z
  | .list _ => none

/-- A condition on a list, which a scalar meets. -/
def forList : Exact → (List ℤ → Prop) → Prop
  | .list l, P => P l
  | .scalar _, _ => True

def forScalar : Exact → (ℤ → Prop) → Prop
  | .scalar z, P => P z
  | .list _, _ => True

end Exact

namespace ThreadPool

open Domain Result

/-- What a call of `CalculateTaskImpl` can come to: `std::reduce` combines the elements and the
initial value in any order and grouping. -/
inductive Outcome (operands : List ExprResult) : ExprType → Result ExprResult → Prop where
  | calculated {type : ExprType} : Outcome operands type (calculateTaskImpl type operands)
  | mul {l : List Scalar} {x : Result Scalar} : operands.head? = some (.list l) →
      Reduces mulScalar (1 ::ₘ (l : Multiset Scalar)) x →
      Outcome operands .reMul (do .ok (.scalar (← x)))
  | sum {l : List Scalar} {x : Result Scalar} : operands.head? = some (.list l) →
      Reduces sumScalar (0 ::ₘ (l : Multiset Scalar)) x →
      Outcome operands .reSum (do .ok (.scalar (← x)))

/-- What an operation needs of its operands. Of operands of the wrong kind it needs nothing: the
call throws. -/
def OpFits (type : ExprType) (operands : List Exact) : Prop :=
  match operands.head?, operands.getLast? with
  | some lhs, some rhs =>
    match type with
    | .reMin | .reMax => lhs.forList fun l => l ≠ []
    | .reMul => lhs.forList fun l => ∀ t : List ℤ, t.Sublist l → InRange t.prod
    | .reSum => lhs.forList fun l => ∀ t : List ℤ, t.Sublist l → InRange t.sum
    | .meAdd => lhs.forList fun l => rhs.forScalar fun x => ∀ y ∈ l, InRange (y + x)
    | .meMul => lhs.forList fun l => rhs.forScalar fun x => ∀ y ∈ l, InRange (y * x)
    | .meDiv => lhs.forList fun l => rhs.forScalar fun x => ∀ y ∈ l, DivFits y x
    | .loAdd => lhs.forList fun l₁ => rhs.forList fun l₂ =>
      l₁.length = l₂.length ∧ ∀ p ∈ l₁.zip l₂, InRange (p.1 + p.2)
    | .loMul => lhs.forList fun l₁ => rhs.forList fun l₂ =>
      l₁.length = l₂.length ∧ ∀ p ∈ l₁.zip l₂, InRange (p.1 * p.2)
    | .loDiv => lhs.forList fun l₁ => rhs.forList fun l₂ =>
      l₁.length = l₂.length ∧ ∀ p ∈ l₁.zip l₂, DivFits p.1 p.2
    | .loDot => lhs.forList fun l₁ => rhs.forList fun l₂ =>
      l₁.length = l₂.length ∧ (∀ p ∈ l₁.zip l₂, InRange (p.1 * p.2)) ∧
        ∀ t : List ℤ, t <+: (l₁.zip l₂).map (fun p => p.1 * p.2) → InRange t.sum
    | .soAdd => lhs.forScalar fun x₁ => rhs.forScalar fun x₂ => InRange (x₁ + x₂)
    | .soMul => lhs.forScalar fun x₁ => rhs.forScalar fun x₂ => InRange (x₁ * x₂)
    | .soDiv => lhs.forScalar fun x₁ => rhs.forScalar fun x₂ => DivFits x₁ x₂
    | .reSize | .soMax | .soMin => True
    | .invalid | .list | .scalarConst | .scalarVar => True
  | _, _ => False

/-- What an operation gives for operands that fit. The minimum and the maximum of a list are what
stands first in it, and the size is taken modulo `2 ^ 32`. -/
def exactOp (type : ExprType) (operands : List Exact) : Option Exact :=
  match operands.head?, operands.getLast? with
  | some lhs, some rhs =>
    match type with
    | .reMin | .reMax => do some (.scalar ((← lhs.list?).headD 0))
    | .reMul => do some (.scalar (← lhs.list?).prod)
    | .reSum => do some (.scalar (← lhs.list?).sum)
    | .reSize => do some (.scalar (((← lhs.list?).length : ℤ).bmod Int32.size))
    | .meAdd => do let x ← rhs.scalar?; some (.list ((← lhs.list?).map (· + x)))
    | .meMul => do let x ← rhs.scalar?; some (.list ((← lhs.list?).map (· * x)))
    | .meDiv => do let x ← rhs.scalar?; some (.list ((← lhs.list?).map (·.tdiv x)))
    | .loAdd => do some (.list (((← lhs.list?).zip (← rhs.list?)).map fun p => p.1 + p.2))
    | .loMul => do some (.list (((← lhs.list?).zip (← rhs.list?)).map fun p => p.1 * p.2))
    | .loDiv => do some (.list (((← lhs.list?).zip (← rhs.list?)).map fun p => p.1.tdiv p.2))
    | .loDot => do some (.scalar (((← lhs.list?).zip (← rhs.list?)).map fun p => p.1 * p.2).sum)
    | .soAdd => do some (.scalar ((← lhs.scalar?) + (← rhs.scalar?)))
    | .soMul => do some (.scalar ((← lhs.scalar?) * (← rhs.scalar?)))
    | .soDiv => do some (.scalar ((← lhs.scalar?).tdiv (← rhs.scalar?)))
    | .soMax => do some (.scalar (max (← lhs.scalar?) (← rhs.scalar?)))
    | .soMin => do some (.scalar (min (← lhs.scalar?) (← rhs.scalar?)))
    | .invalid | .list | .scalarConst | .scalarVar => none
  | _, _ => none

/-! ## The operations one by one -/

/-- Only the two reductions have more than one outcome. -/
theorem Outcome.eq_calculateTaskImpl {type : ExprType} {operands : List ExprResult}
    {x : Result ExprResult} (hx : Outcome operands type x)
    (htype : type ∉ [ExprType.reMul, .reSum]) : x = calculateTaskImpl type operands := by
  cases hx with
  | calculated => rfl
  | mul => simp at htype
  | sum => simp at htype

/-- What is to be known of a call: it is defined exactly if the operands fit, and then its value is
the one of `exactOp`. -/
structure Settled (type : ExprType) (operands : List ExprResult) : Prop where
  defined_iff : (∀ x, Outcome operands type x → Defined x) ↔
    OpFits type (operands.map ExprResult.exact)
  exact : OpFits type (operands.map ExprResult.exact) →
    (calculateTaskImpl type operands).toOption.map ExprResult.exact =
      exactOp type (operands.map ExprResult.exact)

namespace Settled

variable {type : ExprType} {operands : List ExprResult}

/-- An operation with one outcome -/
theorem of_computes {fits : Prop} {z : Exact}
    (h : Computes ExprResult.exact (calculateTaskImpl type operands) fits z)
    (houtcome : ∀ x, Outcome operands type x → x = calculateTaskImpl type operands)
    (hfits : OpFits type (operands.map ExprResult.exact) = fits)
    (hexact : exactOp type (operands.map ExprResult.exact) = some z) : Settled type operands where
  defined_iff := by
    rw [hfits, ← h.defined_iff]
    constructor
    · intro hall
      exact hall _ .calculated
    · intro hdefined x hx
      exact houtcome x hx ▸ hdefined
  exact := by
    rw [hfits, hexact]
    intro hf
    obtain ⟨r, hr, rfl⟩ := h.value hf
    rw [hr]
    rfl

/-- A call that throws -/
theorem of_thrown {e : Exception} (h : calculateTaskImpl type operands = .error (.thrown e))
    (houtcome : ∀ x, Outcome operands type x → x = calculateTaskImpl type operands)
    (hfits : OpFits type (operands.map ExprResult.exact) = True)
    (hexact : exactOp type (operands.map ExprResult.exact) = none) : Settled type operands where
  defined_iff := by
    rw [hfits]
    refine iff_of_true ?_ trivial
    intro x hx
    rw [houtcome x hx, h]
    exact .thrown e
  exact := by
    rw [h, hexact]
    exact fun _ => rfl

/-- A reduction, which has an outcome for each order -/
theorem of_reduce {M : Type} [CommMonoid M] {op : Scalar → Scalar → Result Scalar}
    {val : Scalar → M} {S : Set M} {init : Scalar} {l : List Scalar} {z : ℤ}
    (hop : Multiplies op val S) (hinit : val init = 1)
    (herror : ∀ x₁ x₂ fault, op x₁ x₂ = .error fault → fault = .undefined)
    (hcalculate : calculateTaskImpl type operands = do
      .ok (.scalar (← libstdcxx.reduce op init l)))
    (houtcome : ∀ x, Outcome operands type x ↔ ∃ y,
      Reduces op (init ::ₘ (l : Multiset Scalar)) y ∧ x = do .ok (.scalar (← y)))
    (hfits : OpFits type (operands.map ExprResult.exact) ↔
      ∀ t : List Scalar, t.Sublist l → (t.map val).prod ∈ S)
    (hvalue : ∀ y, val y = (l.map val).prod → y.toInt = z)
    (hexact : exactOp type (operands.map ExprResult.exact) = some (.scalar z)) :
    Settled type operands where
  defined_iff := by
    rw [hfits, ← forall_defined_iff hop hinit herror]
    constructor
    · intro hall y hy
      exact defined_map_iff.mp (hall _ ((houtcome _).mpr ⟨y, hy, rfl⟩))
    · intro hall x hx
      obtain ⟨y, hy, rfl⟩ := (houtcome x).mp hx
      exact defined_map_iff.mpr (hall y hy)
  exact := by
    rw [hfits, ← forall_ok_iff hop hinit, hexact, hcalculate]
    intro hall
    -- in particular the reduction of the library
    have hreduces := libstdcxx.reduces op init l
    obtain ⟨y, hy⟩ := hall _ hreduces
    rw [hy] at hreduces ⊢
    rw [← hvalue y (val_of_reduces hop hinit hreduces)]
    rfl

theorem reMul (l : List Scalar) (rhs : ExprResult) : Settled .reMul [.list l, rhs] := by
  refine of_reduce multiplies_mulScalar rfl (fun _ _ _ h => eq_undefined_of_intOf h) rfl ?_ ?_ ?_
    rfl
  · intro x
    constructor
    · rintro (_ | ⟨hl, hx⟩)
      · exact ⟨_, libstdcxx.reduces _ 1 l, rfl⟩
      · cases hl
        exact ⟨_, hx, rfl⟩
    · rintro ⟨y, hy, rfl⟩
      exact .mul rfl hy
  · exact forall_sublist_map
  · exact fun y h => h

theorem reSum (l : List Scalar) (rhs : ExprResult) : Settled .reSum [.list l, rhs] := by
  have hsum : ∀ t : List Scalar, (t.map fun x => Multiplicative.ofAdd x.toInt).prod =
      Multiplicative.ofAdd (t.map Int32.toInt).sum := by
    intro t
    rw [ofAdd_list_prod, List.map_map]
    rfl
  refine of_reduce multiplies_sumScalar rfl (fun _ _ _ h => eq_undefined_of_intOf h) rfl ?_ ?_ ?_
    rfl
  · intro x
    constructor
    · rintro (_ | _ | ⟨hl, hx⟩)
      · exact ⟨_, libstdcxx.reduces _ 0 l, rfl⟩
      · cases hl
        exact ⟨_, hx, rfl⟩
    · rintro ⟨y, hy, rfl⟩
      exact .sum rfl hy
  · simp only [hsum]
    exact forall_sublist_map
  · intro y h
    rw [hsum] at h
    exact h

variable {lhs rhs : ExprResult}
  (houtcome : ∀ x, Outcome [lhs, rhs] type x → x = calculateTaskImpl type [lhs, rhs])

include houtcome

/-- An operation on one list -/
theorem front (P : List ℤ → Prop) {op : List Scalar → Result Scalar} {f : List ℤ → ℤ}
    (hop : ∀ l, Computes Int32.toInt (op l) (P (l.map Int32.toInt)) (f (l.map Int32.toInt)))
    (hcalculate : calculateTaskImpl type [lhs, rhs] =
      do .ok (.scalar (← op (← lhs.getList))))
    (hfits : OpFits type [lhs.exact, rhs.exact] = lhs.exact.forList P)
    (hexact : exactOp type [lhs.exact, rhs.exact] =
      do some (.scalar (f (← lhs.exact.list?)))) : Settled type [lhs, rhs] := by
  cases lhs with
  | scalar x => exact of_thrown hcalculate houtcome hfits hexact
  | list l =>
    refine of_computes ?_ houtcome hfits hexact
    rw [hcalculate]
    exact (hop l).map fun _ => rfl

/-- An operation on a list, element by element with a scalar -/
theorem map (P : ℤ → ℤ → Prop) {op : Scalar → Scalar → Result Scalar} {f : ℤ → ℤ → ℤ}
    (hop : ∀ x₁ x₂, Computes Int32.toInt (op x₁ x₂) (P x₁.toInt x₂.toInt) (f x₁.toInt x₂.toInt))
    (hcalculate : calculateTaskImpl type [lhs, rhs] =
      do .ok (.list (← mapScalar op (← lhs.getList) (← rhs.getScalar))))
    (hfits : OpFits type [lhs.exact, rhs.exact] =
      lhs.exact.forList fun l => rhs.exact.forScalar fun x => ∀ y ∈ l, P y x)
    (hexact : exactOp type [lhs.exact, rhs.exact] =
      do let x ← rhs.exact.scalar?; some (.list ((← lhs.exact.list?).map fun y => f y x))) :
    Settled type [lhs, rhs] := by
  cases lhs with
  | scalar x => cases rhs <;> exact of_thrown hcalculate houtcome hfits hexact
  | list l =>
    cases rhs with
    | list l' => exact of_thrown hcalculate houtcome hfits hexact
    | scalar x =>
      refine of_computes ?_ houtcome hfits hexact
      rw [hcalculate]
      exact (computes_mapScalar P f hop l x).map fun _ => rfl

/-- An operation on two lists, element by element -/
theorem lists (P : ℤ → ℤ → Prop) {op : Scalar → Scalar → Result Scalar} {f : ℤ → ℤ → ℤ}
    (hop : ∀ x₁ x₂, Computes Int32.toInt (op x₁ x₂) (P x₁.toInt x₂.toInt) (f x₁.toInt x₂.toInt))
    (hcalculate : calculateTaskImpl type [lhs, rhs] =
      do .ok (.list (← zipLists op (← lhs.getList) (← rhs.getList))))
    (hfits : OpFits type [lhs.exact, rhs.exact] =
      lhs.exact.forList fun l₁ => rhs.exact.forList fun l₂ =>
        l₁.length = l₂.length ∧ ∀ p ∈ l₁.zip l₂, P p.1 p.2)
    (hexact : exactOp type [lhs.exact, rhs.exact] =
      do some (.list (((← lhs.exact.list?).zip (← rhs.exact.list?)).map fun p => f p.1 p.2))) :
    Settled type [lhs, rhs] := by
  cases lhs with
  | scalar x => exact of_thrown hcalculate houtcome hfits hexact
  | list l₁ =>
    cases rhs with
    | scalar x => exact of_thrown hcalculate houtcome hfits hexact
    | list l₂ =>
      refine of_computes ?_ houtcome hfits hexact
      rw [hcalculate]
      exact (computes_zipLists P f hop l₁ l₂).map fun _ => rfl

/-- An operation on two scalars -/
theorem scalars (P : ℤ → ℤ → Prop) {op : Scalar → Scalar → Result Scalar} {f : ℤ → ℤ → ℤ}
    (hop : ∀ x₁ x₂, Computes Int32.toInt (op x₁ x₂) (P x₁.toInt x₂.toInt) (f x₁.toInt x₂.toInt))
    (hcalculate : calculateTaskImpl type [lhs, rhs] =
      do .ok (.scalar (← op (← lhs.getScalar) (← rhs.getScalar))))
    (hfits : OpFits type [lhs.exact, rhs.exact] =
      lhs.exact.forScalar fun x₁ => rhs.exact.forScalar fun x₂ => P x₁ x₂)
    (hexact : exactOp type [lhs.exact, rhs.exact] =
      do some (.scalar (f (← lhs.exact.scalar?) (← rhs.exact.scalar?)))) :
    Settled type [lhs, rhs] := by
  cases lhs with
  | list l => exact of_thrown hcalculate houtcome hfits hexact
  | scalar x₁ =>
    cases rhs with
    | list l => exact of_thrown hcalculate houtcome hfits hexact
    | scalar x₂ =>
      refine of_computes ?_ houtcome hfits hexact
      rw [hcalculate]
      exact (hop x₁ x₂).map fun _ => rfl

omit houtcome

/-- All operations, on a front and a back -/
theorem of_pair (type : ExprType) (lhs rhs : ExprResult) : Settled type [lhs, rhs] := by
  have houtcome : type ∉ [ExprType.reMul, .reSum] → ∀ x, Outcome [lhs, rhs] type x →
      x = calculateTaskImpl type [lhs, rhs] :=
    fun htype x hx => hx.eq_calculateTaskImpl htype
  cases type with
  | invalid | list | scalarConst | scalarVar =>
    exact of_thrown rfl (houtcome (by simp)) rfl rfl
  | reMul =>
    cases lhs with
    | list l => exact reMul l rhs
    | scalar x =>
      refine of_thrown rfl (fun _ hx => ?_) rfl rfl
      cases hx with
      | calculated => rfl
      | mul hl => cases hl
  | reSum =>
    cases lhs with
    | list l => exact reSum l rhs
    | scalar x =>
      refine of_thrown rfl (fun _ hx => ?_) rfl rfl
      cases hx with
      | calculated => rfl
      | sum hl => cases hl
  | reMin | reMax =>
    exact front (houtcome (by simp)) _ computes_front rfl rfl rfl
  | reSize =>
    exact front (f := fun l => (l.length : ℤ).bmod Int32.size) (houtcome (by simp))
      (fun _ => True) computes_sizeList rfl (by cases lhs <;> rfl) rfl
  | meAdd => exact map (houtcome (by simp)) _ computes_sumScalar rfl rfl rfl
  | meMul => exact map (houtcome (by simp)) _ computes_mulScalar rfl rfl rfl
  | meDiv => exact map (houtcome (by simp)) _ computes_divScalar rfl rfl rfl
  | loAdd =>
    exact lists (houtcome (by simp)) (fun z w => InRange (z + w)) computes_sumScalar
      rfl rfl rfl
  | loMul =>
    exact lists (houtcome (by simp)) (fun z w => InRange (z * w)) computes_mulScalar
      rfl rfl rfl
  | loDiv =>
    exact lists (houtcome (by simp)) DivFits computes_divScalar rfl rfl rfl
  | loDot =>
    have hsingle := houtcome (by simp)
    cases lhs with
    | scalar x => exact of_thrown rfl hsingle rfl rfl
    | list l₁ =>
      cases rhs with
      | scalar x => exact of_thrown rfl hsingle rfl rfl
      | list l₂ => exact of_computes ((computes_dot l₁ l₂).map fun _ => rfl) hsingle rfl rfl
  | soAdd => exact scalars (houtcome (by simp)) _ computes_sumScalar rfl rfl rfl
  | soMul => exact scalars (houtcome (by simp)) _ computes_mulScalar rfl rfl rfl
  | soDiv => exact scalars (houtcome (by simp)) _ computes_divScalar rfl rfl rfl
  | soMax =>
    exact scalars (houtcome (by simp)) (fun _ _ => True) computes_maxScalar rfl
      (by cases lhs <;> cases rhs <;> rfl) rfl
  | soMin =>
    exact scalars (houtcome (by simp)) (fun _ _ => True) computes_minScalar rfl
      (by cases lhs <;> cases rhs <;> rfl) rfl

end Settled

/-- Nothing but the front and the back is looked at. -/
theorem calculateTaskImpl_congr (type : ExprType) {operands operands' : List ExprResult}
    (hhead : operands'.head? = operands.head?) (hlast : operands'.getLast? = operands.getLast?) :
    calculateTaskImpl type operands' = calculateTaskImpl type operands := by
  rw [calculateTaskImpl, calculateTaskImpl, hhead, hlast]

theorem Outcome.congr {type : ExprType} {operands operands' : List ExprResult}
    {x : Result ExprResult} (hx : Outcome operands type x)
    (hhead : operands'.head? = operands.head?) (hlast : operands'.getLast? = operands.getLast?) :
    Outcome operands' type x := by
  cases hx with
  | calculated => exact calculateTaskImpl_congr type hhead hlast ▸ .calculated
  | mul hl hx => exact .mul (hhead ▸ hl) hx
  | sum hl hx => exact .sum (hhead ▸ hl) hx

theorem Settled.congr {type : ExprType} {operands operands' : List ExprResult}
    (h : Settled type operands) (hhead : operands'.head? = operands.head?)
    (hlast : operands'.getLast? = operands.getLast?) : Settled type operands' := by
  have hfits : OpFits type (operands'.map ExprResult.exact) =
      OpFits type (operands.map ExprResult.exact) := by
    simp only [OpFits, List.head?_map, List.getLast?_map, hhead, hlast]
  have hexact : exactOp type (operands'.map ExprResult.exact) =
      exactOp type (operands.map ExprResult.exact) := by
    simp only [exactOp, List.head?_map, List.getLast?_map, hhead, hlast]
  have houtcome : ∀ x, Outcome operands' type x ↔ Outcome operands type x :=
    fun x => ⟨fun hx => hx.congr hhead.symm hlast.symm, fun hx => hx.congr hhead hlast⟩
  refine ⟨?_, ?_⟩
  · rw [hfits, ← h.defined_iff]
    exact forall_congr' fun x => imp_congr_left (houtcome x)
  · rw [hfits, calculateTaskImpl_congr type hhead hlast, hexact]
    exact h.exact

/-- **When a call is defined.** Whatever the operands are: in every outcome the call throws or has
all its operations defined if and only if the operands fit, and what it gives then is the value of
the operation on the integers. -/
theorem settled (type : ExprType) (operands : List ExprResult) : Settled type operands := by
  cases operands with
  | nil =>
    -- `front()` and `back()` of an empty vector
    exact ⟨iff_of_false (fun h => (h _ .calculated).2 rfl) fun h => h, fun h => h.elim⟩
  | cons lhs rest =>
    have hpair := Settled.of_pair type lhs (rest.getLast?.getD lhs)
    exact hpair.congr rfl List.getLast?_cons

end ThreadPool
end TaskDispatch
