import Mathlib
import TaskDispatch.Worker.ThreadPool

/-!
# The extremum of a list

`re_min` and `re_max` should find what folding `so_min` and `so_max` over the list finds, an
element that no other is beyond. The fold does (`Selects.foldl`). The two reductions take the
minimum of the two iterators where `std::min_element` and `std::max_element` were due, and so give
the first element, which is right exactly when it is the extremum (`extremum_iff`).
-/

set_option autoImplicit false

namespace TaskDispatch

/-! ## Folding a choice -/

/-- `op` gives one of its arguments, and the one that is ahead in the order `le`. -/
structure Selects (op : Scalar → Scalar → Scalar) (le : Scalar → Scalar → Prop) : Prop where
  choice : ∀ x y, op x y = x ∨ op x y = y
  left : ∀ x y, le (op x y) x
  right : ∀ x y, le (op x y) y
  refl : ∀ x, le x x
  trans : ∀ x y z, le x y → le y z → le x z
  antisymm : ∀ x y, le x y → le y x → x = y

namespace Selects

variable {op : Scalar → Scalar → Scalar} {le : Scalar → Scalar → Prop}

/-- The fold gives an element that is ahead of all. -/
theorem foldl (h : Selects op le) (x : Scalar) (l : List Scalar) :
    l.foldl op x ∈ x :: l ∧ ∀ y ∈ x :: l, le (l.foldl op x) y := by
  induction l generalizing x with
  | nil => simpa using h.refl x
  | cons z l ih =>
    obtain ⟨hmem, hle⟩ := ih (op x z)
    have hstep := hle (op x z) List.mem_cons_self
    rw [List.foldl_cons]
    constructor
    · rcases List.mem_cons.mp hmem with heq | hmem
      · rcases h.choice x z with hx | hz
        · rw [heq, hx]
          exact List.mem_cons_self
        · rw [heq, hz]
          exact List.mem_cons_of_mem _ List.mem_cons_self
      · exact List.mem_cons_of_mem _ (List.mem_cons_of_mem _ hmem)
    · intro y hy
      rcases List.mem_cons.mp hy with rfl | hy
      · exact h.trans _ _ _ hstep (h.left y z)
      · rcases List.mem_cons.mp hy with rfl | hy
        · exact h.trans _ _ _ hstep (h.right x y)
        · exact hle y (List.mem_cons_of_mem _ hy)

/-- So it gives the first element when that is ahead of the others. -/
theorem foldl_eq_iff (h : Selects op le) (x : Scalar) (l : List Scalar) :
    l.foldl op x = x ↔ ∀ y ∈ l, le x y := by
  obtain ⟨hmem, hle⟩ := h.foldl x l
  constructor
  · intro heq y hy
    rw [← heq]
    exact hle y (List.mem_cons_of_mem _ hy)
  · intro hx
    apply h.antisymm _ _ (hle x List.mem_cons_self)
    rcases List.mem_cons.mp hmem with heq | hmem
    · rw [heq]
      exact h.refl x
    · exact hx _ hmem

end Selects

namespace Domain

theorem selects_minScalar : Selects minScalar (· ≤ ·) where
  choice x y := by
    unfold minScalar
    split <;> simp
  left x y := by
    unfold minScalar
    split
    · rename_i h
      exact Int32.le_of_lt h
    · exact Int32.le_refl x
  right x y := by
    unfold minScalar
    split
    · exact Int32.le_refl y
    · rename_i h
      exact Int32.not_lt.mp h
  refl := Int32.le_refl
  trans _ _ _ := Int32.le_trans
  antisymm _ _ := Int32.le_antisymm

theorem selects_maxScalar : Selects maxScalar (fun x y => y ≤ x) where
  choice x y := by
    unfold maxScalar
    split <;> simp
  left x y := by
    unfold maxScalar
    split
    · rename_i h
      exact Int32.le_of_lt h
    · exact Int32.le_refl x
  right x y := by
    unfold maxScalar
    split
    · exact Int32.le_refl y
    · rename_i h
      exact Int32.not_lt.mp h
  refl := Int32.le_refl
  trans _ _ _ hxy hyz := Int32.le_trans hyz hxy
  antisymm _ _ hxy hyx := Int32.le_antisymm hyx hxy

/-- What the two reductions come to: `begin()` is the smaller iterator. -/
theorem minList_cons (x : Scalar) (l : List Scalar) : minList (x :: l) = .ok x := by
  rw [minList, Nat.zero_min]
  rfl

theorem maxList_cons (x : Scalar) (l : List Scalar) : maxList (x :: l) = .ok x := minList_cons x l

end Domain

/-! ## The two reductions -/

namespace ThreadPool

/-- The list, reduced by tasks of a scalar operation one after the other. -/
def foldTasks (type : ExprType) : List Scalar → Result ExprResult
  | [] => .error .undefined
  | x :: l => l.foldlM (fun acc y => calculateTaskImpl type [acc, .scalar y]) (.scalar x)

/-- The reduction gives an element ahead of all in the order `le`, and its task what folding the
scalar operation gives. -/
def FindsExtremum (reduction : List Scalar → Result Scalar) (type scalarType : ExprType)
    (le : Scalar → Scalar → Prop) (l : List Scalar) : Prop :=
  (∃ m, reduction l = .ok m ∧ m ∈ l ∧ ∀ y ∈ l, le m y) ∧
    calculateTaskImpl type [.list l] = foldTasks scalarType l

def FindsMinimum (l : List Scalar) : Prop :=
  FindsExtremum Domain.minList .reMin .soMin (· ≤ ·) l

def FindsMaximum (l : List Scalar) : Prop :=
  FindsExtremum Domain.maxList .reMax .soMax (fun m y => y ≤ m) l

section Extremum

variable {op : Scalar → Scalar → Scalar} {le : Scalar → Scalar → Prop} {type scalarType : ExprType}
  {reduction : List Scalar → Result Scalar}

theorem foldTasks_cons
    (htask : ∀ x y, calculateTaskImpl scalarType [.scalar x, .scalar y] = .ok (.scalar (op x y)))
    (x : Scalar) (l : List Scalar) :
    foldTasks scalarType (x :: l) = .ok (.scalar (l.foldl op x)) := by
  rw [foldTasks]
  induction l generalizing x with
  | nil => rfl
  | cons y l ih => rw [List.foldlM_cons, htask, Result.ok_bind, ih, List.foldl_cons]

/-- A reduction that gives the first element is right when that one is ahead of the others. -/
theorem findsExtremum_iff (hselects : Selects op le)
    (hscalar : ∀ x y, calculateTaskImpl scalarType [.scalar x, .scalar y] = .ok (.scalar (op x y)))
    (hreduction : ∀ x l, reduction (x :: l) = .ok x)
    (htask : ∀ x l, calculateTaskImpl type [.list (x :: l)] = .ok (.scalar x))
    (x : Scalar) (l : List Scalar) :
    FindsExtremum reduction type scalarType le (x :: l) ↔ ∀ y ∈ l, le x y := by
  rw [FindsExtremum, hreduction, htask, foldTasks_cons hscalar, Except.ok.injEq,
    ExprResult.scalar.injEq, eq_comm (a := x), hselects.foldl_eq_iff]
  constructor
  · exact fun h => h.2
  · intro hx
    refine ⟨⟨x, rfl, List.mem_cons_self, ?_⟩, hx⟩
    intro y hy
    rcases List.mem_cons.mp hy with rfl | hy
    · exact hselects.refl y
    · exact hx y hy

end Extremum

/-- **When the extremum of a list is found**: by `re_min` exactly where the first element is the
least, by `re_max` exactly where it is the greatest. -/
theorem extremum_iff (x : Scalar) (l : List Scalar) :
    (FindsMinimum (x :: l) ↔ ∀ y ∈ l, x ≤ y) ∧ (FindsMaximum (x :: l) ↔ ∀ y ∈ l, y ≤ x) := by
  have htask : ∀ x l, calculateTaskImpl .reMin [.list (x :: l)] = .ok (.scalar x) := by
    intro x l
    simp [calculateTaskImpl, ExprResult.getList, Domain.minList_cons]
  have htask' : ∀ x l, calculateTaskImpl .reMax [.list (x :: l)] = .ok (.scalar x) := by
    intro x l
    simp [calculateTaskImpl, ExprResult.getList, Domain.maxList_cons]
  constructor
  · exact findsExtremum_iff Domain.selects_minScalar (fun _ _ => rfl) Domain.minList_cons htask x l
  · exact findsExtremum_iff Domain.selects_maxScalar (fun _ _ => rfl) Domain.maxList_cons htask' x l

/-- The first of two elements is given for their minimum and for their maximum. -/
theorem extremum_missed : ¬FindsMinimum [2, 1] ∧ ¬FindsMaximum [1, 2] := by
  constructor
  · rintro ⟨⟨m, hm, -, hle⟩, -⟩
    obtain rfl : 2 = m := Except.ok.inj hm
    exact absurd (hle 1 (by simp)) (by decide)
  · rintro ⟨⟨m, hm, -, hle⟩, -⟩
    obtain rfl : 1 = m := Except.ok.inj hm
    exact absurd (hle 2 (by simp)) (by decide)

end ThreadPool
end TaskDispatch
