import Mathlib
import TaskDispatch.Common.Domain
import TaskDispatch.Lib.Reduction

/-!
# When the operations are defined

The operations of `common/domain` rest on more than they check: divisors, elements to point at, and
results that fit an `int`; what they check, the lengths of two lists, they check by `assert`. Each
is defined where a condition on the integers behind its operands holds, and where it is it gives
the value of the operation on the integers (`Computes`). `std::reduce` is free in how it groups its
elements, so it is defined where no part of the list has a product or a sum that is out of range
(`forall_defined_iff`).
-/

set_option autoImplicit false

namespace TaskDispatch

open Reduction

namespace Result

/-- The call returns or throws: it fails no assertion, and no operation in it is undefined. -/
def Defined {α : Type} (x : Result α) : Prop := x ≠ .error .aborted ∧ x ≠ .error .undefined

variable {α β γ δ : Type} {val : α → β} {x : Result α} {fits fits' : Prop} {z : β}

theorem Defined.ok (a : α) : Defined (.ok a : Result α) := ⟨by simp, by simp⟩

theorem Defined.thrown (e : Exception) : Defined (.error (.thrown e) : Result α) :=
  ⟨by simp, by simp⟩

theorem Defined.of_bind {f : α → Result β} (h : Defined (x >>= f)) : Defined x := by
  constructor
  · rintro rfl
    exact h.1 rfl
  · rintro rfl
    exact h.2 rfl

theorem defined_map_iff {f : α → β} : Defined (x >>= fun a => .ok (f a)) ↔ Defined x := by
  cases x with
  | ok a => exact iff_of_true (.ok _) (.ok _)
  | error fault => simp [Defined]

/-- The computation gives a value that stands for `z` if the condition holds, and is not defined if
it does not. -/
structure Computes (val : α → β) (x : Result α) (fits : Prop) (z : β) : Prop where
  value : fits → ∃ a, x = .ok a ∧ val a = z
  fits_of_defined : Defined x → fits

namespace Computes

theorem defined_iff (h : Computes val x fits z) : Defined x ↔ fits := by
  refine ⟨h.fits_of_defined, fun hfits => ?_⟩
  obtain ⟨a, rfl, -⟩ := h.value hfits
  exact .ok a

theorem ok (a : α) : Computes val (.ok a) True (val a) where
  value _ := ⟨a, rfl, rfl⟩
  fits_of_defined _ := trivial

theorem congr (h : Computes val x fits z) (hiff : fits ↔ fits') : Computes val x fits' z where
  value hfits := h.value (hiff.mpr hfits)
  fits_of_defined hdefined := hiff.mp (h.fits_of_defined hdefined)

/-- What is not defined need not fit. -/
theorem undefined (hx : ¬Defined x) (hfits : ¬fits) : Computes val x fits z where
  value h := absurd h hfits
  fits_of_defined h := absurd h hx

theorem map (h : Computes val x fits z) {g : α → γ} {val' : γ → δ} {g' : β → δ}
    (hg : ∀ a, val' (g a) = g' (val a)) :
    Computes val' (x >>= fun a => .ok (g a)) fits (g' z) where
  value hfits := by
    obtain ⟨a, rfl, rfl⟩ := h.value hfits
    exact ⟨g a, rfl, hg a⟩
  fits_of_defined hdefined := h.fits_of_defined hdefined.of_bind

/-- One computation after the other -/
theorem bind (h : Computes val x fits z) {f : α → Result γ} {val' : γ → δ} {w : δ}
    (hf : ∀ a, val a = z → Computes val' (f a) fits' w) :
    Computes val' (x >>= f) (fits ∧ fits') w where
  value hfits := by
    obtain ⟨a, rfl, ha⟩ := h.value hfits.1
    exact (hf a ha).value hfits.2
  fits_of_defined hdefined := by
    have hfits := h.fits_of_defined hdefined.of_bind
    obtain ⟨a, rfl, ha⟩ := h.value hfits
    exact ⟨hfits, (hf a ha).fits_of_defined hdefined⟩

theorem mapM {ι : Type} {f : ι → Result α} {P : ι → Prop} {g : ι → β} {l : List ι}
    (h : ∀ i, Computes val (f i) (P i) (g i)) :
    Computes (List.map val) (l.mapM f) (∀ i ∈ l, P i) (l.map g) := by
  induction l with
  | nil =>
    rw [List.mapM_nil]
    exact (ok []).congr (by simp)
  | cons i l ih =>
    rw [List.mapM_cons]
    have hrest : ∀ a, val a = g i → Computes (List.map val)
        (l.mapM f >>= fun as => .ok (a :: as)) (∀ i ∈ l, P i) (g i :: l.map g) := by
      rintro a ha
      rw [← ha]
      exact ih.map fun as => List.map_cons
    exact ((h i).bind hrest).congr List.forall_mem_cons.symm

end Computes
end Result

namespace Domain

open Result

/-! ## Arithmetic -/

/-- The integer is the value of an `int`. -/
def InRange (z : ℤ) : Prop := Int32.minValue.toInt ≤ z ∧ z ≤ Int32.maxValue.toInt

instance (z : ℤ) : Decidable (InRange z) := inferInstanceAs (Decidable (_ ∧ _))

/-- The two divisions of `int`s that are not defined are the one by zero and `INT_MIN / -1`. -/
def DivFits (z w : ℤ) : Prop := w ≠ 0 ∧ ¬(z = Int32.minValue.toInt ∧ w = -1)

instance (z w : ℤ) : Decidable (DivFits z w) := inferInstanceAs (Decidable (_ ∧ _))

theorem inRange_toInt (x : Scalar) : InRange x.toInt := ⟨x.minValue_le_toInt, x.toInt_le⟩

theorem computes_intOf (z : ℤ) : Computes Int32.toInt (intOf z) (InRange z) z where
  value h := by
    refine ⟨_, if_pos h, Int32.toInt_ofInt_of_le h.1 ?_⟩
    exact Int.lt_of_le_sub_one h.2
  fits_of_defined hdefined := by
    by_contra h
    exact hdefined.2 (if_neg h)

theorem computes_sumScalar (x₁ x₂ : Scalar) : Computes Int32.toInt (sumScalar x₁ x₂)
    (InRange (x₁.toInt + x₂.toInt)) (x₁.toInt + x₂.toInt) := computes_intOf _

theorem computes_mulScalar (x₁ x₂ : Scalar) : Computes Int32.toInt (mulScalar x₁ x₂)
    (InRange (x₁.toInt * x₂.toInt)) (x₁.toInt * x₂.toInt) := computes_intOf _

/-- A quotient is in range but for `INT_MIN / -1`. -/
theorem inRange_tdiv_iff {z w : ℤ} (hz : InRange z) (hw : w ≠ 0) :
    InRange (z.tdiv w) ↔ ¬(z = Int32.minValue.toInt ∧ w = -1) := by
  simp only [InRange, Int32.toInt_minValue, Int32.toInt_maxValue] at hz ⊢
  constructor
  · rintro h ⟨rfl, rfl⟩
    rw [Int.tdiv_neg, Int.tdiv_one] at h
    omega
  · intro h
    have habs : (z.tdiv w).natAbs ≤ z.natAbs := Int.natAbs_tdiv_le_natAbs z w
    refine ⟨by omega, ?_⟩
    by_contra hlarge
    -- only a divisor of size one leaves the size of the dividend
    have hz' : z.natAbs = 2 ^ 31 := by omega
    have hone : w.natAbs = 1 := by
      by_contra hne
      have hlt : z.natAbs / w.natAbs < z.natAbs := Nat.div_lt_self (by omega) (by omega)
      have hdiv : (z.tdiv w).natAbs = z.natAbs / w.natAbs := Int.natAbs_tdiv z w
      omega
    rcases Int.natAbs_eq w with hw' | hw' <;> rw [hone] at hw'
    · rw [hw', Nat.cast_one, Int.tdiv_one] at hlarge
      omega
    · exact h ⟨by omega, hw'⟩

theorem computes_divScalar (x₁ x₂ : Scalar) : Computes Int32.toInt (divScalar x₁ x₂)
    (DivFits x₁.toInt x₂.toInt) (x₁.toInt.tdiv x₂.toInt) := by
  unfold divScalar
  by_cases hzero : x₂ = 0
  · rw [if_pos hzero]
    refine .undefined (fun h => h.2 rfl) fun h => h.1 ?_
    rw [hzero]
    rfl
  · rw [if_neg hzero]
    have hne : x₂.toInt ≠ 0 := by
      intro h
      exact hzero (Int32.toInt_inj.mp h)
    refine (computes_intOf _).congr ?_
    rw [DivFits, inRange_tdiv_iff (inRange_toInt x₁) hne]
    exact (and_iff_right hne).symm

theorem toInt_maxScalar (x₁ x₂ : Scalar) :
    (maxScalar x₁ x₂).toInt = max x₁.toInt x₂.toInt := by
  unfold maxScalar
  split_ifs with h <;> rw [Int32.lt_iff_toInt_lt] at h <;> omega

theorem toInt_minScalar (x₁ x₂ : Scalar) :
    (minScalar x₁ x₂).toInt = min x₁.toInt x₂.toInt := by
  unfold minScalar
  split_ifs with h <;> rw [Int32.lt_iff_toInt_lt] at h <;> omega

theorem computes_maxScalar (x₁ x₂ : Scalar) : Computes Int32.toInt (.ok (maxScalar x₁ x₂)) True
    (max x₁.toInt x₂.toInt) := toInt_maxScalar x₁ x₂ ▸ .ok _

theorem computes_minScalar (x₁ x₂ : Scalar) : Computes Int32.toInt (.ok (minScalar x₁ x₂)) True
    (min x₁.toInt x₂.toInt) := toInt_minScalar x₁ x₂ ▸ .ok _

/-- What an iterator to the front points at. -/
theorem computes_front (l : List Scalar) : Computes Int32.toInt (derefIterator l (min 0 l.length))
    (l.map Int32.toInt ≠ []) ((l.map Int32.toInt).headD 0) := by
  rw [Nat.zero_min]
  cases l with
  | nil => exact .undefined (fun h => h.2 rfl) (by simp)
  | cons x l => exact (Computes.ok x).congr (by simp)

theorem toInt_sizeList (l : List Scalar) :
    (sizeList l).toInt = ((l.map Int32.toInt).length : ℤ).bmod Int32.size := by
  rw [sizeList, Int32.toInt_ofNat', List.length_map]

theorem computes_sizeList (l : List Scalar) : Computes Int32.toInt (.ok (sizeList l)) True
    (((l.map Int32.toInt).length : ℤ).bmod Int32.size) := toInt_sizeList l ▸ .ok _

/-! ## Lists -/

section Lists

variable {op : Scalar → Scalar → Result Scalar} (P : ℤ → ℤ → Prop) (f : ℤ → ℤ → ℤ)
  (hop : ∀ x₁ x₂, Computes Int32.toInt (op x₁ x₂) (P x₁.toInt x₂.toInt) (f x₁.toInt x₂.toInt))

include hop

theorem computes_mapScalar (l : List Scalar) (x : Scalar) :
    Computes (List.map Int32.toInt) (mapScalar op l x)
      (∀ y ∈ l.map Int32.toInt, P y x.toInt) ((l.map Int32.toInt).map fun y => f y x.toInt) := by
  rw [List.map_map]
  exact (Computes.mapM fun y => hop y x).congr (by simp)

theorem computes_zipLists (l₁ l₂ : List Scalar) :
    Computes (List.map Int32.toInt) (zipLists op l₁ l₂)
      ((l₁.map Int32.toInt).length = (l₂.map Int32.toInt).length ∧
        ∀ p ∈ (l₁.map Int32.toInt).zip (l₂.map Int32.toInt), P p.1 p.2)
      (((l₁.map Int32.toInt).zip (l₂.map Int32.toInt)).map fun p => f p.1 p.2) := by
  rw [List.length_map, List.length_map, List.zip_map, List.map_map, zipLists]
  by_cases hlength : l₁.length = l₂.length
  · rw [if_pos hlength]
    refine (Computes.mapM fun p : Scalar × Scalar => hop p.1 p.2).congr ?_
    simp only [hlength, true_and, List.forall_mem_map, Prod.map_fst, Prod.map_snd]
  · rw [if_neg hlength]
    exact .undefined (fun h => h.1 rfl) fun h => hlength h.1

end Lists

/-! ### The inner product -/

theorem forall_prefix_cons {P : List ℤ → Prop} {z : ℤ} {l : List ℤ} :
    (∀ t, t <+: z :: l → P t) ↔ P [] ∧ ∀ t, t <+: l → P (z :: t) := by
  simp only [List.prefix_cons_iff, forall_eq_or_imp, forall_exists_index, and_imp]
  refine and_congr_right fun _ => ⟨fun h t ht => h _ t rfl ht, ?_⟩
  rintro h _ t rfl ht
  exact h t ht

/-- From a partial sum on, each product has to fit, and each further partial sum. -/
theorem computes_dotFrom (l : List (Scalar × Scalar)) (acc : Scalar) :
    Computes Int32.toInt
      (l.foldlM (fun acc p => do sumScalar acc (← mulScalar p.1 p.2)) acc)
      ((∀ p ∈ l, InRange (p.1.toInt * p.2.toInt)) ∧
        ∀ t : List ℤ, t <+: l.map (fun p => p.1.toInt * p.2.toInt) → InRange (acc.toInt + t.sum))
      (acc.toInt + (l.map fun p => p.1.toInt * p.2.toInt).sum) := by
  induction l generalizing acc with
  | nil =>
    rw [List.map_nil, List.sum_nil, add_zero]
    refine (Computes.ok acc).congr ?_
    simp [inRange_toInt]
  | cons p l ih =>
    have hround : Computes Int32.toInt (do sumScalar acc (← mulScalar p.1 p.2)) _
        (acc.toInt + p.1.toInt * p.2.toInt) :=
      (computes_mulScalar p.1 p.2).bind fun x hx => hx ▸ computes_sumScalar acc x
    rw [List.foldlM_cons, List.map_cons, List.sum_cons, ← add_assoc]
    refine (hround.bind fun acc' hacc' => hacc' ▸ ih acc').congr ?_
    rw [List.forall_mem_cons, forall_prefix_cons]
    simp only [List.sum_cons, List.sum_nil, add_zero, ← add_assoc, inRange_toInt, true_and]
    constructor
    · rintro ⟨⟨hp, -⟩, hl, hsums⟩
      exact ⟨⟨hp, hl⟩, hsums⟩
    · rintro ⟨⟨hp, hl⟩, hsums⟩
      have hsum := hsums [] List.nil_prefix
      rw [List.sum_nil, add_zero] at hsum
      exact ⟨⟨hp, hsum⟩, hl, hsums⟩

theorem computes_dot (l₁ l₂ : List Scalar) : Computes Int32.toInt (dot l₁ l₂)
    ((l₁.map Int32.toInt).length = (l₂.map Int32.toInt).length ∧
      (∀ p ∈ (l₁.map Int32.toInt).zip (l₂.map Int32.toInt), InRange (p.1 * p.2)) ∧
      ∀ t : List ℤ, t <+: ((l₁.map Int32.toInt).zip (l₂.map Int32.toInt)).map
        (fun p => p.1 * p.2) → InRange t.sum)
    (((l₁.map Int32.toInt).zip (l₂.map Int32.toInt)).map fun p => p.1 * p.2).sum := by
  rw [List.length_map, List.length_map, List.zip_map, List.map_map, dot]
  by_cases hlength : l₁.length = l₂.length
  · rw [if_pos hlength]
    have hdot := computes_dotFrom (l₁.zip l₂) 0
    rw [Int32.toInt_zero, zero_add] at hdot
    refine hdot.congr ?_
    simp only [hlength, true_and, zero_add, List.forall_mem_map, Prod.map_fst, Prod.map_snd]
    rfl
  · rw [if_neg hlength]
    exact .undefined (fun h => h.1 rfl) fun h => hlength h.1

/-! ### Reductions -/

theorem multiplies_mulScalar : Multiplies mulScalar Int32.toInt {z | InRange z} where
  mem := inRange_toInt
  ok_of_mem x₁ x₂ h := (computes_mulScalar x₁ x₂).value h
  mem_of_ok x₁ x₂ y h := (computes_mulScalar x₁ x₂).fits_of_defined (h ▸ Defined.ok y)

theorem multiplies_sumScalar : Multiplies sumScalar (fun x => Multiplicative.ofAdd x.toInt)
    {m | InRange m.toAdd} where
  mem := inRange_toInt
  ok_of_mem x₁ x₂ h := (computes_sumScalar x₁ x₂).value h
  mem_of_ok x₁ x₂ y h := (computes_sumScalar x₁ x₂).fits_of_defined (h ▸ Defined.ok y)

theorem eq_undefined_of_intOf {z : ℤ} {fault : Fault} (h : intOf z = .error fault) :
    fault = .undefined := by
  unfold intOf at h
  split_ifs at h
  exact (Except.error.inj h).symm

theorem forall_sublist_map {P : List ℤ → Prop} {l : List Scalar} :
    (∀ t : List ℤ, t.Sublist (l.map Int32.toInt) → P t) ↔
      ∀ t : List Scalar, t.Sublist l → P (t.map Int32.toInt) := by
  simp only [List.sublist_map_iff]
  constructor
  · intro h t ht
    exact h _ ⟨t, ht, rfl⟩
  · rintro h _ ⟨t, ht, rfl⟩
    exact h t ht

section Reduce

variable {M : Type} [CommMonoid M] {op : Scalar → Scalar → Result Scalar} {val : Scalar → M}
  {S : Set M} {init : Scalar} (hop : Multiplies op val S) (hinit : val init = 1)

include hop hinit

/-- All reductions of a list are defined exactly if all its parts are in range. -/
theorem forall_defined_iff
    (herror : ∀ x₁ x₂ fault, op x₁ x₂ = .error fault → fault = .undefined) (l : List Scalar) :
    (∀ x, Reduces op (init ::ₘ (l : Multiset Scalar)) x → Defined x) ↔
      ∀ t : List Scalar, t.Sublist l → (t.map val).prod ∈ S := by
  rw [← forall_ok_iff hop hinit l]
  refine forall₂_congr fun x hx => ?_
  constructor
  · intro hdefined
    cases x with
    | ok y => exact ⟨y, rfl⟩
    | error fault =>
      obtain ⟨x₁, x₂, hfault⟩ := hx.exists_error rfl
      obtain rfl := herror x₁ x₂ fault hfault
      exact absurd rfl hdefined.2
  · rintro ⟨y, rfl⟩
    exact .ok y

/-- However the elements are grouped, what comes out is the product. -/
theorem val_of_reduces {l : List Scalar} {y : Scalar}
    (hy : Reduces op (init ::ₘ (l : Multiset Scalar)) (.ok y)) : val y = (l.map val).prod := by
  rw [hy.val_eq hop rfl, Multiset.map_cons, Multiset.prod_cons, hinit, one_mul, Multiset.map_coe,
    Multiset.prod_coe]

/-- So libraries that group them differently do not disagree: where two of them have a value, it is
the same. -/
theorem reduce_inj (hval : Function.Injective val) {grouping grouping' : Grouping}
    {l : List Scalar} {y y' : Scalar} (hy : grouping.reduce op init l = .ok y)
    (hy' : grouping'.reduce op init l = .ok y') : y = y' :=
  hval ((val_of_reduces hop hinit (hy ▸ grouping.reduces op init l)).trans
    (val_of_reduces hop hinit (hy' ▸ grouping'.reduces op init l)).symm)

end Reduce

/-- What another library would give for the product, if it gives something -/
theorem mulList_eq {grouping : Grouping} {l : List Scalar} {y y' : Scalar}
    (hy : mulList l = .ok y) (hy' : grouping.reduce mulScalar 1 l = .ok y') : y = y' :=
  reduce_inj multiplies_mulScalar rfl (fun _ _ => Int32.toInt_inj.mp) hy hy'

theorem sumList_eq {grouping : Grouping} {l : List Scalar} {y y' : Scalar}
    (hy : sumList l = .ok y) (hy' : grouping.reduce sumScalar 0 l = .ok y') : y = y' :=
  reduce_inj multiplies_sumScalar rfl
    (fun _ _ h => Int32.toInt_inj.mp (Multiplicative.ofAdd.injective h)) hy hy'

end Domain
end TaskDispatch
