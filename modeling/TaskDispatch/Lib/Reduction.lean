import Mathlib.Algebra.BigOperators.Group.Multiset.Basic
import Mathlib.Tactic.Common

/-!
# Reductions in any order

The elements of a multiset are combined two by two until one is left, in an order and a grouping
that nobody fixes, by an operation that may fail. Where the operation is the product of a
commutative monoid, cut off outside of a set `S`, the order can make a difference only in whether a
reduction fails: the ones that do not all give the product (`Reduces.val_eq`), and none of them
fails exactly if no part of the multiset has its product outside of `S` (`forall_ok_iff`).
-/

set_option autoImplicit false

namespace Reduction

universe u
variable {α : Type u} {ε M : Type*}

/-- `x` is what some reduction of the multiset comes to. -/
inductive Reduces (op : α → α → Except ε α) : Multiset α → Except ε α → Prop where
  | single (a : α) : Reduces op {a} (.ok a)
  | node {s t : Multiset α} {x y : Except ε α} :
      Reduces op s x → Reduces op t y → Reduces op (s + t) (do op (← x) (← y))

variable {op : α → α → Except ε α} {s t : Multiset α} {x : Except ε α}

/-- The reduction from the left. -/
theorem Reduces.foldlM (h : Reduces op s x) (l : List α) :
    Reduces op (s + (l : Multiset α)) (do l.foldlM op (← x)) := by
  induction l generalizing s x with
  | nil =>
    rw [Multiset.coe_nil, add_zero]
    cases x with
    | ok a | error e => exact h
  | cons a l ih =>
    have hnode := ih (h.node (.single a))
    rw [add_assoc, Multiset.singleton_add, Multiset.cons_coe] at hnode
    cases x with
    | ok b | error e => exact hnode

theorem exists_reduces (op : α → α → Except ε α) (hs : s ≠ 0) : ∃ x, Reduces op s x := by
  obtain ⟨a, ha⟩ := Multiset.exists_mem_of_ne_zero hs
  obtain ⟨rest, rfl⟩ := Multiset.exists_cons_of_mem ha
  exact ⟨_, rest.coe_toList ▸ (Reduces.single a).foldlM rest.toList⟩

theorem Reduces.ne_zero (h : Reduces op s x) : s ≠ 0 := by
  induction h with
  | single a => exact Multiset.singleton_ne_zero a
  | @node s t x y _ _ ihx _ =>
    intro hzero
    exact ihx (Multiset.le_zero.mp (hzero ▸ Multiset.le_add_right s t))

/-- A reduction fails where the operation does. -/
theorem Reduces.exists_error (h : Reduces op s x) {e : ε} (he : x = .error e) :
    ∃ a b, op a b = .error e := by
  induction h with
  | single a => cases he
  | @node s t x y _ _ ihx ihy =>
    cases x with
    | error e' => exact ihx he
    | ok a =>
      cases y with
      | error e' => exact ihy he
      | ok b => exact ⟨a, b, he⟩

theorem exists_sublist_of_le {l : List α} (h : s ≤ (l : Multiset α)) :
    ∃ t : List α, (t : Multiset α) = s ∧ t.Sublist l := by
  obtain ⟨s', rfl⟩ := Quot.exists_rep s
  obtain ⟨t, hperm, hsublist⟩ := Multiset.coe_le.mp h
  exact ⟨t, Multiset.coe_eq_coe.mpr hperm, hsublist⟩

variable [CommMonoid M]

/-- The operation multiplies, and fails where the product is not in `S`. -/
structure Multiplies (op : α → α → Except ε α) (val : α → M) (S : Set M) : Prop where
  mem : ∀ a, val a ∈ S
  ok_of_mem : ∀ a b, val a * val b ∈ S → ∃ c, op a b = .ok c ∧ val c = val a * val b
  mem_of_ok : ∀ a b c, op a b = .ok c → val a * val b ∈ S

variable {val : α → M} {S : Set M}

theorem Multiplies.val_eq (h : Multiplies op val S) {a b c : α} (hc : op a b = .ok c) :
    val c = val a * val b := by
  obtain ⟨c', hc', hval⟩ := h.ok_of_mem a b (h.mem_of_ok a b c hc)
  obtain rfl := Except.ok.inj (hc.symm.trans hc')
  exact hval

/-- A reduction that does not fail gives the product. -/
theorem Reduces.val_eq (h : Multiplies op val S) (hx : Reduces op s x) {c : α} (hc : x = .ok c) :
    val c = (s.map val).prod := by
  induction hx generalizing c with
  | single a =>
    obtain rfl := Except.ok.inj hc
    simp
  | @node s t x y _ _ ihx ihy =>
    cases x with
    | error e => cases hc
    | ok a =>
      cases y with
      | error e => cases hc
      | ok b =>
        have hval : val c = val a * val b := h.val_eq hc
        rw [hval, ihx rfl, ihy rfl, Multiset.map_add, Multiset.prod_add]

/-- No reduction fails where all parts have their product in `S`. -/
theorem Reduces.ok (h : Multiplies op val S)
    (hS : ∀ t ≤ s, t ≠ 0 → (t.map val).prod ∈ S) (hx : Reduces op s x) : ∃ c, x = .ok c := by
  induction hx with
  | single a => exact ⟨a, rfl⟩
  | @node s t x y hx hy ihx ihy =>
    obtain ⟨a, rfl⟩ := ihx fun t ht => hS t (ht.trans (Multiset.le_add_right _ _))
    obtain ⟨b, rfl⟩ := ihy fun t ht => hS t (ht.trans (Multiset.le_add_left _ _))
    have hprod := hS (s + t) le_rfl (hx.node hy).ne_zero
    rw [Multiset.map_add, Multiset.prod_add, ← hx.val_eq h rfl, ← hy.val_eq h rfl] at hprod
    obtain ⟨c, hc, -⟩ := h.ok_of_mem a b hprod
    exact ⟨c, hc⟩

/-- Each part is what some reduction starts with. -/
theorem prod_mem (h : Multiplies op val S) (hall : ∀ x, Reduces op s x → ∃ c, x = .ok c)
    (hts : t ≤ s) (ht : t ≠ 0) : (t.map val).prod ∈ S := by
  obtain ⟨u, rfl⟩ := Multiset.le_iff_exists_add.mp hts
  obtain ⟨x, hx⟩ := exists_reduces op ht
  obtain ⟨a, rfl⟩ : ∃ a, x = .ok a := by
    by_cases hu : u = 0
    · subst hu
      exact hall x (by rwa [add_zero])
    · obtain ⟨y, hy⟩ := exists_reduces op hu
      obtain ⟨c, hc⟩ := hall _ (hx.node hy)
      cases x with
      | ok a => exact ⟨a, rfl⟩
      | error e => cases hc
  rw [← hx.val_eq h rfl]
  exact h.mem a

/-- **When no reduction fails**, of a list from an element that stands for one. -/
theorem forall_ok_iff (h : Multiplies op val S) {e : α} (he : val e = 1) (l : List α) :
    (∀ x, Reduces op (e ::ₘ (l : Multiset α)) x → ∃ c, x = .ok c) ↔
      ∀ t : List α, t.Sublist l → (t.map val).prod ∈ S := by
  constructor
  · intro hall t ht
    have hle : e ::ₘ (t : Multiset α) ≤ e ::ₘ (l : Multiset α) :=
      Multiset.cons_le_cons e (Multiset.coe_le.mpr ht.subperm)
    have hprod := prod_mem h hall hle (Multiset.cons_ne_zero)
    rwa [Multiset.map_cons, Multiset.prod_cons, he, one_mul] at hprod
  · intro hS x hx
    refine hx.ok h fun t ht _ => ?_
    -- the element that stands for one does not count
    obtain ⟨u, hu, hprod⟩ : ∃ u ≤ (l : Multiset α), (t.map val).prod = (u.map val).prod := by
      by_cases hmem : e ∈ t
      · obtain ⟨u, rfl⟩ := Multiset.exists_cons_of_mem hmem
        refine ⟨u, (Multiset.cons_le_cons_iff e).mp ht, ?_⟩
        rw [Multiset.map_cons, Multiset.prod_cons, he, one_mul]
      · exact ⟨t, (Multiset.le_cons_of_notMem hmem).mp ht, rfl⟩
    obtain ⟨t', rfl, ht'⟩ := exists_sublist_of_le hu
    rw [hprod, Multiset.map_coe, Multiset.prod_coe]
    exact hS t' ht'

end Reduction
