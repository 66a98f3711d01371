import Mathlib.Data.List.Induction
import Mathlib.Logic.Function.Basic
import Mathlib.Tactic.Common

/-!
# Depth-first search and the order in which vertices finish

The three-colour search over a graph on the vertices `0, …, n - 1`, given by its out-edges. A
vertex is grey while its edges are being explored and is emitted when it turns black; an edge to a
grey vertex closes a cycle and stops the search. The list of finished vertices is then a
dependency order: every vertex after the targets of its edges.

`search_of_descending` is the case in which the vertices are numbered so that edges go to smaller
numbers. The search then meets black vertices only, and finishes them in numerical order.
-/

set_option autoImplicit false

namespace DepthFirst

inductive Color where
  | white
  | gray
  | black
  deriving DecidableEq, Repr

inductive Failure where
  /-- An edge to a vertex whose visit is still open: the graph has a cycle. -/
  | backEdge
  /-- The recursion went deeper than the number of vertices allows. -/
  | outOfFuel
  deriving DecidableEq, Repr

/-- The colour map and the vertices finished so far. -/
structure Visit where
  color : ℕ → Color := fun _ => .white
  finished : List ℕ := []

/-- Visit `u`: open it, follow its edges to white vertices, close it. -/
def visit (out : ℕ → List ℕ) : ℕ → ℕ → Visit → Except Failure Visit
  | 0, _, _ => .error .outOfFuel
  | fuel + 1, u, s => do
    let s ← (out u).foldlM
      (fun s v =>
        match s.color v with
        | .white => visit out fuel v s
        | .gray => .error .backEdge
        | .black => .ok s)
      { s with color := Function.update s.color u .gray }
    .ok { color := Function.update s.color u .black, finished := s.finished ++ [u] }

/-- One round of the outer loop: visit `u` if it is still white. An open vertex is never visited
again, so visits nest at most `n` deep in a graph of `n` vertices. -/
def visitIfWhite (out : ℕ → List ℕ) (n : ℕ) (s : Visit) (u : ℕ) : Except Failure Visit :=
  match s.color u with
  | .white => visit out n u s
  | _ => .ok s

/-- Visit every vertex that is still white, in numerical order. -/
def search (out : ℕ → List ℕ) (n : ℕ) : Except Failure (List ℕ) := do
  let s ← (List.range n).foldlM (visitIfWhite out n) {}
  .ok s.finished

/-- The first `k` vertices are black and finished in numerical order, the others are white. -/
def Swept (k : ℕ) (s : Visit) : Prop :=
  (∀ v, s.color v = if v < k then .black else .white) ∧ s.finished = List.range k

theorem foldlM_of_fixed {α β ε : Type} (f : β → α → Except ε β) (b : β) {l : List α}
    (h : ∀ a ∈ l, f b a = .ok b) : l.foldlM f b = .ok b := by
  induction l with
  | nil => rfl
  | cons a l ih =>
    rw [List.foldlM_cons, h a List.mem_cons_self]
    exact ih fun a ha => h a (List.mem_cons_of_mem _ ha)

/-- One visit in a swept graph: all edges lead to black vertices. -/
theorem Swept.visit {out : ℕ → List ℕ} {k : ℕ} {s : Visit} (fuel : ℕ)
    (hout : ∀ u ∈ out k, u < k) (h : Swept k s) :
    ∃ s', visit out (fuel + 1) k s = .ok s' ∧ Swept (k + 1) s' := by
  have hblack : ∀ v ∈ out k, Function.update s.color k .gray v = .black := fun v hv => by
    simp [Function.update_of_ne (Nat.ne_of_lt (hout v hv)), h.1 v, hout v hv]
  refine ⟨_, by rw [DepthFirst.visit, foldlM_of_fixed _ _ fun v hv => by simp [hblack v hv]]; rfl,
    fun v => ?_, ?_⟩
  · by_cases hv : v = k
    · simp [hv]
    · have : (v < k + 1) = (v < k) := by simp only [eq_iff_iff]; omega
      simp [Function.update_of_ne hv, h.1 v, this]
  · simp [h.2, List.range_succ]

/-- After `k ≤ n` rounds of the outer loop the first `k` vertices are finished. -/
theorem sweep {out : ℕ → List ℕ} {n : ℕ} (hout : ∀ v, ∀ u ∈ out v, u < v) :
    ∀ k ≤ n, ∃ s, (List.range k).foldlM (visitIfWhite out n) {} = .ok s ∧ Swept k s := by
  intro k
  induction k with
  | zero => exact fun _ => ⟨_, rfl, by simp, rfl⟩
  | succ k ih =>
    intro hk
    obtain ⟨s, hs, hswept⟩ := ih (by omega)
    obtain ⟨m, rfl⟩ : ∃ m, n = m + 1 := ⟨n - 1, by omega⟩
    obtain ⟨s', hs', hswept'⟩ := hswept.visit m (hout k)
    refine ⟨s', ?_, hswept'⟩
    have hround : visitIfWhite out (m + 1) s k = .ok s' := by
      rw [visitIfWhite, hswept.1 k, if_neg (Nat.lt_irrefl k)]
      exact hs'
    rw [List.range_succ, List.foldlM_append, hs]
    show (List.foldlM (visitIfWhite out (m + 1)) s [k]) = _
    rw [List.foldlM_cons, hround]
    rfl

/-- **Edges to smaller numbers: the search finishes the vertices in numerical order.** -/
theorem search_of_descending {out : ℕ → List ℕ} (n : ℕ) (hout : ∀ v, ∀ u ∈ out v, u < v) :
    search out n = .ok (List.range n) := by
  obtain ⟨s, hs, hswept⟩ := sweep hout n (Nat.le_refl n)
  unfold search
  rw [hs]
  exact congrArg Except.ok hswept.2

end DepthFirst
