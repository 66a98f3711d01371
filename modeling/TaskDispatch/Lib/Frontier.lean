import Mathlib.Data.Set.Insert
import Mathlib.Logic.Relation
import Mathlib.Order.BooleanAlgebra.Set
import Mathlib.Order.WellFounded
import Mathlib.Tactic.Common

/-!
# Scheduling a rooted dependency graph

A task may start when everything it depends on is completed. The tasks that may start, less those
already taken up, are the *frontier*, and a scheduler that recomputes it from scratch after every
completion keeps three sets: what is completed, what is being processed, and what has been found
computable and not yet been handed out.

`Coherent` is what such a scheduler preserves. It pins the third set down by the first two, so
after everything computable has been handed out the state depends on the completed set alone
(`Coherent.processing_send`); and because the graph is well founded below its root, some task is
computable or in process as long as the root is not completed (`Coherent.exists_open`).
-/

set_option autoImplicit false

namespace Frontier

universe u
variable {V : Type u}

/-- Everything `v` depends on is in `C`. -/
def Enabled (deps : V → List V) (C : Set V) (v : V) : Prop := ∀ u ∈ deps v, u ∈ C

theorem Enabled.mono {deps : V → List V} {C D : Set V} {v : V} (h : Enabled deps C v)
    (hCD : C ⊆ D) : Enabled deps D v := fun u hu => hCD (h u hu)

/-- A dependency graph without cycles in which the root depends on every vertex, directly or
not. Lists of dependencies keep their order and repetitions. -/
structure RootedDag (V : Type u) where
  vertices : Set V
  deps : V → List V
  root : V
  wf : WellFounded fun u v => u ∈ deps v
  root_mem : root ∈ vertices
  deps_mem : ∀ v ∈ vertices, ∀ u ∈ deps v, u ∈ vertices
  root_reaches : ∀ v ∈ vertices, Relation.ReflTransGen (fun v u => u ∈ deps v) root v

/-- The three sets of the scheduler. -/
@[ext] structure Schedule (V : Type u) where
  completed : Set V
  processing : Set V
  computable : Set V

namespace RootedDag

variable (G : RootedDag V)

/-- The vertices that may start when `C` is completed, less those in `X`. -/
def frontier (C X : Set V) : Set V := {v ∈ G.vertices | v ∉ C ∧ v ∉ X ∧ Enabled G.deps C v}

/-- A set that contains what its members depend on, and the root, contains every vertex. -/
theorem vertices_subset {C : Set V} (hC : ∀ v ∈ C, Enabled G.deps C v) (hroot : G.root ∈ C) :
    G.vertices ⊆ C := by
  intro v hv
  have hreach := G.root_reaches v hv
  clear hv
  induction hreach with
  | refl => exact hroot
  | tail _ hu ih => exact hC _ ih _ hu

/-- **Progress.** Whatever is completed, as long as the root is not, some vertex may start: take a
minimal one that is not completed. -/
theorem frontier_nonempty {C : Set V} (hroot : G.root ∉ C) : (G.frontier C ∅).Nonempty := by
  obtain ⟨v, ⟨hv, hvC⟩, hmin⟩ :=
    G.wf.has_min {v | v ∈ G.vertices ∧ v ∉ C} ⟨G.root, G.root_mem, hroot⟩
  refine ⟨v, hv, hvC, Set.notMem_empty v, ?_⟩
  intro u hu
  by_contra huC
  exact hmin u ⟨G.deps_mem v hv u hu, huC⟩ hu

/-- **Stability.** Completing more vertices keeps those that may start. -/
theorem frontier_mono {C D X : Set V} (hCD : C ⊆ D) {v : V} (h : v ∈ G.frontier C X)
    (hD : v ∉ D) : v ∈ G.frontier D X :=
  ⟨h.1, hD, h.2.2.1, h.2.2.2.mono hCD⟩

/-- What depends on nothing is completed, and the rest of the state is computed from it. -/
def start : Schedule V where
  completed := {v ∈ G.vertices | G.deps v = []}
  processing := ∅
  computable := G.frontier {v ∈ G.vertices | G.deps v = []} ∅

/-- Hand out everything computable. -/
def send (s : Schedule V) : Schedule V where
  completed := s.completed
  processing := s.processing ∪ s.computable
  computable := ∅

/-- `v` is reported done, and the frontier is recomputed from scratch. -/
def reply (s : Schedule V) (v : V) : Schedule V where
  completed := insert v s.completed
  processing := s.processing \ {v}
  computable := G.frontier (insert v s.completed) (s.processing \ {v})

/-- The root is reported done; nothing is left to compute. -/
def finish (s : Schedule V) : Schedule V where
  completed := insert G.root s.completed
  processing := s.processing \ {G.root}
  computable := s.computable

end RootedDag

open RootedDag (send)

/-- The computable set is exactly the frontier beyond what is completed or in process, what is in
process may indeed start, and completed vertices depend on completed ones only. -/
structure Coherent (G : RootedDag V) (s : Schedule V) : Prop where
  completed_subset : s.completed ⊆ G.vertices
  completed_closed : ∀ v ∈ s.completed, Enabled G.deps s.completed v
  processing_subset : s.processing ⊆ G.frontier s.completed ∅
  computable_eq : s.computable = G.frontier s.completed s.processing

namespace Coherent

variable {G : RootedDag V} {s : Schedule V} {v : V}

theorem start (G : RootedDag V) : Coherent G G.start where
  completed_subset := fun _ h => h.1
  completed_closed := fun v h u hu => by simp [h.2] at hu
  processing_subset := Set.empty_subset _
  computable_eq := rfl

theorem notMem_completed (h : Coherent G s) (hv : v ∈ s.processing) : v ∉ s.completed :=
  (h.processing_subset hv).2.1

theorem mem_vertices (h : Coherent G s) (hv : v ∈ s.processing ∪ s.completed) :
    v ∈ G.vertices :=
  hv.elim (fun hv => (h.processing_subset hv).1) (fun hv => h.completed_subset hv)

/-- After handing out, what is in process is the whole frontier: a function of the completed
set. -/
theorem processing_send (h : Coherent G s) :
    (send s).processing = G.frontier s.completed ∅ := by
  ext v
  simp only [send, h.computable_eq]
  constructor
  · rintro (hv | ⟨hv, hC, -, hen⟩)
    · exact h.processing_subset hv
    · exact ⟨hv, hC, Set.notMem_empty v, hen⟩
  · rintro ⟨hv, hC, -, hen⟩
    by_cases hp : v ∈ s.processing
    · exact .inl hp
    · exact .inr ⟨hv, hC, hp, hen⟩

protected theorem send (h : Coherent G s) : Coherent G (send s) where
  completed_subset := h.completed_subset
  completed_closed := h.completed_closed
  processing_subset := h.processing_send.subset
  computable_eq := by
    rw [h.processing_send]
    ext v
    simp only [send, Set.mem_empty_iff_false, false_iff]
    rintro ⟨hv, hC, hX, hen⟩
    exact hX ⟨hv, hC, Set.notMem_empty v, hen⟩

theorem enabled_of_open (h : Coherent G s) (hv : v ∈ s.processing ∪ s.completed) :
    Enabled G.deps s.completed v :=
  hv.elim (fun hv => (h.processing_subset hv).2.2.2) (h.completed_closed v)

theorem closed_insert (h : Coherent G s) (hv : v ∈ s.processing ∪ s.completed) :
    ∀ w ∈ insert v s.completed, Enabled G.deps (insert v s.completed) w := by
  rintro w (rfl | hw)
  · exact (h.enabled_of_open hv).mono (Set.subset_insert _ _)
  · exact (h.completed_closed w hw).mono (Set.subset_insert _ _)

theorem processing_diff_subset (h : Coherent G s) :
    s.processing \ {v} ⊆ G.frontier (insert v s.completed) ∅ := by
  rintro w ⟨hw, hne⟩
  exact G.frontier_mono (Set.subset_insert _ _) (h.processing_subset hw)
    (fun hin => hin.elim hne (h.notMem_completed hw))

/-- A reply for a vertex that was handed out keeps coherence, also when it is repeated. -/
protected theorem reply (h : Coherent G s) (hv : v ∈ s.processing ∪ s.completed) :
    Coherent G (G.reply s v) where
  completed_subset := Set.insert_subset (h.mem_vertices hv) h.completed_subset
  completed_closed := h.closed_insert hv
  processing_subset := h.processing_diff_subset
  computable_eq := rfl

theorem insert_completed (hv : v ∈ s.completed) : insert v s.completed = s.completed :=
  Set.insert_eq_of_mem hv

theorem processing_diff (h : Coherent G s) (hv : v ∈ s.completed) :
    s.processing \ {v} = s.processing := by
  ext w
  simp only [Set.mem_sdiff, Set.mem_singleton_iff, and_iff_left_iff_imp]
  rintro hw rfl
  exact h.notMem_completed hw hv

/-- When the root is in process everything else is completed. -/
theorem of_root_processing (h : Coherent G s) (hroot : G.root ∈ s.processing) :
    (∀ v ∈ G.vertices, v ≠ G.root → v ∈ s.completed) ∧ s.processing = {G.root} ∧
      s.computable = ∅ := by
  have hall : G.vertices ⊆ insert G.root s.completed :=
    G.vertices_subset (h.closed_insert (.inl hroot)) (Set.mem_insert _ _)
  have hrest : ∀ v ∈ G.vertices, v ≠ G.root → v ∈ s.completed :=
    fun v hv hne => (hall hv).resolve_left hne
  refine ⟨hrest, ?_, ?_⟩
  · refine Set.eq_singleton_iff_unique_mem.mpr ⟨hroot, ?_⟩
    intro v hv
    by_contra hne
    exact h.notMem_completed hv (hrest v (h.processing_subset hv).1 hne)
  · rw [h.computable_eq, Set.eq_empty_iff_forall_notMem]
    rintro v ⟨hv, hC, hX, -⟩
    by_cases hne : v = G.root
    · exact hX (hne ▸ hroot)
    · exact hC (hrest v hv hne)

/-- The reply for the root keeps coherence although the frontier is not recomputed. -/
protected theorem finish (h : Coherent G s) (hroot : G.root ∈ s.processing ∪ s.completed) :
    Coherent G (G.finish s) where
  completed_subset := Set.insert_subset G.root_mem h.completed_subset
  completed_closed := h.closed_insert hroot
  processing_subset := h.processing_diff_subset
  computable_eq := by
    rcases hroot with hp | hc
    · have hall : G.vertices ⊆ insert G.root s.completed :=
        G.vertices_subset (h.closed_insert (.inl hp)) (Set.mem_insert _ _)
      rw [RootedDag.finish, (h.of_root_processing hp).2.2, eq_comm,
        Set.eq_empty_iff_forall_notMem]
      exact fun v hv => hv.2.1 (hall hv.1)
    · simp only [RootedDag.finish, insert_completed hc, h.processing_diff hc, h.computable_eq]

/-- As long as the root is not completed, some vertex is computable or in process. -/
theorem exists_open (h : Coherent G s) (hroot : G.root ∉ s.completed) :
    ∃ v, v ∈ s.computable ∨ v ∈ s.processing := by
  obtain ⟨v, hv, hC, -, hen⟩ := G.frontier_nonempty hroot
  refine ⟨v, ?_⟩
  by_cases hp : v ∈ s.processing
  · exact .inr hp
  · exact .inl (h.computable_eq ▸ ⟨hv, hC, hp, hen⟩)

end Coherent
end Frontier
