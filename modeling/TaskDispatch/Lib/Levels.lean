import TaskDispatch.Lib.Frontier

/-!
# Rounds of a scheduler

The vertices of a rooted graph lie on levels: on the first those that depend on nothing, on the next
those that depend on lower ones only. However long things take, after `n` rounds of handing out
everything computable nothing beyond level `n` has been taken up (`Within`), and a scheduler that
waits with each round for what is in process has taken up the whole of level `n` (`Covers`). So the
level of the root is the number of rounds it takes at least, and it is enough.
-/

set_option autoImplicit false

namespace Frontier

universe u
variable {V : Type u}

namespace RootedDag

variable (G : RootedDag V)

/-- What can be completed in `n` rounds. -/
def level : ℕ → Set V
  | 0 => {v ∈ G.vertices | G.deps v = []}
  | n + 1 => {v ∈ G.vertices | Enabled G.deps (level n) v}

theorem level_subset_succ (n : ℕ) : G.level n ⊆ G.level (n + 1) := by
  induction n with
  | zero =>
    rintro v ⟨hv, hdeps⟩
    refine ⟨hv, ?_⟩
    intro u hu
    rw [hdeps] at hu
    cases hu
  | succ n ih => exact fun v hv => ⟨hv.1, hv.2.mono ih⟩

/-- The frontier is no more than one level further up. -/
theorem frontier_subset_level {C X : Set V} {n : ℕ} (h : C ⊆ G.level n) :
    G.frontier C X ⊆ G.level (n + 1) :=
  fun _ hv => ⟨hv.1, hv.2.2.2.mono h⟩

end RootedDag

variable {G : RootedDag V} {s : Schedule V} {v : V} {n : ℕ}

open RootedDag (send)

/-! ## No more than a level a round -/

/-- What has been taken up lies on the first `n` levels. -/
def Within (G : RootedDag V) (s : Schedule V) (n : ℕ) : Prop :=
  s.completed ⊆ G.level n ∧ s.processing ⊆ G.level n

theorem Within.start : Within G G.start 0 := ⟨fun _ h => h, Set.empty_subset _⟩

theorem Within.send (h : Within G s n) (hcoherent : Coherent G s) :
    Within G (send s) (n + 1) := by
  refine ⟨h.1.trans (G.level_subset_succ n), ?_⟩
  rw [hcoherent.processing_send]
  exact G.frontier_subset_level h.1

/-- A reply completes what was in process, whatever is computed from it. -/
theorem Within.reply {s' : Schedule V} (h : Within G s n) (hv : v ∈ s.processing)
    (hcompleted : s'.completed = insert v s.completed)
    (hprocessing : s'.processing = s.processing \ {v}) : Within G s' n := by
  rw [Within, hcompleted, hprocessing]
  exact ⟨Set.insert_subset (h.2 hv) h.1, Set.sdiff_subset.trans h.2⟩

/-! ## No less, if every round waits for the one before -/

/-- The first `n` levels have been taken up. -/
def Covers (G : RootedDag V) (s : Schedule V) (n : ℕ) : Prop :=
  G.level n ⊆ s.completed ∪ s.processing

theorem Covers.start : Covers G G.start 0 := fun _ h => .inl h

theorem Covers.send (h : Covers G s n) (hcoherent : Coherent G s) (hdone : s.processing = ∅) :
    Covers G (send s) (n + 1) := by
  rw [Covers, hdone, Set.union_empty] at h
  intro v hv
  by_cases hC : v ∈ s.completed
  · exact .inl hC
  · -- its operands are completed, so it is handed out now
    right
    rw [hcoherent.processing_send]
    exact ⟨hv.1, hC, Set.notMem_empty v, hv.2.mono h⟩

theorem Covers.reply {s' : Schedule V} (h : Covers G s n)
    (hcompleted : s'.completed = insert v s.completed)
    (hprocessing : s'.processing = s.processing \ {v}) : Covers G s' n := by
  rw [Covers, hcompleted, hprocessing]
  intro u hu
  by_cases huv : u = v
  · exact .inl (.inl huv)
  · exact (h hu).imp .inr fun hX => ⟨hX, huv⟩

end Frontier
