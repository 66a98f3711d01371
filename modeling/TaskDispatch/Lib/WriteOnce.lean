import Mathlib.Data.List.DropRight
import Mathlib.Data.List.Induction
import Mathlib.Tactic.Common

/-!
# A write-once map

Values of type `V` under keys of two parts, an owner `P` and an index `T`. A write takes effect
under a free key only, and a clear removes all keys of an owner. What is under a key after any
sequence of operations can be read off the sequence: the first write to the key after the last
clear of its owner (`run_eq_firstWrite`).
-/

set_option autoImplicit false

namespace WriteOnce

universe u
variable {P T V R : Type u}

/-- Of a read only the request is kept, whatever that is. -/
inductive Op (P T V R : Type u) where
  | write (p : P) (t : T) (v : V)
  | read (request : R)
  | clear (p : P)

variable [DecidableEq P] [DecidableEq T]

/-- The map after an operation. -/
def apply (m : P → T → Option V) : Op P T V R → P → T → Option V
  | .write p t v => fun q u => if q = p ∧ u = t then (m q u).or (some v) else m q u
  | .read _ => m
  | .clear p => fun q u => if q = p then none else m q u

def run (ops : List (Op P T V R)) : P → T → Option V := ops.foldl apply fun _ _ => none

/-- The operation clears `p`. -/
def Op.clears (p : P) : Op P T V R → Bool
  | .clear q => q = p
  | _ => false

/-- What the operation writes under the key. -/
def Op.writes (p : P) (t : T) : Op P T V R → Option V
  | .write q u v => if q = p ∧ u = t then some v else none
  | _ => none

/-- The first write to the key since the last clear of `p`. -/
def firstWrite (p : P) (t : T) (ops : List (Op P T V R)) : Option V :=
  (ops.rtakeWhile fun op => !op.clears p).findSome? (Op.writes p t)

variable {p : P} {t : T} {ops : List (Op P T V R)} {op : Op P T V R}

theorem firstWrite_concat_of_clears (h : op.clears p = true) :
    firstWrite p t (ops ++ [op]) = none := by
  rw [firstWrite, List.rtakeWhile_concat_neg _ _ _ (by simp [h])]
  rfl

theorem firstWrite_concat_of_not_clears (h : op.clears p = false) :
    firstWrite p t (ops ++ [op]) = (firstWrite p t ops).or (op.writes p t) := by
  rw [firstWrite, List.rtakeWhile_concat_pos _ _ _ (by simp [h]), List.findSome?_append]
  cases hw : op.writes p t <;> simp [hw, firstWrite]

section Apply

variable (m : P → T → Option V) (q : P) (u : T) (v : V)

theorem apply_write : apply m (.write q u v : Op P T V R) p t =
    if p = q ∧ t = u then (m p t).or (some v) else m p t := rfl

theorem apply_clear : apply m (.clear q : Op P T V R) p t = if p = q then none else m p t := rfl

end Apply

/-- **The map is a function of the history.** -/
theorem run_eq_firstWrite (ops : List (Op P T V R)) (p : P) (t : T) :
    run ops p t = firstWrite p t ops := by
  induction ops using List.reverseRecOn with
  | nil => rfl
  | append_singleton ops op ih =>
    rw [run, List.foldl_append, List.foldl_cons, List.foldl_nil, ← run]
    cases op with
    | write q u v =>
      rw [firstWrite_concat_of_not_clears rfl, ← ih, apply_write]
      by_cases hkey : p = q ∧ t = u
      · rw [if_pos hkey, Op.writes, if_pos ⟨hkey.1.symm, hkey.2.symm⟩]
      · rw [if_neg hkey, Op.writes, if_neg fun h => hkey ⟨h.1.symm, h.2.symm⟩, Option.or_none]
    | read request =>
      rw [firstWrite_concat_of_not_clears rfl, ← ih]
      exact Option.or_none.symm
    | clear q =>
      have hclears : Op.clears p (.clear q : Op P T V R) = decide (q = p) := rfl
      rw [apply_clear]
      by_cases hq : p = q
      · rw [if_pos hq, firstWrite_concat_of_clears (hclears.trans (decide_eq_true hq.symm))]
      · rw [if_neg hq, firstWrite_concat_of_not_clears
          (hclears.trans (decide_eq_false (Ne.symm hq))), ← ih]
        exact Option.or_none.symm

end WriteOnce
