import Mathlib.Data.List.Induction
import Mathlib.Data.List.Nodup
import Mathlib.Logic.Relation
import Mathlib.Tactic.Common

/-!
# Value numbering

Terms over an arbitrary type `T`, of which only the list of children is known. A *numbering*
is a list of distinct terms in which the children of a term stand before it; the number of a term
is its position. Reading a postorder list of terms from the left and recording every term not met
before builds one (`Numbering.ofList`), whatever the sharing between the terms is.

A numbering turns the terms into a graph on numbers (`Numbering.deps`). Two facts about it carry
everything a scheduler of that graph needs: edges go to smaller numbers (`deps_lt`), and what is
reachable by taking children is reachable along edges (`reachable_number`).
-/

set_option autoImplicit false

namespace ValueNumbering

universe u
variable {T : Type u}

/-- Every child of a term of the list stands before it. -/
def ChildrenFirst (children : T → List T) (ts : List T) : Prop :=
  ∀ pre t post, ts = pre ++ t :: post → ∀ c ∈ children t, c ∈ pre

variable {children : T → List T} {ts us : List T} {t : T}

theorem ChildrenFirst.nil : ChildrenFirst children ([] : List T) := by
  intro pre t post h
  simp at h

/-- Two lists one after the other: the children of the second may lie in either. -/
theorem ChildrenFirst.append (h : ChildrenFirst children ts) (h' : ChildrenFirst children us) :
    ChildrenFirst children (ts ++ us) := by
  intro pre t post e c hc
  rcases List.append_eq_append_iff.mp e with ⟨mid, rfl, hus⟩ | ⟨mid, hts, hmid⟩
  · exact List.mem_append_right _ (h' mid t post hus c hc)
  · cases mid with
    | nil =>
      obtain rfl : ts = pre := by simpa using hts
      exact absurd (h' [] t post (by simpa using hmid.symm) c hc) (by simp)
    | cons m mid =>
      simp only [List.cons_append, List.cons.injEq] at hmid
      obtain ⟨rfl, -⟩ := hmid
      exact h pre t mid hts c hc

theorem ChildrenFirst.snoc (h : ChildrenFirst children ts) (ht : ∀ c ∈ children t, c ∈ ts) :
    ChildrenFirst children (ts ++ [t]) := by
  intro pre x post e c hc
  rcases List.append_eq_append_iff.mp e with ⟨mid, rfl, hus⟩ | ⟨mid, hts, hmid⟩
  · cases mid with
    | nil =>
      simp only [List.nil_append, List.cons.injEq] at hus
      obtain ⟨rfl, -⟩ := hus
      simpa using ht c hc
    | cons m mid => simp at hus
  · cases mid with
    | nil =>
      obtain rfl : ts = pre := by simpa using hts
      simp only [List.nil_append, List.cons.injEq] at hmid
      obtain ⟨rfl, -⟩ := hmid
      exact ht c hc
    | cons m mid =>
      simp only [List.cons_append, List.cons.injEq] at hmid
      obtain ⟨rfl, -⟩ := hmid
      exact h pre x mid hts c hc

theorem ChildrenFirst.mem (h : ChildrenFirst children ts) (ht : t ∈ ts) {c : T}
    (hc : c ∈ children t) : c ∈ ts := by
  obtain ⟨pre, post, rfl⟩ := List.append_of_mem ht
  exact List.mem_append_left _ (h pre t post rfl c hc)

variable [DecidableEq T]

/-- Record `t` unless an equal term is recorded already. -/
def insertNew (rs : List T) (t : T) : List T := if t ∈ rs then rs else rs ++ [t]

@[simp] theorem mem_insertNew {rs : List T} {t x : T} :
    x ∈ insertNew rs t ↔ x ∈ rs ∨ x = t := by
  unfold insertNew
  split
  · exact ⟨Or.inl, fun h => h.elim id (fun e => e ▸ ‹t ∈ rs›)⟩
  · simp

theorem mem_foldl_insertNew {ts rs : List T} {x : T} :
    x ∈ ts.foldl insertNew rs ↔ x ∈ rs ∨ x ∈ ts := by
  induction ts generalizing rs with
  | nil => simp
  | cons t ts ih => simp [ih, or_assoc]

theorem nodup_insertNew {rs : List T} {t : T} (h : rs.Nodup) : (insertNew rs t).Nodup := by
  unfold insertNew
  split
  · exact h
  · rename_i ht
    simpa [List.nodup_append, h] using fun x hx (e : x = t) => ht (e ▸ hx)

theorem nodup_foldl_insertNew (ts : List T) : (ts.foldl insertNew []).Nodup := by
  induction ts using List.reverseRecOn with
  | nil => simp
  | append_singleton ts t ih => simpa using nodup_insertNew ih

theorem ChildrenFirst.insertNew (h : ChildrenFirst children ts)
    (ht : ∀ c ∈ children t, c ∈ ts) : ChildrenFirst children (insertNew ts t) := by
  unfold ValueNumbering.insertNew
  split
  · exact h
  · exact h.snoc ht

theorem ChildrenFirst.foldl_insertNew (h : ChildrenFirst children ts) :
    ChildrenFirst children (ts.foldl ValueNumbering.insertNew []) := by
  induction ts using List.reverseRecOn with
  | nil => exact .nil
  | append_singleton ts t ih =>
    have h' : ChildrenFirst children ts := fun pre x post e =>
      h pre x (post ++ [t]) (by simp [e])
    rw [List.foldl_append]
    refine (ih h').insertNew fun c hc => mem_foldl_insertNew.mpr (.inr ?_)
    exact h ts t [] rfl c hc

/-- Distinct terms, every child of a term before it. -/
structure Numbering (children : T → List T) where
  records : List T
  nodup : records.Nodup
  childrenFirst : ChildrenFirst children records

namespace Numbering

variable {children : T → List T} (N : Numbering children)

/-- The position of a term in the list of records. -/
def number (t : T) : ℕ := N.records.idxOf t

/-- The numbers of the children of the term with number `v`, in order, with repetitions. -/
def deps (v : ℕ) : List ℕ := ((N.records[v]?.map children).getD []).map N.number

variable {N} {t t' c : T} {u v : ℕ}

theorem number_lt (h : t ∈ N.records) : N.number t < N.records.length :=
  List.idxOf_lt_length_iff.mpr h

theorem getElem?_number (h : t ∈ N.records) : N.records[N.number t]? = some t := by
  rw [List.getElem?_eq_getElem (number_lt h)]
  exact congrArg some (List.getElem_idxOf (number_lt h))

theorem number_eq_iff (h : t ∈ N.records) : N.number t = v ↔ N.records[v]? = some t := by
  constructor
  · rintro rfl; exact getElem?_number h
  · intro hv
    obtain ⟨hlt, rfl⟩ := List.getElem?_eq_some_iff.mp hv
    exact N.nodup.idxOf_getElem v hlt

theorem deps_of_getElem? (h : N.records[v]? = some t) :
    N.deps v = (children t).map N.number := by
  simp [deps, h]

theorem deps_number (h : t ∈ N.records) : N.deps (N.number t) = (children t).map N.number :=
  deps_of_getElem? (getElem?_number h)

/-- Children are numbered before their term. -/
theorem number_child_lt (h : t ∈ N.records) (hc : c ∈ children t) :
    N.number c < N.number t := by
  obtain ⟨pre, post, e⟩ := List.append_of_mem h
  have hpre : c ∈ pre := N.childrenFirst pre t post e c hc
  have ht : t ∉ pre := by
    have hnd := N.nodup
    rw [e, List.nodup_append] at hnd
    exact fun hin => hnd.2.2 t hin t List.mem_cons_self rfl
  unfold number
  rw [e, List.idxOf_append_of_mem hpre, List.idxOf_append_of_notMem ht]
  exact Nat.lt_of_lt_of_le (List.idxOf_lt_length_iff.mpr hpre) (Nat.le_add_right _ _)

theorem deps_lt (h : u ∈ N.deps v) : u < v := by
  cases hv : N.records[v]? with
  | none => simp [deps, hv] at h
  | some t =>
    rw [deps_of_getElem? hv] at h
    obtain ⟨c, hc, rfl⟩ := List.mem_map.mp h
    have ht : t ∈ N.records := List.mem_of_getElem? hv
    rw [← (number_eq_iff ht).mpr hv]
    exact number_child_lt ht hc

/-- Reachability along children is reachability along edges. -/
theorem reachable_number (ht : t ∈ N.records)
    (h : Relation.ReflTransGen (fun a b => b ∈ children a) t t') :
    t' ∈ N.records ∧
      Relation.ReflTransGen (fun v u => u ∈ N.deps v) (N.number t) (N.number t') := by
  induction h with
  | refl => exact ⟨ht, .refl⟩
  | tail _ hc ih =>
    refine ⟨N.childrenFirst.mem ih.1 hc, ih.2.tail ?_⟩
    rw [deps_number ih.1]
    exact List.mem_map_of_mem hc

/-! ## The numbering of a list -/

/-- Recording the terms of `ts` in order, each unless an equal one is there. -/
def ofList (ts : List T) (h : ChildrenFirst children ts) : Numbering children where
  records := ts.foldl insertNew []
  nodup := nodup_foldl_insertNew ts
  childrenFirst := h.foldl_insertNew

@[simp] theorem records_ofList {ts : List T} (h : ChildrenFirst children ts) :
    (ofList ts h).records = ts.foldl insertNew [] := rfl

@[simp] theorem mem_ofList {ts : List T} (h : ChildrenFirst children ts) :
    t ∈ (ofList ts h).records ↔ t ∈ ts := by
  simp [mem_foldl_insertNew]

/-- A last term that occurs nowhere before is the last record. -/
theorem records_ofList_snoc {ts : List T} (h : ChildrenFirst children (ts ++ [t]))
    (ht : t ∉ ts) : (ofList (ts ++ [t]) h).records = ts.foldl insertNew [] ++ [t] := by
  have hnot : t ∉ ts.foldl insertNew [] := by simpa [mem_foldl_insertNew] using ht
  simp [insertNew, hnot]

end Numbering
end ValueNumbering
