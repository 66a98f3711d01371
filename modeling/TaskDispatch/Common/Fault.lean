import Mathlib.Data.List.Forall2
import Mathlib.Tactic.Common

/-!
# How a call can fail

A call of the program that does not return either throws, stops the process at an `assert`, or has
no defined behaviour. The model keeps the three apart: a thrown exception can be caught by the
caller, a failed assertion cannot, and after undefined behaviour nothing can be said. Everything
that can fail is an `Except Fault`.
-/

set_option autoImplicit false

namespace TaskDispatch

/-- The exceptions the modelled code throws, itself or through the library call named. -/
inductive Exception where
  /-- `std::out_of_range`, from `.at` -/
  | outOfRange
  /-- `std::bad_variant_access`, from `std::get` -/
  | badVariantAccess
  /-- `std::bad_optional_access`, from `.value()` -/
  | badOptionalAccess
  /-- `boost::not_a_dag` -/
  | notADag
  /-- `SQLite::Exception` -/
  | sqlite
  /-- `nlohmann::json::type_error` -/
  | jsonTypeError
  /-- `nlohmann::json::out_of_range` -/
  | jsonOutOfRange
  /-- `nlohmann::json::invalid_iterator` -/
  | jsonInvalidIterator
  | invalidArgument (what : String)
  | logicError (what : String)
  deriving DecidableEq, Repr

inductive Fault where
  | thrown (e : Exception)
  /-- A failed `assert`. -/
  | aborted
  | undefined
  deriving DecidableEq, Repr

abbrev Result (α : Type) := Except Fault α

namespace Result

variable {α β : Type}

@[simp] theorem bind_ok_iff {x : Result α} {f : α → Result β} {b : β} :
    x >>= f = .ok b ↔ ∃ a, x = .ok a ∧ f a = .ok b := by
  cases x <;> simp [bind, Except.bind]

@[simp] theorem ok_bind (a : α) (f : α → Result β) : (Except.ok a : Result α) >>= f = f a := rfl

@[simp] theorem error_bind (e : Fault) (f : α → Result β) :
    (Except.error e : Result α) >>= f = .error e := rfl

theorem bind_eq_error {x : Result α} {f : α → Result β} {fault : Fault} :
    x >>= f = .error fault ↔ x = .error fault ∨ ∃ a, x = .ok a ∧ f a = .error fault := by
  cases x <;> simp [bind, Except.bind]

@[simp] theorem bind_ok (x : Result α) : (x >>= fun a => .ok a) = x := by
  cases x <;> rfl

@[simp] theorem pure_eq (a : α) : (pure a : Result α) = .ok a := rfl

/-- `x && y`, with `y` not evaluated where `x` is false -/
def andThen (x y : Result Bool) : Result Bool := do
  if ← x then y else .ok false

@[simp] theorem andThen_ok (r q : Bool) : andThen (.ok r) (.ok q) = .ok (r && q) := by
  cases r <;> rfl

/-- Two arguments of one call, evaluated in an order that C++ leaves open: what may be undefined is
undefined. Which of two exceptions is thrown makes no difference here. -/
def unsequenced : Result α → Result β → Result (α × β)
  | .error .undefined, _ | _, .error .undefined => .error .undefined
  | .error fault, _ | .ok _, .error fault => .error fault
  | .ok a, .ok b => .ok (a, b)

@[simp] theorem unsequenced_ok (a : α) (b : β) : unsequenced (.ok a) (.ok b) = .ok (a, b) := rfl

theorem unsequenced_eq_undefined {x : Result α} {y : Result β} :
    unsequenced x y = .error .undefined ↔ x = .error .undefined ∨ y = .error .undefined := by
  rcases x with (_ | _ | _) | a <;> rcases y with (_ | _ | _) | b <;> simp [unsequenced]

theorem unsequenced_eq_error {x : Result α} {y : Result β} {fault : Fault}
    (h : unsequenced x y = .error fault) : x = .error fault ∨ y = .error fault := by
  rcases x with (_ | _ | _) | a <;> rcases y with (_ | _ | _) | b <;> simp_all [unsequenced]

theorem unsequenced_eq_ok {x : Result α} {y : Result β} {p : α × β} :
    unsequenced x y = .ok p ↔ x = .ok p.1 ∧ y = .ok p.2 := by
  obtain ⟨a', b'⟩ := p
  rcases x with (_ | _ | _) | a <;> rcases y with (_ | _ | _) | b <;> simp [unsequenced]

/-- No exception: the call returns, is stopped, or is undefined. -/
def NoThrow (x : Result α) : Prop := ∀ e, x ≠ .error (.thrown e)

namespace NoThrow

theorem ok (a : α) : NoThrow (.ok a : Result α) := by
  intro e h
  cases h

theorem undefined : NoThrow (.error .undefined : Result α) := by
  intro e h
  cases h

theorem aborted : NoThrow (.error .aborted : Result α) := by
  intro e h
  cases h

theorem bind {x : Result α} {f : α → Result β} (hx : NoThrow x) (hf : ∀ a, NoThrow (f a)) :
    NoThrow (x >>= f) := by
  intro e h
  rcases bind_eq_error.mp h with herror | ⟨a, -, herror⟩
  · exact hx e herror
  · exact hf a e herror

theorem foldlM {f : β → α → Result β} (hf : ∀ b a, NoThrow (f b a)) (l : List α) (b : β) :
    NoThrow (l.foldlM f b) := by
  induction l generalizing b with
  | nil => exact ok b
  | cons a l ih => exact (hf b a).bind ih

theorem mapM {f : α → Result β} (hf : ∀ a, NoThrow (f a)) (l : List α) : NoThrow (l.mapM f) := by
  induction l with
  | nil => exact ok []
  | cons a l ih =>
    rw [List.mapM_cons]
    exact (hf a).bind fun b => ih.bind fun bs => ok (b :: bs)

end NoThrow

/-- `.at` on a container whose lookup gave `x?`. -/
def ofLookup : Option α → Result α
  | some a => .ok a
  | none => .error (.thrown .outOfRange)

@[simp] theorem ofLookup_some (a : α) : ofLookup (some a) = .ok a := rfl

@[simp] theorem ofLookup_none : ofLookup (none : Option α) = .error (.thrown .outOfRange) := rfl

@[simp] theorem ofLookup_eq_ok {x? : Option α} {a : α} : ofLookup x? = .ok a ↔ x? = some a := by
  cases x? <;> simp

/-- `.value()` of a `std::optional` -/
def ofOptional : Option α → Result α
  | some a => .ok a
  | none => .error (.thrown .badOptionalAccess)

@[simp] theorem toOption_eq_some {x : Result α} {a : α} : x.toOption = some a ↔ x = .ok a := by
  cases x <;> simp [Except.toOption]

/-- A loop none of whose rounds fails. -/
theorem mapM_eq_ok {f : α → Result β} {g : α → β} {l : List α} (h : ∀ a ∈ l, f a = .ok (g a)) :
    l.mapM f = .ok (l.map g) := by
  induction l with
  | nil => rfl
  | cons a l ih =>
    rw [List.mapM_cons, h a List.mem_cons_self, ih fun a ha => h a (List.mem_cons_of_mem _ ha)]
    rfl

/-- A loop that did not fail ran every round. -/
theorem mapM_ok_iff {f : α → Result β} {l : List α} {bs : List β} :
    l.mapM f = .ok bs ↔ List.Forall₂ (fun a b => f a = .ok b) l bs := by
  induction l generalizing bs with
  | nil => cases bs <;> simp
  | cons a l ih =>
    rw [List.mapM_cons]
    constructor
    · simp only [bind_ok_iff, ih, pure_eq, Except.ok.injEq]
      rintro ⟨b, hb, bs', hbs, rfl⟩
      exact .cons hb hbs
    · rintro (_ | ⟨hb, hbs⟩)
      simp [hb, ih.mpr hbs]

end Result
end TaskDispatch
