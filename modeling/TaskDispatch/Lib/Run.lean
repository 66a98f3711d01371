import Mathlib.Data.List.Induction
import Mathlib.Tactic.Common

/-!
# Runs of a partial step function

A system is given as a partial function `step : S → A → Option S`: what an action does in a
state, and `none` where the action is not enabled there. A *run* is a list of actions that are
all enabled one after the other. Choices of the environment (which message arrives, which party
moves) are part of the action, so a statement about every run is a statement about every
interleaving.

The rules are those a safety proof needs. `Runs.invariant` is induction on a run from the end,
stated with the actions so far in view, so that it serves histories as well as states.
`Runs.simulates` maps the runs of one system to the runs of another; the invariant it may use on
the way is that of the first system. `throughout_of_meets` and `Runs.meets_of_throughout` are for a
property that some steps break: they turn what one step needs into what a run needs. `exists_rest`
and `Runs.length_le` are for what comes about: a variant that the steps lower.
-/

set_option autoImplicit false

namespace Transition

universe u v w x
variable {S : Type u} {A : Type v} {T : Type w} {B : Type x}

/-- `Runs step s as s'`: the actions `as`, in this order, lead from `s` to `s'`. -/
def Runs (step : S → A → Option S) (s : S) (as : List A) (s' : S) : Prop :=
  as.foldlM step s = some s'

instance (step : S → A → Option S) (s : S) (as : List A) (s' : S) [DecidableEq S] :
    Decidable (Runs step s as s') :=
  inferInstanceAs (Decidable (as.foldlM step s = some s'))

variable {step : S → A → Option S} {s s' t : S} {as bs : List A} {a : A}

@[simp] theorem Runs.nil_iff : Runs step s [] s' ↔ s = s' := by
  simp [Runs]

@[simp] theorem Runs.cons_iff :
    Runs step s (a :: as) t ↔ ∃ s', step s a = some s' ∧ Runs step s' as t := by
  simp [Runs, Option.bind_eq_some_iff]

theorem Runs.append_iff :
    Runs step s (as ++ bs) t ↔ ∃ s', Runs step s as s' ∧ Runs step s' bs t := by
  induction as generalizing s with
  | nil => simp
  | cons a as ih =>
    simp only [List.cons_append, Runs.cons_iff, ih]
    constructor
    · rintro ⟨u, ha, s', has, hbs⟩
      exact ⟨s', ⟨u, ha, has⟩, hbs⟩
    · rintro ⟨s', ⟨u, ha, has⟩, hbs⟩
      exact ⟨u, ha, s', has, hbs⟩

theorem Runs.snoc_iff :
    Runs step s (as ++ [a]) t ↔ ∃ s', Runs step s as s' ∧ step s' a = some t := by
  simp [Runs.append_iff]

theorem Runs.refl (step : S → A → Option S) (s : S) : Runs step s [] s := Runs.nil_iff.mpr rfl

theorem Runs.single (h : step s a = some s') : Runs step s [a] s' :=
  Runs.cons_iff.mpr ⟨s', h, Runs.refl step s'⟩

theorem Runs.trans (h : Runs step s as s') (h' : Runs step s' bs t) :
    Runs step s (as ++ bs) t :=
  Runs.append_iff.mpr ⟨s', h, h'⟩

/-- **The invariant rule.** `I` may speak about the actions performed so far. -/
theorem Runs.invariant {I : List A → S → Prop} (h₀ : I [] s)
    (hstep : ∀ as s₁ a s₂, Runs step s as s₁ → I as s₁ → step s₁ a = some s₂ →
      I (as ++ [a]) s₂)
    (h : Runs step s as t) : I as t := by
  induction as using List.reverseRecOn generalizing t with
  | nil => rw [Runs.nil_iff] at h; exact h ▸ h₀
  | append_singleton as a ih =>
    obtain ⟨s₁, hs₁, ha⟩ := Runs.snoc_iff.mp h
    exact hstep as s₁ a t hs₁ (ih hs₁) ha

/-- An invariant that is kept only while the states satisfy `P`, where a step never
reaches `P` from outside: so a run that ends within `P` never left it. -/
theorem Runs.invariant_within {P I : S → Prop}
    (hbound : ∀ s₁ a s₂, step s₁ a = some s₂ → P s₂ → P s₁) (h₀ : I s)
    (hstep : ∀ s₁ a s₂, I s₁ → P s₂ → step s₁ a = some s₂ → I s₂)
    (h : Runs step s as t) (ht : P t) : I t := by
  refine Runs.invariant (I := fun _ t => P t → I t) (fun _ => h₀) ?_ h ht
  intro _ s₁ a s₂ _ ih ha hb
  exact hstep s₁ a s₂ (ih (hbound s₁ a s₂ ha hb)) hb ha

/-- **Simulation.** If every step of one system is matched by a run of another (empty where the
step is invisible there), then so is every run. `P` is as in `Runs.invariant_within`. -/
theorem Runs.simulates {P I : S → Prop} {step' : T → B → Option T} {abs : S → T}
    (hbound : ∀ s₁ a s₂, step s₁ a = some s₂ → P s₂ → P s₁) (h₀ : I s)
    (hstep : ∀ s₁ a s₂, I s₁ → P s₂ → step s₁ a = some s₂ →
      I s₂ ∧ ∃ bs, Runs step' (abs s₁) bs (abs s₂))
    (h : Runs step s as t) (ht : P t) :
    I t ∧ ∃ bs, Runs step' (abs s) bs (abs t) := by
  refine Runs.invariant_within (I := fun t => I t ∧ ∃ bs, Runs step' (abs s) bs (abs t))
    hbound ⟨h₀, [], Runs.refl step' _⟩ ?_ h ht
  rintro s₁ a s₂ ⟨hI, bs, hbs⟩ hb ha
  obtain ⟨hI₂, cs, hcs⟩ := hstep s₁ a s₂ hI hb ha
  exact ⟨hI₂, bs ++ cs, hbs.trans hcs⟩

/-! ## Exact conditions

A property that a step may break is described exactly by a condition on the step: it holds in every
state of a run if and only if every action meets the condition where it is performed. -/

/-- `I` holds in every state of the run `as` from `s`. -/
def Throughout (step : S → A → Option S) (I : S → Prop) (s : S) (as : List A) : Prop :=
  ∀ bs t, bs <+: as → Runs step s bs t → I t

/-- Every action of the run `as` from `s` meets `ok` in the state it is performed in. -/
def Meets (step : S → A → Option S) (ok : S → A → Prop) : S → List A → Prop
  | _, [] => True
  | s, a :: as => ok s a ∧ ∀ s' ∈ step s a, Meets step ok s' as

instance Meets.decidable (step : S → A → Option S) (ok : S → A → Prop)
    [∀ s a, Decidable (ok s a)] : ∀ s as, Decidable (Meets step ok s as)
  | _, [] => isTrue trivial
  | s, a :: as =>
    have : ∀ s', Decidable (Meets step ok s' as) := fun s' => Meets.decidable step ok s' as
    inferInstanceAs (Decidable (ok s a ∧ ∀ s' ∈ step s a, Meets step ok s' as))

/-- Actions that meet `ok` in every state. -/
theorem Meets.of_forall {ok : S → A → Prop} (h : ∀ a ∈ as, ∀ s, ok s a) : Meets step ok s as := by
  induction as generalizing s with
  | nil => trivial
  | cons a as ih =>
    refine ⟨h a List.mem_cons_self s, fun s' _ => ih ?_⟩
    intro b hb
    exact h b (List.mem_cons_of_mem a hb)

theorem Meets.mono {ok ok' : S → A → Prop} (h : Meets step ok s as)
    (hok : ∀ s a, ok s a → ok' s a) : Meets step ok' s as := by
  induction as generalizing s with
  | nil => trivial
  | cons a as ih => exact ⟨hok s a h.1, fun s' hs' => ih (h.2 s' hs')⟩

theorem Meets.append_iff {ok : S → A → Prop} {bs : List A} (h : Runs step s as s') :
    Meets step ok s (as ++ bs) ↔ Meets step ok s as ∧ Meets step ok s' bs := by
  induction as generalizing s with
  | nil =>
    obtain rfl := Runs.nil_iff.mp h
    exact (and_iff_right trivial).symm
  | cons a as ih =>
    obtain ⟨s₁, ha, hrest⟩ := Runs.cons_iff.mp h
    rw [List.cons_append, Meets, Meets, ha]
    simp [ih hrest, and_assoc]

/-- Actions of one system that stand for those of another. -/
theorem Meets.map_iff {step' : S → B → Option S} {ok' : S → B → Prop} {f : A → B} :
    Meets step' ok' s (as.map f) ↔
      Meets (fun s a => step' s (f a)) (fun s a => ok' s (f a)) s as := by
  induction as generalizing s with
  | nil => rfl
  | cons a as ih => simp only [List.map_cons, Meets, ih]

/-- The first state of a run and the states of the rest. -/
theorem throughout_cons {I : S → Prop} (ha : step s a = some s') :
    Throughout step I s (a :: as) ↔ I s ∧ Throughout step I s' as := by
  constructor
  · intro h
    refine ⟨h [] s List.nil_prefix (Runs.refl step s), ?_⟩
    intro bs t hbs hrun
    exact h (a :: bs) t (List.cons_prefix_cons.mpr ⟨rfl, hbs⟩) (Runs.cons_iff.mpr ⟨s', ha, hrun⟩)
  · rintro ⟨hs, h⟩ bs t hbs hrun
    cases bs with
    | nil => exact Runs.nil_iff.mp hrun ▸ hs
    | cons b bs =>
      obtain ⟨rfl, htail⟩ := List.cons_prefix_cons.mp hbs
      obtain ⟨s₁, hb, hrun⟩ := Runs.cons_iff.mp hrun
      obtain rfl := Option.some.inj (ha.symm.trans hb)
      exact h bs t htail hrun

/-- What every action that meets `ok` keeps holds throughout a run whose actions meet it. -/
theorem throughout_of_meets {I : S → Prop} {ok : S → A → Prop}
    (hI : ∀ s a s', I s → ok s a → step s a = some s' → I s') (h₀ : I s)
    (h : Meets step ok s as) : Throughout step I s as := by
  induction as generalizing s with
  | nil =>
    intro bs t hbs hrun
    obtain rfl := List.prefix_nil.mp hbs
    exact Runs.nil_iff.mp hrun ▸ h₀
  | cons a as ih =>
    intro bs t hbs hrun
    cases bs with
    | nil => exact Runs.nil_iff.mp hrun ▸ h₀
    | cons b bs =>
      obtain ⟨rfl, htail⟩ := List.cons_prefix_cons.mp hbs
      obtain ⟨s₁, hb, hrun⟩ := Runs.cons_iff.mp hrun
      exact ih (hI s b s₁ h₀ h.1 hb) (h.2 s₁ hb) bs t htail hrun

theorem Throughout.mono {I W : S → Prop} (h : Throughout step I s as) (hIW : ∀ s, I s → W s) :
    Throughout step W s as := fun bs t hbs hrun => hIW t (h bs t hbs hrun)

/-- A bound that no step reaches from outside holds at the start of a run that ends within it. -/
theorem Runs.within {P : S → Prop} (hbound : ∀ s₁ a s₂, step s₁ a = some s₂ → P s₂ → P s₁)
    (h : Runs step s as t) (ht : P t) : P s := by
  induction as generalizing s with
  | nil => exact Runs.nil_iff.mp h ▸ ht
  | cons a as ih =>
    obtain ⟨s₁, ha, hrest⟩ := Runs.cons_iff.mp h
    exact hbound s a s₁ ha (ih hrest)

/-- The converse of `throughout_of_meets`, where an action that does not meet `ok` breaks a property
`W`, which may be weaker than what the others keep. -/
theorem Runs.meets_of_throughout {P I W : S → Prop} {ok : S → A → Prop}
    (hbound : ∀ s₁ a s₂, step s₁ a = some s₂ → P s₂ → P s₁)
    (hI : ∀ s a s', I s → ok s a → step s a = some s' → I s')
    (hok : ∀ s a s', I s → P s' → W s' → step s a = some s' → ok s a) (h₀ : I s)
    (h : Runs step s as t) (ht : P t) (hW : Throughout step W s as) : Meets step ok s as := by
  induction as generalizing s with
  | nil => trivial
  | cons a as ih =>
    obtain ⟨s₁, ha, hrest⟩ := Runs.cons_iff.mp h
    obtain ⟨-, hW₁⟩ := (throughout_cons ha).mp hW
    have hW₁' : W s₁ := hW₁ [] s₁ List.nil_prefix (Runs.refl step s₁)
    have hmeets : ok s a := hok s a s₁ h₀ (hrest.within hbound ht) hW₁' ha
    refine ⟨hmeets, ?_⟩
    intro s' ha'
    obtain rfl := Option.some.inj (ha.symm.trans ha')
    exact ih (hI s a s₁ h₀ hmeets ha) hrest hW₁

/-- **The exact condition for a property to hold throughout.** `J` is an invariant of all steps,
and where both hold, `I` survives a step exactly when the action meets `ok`. `P` is as in
`Runs.invariant_within`. -/
theorem Runs.throughout_iff_meets_within {P I J : S → Prop} {ok : S → A → Prop}
    (hbound : ∀ s₁ a s₂, step s₁ a = some s₂ → P s₂ → P s₁)
    (hJ : ∀ s a s', J s → P s' → step s a = some s' → J s')
    (hI : ∀ s a s', J s → P s' → I s → step s a = some s' → (I s' ↔ ok s a))
    (hJ₀ : J s) (hI₀ : I s) (h : Runs step s as t) (ht : P t) :
    Throughout step I s as ↔ Meets step ok s as := by
  induction as generalizing s with
  | nil =>
    refine iff_of_true ?_ trivial
    intro bs t hbs hrun
    obtain rfl := List.prefix_nil.mp hbs
    exact Runs.nil_iff.mp hrun ▸ hI₀
  | cons a as ih =>
    obtain ⟨s₁, ha, hrest⟩ := Runs.cons_iff.mp h
    have hP₁ : P s₁ := hrest.within hbound ht
    have hJ₁ : J s₁ := hJ s a s₁ hJ₀ hP₁ ha
    have hstep : I s₁ ↔ ok s a := hI s a s₁ hJ₀ hP₁ hI₀ ha
    rw [throughout_cons ha]
    constructor
    · intro hall
      have hI₁ : I s₁ := hall.2 [] s₁ List.nil_prefix (Runs.refl step s₁)
      refine ⟨hstep.mp hI₁, ?_⟩
      intro s' ha'
      obtain rfl := Option.some.inj (ha.symm.trans ha')
      exact (ih hJ₁ hI₁ hrest).mp hall.2
    · intro hmeets
      exact ⟨hI₀, (ih hJ₁ (hstep.mpr hmeets.1) hrest).mpr (hmeets.2 s₁ ha)⟩

/-- The same without a bound. -/
theorem Runs.throughout_iff_meets {I J : S → Prop} {ok : S → A → Prop}
    (hJ : ∀ s a s', J s → step s a = some s' → J s')
    (hI : ∀ s a s', J s → I s → step s a = some s' → (I s' ↔ ok s a))
    (hJ₀ : J s) (hI₀ : I s) (h : Runs step s as t) :
    Throughout step I s as ↔ Meets step ok s as :=
  h.throughout_iff_meets_within (P := fun _ => True) (fun _ _ _ _ _ => trivial)
    (fun s a s' hs _ ha => hJ s a s' hs ha) (fun s a s' hs _ hs' ha => hI s a s' hs hs' ha)
    hJ₀ hI₀ trivial

/-- **Forward simulation.** The states of the two systems are related, not mapped: the second one
may remember what the first one does not. Steps that meet `ok` are matched; `P` is as in
`Runs.invariant_within`. -/
theorem Runs.forward {P : S → Prop} {R : S → T → Prop} {ok : S → A → Prop}
    {step' : T → B → Option T} {u : T}
    (hbound : ∀ s₁ a s₂, step s₁ a = some s₂ → P s₂ → P s₁)
    (hstep : ∀ s₁ a s₂ t₁, R s₁ t₁ → ok s₁ a → P s₂ → step s₁ a = some s₂ →
      ∃ bs t₂, Runs step' t₁ bs t₂ ∧ R s₂ t₂)
    (h₀ : R s u) (hmeets : Meets step ok s as) (h : Runs step s as t) (ht : P t) :
    ∃ bs u', Runs step' u bs u' ∧ R t u' := by
  induction as generalizing s u with
  | nil => exact ⟨[], u, Runs.refl step' u, Runs.nil_iff.mp h ▸ h₀⟩
  | cons a as ih =>
    obtain ⟨s₁, ha, hrest⟩ := Runs.cons_iff.mp h
    obtain ⟨bs, u₁, hbs, h₁⟩ := hstep s a s₁ u h₀ hmeets.1 (hrest.within hbound ht) ha
    obtain ⟨cs, u', hcs, h'⟩ := ih h₁ (hmeets.2 s₁ ha) hrest
    exact ⟨bs ++ cs, u', hbs.trans hcs, h'⟩

/-- A projection to a second system, with a condition on the actions there that follows from one on
the actions here. -/
theorem Runs.projects {ok : S → A → Prop} {step' : T → B → Option T} {ok' : T → B → Prop}
    {f : S → T} (hstep : ∀ s₁ a s₂, step s₁ a = some s₂ → ∃ bs, Runs step' (f s₁) bs (f s₂) ∧
      (ok s₁ a → Meets step' ok' (f s₁) bs)) (h : Runs step s as t) :
    ∃ bs, Runs step' (f s) bs (f t) ∧ (Meets step ok s as → Meets step' ok' (f s) bs) := by
  induction as generalizing s with
  | nil =>
    obtain rfl := Runs.nil_iff.mp h
    exact ⟨[], Runs.refl step' _, fun _ => trivial⟩
  | cons a as ih =>
    obtain ⟨s₁, ha, hrest⟩ := Runs.cons_iff.mp h
    obtain ⟨bs, hbs, hmeets⟩ := hstep s a s₁ ha
    obtain ⟨cs, hcs, hmeets'⟩ := ih hrest
    refine ⟨bs ++ cs, hbs.trans hcs, ?_⟩
    intro hall
    exact (Meets.append_iff hbs).mpr ⟨hmeets hall.1, hmeets' (hall.2 s₁ ha)⟩

/-! ## Variants -/

/-- **Coming to rest.** If in every state but those at rest some action that meets `ok` lowers the
variant, then some run of such actions comes to rest. -/
theorem exists_rest {I Rest : S → Prop} {ok : S → A → Prop} (variant : S → ℕ)
    (hstep : ∀ s, I s → ¬Rest s →
      ∃ a s', ok s a ∧ step s a = some s' ∧ I s' ∧ variant s' < variant s) (h₀ : I s) :
    ∃ as t, Runs step s as t ∧ Meets step ok s as ∧ I t ∧ Rest t := by
  induction hn : variant s using Nat.strongRecOn generalizing s with
  | ind n ih =>
    by_cases hrest : Rest s
    · exact ⟨[], s, Runs.refl step s, trivial, h₀, hrest⟩
    · obtain ⟨a, s', hok, ha, h', hless⟩ := hstep s h₀ hrest
      obtain ⟨as, t, hrun, hmeets, ht⟩ := ih _ (hn ▸ hless) h' rfl
      refine ⟨a :: as, t, Runs.cons_iff.mpr ⟨s', ha, hrun⟩, ⟨hok, ?_⟩, ht⟩
      intro s₁ ha₁
      obtain rfl := Option.some.inj (ha.symm.trans ha₁)
      exact hmeets

/-- A run all of whose actions lower the variant is no longer than the variant allows. -/
theorem Runs.length_le {I : S → Prop} {ok : S → A → Prop} (variant : S → ℕ)
    (hstep : ∀ s a s', I s → ok s a → step s a = some s' → I s' ∧ variant s' < variant s)
    (h₀ : I s) (hmeets : Meets step ok s as) (h : Runs step s as t) :
    as.length + variant t ≤ variant s := by
  induction as generalizing s with
  | nil =>
    obtain rfl := Runs.nil_iff.mp h
    exact Nat.le_of_eq (Nat.zero_add _)
  | cons a as ih =>
    obtain ⟨s₁, ha, hrest⟩ := Runs.cons_iff.mp h
    obtain ⟨h₁, hless⟩ := hstep s a s₁ h₀ hmeets.1 ha
    have hle := ih h₁ (hmeets.2 s₁ ha) hrest
    rw [List.length_cons]
    omega

end Transition
