import Mathlib

/-!
# Runs of a partial step function

A machine is given by `step : S → A → Option S`: in state `s` the label `a` is either refused
(`none`) or leads to one next state. Everything that is not determined by the state (a scheduler's
choice, the data a peer sends, the outcome of a system call) is part of the label.

`Run step ok s t` says that some sequence of labels leads from `s` to `t` and that `ok` allowed
every one of them in the state it was taken in. With `ok := fun _ _ => True` these are all runs;
a smaller `ok` states a property *of the runs whose steps all meet a condition*.
-/

namespace Transition

variable {S A : Type*}

/-- Some labels lead from the first state to the second, each allowed by `ok` where it is taken. -/
inductive Run (step : S → A → Option S) (ok : S → A → Prop) : S → S → Prop
  | refl (s : S) : Run step ok s s
  | tail {s t u : S} {a : A} : Run step ok s t → ok t a → step t a = some u → Run step ok s u

/-- Every label is allowed. -/
abbrev Anything (S A : Type*) : S → A → Prop := fun _ _ => True

/-- `t` is reachable from `s` by any labels at all. -/
abbrev Reach (step : S → A → Option S) : S → S → Prop := Run step (Anything S A)

variable {step : S → A → Option S} {ok ok' : S → A → Prop} {s t u : S}

/-! ## The invariant rule -/

/-- What holds at the start and is kept by every allowed step holds at the end. -/
theorem Run.invariant {I : S → Prop} (h : Run step ok s t)
    (hstep : ∀ {t a u}, I t → ok t a → step t a = some u → I u) (hs : I s) : I t := by
  induction h with
  | refl => exact hs
  | tail _ hok hst ih => exact hstep ih hok hst

/-- The invariant rule under an assumption `P` about the *last* state of the run. It may be used
at every step, because a step cannot make `P` true: `P` after the step implies `P` before it. `J` is
what holds of every run, with or without `P`. -/
theorem Run.invariant_of_final {J P I : S → Prop} (h : Run step ok s t)
    (hJ : ∀ {t a u}, J t → step t a = some u → J u)
    (hback : ∀ {t a u}, J t → step t a = some u → P u → P t)
    (hstep : ∀ {t a u}, P u → J t → I t → ok t a → step t a = some u → I u)
    (hJs : J s) (hs : I s) (ht : P t) : J t ∧ I t := by
  induction h with
  | refl => exact ⟨hJs, hs⟩
  | @tail t u a hrun hok hst ih =>
      have hJt : J t := hrun.invariant (fun hj _ hst => hJ hj hst) hJs
      exact ⟨hJ hJt hst, hstep ht hJt (ih (hback hJt hst ht)).2 hok hst⟩

/-! ## Composing runs -/

theorem Run.mono (h : Run step ok s t) (hok : ∀ s a, ok s a → ok' s a) : Run step ok' s t := by
  induction h with
  | refl => exact .refl _
  | tail _ ha hst ih => exact .tail ih (hok _ _ ha) hst

/-- A stronger condition on the steps that follows from a weaker one and an invariant. -/
theorem Run.mono_of_invariant {I : S → Prop} (h : Run step ok s t)
    (hstep : ∀ {t a u}, I t → ok t a → step t a = some u → I u)
    (hok : ∀ {t a}, I t → ok t a → ok' t a) (hs : I s) : Run step ok' s t := by
  induction h with
  | refl => exact .refl _
  | tail hrun ha hst ih => exact .tail ih (hok (hrun.invariant hstep hs) ha) hst

theorem Run.trans (h₁ : Run step ok s t) (h₂ : Run step ok t u) : Run step ok s u := by
  induction h₂ with
  | refl => exact h₁
  | tail _ hok hst ih => exact .tail ih hok hst

/-! ## Simulation -/

section
variable {T B : Type*} {step' : T → B → Option T} {okT : T → B → Prop} {R : S → T → Prop}

/-- **Simulation**: if a machine can answer every allowed step of another, from related states, with
a run of its own that ends in related states, it can answer every run so. -/
theorem Run.simulate (h : Run step ok s t) {s' : T} (hs : R s s')
    (hstep : ∀ {t a u t'}, R t t' → ok t a → step t a = some u →
      ∃ u', Run step' okT t' u' ∧ R u u') :
    ∃ t', Run step' okT s' t' ∧ R t t' := by
  induction h with
  | refl => exact ⟨s', .refl s', hs⟩
  | tail _ hok hst ih =>
      obtain ⟨t', hrun, ht⟩ := ih
      obtain ⟨u', hrest, hu⟩ := hstep ht hok hst
      exact ⟨u', hrun.trans hrest, hu⟩

end

/-! ## Executing a list of labels -/

/-- Take the labels of a list in order. -/
def exec (step : S → A → Option S) : S → List A → Option S
  | s, [] => some s
  | s, a :: as => (step s a).bind fun t => exec step t as

theorem exec_cons {a : A} {as : List A} (h : step s a = some t) :
    exec step s (a :: as) = exec step t as := by
  rw [exec, h, Option.bind_some]

theorem exec_append {as bs : List A} (h : exec step s as = some t) :
    exec step s (as ++ bs) = exec step t bs := by
  induction as generalizing s with
  | nil => cases h; rfl
  | cons a as ih =>
      obtain ⟨r, hr, hrest⟩ := Option.bind_eq_some_iff.mp h
      rw [List.cons_append, exec_cons hr]
      exact ih hrest

/-- Every label of the list is allowed where it is taken. -/
def Allowed (step : S → A → Option S) (ok : S → A → Prop) : S → List A → Prop
  | _, [] => True
  | s, a :: as => ok s a ∧ ∀ t ∈ step s a, Allowed step ok t as

instance Allowed.decidable [∀ s a, Decidable (ok s a)] :
    ∀ (s : S) (as : List A), Decidable (Allowed step ok s as)
  | _, [] => isTrue trivial
  | s, a :: as =>
    have : ∀ t, Decidable (Allowed step ok t as) := fun t => Allowed.decidable t as
    inferInstanceAs (Decidable (ok s a ∧ ∀ t ∈ step s a, Allowed step ok t as))

theorem allowed_append {as bs : List A} (h : exec step s as = some t)
    (hok : Allowed step ok s (as ++ bs)) : Allowed step ok t bs := by
  induction as generalizing s with
  | nil =>
      cases h
      exact hok
  | cons a as ih =>
      obtain ⟨r, hr, hrest⟩ := Option.bind_eq_some_iff.mp h
      exact ih hrest (hok.2 r hr)

theorem run_of_exec {as : List A} (h : exec step s as = some t) (hok : Allowed step ok s as) :
    Run step ok s t := by
  induction as generalizing s with
  | nil => cases h; exact .refl _
  | cons a as ih =>
      obtain ⟨r, hr, hrest⟩ := Option.bind_eq_some_iff.mp h
      exact (Run.tail (.refl _) hok.1 hr).trans (ih hrest (hok.2 r hr))

/-- Labels that are allowed wherever an invariant holds. -/
theorem run_of_exec_of_invariant {I : S → Prop} {P : S → A → Prop} {as : List A}
    (hstep : ∀ {t a u}, I t → ok t a → step t a = some u → I u)
    (hok : ∀ {t a}, I t → P t a → ok t a) (hs : I s) (h : exec step s as = some t)
    (hall : Allowed step P s as) : Run step ok s t := by
  induction as generalizing s with
  | nil => cases h; exact .refl _
  | cons a as ih =>
      obtain ⟨r, hr, hrest⟩ := Option.bind_eq_some_iff.mp h
      have ha : ok s a := hok hs hall.1
      exact (Run.tail (.refl _) ha hr).trans (ih (hstep hs ha hr) hrest (hall.2 r hr))

theorem allowed_anything (s : S) (as : List A) : Allowed step (Anything S A) s as := by
  induction as generalizing s with
  | nil => trivial
  | cons a as ih => exact ⟨trivial, fun t _ => ih t⟩

theorem reach_of_exec {as : List A} (h : exec step s as = some t) : Reach step s t :=
  run_of_exec h (allowed_anything s as)

/-! ## Infinite runs -/

/-- An infinite run: the state and the label at every time. -/
structure Execution (step : S → A → Option S) (ok : S → A → Prop) where
  state : Nat → S
  label : Nat → A
  allowed : ∀ n, ok (state n) (label n)
  step_eq : ∀ n, step (state n) (label n) = some (state (n + 1))

namespace Execution

theorem run (e : Execution step ok) {m n : Nat} (h : m ≤ n) :
    Run step ok (e.state m) (e.state n) := by
  induction h with
  | refl => exact .refl _
  | step _ ih => exact .tail ih (e.allowed _) (e.step_eq _)

/-- A label of this kind is taken whenever it is called for, then or later. -/
def Fair (e : Execution step ok) (calls : S → Prop) (kind : S → A → Prop) : Prop :=
  ∀ n, calls (e.state n) → ∃ m, n ≤ m ∧ kind (e.state m) (e.label m)

/-- What all other labels keep still holds when the first label of a kind is taken. -/
theorem until_first (e : Execution step ok) {kind : S → A → Prop} {I : S → Prop} {n : Nat}
    (hfair : ∃ m, n ≤ m ∧ kind (e.state m) (e.label m)) (hI : I (e.state n))
    (hstep : ∀ {s a t}, I s → ¬ kind s a → ok s a → step s a = some t → I t) :
    ∃ m, n ≤ m ∧ I (e.state m) ∧ kind (e.state m) (e.label m) := by
  obtain ⟨m, hnm, hm⟩ := hfair
  induction hk : m - n generalizing n with
  | zero =>
      obtain rfl : n = m := by omega
      exact ⟨n, Nat.le_refl n, hI, hm⟩
  | succ k ih =>
      by_cases hnow : kind (e.state n) (e.label n)
      · exact ⟨n, Nat.le_refl n, hI, hnow⟩
      · obtain ⟨l, hl, hrest⟩ := ih (hstep hI hnow (e.allowed n) (e.step_eq n)) (by omega) (by omega)
        exact ⟨l, by omega, hrest⟩

end Execution
end Transition
