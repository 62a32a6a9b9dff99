import Mathlib.Tactic.Basic

/-! # Labelled transition systems and their runs

A run is kept with the list of the steps it took, latest first, so that a
property may speak about the past of a state as well as about the state.
-/

namespace Runs

/-- A transition system over the states `σ` with labels `ι`. -/
structure System (σ ι : Type*) where
  start : σ → Prop
  step : σ → ι → σ → Prop

/-- One step of a run. -/
structure Taken (σ ι : Type*) where
  pre : σ
  label : ι
  post : σ

namespace System
variable {σ ι : Type*} {M : System σ ι}

/-- `M.Run tr s`: a run ends in `s` and took the steps `tr`, latest first. -/
inductive Run (M : System σ ι) : List (Taken σ ι) → σ → Prop
  | start {s : σ} (h : M.start s) : Run M [] s
  | step {tr : List (Taken σ ι)} {s s' : σ} {i : ι} (h : Run M tr s) (hs : M.step s i s') :
      Run M (⟨s, i, s'⟩ :: tr) s'

def Reachable (M : System σ ι) (s : σ) : Prop := ∃ tr, M.Run tr s

/-- The system that takes only the steps allowed by `P`. -/
def restrict (M : System σ ι) (P : σ → ι → Prop) : System σ ι where
  start := M.start
  step s i s' := P s i ∧ M.step s i s'

/-- The runs from the state `s₀` on. -/
def startAt (M : System σ ι) (s₀ : σ) : System σ ι where
  start s := s = s₀
  step := M.step

/-- A system that takes more steps has more runs. -/
theorem Run.mono {N : System σ ι} {tr : List (Taken σ ι)} {s : σ} (h : M.Run tr s)
    (h₀ : ∀ s, M.start s → N.start s) (hs : ∀ s i s', M.step s i s' → N.step s i s') :
    N.Run tr s := by
  induction h with
  | start h => exact .start (h₀ _ h)
  | step _ hst ih => exact ih.step (hs _ _ _ hst)

theorem Run.invariant {I : List (Taken σ ι) → σ → Prop}
    (h₀ : ∀ s, M.start s → I [] s)
    (hs : ∀ tr s i s', M.Run tr s → I tr s → M.step s i s' → I (⟨s, i, s'⟩ :: tr) s')
    {tr : List (Taken σ ι)} {s : σ} (h : M.Run tr s) : I tr s := by
  induction h with
  | start h => exact h₀ _ h
  | step h hs' ih => exact hs _ _ _ _ h ih hs'

/-- Every step of a run has the property `Q`, which may speak about the steps before it. -/
def Along (Q : List (Taken σ ι) → Taken σ ι → Prop) : List (Taken σ ι) → Prop
  | [] => True
  | x :: tr => Q tr x ∧ Along Q tr

instance Along.decidable (Q : List (Taken σ ι) → Taken σ ι → Prop) [∀ tr x, Decidable (Q tr x)] :
    ∀ tr, Decidable (Along Q tr)
  | [] => .isTrue trivial
  | x :: tr => @instDecidableAnd (Q tr x) (Along Q tr) _ (Along.decidable Q tr)

theorem Run.along {Q : List (Taken σ ι) → Taken σ ι → Prop}
    (hs : ∀ tr s i s', M.Run tr s → M.step s i s' → Q tr ⟨s, i, s'⟩)
    {tr : List (Taken σ ι)} {s : σ} (h : M.Run tr s) : Along Q tr := by
  induction h with
  | start h => trivial
  | step h hst ih => exact ⟨hs _ _ _ _ h hst, ih⟩

theorem Run.along_iff {P Q : List (Taken σ ι) → Taken σ ι → Prop}
    (hs : ∀ tr s i s', M.Run tr s → M.step s i s' → (P tr ⟨s, i, s'⟩ ↔ Q tr ⟨s, i, s'⟩))
    {tr : List (Taken σ ι)} {s : σ} (h : M.Run tr s) : Along P tr ↔ Along Q tr := by
  induction h with
  | start h => exact Iff.rfl
  | step h hst ih => exact and_congr (hs _ _ _ _ h hst) ih

theorem Reachable.start {s : σ} (h : M.start s) : M.Reachable s := ⟨[], .start h⟩

theorem Reachable.step {s s' : σ} {i : ι} (h : M.Reachable s) (hs : M.step s i s') :
    M.Reachable s' := by
  obtain ⟨tr, h⟩ := h
  exact ⟨_, h.step hs⟩

theorem Reachable.run {s₀ s : σ} {tr : List (Taken σ ι)} (h₀ : M.Reachable s₀)
    (h : (M.startAt s₀).Run tr s) : M.Reachable s := by
  induction h with
  | start h =>
    cases h
    exact h₀
  | step h hst ih => exact ih.step hst

/-- A property of the start states that every step keeps holds in every reachable state. -/
theorem Reachable.invariant {I : σ → Prop} (h₀ : ∀ s, M.start s → I s)
    (hs : ∀ s i s', I s → M.step s i s' → I s') {s : σ} (h : M.Reachable s) : I s := by
  obtain ⟨tr, h⟩ := h
  exact h.invariant (I := fun _ s => I s) h₀ fun _ s i s' _ hi hst => hs s i s' hi hst

end System

/-! ## Sequences of events -/

section Events
variable {σ τ ε : Type*} {f : ε → σ → σ → Prop} {g : ε → τ → τ → Prop} {R : σ → τ → Prop}
  {es es' : List ε} {s s₁ s' : σ} {t : τ}

/-- One event after the other. -/
def Events (f : ε → σ → σ → Prop) : List ε → σ → σ → Prop
  | [], s, s' => s' = s
  | e :: es, s, s' => ∃ s₁, f e s s₁ ∧ Events f es s₁ s'

theorem Events.append (h : Events f es s s₁) (h' : Events f es' s₁ s') :
    Events f (es ++ es') s s' := by
  induction es generalizing s with
  | nil =>
    cases h
    exact h'
  | cons e es ih =>
    obtain ⟨s₂, he, h⟩ := h
    exact ⟨s₂, he, ih h⟩

/-- Every event of `f` is possible for `g`, and all that can come of it there is related again. -/
def Follows (f : ε → σ → σ → Prop) (g : ε → τ → τ → Prop) (R : σ → τ → Prop) : Prop :=
  ∀ e s s' t, R s t → f e s s' → (∃ t', g e t t') ∧ ∀ t', g e t t' → R s' t'

theorem Follows.events (h : Follows f g R) (hR : R s t) (he : Events f es s s') :
    (∃ t', Events g es t t') ∧ ∀ t', Events g es t t' → R s' t' := by
  induction es generalizing s t with
  | nil =>
    cases he
    refine ⟨⟨t, rfl⟩, fun t' ht => ?_⟩
    cases ht
    exact hR
  | cons e es ih =>
    obtain ⟨s₁, hs, he⟩ := he
    obtain ⟨⟨t₁, ht₁⟩, hkeep⟩ := h e s s₁ t hR hs
    obtain ⟨⟨t', ht'⟩, -⟩ := ih (hkeep t₁ ht₁) he
    refine ⟨⟨t', t₁, ht₁, ht'⟩, fun u hu => ?_⟩
    obtain ⟨u₁, hu₁, hu⟩ := hu
    exact (ih (hkeep u₁ hu₁) he).2 u hu

end Events

end Runs
