import RadOs.Timer.Destroy
import RadOs.Timer.Naive
import RadOs.Lib.Settles

/-! # The timer module as a machine

A transition system over the calls of the interface. A larger budget never
changes the result of a call, so a list of calls can be played by evaluation.
-/

namespace RadOs
open LinkedRing Budget Runs

variable {τ π : Type} [DecidableEq τ]

def TimerCall.exec (n : ℕ) : TimerCall τ π → Timers τ π → Outcome (Timers τ π)
  | .create t proc timeout reload, s => osTimerCreate n t proc timeout reload s
  | .destroy t, s => osTimerDestroy t s
  | .tick stops, s => osTickTimers (fun t => destroyAll (stops t)) n s

/-- The arguments of the call are values of the tick type. -/
def TimerCall.Typed : TimerCall τ π → Prop
  | .create _ _ timeout reload => timeout < ticksMod ∧ reload < ticksMod
  | _ => True

/-- The callbacks that run in the call leave the timers alone. -/
def TimerCall.Quiet : TimerCall τ π → Prop
  | .tick stops => ∀ t, stops t = []
  | _ => True

/-- The memory before `os_timers_init`: no timer was created. -/
structure Timers.Fresh (s : Timers τ π) : Prop where
  unmade : ∀ t, ¬s.Made t
  unsynch : s.timerTickUnsynch = 0
  history : s.history = []

/-- The timer module under calls from tasks and interrupts. -/
def timerSystem (τ π : Type) [DecidableEq τ] : System (Timers τ π) (TimerCall τ π) where
  start s := ∃ s₀ : Timers τ π, s₀.Fresh ∧ s = osTimersInit s₀
  step s c s' := c.Typed ∧ Settles (fun n => c.exec n s) (.ok s')

section Steady
variable {σ : Type}

omit [DecidableEq τ] in
theorem steady_timerAddLoop (s : Timers τ π) (rem : ℕ) (x : TimerNode τ) :
    Steady fun n => timerAddLoop s rem n x := by
  refine steady_of_succ (f := fun n x => timerAddLoop s rem n x) (fun x a h => by cases h) ?_ x
  intro n x a ih h
  cases x with
  | timerList => exact h
  | listAutoreload => exact h
  | timer t =>
    unfold timerAddLoop at h ⊢
    split
    · rename_i hlt
      rwa [if_pos hlt] at h
    · rename_i hlt
      rw [if_neg hlt] at h
      exact ih _ _ h

theorem steady_timerAdd (t : τ) (s : Timers τ π) : Steady fun n => timerAdd n t s :=
  (steady_timerAddLoop s _ _).bind fun _ => steady_const _

theorem steady_osTimerCreate (t : τ) (proc : π) (timeoutTicks reloadTicks : ℕ) (s : Timers τ π) :
    Steady fun n => osTimerCreate n t proc timeoutTicks reloadTicks s :=
  (steady_const _).bind fun _ => (steady_const _).bind fun _ => (steady_const _).bind fun _ =>
    steady_timerAdd t _

theorem steady_rearmLoop (s : Timers τ π) : Steady fun n => rearmLoop n s := by
  refine steady_of_succ (f := fun n s => rearmLoop n s) (fun s a h => by cases h) ?_ s
  intro n s a ih h
  unfold rearmLoop at h ⊢
  split at h
  · exact h
  · obtain ⟨s₁, h₁, h₂⟩ := bind_eq_ok.mp h
    exact bind_eq_ok.mpr ⟨s₁, steady_timerAdd _ _ _ _ _ (Nat.le_succ n) h₁, ih _ _ h₂⟩
  · exact h

variable [HasTimers σ τ π]
open HasTimers

theorem steady_triggerLoop (clbck : τ → σ → Outcome σ) (x : TimerNode τ) (s : σ) :
    Steady fun n => triggerLoop clbck n x s := by
  refine steady_of_succ (f := fun n (y : TimerNode τ × σ) => triggerLoop clbck n y.1 y.2)
    (fun y a h => by cases h) ?_ (x, s)
  rintro n ⟨x, s⟩ a ih h
  cases x with
  | timerList => exact h
  | listAutoreload => exact h
  | timer t =>
    simp only [triggerLoop] at h ⊢
    split
    · rename_i hlt
      rw [if_pos hlt] at h
      exact ih (_, _) _ h
    · rename_i hlt
      rw [if_neg hlt] at h
      obtain ⟨s₁, h₁, h₂⟩ := bind_eq_ok.mp h
      refine bind_eq_ok.mpr ⟨s₁, h₁, ?_⟩
      split
      · rename_i hr
        rw [if_pos hr] at h₂
        exact ih (_, _) _ h₂
      · rename_i hr
        rw [if_neg hr] at h₂
        exact ih (_, _) _ h₂

/-- Callbacks that return more often do not change what a loop returns. -/
theorem triggerLoop_mono {c c' : τ → σ → Outcome σ} (hc : ∀ t s a, c t s = .ok a → c' t s = .ok a)
    {n : ℕ} {x : TimerNode τ} {s a : σ} (h : triggerLoop c n x s = .ok a) :
    triggerLoop c' n x s = .ok a := by
  induction n generalizing x s with
  | zero => cases h
  | succ n ih =>
    cases x with
    | timerList => exact h
    | listAutoreload => exact h
    | timer t =>
      simp only [triggerLoop] at h ⊢
      split
      · rename_i hlt
        rw [if_pos hlt] at h
        exact ih h
      · rename_i hlt
        rw [if_neg hlt] at h
        obtain ⟨s₁, h₁, h₂⟩ := bind_eq_ok.mp h
        refine bind_eq_ok.mpr ⟨s₁, hc _ _ _ h₁, ?_⟩
        split
        · rename_i hr
          rw [if_pos hr] at h₂
          exact ih h₂
        · rename_i hr
          rw [if_neg hr] at h₂
          exact ih h₂

theorem osTickTimers_mono {c c' : τ → σ → Outcome σ} (hc : ∀ t s a, c t s = .ok a → c' t s = .ok a)
    {n : ℕ} {s a : σ} (h : osTickTimers c n s = .ok a) : osTickTimers c' n s = .ok a := by
  unfold osTickTimers at h ⊢
  simp only at h ⊢
  split at h
  · exact h
  · split
    · rename_i hlt
      rw [if_pos hlt] at h
      obtain ⟨s₁, h₁, h₂⟩ := bind_eq_ok.mp h
      exact bind_eq_ok.mpr ⟨s₁, triggerLoop_mono hc h₁, h₂⟩
    · rename_i hlt
      rwa [if_neg hlt] at h
  · exact absurd h (by simp)

theorem steady_osTickTimers (clbck : τ → σ → Outcome σ) (s : σ) :
    Steady fun n => osTickTimers clbck n s := by
  intro n m a hnm h
  unfold osTickTimers at h ⊢
  simp only at h ⊢
  split at h
  · exact h
  · refine Steady.ite (f := fun n => timerTrigger clbck n _) ?_ (steady_const _) n m a hnm h
    exact (steady_triggerLoop clbck _ _).bind fun s => (steady_rearmLoop _).bind fun _ =>
      steady_const _
  · exact absurd h (by simp)

theorem TimerCall.steady_exec (c : TimerCall τ π) (s : Timers τ π) :
    Steady fun n => c.exec n s := by
  cases c with
  | create t proc timeout reload => exact steady_osTimerCreate t proc timeout reload s
  | destroy t => exact steady_const _
  | tick stops => exact steady_osTickTimers _ s

end Steady

/-- Play a list of calls and keep the steps, latest first. -/
def playCalls (n : ℕ) : List (TimerCall τ π) → List (Taken (Timers τ π) (TimerCall τ π)) →
    Timers τ π → Outcome (List (Taken (Timers τ π) (TimerCall τ π)) × Timers τ π)
  | [], tr, s => .ok (tr, s)
  | c :: cs, tr, s => do
    let s' ← c.exec n s
    playCalls n cs (⟨s, c, s'⟩ :: tr) s'

theorem run_of_playCalls {P : TimerCall τ π → Prop} {n : ℕ} {cs : List (TimerCall τ π)}
    {tr tr' : List (Taken (Timers τ π) (TimerCall τ π))} {s s' : Timers τ π}
    (h : ((timerSystem τ π).restrict fun _ c => P c).Run tr s) (hc : ∀ c ∈ cs, P c ∧ c.Typed)
    (hp : playCalls n cs tr s = .ok (tr', s')) :
    ((timerSystem τ π).restrict fun _ c => P c).Run tr' s' := by
  induction cs generalizing tr s with
  | nil =>
    cases hp
    exact h
  | cons c cs ih =>
    obtain ⟨s₁, hx, hp⟩ := bind_eq_ok.mp hp
    obtain ⟨hP, hty⟩ := hc c (by simp)
    exact ih (h.step ⟨hP, hty, (c.steady_exec s).settles hx⟩) (fun d hd => hc d (by simp [hd])) hp

end RadOs
