import RadOs.Kernel.Sound
import RadOs.Timer.Machine

/-! # Concrete runs

A larger budget never changes the result of a step, so one budget is enough to
know what a step does, and a list of actions can be played by evaluation.
-/

namespace RadOs
open Bucketed Runs Budget

section Steady
variable {k : Kernel}

theorem steady_blocktimerCreate (proc : TimerProc) (timeoutTicks : ℕ) (k : Kernel) :
    Steady fun n => osBlocktimerCreate n proc timeoutTicks k :=
  (steady_const _).bind fun _ => (steady_osTimerCreate _ _ _ _ _).bind fun _ => steady_const _

theorem steady_destroyLoop (timed : Bool) (Q : QueueId) (k : Kernel) :
    Steady fun n => destroyLoop timed Q n k := by
  refine steady_of_succ (f := fun n k => destroyLoop timed Q n k) (fun k a h => by cases h) ?_ k
  intro n k a ih h
  unfold destroyLoop at h ⊢
  obtain ⟨⟨r, k₁⟩, hd, h⟩ := bind_eq_ok.mp h
  refine bind_eq_ok.mpr ⟨_, hd, ?_⟩
  cases r with
  | none => exact h
  | some t =>
    obtain ⟨k₂, ht, h⟩ := bind_eq_ok.mp h
    obtain ⟨k₃, hw, h⟩ := bind_eq_ok.mp h
    exact bind_eq_ok.mpr ⟨_, ht, bind_eq_ok.mpr ⟨_, hw, ih _ _ h⟩⟩

theorem steady_wakeupLoop (q : WaitqueueId) (cnt : ℕ) (b : Bool) (k : Kernel) :
    Steady fun n => wakeupLoop q n cnt b k := by
  refine steady_of_succ (f := fun n (y : ℕ × Bool × Kernel) => wakeupLoop q n y.1 y.2.1 y.2.2)
    (fun y a h => by cases h) ?_ (cnt, b, k)
  rintro n ⟨cnt, b, k⟩ a ih h
  simp only [wakeupLoop] at h ⊢
  split
  · rename_i hc
    rw [if_pos hc] at h
    obtain ⟨⟨r, k₁⟩, hd, h⟩ := bind_eq_ok.mp h
    refine bind_eq_ok.mpr ⟨_, hd, ?_⟩
    cases r with
    | none => exact h
    | some t =>
      obtain ⟨k₂, ht, h⟩ := bind_eq_ok.mp h
      obtain ⟨k₃, hw, h⟩ := bind_eq_ok.mp h
      exact bind_eq_ok.mpr ⟨_, ht, bind_eq_ok.mpr ⟨_, hw, ih (_, _, _) _ h⟩⟩
  · rename_i hc
    rwa [if_neg hc] at h

theorem steady_prioBoostLoop (p : ℕ) (t : TaskId) (k : Kernel) :
    Steady fun n => prioBoostLoop p n t k := by
  refine steady_of_succ (f := fun n (y : TaskId × Kernel) => prioBoostLoop p n y.1 y.2)
    (fun y a h => by cases h) ?_ (t, k)
  rintro n ⟨t, k⟩ a ih h
  obtain ⟨k₁, hr, h⟩ := bind_eq_ok.mp h
  refine bind_eq_ok.mpr ⟨k₁, hr, ?_⟩
  split
  · rename_i hs
    rwa [if_pos hs] at h
  · rename_i hs
    rw [if_neg hs] at h
    split at h
    · split at h
      · exact ih (_, _) _ h
      · exact absurd h (by simp)
    · exact absurd h (by simp)

theorem steady_mtxLockPrioBoost (m : MtxId) (k : Kernel) :
    Steady fun n => osMtxLockPrioBoost n m k := by
  unfold osMtxLockPrioBoost
  cases (k.mtxs m).owner with
  | none => exact steady_const _
  | some t => exact (steady_prioBoostLoop _ _ _).ite (steady_const _)

theorem steady_semDestroy (s : SemId) (c : Ctx) (k : Kernel) :
    Steady fun n => osSemDestroy n s c k :=
  (steady_const _).bind fun _ => (steady_const _).bind fun _ =>
    (steady_destroyLoop _ _ _).bind fun _ => steady_const _

theorem steady_semDown (s : SemId) (timeoutTicks : ℕ) (c : Ctx) (k : Kernel) :
    Steady fun n => osSemDown n s timeoutTicks c k :=
  (steady_const _).bind fun _ => (steady_const _).bind fun _ => (steady_const _).bind fun _ =>
    (steady_const _).bind fun _ => (steady_const _).ite ((steady_const _).ite
      (((steady_blocktimerCreate _ _ _).ite (steady_const _)).bind fun _ => steady_const _))

theorem steady_mtxDestroy (m : MtxId) (k : Kernel) : Steady fun n => osMtxDestroy n m k :=
  (steady_const _).bind fun _ => (steady_const _).bind fun _ =>
    ((steady_const _).ite ((steady_const _).bind fun _ => (steady_const _).bind fun _ =>
      (steady_const _).bind fun _ => steady_destroyLoop _ _ _)).bind fun _ => steady_const _

theorem steady_mtxLock (m : MtxId) (k : Kernel) : Steady fun n => osMtxLock n m k :=
  (steady_const _).bind fun _ => (steady_const _).bind fun _ => (steady_const _).bind fun _ =>
    (steady_const _).ite ((steady_const _).ite
      ((steady_mtxLockPrioBoost _ _).bind fun _ => steady_const _))

theorem steady_waitqueueDestroy (q : WaitqueueId) (k : Kernel) :
    Steady fun n => osWaitqueueDestroy n q k :=
  (steady_const _).bind fun _ => (steady_destroyLoop _ _ _).bind fun _ => steady_const _

theorem steady_waitqueueWait (timeoutTicks : ℕ) (k : Kernel) :
    Steady fun n => osWaitqueueWait n timeoutTicks k := by
  refine (steady_const _).bind fun _ => (steady_const _).bind fun _ => (steady_const _).bind fun _ =>
    (steady_const _).bind fun _ => ?_
  simp only
  cases k.waitqueueCurrent with
  | none => exact steady_const _
  | some q =>
    exact ((steady_blocktimerCreate _ _ _).ite (steady_const _)).bind fun _ => steady_const _

theorem steady_waitqueueWakeup (q : WaitqueueId) (cnt : ℕ) (sync : Bool) (k : Kernel) :
    Steady fun n => osWaitqueueWakeupSync n q cnt sync k :=
  (steady_const _).bind fun _ => (steady_const _).bind fun _ => (steady_const _).bind fun _ =>
    (steady_wakeupLoop _ _ _ _).bind fun _ => steady_const _

theorem steady_joinDestroyed (t : TaskId) (r : RetCode) (k : Kernel) :
    Steady fun n => joinDestroyed n t r k :=
  (steady_const _).bind fun _ => (steady_semDestroy _ _ _).bind fun _ => steady_const _

variable [Port]

theorem steady_taskJoin (t : TaskId) (k : Kernel) : Steady fun n => osTaskJoin n t k := by
  refine (steady_const _).bind fun _ => (steady_const _).bind fun _ => (steady_const _).bind fun _ =>
    (steady_const _).bind fun _ => (steady_const _).bind fun _ => (steady_const _).ite
      (Steady.ite ?_ (steady_const _))
  refine (steady_const _).bind fun _ => (steady_semDown _ _ _ _).bind fun x => ?_
  obtain ⟨k₁, r⟩ := x
  cases r with
  | none => exact steady_const _
  | some r => exact steady_joinDestroyed _ _ _

theorem steady_exec (i : Action) (k : Kernel) : Steady fun n => exec n i k := by
  have hq : ∀ f : ℕ → Outcome Kernel, Steady f → Steady fun n => quiet (f n) :=
    fun f hf => hf.bind fun _ => steady_const _
  have hc : ∀ f : ℕ → Outcome (Kernel × Option RetCode), Steady f → Steady fun n => coded (f n) :=
    fun f hf => hf.bind fun _ => steady_const _
  cases i with
  | call c =>
    cases c with
    | taskJoin t => exact steady_taskJoin t k
    | semDestroy s => exact hq _ (steady_semDestroy _ _ k)
    | semDown s timeoutTicks => exact hc _ (steady_semDown _ _ _ k)
    | mtxDestroy m => exact hq _ (steady_mtxDestroy m k)
    | mtxLock m => exact hc _ (steady_mtxLock m k)
    | waitqueueDestroy q => exact hq _ (steady_waitqueueDestroy q k)
    | waitqueueWait timeoutTicks => exact hc _ (steady_waitqueueWait timeoutTicks k)
    | waitqueueWakeup q cnt sync => exact hq _ (steady_waitqueueWakeup q cnt sync k)
    | timerCreate x timeoutTicks reloadTicks =>
      exact hq _ ((steady_osTimerCreate _ _ _ _ _).bind fun _ => steady_const _)
    | tick =>
      exact hq _ ((steady_const _).bind fun _ => (steady_osTickTimers _ k).bind fun _ =>
        steady_const _)
    | _ => exact steady_const _
  | resume =>
    change Steady fun n => resume n k
    unfold resume
    cases k.current.ctx with
    | joinDown t => exact (steady_const _).bind fun _ => steady_joinDestroyed _ _ _
    | _ => exact steady_const _
  | isrEnter => exact steady_const _
  | isrExit => exact steady_const _

end Steady

section Play
variable [Port]

/-- Play a list of actions. `check` is a test that allows an action. -/
def play (check : Kernel → Action → Bool) (n : ℕ) : List Action → Kernel → Outcome Kernel
  | [], k => .ok k
  | i :: is, k =>
    if Enabled k i ∧ check k i = true then do
      let (k, _) ← exec n i k
      play check n is k
    else .error .halt

/-- A sufficient test for `Sane` that looks at the mask of a queue only. -/
def saneCheck (k : Kernel) : Action → Bool
  | .call (.taskCreate t _) => ! (k.tasks t).state.live
  | .call (.taskExit _) => k.taskCurrent ≠ taskIdle
  | .call (.semCreate n _) => (k.queues (.sem (.obj n))).tasks.top = 0
  | .call (.mtxCreate m) => (k.mtxs m).owner = none ∧ (k.queues (.mtx m)).tasks.top = 0
  | .call (.waitqueueCreate q) => (k.queues (.waitqueue q)).tasks.top = 0
  | _ => true

variable {P : Kernel → Action × Option Ret → Prop} {check : Kernel → Action → Bool}

omit [Port] in
theorem Filed.none_of_top {k : Kernel} (h : Filed k) {Q : QueueId}
    (ht : (k.queues Q).tasks.top = 0) (t : TaskId) : (k.tasks t).taskQueue ≠ some Q := by
  intro hQ
  have := (h Q).top_eq_zero.mp ht t
  simp [Kernel.key, hQ] at this

omit [Port] in
theorem sane_of_check {k : Kernel} (hs : Sound k) {i : Action} (h : saneCheck k i = true) :
    Sane k i := by
  cases i with
  | call c =>
    cases c <;> simp only [saneCheck, Sane, decide_eq_true_eq] at h ⊢
    case taskCreate t p => simpa [Kernel.Live] using h
    case taskExit v => exact h
    case semCreate s v => exact hs.placed.filed.none_of_top h
    case mtxCreate m => exact ⟨h.1, hs.placed.filed.none_of_top h.2⟩
    case waitqueueCreate q => exact hs.placed.filed.none_of_top h
  | resume => trivial
  | isrEnter => trivial
  | isrExit => trivial

theorem reachable_of_play (hP : ∀ k i, P k i → Sane k i.1)
    (hc : ∀ k i r, Sound k → check k i = true → P k (i, r)) {n : ℕ} {is : List Action}
    {k k' : Kernel} (h : (kernelSystem.restrict P).Reachable k)
    (hp : play check n is k = .ok k') : (kernelSystem.restrict P).Reachable k' := by
  induction is generalizing k with
  | nil =>
    cases hp
    exact h
  | cons i is ih =>
    unfold play at hp
    split at hp
    · rename_i he
      obtain ⟨⟨k₁, r⟩, hx, hp⟩ := bind_eq_ok.mp hp
      have hs := sound_of_reachable hP h
      exact ih (h.step (i := (i, r)) ⟨hc k i r hs he.2, he.1, (steady_exec i k).settles hx⟩) hp
    · cases hp

/-- Play a list of actions and keep the steps, latest first. -/
def playRun (check : Kernel → Action → Bool) (n : ℕ) :
    List Action → List KernelStep → Kernel → Outcome (List KernelStep × Kernel)
  | [], tr, k => .ok (tr, k)
  | i :: is, tr, k =>
    if Enabled k i ∧ check k i = true then do
      let (k', r) ← exec n i k
      playRun check n is (⟨k, (i, r), k'⟩ :: tr) k'
    else .error .halt

/-- A test of the last step of a run and of the steps before it. -/
def onLast (p : KernelStep → List KernelStep → Bool) : List KernelStep → Bool
  | [] => false
  | x :: tr => p x tr

theorem run_of_playRun (hP : ∀ k i, P k i → Sane k i.1)
    (hc : ∀ k i r, Sound k → check k i = true → P k (i, r)) {n : ℕ} {is : List Action}
    {tr tr' : List KernelStep} {k k' : Kernel} (h : (kernelSystem.restrict P).Run tr k)
    (hp : playRun check n is tr k = .ok (tr', k')) : (kernelSystem.restrict P).Run tr' k' := by
  induction is generalizing tr k with
  | nil =>
    cases hp
    exact h
  | cons i is ih =>
    unfold playRun at hp
    split at hp
    · rename_i he
      obtain ⟨⟨k₁, r⟩, hx, hp⟩ := bind_eq_ok.mp hp
      have hs := sound_of_reachable hP ⟨tr, h⟩
      exact ih (h.step (i := (i, r)) ⟨hc k i r hs he.2, he.1, (steady_exec i k).settles hx⟩) hp
    · cases hp

/-- The same from a reachable state on. -/
theorem run_startAt_of_playRun (hP : ∀ k i, P k i → Sane k i.1)
    (hc : ∀ k i r, Sound k → check k i = true → P k (i, r)) {n : ℕ} {is : List Action}
    {tr tr' : List KernelStep} {k₀ k k' : Kernel} (h₀ : (kernelSystem.restrict P).Reachable k₀)
    (h : ((kernelSystem.restrict P).startAt k₀).Run tr k)
    (hp : playRun check n is tr k = .ok (tr', k')) :
    ((kernelSystem.restrict P).startAt k₀).Run tr' k' := by
  induction is generalizing tr k with
  | nil =>
    cases hp
    exact h
  | cons i is ih =>
    unfold playRun at hp
    split at hp
    · rename_i he
      obtain ⟨⟨k₁, r⟩, hx, hp⟩ := bind_eq_ok.mp hp
      have hs := sound_of_reachable hP (h₀.run h)
      exact ih (h.step (i := (i, r)) ⟨hc k i r hs he.2, he.1, (steady_exec i k).settles hx⟩) hp
    · cases hp

/-- Play a list of actions from the start of the kernel, and one more with the states around it. -/
def playStep (check : Kernel → Action → Bool) (n : ℕ) (is : List Action) (i : Action) :
    Outcome (Kernel × Kernel × Option Ret) := do
  let k ← play check n is (osInit coldKernel)
  if Enabled k i ∧ check k i = true then do
    let (k', r) ← exec n i k
    return (k, k', r)
  else .error .halt

theorem step_of_playStep (hP : ∀ k i, P k i → Sane k i.1)
    (hc : ∀ k i r, Sound k → check k i = true → P k (i, r)) {n : ℕ} {is : List Action}
    {i : Action} {k k' : Kernel} {r : Option Ret} (h : playStep check n is i = .ok (k, k', r)) :
    (kernelSystem.restrict P).Reachable k ∧ P k (i, r) ∧ k.Step (i, r) k' := by
  obtain ⟨k₁, hk, h⟩ := bind_eq_ok.mp h
  have hr := reachable_of_play hP hc (.start rfl) hk
  split at h
  · rename_i he
    obtain ⟨⟨k₂, r⟩, hx, h⟩ := bind_eq_ok.mp h
    cases h
    exact ⟨hr, hc k i r (sound_of_reachable hP hr) he.2, he.1, (steady_exec i k).settles hx⟩
  · cases h

end Play

/-- The AVR port with the priorities of `os_config.h`. -/
instance (priority := low) avrPort : Port where
  atomicMax := 255
  priocnt := 5

end RadOs
