import RadOs.Kernel.Bystanders
import RadOs.Kernel.Orderly

/-! # Programs that never lock the scheduler

Before `os_start` the scheduler is locked by `os_init`, and the idle task runs.
Afterwards it is locked as long as the running task is prepared to wait, and at
no other time.
-/

namespace RadOs
open Runs Budget

def Action.locks : Action → Bool
  | .call .schedulerLock | .call (.schedulerUnlock _) => true
  | _ => false

/-- The value of `sched_lock`. -/
structure Lockless (k : Kernel) : Prop where
  booting : k.started = false → k.taskCurrent = taskIdle ∧ k.schedLock = 1
  lock : k.started = true → k.schedLock = if k.current.ctx.preparing = true then 1 else 0

section Steps
variable [Port] {k k' : Kernel} {i : Action} {n : ℕ} {r : Option Ret}

omit [Port] in
theorem schedLockAfter_lockless (k : Kernel) (hi : i.locks = false) :
    (i = .call .start ∧ schedLockAfter k i = 0) ∨
      (∃ q, i = .call (.waitqueuePrepare q) ∧ schedLockAfter k i = k.schedLock + 1) ∨
      (∃ T, i = .call (.waitqueueWait T) ∧ schedLockAfter k i = k.schedLock - 1) ∨
      (i = .resume ∧ k.current.ctx = .brk ∧ schedLockAfter k i = k.schedLock - 1) ∨
      ((∀ T, i ≠ .call (.waitqueueWait T)) ∧ (i = .resume → k.current.ctx ≠ .brk) ∧
        schedLockAfter k i = k.schedLock) := by
  cases i with
  | call c => cases c <;> simp_all [schedLockAfter, Action.locks]
  | resume =>
    by_cases hc : k.current.ctx = .brk <;> simp [schedLockAfter, hc]
  | isrEnter => simp [schedLockAfter]
  | isrExit => simp [schedLockAfter]

omit [Port] in
theorem startedAfter_iff : startedAfter k i = true ↔ k.started = true ∨ i = .call .start := by
  cases i with
  | call c => cases c <;> simp [startedAfter]
  | _ => simp [startedAfter]

/-- A prepared task stays prepared until it waits or goes on. -/
theorem preparing_step (ht : Timely k) (hord : Orderly k i) (he : Enabled k i) (hsane : Sane k i)
    (hx : exec n i k = .ok (k', r)) (hw : ∀ T, i ≠ .call (.waitqueueWait T))
    (hb : i = .resume → k.current.ctx ≠ .brk) (hl : k'.schedLock ≠ 0)
    (hp : k.current.ctx.preparing = true) : k'.current.ctx.preparing = true := by
  by_cases hi : k.isrNesting = 0
  · cases i with
    | call c =>
      have hd := ((hord hi).1).mpr hp
      cases c with
      | waitqueueBreak =>
        obtain ⟨-, hx⟩ := Outcome.assert_ok (quiet_ok hx).1
        cases hx
        simp [Kernel.current, Kernel.setCtx, Kernel.setTask, Ctx.preparing]
      | waitqueueWait T => exact absurd rfl (hw T)
      | _ => cases hd
    | resume =>
      have hbrk := hb rfl
      have hout := he.2
      simp only [exec, resume] at hx
      cases hc : k.current.ctx with
      | prepare q =>
        rw [hc] at hx
        cases (quiet_ok hx).1
        simp [Kernel.current, Kernel.setCtx, Kernel.setTask, Ctx.preparing]
      | _ => simp_all [Ctx.preparing]
    | isrEnter => cases hx; exact hp
    | isrExit => cases hx; exact hp
  · have hcur : k'.taskCurrent = k.taskCurrent := by
      obtain hc | ⟨h₀, -⟩ | ⟨h₀, -⟩ := taskCurrent_cases ht.sound he hsane hx
      · exact hc
      · exact absurd h₀ hl
      · exact absurd h₀ hi
    have hbs := beside ht.sound ht.awake he hsane hx (t := k.taskCurrent)
      ht.sound.placed.currentLive fun ha => hi ha.1
    rw [Kernel.current, hcur, hbs.ctx]
    exact hp

theorem Lockless.step (h : Lockless k) (htd : Tidy k) (ht : Timely k) (hord : Orderly k i)
    (he : Enabled k i) (hsane : Sane k i) (hl : i.locks = false)
    (hx : exec n i k = .ok (k', r)) : Lockless k' := by
  have htd' := htd.step ht hord he hsane hx
  have hsc := scalarStep ht.sound.placed ht.sound.owned hsane hx
  have hzero : k'.schedLock = 0 → k'.current.ctx.preparing = false := by
    intro h0
    by_contra hp
    have := htd'.held (by simpa using hp)
    omega
  have hlock := hsc.schedLock
  have hcase := schedLockAfter_lockless k hl
  rw [← hlock] at hcase
  cases hst : k.started with
  | false =>
    obtain ⟨hidle, h1⟩ := h.booting hst
    have hnest : k.isrNesting = 0 := by
      by_contra hn
      have := ht.awake (Nat.pos_of_ne_zero hn)
      rw [hst] at this
      cases this
    have hnp : k.current.ctx.preparing = false := by
      rw [Kernel.current, hidle]
      exact htd.idle
    obtain ⟨rfl, h0⟩ | ⟨q, rfl, -⟩ | ⟨T, rfl, -⟩ | ⟨-, hb, -⟩ | ⟨-, -, hsame⟩ := hcase
    · have hstart : k'.started = true := hsc.started
      refine ⟨fun hf => by simp [hstart] at hf, fun _ => ?_⟩
      rw [h0, hzero h0]
      rfl
    · exact absurd hidle (Placed.waitqueuePrepare (quiet_ok hx).1).2.1
    · rw [((hord hnest).1).mp rfl] at hnp
      cases hnp
    · rw [hb] at hnp
      cases hnp
    · have hcur : k'.taskCurrent = taskIdle := by
        obtain hc | ⟨h₀, -⟩ | ⟨-, -, hw⟩ := taskCurrent_cases ht.sound he hsane hx
        · exact hc.trans hidle
        · omega
        · have hid := (ht.sound.exec hsane hx).placed.idle
          rw [← hidle] at hid
          simp only at hw
          obtain hw | hw := hw <;> simp [hw, TaskState.live] at hid
      refine ⟨fun _ => ⟨hcur, by omega⟩, fun hs => ?_⟩
      obtain hs | rfl := startedAfter_iff.mp (hsc.started.symm.trans hs)
      · rw [hst] at hs
        cases hs
      · rw [schedLockAfter] at hlock
        omega
  | true =>
    have hs := h.lock hst
    have hst' : k'.started = true := hsc.started.trans (startedAfter_iff.mpr (Or.inl hst))
    refine ⟨fun hf => by simp [hst'] at hf, fun _ => ?_⟩
    have hend : k'.schedLock = 0 →
        k'.schedLock = if k'.current.ctx.preparing = true then 1 else 0 := by
      intro h0
      rw [h0, hzero h0]
      rfl
    obtain ⟨-, h0⟩ | ⟨q, rfl, h1⟩ | ⟨T, rfl, h1⟩ | ⟨-, hb, h1⟩ | ⟨hw, hb, hsame⟩ := hcase
    · exact hend h0
    · obtain ⟨hi, -, -, -, rfl⟩ := Placed.waitqueuePrepare (quiet_ok hx).1
      have hnp : ¬ k.current.ctx.preparing = true := fun hp => by
        have := ((hord hi).1).mpr hp
        cases this
      rw [if_neg hnp] at hs
      rw [if_pos (by simp [Kernel.current, Kernel.setCtx, Kernel.setTask, Ctx.preparing])]
      omega
    · obtain ⟨c, hx, -⟩ := coded_ok hx
      obtain ⟨hi, -⟩ := ht.sound.placed.waitqueueWait hx
      rw [if_pos (((hord hi).1).mp rfl)] at hs
      exact hend (by omega)
    · rw [if_pos (by simp [hb, Ctx.preparing])] at hs
      exact hend (by omega)
    · by_cases hp : k.current.ctx.preparing = true
      · rw [if_pos hp] at hs
        rw [if_pos (preparing_step ht hord he hsane hx hw hb (by omega) hp)]
        omega
      · rw [if_neg hp] at hs
        exact hend (by omega)

omit [Port] in
theorem lockless_init : Lockless (osInit coldKernel) := by
  refine ⟨fun _ => ⟨rfl, rfl⟩, nofun⟩

omit [Port] in
/-- The running task is outside the kernel and not prepared. -/
theorem Lockless.lock_zero (h : Lockless k) (hp : k.current.ctx.preparing = false)
    (hi : k.taskCurrent ≠ taskIdle) : k.schedLock = 0 := by
  cases hst : k.started with
  | false => exact absurd (h.booting hst).1 hi
  | true => rw [h.lock hst, hp]; rfl

end Steps

end RadOs
