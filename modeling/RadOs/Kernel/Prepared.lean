import RadOs.Kernel.Locking
import RadOs.Kernel.Ranking

/-! # Leaving the prepared state of a wait queue

A task that is prepared to wait has locked the scheduler. It unlocks it again in
`os_waitqueue_break`, which then calls `os_schedule`, or in `os_waitqueue_wait`,
which blocks, or returns at once if an interrupt has woken the task already.
-/

namespace RadOs
open Bucketed Runs Budget

section General
variable [Port]

/-- The task `t` goes on outside the kernel after the step. -/
def ReturnsTo (t : TaskId) (x : KernelStep) : Prop :=
  ActsIn t x.pre ∧ x.post.taskCurrent = t ∧ (x.post.tasks t).ctx = .user

/-- Interrupt handlers wake tasks, and the task `t` calls `os_waitqueue_wait` or
`os_waitqueue_break` next. -/
def Receives (t : TaskId) (x : KernelStep) : Prop :=
  (0 < x.pre.isrNesting → InHandler x) ∧
    (ActsIn t x.pre → ∀ c, x.label.1 = .call c → c = .waitqueueBreak ∨ ∃ T, c = .waitqueueWait T)

/-- The task `t` calls `os_waitqueue_wait` while it is still prepared, or no ready task is more
urgent. No nested handler disturbs the order, and no task leaves with the scheduler locked. -/
def InOrder (t : TaskId) (x : KernelStep) : Prop :=
  (ActsIn t x.pre → ∀ T, x.label.1 = .call (.waitqueueWait T) →
    x.pre.waitqueueCurrent ≠ none ∨ Ranked x.pre) ∧
  ¬ Disturbs x ∧ (Leaves x → x.post.schedLock = 0)

/-- Where the task `t` is between `os_waitqueue_prepare` and its return to the application. -/
inductive Phase (t : TaskId) (k : Kernel) : Prop
  | prepared (hl : k.Live t) (ht : t = k.taskCurrent) (hs : k.schedLock = 1)
      (hc : (∃ q, (k.tasks t).ctx = .prepare q) ∨ (∃ q, (k.tasks t).ctx = .prepared q) ∨
        (k.tasks t).ctx = .brk)
  | unlocked (hl : k.Live t) (hc : (k.tasks t).ctx = .unlocked)
      (hs : t = k.taskCurrent → k.schedLock = 0)
  | switched (hl : k.Live t)
      (hc : (k.tasks t).ctx = .schedule ∨ ∃ q, (k.tasks t).ctx = .waitqueueWait q)
      (hs : t = k.taskCurrent → Ranked k ∧ (0 < k.isrNesting → k.schedLock = 0))

section Steps
variable {k k' : Kernel} {t : TaskId} {i : Action} {r : Option Ret} {n : ℕ}

/-- Whoever is switched to is the most urgent task. -/
theorem ranked_of_changed (hs : Sound k) (hsane : Sane k i) (h : exec n i k = .ok (k', r))
    (hc : k'.taskCurrent ≠ k.taskCurrent) : Ranked k' := by
  obtain ⟨k₁, hpath, hlast⟩ := exec_parts hs.placed hs.owned hsane h
  have hcur : k₁.taskCurrent = k.taskCurrent :=
    hpath.invariant (I := fun k₁ => k₁.taskCurrent = k.taskCurrent)
      (fun a k₂ k₃ ha hk hm => (hm.taskCurrent_still ha.2).trans hk) rfl
  obtain rfl | ⟨a, -, hst, hm⟩ := hlast
  · exact absurd hcur hc
  · exact hm.ranked hst

omit [Port] in
/-- A handler does not lock the scheduler. -/
theorem schedLockAfter_handler (h : InHandler ⟨k, (i, r), k'⟩) :
    schedLockAfter k i = k.schedLock := by
  obtain rfl | rfl | ⟨-, c, rfl, hc⟩ := h
  · rfl
  · rfl
  · cases c <;> first | rfl | cases hc

/-- A step of somebody else. -/
theorem Phase.beside (h : Phase t k) (ht : Timely k) (hst : timedSystem.step k (i, r) k')
    (ha : ¬ ActsIn t k) (hr : Receives t ⟨k, (i, r), k'⟩) (ho : InOrder t ⟨k, (i, r), k'⟩) :
    Phase t k' := by
  have hst₀ := hst
  obtain ⟨⟨hsane, -⟩, he, hset⟩ := hst
  obtain ⟨n, hn⟩ := hset.exists_eq
  have hcase := taskCurrent_cases ht.sound he hsane hn
  have hsl := (scalarStep ht.sound.placed ht.sound.owned hsane hn).schedLock
  have hnest : t = k.taskCurrent → 0 < k.isrNesting := fun hc =>
    Nat.pos_of_ne_zero fun h0 => ha ⟨h0, hc⟩
  have hhandler : t = k.taskCurrent → InHandler ⟨k, (i, r), k'⟩ := fun hc => hr.1 (hnest hc)
  have hsame : t = k.taskCurrent → k'.schedLock = k.schedLock := fun hc =>
    hsl.trans (schedLockAfter_handler (hhandler hc))
  cases h with
  | prepared hl hcur hs hc =>
    have hb := RadOs.beside ht.sound ht.awake he hsane hn hl ha
    have hs' := (hsame hcur).trans hs
    have hcur' : k'.taskCurrent = k.taskCurrent := by
      obtain h | ⟨h, -⟩ | ⟨h, -⟩ := hcase
      · exact h
      · omega
      · have := hnest hcur
        simp only at h
        omega
    refine .prepared hb.live (hcur.trans hcur'.symm) hs' ?_
    rw [hb.ctx]
    exact hc
  | unlocked hl hc hs =>
    have hb := RadOs.beside ht.sound ht.awake he hsane hn hl ha
    refine .unlocked hb.live (hb.ctx.trans hc) fun hcur => ?_
    obtain h | ⟨h, -⟩ | h := hcase
    · have hcur₀ := hcur.trans h
      exact (hsame hcur₀).trans (hs hcur₀)
    · exact h
    · exact ho.2.2 h
  | switched hl hc hs =>
    have hb := RadOs.beside ht.sound ht.awake he hsane hn hl ha
    refine .switched hb.live (by rw [hb.ctx]; exact hc) fun hcur => ?_
    by_cases hch : k'.taskCurrent = k.taskCurrent
    · have hcur₀ := hcur.trans hch
      obtain ⟨hrk, hlock⟩ := hs hcur₀
      obtain ⟨hlock', hiff⟩ := (hhandler hcur₀).step ht (hlock (hnest hcur₀)) hst₀
      exact ⟨hiff.mpr (Or.inr ⟨hrk, ho.2.1⟩), fun _ => hlock'⟩
    · refine ⟨ranked_of_changed ht.sound hsane hn hch, fun hpos => ?_⟩
      obtain h | ⟨h, -⟩ | h := hcase
      · exact absurd h hch
      · exact h
      · exact ho.2.2 h

omit [Port] in
theorem Phase.not_returnsTo (h : Phase t k') : ¬ ReturnsTo t ⟨k, (i, r), k'⟩ := by
  rintro ⟨-, -, hu⟩
  simp only at hu
  cases h with
  | prepared hl ht hs hc => simp [hu] at hc
  | unlocked hl hc hs => simp [hu] at hc
  | switched hl hc hs => simp [hu] at hc

omit [Port] in
/-- An interrupt arrives. -/
theorem Phase.isrEnter (h : Phase t k) (hi : k.current.ctx.interruptible = true)
    (ht : t = k.taskCurrent) : Phase t { k with isrNesting := k.isrNesting + 1 } := by
  cases h with
  | prepared hl hcur hs hc => exact .prepared hl hcur hs hc
  | unlocked hl hc hs => exact .unlocked hl hc hs
  | switched hl hc hs =>
    subst ht
    obtain hc | ⟨q, hc⟩ := hc <;> simp [Kernel.current, hc, Ctx.interruptible] at hi

omit [Port] in
/-- `os_waitqueue_wait` returns at once or blocks. -/
theorem Phase.wait (hp : Placed k) {T : ℕ}
    (ho : k.waitqueueCurrent ≠ none ∨ Ranked k) {c : Option RetCode}
    (h : osWaitqueueWait n T k = .ok (k', c)) :
    Phase k.taskCurrent k' ∨
      (Ranked k' ∧ k'.taskCurrent = k.taskCurrent ∧ (k'.tasks k.taskCurrent).ctx = .user) := by
  obtain ⟨-, -, -, ⟨hw, -, rfl⟩ | ⟨q, k₁, -, -, ht, hb⟩⟩ := hp.waitqueueWait h
  · have hrk := ho.resolve_left (by simp [hw])
    exact Or.inr ⟨hrk.setTask rfl rfl, rfl, by simp [Kernel.setCtx, Kernel.setTask]⟩
  · have hp₁ : Placed { k₁ with waitqueueCurrent := none } :=
      (Move.scalars rfl).placed (ht.move.placed ((Move.scalars rfl).placed hp))
    have hcur : k₁.taskCurrent = k.taskCurrent := ht.frame.1
    obtain ⟨hne, c, hc, htask⟩ := hb.block_current hp₁
    simp only [hcur] at hne hc htask
    have hcq : c = .waitqueueWait q := by
      cases c with
      | waitqueueWait q' => simpa [Awaits, eq_comm] using hc
      | _ => simp [Awaits] at hc
    refine Or.inl (.switched ?_ (Or.inr ⟨q, by rw [htask, hcq]⟩) fun h => absurd h.symm hne)
    rw [Kernel.Live, htask]
    rfl

omit [Port] in
/-- The task goes on inside a function. -/
theorem Phase.resume (h : Phase k.taskCurrent k) (hp : Placed k) (hi : k.isrNesting = 0)
    (hout : k.current.ctx.outside = false) (hx : RadOs.resume n k = .ok (k', r)) :
    Phase k.taskCurrent k' ∨
      (Ranked k' ∧ k'.taskCurrent = k.taskCurrent ∧ (k'.tasks k.taskCurrent).ctx = .user) := by
  have hlive : ∀ c, (k.setCtx c).Live k.taskCurrent := by
    intro c
    simpa [Kernel.Live, Kernel.setCtx, Kernel.setTask, Kernel.current] using hp.currentLive
  cases h with
  | prepared hl hcur hs hc =>
    obtain ⟨q, hc⟩ | ⟨q, hc⟩ | hc := hc
    · simp only [RadOs.resume, Kernel.current, hc] at hx
      cases (quiet_ok hx).1
      exact Or.inl (.prepared (hlive _) rfl hs (Or.inr (Or.inl ⟨q, by
        simp [Kernel.setCtx, Kernel.setTask]⟩)))
    · simp [Kernel.current, hc, Ctx.outside] at hout
    · simp only [RadOs.resume, Kernel.current, hc] at hx
      obtain ⟨-, hx⟩ := Outcome.assert_ok (quiet_ok hx).1
      obtain ⟨-, hx⟩ := Outcome.assert_ok hx
      simp only [hs, true_and] at hx
      cases hx
      exact Or.inl (.unlocked (hlive _) (by simp [Kernel.setCtx, Kernel.setTask]) fun _ => rfl)
  | unlocked hl hc hs =>
    simp only [RadOs.resume, Kernel.current, hc] at hx
    have hm := setCtx_move k .user
    have hsch := (hm.placed hp).schedule (quiet_ok hx).1 (Or.inl rfl)
    obtain rfl | ⟨hne, hctx⟩ := (hm.placed hp).schedule_ctx (quiet_ok hx).1 hi
    · exact Or.inr ⟨hsch.ranked le_rfl (by rw [show (k.setCtx .user).isrNesting = 0 from hi]; omega)
        (hs rfl), rfl, by simp [Kernel.setCtx, Kernel.setTask]⟩
    · obtain ⟨rfl, -⟩ | hsw := hsch
      · exact absurd rfl hne
      · exact Or.inl (.switched (((hsw.task _).live_iff (hm.placed hp).toStanding).mpr
          (Or.inl ⟨hlive _, by simp⟩)) (Or.inl hctx) fun h => absurd h.symm hne)
  | switched hl hc hs =>
    have hrk := (hs rfl).1
    obtain hc | ⟨q, hc⟩ := hc
    · simp only [RadOs.resume, Kernel.current, hc] at hx
      cases (quiet_ok hx).1
      have hrun : Ranked k.running := hrk.setTask rfl rfl
      exact Or.inr ⟨hrun.setTask rfl rfl, rfl, by
        simp [Kernel.setCtx, Kernel.setTask, Kernel.running]⟩
    · simp only [RadOs.resume, Kernel.current, hc] at hx
      obtain ⟨⟨k₁, c⟩, hb, hx⟩ := Outcome.bind_ok hx
      cases hx
      obtain ⟨x, -, rfl, -⟩ := blockedReturn_ok hb
      have hrun : Ranked (k.setTask k.taskCurrent
          { k.current with state := .running, timer := none }) := hrk.setTask rfl rfl
      exact Or.inr ⟨hrun.setTask rfl rfl, rfl, by simp [Kernel.setCtx, Kernel.setTask]⟩

/-- A step of the task itself. -/
theorem Phase.acts (h : Phase t k) (ht : Timely k) (hst : timedSystem.step k (i, r) k')
    (ha : ActsIn t k) (hr : Receives t ⟨k, (i, r), k'⟩) (ho : InOrder t ⟨k, (i, r), k'⟩) :
    Phase t k' ∨ (Ranked k' ∧ ReturnsTo t ⟨k, (i, r), k'⟩) := by
  have hp := ht.sound.placed
  obtain ⟨⟨hsane, -⟩, he, hset⟩ := hst
  obtain ⟨n, hn⟩ := hset.exists_eq
  obtain ⟨hi, rfl⟩ := ha
  have hactsin : ActsIn k.taskCurrent k := ⟨hi, rfl⟩
  -- a handler does not run, so the task calls a function, goes on in one or is interrupted
  cases i with
  | isrExit => simp [Enabled, hi] at he
  | isrEnter =>
    cases hn
    exact Or.inl (h.isrEnter (he.2 hi) rfl)
  | call c =>
    rw [Enabled, if_pos hi] at he
    have hs : k.schedLock = 1 := by
      cases h with
      | prepared hl hc hs hctx => exact hs
      | unlocked hl hc hs => simp [Kernel.current, hc, Ctx.outside] at he
      | switched hl hc hs =>
        obtain hc | ⟨q, hc⟩ := hc <;> simp [Kernel.current, hc, Ctx.outside] at he
    obtain rfl | ⟨T, rfl⟩ := hr.2 hactsin c rfl
    · obtain ⟨-, hx⟩ := Outcome.assert_ok (quiet_ok hn).1
      cases hx
      refine Or.inl (.prepared ?_ rfl hs (Or.inr (Or.inr ?_)))
      · simpa [Kernel.Live, Kernel.setCtx, Kernel.setTask, Kernel.current] using hp.currentLive
      · simp [Kernel.setCtx, Kernel.setTask]
    · obtain ⟨c, hx, -⟩ := coded_ok hn
      refine (Phase.wait hp (ho.1 hactsin T rfl) hx).imp_right ?_
      rintro ⟨h₁, h₂, h₃⟩
      exact ⟨h₁, hactsin, h₂, h₃⟩
  | resume =>
    refine (h.resume hp hi he.2 hn).imp_right ?_
    rintro ⟨h₁, h₂, h₃⟩
    exact ⟨h₁, hactsin, h₂, h₃⟩

/-- `os_waitqueue_prepare` with an unlocked scheduler. -/
theorem Phase.start (ht : Timely k) (hl : k.schedLock = 0) {q : WaitqueueId}
    (hst : timedSystem.step k (.call (.waitqueuePrepare q), r) k') : Phase k.taskCurrent k' := by
  obtain ⟨n, hn⟩ := hst.2.2.exists_eq
  obtain ⟨-, -, -, -, rfl⟩ := Placed.waitqueuePrepare (quiet_ok hn).1
  refine .prepared ?_ rfl (by simp [Kernel.setCtx, Kernel.setTask, hl]) (Or.inl ⟨q, ?_⟩)
  · simpa [Kernel.Live, Kernel.setCtx, Kernel.setTask, Kernel.current] using
      ht.sound.placed.currentLive
  · simp [Kernel.setCtx, Kernel.setTask]

end Steps

section Runs
variable {k k₀ k₁ : Kernel} {tr : List KernelStep} {x : KernelStep} {r : Option Ret}
  {q : WaitqueueId}

/-- Up to the return of the task every step leads from phase to phase. -/
theorem phase_of_run (h₀ : timedSystem.Reachable k₀) (hl : k₀.schedLock = 0)
    (hp : timedSystem.step k₀ (.call (.waitqueuePrepare q), r) k₁)
    (h : (timedSystem.startAt k₁).Run tr k)
    (hin : ∀ y ∈ tr, Receives k₀.taskCurrent y ∧ InOrder k₀.taskCurrent y ∧
      ¬ ReturnsTo k₀.taskCurrent y) : Phase k₀.taskCurrent k := by
  induction h with
  | start h =>
    cases h
    exact .start (timely_of_reachable h₀) hl hp
  | @step tr k k' i hrun hst ih =>
    obtain ⟨i, r⟩ := i
    have ht := timely_of_reachable ((h₀.step hp).run hrun)
    have hph := ih fun y hy => hin y (by simp [hy])
    obtain ⟨hrec, hord, hret⟩ := hin ⟨k, (i, r), k'⟩ (by simp)
    by_cases ha : ActsIn k₀.taskCurrent k
    · exact (hph.acts ht hst ha hrec hord).resolve_right fun h => hret h.2
    · exact hph.beside ht hst ha hrec hord

/-- The task that has called `os_waitqueue_prepare` returns to the application from
`os_waitqueue_wait` or `os_waitqueue_break` for the first time with the last step of the run. Then it
is the most urgent task, if all the steps are in order. -/
theorem leaving_prepared_restores_order (h₀ : timedSystem.Reachable k₀) (hl : k₀.schedLock = 0)
    (hp : timedSystem.step k₀ (.call (.waitqueuePrepare q), r) k₁)
    (h : (timedSystem.startAt k₁).Run (x :: tr) k)
    (hin : ∀ y ∈ x :: tr, Receives k₀.taskCurrent y ∧ InOrder k₀.taskCurrent y)
    (hfirst : ∀ y ∈ tr, ¬ ReturnsTo k₀.taskCurrent y) (hret : ReturnsTo k₀.taskCurrent x) :
    Ranked k := by
  cases h with
  | @step _ k₂ _ i hrun hst =>
    obtain ⟨i, r⟩ := i
    have ht := timely_of_reachable ((h₀.step hp).run hrun)
    have hph := phase_of_run h₀ hl hp hrun fun y hy =>
      ⟨(hin y (by simp [hy])).1, (hin y (by simp [hy])).2, hfirst y hy⟩
    obtain ⟨hrec, hord⟩ := hin ⟨k₂, (i, r), k⟩ (by simp)
    obtain h | h := hph.acts ht hst hret.1 hrec hord
    · exact absurd hret h.not_returnsTo
    · exact h.1

end Runs

end General

instance (t : TaskId) (x : KernelStep) : Decidable (ReturnsTo t x) :=
  inferInstanceAs (Decidable (_ ∧ _ ∧ _))

/-- The task 1 runs and the more urgent task 2 waits for the semaphore 0. The task 1 prepares to wait
on the wait queue 0. -/
def preparingRun : List Action := signalRun ++ [.call (.waitqueueCreate 0)]

/-- An interrupt wakes the task 2 while the task 1 is prepared. The task 2 runs before the task 1
returns from `os_waitqueue_break`. -/
theorem leaving_prepared_restores_order_break : ∃ k₀ r k₁ x tr k, timedSystem.Reachable k₀ ∧
    k₀.schedLock = 0 ∧ k₀.taskCurrent = 1 ∧
    timedSystem.step k₀ (.call (.waitqueuePrepare 0), r) k₁ ∧
    (timedSystem.startAt k₁).Run (x :: tr) k ∧ ReturnsTo 1 x ∧
    (∃ y ∈ tr, y.post.taskCurrent = 2) ∧ Ranked k := by
  obtain ⟨⟨k₀, k₁, r⟩, hk₀, hx₀⟩ := Outcome.exists_of_holds
    (x := playStep timedCheck 10 preparingRun (.call (.waitqueuePrepare 0)))
    (p := fun x₀ => decide (x₀.1.schedLock = 0 ∧ x₀.1.taskCurrent = 1) &&
      (playRun timedCheck 10 [.resume, .isrEnter, .call (.semUp 0 false), .isrExit,
        .call .waitqueueBreak, .resume, .resume, .resume, .call (.semDown 0 osTimeoutInfinite),
        .resume] [] x₀.2.1).holds fun y₀ => onLast (fun x tr => decide (ReturnsTo 1 x ∧
          (∃ y ∈ tr, y.post.taskCurrent = 2) ∧
          (∀ y ∈ tr, ¬ ReturnsTo 1 y) ∧ ∀ y ∈ x :: tr, y.pre.isrNesting ≤ 1 ∧
            (y.post.schedLock = 0 ∨ y.label.1 ≠ .call (.semDown 0 osTimeoutInfinite)) ∧
            ((y.pre.isrNesting = 0 ∧ y.label.1 = .resume) ∨ y.label.1 = .isrEnter ∨
              y.label.1 = .isrExit ∨
              (0 < y.pre.isrNesting ∧ y.label.1 = .call (.semUp 0 false)) ∨
              (ActsIn 1 y.pre ∧ y.label.1 = .call .waitqueueBreak) ∨
              (ActsIn 2 y.pre ∧ y.label.1 = .call (.semDown 0 osTimeoutInfinite))))) y₀.1)
    (by decide +kernel)
  rw [Bool.and_eq_true] at hx₀
  obtain ⟨⟨tr, k⟩, hk, hx⟩ := Outcome.exists_of_holds hx₀.2
  obtain ⟨hl, hc⟩ := of_decide_eq_true hx₀.1
  obtain ⟨hr, hP, hst⟩ := step_of_playStep (P := fun k i => Sane k i.1 ∧ Typed i.1)
    (fun _ _ h => h.1) (fun _ _ _ hs h => timed_of_check hs h) hk₀
  have hr : timedSystem.Reachable k₀ := hr
  have hst : timedSystem.step k₀ (.call (.waitqueuePrepare 0), r) k₁ := ⟨hP, hst⟩
  have hrun : (timedSystem.startAt k₁).Run tr k :=
    run_startAt_of_playRun (P := fun k i => Sane k i.1 ∧ Typed i.1) (fun _ _ h => h.1)
      (fun _ _ _ hs h => timed_of_check hs h) (hr.step hst) (.start rfl) hk
  cases tr with
  | nil => cases hx
  | cons x tr =>
    obtain ⟨hret, htwo, hfirst, hin⟩ := of_decide_eq_true hx
    refine ⟨k₀, r, k₁, x, tr, k, hr, hl, hc, hst, hrun, hret, htwo, ?_⟩
    refine leaving_prepared_restores_order hr hl hst hrun (fun y hy => ?_) (by rwa [hc]) (by rwa [hc])
    rw [hc]
    obtain ⟨hn, hs, hy⟩ := hin y hy
    have hd : ¬ Disturbs y := fun h => absurd h.1 (by omega)
    have hleave : Leaves y → y.post.schedLock = 0 := by
      rintro ⟨-, ⟨c, hc, hl⟩, -⟩
      refine hs.resolve_right fun hne => hne ?_
      obtain ⟨-, h⟩ | h | h | ⟨-, h⟩ | ⟨-, h⟩ | ⟨-, h⟩ := hy <;> rw [h] at hc <;> cases hc
      · cases hl
      · cases hl
      · exact h
    obtain ⟨h₀, h⟩ | h | h | ⟨h₀, h⟩ | ⟨h₀, h⟩ | ⟨h₀, h⟩ := hy
    · exact ⟨⟨fun hpos => by omega, by simp [h]⟩, by simp [h], hd, hleave⟩
    · exact ⟨⟨fun _ => Or.inl h, by simp [h]⟩, by simp [h], hd, hleave⟩
    · exact ⟨⟨fun _ => Or.inr (Or.inl h), by simp [h]⟩, by simp [h], hd, hleave⟩
    · refine ⟨⟨fun hpos => Or.inr (Or.inr ⟨hpos, _, h, rfl⟩), fun ha => ?_⟩, by simp [h], hd, hleave⟩
      exact absurd ha.1 (by omega)
    · refine ⟨⟨fun hpos => absurd h₀.1 (by omega), fun _ c hc => ?_⟩, by simp [h], hd, hleave⟩
      rw [h] at hc
      cases hc
      exact Or.inl rfl
    · refine ⟨⟨fun hpos => absurd h₀.1 (by omega), fun ha => ?_⟩, by simp [h], hd, hleave⟩
      exact absurd (ha.2.trans h₀.2.symm) (by decide)

/-- An interrupt wakes the task 2, and takes the task 1 back from the wait queue, which then returns
at once from `os_waitqueue_wait`. -/
theorem leaving_prepared_disturbs_order : ∃ k₀ r k₁ x tr k, timedSystem.Reachable k₀ ∧
    k₀.schedLock = 0 ∧ k₀.taskCurrent = 1 ∧
    timedSystem.step k₀ (.call (.waitqueuePrepare 0), r) k₁ ∧
    (timedSystem.startAt k₁).Run (x :: tr) k ∧ (∀ y ∈ x :: tr, Receives 1 y) ∧
    (∀ y ∈ tr, ¬ ReturnsTo 1 y) ∧ ReturnsTo 1 x ∧
    x.label = (.call (.waitqueueWait osTimeoutInfinite), some (.code .ok)) ∧
    (k.tasks 2).taskQueue = some .ready ∧ ¬ Ranked k := by
  obtain ⟨⟨k₀, k₁, r⟩, hk₀, hx₀⟩ := Outcome.exists_of_holds
    (x := playStep timedCheck 10 preparingRun (.call (.waitqueuePrepare 0)))
    (p := fun x₀ => decide (x₀.1.schedLock = 0 ∧ x₀.1.taskCurrent = 1) &&
      (playRun timedCheck 10 [.resume, .isrEnter, .call (.semUp 0 false),
        .call (.waitqueueWakeup 0 osWaitqueueAll false), .isrExit,
        .call (.waitqueueWait osTimeoutInfinite)] [] x₀.2.1).holds fun y₀ =>
        onLast (fun x tr => decide (ReturnsTo 1 x ∧ (∀ y ∈ tr, ¬ ReturnsTo 1 y) ∧
          x.label = (.call (.waitqueueWait osTimeoutInfinite), some (.code .ok)) ∧
          (y₀.2.tasks 2).taskQueue = some .ready ∧
          y₀.2.current.prioCurrent < (y₀.2.tasks 2).prioCurrent ∧ ∀ y ∈ x :: tr,
            (y.pre.isrNesting = 0 ∧ (y.label.1 = .resume ∨ y.label.1 = .isrEnter ∨
              y.label.1 = .call (.waitqueueWait osTimeoutInfinite))) ∨
            (0 < y.pre.isrNesting ∧ (y.label.1 = .isrExit ∨ y.label.1 = .call (.semUp 0 false) ∨
              y.label.1 = .call (.waitqueueWakeup 0 osWaitqueueAll false))))) y₀.1)
    (by decide +kernel)
  rw [Bool.and_eq_true] at hx₀
  obtain ⟨⟨tr, k⟩, hk, hx⟩ := Outcome.exists_of_holds hx₀.2
  obtain ⟨hl, hc⟩ := of_decide_eq_true hx₀.1
  obtain ⟨hr, hP, hst⟩ := step_of_playStep (P := fun k i => Sane k i.1 ∧ Typed i.1)
    (fun _ _ h => h.1) (fun _ _ _ hs h => timed_of_check hs h) hk₀
  have hr : timedSystem.Reachable k₀ := hr
  have hst : timedSystem.step k₀ (.call (.waitqueuePrepare 0), r) k₁ := ⟨hP, hst⟩
  have hrun : (timedSystem.startAt k₁).Run tr k :=
    run_startAt_of_playRun (P := fun k i => Sane k i.1 ∧ Typed i.1) (fun _ _ h => h.1)
      (fun _ _ _ hs h => timed_of_check hs h) (hr.step hst) (.start rfl) hk
  cases tr with
  | nil => cases hx
  | cons x tr =>
    obtain ⟨hret, hfirst, hlabel, hq, hlt, hin⟩ := of_decide_eq_true hx
    refine ⟨k₀, r, k₁, x, tr, k, hr, hl, hc, hst, hrun, fun y hy => ?_, hfirst, hret, hlabel, hq,
      fun hrk => ?_⟩
    · obtain ⟨hn, h⟩ | ⟨hn, h⟩ := hin y hy
      · refine ⟨fun hpos => by omega, fun _ c hc => Or.inr ⟨osTimeoutInfinite, ?_⟩⟩
        obtain h | h | h := h <;> rw [h] at hc <;> cases hc
        rfl
      · refine ⟨fun hpos => ?_, fun ha => absurd ha.1 (by omega)⟩
        obtain h | h | h := h
        · exact Or.inr (Or.inl h)
        · exact Or.inr (Or.inr ⟨hpos, _, h, rfl⟩)
        · exact Or.inr (Or.inr ⟨hpos, _, h, rfl⟩)
    · have hlt : k.current.prioCurrent < (k.tasks 2).prioCurrent := hlt
      have := hrk 2 hq
      omega

end RadOs
