import RadOs.Kernel.Joins

/-! # Tasks at the places where they wait

A task comes to such a place by blocking there, and leaves it by its own next
step. In between only the one who wakes it changes what it will return.
-/

namespace RadOs
open Bucketed Runs Budget

/-- Behind `os_task_block_switch`. -/
def Ctx.waits : Ctx → Bool
  | .semDown _ | .mtxLock _ | .waitqueueWait _ | .joinDown _ => true
  | _ => false

/-- The task `t` has been woken at the place `d` with the code `c`, and has not run since. -/
structure Roused (t : TaskId) (d : Ctx) (c : RetCode) (k : Kernel) : Prop where
  live : k.Live t
  queue : ∀ Q, Q ≠ .ready → (k.tasks t).taskQueue ≠ some Q
  code : (k.tasks t).blockCode = c
  ctx : (k.tasks t).ctx = d

/-- The running task is not waiting any more. -/
theorem Placed.roused {k : Kernel} (hp : Placed k) :
    Roused k.taskCurrent k.current.ctx k.current.blockCode k where
  live := hp.currentLive
  queue Q _ hq := by
    rw [hp.current] at hq
    cases hq
  code := rfl
  ctx := rfl

section Steps
variable [Port] {k k' : Kernel} {i : Action} {n : ℕ} {r : Option Ret} {t : TaskId} {c : RetCode}

omit [Port] in
theorem does_exit (h : Does k i .exit) : ∃ v, i = .call (.taskExit v) := by
  revert h
  cases i with
  | call c => cases c <;> simp [Does]
  | resume => simp [Does, Placed.JoinEnd]
  | isrEnter => simp [Does]
  | isrExit => simp [Does]

omit [Port] in
theorem does_create (h : Does k i (.create t)) : ∃ p, i = .call (.taskCreate t p) := by
  revert h
  cases i with
  | call c => cases c <;> simp +contextual [Does]
  | resume => simp [Does, Placed.JoinEnd]
  | isrEnter => simp [Does]
  | isrExit => simp [Does]

/-- A task lives until it exits. -/
theorem live_step (hs : Sound k) (hsane : Sane k i) (h : exec n i k = .ok (k', r)) (hl : k.Live t)
    (hx : ∀ v, t = k.taskCurrent → i ≠ .call (.taskExit v)) : k'.Live t := by
  obtain ⟨k₁, hpath, hlast⟩ := exec_parts hs.placed hs.owned hsane h
  obtain ⟨hp₁, hc₁, hl₁⟩ := hpath.invariant (I := fun k₁ => Placed k₁ ∧
    k₁.taskCurrent = k.taskCurrent ∧ k₁.Live t) (by
      rintro a k₂ k₃ ⟨-, hst⟩ ⟨hp, hc, hl⟩ hm
      refine ⟨hm.placed hp, (hm.taskCurrent_still hst).trans hc, ?_⟩
      exact ((hm.task t).live_iff hp.toStanding).mpr (Or.inl ⟨hl, by rintro ⟨rfl, -⟩; cases hst⟩))
    ⟨hs.placed, rfl, hl⟩
  obtain rfl | ⟨a, ha, -, hm⟩ := hlast
  · exact hl₁
  · refine ((hm.task t).live_iff hp₁.toStanding).mpr (Or.inl ⟨hl₁, ?_⟩)
    rintro ⟨rfl, hc⟩
    obtain ⟨v, rfl⟩ := does_exit ha
    exact hx v (hc.trans hc₁) rfl

omit [Port] in
/-- A task that gives the processor away waits only if it blocks. -/
theorem Move.leaves_waits {a : Kind} (h : Move a k k') (hp : Placed k) (ha : a.still = false)
    (hi : k.isrNesting = 0) (hw : (k'.tasks k.taskCurrent).ctx.waits = true) :
    ∃ Q, Q ≠ .ready ∧ a = .block Q ∧ (k'.tasks k.taskCurrent).taskQueue = some Q := by
  cases h with
  | @switch _ _ p t c hi hl hn hp hc hr =>
    obtain ⟨q, rfl, -, -⟩ := hr
    obtain rfl | ⟨u, rfl⟩ := hc <;> simp [Kernel.switched, Ctx.waits] at hw
  | switchIsr h₁ => omega
  | @block _ _ Q c t hi hd hr hn hc hm hq h =>
    obtain ⟨-, d, -, htask⟩ := (Move.block hi hd hr hn hc hm hq h).block_current hp
    exact ⟨Q, hr, rfl, by rw [htask]⟩
  | exit hn hd h =>
    obtain ⟨q, rfl, -, -⟩ := h
    simp [Kernel.exited, Ctx.waits] at hw
  | _ => cases ha

/-- The running task waits after its step: the step has blocked it. -/
theorem blocks_of_waits (hs : Sound k) (he : Enabled k i) (hsane : Sane k i)
    (h : exec n i k = .ok (k', r)) (hi : k.isrNesting = 0)
    (hw : (k'.tasks k.taskCurrent).ctx.waits = true) :
    ∃ Q, Q ≠ .ready ∧ Does k i (.block Q) ∧ (k'.tasks k.taskCurrent).taskQueue = some Q := by
  have hnest : ∀ {k₁ : Kernel}, k₁.isrNesting = nestingAfter k i → i ≠ .isrEnter →
      k₁.isrNesting = 0 := by
    intro k₁ h₁ h₂
    cases i <;> simp_all [nestingAfter]
  have hscal := (scalarStep hs.placed hs.owned hsane h).isrNesting
  obtain ⟨k₁, hpath, hlast⟩ := exec_parts hs.placed hs.owned hsane h
  obtain ⟨hc, hx⟩ := hpath.ctx_cases
  obtain rfl | ⟨a, ha, hst, hm⟩ := hlast
  · exfalso
    cases i with
    | call c =>
      rw [Enabled, if_pos hi] at he
      obtain hx | hx | ⟨d, hx⟩ := hx
      · rw [hx] at hw
        cases hc : k.current.ctx <;> simp_all [Ctx.outside, Ctx.waits]
      · simp [hx, Ctx.waits] at hw
      · generalize (k'.tasks k.taskCurrent).ctx = d' at hx hw
        cases c <;> simp [Does] at hx <;> grind [Ctx.waits]
    | resume =>
      obtain hx | ⟨q, -, hx⟩ | ⟨u, -, hx⟩ := resume_ctx hs.placed hi h
      · generalize (k'.tasks k.taskCurrent).ctx = d' at hx hw
        cases d' <;> simp_all [Ctx.waits]
      · simp [hx, Ctx.waits] at hw
      · simp [hx, Ctx.waits] at hw
    | isrEnter =>
      have hc := (he.2 hi)
      cases h
      have hw : k.current.ctx.waits = true := hw
      cases hc : k.current.ctx <;> simp_all [Ctx.interruptible, Ctx.waits]
    | isrExit => simp [Enabled, hi] at he
  · have hi' : k₁.isrNesting = 0 := by
      have hne : i ≠ .isrEnter := by
        rintro rfl
        cases ha
        cases hst
      rw [← (hm.scalars_eq (by rintro rfl; cases hst)).1]
      exact hnest hscal hne
    rw [← hc] at hw ⊢
    obtain ⟨Q, hr, rfl, hQ⟩ := hm.leaves_waits (hpath.placed hs.placed) hst hi' hw
    exact ⟨Q, hr, ha, hQ⟩

/-- A task waits in a queue after a step: it did so before, or the step has blocked it. -/
theorem waiting_of_step (hs : Sound k) (hsane : Sane k i) (h : exec n i k = .ok (k', r))
    {Q : QueueId} (hQ : Q ≠ .ready) (hq : (k'.tasks t).taskQueue = some Q) :
    (k.tasks t).taskQueue = some Q ∨ (t = k.taskCurrent ∧ Does k i (.block Q)) := by
  obtain ⟨k₁, hpath, hlast⟩ := exec_parts hs.placed hs.owned hsane h
  obtain ⟨hc, hp, hk₁⟩ := hpath.invariant (I := fun k₁ => k₁.taskCurrent = k.taskCurrent ∧
    Placed k₁ ∧ ((k₁.tasks t).taskQueue = some Q → (k.tasks t).taskQueue = some Q)) (by
      rintro a k₂ k₃ ⟨-, hst⟩ ⟨hc, hp, hk⟩ hm
      refine ⟨(hm.taskCurrent_still hst).trans hc, hm.placed hp, fun hq => ?_⟩
      obtain ⟨hq, -⟩ | ⟨-, rfl⟩ := ((hm.task t).waiting_iff hp.toStanding hQ).mp hq
      · exact hk hq
      · cases hst) ⟨rfl, hs.placed, id⟩
  obtain rfl | ⟨a, ha, -, hm⟩ := hlast
  · exact Or.inl (hk₁ hq)
  · obtain ⟨hq, -⟩ | ⟨ht, rfl⟩ := ((hm.task t).waiting_iff hp.toStanding hQ).mp hq
    · exact Or.inl (hk₁ hq)
    · exact Or.inr ⟨ht.trans hc, ha⟩

theorem created_of_live (hs : Sound k) (hsane : Sane k i) (h : exec n i k = .ok (k', r))
    (hd : ¬ k.Live t) (hl : k'.Live t) : ∃ p, i = .call (.taskCreate t p) := by
  obtain ⟨-, hc⟩ := (exec_path hs.placed hs.owned hsane h).invariant
    (I := fun k' => Placed k' ∧ (k'.Live t → Does k i (.create t))) (by
      rintro a k₁ k₂ ha ⟨hp, hc⟩ hm
      refine ⟨hm.placed hp, fun hl => ?_⟩
      obtain ⟨hl, -⟩ | rfl := ((hm.task t).live_iff hp.toStanding).mp hl
      · exact hc hl
      · exact ha)
    ⟨hs.placed, fun hl => absurd hl hd⟩
  exact does_create (hc hl)

/-- A task that a step has created has not entered the kernel yet. -/
theorem ctx_of_created (hs : Sound k) (hsane : Sane k i) (h : exec n i k = .ok (k', r))
    (hd : ¬ k.Live t) (hl : k'.Live t) : (k'.tasks t).ctx = .user := by
  have ht : t ≠ k.taskCurrent := by
    rintro rfl
    exact hd hs.placed.currentLive
  have hmove : ∀ {a : Kind} {k₂ k₃ : Kernel}, Move a k₂ k₃ → k₂.taskCurrent = k.taskCurrent →
      Placed k₂ → (k₂.Live t → (k₂.tasks t).ctx = .user) → k₃.Live t →
      (k₃.tasks t).ctx = .user := by
    intro a k₂ k₃ hm hc hp hx hl₃
    obtain h | ⟨-, -, h⟩ | ⟨h, -⟩ := (hm.task t).ctx_cases
    · obtain ⟨hl₂, -⟩ | rfl := ((hm.task t).live_iff hp.toStanding).mp hl₃
      · rw [h, hx hl₂]
      · cases hm with
        | create hp' hl' hr =>
          obtain ⟨q, rfl, -, -⟩ := hr
          simp [osTaskInit]
    · exact h
    · exact absurd (h.trans hc) ht
  obtain ⟨k₁, hpath, hlast⟩ := exec_parts hs.placed hs.owned hsane h
  obtain ⟨hc, hp, hx⟩ := hpath.invariant (I := fun k₁ => k₁.taskCurrent = k.taskCurrent ∧
    Placed k₁ ∧ (k₁.Live t → (k₁.tasks t).ctx = .user))
    (fun a k₂ k₃ ha hk hm => ⟨(hm.taskCurrent_still ha.2).trans hk.1, hm.placed hk.2.1,
      hmove hm hk.1 hk.2.1 hk.2.2⟩) ⟨rfl, hs.placed, fun h => absurd h hd⟩
  obtain rfl | ⟨a, -, -, hm⟩ := hlast
  · exact hx hl
  · exact hmove hm hc hp hx hl

/-- The running task has not been woken when its step ends. -/
theorem Roused.not_acts {d : Ctx} (hd : d.waits = true) (ht : Timely k)
    (hst : timedSystem.step k (i, r) k') (ha : ActsIn t k) : ¬ Roused t d c k' := by
  obtain ⟨⟨hsane, -⟩, he, hset⟩ := hst
  obtain ⟨n, hn⟩ := hset.exists_eq
  obtain ⟨hi, rfl⟩ := ha
  intro h
  rw [← h.ctx] at hd
  obtain ⟨Q, hr, -, hQ⟩ := blocks_of_waits ht.sound he hsane hn hi hd
  exact h.queue Q hr hQ

/-- Another task has been woken before the step or by it. -/
theorem roused_iff {d : Ctx} (hd : d.waits = true) (ht : Timely k)
    (hst : timedSystem.step k (i, r) k') (ha : ¬ ActsIn t k) :
    Roused t d c k' ↔ Roused t d c k ∨
      (k.tasks t).ctx = d ∧ ∃ Q, Woken k i t Q c (k'.tasks t) := by
  obtain ⟨⟨hsane, -⟩, he, hset⟩ := hst
  obtain ⟨n, hn⟩ := hset.exists_eq
  by_cases hl : k.Live t
  · obtain ⟨hctx, hlive, hu | ⟨Q, c', hw⟩⟩ := beside ht.sound ht.awake he hsane hn hl ha
    · constructor
      · intro h
        refine Or.inl ⟨hl, fun Q hQ hq => h.queue Q hQ ((hu.queue Q hQ).mpr hq), ?_,
          hctx.symm.trans h.ctx⟩
        rw [← h.code, Task.blockCode, Task.blockCode, hu.retValue]
      · rintro (h | ⟨-, Q, hw⟩)
        · refine ⟨hlive, fun Q hQ hq => h.queue Q hQ ((hu.queue Q hQ).mp hq), ?_, hctx.trans h.ctx⟩
          rw [← h.code, Task.blockCode, Task.blockCode, hu.retValue]
        · exact absurd ((hu.queue Q hw.ne_ready).mpr hw.waited) (hw.gone Q hw.ne_ready)
    · have hcode : (k'.tasks t).blockCode = c' := by simp [Task.blockCode, hw.retValue]
      constructor
      · intro h
        obtain rfl : c' = c := hcode.symm.trans h.code
        exact Or.inr ⟨hctx.symm.trans h.ctx, Q, hw⟩
      · rintro (h | ⟨hx, Q', hw'⟩)
        · exact absurd hw.waited (h.queue Q hw.ne_ready)
        · refine ⟨hlive, hw.gone, ?_, hctx.trans hx⟩
          simp [Task.blockCode, hw'.retValue]
  · refine iff_of_false (fun h => ?_) ?_
    · have := ctx_of_created ht.sound hsane hn hl h.live
      rw [h.ctx] at this
      subst this
      cases hd
    · rintro (h | ⟨-, Q, hw⟩)
      · exact hl h.live
      · exact hl (ht.sound.placed.live t (by simp [hw.waited]))

/-- A task that has been woken returns its code. -/
theorem Roused.returns {d : Ctx} (h : Roused t d c k) (hd : d.waits = true)
    (hj : ∀ u, d ≠ .joinDown u) (ha : ActsIn t k) (hst : timedSystem.step k (i, r) k') :
    i = .resume ∧ r = some (.code c) ∧ (k'.tasks t).ctx = .user := by
  obtain ⟨hi, rfl⟩ := ha
  have hctx : k.current.ctx = d := h.ctx
  have hcode : k.current.blockCode = c := h.code
  obtain ⟨-, he, hset⟩ := hst
  obtain ⟨n, hn⟩ := hset.exists_eq
  cases i with
  | call e =>
    rw [Enabled, if_pos hi, hctx] at he
    cases d <;> simp_all [Ctx.waits, Ctx.outside]
  | isrEnter =>
    have := he.2 hi
    rw [hctx] at this
    cases d <;> simp_all [Ctx.waits, Ctx.interruptible]
  | isrExit => simp [Enabled, hi] at he
  | resume =>
    refine ⟨rfl, ?_⟩
    have hblk : ∀ x : Kernel × RetCode, blockedReturn k = .ok x →
        x.2 = c ∧ x.1.taskCurrent = k.taskCurrent := by
      rintro ⟨k₁, c'⟩ hb
      obtain ⟨x, -, rfl, rfl⟩ := blockedReturn_ok hb
      exact ⟨hcode, rfl⟩
    cases d with
    | semDown s | waitqueueWait q =>
      all_goals
        simp only [exec, resume, hctx] at hn
        obtain ⟨⟨k₁, c'⟩, hb, hn⟩ := Outcome.bind_ok hn
        obtain ⟨rfl, hcur⟩ := hblk _ hb
        cases hn
        exact ⟨rfl, by simp [Kernel.setCtx, Kernel.setTask, ← hcur]⟩
    | mtxLock m =>
      simp only [exec, resume, hctx] at hn
      cases hn
      exact ⟨by rw [hcode], by simp [Kernel.setCtx, Kernel.setTask, Kernel.running]⟩
    | joinDown u => exact absurd rfl (hj u)
    | _ => cases hd

end Steps

end RadOs
