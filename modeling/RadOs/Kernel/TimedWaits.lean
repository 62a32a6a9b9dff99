import RadOs.Kernel.Timeouts

/-! # How a timed wait for a semaphore ends

The task is taken out of the queue by a signal, by the destruction of the
semaphore or by its timeout, whichever comes first. From then on nobody but the
task itself writes the code it will return.
-/

namespace RadOs
open Bucketed Runs Budget

section General
variable [Port]

section Queues
variable {k k' : Kernel} {t u : TaskId} {Q : QueueId}

omit [Port] in
/-- `os_schedule` takes no task out of the queue of a synchronization object. -/
theorem Scheduled.waiting_iff {p : ℕ} (h : Scheduled p k k') (hp : Placed k) (hQ : Q ≠ .ready) :
    (k'.tasks t).taskQueue = some Q ↔ (k.tasks t).taskQueue = some Q := by
  obtain ⟨rfl, -⟩ | hm := h
  · exact Iff.rfl
  · rw [(hm.task t).waiting_iff hp.toStanding hQ]
    simp

omit [Port] in
theorem Move.waiting_of_ne {c : RetCode} (h : Move (.wake u Q c) k k') (hne : t ≠ u) :
    k'.tasks t = k.tasks t := by
  cases h with
  | wake hQ hr hu ht h =>
    obtain ⟨q, rfl, -, -⟩ := h
    simp [Kernel.woken, hne]

/-- A signal takes the first task out of the queue and leaves the others in it. -/
theorem Placed.semUp_waiting (hp : Placed k) {s : SemId} {sync : Bool} {c : Ctx}
    (h : osSemUpSync s sync c k = .ok k') (hc : sync = true ∨ c = .schedule)
    (ht : (k.tasks t).taskQueue = some (.sem s)) :
    (k'.tasks t).taskQueue = some (.sem s) ↔ ¬ k.IsFirst (.sem s) t := by
  obtain ⟨-, ⟨hn, -⟩ | ⟨u, k₁, hf, hm, hk⟩⟩ := hp.semUp h hc
  · exact absurd ht (hn t)
  · have hp₁ := hm.placed hp
    have hk₁ : (k'.tasks t).taskQueue = some (.sem s) ↔ (k₁.tasks t).taskQueue = some (.sem s) := by
      obtain ⟨-, rfl⟩ | hsch := hk
      · exact Iff.rfl
      · exact hsch.waiting_iff hp₁ (by simp)
    rw [hk₁, (hm.task t).waiting_iff hp.toStanding (by simp)]
    by_cases htu : t = u
    · subst htu
      simp [hf]
    · simp only [ht, Kind.wake.injEq, ne_eq, not_and, true_and, reduceCtorEq, and_false, or_false]
      exact iff_of_true (fun c h => absurd h.symm htu) fun hft => htu (hft.unique hf)

omit [Port] in
theorem Placed.semDestroy_waiting (hp : Placed k) {s : SemId} {n : ℕ} {c : Ctx}
    (h : osSemDestroy n s c k = .ok k') (hc : c = .schedule ∨ ∃ t, c = .joinDestroy t) :
    (k'.tasks t).taskQueue ≠ some (.sem s) := by
  obtain ⟨k₁, hpath, hn, hsch⟩ := hp.semDestroy h hc
  have hq : Move (.queue (.sem s)) k₁ (k₁.setQueue (.sem s) .zero) := .queue hn rfl
  have hs : Move (.sem s) (k₁.setQueue (.sem s) .zero) ((k₁.setQueue (.sem s) .zero).setSem s 0) :=
    .sem rfl
  rw [ne_eq, hsch.waiting_iff (hs.placed (hq.placed (hpath.placed hp))) (by simp)]
  exact hn t

omit [Port] in
/-- Who wakes tasks that wait for a semaphore of the application. -/
theorem does_wake_sem (hp : Placed k) {i : Action} {s : ℕ} {c : RetCode}
    (h : Does k i (.wake t (.sem (.obj s)) c)) :
    (∃ sync, i = .call (.semUp s sync)) ∧ c = .ok ∨ i = .call (.semDestroy s) ∧ c = .destroyed ∨
      i = .call .tick ∧ c = .timeout := by
  revert h
  cases i with
  | call d =>
    cases d with
    | taskExit v =>
      rintro (h | ⟨s', hj, h | ⟨u, h⟩⟩)
      · cases h
      · cases h
      · obtain ⟨v, rfl⟩ := hp.joins _ _ hj
        cases h
    | _ => simp +contextual [Does]
  | resume => simp [Does, Placed.JoinEnd]
  | isrEnter => simp [Does]
  | isrExit => simp [Does]

end Queues

/-- The step takes the task `t` out of the queue of the semaphore `s` with the given code. -/
def Ends (t : TaskId) (s deadline : ℕ) (x : KernelStep) : RetCode → Prop
  | .ok => (∃ sync, x.label.1 = .call (.semUp s sync)) ∧ x.pre.IsFirst (.sem (.obj s)) t
  | .destroyed => x.label.1 = .call (.semDestroy s)
  | .timeout => x.label.1 = .call .tick ∧ x.post.timers.ticks = deadline
  | _ => False

/-- The task `t` waits for the semaphore `s`, with the timeout on the tick `deadline`. -/
structure Waiting (t : TaskId) (s deadline : ℕ) (k : Kernel) : Prop where
  queue : (k.tasks t).taskQueue = some (.sem (.obj s))
  timer : (k.tasks t).timer = some (.block t)
  due : k.due t = deadline
  ctx : (k.tasks t).ctx = .semDown (.obj s)

/-- The task `t` does not wait any more and will return the code `c`. -/
structure Released (t : TaskId) (s : ℕ) (c : RetCode) (k : Kernel) : Prop where
  live : k.Live t
  queue : ∀ Q, Q ≠ .ready → (k.tasks t).taskQueue ≠ some Q
  code : (k.tasks t).blockCode = c
  ctx : (k.tasks t).ctx = .semDown (.obj s)

section Steps
variable {k k' : Kernel} {i : Action} {r : Option Ret} {t : TaskId} {s d : ℕ} {c : RetCode}

omit [Port] in
theorem Waiting.notActs (h : Waiting t s d k) (hp : Placed k) : ¬ ActsIn t k := by
  rintro ⟨-, rfl⟩
  have := h.queue
  rw [hp.current] at this
  cases this

/-- The task goes on waiting iff nothing ends its wait. -/
theorem Waiting.queue_iff (h : Waiting t s d k) (ht : Timely k)
    (hst : timedSystem.step k (i, r) k') :
    (k'.tasks t).taskQueue = some (.sem (.obj s)) ↔ ∀ c, ¬ Ends t s d ⟨k, (i, r), k'⟩ c := by
  have hp := ht.sound.placed
  obtain ⟨⟨hsane, hty⟩, he, hset⟩ := hst
  obtain ⟨n, hn⟩ := hset.exists_eq
  by_cases hi : (∃ sync, i = .call (.semUp s sync)) ∨ i = .call (.semDestroy s) ∨ i = .call .tick
  · obtain ⟨sync, rfl⟩ | rfl | rfl := hi
    · rw [hp.semUp_waiting (quiet_ok hn).1 (Or.inr rfl) h.queue]
      refine ⟨fun hf c hc => ?_, fun hall hf => hall .ok ⟨⟨sync, rfl⟩, hf⟩⟩
      cases c <;> simp_all [Ends]
    · refine iff_of_false (hp.semDestroy_waiting (quiet_ok hn).1 (Or.inl rfl)) fun hall => ?_
      exact hall .destroyed rfl
    · obtain ⟨xs, hg⟩ := ht.guarded
      obtain ⟨ys, hgd⟩ := hg.exec ht.sound ht.awake he hsane hty hn
      have hmem := hg.pending t _ _ h.timer h.queue (by simp)
      obtain ⟨k₁, hp₁, hsch, hdue, hsame⟩ := hgd.tick rfl
      have hticks : k'.timers.ticks = k.timers.ticks + 1 := hgd.ticks
      rw [hsch.waiting_iff hp₁ (by simp)]
      by_cases hd : k.due t = k.timers.ticks + 1
      · refine iff_of_false (by simp [hdue t hmem hd]) fun hall => ?_
        exact hall .timeout ⟨rfl, by rw [hticks, ← hd, h.due]⟩
      · rw [hsame t fun hx => hd hx.2]
        refine iff_of_true h.queue fun c hc => ?_
        cases c with
        | timeout => exact hd (by rw [h.due, ← hticks, hc.2])
        | _ => simp [Ends] at hc
  · have hb := beside ht.sound ht.awake he hsane hn (hp.live t (by simp [h.queue])) (h.notActs hp)
    obtain hu | ⟨Q, c, hw⟩ := hb.woken
    · refine iff_of_true ((hu.queue _ (by simp)).mpr h.queue) fun c hc => hi ?_
      cases c with
      | ok => exact Or.inl hc.1
      | destroyed => exact Or.inr (Or.inl hc)
      | timeout => exact Or.inr (Or.inr hc.1)
      | _ => exact hc.elim
    · have hQ : Q = .sem (.obj s) := Option.some.inj (hw.waited.symm.trans h.queue)
      subst hQ
      obtain ⟨h₁, -⟩ | ⟨h₁, -⟩ | ⟨h₁, -⟩ := does_wake_sem hp hw.does
      · exact absurd (Or.inl h₁) hi
      · exact absurd (Or.inr (Or.inl h₁)) hi
      · exact absurd (Or.inr (Or.inr h₁)) hi

/-- One step of a task that waits. -/
theorem Waiting.step (h : Waiting t s d k) (ht : Timely k) (hst : timedSystem.step k (i, r) k') :
    (Waiting t s d k' ∧ ∀ c, ¬ Ends t s d ⟨k, (i, r), k'⟩ c) ∨
      ∃ c, Ends t s d ⟨k, (i, r), k'⟩ c ∧ Released t s c k' := by
  have hp := ht.sound.placed
  have hiff := h.queue_iff ht hst
  have ht' := ht.step hst
  obtain ⟨⟨hsane, hty⟩, he, hset⟩ := hst
  obtain ⟨n, hn⟩ := hset.exists_eq
  have hb := beside ht.sound ht.awake he hsane hn (hp.live t (by simp [h.queue])) (h.notActs hp)
  have hctx := hb.ctx.trans h.ctx
  obtain hu | ⟨Q, c, hw⟩ := hb.woken
  · have hq := (hu.queue _ (by simp)).mpr h.queue
    have htm := (hu.timer _ (by simp) h.queue).trans h.timer
    obtain ⟨xs, hg⟩ := ht.guarded
    obtain ⟨ys, hgd⟩ := hg.exec ht.sound ht.awake he hsane hty hn
    have hmem := hgd.guarded.pending t _ _ htm hq (by simp)
    have hne := hp.not_current (t := t) (by simp [h.queue])
    exact Or.inl ⟨⟨hq, htm, (hgd.due t hne hmem).2.trans h.due, hctx⟩, hiff.mp hq⟩
  · have hQ : Q = .sem (.obj s) := Option.some.inj (hw.waited.symm.trans h.queue)
    subst hQ
    have hn' : ¬ ∀ c, ¬ Ends t s d ⟨k, (i, r), k'⟩ c := fun hall =>
      hw.gone _ (by simp) (hiff.mpr hall)
    obtain ⟨c', hc'⟩ := not_forall_not.mp hn'
    refine Or.inr ⟨c', hc', hb.live, hw.gone, ?_, hctx⟩
    have hcode : (k'.tasks t).blockCode = c := by simp [Task.blockCode, hw.retValue]
    rw [hcode]
    -- the label of the step decides about the code
    obtain ⟨⟨sync, rfl⟩, rfl⟩ | ⟨rfl, rfl⟩ | ⟨rfl, rfl⟩ := does_wake_sem hp hw.does
    all_goals cases c' <;> simp_all [Ends]

/-- A task that has been released keeps its code until it runs. -/
theorem Released.step (h : Released t s c k) (ht : Timely k) (hst : timedSystem.step k (i, r) k')
    (ha : ¬ ActsIn t k) : Released t s c k' := by
  obtain ⟨⟨hsane, -⟩, he, hset⟩ := hst
  obtain ⟨n, hn⟩ := hset.exists_eq
  have hb := beside ht.sound ht.awake he hsane hn h.live ha
  obtain hu | ⟨Q, c', hw⟩ := hb.woken
  · refine ⟨hb.live, fun Q hQ hq => h.queue Q hQ ((hu.queue Q hQ).mp hq), ?_, hb.ctx.trans h.ctx⟩
    rw [Task.blockCode, hu.retValue]
    exact h.code
  · exact absurd hw.waited (h.queue Q hw.ne_ready)

/-- It can only return, and returns the code. -/
theorem Released.returns (h : Released t s c k) (ha : ActsIn t k)
    (hst : timedSystem.step k (i, r) k') : i = .resume ∧ r = some (.code c) ∧ k'.sems = k.sems := by
  obtain ⟨hi, rfl⟩ := ha
  have hctx : k.current.ctx = .semDown (.obj s) := h.ctx
  obtain ⟨-, he, hset⟩ := hst
  obtain ⟨n, hn⟩ := hset.exists_eq
  cases i with
  | call d => simp [Enabled, hi, hctx, Ctx.outside] at he
  | isrEnter => simp [Enabled, hi, hctx, Ctx.interruptible] at he
  | isrExit => simp [Enabled, hi] at he
  | resume =>
    simp only [exec, resume, hctx] at hn
    obtain ⟨⟨k₁, c'⟩, hb, hn⟩ := Outcome.bind_ok hn
    cases hn
    obtain ⟨x, -, rfl, rfl⟩ := blockedReturn_ok hb
    exact ⟨rfl, by rw [← h.code]; rfl, rfl⟩

end Steps

/-! ## Whole runs -/

section Runs
variable {k k' k₀ k₁ : Kernel} {tr tr₀ : List KernelStep} {r : Option Ret} {i : Action} {s T : ℕ}

/-- The start of a timed wait. -/
theorem Waiting.start (h : Timely k₀) (hT : T ≠ osTimeoutInfinite)
    (hst : timedSystem.step k₀ (.call (.semDown s T), none) k₁) :
    Waiting k₀.taskCurrent s (k₀.timers.ticks + T) k₁ := by
  obtain ⟨⟨hsane, hty⟩, he, hset⟩ := hst
  obtain ⟨n, hn⟩ := hset.exists_eq
  obtain ⟨xs, hg⟩ := h.guarded
  obtain ⟨ys, hgd⟩ := hg.exec h.sound h.awake he hsane hty hn
  obtain ⟨hmem, hdue⟩ := hgd.down s T rfl rfl hT
  obtain ⟨c, hx, hc⟩ := coded_ok hn
  obtain ⟨-, ⟨-, rfl, -⟩ | ⟨-, -, rfl, -⟩ | ⟨-, rfl, k₂, ht, hb⟩⟩ :=
    h.sound.placed.semDown hx ⟨rfl, by simp⟩
  · cases hc
  · cases hc
  · have hcur := ht.frame.1
    obtain ⟨-, c, hcx, htask⟩ := hb.block_current (ht.move.placed h.sound.placed)
    have hcs : c = .semDown (.obj s) := by
      cases c with
      | semDown s' => simpa [Awaits, eq_comm] using hcx.1
      | joinDown u => simp [Awaits] at hcx
      | _ => simp [Awaits] at hcx
    rw [← hcur] at hmem hdue ⊢
    exact ⟨by rw [htask], (hgd.guarded.guard _ hmem).1, hdue, by rw [htask, hcs]⟩

end Runs

end General

end RadOs
