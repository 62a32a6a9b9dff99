import RadOs.Kernel.Totality
import RadOs.Kernel.Joining
import RadOs.Kernel.Inheritance

/-! # The kernel never fails

`Permitted` is the contract of the interface: what the documentation of the
functions asks of their callers. Programs that keep to it never run into a
failed check or into memory that is not set up, no loop of the kernel runs for
ever, and the kernel never gets stuck.
-/

namespace RadOs
open Bucketed Runs Budget Chains Relation

/-- A place from which a task may call a function that blocks. -/
def Kernel.MayBlock (k : Kernel) : Prop :=
  k.isrNesting = 0 ∧ k.taskCurrent ≠ taskIdle ∧ k.current.mtxList = []

instance (k : Kernel) : Decidable k.MayBlock := inferInstanceAs (Decidable (_ ∧ _))

section Contract
variable [Port]

/-- What the calls ask for besides the rules for tasks, joins and wait queues. A mutex is locked only
if that does not close a cycle of waiting tasks. -/
def Demands (k : Kernel) : Action → Prop
  | .call .start => k.taskCurrent = taskIdle ∧ k.started = false
  | .call (.taskCreate _ prio) => k.isrNesting = 0 ∧ 0 < prio ∧ prio < Port.priocnt
  | .call (.taskJoin t) => k.MayBlock ∧ (k.tasks t).joinSem = none ∧
      (k.Live t ∨ (k.tasks t).state = .destroyed)
  | .call .yield => k.isrNesting = 0 ∧ k.taskCurrent ≠ taskIdle
  | .call .schedulerLock | .call (.schedulerUnlock _) | .call (.semDestroy _)
  | .call (.mtxCreate _) | .call .waitqueueBreak => k.isrNesting = 0
  | .call (.semCreate _ initValue) => initValue < Port.atomicMax ∧ k.waitqueueCurrent = none
  | .call (.semDown s timeoutTicks) => k.MayBlock ∧
      (timeoutTicks = osTimeoutTry ∨ Bounded timeoutTicks) ∧ k.Blank (.block k.taskCurrent) ∧
      (k.queues (.sem (.obj s))).linked = true
  | .call (.semUp s sync) =>
      (k.isrNesting = 0 ∨ sync = false) ∧ k.sems (.obj s) < Port.atomicMax - 1
  | .call (.mtxDestroy m) => k.isrNesting = 0 ∧
      ((k.mtxs m).owner = none ∨ (k.mtxs m).owner = some k.taskCurrent)
  | .call (.mtxLock m) => k.isrNesting = 0 ∧ k.taskCurrent ≠ taskIdle ∧
      (k.queues (.mtx m)).linked = true ∧ ∀ o, Boosts k m o → ¬ Cyclic k.WaitsFor o
  | .call (.mtxUnlock m) => k.isrNesting = 0 ∧ (k.mtxs m).owner = some k.taskCurrent
  | .call (.waitqueueCreate _) | .call (.waitqueueDestroy _) => k.waitqueueCurrent = none
  | .call (.waitqueuePrepare _) => k.MayBlock
  | .call (.waitqueueWait timeoutTicks) => k.MayBlock ∧ Bounded timeoutTicks ∧
      k.Blank (.block k.taskCurrent) ∧
      ∀ q, k.waitqueueCurrent = some q → (k.queues (.waitqueue q)).linked = true
  | .call (.waitqueueWakeup _ wakeupCnt sync) =>
      (k.isrNesting = 0 ∨ sync = false) ∧ 0 < wakeupCnt ∧ wakeupCnt ≤ osWaitqueueAll
  | .call (.timerCreate n timeoutTicks _) =>
      0 < timeoutTicks ∧ timeoutTicks < osTimerTicksremMax ∧ k.Blank (.obj n)
  | .call (.timerDestroy n) => k.timers.Made (.obj n)
  | .call .tick => 0 < k.isrNesting
  | _ => True

/-- The contract of the interface. -/
structure Permitted (k : Kernel) (i : Action) : Prop where
  sane : Sane k i
  typed : Typed i
  unburdened : Unburdened k i
  orderly : Orderly k i
  joinable : Joinable k i
  demands : Demands k i

/-- The kernel with programs that keep to the contract. -/
def lawfulSystem : System Kernel (Action × Option Ret) :=
  kernelSystem.restrict fun k i => Permitted k i.1

end Contract

/-! ## Live tasks are not at their end -/

/-- A task that is at the end of `os_task_exit` is not live. -/
def Departed (k : Kernel) : Prop := ∀ t, k.Live t → (k.tasks t).ctx ≠ .exit

section Departed
variable {k k' : Kernel} {a : Kind} {u : TaskId} {x : Task}

theorem TaskMove.departed (h : TaskMove k u a x) (hp : Standing k.tasks k.taskCurrent)
    (hx : x.state.live = true) (hu : k.Live u → (k.tasks u).ctx ≠ .exit)
    (ha : ∀ c c', a = .ctx c c' → c' ≠ .exit) : x.ctx ≠ .exit := by
  by_cases hc : a = .create u
  · subst hc
    cases h <;> simp_all [osTaskInit]
  · obtain ⟨hl, hne⟩ := ((h.live_iff hp).mp hx).resolve_right hc
    obtain hx | ⟨hc', -⟩ | ⟨rfl, rfl | ⟨-, hx⟩ | ⟨Q, -, hx⟩ | ⟨rfl, -⟩⟩ := h.ctx_cases
    · rw [hx]
      exact hu hl
    · exact absurd hc' hc
    · exact ha _ _ rfl
    · obtain hx | ⟨t, hx⟩ := hx <;> simp [hx]
    · intro he
      rw [he] at hx
      exact hx
    · exact absurd ⟨rfl, rfl⟩ hne

variable [Port] {i : Action} {n : ℕ} {r : Option Ret}

theorem Departed.step (h : Departed k) (hs : Sound k) (hsane : Sane k i)
    (hx : exec n i k = .ok (k', r)) : Departed k' := by
  have hcur := h k.taskCurrent hs.placed.currentLive
  have hD : ∀ c c', Does k i (.ctx c c') → c' ≠ .exit := by
    rintro c c' hd rfl
    cases i with
    | call e => cases e <;> simp [Does] at hd
    | resume =>
      simp only [Does, Placed.JoinEnd] at hd
      have hcur : k.current.ctx ≠ .exit := hcur
      simp [Ctx.interruptible, Ne.symm hcur] at hd
    | isrEnter => simp [Does] at hd
    | isrExit => simp [Does] at hd
  refine ((exec_path hs.placed hs.owned hsane hx).invariant
    (I := fun k => Placed k ∧ Departed k) ?_ ⟨hs.placed, h⟩).2
  rintro a k₁ k₂ ha ⟨hp, hk⟩ hm
  refine ⟨hm.placed hp, fun t ht => ?_⟩
  refine (hm.task t).departed hp.toStanding ht (hk t) ?_
  rintro c c' rfl
  exact hD c c' ha

end Departed

/-! ## Every permitted action goes through -/

/-- The invariant of programs that keep to the contract. -/
structure Lawful (k : Kernel) : Prop where
  timely : Timely k
  tidy : Tidy k
  titled : Titled k
  matched : Matched k
  joining : Joining k
  departed : Departed k

section Total
variable [Port] {k k' : Kernel} {i : Action} {c : Call} {n : ℕ} {r : Option Ret}

theorem Lawful.step (h : Lawful k) (hp : Permitted k i) (hst : k.Step (i, r) k') : Lawful k' := by
  have hs := h.timely.sound
  have htimed : timedSystem.step k (i, r) k' := ⟨⟨hp.sane, hp.typed⟩, hst⟩
  obtain ⟨n, hn⟩ := hst.2.exists_eq
  exact ⟨h.timely.step htimed, h.tidy.step h.timely hp.orderly hst.1 hp.sane hn,
    h.titled.step hs hp.sane hp.unburdened hn, h.matched.step h.timely hst.1 hp.sane hn,
    h.joining.step h.timely h.matched htimed hp.joinable, h.departed.step hs hp.sane hn⟩

omit [Port] in
theorem Lawful.waitqueue_none (h : Lawful k) (ho : Orderly k (.call c)) (hc : c.decides = false)
    (hi : k.isrNesting = 0) : k.waitqueueCurrent = none := by
  apply h.tidy.waitqueue_none
  rw [Bool.eq_false_iff]
  intro hp
  rw [(ho hi).1.mpr hp] at hc
  cases hc

omit [Port] in
/-- A task outside the kernel has no timer of a blocking call. -/
theorem Lawful.timer_none (h : Lawful k) (he : Enabled k (.call c)) (hi : k.isrNesting = 0) :
    k.current.timer = none := by
  obtain ⟨xs, hg⟩ := h.timely.guarded
  rw [Enabled, if_pos hi] at he
  apply hg.timer_none
  cases hx : (k.tasks k.taskCurrent).ctx <;> simp_all [Kernel.current, Ctx.outside, Ctx.timed]

theorem Lawful.join_total (h : Lawful k) (hatom : 1 < Port.atomicMax) {t : TaskId}
    (he : Enabled k (.call (.taskJoin t))) (hp : Permitted k (.call (.taskJoin t))) :
    ∃ x, osTaskJoin 1 t k = .ok x := by
  obtain ⟨⟨hi, hd, hm⟩, hs, hst⟩ := hp.demands
  have hne : k.taskCurrent ≠ t := Ne.symm hp.joinable
  have hno := h.joining.not_joins hs
  have hph : ∃ o, JoinPhase k.taskCurrent t k o := by
    obtain hl | hd := hst
    · exact ⟨none, .before hl hs hno⟩
    · exact ⟨some (k.tasks t).retValue, .exited hd rfl hs hno⟩
  obtain ⟨o, hph⟩ := hph
  have hout := he
  rw [Enabled, if_pos hi] at hout
  exact hph.join_total hatom h.timely hne ⟨hi, rfl⟩ hout (h.waitqueue_none hp.orderly rfl hi) hd hm

omit [Port] in
theorem Lawful.tick_total (h : Lawful k) (hi : 0 < k.isrNesting) : ∃ n k', osTick n k = .ok k' := by
  obtain ⟨xs, hg⟩ := h.timely.guarded
  have hs := h.timely.sound
  obtain ⟨k₁, ys, hset, -⟩ := hg.tick hs.placed hs.linked
  obtain ⟨n, hn⟩ := hset.exists_eq
  have hpath := hs.placed.tickTimers hn
  obtain ⟨k₂, hk₂⟩ := (hpath.placed hs.placed).schedule_total
    (hpath.linked hs.placed (by simp) hs.linked) 0 .schedule
  refine ⟨n, k₂, ?_⟩
  unfold osTick
  rw [osAssert_pos hi, Outcome.ok_bind, hn]
  exact hk₂

theorem Lawful.taskCreate_total (h : Lawful k) {t : TaskId} {prio : ℕ} (hi : k.isrNesting = 0)
    (hw : k.waitqueueCurrent = none) (h₁ : 0 < prio) (h₂ : prio < Port.priocnt)
    (hl : ¬ k.Live t) : ∃ k', osTaskCreate t prio k = .ok k' := by
  have hs := h.timely.sound
  obtain ⟨k₁, hk₁⟩ := osTaskqueueEnqueue_total (k := k.setTask t (osTaskInit prio))
    (Q := .ready) hs.linked.ready t
  have hq : (k.tasks t).taskQueue = none := by
    by_contra hq
    exact hl (hs.placed.live t hq)
  have hf : Filed (k.setTask t (osTaskInit prio)) :=
    hs.placed.filed.setTask (by rw [hq]; rfl) fun hn => absurd hq hn
  have hre := hf.enqueue (by simp [osTaskInit]) hk₁
  have hm : Move (.create t) k k₁ := .create h₁ hl (by simpa [Kernel.setTask] using hre)
  obtain ⟨k₂, hk₂⟩ := (hm.placed hs.placed).schedule_total
    (hm.linked hs.placed.toStanding (by simp) hs.linked) 1 .schedule
  refine ⟨k₂, ?_⟩
  unfold osTaskCreate
  rw [osAssert_pos hi, Outcome.ok_bind, osAssert_pos hw, Outcome.ok_bind, osAssert_pos h₂,
    Outcome.ok_bind, osAssert_pos h₁, Outcome.ok_bind, hk₁]
  exact hk₂

theorem Lawful.call_total (h : Lawful k) (hatom : 1 < Port.atomicMax) (he : Enabled k (.call c))
    (hp : Permitted k (.call c)) : ∃ n x, c.exec n k = .ok x := by
  have hs := h.timely.sound
  have hpl := hs.placed
  have hl := hs.linked
  obtain ⟨xs, hg⟩ := h.timely.guarded
  have hd := hp.demands
  have hquiet : ∀ {y : Outcome Kernel}, (∃ k', y = .ok k') → ∃ x, quiet y = .ok x := by
    rintro y ⟨k', rfl⟩
    exact ⟨(k', none), rfl⟩
  have hcoded : ∀ {y : Outcome (Kernel × Option RetCode)}, (∃ x, y = .ok x) →
      ∃ x, coded y = .ok x := by
    rintro y ⟨x, rfl⟩
    exact ⟨_, rfl⟩
  have hwq : k.isrNesting = 0 → c.decides = false → k.waitqueueCurrent = none :=
    fun hi hc => h.waitqueue_none hp.orderly hc hi
  have hmtx : ∀ m, (k.mtxs m).owner = some k.taskCurrent → m ∈ k.current.mtxList :=
    fun m ho => (h.titled.agree.owner_iff m k.taskCurrent).mp ho
  have hisr : c.decides = false → 0 < k.isrNesting ∨ k.waitqueueCurrent = none := by
    intro hc
    obtain hi | hi := Nat.eq_zero_or_pos k.isrNesting
    · exact Or.inr (hwq hi hc)
    · exact Or.inl hi
  cases c with
  | start =>
    refine ⟨0, hquiet ?_⟩
    unfold osStart
    rw [osAssert_pos hd.1, Outcome.ok_bind, osAssert_pos hd.2]
    exact ⟨_, rfl⟩
  | taskCreate t prio =>
    exact ⟨0, hquiet (h.taskCreate_total hd.1 (hwq hd.1 rfl) hd.2.1 hd.2.2 hp.sane)⟩
  | taskExit v =>
    have hi : k.isrNesting = 0 := by
      by_contra hi
      rw [Enabled, if_neg hi] at he
      cases he
    obtain ⟨u, o, hph⟩ := h.joining.phase h.matched hpl.currentLive
    exact ⟨0, hquiet (hph.exit_total hatom h.timely ⟨hi, rfl⟩ (hwq hi rfl) hp.sane v)⟩
  | taskJoin t => exact ⟨1, h.join_total hatom he hp⟩
  | yield =>
    obtain ⟨k₁, hk₁⟩ := hpl.schedule_total hl 0 .schedule
    refine ⟨0, hquiet ⟨k₁, ?_⟩⟩
    unfold osYield
    rw [osAssert_pos hd.1, Outcome.ok_bind, osAssert_pos hd.2, Outcome.ok_bind,
      osAssert_pos (hwq hd.1 rfl)]
    exact hk₁
  | schedulerLock =>
    have hi : k.isrNesting = 0 := hd
    refine ⟨0, hquiet ?_⟩
    unfold osSchedulerLock
    rw [osAssert_pos hi, Outcome.ok_bind, osAssert_pos (hwq hi rfl)]
    exact ⟨_, rfl⟩
  | schedulerUnlock sync =>
    have hi : k.isrNesting = 0 := hd
    refine ⟨0, hquiet ?_⟩
    unfold osSchedulerUnlock
    rw [osAssert_pos hi, Outcome.ok_bind, osAssert_pos (hwq hi rfl), Outcome.ok_bind]
    simp only
    split <;> exact ⟨_, rfl⟩
  | semCreate s v =>
    refine ⟨0, hquiet ?_⟩
    unfold osSemCreate
    rw [osAssert_pos hd.1, Outcome.ok_bind, osAssert_pos hd.2]
    exact ⟨_, rfl⟩
  | semDestroy s =>
    obtain ⟨n, hn⟩ := hpl.semDestroy_total hl hg hd (hwq hd rfl) (.obj s) .schedule
    exact ⟨n, hquiet hn⟩
  | semDown s T =>
    obtain ⟨⟨hi, hidle, hm⟩, hT, hb, hlink⟩ := hd
    obtain ⟨n, hn⟩ := hpl.semDown_total hg hi (hwq hi rfl) hidle hm (h.timer_none he hi) hT hb hlink
      (.semDown (.obj s))
    exact ⟨n, hcoded hn⟩
  | semUp s sync =>
    exact ⟨0, hquiet (hpl.semUp_total hl hg hd.1 (hisr rfl) hd.2 .schedule)⟩
  | mtxCreate m =>
    have hi : k.isrNesting = 0 := hd
    refine ⟨0, hquiet ?_⟩
    unfold osMtxCreate
    rw [osAssert_pos hi, Outcome.ok_bind, osAssert_pos (hwq hi rfl)]
    exact ⟨_, rfl⟩
  | mtxDestroy m =>
    obtain ⟨n, hn⟩ := hpl.mtxDestroy_total hl hs.owned hd.1 (hwq hd.1 rfl)
      (hd.2.imp_right fun ho => ⟨ho, hmtx m ho⟩)
    exact ⟨n, hquiet hn⟩
  | mtxLock m =>
    obtain ⟨hi, hidle, hlink, hc⟩ := hd
    obtain ⟨n, hn⟩ := Placed.mtxLock_total hs hi (hwq hi rfl) hidle hlink hc
    exact ⟨n, hcoded hn⟩
  | mtxUnlock m =>
    exact ⟨0, hquiet (hpl.mtxUnlock_total hl hd.1 (hwq hd.1 rfl) hd.2 (hmtx m hd.2))⟩
  | waitqueueCreate q =>
    have hw : k.waitqueueCurrent = none := hd
    refine ⟨0, hquiet ?_⟩
    unfold osWaitqueueCreate
    rw [osAssert_pos hw]
    exact ⟨_, rfl⟩
  | waitqueueDestroy q =>
    obtain ⟨n, hn⟩ := hpl.waitqueueDestroy_total hl hg hd q
    exact ⟨n, hquiet hn⟩
  | waitqueuePrepare q =>
    obtain ⟨hi, hidle, hm⟩ := hd
    refine ⟨0, hquiet ?_⟩
    unfold osWaitqueuePrepare osSchedulerLock
    rw [osAssert_pos hi, Outcome.ok_bind, osAssert_pos hidle, Outcome.ok_bind, osAssert_pos hm,
      Outcome.ok_bind, osAssert_pos (hwq hi rfl)]
    exact ⟨_, rfl⟩
  | waitqueueBreak =>
    have hi : k.isrNesting = 0 := hd
    refine ⟨0, hquiet ?_⟩
    unfold osWaitqueueBreak
    rw [osAssert_pos hi]
    exact ⟨_, rfl⟩
  | waitqueueWait T =>
    obtain ⟨⟨hi, hidle, hm⟩, hT, hb, hlink⟩ := hd
    obtain ⟨n, hn⟩ := hpl.waitqueueWait_total hg hi hidle hm (h.timer_none he hi) hT hb hlink
    exact ⟨n, hcoded hn⟩
  | waitqueueWakeup q cnt sync =>
    obtain ⟨n, hn⟩ := hpl.waitqueueWakeup_total (q := q) hl hg (hisr rfl) hd.1 hd.2.1 hd.2.2
    exact ⟨n, hquiet hn⟩
  | timerCreate x T reload =>
    obtain ⟨h₁, h₂, hb⟩ := hd
    obtain ⟨y, -, hset, -⟩ := hg.armed.create (.obj x) .user T reload h₁ h₂ hb hp.typed
    obtain ⟨n, hn⟩ := hset.exists_eq
    refine ⟨n, hquiet ⟨{ k with timers := y }, ?_⟩⟩
    rw [hn]
    rfl
  | timerDestroy x =>
    refine ⟨0, hquiet ⟨{ k with timers := destroyed (.obj x) k.timers }, ?_⟩⟩
    rw [osTimerDestroy_eq hd]
    rfl
  | tick =>
    obtain ⟨n, hn⟩ := h.tick_total hd
    exact ⟨n, hquiet hn⟩

omit [Port] in
/-- The running task always goes on. -/
theorem Lawful.resume_total (h : Lawful k) (he : Enabled k .resume) : ∃ x, resume 1 k = .ok x := by
  have hs := h.timely.sound
  have hp := hs.placed
  obtain ⟨hi, hout⟩ := he
  obtain ⟨xs, hg⟩ := h.timely.guarded
  have hsch : ∀ p, ∃ x, quiet (osSchedule p .schedule (k.setCtx .user)) = .ok x := by
    intro p
    have hm := setCtx_move k .user
    obtain ⟨k₁, hk₁⟩ := (hm.placed hp).schedule_total (hm.linked hp.toStanding (by simp) hs.linked) p
      .schedule
    exact ⟨(k₁, none), by rw [hk₁]; rfl⟩
  have hret : ∃ y, blockedReturn k = .ok y := by
    have ht : (k.running.tasks k.taskCurrent).timer = (k.tasks k.taskCurrent).timer := by
      simp [Kernel.running, Kernel.setTask, Kernel.current]
    obtain ⟨k₁, hk₁, -⟩ := hg.destroy_total ht rfl
    refine ⟨(k₁, k₁.current.blockCode), ?_⟩
    unfold blockedReturn
    rw [hk₁]
    rfl
  have hjoin : ∀ t, Joins k.taskCurrent t k → ∃ x, resume 1 k = .ok x := by
    intro t hj
    obtain ⟨hne, -, o, hph⟩ := h.joining _ _ hj
    exact hph.resume_total h.timely h.tidy hne ⟨hi, rfl⟩ hj
  cases hc : k.current.ctx with
  | user => rw [hc] at hout; cases hout
  | prepared q => rw [hc] at hout; cases hout
  | exit => exact absurd hc (h.departed _ hp.currentLive)
  | prepare q => exact ⟨_, by simp only [resume, hc]; rfl⟩
  | brk =>
    have hw : k.waitqueueCurrent = none := by
      by_contra hw
      obtain ⟨q, hq⟩ := Option.ne_none_iff_exists'.mp hw
      have := h.tidy.waitqueue q hq
      rw [hc] at this
      cases this
    simp only [resume, hc]
    unfold osSchedulerUnlock
    rw [osAssert_pos hi, Outcome.ok_bind, osAssert_pos hw, Outcome.ok_bind]
    simp only
    split <;> exact ⟨_, rfl⟩
  | unlocked =>
    simp only [resume, hc]
    exact hsch 1
  | start =>
    simp only [resume, hc]
    exact hsch 0
  | schedule => exact ⟨_, by simp only [resume, hc]; rfl⟩
  | semDown s | waitqueueWait q =>
    all_goals
      obtain ⟨y, hy⟩ := hret
      simp only [resume, hc, hy, Outcome.ok_bind]
      exact ⟨_, rfl⟩
  | mtxLock m => exact ⟨_, by simp only [resume, hc]; rfl⟩
  | joinDown t => exact hjoin t (Or.inl hc)
  | joinDestroy t => exact hjoin t (Or.inr hc)

theorem Lawful.goes_through (h : Lawful k) (hatom : 1 < Port.atomicMax) (he : Enabled k i)
    (hp : Permitted k i) : ∃ r k', k.Step (i, r) k' := by
  have hx : ∃ n x, exec n i k = .ok x := by
    cases i with
    | call c => exact h.call_total hatom he hp
    | resume => exact ⟨1, h.resume_total he⟩
    | isrEnter => exact ⟨0, _, rfl⟩
    | isrExit => exact ⟨0, _, rfl⟩
  obtain ⟨n, ⟨k', r⟩, hx⟩ := hx
  exact ⟨r, k', he, (steady_exec i k).settles hx⟩

theorem resume_permitted (k : Kernel) : Permitted k .resume :=
  ⟨trivial, trivial, fun h => (by cases h), trivial, trivial, trivial⟩

/-- There is always something that may happen next. -/
theorem goes_on (k : Kernel) : ∃ i, Enabled k i ∧ Permitted k i := by
  obtain hi | hi := Nat.eq_zero_or_pos k.isrNesting
  · by_cases hout : k.current.ctx.outside = true
    · -- a task in its own code may lock the scheduler, or give up its preparation to wait
      by_cases hp : k.current.ctx.preparing = true
      · refine ⟨.call .waitqueueBreak, by rwa [Enabled, if_pos hi], trivial, trivial,
          fun h => (by cases h), fun _ => ⟨by simp [Call.decides, hp], fun h => (by cases h)⟩,
          trivial, hi⟩
      · refine ⟨.call .schedulerLock, by rwa [Enabled, if_pos hi], trivial, trivial,
          fun h => (by cases h), fun _ => ⟨by simp [Call.decides, hp], fun h => (by cases h)⟩,
          trivial, hi⟩
    · exact ⟨.resume, ⟨hi, by simpa using hout⟩, resume_permitted k⟩
  · exact ⟨.isrExit, hi, trivial, trivial, fun h => (by cases h), trivial, trivial, trivial⟩

end Total

section Runs
variable [Port] {k : Kernel} {i : Action}

theorem lawful_of_reachable (h : lawfulSystem.Reachable k) : Lawful k := by
  refine h.invariant ?_ ?_
  · rintro k rfl
    have hctx : ∀ t, ((osInit coldKernel).tasks t).ctx = .user := by
      intro t
      by_cases ht : t = taskIdle <;>
        simp [osInit, coldKernel, Kernel.setTask, Kernel.setQueue, osTaskInit, ht]
    refine ⟨timely_of_reachable (.start rfl), (tidy_of_reachable (.start rfl)).2, titled_init,
      (matched_of_reachable (.start rfl)).2, fun u t hj => ?_, fun t _ hc => ?_⟩
    · obtain hc | hc := hj <;> simp [hctx] at hc
    · simp [hctx] at hc
  · rintro k ⟨i, r⟩ k' hk ⟨hp, hst⟩
    exact hk.step hp hst

/-- Programs that keep to the contract never make the kernel fail, and it never gets stuck. -/
theorem kernel_never_fails (hatom : 1 < Port.atomicMax) (h : lawfulSystem.Reachable k) :
    (∀ i, Enabled k i → Permitted k i → ∃ r k', lawfulSystem.step k (i, r) k') ∧
      ∃ i r k', lawfulSystem.step k (i, r) k' := by
  have hk := lawful_of_reachable h
  have hall : ∀ i, Enabled k i → Permitted k i → ∃ r k', lawfulSystem.step k (i, r) k' := by
    intro i he hp
    obtain ⟨r, k', hst⟩ := hk.goes_through hatom he hp
    exact ⟨r, k', hp, hst⟩
  obtain ⟨i, he, hp⟩ := goes_on k
  exact ⟨hall, i, hall i he hp⟩

omit [Port] in
/-- Nobody waits for a task without a mutex. -/
theorem not_cyclic {o : TaskId} (h : ∀ m, (k.tasks o).taskQueue ≠ some (.mtx m)) :
    ¬ Cyclic k.WaitsFor o := by
  intro hc
  obtain ⟨u, m, hm, -⟩ := hc.succ
  exact h m hm

end Runs

/-! ## A run -/

/-- The task `t` does not wait for a mutex. -/
def Kernel.free (k : Kernel) (t : TaskId) : Bool :=
  match (k.tasks t).taskQueue with
  | some (.mtx _) => false
  | _ => true

/-- A test of what a few of the calls demand. -/
def demandsCheck [Port] (k : Kernel) : Action → Bool
  | .call .start => decide (k.taskCurrent = taskIdle ∧ k.started = false)
  | .call (.taskCreate t prio) => decide (k.isrNesting = 0 ∧ 0 < prio ∧ prio < Port.priocnt ∧
      (k.tasks t).joinSem = none)
  | .call (.semCreate _ v) => decide (v < Port.atomicMax ∧ k.waitqueueCurrent = none)
  | .call (.mtxCreate _) => decide (k.isrNesting = 0)
  | .call (.semDown s T) => decide (k.MayBlock ∧ (T = osTimeoutTry ∨ Bounded T) ∧
      k.Blank (.block k.taskCurrent) ∧ (k.queues (.sem (.obj s))).linked = true)
  | .call (.mtxLock m) => decide (k.isrNesting = 0 ∧ k.taskCurrent ≠ taskIdle ∧
      (k.queues (.mtx m)).linked = true) &&
      ((k.mtxs m).owner.toList.all fun o => k.free o)
  | .call .tick => decide (0 < k.isrNesting)
  | .call _ => false
  | _ => true

def lawfulCheck [Port] (k : Kernel) (i : Action) : Bool :=
  orderlyCheck k i && decide (Unburdened k i) && demandsCheck k i

section Check
variable [Port] {k : Kernel} {i : Action}

theorem demands_of_check (h : demandsCheck k i = true) : Joinable k i ∧ Demands k i := by
  cases i with
  | call c =>
    cases c with
    | start => exact ⟨trivial, by simpa only [Demands] using of_decide_eq_true h⟩
    | taskCreate t prio =>
      obtain ⟨h₀, h₁, h₂, hs⟩ := of_decide_eq_true h
      exact ⟨hs, h₀, h₁, h₂⟩
    | semCreate s v => exact ⟨trivial, by simpa only [Demands] using of_decide_eq_true h⟩
    | mtxCreate m => exact ⟨trivial, by simpa only [Demands] using of_decide_eq_true h⟩
    | semDown s T => exact ⟨trivial, by simpa only [Demands] using of_decide_eq_true h⟩
    | mtxLock m =>
      rw [demandsCheck, Bool.and_eq_true] at h
      obtain ⟨h₀, h₁, h₂⟩ := of_decide_eq_true h.1
      refine ⟨trivial, h₀, h₁, h₂, fun o ho => not_cyclic fun m' hm' => ?_⟩
      have := List.all_eq_true.mp h.2 o (by simp [ho.1])
      simp [Kernel.free, hm'] at this
    | tick => exact ⟨trivial, by simpa only [Demands] using of_decide_eq_true h⟩
    | _ => cases h
  | resume => exact ⟨trivial, trivial⟩
  | isrEnter => exact ⟨trivial, trivial⟩
  | isrExit => exact ⟨trivial, trivial⟩

theorem lawful_of_check (hs : Sound k) (h : lawfulCheck k i = true) : Permitted k i := by
  rw [lawfulCheck, Bool.and_eq_true, Bool.and_eq_true, decide_eq_true_eq] at h
  obtain ⟨⟨ho, hu⟩, hd⟩ := h
  obtain ⟨⟨hsane, htyped⟩, ho⟩ := orderly_of_check hs ho
  obtain ⟨hj, hd⟩ := demands_of_check hd
  exact ⟨hsane, htyped, hu, ho, hj, hd⟩

end Check

/-- The task 2 locks the mutex of the task 1, which meets the demands, and the task 1 goes on. -/
theorem kernel_never_fails_contended :
    (∃ k : Kernel, lawfulSystem.Reachable k ∧ (k.mtxs 0).owner = some 1 ∧ k.taskCurrent = 2 ∧
      Demands k (.call (.mtxLock 0)) ∧ ∃ r k', lawfulSystem.step k (.call (.mtxLock 0), r) k') ∧
    ∃ k : Kernel, lawfulSystem.Reachable k ∧ (k.tasks 2).taskQueue = some (.mtx 0) ∧
      k.taskCurrent = 1 ∧ Enabled k .resume ∧ ∃ r k', lawfulSystem.step k (.resume, r) k' := by
  have hsane : ∀ k (i : Action × Option Ret), Permitted k i.1 → Sane k i.1 := fun _ _ h => h.sane
  constructor
  · obtain ⟨k, hk, hx⟩ := Outcome.exists_of_holds
      (x := play lawfulCheck 10 contendedRun (osInit coldKernel))
      (p := fun k => decide ((k.mtxs 0).owner = some 1 ∧ k.taskCurrent = 2 ∧
        Enabled k (.call (.mtxLock 0)) ∧ lawfulCheck k (.call (.mtxLock 0)) = true))
      (by decide +kernel)
    obtain ⟨ho, hc, he, hl⟩ := of_decide_eq_true hx
    have hr : lawfulSystem.Reachable k := reachable_of_play (P := fun k i => Permitted k i.1)
      hsane (fun _ _ _ hs h => lawful_of_check hs h) (.start rfl) hk
    have hp := lawful_of_check (sound_of_reachable hsane hr) hl
    exact ⟨k, hr, ho, hc, hp.demands, (kernel_never_fails (by decide) hr).1 _ he hp⟩
  · obtain ⟨k, hk, hx⟩ := Outcome.exists_of_holds
      (x := play lawfulCheck 10 (contendedRun ++ [.call (.mtxLock 0)]) (osInit coldKernel))
      (p := fun k => decide ((k.tasks 2).taskQueue = some (.mtx 0) ∧ k.taskCurrent = 1 ∧
        Enabled k .resume)) (by decide +kernel)
    obtain ⟨hq, hc, he⟩ := of_decide_eq_true hx
    have hr : lawfulSystem.Reachable k := reachable_of_play (P := fun k i => Permitted k i.1)
      hsane (fun _ _ _ hs h => lawful_of_check hs h) (.start rfl) hk
    exact ⟨k, hr, hq, hc, he,
      (kernel_never_fails (by decide) hr).1 .resume he (resume_permitted k)⟩

end RadOs
