import RadOs.Kernel.Play
import RadOs.Kernel.Bystanders
import RadOs.Timer.Lifting
import RadOs.Timer.Refinement

/-! # The timers of blocking calls

A task that blocks with a timeout keeps a timer on its stack. `Guarded` says
which tasks such a timer can belong to while it is on `timer_list`, and that
the task knows it. Whoever wakes the task stops the timer through this
knowledge; only the callback of the timer itself leaves it alone.
-/

namespace RadOs
open Bucketed Runs Budget

/-- `itr_timer->clbck(itr_timer->param)` by what the timer holds. -/
def runProc : TimerProc → Kernel → Outcome Kernel
  | .user, k => .ok k
  | .osSemTimerclbck t, k => blockTimerclbck t k
  | .osWaitqueueTimerclbck t, k => blockTimerclbck t k

theorem timerClbck_eq : timerClbck = fun x k => runProc ((HasTimers.timers k).proc x) k := by
  funext x k
  change timerClbck x k = runProc (k.timers.timers x).proc k
  unfold timerClbck
  cases (k.timers.timers x).proc <;> rfl

theorem osTaskqueueEnqueue_aside (Q : QueueId) (t : TaskId) (x : Timers TimerId TimerProc)
    (k : Kernel) : osTaskqueueEnqueue Q t { k with timers := x } =
      (osTaskqueueEnqueue Q t k).map fun k => { k with timers := x } := by
  unfold osTaskqueueEnqueue
  by_cases hl : (k.queues Q).linked = true
  · simp only [hl, if_true]
    rfl
  · simp only [hl]
    rfl

theorem osTaskqueueUnlink_aside (t : TaskId) (x : Timers TimerId TimerProc) (k : Kernel) :
    osTaskqueueUnlink t { k with timers := x } =
      (osTaskqueueUnlink t k).map fun k => { k with timers := x } := by
  unfold osTaskqueueUnlink
  simp only
  cases (k.tasks t).taskQueue <;> rfl

theorem wakeup_aside (t : TaskId) (c : RetCode) (x : Timers TimerId TimerProc) (k : Kernel) :
    wakeup t c { k with timers := x } = (wakeup t c k).map fun k => { k with timers := x } := by
  let k₁ := k.setTask t { k.tasks t with retValue := c.toInt }
  exact osTaskqueueEnqueue_aside .ready t x (k₁.setTask t { k₁.tasks t with state := .ready })

theorem blockTimerclbck_aside (t : TaskId) (x : Timers TimerId TimerProc) (k : Kernel) :
    blockTimerclbck t { k with timers := x } =
      (blockTimerclbck t k).map fun k => { k with timers := x } := by
  unfold blockTimerclbck osAssert
  rw [osTaskqueueUnlink_aside]
  by_cases hw : (k.tasks t).state = .wait
  · simp only [hw, if_true, Outcome.ok_bind]
    cases osTaskqueueUnlink t k with
    | error e => rfl
    | ok k₁ => exact wakeup_aside t .timeout x k₁
  · simp only [hw, if_false]
    rfl

theorem runProc_aside : Aside runProc := by
  intro p x k
  cases p with
  | user => rfl
  | osSemTimerclbck t => exact blockTimerclbck_aside t x k
  | osWaitqueueTimerclbck t => exact blockTimerclbck_aside t x k

/-- The callback belongs to a task `t` that waits in the queue `Q`. -/
def Guards (t : TaskId) : TimerProc → QueueId → Prop
  | .osSemTimerclbck u, .sem _ => u = t
  | .osWaitqueueTimerclbck u, .waitqueue _ => u = t
  | _, _ => False

/-- The blocking calls with a timeout. -/
def Ctx.timed : Ctx → Bool
  | .semDown _ | .waitqueueWait _ => true
  | _ => false

/-- `xs` is the content of `timer_list`. -/
structure Guarded (k : Kernel) (xs : List TimerId) : Prop where
  armed : Armed k.timers xs
  user : ∀ n, k.timers.proc (.obj n) = .user
  guard : ∀ t, .block t ∈ xs → (k.tasks t).timer = some (.block t) ∧
    k.timers.reload (.block t) = 0 ∧
    ∃ Q, (k.tasks t).taskQueue = some Q ∧ Guards t (k.timers.proc (.block t)) Q
  own : ∀ t x, (k.tasks t).timer = some x →
    x = .block t ∧ k.timers.Made x ∧ (k.tasks t).ctx.timed = true
  pending : ∀ t x Q, (k.tasks t).timer = some x → (k.tasks t).taskQueue = some Q → Q ≠ .ready → x ∈ xs

section Moves
variable {k k' : Kernel} {a : Kind} {xs : List TimerId} {t : TaskId} {Q : QueueId}

theorem Guards.ne_ready {p : TimerProc} (h : Guards t p Q) : Q ≠ .ready := by
  rintro rfl
  cases p <;> exact h

theorem Guards.ne_mtx {p : TimerProc} {m : MtxId} (h : Guards t p Q) : Q ≠ .mtx m := by
  rintro rfl
  cases p <;> exact h

/-- A task without a timer has none on the list. -/
theorem Guarded.notMem (hg : Guarded k xs) (h : (k.tasks t).timer = none) : .block t ∉ xs := by
  intro hm
  rw [(hg.guard t hm).1] at h
  cases h

theorem Guarded.timer_none (hg : Guarded k xs) (h : (k.tasks t).ctx.timed = false) :
    (k.tasks t).timer = none := by
  by_contra hn
  obtain ⟨x, hx⟩ := Option.ne_none_iff_exists'.mp hn
  rw [(hg.own t x hx).2.2] at h
  cases h

/-- The invariant sees of the tasks only their timers, of those with a timer the place in the code,
and of those with a timer on the list the queue. -/
theorem Guarded.congr (hg : Guarded k xs) (ht : k'.timers = k.timers)
    (htm : ∀ t, (k'.tasks t).timer = none ∨ (k'.tasks t).timer = (k.tasks t).timer)
    (hctx : ∀ t, (k'.tasks t).timer ≠ none → (k'.tasks t).ctx = (k.tasks t).ctx)
    (hq : ∀ t, .block t ∈ xs → (k'.tasks t).timer = (k.tasks t).timer ∧
      (k'.tasks t).taskQueue = (k.tasks t).taskQueue)
    (hw : ∀ t Q, (k'.tasks t).timer ≠ none → (k'.tasks t).taskQueue = some Q → Q ≠ .ready →
      (k.tasks t).taskQueue = some Q) : Guarded k' xs := by
  refine ⟨ht ▸ hg.armed, ht ▸ hg.user, fun t hm => ?_, fun t x hx => ?_, fun t x Q hx hQ hr => ?_⟩
  · rw [(hq t hm).1, (hq t hm).2, ht]
    exact hg.guard t hm
  · have hne : (k'.tasks t).timer ≠ none := by simp [hx]
    rw [(htm t).resolve_left hne] at hx
    rw [hctx t hne, ht]
    exact hg.own t x hx
  · have hne : (k'.tasks t).timer ≠ none := by simp [hx]
    rw [(htm t).resolve_left hne] at hx
    exact hg.pending t x Q hx (hw t Q hne hQ hr) hr

/-- The tick on which the timer of a blocking call expires. -/
def Kernel.due (k : Kernel) (t : TaskId) : ℕ := k.timers.ticks + k.timers.left (.block t)

/-- No time has passed, and the timers of blocking calls on the list `ys` were on the list `xs` with
the same deadline. -/
structure Kept (k : Kernel) (xs : List TimerId) (k' : Kernel) (ys : List TimerId) : Prop where
  ticks : k'.timers.ticks = k.timers.ticks
  due : ∀ u, .block u ∈ ys → .block u ∈ xs ∧ k'.due u = k.due u

theorem Kept.refl (h : k'.timers = k.timers) : Kept k xs k' xs :=
  ⟨by rw [h], fun u hu => ⟨hu, by rw [Kernel.due, h, Kernel.due]⟩⟩

theorem Kept.trans {k₁ : Kernel} {ys zs : List TimerId} (h : Kept k xs k₁ ys)
    (h₁ : Kept k₁ ys k' zs) : Kept k xs k' zs := by
  refine ⟨h₁.ticks.trans h.ticks, fun u hu => ?_⟩
  obtain ⟨hy, he⟩ := h₁.due u hu
  exact ⟨(h.due u hy).1, he.trans (h.due u hy).2⟩

/-- The timer of the task `t` is stopped, if it has one. -/
theorem Guarded.stop (hg : Guarded k xs) {x : Timers TimerId TimerProc}
    (hu : k.Untimed t none x) (hx : k'.timers = x) (ht : (k'.tasks t).timer = none)
    (ho : ∀ u, u ≠ t → (k'.tasks u).timer = (k.tasks u).timer ∧
      (k'.tasks u).ctx = (k.tasks u).ctx ∧ (k'.tasks u).taskQueue = (k.tasks u).taskQueue) :
    ∃ ys, Guarded k' ys ∧ .block t ∉ ys ∧ Kept k xs k' ys := by
  obtain ⟨hnone, rfl⟩ | ⟨y, hy, hd, -⟩ := hu
  · have hmem := hg.notMem hnone.symm
    have hne : ∀ u, .block u ∈ xs → u ≠ t := by
      rintro u hu rfl
      exact hmem hu
    refine ⟨xs, hg.congr hx (fun u => ?_) (fun u hu => ?_) (fun u hu => ?_) (fun u Q hu hQ hr => ?_),
      hmem, .refl hx⟩
    · by_cases hu : u = t
      · exact Or.inl (hu ▸ ht)
      · exact Or.inr (ho u hu).1
    · exact (ho u fun e => hu (e ▸ ht)).2.1
    · exact ⟨(ho u (hne u hu)).1, (ho u (hne u hu)).2.2⟩
    · rwa [(ho u fun e => hu (e ▸ ht)).2.2] at hQ
  · obtain ⟨rfl, hmade, -⟩ := hg.own t y hy
    rw [osTimerDestroy_eq hmade, Except.ok.injEq] at hd
    subst hd
    obtain ⟨ha, hsame⟩ := hg.armed.destroy hmade
    have hsub : ∀ u, .block u ∈ xs.filter (· ≠ .block t) → .block u ∈ xs ∧ u ≠ t := by
      intro u hu
      simpa using hu
    have hoth : ∀ u z, (k'.tasks u).timer = some z → u ≠ t := by
      rintro u z hz rfl
      rw [ht] at hz
      cases hz
    have hticks : (destroyed (.block t) k.timers).ticks = k.timers.ticks := by
      simp [Timers.ticks, destroyed_history]
    refine ⟨xs.filter (· ≠ .block t), ⟨hx ▸ ha, fun n => ?_, fun u hu => ?_, fun u z hz => ?_,
      fun u z Q hz hQ hr => ?_⟩, by simp, by rw [hx, hticks], fun u hu => ?_⟩
    · rw [hx, destroyed_proc]
      exact hg.user n
    · obtain ⟨hmem, hne⟩ := hsub u hu
      rw [(ho u hne).1, (ho u hne).2.2, hx, destroyed_proc,
        (hsame _ hmem (by simpa using hne)).2]
      exact hg.guard u hmem
    · have hne := hoth u z hz
      rw [(ho u hne).1] at hz
      obtain ⟨h₁, h₂, h₃⟩ := hg.own u z hz
      rw [(ho u hne).2.1, hx]
      exact ⟨h₁, destroyed_made _ _ h₂, h₃⟩
    · have hne := hoth u z hz
      rw [(ho u hne).1] at hz
      rw [(ho u hne).2.2] at hQ
      have hmem := hg.pending u z Q hz hQ hr
      rw [(hg.own u z hz).1] at hmem ⊢
      simpa [hne] using hmem
    · obtain ⟨hmem, hne⟩ := hsub u hu
      rw [Kernel.due, hx, hticks, (hsame _ hmem (by simpa using hne)).1, Kernel.due]
      exact ⟨hmem, rfl⟩

/-- Waking a task in any way but by its timeout. -/
theorem Guarded.wake (hg : Guarded k xs) (hp : Placed k) {c : RetCode} (hc : c ≠ .timeout)
    (h : Move (.wake t Q c) k k') : ∃ ys, Guarded k' ys ∧ .block t ∉ ys ∧ Kept k xs k' ys := by
  cases h with
  | @wake _ _ _ _ _ tm x hQ hr hu ht h =>
    obtain ⟨q, rfl, -, -⟩ := h
    -- a task that waits for a mutex has no timer
    have hnone : tm = none := by
      obtain h | ⟨m, rfl⟩ | h := ht
      · exact absurd h hc
      · obtain ⟨rfl, -⟩ | ⟨y, -, -, rfl⟩ := hu
        · apply hg.timer_none
          have := (hp.wait t _ hQ hr).2.1
          cases hctx : (k.tasks t).ctx <;> simp_all [Awaits, Ctx.timed]
        · rfl
      · exact h
    subst hnone
    refine hg.stop hu rfl (by simp [Kernel.woken]) fun u hu => ?_
    simp [Kernel.woken, hu]

/-- Moves that change where the running task continues. -/
def Kind.relocates : Kind → Bool
  | .ctx _ _ | .switch | .exit | .block _ => true
  | _ => false

/-- Any other move that leaves the timers alone. -/
theorem Guarded.move (hg : Guarded k xs) (hp : Placed k) (h : Move a k k') (ha : a ≠ .timers)
    (hw : ∀ t Q c, a ≠ .wake t Q c)
    (hc : a.relocates = true → a = .switch ∧ k.isrNesting ≠ 0 ∨ k.current.timer = none) :
    Guarded k' xs := by
  have hcur := hp.current
  refine hg.congr (h.timers_eq ha hw) (fun t => ?_) (fun t ht => ?_) (fun t ht => ?_)
    fun t Q ht hQ hr => ?_
  · have hx := h.task t
    generalize k'.tasks t = x at hx ⊢
    cases hx <;> simp_all [osTaskInit]
  · have hx := h.task t
    generalize k'.tasks t = x at hx ht ⊢
    cases hx with
    | same => rfl
    | leave hu hctx =>
      obtain ⟨hi, -⟩ | rfl := hctx
      · subst hu
        exact absurd ((hc rfl).resolve_left fun h => h.2 hi) ht
      · rfl
    | wake => exact absurd rfl (hw _ _ _)
    | block hu => subst hu; exact absurd ((hc rfl).resolve_left (by simp)) ht
    | exit hu => subst hu; exact absurd ((hc rfl).resolve_left (by simp)) ht
    | create => exact absurd rfl ht
    | ctx hu => subst hu; exact absurd ((hc rfl).resolve_left (by simp)) ht
    | timers => exact absurd rfl ha
    | run => rfl
    | reprio => rfl
    | join => rfl
    | owner => rfl
  · obtain ⟨-, -, Q, hQ, hgd⟩ := hg.guard t ht
    have hne := hgd.ne_ready
    have hlive := hp.live t (by simp [hQ])
    have hx := h.task t
    generalize k'.tasks t = x at hx ⊢
    cases hx with
    | create hl => exact absurd hlive hl
    | leave hu => subst hu; simp_all
    | block hu => subst hu; simp_all
    | run hq => simp_all
    | wake => exact absurd rfl (hw _ _ _)
    | timers => exact absurd rfl ha
    | _ => exact ⟨rfl, rfl⟩
  · obtain ⟨hq, -⟩ | ⟨rfl, rfl⟩ := ((h.task t).waiting_iff hp.toStanding hr).mp hQ
    · exact hq
    · refine absurd ?_ ht
      cases h with
      | block hi hd hr' hn hcx hm hq h =>
        obtain ⟨q, rfl, -, -⟩ := h
        simpa [Kernel.blocked, Kernel.current] using (hc rfl).resolve_left (by simp)

/-- Moves that leave the timers alone but for the timers of tasks that are woken. -/
theorem Guarded.path {D : Kind → Prop} (hg : Guarded k xs) (hp : Placed k)
    (h : Path (fun a => D a ∧ a.still = true) k k')
    (hD : ∀ a, D a → a ≠ .timers ∧ (∀ t Q, a ≠ .wake t Q .timeout) ∧
      ((∀ c c', a ≠ .ctx c c') ∨ k.current.timer = none)) :
    ∃ ys, Guarded k' ys ∧ Kept k xs k' ys ∧ k'.taskCurrent = k.taskCurrent ∧
      (k.current.timer = none → k'.current.timer = none) := by
  refine (h.invariant (I := fun k' => Placed k' ∧ ∃ ys, Guarded k' ys ∧ Kept k xs k' ys ∧
    k'.taskCurrent = k.taskCurrent ∧ (k.current.timer = none → k'.current.timer = none))
    ?_ ⟨hp, xs, hg, .refl rfl, rfl, id⟩).2
  rintro a k₁ k₂ ⟨ha, hst⟩ ⟨hp₁, ys, hg₁, hk₁, hc₁, ht₁⟩ hm
  obtain ⟨hnt, hnw, hctx⟩ := hD a ha
  have hc₂ : k₂.taskCurrent = k₁.taskCurrent := hm.taskCurrent_still hst
  have ht₂ : k₁.current.timer = none → k₂.current.timer = none := by
    intro hn
    have hcur := hp₁.current
    have hlive := hp₁.currentLive
    rw [Kernel.current, hc₂]
    rw [Kernel.current] at hn
    have hx := hm.task k₁.taskCurrent
    generalize k₂.tasks k₁.taskCurrent = x at hx ⊢
    cases hx <;> simp_all [osTaskInit]
  refine ⟨hm.placed hp₁, ?_⟩
  by_cases hw : ∃ t Q c, a = .wake t Q c
  · obtain ⟨t, Q, c, rfl⟩ := hw
    obtain ⟨zs, hg₂, -, hk₂⟩ := hg₁.wake hp₁ (fun hc => hnw t Q (by rw [hc])) hm
    exact ⟨zs, hg₂, hk₁.trans hk₂, hc₂.trans hc₁, fun h => ht₂ (ht₁ h)⟩
  · have hnw' : ∀ t Q c, a ≠ .wake t Q c := fun t Q c e => hw ⟨t, Q, c, e⟩
    refine ⟨ys, hg₁.move hp₁ hm hnt hnw' fun hr => ?_, hk₁.trans (.refl (hm.timers_eq hnt hnw')),
      hc₂.trans hc₁, fun h => ht₂ (ht₁ h)⟩
    refine Or.inr (ht₁ (hctx.resolve_left fun hn => ?_))
    cases a <;> simp_all [Kind.relocates, Kind.still]

/-- The running task blocks with a timeout or without. -/
theorem Guarded.block (hg : Guarded k xs) (hp : Placed k) (hc : k.current.timer = none) {n T : ℕ}
    {proc : TimerProc} {k₁ : Kernel} {w : Option WaitqueueId}
    (ht : Placed.Timed n proc T k k₁) (hgd : Guards k.taskCurrent proc Q)
    (hj : ∀ u, Q ≠ .sem (.join u)) (hb : Move (.block Q) { k₁ with waitqueueCurrent := w } k') :
    ∃ ys, Guarded k' ys ∧
      ((T = osTimeoutInfinite ∧ Kept k xs k' ys) ∨
        (T ≠ osTimeoutInfinite ∧ k'.timers.ticks = k.timers.ticks ∧ .block k.taskCurrent ∈ ys ∧
          k'.due k.taskCurrent = k.timers.ticks + T ∧
          ∀ u, u ≠ k.taskCurrent → .block u ∈ ys → .block u ∈ xs ∧ k'.due u = k.due u)) := by
  obtain ⟨hT, rfl⟩ | ⟨x, hT, -, hx, rfl⟩ := ht
  · have hp₁ : Placed { k₁ with waitqueueCurrent := w } := (Move.scalars rfl).placed hp
    have hg₁ : Guarded { k₁ with waitqueueCurrent := w } xs :=
      hg.congr rfl (fun _ => Or.inr rfl) (fun _ _ => rfl) (fun _ _ => ⟨rfl, rfl⟩) fun _ _ _ h _ => h
    have ht := hb.timers_eq (by simp) (by simp)
    exact ⟨xs, hg₁.move hp₁ hb (by simp) (by simp) (fun _ => Or.inr hc), Or.inl ⟨hT, .refl ht⟩⟩
  · obtain ⟨h₁, h₂, h₃⟩ := osTimerCreate_ok hx
    obtain ⟨y, ys, hset, ha, hmem, hleft, hrel, hother, -, hhist⟩ :=
      hg.armed.create (.block k.taskCurrent) proc T 0 h₁ h₂ h₃ (by simp [ticksMod])
    have hxy : x = y := by
      simpa using ((steady_osTimerCreate _ _ _ _ _).settles hx).unique hset
    subst hxy
    have hprocs := osTimerCreate_timers hx
    have hnm := hg.notMem hc
    cases hb with
    | @block _ _ _ c newTask hi hd hr hn hcx hm hq h =>
      have htimed : c.timed = true := by
        cases c with
        | semDown s => rfl
        | waitqueueWait q => rfl
        | joinDown t => exact absurd hcx (hj _)
        | mtxLock m => exact absurd hcx hgd.ne_mtx
        | _ => exact hcx.elim
      obtain ⟨q, rfl, -, -⟩ := h
      have hoth : ∀ u, u ≠ k.taskCurrent → (k.tasks u).taskQueue ≠ some .ready →
          u ≠ newTask := by
        rintro u hu hne rfl
        exact hne (by simpa [hu] using hn.1)
      have hticks : x.ticks = k.timers.ticks := by
        rw [Timers.ticks, hhist]
        simp [Timers.ticks]
      refine ⟨ys, ⟨ha, fun n => ?_, fun u hu => ?_, fun u z hz => ?_, fun u z Q' hz hQ' hr' => ?_⟩,
        Or.inr ⟨hT, hticks, ?_, ?_, ?_⟩⟩
      · change x.proc (.obj n) = .user
        simpa [Timers.proc, hprocs] using hg.user n
      · obtain hu | hu := (hmem _).mp hu
        · cases hu
          refine ⟨by simp [Kernel.blocked, Kernel.current], hrel, Q, ?_, ?_⟩
          · simp [Kernel.blocked]
          · change Guards _ (x.proc (.block k.taskCurrent)) Q
            simpa [Timers.proc, hprocs] using hgd
        · have hne : u ≠ k.taskCurrent := by
            rintro rfl
            exact hnm hu
          obtain ⟨h₄, h₅, Q', hQ', hgd'⟩ := hg.guard u hu
          have hnt := hoth u hne (by simpa [hQ'] using hgd'.ne_ready)
          refine ⟨by simpa [Kernel.blocked, hne, hnt] using h₄, ?_, Q',
            by simpa [Kernel.blocked, hne, hnt] using hQ', ?_⟩
          · change x.reload (.block u) = 0
            simpa [Timers.reload, hprocs, hne] using h₅
          · change Guards u (x.proc (.block u)) Q'
            simpa [Timers.proc, hprocs, hne] using hgd'
      · by_cases hu : u = k.taskCurrent
        · subst hu
          obtain rfl : .block k.taskCurrent = z := by
            simpa [Kernel.blocked, Kernel.current] using hz
          refine ⟨rfl, ?_, by simpa [Kernel.blocked] using htimed⟩
          change x.Made (.block k.taskCurrent)
          simp [Timers.Made, hprocs]
        · have hz' : (k.tasks u).timer = some z := by
            by_cases hnt : u = newTask
            · subst hnt
              simpa [Kernel.blocked, hu] using hz
            · simpa [Kernel.blocked, hu, hnt] using hz
          obtain ⟨rfl, h₅, h₆⟩ := hg.own u z hz'
          refine ⟨rfl, ?_, ?_⟩
          · change x.Made (.block u)
            simpa [Timers.Made, hprocs, hu] using h₅
          · by_cases hnt : u = newTask
            · subst hnt
              simpa [Kernel.blocked, hu] using h₆
            · simpa [Kernel.blocked, hu, hnt] using h₆
      · by_cases hu : u = k.taskCurrent
        · subst hu
          obtain rfl : .block k.taskCurrent = z := by
            simpa [Kernel.blocked, Kernel.current] using hz
          exact (hmem _).mpr (Or.inl rfl)
        · have hnt : u ≠ newTask := by
            rintro rfl
            simp [Kernel.blocked, hu] at hQ'
          exact (hmem _).mpr (Or.inr (hg.pending u z Q' (by simpa [Kernel.blocked, hu, hnt] using hz)
            (by simpa [Kernel.blocked, hu, hnt] using hQ') hr'))
      · exact (hmem _).mpr (Or.inl rfl)
      · change x.ticks + x.left (.block k.taskCurrent) = _
        rw [hleft, hticks]
      · intro u hu hu'
        refine ⟨((hmem _).mp hu').resolve_left (by simpa using hu), ?_⟩
        change x.ticks + x.left (.block u) = _
        rw [(hother (.block u) (by simpa using hu)).1, hticks, Kernel.due]

/-- The running task comes back from a blocking call. -/
theorem Guarded.blockedReturn (hg : Guarded k xs) {c : RetCode}
    (h : RadOs.blockedReturn k = .ok (k', c)) (d : Ctx) :
    ∃ ys, Guarded (k'.setCtx d) ys ∧ .block k.taskCurrent ∉ ys ∧ Kept k xs (k'.setCtx d) ys := by
  obtain ⟨x, hu, rfl, -⟩ := blockedReturn_ok h
  have hu' : k.Untimed k.taskCurrent none x := by
    simpa [Kernel.Untimed, Kernel.running, Kernel.setTask, Kernel.current] using hu
  refine hg.stop hu' rfl (by simp [Kernel.setCtx, Kernel.current, Kernel.setTask]) fun u hu => ?_
  simp [Kernel.setCtx, Kernel.setTask, hu]

end Moves

/-! ## Ticks -/

section Ticks
variable {k k' : Kernel} {xs : List TimerId} {t : TaskId} {Q : QueueId}

/-- A timeout of a waiting task. -/
theorem blockTimerclbck_ok (hp : Placed k) (hl : k.Linked) (hQ : (k.tasks t).taskQueue = some Q)
    (hr : Q ≠ .ready) : ∃ k₁, blockTimerclbck t k = .ok k₁ ∧
      Realizes (k.woken t .timeout (k.tasks t).timer k.timers) k₁ := by
  have hw := (hp.wait t Q hQ hr).1
  obtain ⟨k₁, hk₁⟩ : ∃ k₁, blockTimerclbck t k = .ok k₁ := by
    have hlink : (Function.update k.queues Q { k.queues Q with
        tasks := (k.queues Q).tasks.remove (k.tasks t).prioCurrent t } .ready).linked = true := by
      rw [Function.update_of_ne hr.symm]
      exact hl.ready
    simp only [blockTimerclbck, osAssert_pos hw, Outcome.ok_bind, osTaskqueueUnlink, hQ, wakeup,
      osTaskMakeready, osTaskqueueEnqueue, Kernel.setTask, Kernel.setQueue, hlink, if_true]
    exact ⟨_, rfl⟩
  refine ⟨k₁, hk₁, ?_⟩
  obtain ⟨-, h⟩ := Outcome.assert_ok hk₁
  obtain ⟨k₂, hu, h⟩ := Outcome.bind_ok h
  obtain ⟨-, q, rfl, hf, hlq⟩ := hp.filed.unlink hu
  obtain ⟨q', rfl, hf', hl'⟩ := hf.wakeup (by simp) h
  refine ⟨q', ?_, hf', fun Q' => (hl' Q').trans (hlq Q')⟩
  simp [Kernel.woken, Kernel.setTask]

/-- The callbacks of a tick wake the tasks of the timers that expire, and touch no other task. -/
theorem callbacks_timeout {proc : TimerId → TimerProc} {fired : List TimerId} (hp : Placed k)
    (hl : k.Linked) (hnd : fired.Nodup)
    (hf : ∀ x ∈ fired, proc x = .user ∨
      ∃ t Q, x = .block t ∧ (k.tasks t).taskQueue = some Q ∧ Guards t (proc x) Q) :
    ∃ k₁, callbacks runProc proc fired k = .ok k₁ ∧
      Path (fun a => ∃ t Q, a = .wake t Q .timeout ∧ .block t ∈ fired ∧
        (k.tasks t).taskQueue = some Q ∧ Guards t (proc (.block t)) Q) k k₁ ∧
      k₁.timers = k.timers ∧
      (∀ t, .block t ∉ fired ∨ proc (.block t) = .user → k₁.tasks t = k.tasks t) ∧
      ∀ t, .block t ∈ fired → proc (.block t) ≠ .user → k₁.tasks t = { k.tasks t with
        retValue := RetCode.timeout.toInt, state := .ready, taskQueue := some .ready } := by
  induction fired generalizing k with
  | nil => exact ⟨k, rfl, .refl k, rfl, fun _ _ => rfl, by simp⟩
  | cons x fired ih =>
    obtain ⟨hx, hnd'⟩ := List.nodup_cons.mp hnd
    rw [callbacks_cons]
    obtain hu | ⟨t, Q, rfl, hQ, hgd⟩ := hf x (by simp)
    · obtain ⟨k₁, hk₁, hpath, htm, hsame, hwoken⟩ := ih hp hl hnd' fun y hy => hf y (by simp [hy])
      refine ⟨k₁, by rw [hu]; exact hk₁, hpath.mono ?_, htm, fun t ht => ?_, fun t ht hne => ?_⟩
      · rintro a ⟨t, Q, rfl, ht, hQ⟩
        exact ⟨t, Q, rfl, by simp [ht], hQ⟩
      · apply hsame
        by_cases hx : .block t = x
        · exact Or.inr (by rw [hx, hu])
        · exact ht.imp_left fun h hm => h (by simp [hm])
      · refine hwoken t ((List.mem_cons.mp ht).resolve_left ?_) hne
        rintro rfl
        exact hne hu
    · obtain ⟨k₁, hk₁, hre⟩ := blockTimerclbck_ok hp hl hQ hgd.ne_ready
      have hrun : runProc (proc (.block t)) k = .ok k₁ := by
        revert hgd
        cases proc (.block t) <;> cases Q <;> simp only [Guards, false_imp_iff, runProc]
        all_goals
          rintro rfl
          exact hk₁
      have hm : Move (.wake t Q .timeout) k k₁ :=
        .wake hQ hgd.ne_ready (Or.inl ⟨rfl, rfl⟩) (Or.inl rfl) hre
      have hne : proc (.block t) ≠ .user := by
        intro hu
        rw [hu] at hgd
        exact hgd
      obtain ⟨q, rfl, -, -⟩ := hre
      have hother : ∀ u, u ≠ t → (k.woken t .timeout (k.tasks t).timer k.timers).tasks u =
          k.tasks u := by
        intro u hu
        simp [Kernel.woken, hu]
      obtain ⟨k₂, hk₂, hpath, htm, hsame, hwoken⟩ := ih (hm.placed hp)
        (hm.linked hp.toStanding (by simp) hl) hnd' (by
          intro y hy
          refine (hf y (by simp [hy])).imp_right ?_
          rintro ⟨u, Q', rfl, hQ', hgd'⟩
          have hut : u ≠ t := by
            rintro rfl
            exact hx hy
          exact ⟨u, Q', rfl, by rw [← hQ']; exact congrArg _ (hother u hut), hgd'⟩)
      refine ⟨k₂, by rw [hrun]; exact hk₂, ?_, htm, fun u hu => ?_, fun u hu hnu => ?_⟩
      · refine (Path.single ⟨t, Q, rfl, by simp, hQ, hgd⟩ hm).trans (hpath.mono ?_)
        rintro a ⟨u, Q', rfl, hu, hQ', hgd'⟩
        have hut : u ≠ t := by
          rintro rfl
          exact hx hu
        exact ⟨u, Q', rfl, by simp [hu], by rw [← hQ']; exact congrArg _ (hother u hut).symm, hgd'⟩
      · have hut : u ≠ t := by
          rintro rfl
          exact hu.elim (fun h => h (by simp)) hne
        rw [hsame u (hu.imp_left fun h hm => h (by simp [hm]))]
        exact hother u hut
      · by_cases hut : u = t
        · subst hut
          rw [hsame u (Or.inl hx)]
          simp [Kernel.woken]
        · rw [hwoken u ((List.mem_cons.mp hu).resolve_left (by simpa using hut)) hnu]
          have := hother u hut
          simp only at this ⊢
          rw [this]

/-- A tick goes through. It wakes exactly the tasks whose timers have one tick left. -/
theorem Guarded.tick (hg : Guarded k xs) (hp : Placed k) (hl : k.Linked) :
    ∃ k' ys, Settles (fun n => osTickTimers timerClbck n k) (.ok k') ∧ Guarded k' ys ∧
      k'.timers.ticks = k.timers.ticks + 1 ∧
      (∀ t, .block t ∈ ys → .block t ∈ xs ∧ k'.due t = k.due t ∧ k.due t ≠ k.timers.ticks + 1) ∧
      (∀ t, .block t ∈ xs → k.due t = k.timers.ticks + 1 → k'.tasks t = { k.tasks t with
        retValue := RetCode.timeout.toInt, state := .ready, taskQueue := some .ready }) ∧
      ∀ t, ¬ (.block t ∈ xs ∧ k.due t = k.timers.ticks + 1) → k'.tasks t = k.tasks t := by
  obtain ⟨y, ys, ht, hproc, hset⟩ := Armed.tick_lift (s := k) hg.armed runProc_aside
  have hfired : ∀ t, .block t ∈ xs.filter (fun x => k.timers.left x = 1) ↔
      .block t ∈ xs ∧ k.due t = k.timers.ticks + 1 := by
    intro t
    simp [Kernel.due]
  have hgd : ∀ t, .block t ∈ xs → k.timers.proc (.block t) ≠ .user := by
    intro t hm hu
    obtain ⟨-, -, Q, -, hgd⟩ := hg.guard t hm
    rw [hu] at hgd
    exact hgd
  have hdue : ∀ x ∈ xs.filter fun x => k.timers.left x = 1, k.timers.proc x = .user ∨
      ∃ t Q, x = .block t ∧ (k.tasks t).taskQueue = some Q ∧ Guards t (k.timers.proc x) Q := by
    intro x hx
    cases x with
    | obj n => exact Or.inl (hg.user n)
    | block t =>
      obtain ⟨-, -, Q, hQ, h⟩ := hg.guard t (List.mem_filter.mp hx).1
      exact Or.inr ⟨t, Q, rfl, hQ, h⟩
  obtain ⟨k₁, hk₁, -, htm, hsame, hwoken⟩ :=
    callbacks_timeout hp hl (hg.armed.nodup.filter _) hdue
  have hset' : Settles (fun n => osTickTimers timerClbck n k) (.ok { k₁ with timers := y }) := by
    rw [timerClbck_eq]
    change Settles _ ((callbacks runProc k.timers.proc
      (xs.filter fun x => k.timers.left x = 1) k).map (HasTimers.setTimers y)) at hset
    rw [hk₁] at hset
    exact hset
  -- a timer that is still on the list was on it, with one more tick
  have hkept : ∀ t, .block t ∈ ys →
      .block t ∈ xs ∧ k.timers.left (.block t) = y.left (.block t) + 1 := by
    intro t hm
    have hord := ht.order _ (ht.armed.left_pos hm)
    have hm' : .block t ∈ ys.filter fun x => y.left x = y.left (.block t) := by simp [hm]
    rw [hord, List.mem_append] at hm'
    obtain hm' | hm' := hm'
    · simp only [List.mem_filter, decide_eq_true_eq] at hm'
      exact hm'
    · have hrel : 0 < k.timers.reload (.block t) ∧ .block t ∈ xs := by
        simp only [List.mem_filter, decide_eq_true_eq] at hm'
        exact ⟨hm'.2.1, hm'.1.1⟩
      have := (hg.guard t hrel.2).2.1
      omega
  have hlater : ∀ t, .block t ∈ xs → .block t ∉ xs.filter (fun x => k.timers.left x = 1) →
      .block t ∈ ys := by
    intro t hm hn
    have hpos := hg.armed.left_pos hm
    have hne : k.timers.left (.block t) ≠ 1 := fun h => hn (by simp [hm, h])
    have hord := ht.order (k.timers.left (.block t) - 1) (by omega)
    have hm' : .block t ∈ ys.filter fun x => y.left x = k.timers.left (.block t) - 1 := by
      rw [hord, List.mem_append]
      left
      rw [Nat.sub_add_cancel hpos]
      exact List.mem_filter.mpr ⟨hm, decide_eq_true rfl⟩
    exact (List.mem_filter.mp hm').1
  have hticks : y.ticks = k.timers.ticks + 1 := by
    change y.history.count .tick = _
    rw [ht.history, count_tick_fires]
    simp [Timers.ticks, HasTimers.timers]
  have hmade : ∀ x, k.timers.Made x → y.Made x := by
    intro x hx
    rw [Timers.Made, ht.magic]
    exact hx
  have hstay : ∀ t, .block t ∈ ys → k.due t ≠ k.timers.ticks + 1 := by
    intro t hm
    have h₁ := (hkept t hm).2
    have h₂ := ht.armed.left_pos hm
    simp only [Kernel.due]
    omega
  have htimer : ∀ t, (k₁.tasks t).timer = (k.tasks t).timer ∧ (k₁.tasks t).ctx = (k.tasks t).ctx := by
    intro t
    by_cases hm : .block t ∈ xs.filter fun x => k.timers.left x = 1
    · rw [hwoken t hm (hgd t (List.mem_filter.mp hm).1)]
      exact ⟨rfl, rfl⟩
    · rw [hsame t (Or.inl hm)]
      exact ⟨rfl, rfl⟩
  refine ⟨{ k₁ with timers := y }, ys, hset', ⟨ht.armed, fun n => ?_, fun t hm => ?_,
    fun t x hx => ?_, fun t x Q hx hQ hr => ?_⟩, hticks,
    fun t hm => ⟨(hkept t hm).1, ?_, hstay t hm⟩, fun t hm hd => ?_, fun t hn => ?_⟩
  · exact (congrFun hproc (.obj n)).trans (hg.user n)
  · obtain ⟨h₁, h₂, h₃⟩ := hg.guard t (hkept t hm).1
    have hun : k₁.tasks t = k.tasks t :=
      hsame t (Or.inl fun h => hstay t hm ((hfired t).mp h).2)
    refine ⟨hun ▸ h₁, (ht.reload _).trans h₂, ?_⟩
    change ∃ Q, (k₁.tasks t).taskQueue = some Q ∧ Guards t (y.proc (.block t)) Q
    rw [hun, hproc]
    exact h₃
  · change (k₁.tasks t).timer = some x at hx
    rw [(htimer t).1] at hx
    obtain ⟨h₁, h₂, h₃⟩ := hg.own t x hx
    exact ⟨h₁, hmade x h₂, (congrArg Ctx.timed (htimer t).2).trans h₃⟩
  · change (k₁.tasks t).timer = some x at hx
    change (k₁.tasks t).taskQueue = some Q at hQ
    have hnf : .block t ∉ xs.filter fun x => k.timers.left x = 1 := by
      intro hm
      rw [hwoken t hm (hgd t (List.mem_filter.mp hm).1)] at hQ
      exact hr (Option.some.inj hQ).symm
    rw [hsame t (Or.inl hnf)] at hx hQ
    obtain ⟨rfl, -, -⟩ := hg.own t x hx
    exact hlater t (hg.pending t _ Q hx hQ hr) hnf
  · change y.ticks + y.left (.block t) = _
    have := (hkept t hm).2
    simp only [Kernel.due]
    omega
  · exact hwoken t ((hfired t).mpr ⟨hm, hd⟩) (hgd t hm)
  · exact hsame t (Or.inl fun h => hn ((hfired t).mp h))

end Ticks

end RadOs
