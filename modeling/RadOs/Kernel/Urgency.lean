import RadOs.Kernel.Inheritance
import RadOs.Kernel.Ranking

/-! # No operation leaves a more urgent task behind

Programs without wait queues that never lock the scheduler, whose interrupt
handlers do not nest. An operation that makes a task ready ends with
`os_schedule`. The others may skip it: that an unlock of a mutex that nobody
waits for takes no priority away rests on the exactness of priority inheritance.
-/

namespace RadOs
open Bucketed Runs Budget

/-- The functions for tasks, semaphores and mutexes, without `sync`. -/
def Call.plain : Call → Bool
  | .taskCreate _ _ | .taskExit _ | .taskJoin _ | .yield
  | .semCreate _ _ | .semDestroy _ | .semDown _ _ | .semUp _ false
  | .mtxCreate _ | .mtxDestroy _ | .mtxLock _ | .mtxUnlock _ => true
  | _ => false

/-- The functions that a handler calls. -/
def Call.fromIsr : Call → Bool
  | .semUp _ false | .tick => true
  | _ => false

/-- What programs do. Before `os_start` they set up whatever they like. -/
def Plain (k : Kernel) : Action → Prop
  | .call c =>
    if k.started = false then c.decides = false ∧ (Action.call c).locks = false
    else if k.isrNesting = 0 then c.plain = true else c.fromIsr = true
  | .isrEnter => k.isrNesting = 0
  | _ => True

instance (k : Kernel) : DecidablePred (Plain k)
  | .call c => inferInstanceAs (Decidable (if k.started = false then
      c.decides = false ∧ (Action.call c).locks = false
      else if k.isrNesting = 0 then c.plain = true else c.fromIsr = true))
  | .isrEnter => inferInstanceAs (Decidable (k.isrNesting = 0))
  | .resume => .isTrue trivial
  | .isrExit => .isTrue trivial

section General
variable [Port]

def plainSystem : System Kernel (Action × Option Ret) :=
  kernelSystem.restrict fun k i => (Sane k i.1 ∧ Typed i.1) ∧ Plain k i.1

/-- The same with the rule that no task exits while it owns a mutex. -/
def urgentSystem : System Kernel (Action × Option Ret) :=
  kernelSystem.restrict fun k i => (Sane k i.1 ∧ Typed i.1) ∧ Plain k i.1 ∧ Unburdened k i.1

section Steps
variable {k k' : Kernel} {i : Action} {c : Call} {n : ℕ} {r : Option Ret}

omit [Port] in
theorem Path.unprepared {D : Kind → Prop} (h : Path D k k')
    (hD : ∀ d d', D (.ctx d d') → d'.preparing = false)
    (hk : ∀ t, (k.tasks t).ctx.preparing = false) (t : TaskId) :
    (k'.tasks t).ctx.preparing = false := by
  refine h.invariant (I := fun k' => (k'.tasks t).ctx.preparing = false) ?_ (hk t)
  intro a k₁ k₂ ha hx hm
  obtain h | ⟨-, -, h⟩ | ⟨-, rfl | ⟨-, h | ⟨u, h⟩⟩ | ⟨Q, -, hw⟩ | ⟨-, h⟩⟩ :=
    (hm.task t).ctx_cases
  · rwa [h]
  · rw [h]
    rfl
  · exact hD _ _ ha
  · rw [h]
    rfl
  · rw [h]
    rfl
  · revert hw
    cases (k₂.tasks t).ctx <;> simp [Awaits, Ctx.preparing]
  · rw [h]
    rfl

/-- No task prepares to wait in a wait queue. -/
theorem Plain.unprepared (h : Plain k i) (hs : Sound k) (hlk : Lockless k) (he : Enabled k i)
    (hsane : Sane k i) (hx : exec n i k = .ok (k', r))
    (hk : ∀ t, (k.tasks t).ctx.preparing = false) (t : TaskId) :
    (k'.tasks t).ctx.preparing = false := by
  cases i with
  | isrEnter => cases hx; exact hk t
  | isrExit => cases hx; exact hk t
  | resume =>
    by_cases ht : t = k.taskCurrent
    · subst ht
      rw [Bool.eq_false_iff]
      intro hp
      obtain ⟨-, q, hq, -⟩ := resume_preparing hs.placed he.1 hx hp
      have := hk k.taskCurrent
      rw [← Kernel.current, hq] at this
      cases this
    · obtain hc | hc := ctx_elsewhere hs hsane hx ht
      · rw [hc]
        exact hk t
      · rw [hc]
        rfl
  | call c =>
    refine (exec_path hs.placed hs.owned hsane hx).unprepared ?_ hk t
    have hno : ∀ q, c ≠ .waitqueuePrepare q := by
      rintro q rfl
      cases hst : k.started with
      | false => exact (Placed.waitqueuePrepare (quiet_ok hx).1).2.1 (hlk.booting hst).1
      | true =>
        rw [Plain, if_neg (by simp [hst])] at h
        split at h <;> cases h
    have hbrk : c ≠ .waitqueueBreak := by
      rintro rfl
      cases hst : k.started with
      | false => simp [Plain, hst, Call.decides] at h
      | true =>
        rw [Plain, if_neg (by simp [hst])] at h
        split at h <;> cases h
    cases c with
    | waitqueuePrepare q => exact absurd rfl (hno q)
    | waitqueueBreak => exact absurd rfl hbrk
    | schedulerUnlock sync =>
      rintro d d' (hd | hd | hd) <;> cases hd <;> rfl
    | _ => simp +contextual [Does, Ctx.preparing]

omit [Port] in
theorem Plain.inheriting (h : Plain k i) (hu : Unburdened k i)
    (hk : ∀ t, (k.tasks t).ctx.preparing = false) : Inheriting k i := by
  have hcur : k.current.ctx.preparing = false := hk _
  refine ⟨?_, hu, ?_⟩
  · cases i with
    | call c =>
      intro hi
      rw [hcur]
      have hc : c.decides = false ∧ c.unlocks = false := by
        simp only [Plain, hi, if_true] at h
        split at h
        · refine ⟨h.1, ?_⟩
          revert h
          cases c <;> simp [Action.locks, Call.unlocks]
        · revert h
          cases c <;> simp [Call.plain, Call.decides, Call.unlocks]
      simp [hc.1, hc.2]
    | _ => trivial
  · cases i with
    | call c =>
      simp only [Plain] at h
      split at h
      · exact h.2
      · revert h
        split <;> cases c <;> simp [Call.plain, Call.fromIsr, Action.locks]
    | _ => rfl

/-- The calls that make tasks ready and then look for a more urgent one. -/
theorem Call.ranked (hs : Sound k) (hsane : Sane k (.call c)) (hi : k.isrNesting ≤ 1)
    (hl : k.schedLock = 0) (hx : c.exec n k = .ok (k', r))
    (hc : (∃ t p, c = .taskCreate t p) ∨ (∃ s, c = .semDestroy s) ∨ c = .tick) : Ranked k' := by
  have hp := hs.placed
  obtain ⟨t, p, rfl⟩ | ⟨s, rfl⟩ | rfl := hc
  · obtain ⟨-, -, -, k₁, ⟨q, rfl, -, -⟩, hsch⟩ := hp.taskCreate (quiet_ok hx).1 hsane
    exact hsch.ranked le_rfl hi hl
  · obtain ⟨k₁, hpath, -, hsch⟩ := hp.semDestroy (quiet_ok hx).1 (Or.inl rfl)
    have hfr := hpath.wakeFrame (by rintro a ⟨u, hu⟩; exact ⟨u, _, _, hu⟩)
    exact hsch.ranked le_rfl (hfr.isrNesting.trans_le hi) (hfr.schedLock.trans hl)
  · obtain ⟨-, k₁, -, hpath, hsch⟩ := hp.tick (quiet_ok hx).1
    obtain ⟨hi₁, hl₁, -⟩ := hpath.scalars_eq (by simp)
    exact hsch.ranked zero_le_one (hi₁.trans_le hi) (hl₁.trans hl)

theorem Ranked.semUp (h : Ranked k) (hp : Placed k) (hi : k.isrNesting ≤ 1) (hl : k.schedLock = 0)
    {s : ℕ} (hx : (Call.semUp s false).exec n k = .ok (k', r)) : Ranked k' := by
  obtain ⟨-, ⟨-, rfl⟩ | ⟨t, k₁, -, hm, ⟨hf, -⟩ | hsch⟩⟩ := hp.semUp (quiet_ok hx).1 (Or.inr rfl)
  · exact h
  · cases hf
  · have hfr := hm.wakeFrame
    exact hsch.ranked le_rfl (hfr.isrNesting.trans_le hi) (hfr.schedLock.trans hl)

/-- Steps that make no task ready and change no priority. -/
theorem Ranked.other (h : Ranked k) (hs : Sound k) (hsane : Sane k i) (hi : i.contends = false)
    (hx : exec n i k = .ok (k', r)) (hc : ∀ t, ¬ Does k i (.create t))
    (hw : ∀ t Q c, Does k i (.wake t Q c) → (k.tasks t).taskQueue ≠ some Q) : Ranked k' := by
  obtain ⟨k₁, hpath, hlast⟩ := exec_parts hs.placed hs.owned hsane hx
  obtain rfl | ⟨a, -, hst, hm⟩ := hlast
  · have hprio : ∀ u, k.Live u → k'.prio u = k.prio u := fun u hu =>
      ((prio_step hs hsane hi hx u).resolve_right fun hd => hd.2 hu).1
    intro t ht
    obtain hq | ⟨Q, c, -, hq, hd⟩ | hd := hpath.ready_cases hs.placed ht
    · change k'.prio t ≤ k'.prio k'.taskCurrent
      rw [hprio t (hs.placed.live t (by simp [hq])), hpath.ctx_cases.1,
        hprio _ hs.placed.currentLive]
      exact h t hq
    · exact absurd hq (hw t Q c hd)
    · exact absurd hd (hc t)
  · exact hm.ranked hst

/-- As long as the idle task is inside `os_start`, the order need not hold. -/
theorem ranked_step_start (ht : Timely k) (he : Enabled k i) (hsane : Sane k i)
    (hi : k.isrNesting ≤ 1) (hl : k.schedLock = 0) (hc : k.current.ctx = .start)
    (hx : exec n i k = .ok (k', r)) (hc' : k'.current.ctx ≠ .start) : Ranked k' := by
  have hs := ht.sound
  obtain ⟨k₁, hpath, hlast⟩ := exec_parts hs.placed hs.owned hsane hx
  obtain rfl | ⟨a, -, hst, hm⟩ := hlast
  · cases i with
    | isrEnter => cases hx; exact absurd hc hc'
    | isrExit => cases hx; exact absurd hc hc'
    | resume =>
      simp only [exec, resume, hc] at hx
      have hp₁ : Placed (k.setCtx .user) := (setCtx_move k .user).placed hs.placed
      exact (hp₁.schedule (quiet_ok hx).1 (Or.inl rfl)).ranked zero_le_one hi hl
    | call c =>
      have hne : k.isrNesting ≠ 0 := by
        intro h0
        simp [Enabled, h0, hc, Ctx.outside] at he
      have hb := beside hs ht.awake he hsane hx hs.placed.currentLive fun ha => hne ha.1
      rw [Kernel.current, hpath.ctx_cases.1, hb.ctx] at hc'
      exact absurd hc hc'
  · exact hm.ranked hst

/-- One step, behind `os_start`. -/
theorem ranked_step (h : Ranked k) (hco : Contract k) (hlk : Lockless k) (ht : Timely k)
    (hpl : Plain k i) (hst : inheritanceSystem.step k (i, r) k') (hac : k'.Acyclic)
    (hs : k.started = true) (hi : k.isrNesting ≤ 1) (hl : k.schedLock = 0) : Ranked k' := by
  have hst' := hst
  obtain ⟨⟨⟨hsane, -⟩, -⟩, he, hset⟩ := hst'
  obtain ⟨n, hn⟩ := hset.exists_eq
  have hp := ht.sound.placed
  cases hcont : i.contends with
  | true =>
    obtain hc | hr := (hco.contended hlk ht hst hcont hac).2
    · exact hc.ranked h
    · exact hr
  | false =>
    have hother := h.other ht.sound hsane hcont hn
    cases i with
    | isrEnter => cases hn; exact h
    | isrExit => cases hn; exact h
    | resume =>
      refine hother (by simp [Does, Placed.JoinEnd]) fun t Q c hd => ?_
      obtain ⟨u, -, ⟨w, hw⟩ | hw⟩ : ∃ u, k.current.ctx = .joinDown u ∧
          Placed.JoinEnd k.taskCurrent u (.wake t Q c) := by
        simpa [Does] using hd
      · cases hw
        exact hp.no_joiner t
      · simp at hw
    | call c =>
      have hplain : c.plain = true ∨ c.fromIsr = true := by
        simp only [Plain, hs] at hpl
        split at hpl
        · simp_all
        · split at hpl
          · exact Or.inl hpl
          · exact Or.inr hpl
      have hx : c.exec n k = .ok (k', r) := hn
      cases c with
      | taskCreate t p => exact Call.ranked ht.sound hsane hi hl hx (Or.inl ⟨t, p, rfl⟩)
      | semDestroy s => exact Call.ranked ht.sound hsane hi hl hx (Or.inr (Or.inl ⟨s, rfl⟩))
      | tick => exact Call.ranked ht.sound hsane hi hl hx (Or.inr (Or.inr rfl))
      | semUp s sync =>
        obtain rfl : sync = false := by
          cases sync
          · rfl
          · simp [Call.plain, Call.fromIsr] at hplain
        exact h.semUp hp hi hl hx
      | taskExit v =>
        obtain ⟨k₁, -, -, -, hm, -⟩ := hp.taskExit (quiet_ok hx).1 hsane
        exact hm.ranked rfl
      | mtxDestroy m | mtxLock m | mtxUnlock m => cases hcont
      | taskJoin t | yield | semCreate s v | semDown s T | mtxCreate m =>
        exact hother (by simp [Does]) (by simp [Does])
      | _ => simp [Call.plain, Call.fromIsr] at hplain

end Steps

section Runs
variable {k k' : Kernel} {tr : List KernelStep}

theorem urgentSystem_run (h : urgentSystem.Run tr k) : inheritanceSystem.Run tr k ∧
    (∀ t, (k.tasks t).ctx.preparing = false) ∧ k.isrNesting ≤ 1 := by
  refine h.invariant (I := fun tr k => inheritanceSystem.Run tr k ∧
    (∀ t, (k.tasks t).ctx.preparing = false) ∧ k.isrNesting ≤ 1) ?_ ?_
  · rintro k rfl
    refine ⟨.start rfl, fun t => ?_, by simp [osInit, coldKernel, Kernel.setTask, Kernel.setQueue]⟩
    by_cases ht : t = taskIdle <;>
      simp [osInit, coldKernel, Kernel.setTask, Kernel.setQueue, ht, osTaskInit, Ctx.preparing]
  · rintro tr k ⟨i, r⟩ k' - ⟨hrun, hk, hi⟩ ⟨⟨hsane, hpl, hu⟩, he, hset⟩
    obtain ⟨n, hn⟩ := hset.exists_eq
    have hs := (timely_of_reachable ⟨tr, inheritanceSystem_timed hrun⟩).sound
    have hlk := lockless_of_run hrun
    refine ⟨hrun.step ⟨⟨hsane, hpl.inheriting hu hk⟩, he, hset⟩,
      hpl.unprepared hs hlk he hsane.1 hn hk, ?_⟩
    rw [(scalarStep hs.placed hs.owned hsane.1 hn).isrNesting]
    cases i with
    | isrEnter =>
      have h0 : k.isrNesting = 0 := hpl
      simp [nestingAfter, h0]
    | isrExit => exact (Nat.sub_le _ _).trans hi
    | _ => exact hi

/-- From the end of `os_start` on, no ready task is more urgent than the running one. -/
theorem most_urgent_task_runs (h : urgentSystem.Run tr k) (hac : ∀ x ∈ tr, x.post.Acyclic)
    (hs : k.started = true) (hc : k.current.ctx ≠ .start) :
    ∀ t, (k.tasks t).taskQueue = some .ready → (k.tasks t).prioCurrent ≤ k.current.prioCurrent := by
  refine h.invariant (I := fun tr k => (∀ x ∈ tr, x.post.Acyclic) → k.started = true →
    k.current.ctx ≠ .start → Ranked k) ?_ ?_ hac hs hc
  · rintro k rfl - hs
    cases hs
  · rintro tr k ⟨i, r⟩ k' hrun ih hst hac hs' hc'
    obtain ⟨hin, hk, hi⟩ := urgentSystem_run hrun
    have ht := timely_of_reachable ⟨tr, inheritanceSystem_timed hin⟩
    have hac₀ : ∀ x ∈ tr, x.post.Acyclic := fun x hx => hac x (List.mem_cons_of_mem _ hx)
    obtain ⟨⟨hsane, hpl, hu⟩, he, hset⟩ := hst
    obtain ⟨n, hn⟩ := hset.exists_eq
    have hlk := lockless_of_run hin
    have hsc := scalarStep ht.sound.placed ht.sound.owned hsane.1 hn
    obtain hs | rfl := startedAfter_iff.mp (hsc.started.symm.trans hs')
    · have hl : k.schedLock = 0 := by
        rw [hlk.lock hs, Kernel.current, hk]
        rfl
      by_cases hc : k.current.ctx = .start
      · exact ranked_step_start ht he hsane.1 hi hl hc hn hc'
      · exact ranked_step (ih hac₀ hs hc) (contract_of_run hin hac₀) hlk ht hpl
          ⟨⟨hsane, hpl.inheriting hu hk⟩, he, hset⟩ (hac _ List.mem_cons_self) hs hi hl
    · obtain ⟨-, hx⟩ := Outcome.assert_ok (quiet_ok hn).1
      obtain ⟨-, hx⟩ := Outcome.assert_ok hx
      cases hx
      simp [Kernel.current, Kernel.setCtx, Kernel.setTask] at hc'

def plainCheck (k : Kernel) (i : Action) : Bool := timedCheck k i && decide (Plain k i)

def urgentCheck (k : Kernel) (i : Action) : Bool := plainCheck k i && decide (Unburdened k i)

omit [Port] in
theorem plain_of_check (hs : Sound k) {i : Action} (h : plainCheck k i = true) :
    (Sane k i ∧ Typed i) ∧ Plain k i := by
  rw [plainCheck, Bool.and_eq_true, decide_eq_true_eq] at h
  exact ⟨timed_of_check hs h.1, h.2⟩

omit [Port] in
theorem urgent_of_check (hs : Sound k) {i : Action} (h : urgentCheck k i = true) :
    (Sane k i ∧ Typed i) ∧ Plain k i ∧ Unburdened k i := by
  rw [urgentCheck, Bool.and_eq_true, decide_eq_true_eq] at h
  obtain ⟨h₁, h₂⟩ := plain_of_check hs h.1
  exact ⟨h₁, h₂, h.2⟩

end Runs

end General

/-- The task 1 has inherited the priority 3, and unlocks another mutex than the one it inherits
through while the task 3 is ready. -/
def inheritedRun : List Action :=
  [.call (.mtxCreate 0), .call (.mtxCreate 1), .call (.taskCreate 1 1), .call .start, .resume,
    .call (.mtxLock 0), .call (.mtxLock 1), .call (.taskCreate 2 3), .call (.mtxLock 0), .resume,
    .call (.taskCreate 3 2), .call (.mtxUnlock 1)]

theorem most_urgent_task_runs_inherited : ∃ tr k, urgentSystem.Run tr k ∧
    (∀ x ∈ tr, x.post.Acyclic) ∧ k.started = true ∧ k.taskCurrent = 1 ∧
    (k.tasks 1).prioBase = 1 ∧ (k.tasks 3).taskQueue = some .ready ∧
    (k.tasks 3).prioCurrent = 2 ∧ (k.tasks 3).prioCurrent ≤ k.current.prioCurrent := by
  obtain ⟨⟨tr, k⟩, hk, hx⟩ := Outcome.exists_of_holds
    (x := playRun urgentCheck 10 inheritedRun [] (osInit coldKernel))
    (p := fun (tr, k) => decide (k.started = true ∧ k.taskCurrent = 1 ∧ k.current.ctx ≠ .start ∧
      (k.tasks 1).prioBase = 1 ∧ (k.tasks 3).taskQueue = some .ready ∧
      (k.tasks 3).prioCurrent = 2 ∧
      ∀ x ∈ tr, x.label.1.created ⊆ [1, 2, 3] ∧ x.post.Downward [1, 2, 3])) (by decide +kernel)
  obtain ⟨hs, hcur, hc, hb, hq, hp, hx⟩ := of_decide_eq_true hx
  have hr : urgentSystem.Run tr k := run_of_playRun
    (P := fun k i => (Sane k i.1 ∧ Typed i.1) ∧ Plain k i.1 ∧ Unburdened k i.1)
    (fun _ _ h => h.1.1) (fun _ _ _ hs h => urgent_of_check hs h) (.start rfl) hk
  have hac : ∀ x ∈ tr, x.post.Acyclic := by
    refine acyclic_of_run (inheritanceSystem_timed (urgentSystem_run hr).1) fun x hxt =>
      ⟨fun t p hi => (hx x hxt).1 ?_, (hx x hxt).2⟩
    rw [hi]
    simp [Action.created]
  exact ⟨tr, k, hr, hac, hs, hcur, hb, hq, hp, most_urgent_task_runs hr hac hs hc 3 hq⟩

/-- The task 1 exits while it owns the mutex 0 and is created again. It inherits the priority 3
through this mutex, which its new list of mutexes does not hold. -/
def burdenedRun : List Action :=
  [.call (.mtxCreate 0), .call (.mtxCreate 1), .call (.semCreate 0 0), .call (.taskCreate 2 3),
    .call .start, .resume, .call (.taskCreate 1 1), .call (.taskJoin 1), .call (.mtxLock 0),
    .call (.taskExit 0), .resume, .call (.taskCreate 1 1), .call (.semDown 0 osTimeoutInfinite),
    .call (.mtxLock 1), .call (.semUp 0 false), .resume, .call (.mtxLock 0), .resume,
    .call (.taskCreate 3 2), .call (.mtxUnlock 1)]

theorem burdened_task_left_behind : ∃ tr k, plainSystem.Run tr k ∧
    (∀ x ∈ tr, x.post.Acyclic) ∧ k.started = true ∧ k.isrNesting = 0 ∧
    k.current.ctx = .user ∧ (k.tasks 3).taskQueue = some .ready ∧
    k.current.prioCurrent < (k.tasks 3).prioCurrent := by
  obtain ⟨⟨tr, k⟩, hk, hx⟩ := Outcome.exists_of_holds
    (x := playRun plainCheck 10 burdenedRun [] (osInit coldKernel))
    (p := fun (tr, k) => decide (k.started = true ∧ k.isrNesting = 0 ∧ k.current.ctx = .user ∧
      (k.tasks 3).taskQueue = some .ready ∧ k.current.prioCurrent < (k.tasks 3).prioCurrent ∧
      ∀ x ∈ tr, x.label.1.created ⊆ [1, 2, 3] ∧ x.post.Downward [1, 2, 3])) (by decide +kernel)
  obtain ⟨hs, hi, hc, hq, hp, hx⟩ := of_decide_eq_true hx
  have hr : plainSystem.Run tr k := run_of_playRun
    (P := fun k i => (Sane k i.1 ∧ Typed i.1) ∧ Plain k i.1)
    (fun _ _ h => h.1.1) (fun _ _ _ hs h => plain_of_check hs h) (.start rfl) hk
  refine ⟨tr, k, hr, ?_, hs, hi, hc, hq, hp⟩
  refine acyclic_of_run (hr.mono (fun _ h => h) fun _ _ _ h => ⟨h.1.1, h.2⟩) fun x hxt =>
    ⟨fun t p hi => (hx x hxt).1 ?_, (hx x hxt).2⟩
  rw [hi]
  simp [Action.created]

end RadOs
