import RadOs.Kernel.Receivers

/-! # What `os_waitqueue_wait` returns

A task that has been suspended returns the code that it was woken with. A task
that an interrupt has woken before it could suspend returns what its last
blocking call has left behind.
-/

namespace RadOs
open Bucketed Runs Budget

/-- The task `t` has suspended with the timeout `T`. -/
def Suspends (t : TaskId) (T : ℕ) (x : KernelStep) : Prop :=
  ActsIn t x.pre ∧ x.label = (.call (.waitqueueWait T), none)

/-- After the task `t` has suspended, a step with the property `P` is taken. -/
def WhileSuspended (t : TaskId) (P : KernelStep → ℕ → KernelStep → Prop)
    (tr : List KernelStep) : Prop :=
  ∃ tr₁ x tr₂ y T, tr = tr₂ ++ x :: tr₁ ∧ y ∈ tr₁ ∧ Suspends t T y ∧ P y T x

/-- The timeout `T` of the call made in the step `y` expires. -/
def Expires (y : KernelStep) (T : ℕ) (x : KernelStep) : Prop :=
  x.label.1 = .call .tick ∧ T ≠ osTimeoutInfinite ∧ x.post.timers.ticks = y.pre.timers.ticks + T

/-- The code `c` says what has happened in the steps `tr` of a wait on `q`. -/
structure Truthful (t : TaskId) (q : WaitqueueId) (c : RetCode) (tr : List KernelStep) : Prop where
  ok : (∃ x ∈ tr, WokenIn t q x) → c = .ok
  timeout : c = .timeout → WhileSuspended t Expires tr
  destroyed : c = .destroyed →
    WhileSuspended t (fun _ _ x => x.label.1 = .call (.waitqueueDestroy q)) tr

/-- A call of `os_waitqueue_wait` by `t` is made while `t` is still prepared, or with the code
`OS_OK` left from before. -/
def Fresh (t : TaskId) (x : KernelStep) : Prop :=
  ActsIn t x.pre → (∃ T, x.label.1 = .call (.waitqueueWait T)) →
    x.pre.waitqueueCurrent ≠ none ∨ x.pre.current.blockCode = .ok

section Stages
variable {t : TaskId} {q : WaitqueueId} {tr : List KernelStep} {st : Stage} {d : Option ℕ}
  {c : RetCode}

theorem WhileSuspended.cons {P : KernelStep → ℕ → KernelStep → Prop} (x : KernelStep)
    (h : WhileSuspended t P tr) : WhileSuspended t P (x :: tr) := by
  obtain ⟨tr₁, y, tr₂, z, T, rfl, h⟩ := h
  exact ⟨tr₁, y, x :: tr₂, z, T, rfl, h⟩

theorem Stages.suspends (h : Stages t q tr (.suspended d)) :
    ∃ y ∈ tr, ∃ T, Suspends t T y ∧ d = deadline y.pre T := by
  generalize hst : Stage.suspended d = st at h
  induction h with
  | start => cases hst
  | step h ha ih =>
    cases ha with
    | stay =>
      obtain ⟨y, hy, hT⟩ := ih hst
      exact ⟨y, by simp [hy], hT⟩
    | @suspended T ha hl =>
      cases hst
      exact ⟨_, by simp, T, ⟨ha, hl⟩, rfl⟩
    | _ => cases hst

/-- A task that somebody still has to wake has not been woken. -/
theorem Stages.not_wokenIn (h : Stages t q tr st) (hw : st.woken = false) :
    ∀ x ∈ tr, ¬ WokenIn t q x := by
  induction h with
  | start => simp
  | step h ha ih =>
    cases ha with
    | stay hall hn =>
      rw [List.forall_mem_cons]
      exact ⟨hn, ih hw⟩
    | suspended ha hl =>
      rw [List.forall_mem_cons]
      exact ⟨by simp [WokenIn, Wakes, hl], ih rfl⟩
    | _ => cases hw

/-- The code of a task that has been taken out of the queue tells the truth. -/
theorem Stages.truthful (h : Stages t q tr (.roused c)) : Truthful t q c tr := by
  generalize hst : Stage.roused c = st at h
  induction h with
  | start => cases hst
  | @step x tr st st' h ha ih =>
    cases ha with
    | stay hall hn =>
      obtain ⟨h₁, h₂, h₃⟩ := ih hst
      refine ⟨?_, fun hc => (h₂ hc).cons x, fun hc => (h₃ hc).cons x⟩
      rintro ⟨y, hy, hw⟩
      obtain rfl | hy := List.mem_cons.mp hy
      · exact absurd hw hn
      · exact h₁ ⟨y, hy, hw⟩
    | caught => cases hst
    | suspended => cases hst
    | woken hw =>
      cases hst
      exact ⟨fun _ => rfl, fun h => (by cases h), fun h => (by cases h)⟩
    | @expired e hl hd =>
      cases hst
      obtain ⟨y, hy, T, hs, hdl⟩ := h.suspends
      refine ⟨?_, fun _ => ⟨tr, x, [], y, T, rfl, hy, hs, hl, ?_⟩, fun h => (by cases h)⟩
      · rintro ⟨z, hz, hwk⟩
        obtain rfl | hz := List.mem_cons.mp hz
        · simp [WokenIn, Wakes, hl] at hwk
        · exact absurd hwk (h.not_wokenIn rfl z hz)
      · rw [deadline] at hdl
        split at hdl
        · cases hdl
        · rename_i hT
          cases hdl
          exact ⟨hT, hd⟩
    | destroyed hl =>
      cases hst
      obtain ⟨y, hy, T, hs, -⟩ := h.suspends
      refine ⟨?_, fun h => (by cases h), fun _ => ⟨tr, x, [], y, T, rfl, hy, hs, hl⟩⟩
      rintro ⟨z, hz, hwk⟩
      obtain rfl | hz := List.mem_cons.mp hz
      · simp [WokenIn, Wakes, hl] at hwk
      · exact absurd hwk (h.not_wokenIn rfl z hz)

theorem Stages.wokenIn_of_caught (h : Stages t q tr .caught) : ∃ x ∈ tr, WokenIn t q x := by
  generalize hst : Stage.caught = st at h
  induction h with
  | start => cases hst
  | step h ha ih =>
    cases ha with
    | stay =>
      obtain ⟨y, hy, hw⟩ := ih hst
      exact ⟨y, by simp [hy], hw⟩
    | caught hw => exact ⟨_, by simp, hw⟩
    | _ => cases hst

end Stages

section Runs
variable [Port] {k k' k₀ k₁ : Kernel} {i : Action} {r r₀ : Option Ret} {t : TaskId}
  {q : WaitqueueId} {c : RetCode} {tr : List KernelStep}

/-- A task that has suspended was prepared. -/
theorem fresh_of_run (h₁ : orderlySystem.Reachable k₁) (h : (orderlySystem.startAt k₁).Run tr k)
    (hin : ∀ x ∈ tr, ¬ Departs t x) : ∀ x ∈ tr, Fresh t x := by
  induction h with
  | start => simp
  | @step tr k k' i hrun hst ih =>
    rw [List.forall_mem_cons] at hin ⊢
    refine ⟨?_, ih hin.2⟩
    rintro ha ⟨T, hi⟩
    obtain ⟨i, r⟩ := i
    have hi : i = .call (.waitqueueWait T) := hi
    subst hi
    obtain ⟨n, hn⟩ := hst.2.2.exists_eq
    obtain ⟨d, hx, rfl⟩ := coded_ok hn
    have hp := (timely_of_reachable (tidy_of_reachable (h₁.run hrun)).1).sound.placed
    obtain ⟨-, -, -, ⟨-, rfl, -⟩ | ⟨q, k₂, hq, -⟩⟩ := hp.waitqueueWait hx
    · exact absurd (Or.inr ⟨_, ha, rfl, Or.inl ⟨T, rfl⟩⟩) hin.1
    · exact Or.inl (by simp [hq])

/-- The return from a wait on `q`, with the steps `tr` behind the return from
`os_waitqueue_prepare`. -/
theorem wait_code_truthful_iff (h₀ : orderlySystem.Reachable k₀)
    (hp : orderlySystem.step k₀ (.resume, r₀) k₁) (hc : k₀.current.ctx = .prepare q)
    (h : (orderlySystem.startAt k₁).Run tr k) (hin : ∀ x ∈ tr, ¬ Departs k₀.taskCurrent x)
    (hst : orderlySystem.step k (i, r) k')
    (hret : WaitReturns k₀.taskCurrent c ⟨k, (i, r), k'⟩) :
    Truthful k₀.taskCurrent q c tr ↔
      ∀ x ∈ ⟨k, (i, r), k'⟩ :: tr, Fresh k₀.taskCurrent x := by
  have hr := h₀.step hp
  have ht := timely_of_reachable (tidy_of_reachable (hr.run h)).1
  obtain ⟨st, hsts, hat⟩ := stages_of_run h₀ hp hc h hin
  rw [List.forall_mem_cons, and_iff_left (fresh_of_run hr h hin)]
  obtain ⟨ha, hcode, hi⟩ := hret
  have ha : ActsIn k₀.taskCurrent k := ha
  have hcode : r = some (.code c) := hcode
  subst hcode
  have hst := orderlySystem_timed hst
  cases st with
  | prepared =>
    obtain ⟨T, hi⟩ | ⟨-, q', hi⟩ := hi
    · have hi : i = .call (.waitqueueWait T) := hi
      subst hi
      cases (hat.suspends ht hst).1
    · have hi : k.current.ctx = .waitqueueWait q' := hi
      rw [hat.2.1] at hi
      cases hi
  | caught =>
    obtain ⟨T, hi⟩ | ⟨-, q', hi⟩ := hi
    · have hi : i = .call (.waitqueueWait T) := hi
      subst hi
      obtain ⟨n, hn⟩ := hst.2.2.exists_eq
      obtain ⟨d, hx, hd⟩ := coded_ok hn
      obtain ⟨-, -, -, ⟨-, rfl, -⟩ | ⟨q', k₂, hq', -⟩⟩ := ht.sound.placed.waitqueueWait hx
      · obtain rfl : c = k.current.blockCode := by simpa using hd
        constructor
        · exact fun hT _ _ => Or.inr (hT.ok hsts.wokenIn_of_caught)
        · intro hf
          have hok : k.current.blockCode = .ok :=
            (hf ha ⟨T, rfl⟩).resolve_left (not_not.mpr hat.2.2.2)
          rw [hok]
          exact ⟨fun _ => rfl, fun h => (by cases h), fun h => (by cases h)⟩
      · rw [hat.2.2.2] at hq'
        cases hq'
    · have hi : k.current.ctx = .waitqueueWait q' := hi
      rw [hat.2.1] at hi
      cases hi
  | suspended d => exact absurd ha.2 (ht.sound.placed.not_current (by simp [hat.1]))
  | roused e =>
    have hat : Roused k₀.taskCurrent (.waitqueueWait q) e k := hat
    obtain ⟨rfl, hr, -⟩ := hat.returns rfl (by simp) ha hst
    obtain rfl : c = e := by simpa using hr
    refine iff_of_true hsts.truthful ?_
    rintro - ⟨T, hT⟩
    cases hT

end Runs

/-- The task 1 is woken while it is suspended. -/
theorem wait_code_truthful_iff_suspended : ∃ k₀ r₀ k₁ tr k i r k',
    orderlySystem.step k₀ (.resume, r₀) k₁ ∧ k₀.current.ctx = .prepare 0 ∧
    (orderlySystem.startAt k₁).Run tr k ∧ orderlySystem.step k (i, r) k' ∧
    WaitReturns k₀.taskCurrent .ok ⟨k, (i, r), k'⟩ ∧ Truthful k₀.taskCurrent 0 .ok tr := by
  obtain ⟨k₀, r₀, k₁, tr, k', hr, hst, hrun, h⟩ := wait_of_play (n := 10)
    [.call (.taskCreate 1 1), .call (.waitqueueCreate 0), .call .start, .resume,
      .call (.waitqueuePrepare 0)]
    [.call (.waitqueueWait 5), .resume, .isrEnter,
      .call (.waitqueueWakeup 0 osWaitqueueAll false), .isrExit, .resume]
    (p := fun k₀ => onLast fun x tr => decide (k₀.current.ctx = .prepare 0 ∧
          ActsIn k₀.taskCurrent x.pre ∧
          x.label = (.resume, some (.code .ok)) ∧ x.pre.current.ctx = .waitqueueWait 0 ∧
          (∀ y ∈ tr, y.label.2 = none ∧ y.label.1 ≠ .call .waitqueueBreak) ∧
          ∀ y ∈ x :: tr, y.pre.current.blockCode = .ok)) (by decide +kernel)
  cases hrun with
  | start => cases h
  | @step tr k k' i hrun hlast =>
    obtain ⟨i, r⟩ := i
    obtain ⟨hc, ha, hl, hx, hin, hok⟩ := of_decide_eq_true h
    cases hl
    have hret : WaitReturns k₀.taskCurrent .ok ⟨k, (.resume, some (.code .ok)), k'⟩ :=
      ⟨ha, rfl, Or.inr ⟨rfl, 0, hx⟩⟩
    refine ⟨k₀, r₀, k₁, tr, k, _, _, k', hst, hc, hrun, hlast, hret,
      (wait_code_truthful_iff hr hst hc hrun (fun y hy => not_departs_of_label (hin y hy)) hlast
        hret).mpr fun y hy _ _ => Or.inr (hok y hy)⟩

/-- The task 1 has run into a timeout of `os_sem_down` before. Then an interrupt wakes it between
`os_waitqueue_prepare` and `os_waitqueue_wait`. -/
theorem wait_code_stale : ∃ k₀ r₀ k₁ tr k i r k', orderlySystem.Reachable k₀ ∧
    orderlySystem.step k₀ (.resume, r₀) k₁ ∧ k₀.current.ctx = .prepare 0 ∧
    (orderlySystem.startAt k₁).Run tr k ∧ (∀ x ∈ tr, ¬ Departs k₀.taskCurrent x) ∧
    orderlySystem.step k (i, r) k' ∧ WaitReturns k₀.taskCurrent .timeout ⟨k, (i, r), k'⟩ ∧
    (∃ x ∈ tr, WokenIn k₀.taskCurrent 0 x) ∧ ¬ Truthful k₀.taskCurrent 0 .timeout tr := by
  obtain ⟨k₀, r₀, k₁, tr, k', hr, hst, hrun, h⟩ := wait_of_play (n := 10)
    [.call (.taskCreate 1 1), .call (.semCreate 0 0), .call (.waitqueueCreate 0),
      .call .start, .resume, .call (.semDown 0 1), .resume, .isrEnter, .call .tick, .isrExit,
      .resume, .call (.waitqueuePrepare 0)]
    [.isrEnter, .call (.waitqueueWakeup 0 osWaitqueueAll false), .isrExit,
      .call (.waitqueueWait osTimeoutInfinite)]
    (p := fun k₀ => onLast fun x tr => decide (k₀.current.ctx = .prepare 0 ∧
          ActsIn k₀.taskCurrent x.pre ∧
          x.label = (.call (.waitqueueWait osTimeoutInfinite), some (.code .timeout)) ∧
          (∀ y ∈ tr, y.label.2 = none ∧ y.label.1 ≠ .call .waitqueueBreak) ∧
          ∃ y ∈ tr, y.label.1 = .call (.waitqueueWakeup 0 osWaitqueueAll false) ∧
            k₀.taskCurrent = y.pre.taskCurrent ∧ 0 < y.pre.isrNesting ∧
            y.pre.waitqueueCurrent = some 0 ∧ y.post.waitqueueCurrent = none)) (by decide +kernel)
  cases hrun with
  | start => cases h
  | @step tr k k' i hrun hlast =>
    obtain ⟨i, r⟩ := i
    obtain ⟨hc, ha, hl, hin, y, hy, hwk, hw⟩ := of_decide_eq_true h
    cases hl
    have hwoken : ∃ x ∈ tr, WokenIn k₀.taskCurrent 0 x := ⟨y, hy, ⟨_, _, hwk⟩, Or.inr hw⟩
    refine ⟨k₀, r₀, k₁, tr, k, _, _, k', hr, hst, hc, hrun,
      fun y hy => not_departs_of_label (hin y hy), hlast, ⟨ha, rfl, Or.inl ⟨_, rfl⟩⟩, hwoken,
      fun hT => ?_⟩
    cases hT.ok hwoken

end RadOs
