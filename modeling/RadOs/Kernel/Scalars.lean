import RadOs.Kernel.Sound

/-! # The variables of the scheduler

What a step makes of `isr_nesting`, `sched_lock`, `waitqueue_current` and the
interrupt flag depends on the state before it only through these variables and
the place of the running task in its code.
-/

namespace RadOs
open Runs Budget
variable [Port]

def nestingAfter (k : Kernel) : Action → ℕ
  | .isrEnter => k.isrNesting + 1
  | .isrExit => k.isrNesting - 1
  | _ => k.isrNesting

def schedLockAfter (k : Kernel) : Action → ℤ
  | .call .start => 0
  | .call .schedulerLock | .call (.waitqueuePrepare _) => k.schedLock + 1
  | .call (.schedulerUnlock _) | .call (.waitqueueWait _) => k.schedLock - 1
  | .resume => if k.current.ctx = .brk then k.schedLock - 1 else k.schedLock
  | _ => k.schedLock

def waitqueueAfter (k : Kernel) : Action → Option WaitqueueId
  | .call .waitqueueBreak | .call (.waitqueueWait _) => none
  | .call (.waitqueueWakeup q _ _) => (Placed.caught q k).waitqueueCurrent
  | .resume =>
    match k.current.ctx with
    | .prepare q => some q
    | _ => k.waitqueueCurrent
  | _ => k.waitqueueCurrent

def startedAfter (k : Kernel) : Action → Bool
  | .call .start => true
  | _ => k.started

/-- The variables of `k'` are those that the action `i` makes of the ones of `k`. -/
structure ScalarStep (k : Kernel) (i : Action) (k' : Kernel) : Prop where
  isrNesting : k'.isrNesting = nestingAfter k i
  schedLock : k'.schedLock = schedLockAfter k i
  waitqueueCurrent : k'.waitqueueCurrent = waitqueueAfter k i
  started : k'.started = startedAfter k i

section Steps
variable {k k' k₁ : Kernel} {D : Kind → Prop} {n : ℕ} {r : Option Ret} {i : Action}

omit [Port] in
theorem Path.scalars_eq (h : Path D k k') (hD : ¬ D .scalars) :
    k'.isrNesting = k.isrNesting ∧ k'.schedLock = k.schedLock ∧
      k'.waitqueueCurrent = k.waitqueueCurrent ∧ k'.started = k.started := by
  refine h.invariant (I := fun k' => k'.isrNesting = k.isrNesting ∧ k'.schedLock = k.schedLock ∧
    k'.waitqueueCurrent = k.waitqueueCurrent ∧ k'.started = k.started) ?_ ⟨rfl, rfl, rfl, rfl⟩
  intro a k₁ k₂ ha ⟨h₁, h₂, h₃, h₄⟩ hm
  obtain ⟨h₁', h₂', h₃', h₄'⟩ := hm.scalars_eq (by rintro rfl; exact hD ha)
  exact ⟨h₁'.trans h₁, h₂'.trans h₂, h₃'.trans h₃, h₄'.trans h₄⟩

omit [Port] in
theorem ScalarStep.of_path (h : Path D k₁ k') (hD : ¬ D .scalars) (hk : ScalarStep k i k₁) :
    ScalarStep k i k' := by
  obtain ⟨h₁, h₂, h₃, h₄⟩ := h.scalars_eq hD
  exact ⟨h₁.trans hk.isrNesting, h₂.trans hk.schedLock, h₃.trans hk.waitqueueCurrent,
    h₄.trans hk.started⟩

omit [Port] in
theorem scalarStep_unlock {sync : Bool} (h : osSchedulerUnlock sync k = .ok k') :
    k'.isrNesting = k.isrNesting ∧ k'.schedLock = k.schedLock - 1 ∧
      k'.waitqueueCurrent = k.waitqueueCurrent ∧ k'.started = k.started := by
  obtain ⟨-, h⟩ := Outcome.assert_ok h
  obtain ⟨-, h⟩ := Outcome.assert_ok h
  simp only at h
  split at h
  · cases h
    exact ⟨rfl, rfl, rfl, rfl⟩
  · cases h
    exact ⟨rfl, rfl, rfl, rfl⟩

omit [Port] in
theorem scalarStep_wait (hp : Placed k) {timeoutTicks : ℕ} {c : Option RetCode}
    (h : osWaitqueueWait n timeoutTicks k = .ok (k', c)) :
    ScalarStep k (.call (.waitqueueWait timeoutTicks)) k' := by
  obtain ⟨-, -, -, ⟨hw, -, rfl⟩ | ⟨q, k₁, -, -, ht, hb⟩⟩ := hp.waitqueueWait h
  · exact ⟨rfl, rfl, hw, rfl⟩
  · obtain ⟨h₁, h₂, -, h₄⟩ := ht.move.scalars_eq (by simp)
    obtain ⟨h₁', h₂', h₃', h₄'⟩ := hb.scalars_eq (by simp)
    exact ⟨h₁'.trans h₁, h₂'.trans h₂, h₃', h₄'.trans h₄⟩

omit [Port] in
theorem scalarStep_wakeup (hp : Placed k) {q : WaitqueueId} {cnt : ℕ} {sync : Bool}
    (h : osWaitqueueWakeupSync n q cnt sync k = .ok k') :
    ScalarStep k (.call (.waitqueueWakeup q cnt sync)) k' := by
  obtain ⟨-, -, k₁, hpath, -, hk⟩ := hp.waitqueueWakeup h
  have h₀ : ScalarStep k (.call (.waitqueueWakeup q cnt sync)) (Placed.caught q k) := by
    refine ⟨?_, ?_, rfl, ?_⟩
    all_goals
      unfold Placed.caught
      split <;> rfl
  have h₁ := h₀.of_path hpath (by simp)
  obtain rfl | hsch := hk
  · exact h₁
  · exact h₁.of_path (hsch.path (D := fun a => a = .switch) rfl) (by simp)

omit [Port] in
theorem scalarStep_resume (hp : Placed k) (h : resume n k = .ok (k', r)) :
    ScalarStep k .resume k' := by
  have hsch : ∀ {k₁ : Kernel} {p : ℕ}, Scheduled p k₁ k' → ScalarStep k .resume k₁ →
      ScalarStep k .resume k' := by
    intro k₁ p h h₁
    exact h₁.of_path (h.path (D := fun a => a = .switch) rfl) (by simp)
  have hsame : ∀ {k₁ : Kernel}, (∀ q, k.current.ctx ≠ .prepare q) → k.current.ctx ≠ .brk →
      Path (fun a => a ≠ .scalars) k k₁ → ScalarStep k .resume k₁ := by
    intro k₁ hq hb h
    have hw : waitqueueAfter k .resume = k.waitqueueCurrent := by
      unfold waitqueueAfter
      split <;> simp_all
    obtain ⟨h₁, h₂, h₃, h₄⟩ := h.scalars_eq (by simp)
    exact ⟨h₁, by simp [schedLockAfter, hb, h₂], h₃.trans hw.symm, h₄⟩
  have hblk : ∀ {k₁ : Kernel} {c : RetCode}, blockedReturn k = .ok (k₁, c) →
      Path (fun a => a ≠ .scalars) k k₁ := by
    intro k₁ c hb
    refine (blockedReturn_path hb).1.mono ?_
    rintro a (rfl | rfl) <;> simp
  have hrun : Path (fun a => a ≠ .scalars) k k.running := .single (by simp) (running_move k)
  unfold resume at h
  split at h
  case h_1 | h_2 | h_3 => all_goals cases h
  case h_4 q hc =>
    cases (quiet_ok h).1
    exact ⟨rfl, by simp [schedLockAfter, hc, Kernel.setCtx, Kernel.setTask],
      by simp [waitqueueAfter, hc, Kernel.setCtx, Kernel.setTask], rfl⟩
  case h_5 hc =>
    obtain ⟨h₁, h₂, h₃, h₄⟩ := scalarStep_unlock (quiet_ok h).1
    exact ⟨h₁, by simp [schedLockAfter, hc, h₂], by simp [waitqueueAfter, hc, h₃], h₄⟩
  case h_6 hc | h_7 hc =>
    all_goals
      have hm := setCtx_move k .user
      exact hsch ((hm.placed hp).schedule (quiet_ok h).1 (Or.inl rfl))
        (hsame (by simp [hc]) (by simp [hc]) (.single (by simp) hm))
  case h_8 hc =>
    cases (quiet_ok h).1
    exact hsame (by simp [hc]) (by simp [hc]) (hrun.tail (by simp) (setCtx_move _ _))
  case h_9 x hc | h_10 x hc =>
    all_goals
      obtain ⟨⟨k₁, c⟩, hb, h⟩ := Outcome.bind_ok h
      cases h
      exact hsame (by simp [hc]) (by simp [hc]) ((hblk hb).tail (by simp) (setCtx_move _ _))
  case h_11 m hc =>
    cases h
    exact hsame (by simp [hc]) (by simp [hc]) (hrun.tail (by simp) (setCtx_move _ _))
  case h_12 t hc =>
    obtain ⟨⟨k₁, c⟩, hb, h⟩ := Outcome.bind_ok h
    obtain ⟨hpath, -, hctx⟩ := blockedReturn_path hb
    refine hsame (by simp [hc]) (by simp [hc]) ((hblk hb).trans ?_)
    refine ((hpath.placed hp).joinDestroyed (hctx.trans hc) h).path.mono ?_
    rintro a ha rfl
    simp [Placed.JoinEnd] at ha
  case h_13 t hc =>
    obtain ⟨⟨k₁, v⟩, hj, h⟩ := Outcome.bind_ok h
    cases h
    exact hsame (by simp [hc]) (by simp [hc])
      ((hrun.tail (by simp) (Placed.joinFinish hj)).tail (by simp) (setCtx_move _ _))

theorem scalarStep (hp : Placed k) (ho : Owned k) (hs : Sane k i) (h : exec n i k = .ok (k', r)) :
    ScalarStep k i k' := by
  have hpath := exec_path hp ho hs h
  cases i with
  | isrEnter => cases h; exact ⟨rfl, rfl, rfl, rfl⟩
  | isrExit => cases h; exact ⟨rfl, rfl, rfl, rfl⟩
  | resume => exact scalarStep_resume hp h
  | call c =>
    cases c with
    | start =>
      obtain ⟨hx, -⟩ := quiet_ok h
      obtain ⟨-, hx⟩ := Outcome.assert_ok hx
      obtain ⟨-, hx⟩ := Outcome.assert_ok hx
      cases hx
      exact ⟨rfl, rfl, rfl, rfl⟩
    | schedulerLock =>
      obtain ⟨hx, -⟩ := quiet_ok h
      obtain ⟨-, hx⟩ := Outcome.assert_ok hx
      obtain ⟨-, hx⟩ := Outcome.assert_ok hx
      cases hx
      exact ⟨rfl, rfl, rfl, rfl⟩
    | schedulerUnlock sync =>
      obtain ⟨h₁, h₂, h₃, h₄⟩ := scalarStep_unlock (quiet_ok h).1
      exact ⟨h₁, h₂, h₃, h₄⟩
    | waitqueuePrepare q =>
      obtain ⟨-, -, -, -, hx⟩ := Placed.waitqueuePrepare (quiet_ok h).1
      subst hx
      exact ⟨rfl, rfl, rfl, rfl⟩
    | waitqueueBreak =>
      obtain ⟨hx, -⟩ := quiet_ok h
      obtain ⟨-, hx⟩ := Outcome.assert_ok hx
      cases hx
      exact ⟨rfl, rfl, rfl, rfl⟩
    | waitqueueWait T =>
      obtain ⟨c, hx, -⟩ := coded_ok h
      exact scalarStep_wait hp hx
    | waitqueueWakeup q cnt sync => exact scalarStep_wakeup hp (quiet_ok h).1
    | _ =>
      refine ScalarStep.of_path hpath ?_ ⟨rfl, rfl, rfl, rfl⟩
      simp [Does]

omit [Port] in
/-- Only `os_start` lets interrupts arrive. -/
theorem ScalarStep.awake (h : ScalarStep k i k') (he : Enabled k i)
    (haw : 0 < k.isrNesting → k.started = true) (hi : 0 < k'.isrNesting) : k'.started = true := by
  rw [h.started]
  rw [h.isrNesting] at hi
  cases i with
  | isrEnter => exact he.1
  | isrExit => exact haw (by simp only [nestingAfter] at hi; omega)
  | resume => exact haw hi
  | call c =>
    cases c with
    | start => rfl
    | _ => exact haw hi

end Steps

end RadOs
