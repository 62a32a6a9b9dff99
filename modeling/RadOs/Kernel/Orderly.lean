import RadOs.Kernel.Locking
import RadOs.Kernel.Timeouts

/-! # Programs that keep to the rules of wait queues

A task that is prepared to wait calls nothing but `os_waitqueue_wait` or
`os_waitqueue_break`, these are called by such a task only, and the scheduler is
unlocked only by those who have locked it. Then the scheduler stays locked as
long as a task is prepared, so that the task keeps running.
-/

namespace RadOs
open Bucketed Runs Budget

/-- Between `os_waitqueue_prepare` and the end of `os_waitqueue_break`. -/
def Ctx.preparing : Ctx → Bool
  | .prepare _ | .prepared _ | .brk => true
  | _ => false

/-- The two functions that end the prepared state. -/
def Call.decides : Call → Bool
  | .waitqueueBreak | .waitqueueWait _ => true
  | _ => false

def Call.unlocks : Call → Bool
  | .schedulerUnlock _ => true
  | _ => false

def Orderly (k : Kernel) : Action → Prop
  | .call c => k.isrNesting = 0 → (c.decides = true ↔ k.current.ctx.preparing = true) ∧
      (c.unlocks = true → 0 < k.schedLock)
  | _ => True

instance (k : Kernel) : DecidablePred (Orderly k)
  | .call _ => inferInstanceAs (Decidable (_ → _ ∧ _))
  | .resume => .isTrue trivial
  | .isrEnter => .isTrue trivial
  | .isrExit => .isTrue trivial

/-- What the rules are for. -/
structure Tidy (k : Kernel) : Prop where
  lock : 0 ≤ k.schedLock
  held : k.current.ctx.preparing = true → 0 < k.schedLock
  others : ∀ t, t ≠ k.taskCurrent → (k.tasks t).ctx.preparing = false
  waitqueue : ∀ q, k.waitqueueCurrent = some q → k.current.ctx = .prepared q
  idle : (k.tasks taskIdle).ctx.preparing = false

section Steps
variable [Port] {k k' : Kernel} {i : Action} {c : Call} {n : ℕ} {r : Option Ret}

omit [Port] in
/-- A task that gives the processor away is not preparing. -/
theorem Move.leaves_preparing {a : Kind} (h : Move a k k') (ha : a.still = false)
    (hi : k.isrNesting = 0) : (k'.tasks k.taskCurrent).ctx.preparing = false := by
  cases h with
  | @switch _ _ p t c hi hl hn hp hc hr =>
    obtain ⟨q, rfl, -, -⟩ := hr
    obtain rfl | ⟨u, rfl⟩ := hc <;> simp [Kernel.switched, Ctx.preparing]
  | switchIsr h₁ => omega
  | @block _ _ Q c t hi hd hr hn hc hm hq h =>
    obtain ⟨q, rfl, -, -⟩ := h
    have : c.preparing = false := by
      cases c <;> simp_all [Awaits, Ctx.preparing]
    simpa [Kernel.blocked] using this
  | exit hn hd h =>
    obtain ⟨q, rfl, -, -⟩ := h
    simp [Kernel.exited, Ctx.preparing]
  | _ => cases ha

omit [Port] in
/-- Where the running task is in its code as long as it runs. -/
theorem Path.ctx_cases {D : Kind → Prop} (h : Path (fun a => D a ∧ a.still = true) k k') :
    k'.taskCurrent = k.taskCurrent ∧ ((k'.tasks k.taskCurrent).ctx = k.current.ctx ∨
      (k'.tasks k.taskCurrent).ctx = .user ∨ ∃ c, D (.ctx c (k'.tasks k.taskCurrent).ctx)) := by
  refine h.invariant (I := fun k' => k'.taskCurrent = k.taskCurrent ∧
    ((k'.tasks k.taskCurrent).ctx = k.current.ctx ∨ (k'.tasks k.taskCurrent).ctx = .user ∨
      ∃ c, D (.ctx c (k'.tasks k.taskCurrent).ctx))) ?_ ⟨rfl, Or.inl rfl⟩
  rintro a k₂ k₃ ⟨ha, hst⟩ ⟨hc, hx⟩ hm
  refine ⟨(hm.taskCurrent_still hst).trans hc, ?_⟩
  obtain h | ⟨-, -, h⟩ | ⟨-, rfl | ⟨rfl, -⟩ | ⟨Q, rfl, -⟩ | ⟨rfl, -⟩⟩ :=
    (hm.task k.taskCurrent).ctx_cases
  · rwa [h]
  · exact Or.inr (Or.inl h)
  · exact Or.inr (Or.inr ⟨_, ha⟩)
  all_goals cases hst

omit [Port] in
/-- The running task keeps running. -/
theorem Parts.stays {D : Kind → Prop} (h : Parts D k k') (hp : Placed k)
    (hc : k'.taskCurrent = k.taskCurrent) : Path (fun a => D a ∧ a.still = true) k k' := by
  obtain ⟨k₁, hpath, rfl | ⟨a, -, hst, hm⟩⟩ := h
  · exact hpath
  · exact absurd (hc.trans hpath.ctx_cases.1.symm) (hm.taskCurrent_ne (hpath.placed hp) hst)

omit [Port] in
/-- Moves that lead to places where the running task does not prepare. -/
theorem Parts.ctx_preparing {D : Kind → Prop} (h : Parts D k k') (hi : k'.isrNesting = 0)
    (hD : ∀ c c', D (.ctx c c') → c'.preparing = false)
    (hp : (k'.tasks k.taskCurrent).ctx.preparing = true) :
    k'.taskCurrent = k.taskCurrent ∧ (k'.tasks k.taskCurrent).ctx = k.current.ctx := by
  obtain ⟨k₁, hpath, hlast⟩ := h
  obtain ⟨hc, hx⟩ := hpath.ctx_cases
  obtain rfl | ⟨a, -, hst, hm⟩ := hlast
  · refine ⟨hc, hx.resolve_right ?_⟩
    rintro (hu | ⟨c, hu⟩)
    · rw [hu] at hp
      cases hp
    · rw [hD _ _ hu] at hp
      cases hp
  · have hi₁ : k₁.isrNesting = 0 := by
      rw [← (hm.scalars_eq (by rintro rfl; cases hst)).1, hi]
    have := hm.leaves_preparing hst hi₁
    rw [hc, hp] at this
    cases this

/-- The running task is preparing after a call. -/
theorem Call.ctx_preparing (hs : Sound k) (hsane : Sane k (.call c)) (hi : k.isrNesting = 0)
    (h : c.exec n k = .ok (k', r)) (hp : (k'.tasks k.taskCurrent).ctx.preparing = true) :
    k'.taskCurrent = k.taskCurrent ∧ ((∃ q, c = .waitqueuePrepare q) ∨ c = .waitqueueBreak ∨
      (c.decides = false ∧ (k'.tasks k.taskCurrent).ctx = k.current.ctx)) := by
  have hparts := Call.exec_parts hs.placed hs.owned hsane h
  have hnest : k'.isrNesting = 0 :=
    ((scalarStep hs.placed hs.owned hsane (i := .call c) h).isrNesting).trans hi
  cases c with
  | waitqueuePrepare q =>
    obtain ⟨-, -, -, -, rfl⟩ := Placed.waitqueuePrepare (quiet_ok h).1
    exact ⟨rfl, Or.inl ⟨q, rfl⟩⟩
  | waitqueueBreak =>
    obtain ⟨-, hx⟩ := Outcome.assert_ok (quiet_ok h).1
    cases hx
    exact ⟨rfl, Or.inr (Or.inl rfl)⟩
  | waitqueueWait T =>
    obtain ⟨d, hx, -⟩ := coded_ok h
    obtain ⟨-, -, -, ⟨-, -, rfl⟩ | ⟨q, k₁, -, -, ht, hb⟩⟩ := hs.placed.waitqueueWait hx
    · simp [Kernel.setCtx, Kernel.setTask, Ctx.preparing] at hp
    · have hcur : k₁.taskCurrent = k.taskCurrent := ht.frame.1
      have := hb.leaves_preparing rfl (ht.frame.2.1.trans hi)
      rw [show ({ k₁ with waitqueueCurrent := none } : Kernel).taskCurrent = k.taskCurrent from hcur,
        hp] at this
      cases this
  | schedulerUnlock sync =>
    obtain ⟨hc, hx⟩ := hparts.ctx_preparing hnest (by
      rintro c c' (h | h | h) <;> cases h <;> rfl) hp
    exact ⟨hc, Or.inr (Or.inr ⟨rfl, hx⟩)⟩
  | _ =>
    obtain ⟨hc, hx⟩ := hparts.ctx_preparing hnest (by simp +contextual [Does, Ctx.preparing]) hp
    exact ⟨hc, Or.inr (Or.inr ⟨rfl, hx⟩)⟩

omit [Port] in
/-- The running task is preparing after it has gone on. -/
theorem resume_preparing (hp : Placed k) (hi : k.isrNesting = 0) (h : resume n k = .ok (k', r))
    (hx : (k'.tasks k.taskCurrent).ctx.preparing = true) :
    k'.taskCurrent = k.taskCurrent ∧ ∃ q, k.current.ctx = .prepare q ∧
      (k'.tasks k.taskCurrent).ctx = .prepared q := by
  have hnest : k'.isrNesting = 0 := (scalarStep_resume hp h).isrNesting.trans hi
  have huser : ∀ k₁ : Kernel, k₁.taskCurrent = k.taskCurrent → k' = k₁.setCtx .user → False := by
    rintro k₁ hc rfl
    simp [Kernel.setCtx, Kernel.setTask, hc, Ctx.preparing] at hx
  have hsch : ∀ {k₁ : Kernel} {p : ℕ}, Placed k₁ → k₁.taskCurrent = k.taskCurrent →
      k₁.isrNesting = 0 → k₁.current.ctx.preparing = false → Scheduled p k₁ k' → False := by
    rintro k₁ p hp₁ hc hi₁ hctx (⟨rfl, -⟩ | hm)
    · rw [Kernel.current, hc, hx] at hctx
      cases hctx
    · have := hm.leaves_preparing rfl hi₁
      rw [hc, hx] at this
      cases this
  unfold resume at h
  split at h
  case h_1 | h_2 | h_3 => all_goals cases h
  case h_4 q hc =>
    cases (quiet_ok h).1
    exact ⟨rfl, q, hc, by simp [Kernel.setCtx, Kernel.setTask]⟩
  case h_5 hc =>
    obtain ⟨-, hx₁⟩ := Outcome.assert_ok (quiet_ok h).1
    obtain ⟨-, hx₁⟩ := Outcome.assert_ok hx₁
    simp only at hx₁
    split at hx₁ <;> cases hx₁ <;> simp [Kernel.setCtx, Kernel.setTask, Ctx.preparing] at hx
  case h_6 hc | h_7 hc =>
    all_goals
      have hm := setCtx_move k .user
      exact (hsch (hm.placed hp) rfl hi (by simp [Kernel.current, Kernel.setCtx, Ctx.preparing])
        ((hm.placed hp).schedule (quiet_ok h).1 (Or.inl rfl))).elim
  case h_8 hc =>
    cases (quiet_ok h).1
    exact (huser k.running rfl rfl).elim
  case h_9 x hc | h_10 x hc =>
    all_goals
      obtain ⟨⟨k₁, c⟩, hb, h⟩ := Outcome.bind_ok h
      cases h
      exact (huser _ (blockedReturn_path hb).2.1 rfl).elim
  case h_11 m hc =>
    cases h
    exact (huser k.running rfl rfl).elim
  case h_12 t hc =>
    obtain ⟨⟨k₁, c⟩, hb, h⟩ := Outcome.bind_ok h
    obtain ⟨hpath, hcur, hctx⟩ := blockedReturn_path hb
    have hparts := (hpath.placed hp).joinDestroyed (hctx.trans hc) h
    rw [← hcur] at hx
    have := (hparts.ctx_preparing hnest (by simp [Placed.JoinEnd, Ctx.preparing]) hx).2
    rw [this, hctx, hc] at hx
    cases hx
  case h_13 t hc =>
    obtain ⟨⟨k₁, v⟩, hj, h⟩ := Outcome.bind_ok h
    cases h
    have := (Placed.joinFinish hj).taskCurrent_still rfl
    exact (huser _ this rfl).elim

/-- Other tasks stay where they are in their code, but for those that are created. -/
theorem ctx_elsewhere (hs : Sound k) (hsane : Sane k i) (h : exec n i k = .ok (k', r)) {t : TaskId}
    (ht : t ≠ k.taskCurrent) : (k'.tasks t).ctx = (k.tasks t).ctx ∨ (k'.tasks t).ctx = .user := by
  obtain ⟨k₁, hpath, hlast⟩ := exec_parts hs.placed hs.owned hsane h
  have hmove : ∀ {a : Kind} {k₂ k₃ : Kernel}, Move a k₂ k₃ → k₂.taskCurrent = k.taskCurrent →
      ((k₂.tasks t).ctx = (k.tasks t).ctx ∨ (k₂.tasks t).ctx = .user) →
      (k₃.tasks t).ctx = (k.tasks t).ctx ∨ (k₃.tasks t).ctx = .user := by
    intro a k₂ k₃ hm hc hx
    obtain h | ⟨-, -, h⟩ | ⟨h, -⟩ := (hm.task t).ctx_cases
    · rwa [h]
    · exact Or.inr h
    · exact absurd (h.trans hc) ht
  obtain ⟨hc, hx⟩ := hpath.invariant (I := fun k₁ => k₁.taskCurrent = k.taskCurrent ∧
    ((k₁.tasks t).ctx = (k.tasks t).ctx ∨ (k₁.tasks t).ctx = .user))
    (fun a k₂ k₃ ha hk hm => ⟨(hm.taskCurrent_still ha.2).trans hk.1, hmove hm hk.1 hk.2⟩)
    ⟨rfl, Or.inl rfl⟩
  obtain rfl | ⟨a, -, -, hm⟩ := hlast
  · exact hx
  · exact hmove hm hc hx

/-- An interrupt handler does not lock the scheduler and does not prepare to wait. -/
theorem handler_scalars (haw : k.started = true) (hi : k.isrNesting ≠ 0)
    (h : c.exec n k = .ok (k', r)) : schedLockAfter k (.call c) = k.schedLock ∧
      (waitqueueAfter k (.call c) = k.waitqueueCurrent ∨ waitqueueAfter k (.call c) = none) := by
  cases c with
  | start =>
    obtain ⟨-, hx⟩ := Outcome.assert_ok (quiet_ok h).1
    obtain ⟨hst, -⟩ := Outcome.assert_ok hx
    simp [haw] at hst
  | schedulerLock => exact absurd (Outcome.assert_ok (quiet_ok h).1).1 hi
  | schedulerUnlock sync => exact absurd (Outcome.assert_ok (quiet_ok h).1).1 hi
  | waitqueuePrepare q => exact absurd (Outcome.assert_ok (quiet_ok h).1).1 hi
  | waitqueueBreak => exact absurd (Outcome.assert_ok (quiet_ok h).1).1 hi
  | waitqueueWait T =>
    obtain ⟨c, hx, -⟩ := coded_ok h
    exact absurd (Outcome.assert_ok hx).1 hi
  | waitqueueWakeup q cnt sync =>
    refine ⟨rfl, ?_⟩
    simp only [waitqueueAfter, Placed.caught]
    split
    · exact Or.inr rfl
    · exact Or.inl rfl
  | _ => exact ⟨rfl, Or.inl rfl⟩

omit [Port] in
/-- The fields of `Tidy` that follow from those about the running task. -/
theorem Tidy.of_current (h : Tidy k) (hoth : ∀ t, t ≠ k.taskCurrent →
      (k'.tasks t).ctx = (k.tasks t).ctx ∨ (k'.tasks t).ctx = .user)
    (hlock : 0 ≤ k'.schedLock)
    (hcur : (k'.tasks k.taskCurrent).ctx.preparing = true →
      k'.taskCurrent = k.taskCurrent ∧ 0 < k'.schedLock ∧ k.taskCurrent ≠ taskIdle)
    (hw : ∀ q, k'.waitqueueCurrent = some q → (k'.tasks k.taskCurrent).ctx = .prepared q) :
    Tidy k' := by
  have hoth' : ∀ t, t ≠ k.taskCurrent → (k'.tasks t).ctx.preparing = false := by
    intro t ht
    obtain h₁ | h₁ := hoth t ht
    · rw [h₁]
      exact h.others t ht
    · rw [h₁]
      rfl
  refine ⟨hlock, fun hp => ?_, fun t ht => ?_, fun q hq => ?_, ?_⟩
  · by_cases hc : k'.taskCurrent = k.taskCurrent
    · rw [Kernel.current, hc] at hp
      exact (hcur hp).2.1
    · rw [Kernel.current, hoth' _ hc] at hp
      cases hp
  · by_cases hc : t = k.taskCurrent
    · subst hc
      rw [Bool.eq_false_iff]
      exact fun hp => ht (hcur hp).1.symm
    · exact hoth' t hc
  · have hx := hw q hq
    rw [Kernel.current, (hcur (by rw [hx]; rfl)).1, hx]
  · by_cases hc : taskIdle = k.taskCurrent
    · rw [Bool.eq_false_iff]
      intro hp
      rw [hc] at hp
      exact (hcur hp).2.2 hc.symm
    · exact hoth' _ hc

/-- A step of an interrupt handler. -/
theorem Tidy.handler (h : Tidy k) (ht : Timely k) (hi : k.isrNesting ≠ 0)
    (he : Enabled k (.call c)) (hsane : Sane k (.call c)) (hx : c.exec n k = .ok (k', r)) :
    Tidy k' := by
  have hx' : exec n (.call c) k = .ok (k', r) := hx
  have hsc := scalarStep ht.sound.placed ht.sound.owned hsane hx'
  obtain ⟨hl, hw⟩ := handler_scalars (ht.awake (Nat.pos_of_ne_zero hi)) hi hx
  have hlock : k'.schedLock = k.schedLock := hsc.schedLock.trans hl
  have hb := beside ht.sound ht.awake he hsane hx' (t := k.taskCurrent) ht.sound.placed.currentLive
    fun ha => hi ha.1
  refine h.of_current (fun t ht' => ctx_elsewhere ht.sound hsane hx' ht') (hlock ▸ h.lock)
    (fun hp => ?_) fun q hq => ?_
  · rw [hb.ctx] at hp
    have hpos := h.held hp
    refine ⟨?_, hlock ▸ hpos, fun hidle => ?_⟩
    · obtain hc | ⟨h₀, -⟩ | ⟨h₀, -⟩ := taskCurrent_cases ht.sound he hsane hx'
      · exact hc
      · omega
      · exact absurd h₀ hi
    · rw [hidle, h.idle] at hp
      cases hp
  · rw [hb.ctx]
    apply h.waitqueue q
    rw [hsc.waitqueueCurrent] at hq
    obtain hw | hw := hw
    · rwa [← hw]
    · rw [hw] at hq
      cases hq

/-- A call by the running task. -/
theorem Tidy.call (h : Tidy k) (ht : Timely k) (hi : k.isrNesting = 0) (hord : Orderly k (.call c))
    (hsane : Sane k (.call c)) (hx : c.exec n k = .ok (k', r)) : Tidy k' := by
  have hx' : exec n (.call c) k = .ok (k', r) := hx
  have hsc := scalarStep ht.sound.placed ht.sound.owned hsane hx'
  obtain ⟨hdec, hunl⟩ := hord hi
  have hidle : k.current.ctx.preparing = true → k.taskCurrent ≠ taskIdle := by
    intro hp he
    rw [Kernel.current, he, h.idle] at hp
    cases hp
  refine h.of_current (fun t ht' => ctx_elsewhere ht.sound hsane hx' ht') ?_ (fun hp => ?_)
    fun q hq => ?_
  · rw [hsc.schedLock]
    have hlock := h.lock
    cases c with
    | schedulerUnlock sync =>
      have := hunl rfl
      simp only [schedLockAfter]
      omega
    | waitqueueWait T =>
      have := h.held (hdec.mp rfl)
      simp only [schedLockAfter]
      omega
    | schedulerLock => simp only [schedLockAfter]; omega
    | waitqueuePrepare q => simp only [schedLockAfter]; omega
    | start => exact le_rfl
    | _ => exact hlock
  · obtain ⟨hc, ⟨q, rfl⟩ | rfl | ⟨hd, hsame⟩⟩ := Call.ctx_preparing ht.sound hsane hi hx hp
    · obtain ⟨-, hne, -⟩ := Placed.waitqueuePrepare (quiet_ok hx).1
      refine ⟨hc, ?_, hne⟩
      have hlock := h.lock
      rw [hsc.schedLock]
      simp only [schedLockAfter]
      omega
    · have hcur := hdec.mp rfl
      exact ⟨hc, hsc.schedLock ▸ h.held hcur, hidle hcur⟩
    · rw [hsame] at hp
      rw [hdec.mpr hp] at hd
      cases hd
  · rw [hsc.waitqueueCurrent] at hq
    have hwq : k.waitqueueCurrent = some q → c.decides = true := by
      intro hk
      apply hdec.mpr
      rw [h.waitqueue q hk]
      rfl
    exfalso
    cases c with
    | waitqueueBreak => cases hq
    | waitqueueWait T => cases hq
    | waitqueueWakeup q' cnt sync =>
      rw [waitqueueAfter, Placed.caught, if_neg (by simp [hi])] at hq
      cases hwq hq
    | _ => cases hwq hq

/-- The running task goes on. -/
theorem Tidy.resume (h : Tidy k) (ht : Timely k) (he : Enabled k .resume)
    (hx : RadOs.resume n k = .ok (k', r)) : Tidy k' := by
  have hx' : exec n .resume k = .ok (k', r) := hx
  have hsc := scalarStep_resume ht.sound.placed hx
  have hlock := h.lock
  refine h.of_current (fun t ht' => ctx_elsewhere (i := .resume) ht.sound trivial hx' ht') ?_
    (fun hp => ?_) fun q hq => ?_
  · rw [hsc.schedLock]
    simp only [schedLockAfter]
    split
    · rename_i hb
      have := h.held (by rw [hb]; rfl)
      omega
    · exact hlock
  · obtain ⟨hc, q, hq, -⟩ := resume_preparing ht.sound.placed he.1 hx hp
    refine ⟨hc, ?_, fun hidle => ?_⟩
    · rw [hsc.schedLock, schedLockAfter, if_neg (by simp [hq])]
      exact h.held (by rw [hq]; rfl)
    · have := h.idle
      rw [← hidle, ← Kernel.current, hq] at this
      cases this
  · rw [hsc.waitqueueCurrent] at hq
    simp only [waitqueueAfter] at hq
    split at hq
    · rename_i q' hctx
      cases hq
      simp only [RadOs.resume, hctx] at hx
      cases (quiet_ok hx).1
      simp [Kernel.setCtx, Kernel.setTask]
    · have := he.2
      rw [h.waitqueue q hq] at this
      cases this

theorem Tidy.step (h : Tidy k) (ht : Timely k) (hord : Orderly k i) (he : Enabled k i)
    (hsane : Sane k i) (hx : exec n i k = .ok (k', r)) : Tidy k' := by
  cases i with
  | isrEnter => cases hx; exact ⟨h.lock, h.held, h.others, h.waitqueue, h.idle⟩
  | isrExit => cases hx; exact ⟨h.lock, h.held, h.others, h.waitqueue, h.idle⟩
  | resume => exact h.resume ht he hx
  | call c =>
    by_cases hi : k.isrNesting = 0
    · exact h.call ht hi hord hsane hx
    · exact h.handler ht hi he hsane hx

end Steps

section Runs
variable [Port] {k k' : Kernel} {i : Action × Option Ret}

/-- The kernel with programs that keep to the rules. -/
def orderlySystem : System Kernel (Action × Option Ret) :=
  kernelSystem.restrict fun k i => (Sane k i.1 ∧ Typed i.1) ∧ Orderly k i.1

theorem orderlySystem_timed (h : orderlySystem.step k i k') : timedSystem.step k i k' :=
  ⟨h.1.1, h.2⟩

theorem tidy_of_reachable (h : orderlySystem.Reachable k) : timedSystem.Reachable k ∧ Tidy k := by
  refine h.invariant (I := fun k => timedSystem.Reachable k ∧ Tidy k) ?_ ?_
  · rintro k rfl
    refine ⟨.start rfl, by decide, by decide, fun t ht => ?_, by decide, by decide⟩
    simp [osInit, coldKernel, Kernel.setTask, Kernel.setQueue, show t ≠ taskIdle from ht, osTaskInit,
      Ctx.preparing]
  · rintro k ⟨i, r⟩ k' ⟨hr, hk⟩ hst
    have ht := timely_of_reachable hr
    obtain ⟨n, hn⟩ := hst.2.2.exists_eq
    exact ⟨hr.step (orderlySystem_timed hst), hk.step ht hst.1.2 hst.2.1 hst.1.1.1 hn⟩

omit [Port] in
/-- A call by a task that is not prepared. -/
theorem Tidy.waitqueue_none (h : Tidy k) (hp : k.current.ctx.preparing = false) :
    k.waitqueueCurrent = none := by
  by_contra hw
  obtain ⟨q, hq⟩ := Option.ne_none_iff_exists'.mp hw
  rw [h.waitqueue q hq] at hp
  cases hp

def orderlyCheck (k : Kernel) (i : Action) : Bool := timedCheck k i && decide (Orderly k i)

omit [Port] in
theorem orderly_of_check (hs : Sound k) {i : Action} (h : orderlyCheck k i = true) :
    (Sane k i ∧ Typed i) ∧ Orderly k i := by
  rw [orderlyCheck, Bool.and_eq_true, decide_eq_true_eq] at h
  exact ⟨timed_of_check hs h.1, h.2⟩

end Runs

end RadOs
