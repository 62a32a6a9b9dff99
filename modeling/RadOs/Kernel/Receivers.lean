import RadOs.Kernel.TimedWaits
import RadOs.Kernel.Waits

/-! # The stages of a wait on a wait queue

From the return of `os_waitqueue_prepare` to the return of the matching
`os_waitqueue_wait` a task goes through a few stages, and the steps of the
kernel move it from one to the next.
-/

namespace RadOs
open Bucketed Runs Budget

inductive Stage where
  /-- behind `os_waitqueue_prepare` -/
  | prepared
  /-- the same, but already woken by an interrupt -/
  | caught
  /-- in the queue, with the tick of the timeout, if there is one -/
  | suspended (deadline : Option ℕ)
  /-- out of the queue, and will return the code -/
  | roused (c : RetCode)

/-- Nobody else needs to wake the task. -/
def Stage.woken : Stage → Bool
  | .caught | .roused _ => true
  | _ => false

/-- The stage of the task `t` in its wait on `q`. -/
def AtStage (t : TaskId) (q : WaitqueueId) (k : Kernel) : Stage → Prop
  | .prepared => t = k.taskCurrent ∧ k.current.ctx = .prepared q ∧ k.current.mtxList = [] ∧
      k.waitqueueCurrent = some q
  | .caught => t = k.taskCurrent ∧ k.current.ctx = .prepared q ∧ k.current.mtxList = [] ∧
      k.waitqueueCurrent = none
  | .suspended d => (k.tasks t).taskQueue = some (.waitqueue q) ∧
      (k.tasks t).timer = d.map (fun _ => .block t) ∧ ∀ e, d = some e → k.due t = e
  | .roused c => Roused t (.waitqueueWait q) c k

def deadline (k : Kernel) (T : ℕ) : Option ℕ :=
  if T = osTimeoutInfinite then none else some (k.timers.ticks + T)

def Wakes (q : WaitqueueId) (x : KernelStep) : Prop :=
  ∃ cnt sync, x.label.1 = .call (.waitqueueWakeup q cnt sync)

def WakesAll (q : WaitqueueId) (x : KernelStep) : Prop :=
  ∃ sync, x.label.1 = .call (.waitqueueWakeup q osWaitqueueAll sync)

/-- `os_waitqueue_wakeup_sync` takes the task `t` out of the queue, or, called by an interrupt
handler, keeps it from getting there. -/
def WokenIn (t : TaskId) (q : WaitqueueId) (x : KernelStep) : Prop :=
  Wakes q x ∧ ((x.pre.tasks t).taskQueue = some (.waitqueue q) ∧
      (x.post.tasks t).taskQueue ≠ some (.waitqueue q) ∨
    t = x.pre.taskCurrent ∧ 0 < x.pre.isrNesting ∧ x.pre.waitqueueCurrent = some q ∧
      x.post.waitqueueCurrent = none)

/-- What the step `x` makes of the stage of the task `t`. -/
inductive Advance (t : TaskId) (q : WaitqueueId) (x : KernelStep) : Stage → Stage → Prop
  | stay {st : Stage} (h : WakesAll q x → st.woken = true) (hn : ¬ WokenIn t q x) :
      Advance t q x st st
  | caught (h : WokenIn t q x) : Advance t q x .prepared .caught
  | suspended {T : ℕ} (ha : ActsIn t x.pre) (h : x.label = (.call (.waitqueueWait T), none)) :
      Advance t q x .prepared (.suspended (deadline x.pre T))
  | woken {d : Option ℕ} (h : WokenIn t q x) : Advance t q x (.suspended d) (.roused .ok)
  | expired {d : ℕ} (h : x.label.1 = .call .tick) (hd : x.post.timers.ticks = d) :
      Advance t q x (.suspended (some d)) (.roused .timeout)
  | destroyed {d : Option ℕ} (h : x.label.1 = .call (.waitqueueDestroy q)) :
      Advance t q x (.suspended d) (.roused .destroyed)

/-- The step returns the code `c` from `os_waitqueue_wait`, called by the task `t`. -/
def WaitReturns (t : TaskId) (c : RetCode) (x : KernelStep) : Prop :=
  ActsIn t x.pre ∧ x.label.2 = some (.code c) ∧ ((∃ T, x.label.1 = .call (.waitqueueWait T)) ∨
    (x.label.1 = .resume ∧ ∃ q, x.pre.current.ctx = .waitqueueWait q))

/-- The wait of the task `t` is over. -/
def Departs (t : TaskId) (x : KernelStep) : Prop :=
  (ActsIn t x.pre ∧ x.label.1 = .call .waitqueueBreak) ∨ ∃ c, WaitReturns t c x

theorem not_departs_of_label {t : TaskId} {x : KernelStep}
    (h : x.label.2 = none ∧ x.label.1 ≠ .call .waitqueueBreak) : ¬ Departs t x := by
  rintro (⟨-, hx⟩ | ⟨c, -, hx, -⟩)
  · exact h.2 hx
  · rw [h.1] at hx
    cases hx

section Steps
variable [Port] {k k' : Kernel} {i : Action} {c : Call} {n : ℕ} {r : Option Ret} {t : TaskId}
  {q : WaitqueueId}

omit [Port] in
/-- Who wakes tasks that wait in a wait queue. -/
theorem does_wake_waitqueue {e : RetCode}
    (h : Does k i (.wake t (.waitqueue q) e)) :
    (∃ cnt sync, i = .call (.waitqueueWakeup q cnt sync)) ∧ e = .ok ∨
      i = .call (.waitqueueDestroy q) ∧ e = .destroyed ∨ i = .call .tick ∧ e = .timeout := by
  revert h
  cases i with
  | call d =>
    cases d with
    | taskExit v =>
      rintro (h | ⟨s, hj, h | ⟨u, h⟩⟩)
      · cases h
      · cases h
      · cases h
    | _ => simp +contextual [Does]
  | resume => simp [Does, Placed.JoinEnd]
  | isrEnter => simp [Does]
  | isrExit => simp [Does]

omit [Port] in
theorem Placed.ctx_of_waitqueue (hp : Placed k)
    (hq : (k.tasks t).taskQueue = some (.waitqueue q)) : (k.tasks t).ctx = .waitqueueWait q := by
  have := (hp.wait t _ hq (by simp)).2.1
  generalize (k.tasks t).ctx = c at this
  cases c <;> simp_all [Awaits]

/-- An interrupt handler takes and releases no mutex and creates no task. -/
theorem handler_mtxList (hs : Sound k) (hsane : Sane k (.call c)) (hi : k.isrNesting ≠ 0)
    (h : c.exec n k = .ok (k', r)) (u : TaskId) :
    (k'.tasks u).mtxList = (k.tasks u).mtxList := by
  have hdoes : ∀ a, Does k (.call c) a → (∀ m, a ≠ .owner m) ∧ a ≠ .create u := by
    intro a ha
    cases c with
    | taskCreate t p => exact absurd (Outcome.assert_ok (quiet_ok h).1).1 hi
    | mtxCreate m => exact absurd (Outcome.assert_ok (quiet_ok h).1).1 hi
    | mtxDestroy m => exact absurd (Outcome.assert_ok (quiet_ok h).1).1 hi
    | mtxUnlock m => exact absurd (Outcome.assert_ok (quiet_ok h).1).1 hi
    | mtxLock m =>
      obtain ⟨d, hx, -⟩ := coded_ok h
      exact absurd (Outcome.assert_ok hx).1 hi
    | _ =>
      refine ⟨?_, ?_⟩
      · rintro m rfl
        simp [Does] at ha
      · rintro rfl
        simp [Does] at ha
  refine (exec_path hs.placed hs.owned hsane (i := .call c) h).invariant
    (I := fun k' => (k'.tasks u).mtxList = (k.tasks u).mtxList) ?_ rfl
  intro a k₁ k₂ ha hk hm
  exact ((hm.task u).mtxList_eq (hdoes a ha).1 (hdoes a ha).2).trans hk

/-- What an interrupt leaves alone of a task that is about to wait. -/
theorem preparing_handler (ht : Timely k) (htd : Tidy k) (hc : k.current.ctx.preparing = true)
    (hi : k.isrNesting ≠ 0) (he : Enabled k (.call c)) (hsane : Sane k (.call c))
    (h : c.exec n k = .ok (k', r)) : k'.taskCurrent = k.taskCurrent ∧
      k'.current.ctx = k.current.ctx ∧ k'.current.mtxList = k.current.mtxList := by
  have hx : exec n (.call c) k = .ok (k', r) := h
  have hlock := htd.held hc
  have hl : k'.schedLock = k.schedLock :=
    (scalarStep ht.sound.placed ht.sound.owned hsane hx).schedLock.trans
      (handler_scalars (ht.awake (Nat.pos_of_ne_zero hi)) hi h).1
  have hcur : k'.taskCurrent = k.taskCurrent := by
    obtain hcur | ⟨h₀, -⟩ | ⟨h₀, -⟩ := taskCurrent_cases ht.sound he hsane hx
    · exact hcur
    · omega
    · exact absurd h₀ hi
  have hb := beside ht.sound ht.awake he hsane hx (t := k.taskCurrent) ht.sound.placed.currentLive
    fun ha => hi ha.1
  refine ⟨hcur, ?_, ?_⟩
  · rw [Kernel.current, hcur, hb.ctx]
    rfl
  · rw [Kernel.current, hcur]
    exact handler_mtxList ht.sound hsane hi h _

omit [Port] in
/-- Only the wait and its break can be called by a task that is prepared. -/
theorem prepared_calls (hc : k.current.ctx = .prepared q) (hi : k.isrNesting = 0)
    (hord : Orderly k (.call c)) : c = .waitqueueBreak ∨ ∃ T, c = .waitqueueWait T := by
  have := (hord hi).1.mpr (by rw [hc]; rfl)
  cases c <;> simp_all [Call.decides]

theorem AtStage.caught_step (h : AtStage t q k .caught) (ht : Timely k) (htd : Tidy k)
    (hst : orderlySystem.step k (i, r) k') (hd : ¬ Departs t ⟨k, (i, r), k'⟩) :
    AtStage t q k' .caught := by
  obtain ⟨rfl, hc, hm, hw⟩ := h
  obtain ⟨⟨⟨hsane, hty⟩, hord⟩, he, hset⟩ := hst
  obtain ⟨n, hn⟩ := hset.exists_eq
  cases i with
  | isrEnter => cases hn; exact ⟨rfl, hc, hm, hw⟩
  | isrExit => cases hn; exact ⟨rfl, hc, hm, hw⟩
  | resume =>
    have := he.2
    rw [hc] at this
    cases this
  | call c =>
    by_cases hi : k.isrNesting = 0
    · obtain rfl | ⟨T, rfl⟩ := prepared_calls hc hi hord
      · exact absurd (Or.inl ⟨⟨hi, rfl⟩, rfl⟩) hd
      · obtain ⟨d, hx, rfl⟩ := coded_ok hn
        obtain ⟨-, -, -, ⟨-, rfl, -⟩ | ⟨q', k₁, hq', -⟩⟩ := ht.sound.placed.waitqueueWait hx
        · exact absurd (Or.inr ⟨_, ⟨hi, rfl⟩, rfl, Or.inl ⟨T, rfl⟩⟩) hd
        · rw [hw] at hq'
          cases hq'
    · obtain ⟨hcur, hc', hm'⟩ := preparing_handler ht htd (by rw [hc]; rfl) hi he hsane hn
      refine ⟨hcur.symm, hc'.trans hc, hm'.trans hm, ?_⟩
      rw [(scalarStep ht.sound.placed ht.sound.owned hsane hn).waitqueueCurrent]
      obtain hw' | hw' := (handler_scalars (ht.awake (Nat.pos_of_ne_zero hi)) hi hn).2
      · exact hw'.trans hw
      · exact hw'

theorem AtStage.suspends {T : ℕ} (h : AtStage t q k .prepared) (ht : Timely k)
    (hst : timedSystem.step k (.call (.waitqueueWait T), r) k') :
    r = none ∧ AtStage t q k' (.suspended (deadline k T)) := by
  obtain ⟨rfl, hc, hm, hw⟩ := h
  have hp := ht.sound.placed
  obtain ⟨xs, hg⟩ := ht.guarded
  obtain ⟨⟨hsane, hty⟩, he, hset⟩ := hst
  obtain ⟨n, hn⟩ := hset.exists_eq
  have htimer : k.current.timer = none := hg.timer_none (by rw [← Kernel.current, hc]; rfl)
  obtain ⟨d, hx, rfl⟩ := coded_ok hn
  obtain ⟨-, -, -, ⟨hq', -⟩ | ⟨q', k₁, hq', rfl, htm, hb⟩⟩ := hp.waitqueueWait hx
  · rw [hw] at hq'
    cases hq'
  · obtain rfl : q = q' := by simpa [hw] using hq'
    have hl : Move .scalars k { k with schedLock := k.schedLock - 1 } := .scalars rfl
    have hp₁ : Placed { k₁ with waitqueueCurrent := none } :=
      (Move.scalars (w := none) rfl).placed (htm.move.placed (hl.placed hp))
    have hgd : Guards k.taskCurrent (.osWaitqueueTimerclbck k.taskCurrent) (.waitqueue q) := rfl
    obtain ⟨ys, hg', hk⟩ := (hg.move hp hl (by simp) (by simp) (by simp [Kind.relocates])).block
      (hl.placed hp) htimer htm hgd (by simp) hb
    obtain ⟨-, e, -, htask⟩ := hb.block_current hp₁
    have hcur : k₁.taskCurrent = k.taskCurrent := htm.frame.1
    have htask : k'.tasks k₁.taskCurrent = _ := htask
    rw [hcur] at htask
    refine ⟨rfl, by rw [htask], ?_, ?_⟩
    · obtain ⟨hT, -⟩ | ⟨hT, -, hmem, -⟩ := hk
      · obtain ⟨-, rfl⟩ | ⟨x, hne, -⟩ := htm
        · rw [htask, deadline, if_pos hT]
          exact htimer
        · exact absurd hT hne
      · rw [deadline, if_neg hT]
        exact (hg'.guard _ hmem).1
    · intro e he
      obtain ⟨hT, -⟩ | ⟨hT, -, -, hdue, -⟩ := hk
      · rw [deadline, if_pos hT] at he
        cases he
      · rw [deadline, if_neg hT] at he
        cases he
        exact hdue

theorem AtStage.prepared_step (h : AtStage t q k .prepared) (ht : Timely k) (htd : Tidy k)
    (hst : orderlySystem.step k (i, r) k') (hd : ¬ Departs t ⟨k, (i, r), k'⟩) :
    ∃ st, Advance t q ⟨k, (i, r), k'⟩ .prepared st ∧ AtStage t q k' st := by
  have hsusp := fun T (hi : i = .call (.waitqueueWait T)) =>
    h.suspends ht (T := T) (r := r) (hi ▸ orderlySystem_timed hst)
  obtain ⟨rfl, hc, hm, hw⟩ := h
  obtain ⟨⟨⟨hsane, hty⟩, hord⟩, he, hset⟩ := hst
  obtain ⟨n, hn⟩ := hset.exists_eq
  cases i with
  | isrEnter =>
    cases hn
    exact ⟨_, .stay (by simp [WakesAll]) (by simp [WokenIn, Wakes]), rfl, hc, hm, hw⟩
  | isrExit =>
    cases hn
    exact ⟨_, .stay (by simp [WakesAll]) (by simp [WokenIn, Wakes]), rfl, hc, hm, hw⟩
  | resume =>
    have := he.2
    rw [hc] at this
    cases this
  | call c =>
    by_cases hi : k.isrNesting = 0
    · obtain rfl | ⟨T, rfl⟩ := prepared_calls hc hi hord
      · exact absurd (Or.inl ⟨⟨hi, rfl⟩, rfl⟩) hd
      · obtain ⟨rfl, hs⟩ := hsusp T rfl
        exact ⟨_, .suspended ⟨hi, rfl⟩ rfl, hs⟩
    · obtain ⟨hcur, hc', hm'⟩ := preparing_handler ht htd (by rw [hc]; rfl) hi he hsane hn
      have hafter := (scalarStep ht.sound.placed ht.sound.owned hsane hn).waitqueueCurrent
      by_cases hwk : ∃ cnt sync, c = .waitqueueWakeup q cnt sync
      · obtain ⟨cnt, sync, rfl⟩ := hwk
        have hnone : k'.waitqueueCurrent = none := by
          rw [hafter, waitqueueAfter, Placed.caught, if_pos ⟨Nat.pos_of_ne_zero hi, hw⟩]
        exact ⟨_, .caught ⟨⟨cnt, sync, rfl⟩, Or.inr ⟨rfl, Nat.pos_of_ne_zero hi, hw, hnone⟩⟩,
          hcur.symm, hc'.trans hc, hm'.trans hm, hnone⟩
      · have hnw : ¬ Wakes q ⟨k, (.call c, r), k'⟩ := by
          rintro ⟨cnt, sync, hx⟩
          have hx : Action.call c = _ := hx
          cases hx
          exact hwk ⟨_, _, rfl⟩
        have hna : ¬ WakesAll q ⟨k, (.call c, r), k'⟩ := by
          rintro ⟨sync, hx⟩
          exact hnw ⟨_, sync, hx⟩
        refine ⟨_, .stay (fun hx => absurd hx hna) (fun h => hnw h.1), hcur.symm, hc'.trans hc,
          hm'.trans hm, ?_⟩
        · rw [hafter]
          cases c with
          | waitqueueWakeup q' cnt sync =>
            have hne : q ≠ q' := by
              rintro rfl
              exact hwk ⟨cnt, sync, rfl⟩
            rw [waitqueueAfter, Placed.caught, if_neg (by simp [hw, hne])]
            exact hw
          | waitqueueBreak => exact absurd (Outcome.assert_ok (quiet_ok hn).1).1 hi
          | waitqueueWait T =>
            obtain ⟨d, hx, -⟩ := coded_ok hn
            exact absurd (Outcome.assert_ok hx).1 hi
          | _ => exact hw

theorem WakesAll.not_waiting (hp : Placed k) (hst : k.Step (i, r) k')
    (h : WakesAll q ⟨k, (i, r), k'⟩) : (k'.tasks t).taskQueue ≠ some (.waitqueue q) := by
  obtain ⟨sync, hi⟩ := h
  have hi : i = .call (.waitqueueWakeup q osWaitqueueAll sync) := hi
  subst hi
  obtain ⟨n, hn⟩ := hst.2.exists_eq
  obtain ⟨-, -, k₁, hpath, hall, hk⟩ := hp.waitqueueWakeup (quiet_ok hn).1
  obtain rfl | hsch := hk
  · exact hall rfl t
  · rw [ne_eq, hsch.waiting_iff (hpath.placed ((Placed.caught_move q k).placed hp)) (by simp)]
    exact hall rfl t

theorem AtStage.suspended_step {d : Option ℕ} (h : AtStage t q k (.suspended d)) (ht : Timely k)
    (hst : timedSystem.step k (i, r) k') :
    ∃ st, Advance t q ⟨k, (i, r), k'⟩ (.suspended d) st ∧ AtStage t q k' st := by
  obtain ⟨hq, htm, hdue⟩ := h
  have hp := ht.sound.placed
  have hne := hp.not_current (t := t) (by simp [hq])
  have hctx := hp.ctx_of_waitqueue hq
  have hro := fun c =>
    roused_iff (c := c) (d := .waitqueueWait q) rfl ht hst (t := t) fun ha => hne ha.2
  have hstep := hst.2
  obtain ⟨⟨hsane, hty⟩, he, hset⟩ := hst
  obtain ⟨n, hn⟩ := hset.exists_eq
  obtain ⟨xs, hg⟩ := ht.guarded
  obtain ⟨ys, hgd⟩ := hg.exec ht.sound ht.awake he hsane hty hn
  obtain ⟨-, -, hu | ⟨Q, c, hw⟩⟩ := beside ht.sound ht.awake he hsane hn
    (hp.live t (by simp [hq])) fun ha => hne ha.2
  · have hq' := (hu.queue _ (by simp)).mpr hq
    have htm' := (hu.timer _ (by simp) hq).trans htm
    refine ⟨_, .stay (fun hall => absurd hq' (hall.not_waiting hp hstep)) ?_, hq', htm', ?_⟩
    · rintro ⟨-, ⟨-, h⟩ | ⟨h, -⟩⟩
      · exact h hq'
      · exact hne h
    rintro e rfl
    have hmem := hgd.guarded.pending t _ _ htm' hq' (by simp)
    exact (hgd.due t hne hmem).2.trans (hdue e rfl)
  · obtain rfl : Q = .waitqueue q := Option.some.inj (hw.waited.symm.trans hq)
    have hrs := (hro c).mpr (Or.inr ⟨hctx, _, hw⟩)
    obtain ⟨⟨cnt, sync, rfl⟩, rfl⟩ | ⟨rfl, rfl⟩ | ⟨rfl, rfl⟩ := does_wake_waitqueue hw.does
    · exact ⟨_, .woken ⟨⟨cnt, sync, rfl⟩, Or.inl ⟨hq, hw.gone _ (by simp)⟩⟩, hrs⟩
    · exact ⟨_, .destroyed rfl, hrs⟩
    · -- its timer has expired, otherwise it would still wait
      obtain ⟨k₁, hp₁, hsch, -, hsame⟩ := hgd.tick rfl
      have hex : .block t ∈ xs ∧ k.due t = k.timers.ticks + 1 := by
        by_contra hx
        apply hw.gone (.waitqueue q) (by simp)
        rw [hsch.waiting_iff hp₁ (by simp), hsame t hx]
        exact hq
      have htimer := (hg.guard t hex.1).1
      rw [htm] at htimer
      obtain ⟨e, rfl, -⟩ := Option.map_eq_some_iff.mp htimer
      refine ⟨_, .expired rfl ?_, hrs⟩
      have hticks : k'.timers.ticks = k.timers.ticks + 1 := hgd.ticks
      exact hticks.trans (hex.2.symm.trans (hdue e rfl))

theorem AtStage.roused_step {e : RetCode} (h : AtStage t q k (.roused e)) (ht : Timely k)
    (hst : timedSystem.step k (i, r) k') (hd : ¬ Departs t ⟨k, (i, r), k'⟩) :
    AtStage t q k' (.roused e) := by
  have h : Roused t (.waitqueueWait q) e k := h
  by_cases ha : ActsIn t k
  · obtain ⟨rfl, rfl, -⟩ := h.returns rfl (by simp) ha hst
    obtain ⟨hi, rfl⟩ := ha
    exact absurd (Or.inr ⟨e, ⟨hi, rfl⟩, rfl, Or.inr ⟨rfl, q, h.ctx⟩⟩) hd
  · exact (roused_iff rfl ht hst ha).mpr (Or.inl h)

/-- As long as the wait is not over, every step keeps the task at a stage. -/
theorem AtStage.step {st : Stage} (h : AtStage t q k st) (ht : Timely k) (htd : Tidy k)
    (hst : orderlySystem.step k (i, r) k') (hd : ¬ Departs t ⟨k, (i, r), k'⟩) :
    ∃ st', Advance t q ⟨k, (i, r), k'⟩ st st' ∧ AtStage t q k' st' := by
  cases st with
  | prepared => exact h.prepared_step ht htd hst hd
  | caught =>
    refine ⟨_, .stay (fun _ => rfl) ?_, h.caught_step ht htd hst hd⟩
    obtain ⟨rfl, hc, -, hw⟩ := h
    rintro ⟨-, ⟨hq, -⟩ | ⟨-, -, hq, -⟩⟩
    · rw [ht.sound.placed.current] at hq
      cases hq
    · rw [hw] at hq
      cases hq
  | suspended d => exact h.suspended_step ht (orderlySystem_timed hst)
  | roused e =>
    refine ⟨_, .stay (fun _ => rfl) ?_, h.roused_step ht (orderlySystem_timed hst) hd⟩
    have h : Roused t (.waitqueueWait q) e k := h
    rintro ⟨-, ⟨hq, -⟩ | ⟨rfl, -, hq, -⟩⟩
    · exact h.queue _ (by simp) hq
    · have := (htd.waitqueue q hq).symm.trans h.ctx
      cases this

end Steps

/-- The stages that a task has gone through in the steps `tr`. -/
inductive Stages (t : TaskId) (q : WaitqueueId) : List KernelStep → Stage → Prop
  | start : Stages t q [] .prepared
  | step {x : KernelStep} {tr : List KernelStep} {st st' : Stage} (h : Stages t q tr st)
      (ha : Advance t q x st st') : Stages t q (x :: tr) st'

section Runs
variable [Port] {k k₀ k₁ : Kernel} {r : Option Ret} {t : TaskId} {q : WaitqueueId}
  {tr : List KernelStep}

/-- A task that is about to wait owns no mutex. -/
theorem mtxList_of_preparing (h : orderlySystem.Reachable k)
    (hc : k.current.ctx.preparing = true) : k.current.mtxList = [] := by
  refine (h.invariant (I := fun k => orderlySystem.Reachable k ∧
    (k.current.ctx.preparing = true → k.current.mtxList = [])) ?_ ?_).2 hc
  · rintro k rfl
    exact ⟨.start rfl, by decide⟩
  rintro k ⟨i, r⟩ k' ⟨hr, hk⟩ hst
  refine ⟨hr.step hst, fun hp => ?_⟩
  obtain ⟨htr, htd⟩ := tidy_of_reachable hr
  have ht := timely_of_reachable htr
  obtain ⟨⟨⟨hsane, -⟩, hord⟩, he, hset⟩ := hst
  obtain ⟨n, hn⟩ := hset.exists_eq
  have hcur : k'.taskCurrent = k.taskCurrent := by
    by_contra hne
    obtain hx | hx := ctx_elsewhere ht.sound hsane hn hne
    · rw [Kernel.current, hx, htd.others _ hne] at hp
      cases hp
    · rw [Kernel.current, hx] at hp
      cases hp
  rw [Kernel.current, hcur] at hp ⊢
  cases i with
  | isrEnter => cases hn; exact hk hp
  | isrExit => cases hn; exact hk hp
  | resume =>
    obtain ⟨-, q, hq, -⟩ := resume_preparing ht.sound.placed he.1 hn hp
    simp only [exec, resume, hq] at hn
    cases (quiet_ok hn).1
    simpa [Kernel.current, Kernel.setCtx, Kernel.setTask] using hk (by rw [hq]; rfl)
  | call c =>
    by_cases hi : k.isrNesting = 0
    · obtain ⟨-, ⟨q, rfl⟩ | rfl | ⟨hd, hsame⟩⟩ := Call.ctx_preparing ht.sound hsane hi hn hp
      · obtain ⟨-, -, hm, -, rfl⟩ := Placed.waitqueuePrepare (quiet_ok hn).1
        simpa [Kernel.current, Kernel.setCtx, Kernel.setTask] using hm
      · obtain ⟨-, hx⟩ := Outcome.assert_ok (quiet_ok hn).1
        cases hx
        simpa [Kernel.current, Kernel.setCtx, Kernel.setTask] using hk ((hord hi).1.mp rfl)
      · rw [hsame] at hp
        rw [(hord hi).1.mpr hp] at hd
        cases hd
    · have hb := beside ht.sound ht.awake he hsane hn (t := k.taskCurrent)
        ht.sound.placed.currentLive fun ha => hi ha.1
      rw [hb.ctx] at hp
      rw [handler_mtxList ht.sound hsane hi hn]
      exact hk hp

theorem AtStage.start (h₀ : orderlySystem.Reachable k₀) (hst : orderlySystem.step k₀ (.resume, r) k₁)
    (hc : k₀.current.ctx = .prepare q) : AtStage k₀.taskCurrent q k₁ .prepared := by
  have hm := mtxList_of_preparing h₀ (by rw [hc]; rfl)
  obtain ⟨-, -, hset⟩ := hst
  obtain ⟨n, hn⟩ := hset.exists_eq
  simp only [exec, resume, hc] at hn
  cases (quiet_ok hn).1
  refine ⟨rfl, ?_, ?_, rfl⟩
  · simp [Kernel.current, Kernel.setCtx, Kernel.setTask]
  · simpa [Kernel.current, Kernel.setCtx, Kernel.setTask] using hm

theorem stages_of_run (h₀ : orderlySystem.Reachable k₀)
    (hst : orderlySystem.step k₀ (.resume, r) k₁) (hc : k₀.current.ctx = .prepare q)
    (h : (orderlySystem.startAt k₁).Run tr k) (hin : ∀ x ∈ tr, ¬ Departs k₀.taskCurrent x) :
    ∃ st, Stages k₀.taskCurrent q tr st ∧ AtStage k₀.taskCurrent q k st := by
  have hr := h₀.step hst
  induction h with
  | start h =>
    cases h
    exact ⟨_, .start, .start h₀ hst hc⟩
  | @step tr k k' i hrun hst' ih =>
    obtain ⟨i, r⟩ := i
    obtain ⟨st, hsts, hat⟩ := ih fun x hx => hin x (by simp [hx])
    obtain ⟨htr, htd⟩ := tidy_of_reachable (hr.run hrun)
    obtain ⟨st', hadv, hat'⟩ := hat.step (timely_of_reachable htr) htd hst' (hin _ (by simp))
    exact ⟨st', hsts.step hadv, hat'⟩

/-- Play the actions `is`, the return from `os_waitqueue_prepare`, and the actions `js`. -/
theorem wait_of_play {n : ℕ} (is js : List Action) {p : Kernel → List KernelStep → Bool}
    (h : ((playStep orderlyCheck n is .resume).holds fun x =>
      (playRun orderlyCheck n js [] x.2.1).holds fun y => p x.1 y.1) = true) :
    ∃ k₀ r₀ k₁ tr k, orderlySystem.Reachable k₀ ∧ orderlySystem.step k₀ (.resume, r₀) k₁ ∧
      (orderlySystem.startAt k₁).Run tr k ∧ p k₀ tr = true := by
  obtain ⟨⟨k₀, k₁, r₀⟩, hk₀, h⟩ := Outcome.exists_of_holds h
  obtain ⟨⟨tr, k⟩, hk, h⟩ := Outcome.exists_of_holds h
  obtain ⟨hr, hP, hst⟩ := step_of_playStep
    (P := fun k i => (Sane k i.1 ∧ Typed i.1) ∧ Orderly k i.1) (fun _ _ h => h.1.1)
    (fun _ _ _ hs h => orderly_of_check hs h) hk₀
  have hr : orderlySystem.Reachable k₀ := hr
  have hst : orderlySystem.step k₀ (.resume, r₀) k₁ := ⟨hP, hst⟩
  exact ⟨k₀, r₀, k₁, tr, k, hr, hst, run_startAt_of_playRun
    (P := fun k i => (Sane k i.1 ∧ Typed i.1) ∧ Orderly k i.1) (fun _ _ h => h.1.1)
    (fun _ _ _ hs h => orderly_of_check hs h) (hr.step hst) (.start rfl) hk, h⟩

end Runs

end RadOs
