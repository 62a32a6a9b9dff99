import RadOs.Kernel.Scalars

/-! # Tasks that do not take part in a step

A step is made by the running task or by an interrupt handler. To every other
task it can only happen that it is woken, or that it becomes the running task.
-/

namespace RadOs
open Bucketed Runs Budget
variable [Port]

section Steps
variable {k k' k₁ : Kernel} {i : Action} {t : TaskId} {n : ℕ} {r : Option Ret}

/-- The step is made by the task `t`. -/
def ActsIn (t : TaskId) (k : Kernel) : Prop := k.isrNesting = 0 ∧ t = k.taskCurrent

instance (t : TaskId) (k : Kernel) : Decidable (ActsIn t k) := inferInstanceAs (Decidable (_ ∧ _))

/-- An interrupt handler does not move the task it has interrupted within its code. -/
theorem not_does_ctx {c : Call} (haw : k.started = true) (hn : k.isrNesting ≠ 0)
    (h : c.exec n k = .ok (k', r)) (d d' : Ctx) : ¬ Does k (.call c) (.ctx d d') := by
  cases c with
  | start =>
    obtain ⟨-, hx⟩ := Outcome.assert_ok (quiet_ok h).1
    obtain ⟨hst, -⟩ := Outcome.assert_ok hx
    simp [haw] at hst
  | schedulerUnlock sync => exact absurd (Outcome.assert_ok (quiet_ok h).1).1 hn
  | waitqueuePrepare q => exact absurd (Outcome.assert_ok (quiet_ok h).1).1 hn
  | waitqueueBreak => exact absurd (Outcome.assert_ok (quiet_ok h).1).1 hn
  | waitqueueWait T =>
    obtain ⟨c, hx, -⟩ := coded_ok h
    exact absurd (Outcome.assert_ok hx).1 hn
  | _ => simp [Does]

/-- A task `t` has not been woken: it waits where it has waited, if it has. -/
structure Unwoken (k : Kernel) (t : TaskId) (x : Task) : Prop where
  queue : ∀ Q, Q ≠ .ready → (x.taskQueue = some Q ↔ (k.tasks t).taskQueue = some Q)
  timer : ∀ Q, Q ≠ .ready → (k.tasks t).taskQueue = some Q → x.timer = (k.tasks t).timer
  retValue : x.retValue = (k.tasks t).retValue

/-- The step `i` has woken the task `t` in the queue `Q` with the code `c`. -/
structure Woken (k : Kernel) (i : Action) (t : TaskId) (Q : QueueId) (c : RetCode) (x : Task) :
    Prop where
  waited : (k.tasks t).taskQueue = some Q
  ne_ready : Q ≠ .ready
  does : Does k i (.wake t Q c)
  retValue : x.retValue = c.toInt
  gone : ∀ Q', Q' ≠ .ready → x.taskQueue ≠ some Q'

/-- What the step `i` makes of a task `t` that does not take part in it. -/
structure Beside (k : Kernel) (i : Action) (t : TaskId) (x : Task) : Prop where
  ctx : x.ctx = (k.tasks t).ctx
  live : x.state.live = true
  woken : Unwoken k t x ∨ ∃ Q c, Woken k i t Q c x

omit [Port] in
theorem Beside.refl (hl : k.Live t) : Beside k i t (k.tasks t) :=
  ⟨rfl, hl, Or.inl ⟨fun _ _ => Iff.rfl, fun _ _ _ => rfl, rfl⟩⟩

omit [Port] in
theorem Beside.congr {x y : Task} (h : Beside k i t x) (hc : y.ctx = x.ctx)
    (hs : y.state = x.state) (hq : y.taskQueue = x.taskQueue) (ht : y.timer = x.timer)
    (hr : y.retValue = x.retValue) : Beside k i t y := by
  refine ⟨hc.trans h.ctx, hs ▸ h.live, h.woken.imp ?_ ?_⟩
  · rintro ⟨h₁, h₂, h₃⟩
    exact ⟨hq ▸ h₁, ht ▸ h₂, hr.trans h₃⟩
  · rintro ⟨Q, c, h₁, h₂, h₃, h₄, h₅⟩
    exact ⟨Q, c, h₁, h₂, h₃, hr.trans h₄, hq ▸ h₅⟩

omit [Port] in
/-- One more move of the step. -/
theorem Beside.move {a : Kind} {x y : Task} (h : Beside k i t x) (ha : Does k i a)
    (hx : k₁.tasks t = x) (hp : Placed k₁) (hm : TaskMove k₁ t a y)
    (hc : t = k₁.taskCurrent → (∀ c c', a ≠ .ctx c c') ∧ a ≠ .exit ∧ (∀ Q, a ≠ .block Q) ∧
      (a = .switch → k₁.isrNesting ≠ 0)) : Beside k i t y := by
  subst hx
  have hcur := hp.current
  cases hm with
  | same => exact h
  | @wake Q c tm hQ hr =>
    refine ⟨h.ctx, rfl, Or.inr ⟨Q, c, ?_, hr, ha, rfl, by simp +contextual [eq_comm]⟩⟩
    obtain hu | ⟨Q', c', hw⟩ := h.woken
    · exact (hu.queue Q hr).mp hQ
    · exact absurd hQ (hw.gone Q hr)
  | @leave c hu hcx =>
    obtain ⟨hi, -⟩ | rfl := hcx
    · exact absurd hi ((hc hu).2.2.2 rfl)
    · subst hu
      refine ⟨h.ctx, rfl, h.woken.imp ?_ ?_⟩
      · rintro ⟨hq, ht, hr⟩
        refine ⟨fun Q hQ => ?_, ht, hr⟩
        rw [← hq Q hQ, hcur]
        simp [hQ.symm]
      · rintro ⟨Q, c, h₁, h₂, h₃, h₄, -⟩
        exact ⟨Q, c, h₁, h₂, h₃, h₄, by simp +contextual [eq_comm]⟩
  | @run a st hQ hb hs =>
    refine ⟨h.ctx, ?_, h.woken.imp ?_ ?_⟩
    · obtain rfl | rfl := hs
      · exact h.live
      · rfl
    · rintro ⟨hq, ht, hr⟩
      refine ⟨fun Q hQ' => ?_, ht, hr⟩
      rw [← hq Q hQ', hQ]
      simp [hQ'.symm]
    · rintro ⟨Q, c, h₁, h₂, h₃, h₄, -⟩
      exact ⟨Q, c, h₁, h₂, h₃, h₄, by simp⟩
  | block hu => exact absurd rfl ((hc hu).2.2.1 _)
  | exit hu => exact absurd rfl (hc hu).2.1
  | create hl => exact absurd h.live hl
  | reprio => exact h.congr rfl rfl rfl rfl rfl
  | ctx hu => exact absurd rfl ((hc hu).1 _ _)
  | join hs =>
    obtain rfl | ⟨hd, -⟩ := hs
    · exact h.congr rfl rfl rfl rfl rfl
    · have := h.live
      rw [hd] at this
      cases this
  | timers hu =>
    subst hu
    refine ⟨h.ctx, h.live, h.woken.imp ?_ ?_⟩
    · rintro ⟨h₁, h₂, h₃⟩
      refine ⟨h₁, fun Q hQ hq => ?_, h₃⟩
      rw [← h₁ Q hQ, hcur] at hq
      cases hq
    · rintro ⟨Q, c, h₁, h₂, h₃, h₄, h₅⟩
      exact ⟨Q, c, h₁, h₂, h₃, h₄, h₅⟩
  | owner => exact h.congr rfl rfl rfl rfl rfl

/-- The frame rule of the kernel. -/
theorem beside (hs : Sound k) (haw : 0 < k.isrNesting → k.started = true) (he : Enabled k i)
    (hsane : Sane k i) (h : exec n i k = .ok (k', r)) (hl : k.Live t) (ht : ¬ ActsIn t k) :
    Beside k i t (k'.tasks t) := by
  -- an interrupt handler neither blocks nor exits
  have hctx : t = k.taskCurrent → ∀ a, Does k i a →
      (∀ c c', a ≠ .ctx c c') ∧ a ≠ .exit ∧ (a.still = false → nestingAfter k i ≠ 0) := by
    intro hc a ha
    have hn : k.isrNesting ≠ 0 := fun hn => ht ⟨hn, hc⟩
    cases i with
    | call c =>
      rw [Enabled, if_neg hn] at he
      refine ⟨?_, ?_, fun _ => hn⟩
      · rintro d d' rfl
        exact not_does_ctx (haw (Nat.pos_of_ne_zero hn)) hn h d d' ha
      · rintro rfl
        cases c <;> simp_all [Does, Call.exits]
    | resume => exact absurd he.1 hn
    | isrEnter => cases ha; simp [Kind.still]
    | isrExit => cases ha; simp [Kind.still]
  have hnest := (scalarStep hs.placed hs.owned hsane h).isrNesting
  obtain ⟨k₁, hpath, hlast⟩ := exec_parts hs.placed hs.owned hsane h
  have hk₁ : Placed k₁ ∧ k₁.taskCurrent = k.taskCurrent ∧ Beside k i t (k₁.tasks t) := by
    refine hpath.invariant (I := fun k₁ => Placed k₁ ∧ k₁.taskCurrent = k.taskCurrent ∧
      Beside k i t (k₁.tasks t)) ?_ ⟨hs.placed, rfl, .refl hl⟩
    rintro a k₂ k₃ ⟨ha, hst⟩ ⟨hp₂, hc₂, hb₂⟩ hm
    refine ⟨hm.placed hp₂, (hm.taskCurrent_still hst).trans hc₂,
      hb₂.move ha rfl hp₂ (hm.task t) fun hc => ?_⟩
    obtain ⟨h₁, h₂, -⟩ := hctx (hc.trans hc₂) a ha
    refine ⟨h₁, h₂, ?_, ?_⟩
    · rintro Q rfl
      cases hst
    · rintro rfl
      cases hst
  obtain ⟨hp₁, hc₁, hb₁⟩ := hk₁
  obtain rfl | ⟨a, ha, hst, hm⟩ := hlast
  · exact hb₁
  · refine hb₁.move ha rfl hp₁ (hm.task t) fun hc => ?_
    obtain ⟨h₁, h₂, h₃⟩ := hctx (hc.trans hc₁) a ha
    have hi : k₁.isrNesting ≠ 0 := by
      rw [← (hm.scalars_eq (by rintro rfl; cases hst)).1, hnest]
      exact h₃ hst
    refine ⟨h₁, h₂, ?_, fun _ => hi⟩
    rintro Q rfl
    cases hm with
    | block hi' => exact hi hi'

end Steps

end RadOs
