import RadOs.Kernel.Receivers

/-! # Wait queues lose no wakeup

A wakeup of all tasks reaches every receiver that is behind its
`os_waitqueue_prepare`, suspended or not. So a receiver that tests a condition
in between does not sleep through the notification that the condition is set.
-/

namespace RadOs
open Bucketed Runs Budget

/-- The task `t` returns from its wait on `q` when it is its turn: from the call of
`os_waitqueue_wait`, if it has not called it yet. -/
def ReturnsNext [Port] (t : TaskId) (q : WaitqueueId) (k : Kernel) : Prop :=
  (t = k.taskCurrent ∧ k.current.ctx = .prepared q ∧ ∀ T, osTimeoutTry < T → k.isrNesting = 0 →
    ∃ c k', k.Step (.call (.waitqueueWait T), some (.code c)) k') ∨
  ((t = k.taskCurrent ∨ (k.tasks t).taskQueue = some .ready) ∧
    (k.tasks t).ctx = .waitqueueWait q ∧ (ActsIn t k → ∃ c k', k.Step (.resume, some (.code c)) k'))

section Stages
variable {t : TaskId} {q : WaitqueueId} {tr : List KernelStep} {st : Stage}

theorem Stages.woken_of_wakesAll (h : Stages t q tr st) (hw : ∃ x ∈ tr, WakesAll q x) :
    st.woken = true := by
  induction h with
  | start => simp at hw
  | step h ha ih =>
    obtain ⟨y, hy, hw⟩ := hw
    cases ha with
    | stay hall hn =>
      obtain rfl | hy := List.mem_cons.mp hy
      · exact hall hw
      · exact ih ⟨y, hy, hw⟩
    | suspended ha hl =>
      obtain rfl | hy := List.mem_cons.mp hy
      · obtain ⟨sync, hw⟩ := hw
        rw [hl] at hw
        cases hw
      · cases ih ⟨y, hy, hw⟩
    | _ => rfl

end Stages

section Returns
variable [Port] {k : Kernel} {t : TaskId} {q : WaitqueueId}

/-- A task that an interrupt has woken before it could suspend. -/
theorem AtStage.wait_returns (h : AtStage t q k .caught) (htd : Tidy k) (hi : k.isrNesting = 0)
    {T : ℕ} (hT : osTimeoutTry < T) :
    ∃ c k', k.Step (.call (.waitqueueWait T), some (.code c)) k' := by
  obtain ⟨-, hc, hm, hw⟩ := h
  have hidle : k.taskCurrent ≠ taskIdle := by
    intro he
    have := htd.idle
    rw [← he, ← Kernel.current, hc] at this
    cases this
  refine ⟨k.current.blockCode, { k with schedLock := k.schedLock - 1 }.setCtx .user, ?_,
    (steady_exec (.call (.waitqueueWait T)) k).settles (n := 0) ?_⟩
  · rw [Enabled, if_pos hi, hc]
    rfl
  · change coded (osWaitqueueWait 0 T k) = _
    unfold osWaitqueueWait
    rw [osAssert_pos hi, osAssert_pos hidle, osAssert_pos hT, osAssert_pos hm]
    simp only [Outcome.ok_bind]
    split
    · rfl
    · rename_i q' hq'
      rw [hw] at hq'
      cases hq'

/-- A task that has been taken out of the queue. -/
theorem AtStage.resume_returns {e : RetCode} (h : AtStage t q k (.roused e)) (ht : Timely k)
    (ha : ActsIn t k) : ∃ c k', k.Step (.resume, some (.code c)) k' := by
  have h : Roused t (.waitqueueWait q) e k := h
  obtain ⟨hi, rfl⟩ := ha
  have hc : k.current.ctx = .waitqueueWait q := h.ctx
  obtain ⟨xs, hg⟩ := ht.guarded
  have hret : ∃ x, blockedReturn k = .ok x := by
    unfold blockedReturn osBlocktimerDestroy
    cases htm : (k.running.tasks k.taskCurrent).timer with
    | none => exact ⟨_, rfl⟩
    | some x =>
      have hx : (k.tasks k.taskCurrent).timer = some x := by
        simpa [Kernel.running, Kernel.setTask, Kernel.current] using htm
      have hd : osTimerDestroy x k.running.timers = .ok (destroyed x k.timers) :=
        osTimerDestroy_eq (hg.own _ _ hx).2.1
      simp only [hd, Outcome.ok_bind]
      exact ⟨_, rfl⟩
  obtain ⟨⟨k₁, c⟩, hret⟩ := hret
  refine ⟨c, k₁.setCtx .user, ⟨hi, by rw [hc]; rfl⟩, (steady_exec .resume k).settles (n := 0) ?_⟩
  simp only [exec, resume, hc, hret, Outcome.ok_bind]
  rfl

end Returns

/-! ## Receivers that test a condition -/

/-- The kernel together with a condition that the receivers on a wait queue wait for. -/
structure Scene where
  kernel : Kernel
  condition : Bool
  /-- the condition is set, and a wakeup has been completed since -/
  notified : Bool
  /-- what a receiver has read of the condition since it returned from `os_waitqueue_prepare` -/
  tested : TaskId → Option Bool

inductive Event where
  | kernel (i : Action × Option Ret)
  /-- a notifier sets the condition, or someone clears it -/
  | assign (b : Bool)
  /-- the prepared receiver reads the condition -/
  | test

/-- A receiver waits if it has found the condition clear, and breaks if it has found it set.
Notifiers wake all tasks. -/
def Follows (q : WaitqueueId) (s : Scene) : Action → Prop
  | .call .waitqueueBreak =>
      s.kernel.current.ctx = .prepared q → s.tested s.kernel.taskCurrent = some true
  | .call (.waitqueueWait _) =>
      s.kernel.current.ctx = .prepared q → s.tested s.kernel.taskCurrent = some false
  | .call (.waitqueueWakeup q' cnt _) => q' = q → cnt = osWaitqueueAll
  | _ => True

def Action.wakes (q : WaitqueueId) : Action → Bool
  | .call (.waitqueueWakeup q' _ _) => q' = q
  | _ => false

/-- The scene after the kernel has gone to `k`. -/
def Scene.advance (q : WaitqueueId) (s : Scene) (i : Action) (k : Kernel) : Scene where
  kernel := k
  condition := s.condition
  notified := s.notified || (i.wakes q && s.condition)
  tested :=
    if i = .resume ∧ s.kernel.current.ctx = .prepare q then
      Function.update s.tested s.kernel.taskCurrent none
    else s.tested

def Scene.Step [Port] (q : WaitqueueId) (s : Scene) : Event → Scene → Prop
  | .kernel i, s' => Follows q s i.1 ∧
      ∃ k, orderlySystem.step s.kernel i k ∧ s' = s.advance q i.1 k
  | .assign b, s' => s' = { s with condition := b, notified := s.notified && b }
  | .test, s' => s.kernel.isrNesting = 0 ∧ s.kernel.current.ctx = .prepared q ∧
      s' = { s with tested := Function.update s.tested s.kernel.taskCurrent (some s.condition) }

def receiverSystem [Port] (q : WaitqueueId) : System Scene Event where
  start s := s = ⟨osInit coldKernel, false, false, fun _ => none⟩
  step := Scene.Step q

/-- Once the notification is complete, no receiver sleeps or is going to. -/
structure Alert (q : WaitqueueId) (s : Scene) : Prop where
  condition : s.notified = true → s.condition = true
  waiting : s.notified = true → ∀ t, (s.kernel.tasks t).taskQueue ≠ some (.waitqueue q)
  prepared : s.notified = true → s.kernel.waitqueueCurrent = some q →
    s.tested s.kernel.taskCurrent ≠ some false

section Scenes
variable [Port] {q : WaitqueueId} {s s' : Scene} {k k' : Kernel} {i : Action} {r : Option Ret}

omit [Port] in
theorem Action.wakes_iff :
    i.wakes q = true ↔ ∃ cnt sync, i = .call (.waitqueueWakeup q cnt sync) := by
  cases i with
  | call c => cases c <;> simp [Action.wakes]
  | _ => simp [Action.wakes]

omit [Port] in
theorem does_block_waitqueue (h : Does k i (.block (.waitqueue q))) :
    (∃ T, i = .call (.waitqueueWait T)) ∧ k.waitqueueCurrent = some q := by
  revert h
  cases i with
  | call c => cases c <;> simp +contextual [Does]
  | resume => simp [Does, Placed.JoinEnd]
  | isrEnter => simp [Does]
  | isrExit => simp [Does]

/-- A wakeup ends the prepared state of the interrupted task. -/
theorem wakes_waitqueueCurrent (ht : Timely k) (hst : timedSystem.step k (i, r) k')
    (hw : i.wakes q = true) : k'.waitqueueCurrent ≠ some q := by
  obtain ⟨cnt, sync, rfl⟩ := Action.wakes_iff.mp hw
  obtain ⟨⟨hsane, -⟩, -, hset⟩ := hst
  obtain ⟨n, hn⟩ := hset.exists_eq
  obtain ⟨hor, -⟩ := ht.sound.placed.waitqueueWakeup (quiet_ok hn).1
  rw [(scalarStep ht.sound.placed ht.sound.owned hsane hn).waitqueueCurrent]
  simp only [waitqueueAfter, Placed.caught]
  split
  · simp
  · rename_i hne
    intro hq
    obtain hpos | hnone := hor
    · exact hne ⟨hpos, hq⟩
    · rw [hq] at hnone
      cases hnone

/-- A task that is prepared was so before, or returns from `os_waitqueue_prepare`. -/
theorem waitqueueCurrent_of_step (ht : Timely k) (htd : Tidy k)
    (hst : orderlySystem.step k (i, r) k') (hq : k'.waitqueueCurrent = some q) :
    k'.taskCurrent = k.taskCurrent ∧
      (k.waitqueueCurrent = some q ∨ (i = .resume ∧ k.current.ctx = .prepare q)) := by
  obtain ⟨⟨⟨hsane, -⟩, hord⟩, he, hset⟩ := hst
  obtain ⟨n, hn⟩ := hset.exists_eq
  have hctx := (htd.step ht hord he hsane hn).waitqueue q hq
  refine ⟨?_, ?_⟩
  · by_contra hne
    have hoth := htd.others _ hne
    obtain hx | hx := ctx_elsewhere ht.sound hsane hn hne
    · rw [← hx, ← Kernel.current, hctx] at hoth
      cases hoth
    · rw [← Kernel.current, hctx] at hx
      cases hx
  · rw [(scalarStep ht.sound.placed ht.sound.owned hsane hn).waitqueueCurrent] at hq
    cases i with
    | isrEnter => exact Or.inl hq
    | isrExit => exact Or.inl hq
    | resume =>
      simp only [waitqueueAfter] at hq
      split at hq
      · rename_i q' hc
        cases hq
        exact Or.inr ⟨rfl, hc⟩
      · exact Or.inl hq
    | call c =>
      cases c with
      | waitqueueBreak => cases hq
      | waitqueueWait T => cases hq
      | waitqueueWakeup q' cnt sync =>
        simp only [waitqueueAfter, Placed.caught] at hq
        split at hq
        · cases hq
        · exact Or.inl hq
      | _ => exact Or.inl hq

/-- A step of the kernel. -/
theorem Alert.kernel (h : Alert q s) (ht : Timely s.kernel) (htd : Tidy s.kernel)
    (hf : Follows q s i) (hst : orderlySystem.step s.kernel (i, r) k') :
    Alert q (s.advance q i k') := by
  have hcond : (s.advance q i k').notified = true → s.condition = true := by
    intro hn
    obtain hn | hn := (Bool.or_eq_true _ _).mp hn
    · exact h.condition hn
    · exact ((Bool.and_eq_true _ _).mp hn).2
  by_cases hw : i.wakes q = true
  · refine ⟨hcond, fun _ t => ?_, fun _ hq => ?_⟩
    · obtain ⟨cnt, sync, rfl⟩ := Action.wakes_iff.mp hw
      have hall : cnt = osWaitqueueAll := hf rfl
      subst hall
      have : WakesAll q ⟨s.kernel, (_, r), k'⟩ := ⟨sync, rfl⟩
      exact this.not_waiting ht.sound.placed hst.2
    · exact absurd hq (wakes_waitqueueCurrent ht (orderlySystem_timed hst) hw)
  · have hsame : (s.advance q i k').notified = s.notified := by simp [Scene.advance, hw]
    rw [Bool.not_eq_true] at hw
    refine ⟨hcond, fun hn t hq => ?_, fun hn hq => ?_⟩
    · rw [hsame] at hn
      obtain ⟨n, hx⟩ := hst.2.2.exists_eq
      obtain hq | ⟨rfl, hb⟩ := waiting_of_step ht.sound hst.1.1.1 hx (by simp) hq
      · exact h.waiting hn t hq
      · obtain ⟨⟨T, rfl⟩, hwq⟩ := does_block_waitqueue hb
        exact h.prepared hn hwq (hf (htd.waitqueue q hwq))
    · rw [hsame] at hn
      obtain ⟨hcur, hwq | hres⟩ := waitqueueCurrent_of_step ht htd hst hq
      · have hno : ¬ (i = .resume ∧ s.kernel.current.ctx = .prepare q) := by
          rintro ⟨-, hc⟩
          rw [htd.waitqueue q hwq] at hc
          cases hc
        have htest : (s.advance q i k').tested = s.tested := if_neg hno
        rw [htest]
        change s.tested k'.taskCurrent ≠ some false
        rw [hcur]
        exact h.prepared hn hwq
      · have htest : (s.advance q i k').tested =
          Function.update s.tested s.kernel.taskCurrent none := if_pos hres
        rw [htest]
        change Function.update s.tested s.kernel.taskCurrent none k'.taskCurrent ≠ some false
        rw [hcur, Function.update_self]
        simp

theorem alert_of_reachable (h : (receiverSystem q).Reachable s) :
    orderlySystem.Reachable s.kernel ∧ Alert q s := by
  refine h.invariant (I := fun s => orderlySystem.Reachable s.kernel ∧ Alert q s) ?_ ?_
  · rintro s rfl
    exact ⟨.start rfl, nofun, nofun, nofun⟩
  · rintro s i s' ⟨hr, hs⟩ hst
    cases i with
    | kernel i =>
      obtain ⟨hf, k', hst, rfl⟩ := hst
      obtain ⟨i, r⟩ := i
      obtain ⟨htr, htd⟩ := tidy_of_reachable hr
      exact ⟨hr.step hst, hs.kernel (timely_of_reachable htr) htd hf hst⟩
    | assign b =>
      obtain rfl := hst
      refine ⟨hr, fun hn => ?_, fun hn => ?_, fun hn => ?_⟩
      · exact ((Bool.and_eq_true _ _).mp hn).2
      · exact hs.waiting ((Bool.and_eq_true _ _).mp hn).1
      · exact hs.prepared ((Bool.and_eq_true _ _).mp hn).1
    | test =>
      obtain ⟨-, -, rfl⟩ := hst
      refine ⟨hr, hs.condition, hs.waiting, fun hn _ => ?_⟩
      change Function.update s.tested s.kernel.taskCurrent (some s.condition)
        s.kernel.taskCurrent ≠ some false
      rw [Function.update_self, hs.condition hn]
      simp

/-- A wakeup of all tasks on `q`, made while a receiver is between its return from
`os_waitqueue_prepare` and the end of the matching wait, ends the wait. Hence no receiver sleeps
while the condition is set and the notification complete. -/
theorem waitqueue_loses_no_wakeup (q : WaitqueueId) :
    (∀ k₀ r₀ k₁ tr k, orderlySystem.Reachable k₀ → orderlySystem.step k₀ (.resume, r₀) k₁ →
      k₀.current.ctx = .prepare q → (orderlySystem.startAt k₁).Run tr k →
      (∀ x ∈ tr, ¬ Departs k₀.taskCurrent x) → (∃ x ∈ tr, WakesAll q x) →
      (k.tasks k₀.taskCurrent).taskQueue ≠ some (.waitqueue q) ∧
        ReturnsNext k₀.taskCurrent q k) ∧
    ∀ s, (receiverSystem q).Reachable s → s.notified = true →
      ∀ t, (s.kernel.tasks t).taskQueue ≠ some (.waitqueue q) := by
  refine ⟨fun k₀ r₀ k₁ tr k h₀ hp hc h hin hw => ?_, fun s h => (alert_of_reachable h).2.waiting⟩
  obtain ⟨htr, htd⟩ := tidy_of_reachable ((h₀.step hp).run h)
  have ht := timely_of_reachable htr
  have hpl := ht.sound.placed
  obtain ⟨st, hsts, hat⟩ := stages_of_run h₀ hp hc h hin
  have hwoken := hsts.woken_of_wakesAll hw
  cases st with
  | prepared => cases hwoken
  | suspended d => cases hwoken
  | caught =>
    refine ⟨?_, Or.inl ⟨hat.1, hat.2.1, fun T hT hi => hat.wait_returns htd hi hT⟩⟩
    rw [hat.1, hpl.current]
    simp
  | roused e =>
    have hro : Roused k₀.taskCurrent (.waitqueueWait q) e k := hat
    refine ⟨hro.queue _ (by simp), Or.inr ⟨?_, hro.ctx, hat.resume_returns ht⟩⟩
    by_cases hcur : k₀.taskCurrent = k.taskCurrent
    · exact Or.inl hcur
    · obtain ⟨Q, hQ⟩ := Option.ne_none_iff_exists'.mp (hpl.elsewhere _ hro.live hcur)
      by_cases hr : Q = .ready
      · exact Or.inr (hr ▸ hQ)
      · exact absurd hQ (hro.queue Q hr)

instance Follows.decidable (q : WaitqueueId) (s : Scene) :
    (i : Action) → Decidable (Follows q s i)
  | .call c => by cases c <;> (unfold Follows; infer_instance)
  | .resume => inferInstanceAs (Decidable True)
  | .isrEnter => inferInstanceAs (Decidable True)
  | .isrExit => inferInstanceAs (Decidable True)

/-- Play a list of events. The results in the events are not looked at. -/
def playScene (q : WaitqueueId) (n : ℕ) : List Event → Scene → Outcome Scene
  | [], s => .ok s
  | .kernel i :: es, s =>
    if Follows q s i.1 ∧ Enabled s.kernel i.1 ∧ orderlyCheck s.kernel i.1 = true then do
      let (k, _) ← exec n i.1 s.kernel
      playScene q n es (s.advance q i.1 k)
    else .error .halt
  | .assign b :: es, s =>
    playScene q n es { s with condition := b, notified := s.notified && b }
  | .test :: es, s =>
    if s.kernel.isrNesting = 0 ∧ s.kernel.current.ctx = .prepared q then
      playScene q n es
        { s with tested := Function.update s.tested s.kernel.taskCurrent (some s.condition) }
    else .error .halt

theorem reachable_of_playScene {n : ℕ} {es : List Event} (h : (receiverSystem q).Reachable s)
    (hp : playScene q n es s = .ok s') : (receiverSystem q).Reachable s' := by
  induction es generalizing s with
  | nil =>
    cases hp
    exact h
  | cons e es ih =>
    cases e with
    | kernel i =>
      unfold playScene at hp
      split at hp
      · rename_i he
        obtain ⟨⟨k, r⟩, hx, hp⟩ := bind_eq_ok.mp hp
        have hs := (timely_of_reachable (tidy_of_reachable (alert_of_reachable h).1).1).sound
        have hst : orderlySystem.step s.kernel (i.1, r) k :=
          ⟨orderly_of_check hs he.2.2, he.2.1, (steady_exec i.1 s.kernel).settles hx⟩
        exact ih (h.step (i := .kernel (i.1, r)) ⟨he.1, k, hst, rfl⟩) hp
      · cases hp
    | assign b => exact ih (h.step (i := .assign b) rfl) hp
    | test =>
      unfold playScene at hp
      split at hp
      · rename_i he
        exact ih (h.step (i := .test) ⟨he.1, he.2, rfl⟩) hp
      · cases hp

end Scenes

def Event.actions (is : List Action) : List Event := is.map fun i => .kernel (i, none)

/-- The task 1 has tested the condition and sleeps, and the task 2 has tested it and is about to
sleep, when an interrupt handler sets the condition and wakes all tasks. -/
def missedRun : List Event :=
  Event.actions [.call (.waitqueueCreate 0), .call (.taskCreate 1 2), .call (.taskCreate 2 1),
    .call .start, .resume, .call (.waitqueuePrepare 0), .resume] ++ [.test] ++
  Event.actions [.call (.waitqueueWait osTimeoutInfinite), .call (.waitqueuePrepare 0), .resume] ++
  [.test] ++ Event.actions [.isrEnter] ++ [.assign true] ++
  Event.actions [.call (.waitqueueWakeup 0 osWaitqueueAll false), .isrExit,
    .call (.waitqueueWait osTimeoutInfinite)]

/-- An interrupt handler wakes the task 1 before it could suspend, and two receivers at once. -/
theorem waitqueue_loses_no_wakeup_caught :
    (∃ (k₀ : Kernel) (tr : List KernelStep) (k : Kernel),
      k₀.taskCurrent = 1 ∧ (∃ x ∈ tr, WakesAll 0 x) ∧ ActsIn 1 k ∧ k.current.ctx = .prepared 0 ∧
      ∃ c k', k.Step (.call (.waitqueueWait 5), some (.code c)) k') ∧
    ∃ s, (receiverSystem 0).Reachable s ∧ s.notified = true ∧ s.tested 1 = some false ∧
      s.tested 2 = some false ∧ s.kernel.Live 1 ∧ s.kernel.Live 2 ∧
      ∀ t, (s.kernel.tasks t).taskQueue ≠ some (.waitqueue 0) := by
  constructor
  · obtain ⟨k₀, r₀, k₁, tr, k', hr, hst, hrun, h⟩ := wait_of_play (n := 10)
      [.call (.taskCreate 1 1), .call (.waitqueueCreate 0), .call .start, .resume,
        .call (.waitqueuePrepare 0)]
      [.isrEnter, .call (.waitqueueWakeup 0 osWaitqueueAll false), .isrExit]
      (p := fun k₀ => onLast fun x tr => decide (k₀.taskCurrent = 1 ∧
        k₀.current.ctx = .prepare 0 ∧ ActsIn 1 x.post ∧ x.post.current.ctx = .prepared 0 ∧
        (∀ y ∈ x :: tr, y.label.2 = none ∧ y.label.1 ≠ .call .waitqueueBreak) ∧
        ∃ y ∈ x :: tr, y.label.1 = .call (.waitqueueWakeup 0 osWaitqueueAll false)))
      (by decide +kernel)
    cases hrun with
    | start => cases h
    | @step tr k k' i hrun hlast =>
      obtain ⟨hcur, hc, ha, hc', hin, y, hy, hwk⟩ := of_decide_eq_true h
      have hw : ∃ x ∈ ⟨k, i, k'⟩ :: tr, WakesAll 0 x := ⟨y, hy, false, hwk⟩
      obtain ⟨-, hret⟩ := (waitqueue_loses_no_wakeup 0).1 k₀ r₀ k₁ _ k' hr hst hc
        (hrun.step hlast) (fun y hy => not_departs_of_label (hin y hy)) hw
      refine ⟨k₀, _, k', hcur, hw, ha, hc', ?_⟩
      obtain ⟨-, -, hret⟩ | ⟨-, hret, -⟩ := hret
      · exact hret 5 (by decide) ha.1
      · have hc' : (k'.tasks k'.taskCurrent).ctx = .prepared 0 := hc'
        rw [hcur, ha.2, hc'] at hret
        cases hret
  · obtain ⟨s, hs, hx⟩ := Outcome.exists_of_holds
      (x := playScene 0 10 missedRun ⟨osInit coldKernel, false, false, fun _ => none⟩)
      (p := fun s => decide (s.notified = true ∧ s.tested 1 = some false ∧
        s.tested 2 = some false ∧ s.kernel.Live 1 ∧ s.kernel.Live 2)) (by decide +kernel)
    obtain ⟨hn, h₁, h₂, hl₁, hl₂⟩ := of_decide_eq_true hx
    have hr : (receiverSystem 0).Reachable s := reachable_of_playScene (.start rfl) hs
    exact ⟨s, hr, hn, h₁, h₂, hl₁, hl₂, (waitqueue_loses_no_wakeup 0).2 s hr hn⟩

end RadOs
