import RadOs.Kernel.Joins

/-! # What the task states mean

The header says what the states mean, and for all tasks but the running one they
do. `TASKSTATE_RUNNING` is written by `os_schedule` in an interrupt handler, and
behind `arch_context_switch` by the task that is switched to. A task that an
interrupt has taken the processor from, or that has never run, does not continue
behind `arch_context_switch`. If a task switches to it, it runs as
`TASKSTATE_READY`.
-/

namespace RadOs
open Bucketed Runs Budget

section Meaning
variable {k k' : Kernel}

/-- The task `t` is linked into a list of the queue `Q`. -/
def Kernel.InQueue (k : Kernel) (Q : QueueId) (t : TaskId) : Prop :=
  ∃ p, t ∈ (k.queues Q).tasks.bucket p

/-- The comments of `os_taskstate_t`. -/
structure StatesMean (k : Kernel) : Prop where
  running : ∀ t, (k.tasks t).state = .running ↔ t = k.taskCurrent
  ready : ∀ t, (k.tasks t).state = .ready ↔ k.InQueue .ready t
  wait : ∀ t, (k.tasks t).state = .wait ↔ ∃ Q, Q ≠ .ready ∧ k.InQueue Q t

/-- The task `t` is new, or an interrupt has taken the processor from it. -/
def Kernel.Interrupted (k : Kernel) (t : TaskId) : Prop :=
  ¬ k.Live t ∨ (k.tasks t).ctx.interruptible = true

instance (k : Kernel) (t : TaskId) : Decidable (k.Interrupted t) :=
  inferInstanceAs (Decidable (_ ∨ _))

theorem Filed.inQueue_iff (h : Filed k) {Q : QueueId} {t : TaskId} :
    k.InQueue Q t ↔ (k.tasks t).taskQueue = some Q := by
  simp only [Kernel.InQueue, (h Q).mem, Kernel.key]
  split
  · rename_i hQ
    simp [hQ]
  · rename_i hQ
    simp [hQ]

/-- All but the state of the running task is right. -/
theorem Placed.statesMean_iff (hp : Placed k) :
    StatesMean k ↔ k.current.state = .running := by
  refine ⟨fun h => (h.running _).mpr rfl, fun hr => ?_⟩
  have hcur : (k.tasks k.taskCurrent).state = .running := hr
  have hnone := hp.current
  refine ⟨fun t => ⟨fun ht => ?_, ?_⟩, fun t => ?_, fun t => ?_⟩
  · by_contra hne
    have hq := hp.elsewhere t (by simp [ht, TaskState.live]) hne
    obtain ⟨Q, hQ⟩ := Option.ne_none_iff_exists'.mp hq
    by_cases hQr : Q = .ready
    · subst hQr
      simp [hp.ready t hQ] at ht
    · simp [(hp.wait t Q hQ hQr).1] at ht
  · rintro rfl
    exact hcur
  · rw [hp.filed.inQueue_iff]
    refine ⟨fun ht => ?_, hp.ready t⟩
    have hne : t ≠ k.taskCurrent := by
      rintro rfl
      simp [hcur] at ht
    have hq := hp.elsewhere t (by simp [ht, TaskState.live]) hne
    obtain ⟨Q, hQ⟩ := Option.ne_none_iff_exists'.mp hq
    by_cases hQr : Q = .ready
    · rwa [hQr] at hQ
    · simp [(hp.wait t Q hQ hQr).1] at ht
  · simp only [hp.filed.inQueue_iff]
    constructor
    · intro ht
      obtain ⟨Q, hQ⟩ := Option.ne_none_iff_exists'.mp (hp.waiting t ht)
      refine ⟨Q, fun hQr => ?_, hQ⟩
      rw [hp.ready t (hQr ▸ hQ)] at ht
      cases ht
    · rintro ⟨Q, hQr, hQ⟩
      exact (hp.wait t Q hQ hQr).1

end Meaning

section Moves
variable {k k' : Kernel} {D : Kind → Prop} {a : Kind}

theorem Placed.next_ne (hp : Placed k) {t : TaskId} (hn : k.Next t) : t ≠ k.taskCurrent :=
  hp.not_current (by simp [hn.1])

/-- What a task finds in its own control block when it is switched to. -/
theorem Move.arrives (h : Move a k k') (hp : Placed k) (ha : a.still = false) :
    k'.current.ctx = (k.tasks k'.taskCurrent).ctx ∧
      (k.isrNesting = 0 → k'.current.state = .ready) ∧
      (k.isrNesting ≠ 0 → a = .switch → k'.current.state = .running) := by
  cases h with
  | switch hi hl hn hle hc hr =>
    obtain ⟨q, rfl, -, -⟩ := hr
    have hne := hp.next_ne hn
    simpa [Kernel.current, Kernel.switched, hne, hi] using hp.ready _ hn.1
  | switchIsr hi hl hn hle hr =>
    obtain ⟨q, rfl, -, -⟩ := hr
    have hne := hp.next_ne hn
    simp [Kernel.current, Kernel.switchedIsr, hne, hi]
  | block hi hd hr hn hc hm hq hre =>
    obtain ⟨q, rfl, -, -⟩ := hre
    have hne := hp.next_ne hn
    simpa [Kernel.current, Kernel.blocked, hne] using fun _ => hp.ready _ hn.1
  | exit hn hd hre =>
    obtain ⟨q, rfl, -, -⟩ := hre
    have hne := hp.next_ne hn
    simpa [Kernel.current, Kernel.exited, hne] using fun _ => hp.ready _ hn.1
  | _ => cases ha

/-- What happens to the running task while it runs and does not change its place. -/
theorem TaskMove.current_kept {u : TaskId} {x : Task} (h : TaskMove k u a x) (hp : Placed k)
    (hu : u = k.taskCurrent) (ha : a.still = true) (hc : ∀ c c', a ≠ .ctx c c') :
    x.state = (k.tasks u).state ∧ x.ctx = (k.tasks u).ctx := by
  subst hu
  have hnone := hp.current
  have hlive := hp.currentLive
  cases h with
  | same hw hc hb => exact ⟨rfl, rfl⟩
  | wake hQ hr => rw [hnone] at hQ; cases hQ
  | run hQ ha hs => rw [hnone] at hQ; cases hQ
  | create hl => exact absurd hlive hl
  | ctx hu hs => exact absurd rfl (hc _ _)
  | join hs =>
    obtain rfl | ⟨hd, -⟩ := hs
    · exact ⟨rfl, rfl⟩
    · rw [hd] at hlive
      cases hlive
  | reprio | timers | owner => exact ⟨rfl, rfl⟩
  | leave | block | exit => cases ha

/-- Moves that leave the running task in peace. -/
theorem Path.current_kept (h : Path D k k') (hp : Placed k)
    (hD : ∀ a, D a → a.still = true ∧ ∀ c c', a ≠ .ctx c c') :
    k'.taskCurrent = k.taskCurrent ∧ k'.current.state = k.current.state ∧
      k'.current.ctx = k.current.ctx := by
  refine (h.invariant (I := fun k' => Placed k' ∧ k'.taskCurrent = k.taskCurrent ∧
    k'.current.state = k.current.state ∧ k'.current.ctx = k.current.ctx) ?_
    ⟨hp, rfl, rfl, rfl⟩).2
  rintro a k₁ k₂ ha ⟨hp₁, hc, hs, hx⟩ hm
  obtain ⟨hst, hctx⟩ := hD a ha
  have hc₂ := hm.taskCurrent_still hst
  have hkeep := (hm.task k₁.taskCurrent).current_kept hp₁ rfl hst hctx
  refine ⟨hm.placed hp₁, hc₂.trans hc, ?_, ?_⟩
  · rw [Kernel.current, hc₂, hkeep.1]
    exact hs
  · rw [Kernel.current, hc₂, hkeep.2]
    exact hx

end Moves

section Steps
variable [Port] {k k' : Kernel} {i : Action} {c : Call} {n : ℕ} {r : Option Ret}

omit [Port] in
theorem Scheduled.eq_of_stays {p : ℕ} (h : Scheduled p k k') (hp : Placed k)
    (hc : k'.taskCurrent = k.taskCurrent) : k' = k := by
  obtain ⟨rfl, -⟩ | hm := h
  · rfl
  · exact absurd hc (hm.taskCurrent_ne hp rfl)

omit [Port] in
theorem Placed.schedulerUnlock_kept {sync : Bool} (h : osSchedulerUnlock sync k = .ok k') :
    k'.current.state = k.current.state ∧ k'.current.ctx.interruptible = true := by
  obtain ⟨-, h⟩ := Outcome.assert_ok h
  obtain ⟨-, h⟩ := Outcome.assert_ok h
  simp only at h
  split at h
  · cases h
    simp [Kernel.current, Kernel.setCtx, Kernel.setTask, Ctx.interruptible]
  · cases h
    simp [Kernel.current, Kernel.setCtx, Kernel.setTask, Ctx.interruptible]

/-- A call does not change the state of its caller, unless it gives the processor away. -/
theorem Call.state_kept (hs : Sound k) (haw : 0 < k.isrNesting → k.started = true)
    (he : Enabled k (.call c)) (hsane : Sane k (.call c))
    (h : c.exec n k = .ok (k', r)) (hc : k'.taskCurrent = k.taskCurrent) :
    k'.current.state = k.current.state ∧
      k'.current.ctx.interruptible = k.current.ctx.interruptible := by
  have hp := hs.placed
  have hout : k.isrNesting = 0 → k.current.ctx.interruptible = true := by
    intro hi
    rw [Enabled, if_pos hi] at he
    revert he
    cases k.current.ctx <;> simp [Ctx.outside, Ctx.interruptible]
  have hset : ∀ {k₁ : Kernel} (d : Ctx), k.isrNesting = 0 → d.interruptible = true →
      k₁.current.state = k.current.state → (k₁.setCtx d).current.state = k.current.state ∧
        (k₁.setCtx d).current.ctx.interruptible = k.current.ctx.interruptible := by
    intro k₁ d hi hd hst
    rw [hout hi]
    simpa [Kernel.current, Kernel.setCtx, Kernel.setTask, hd] using hst
  cases c with
  | start =>
    obtain ⟨-, h⟩ := Outcome.assert_ok (quiet_ok h).1
    obtain ⟨hst, h⟩ := Outcome.assert_ok h
    cases h
    refine hset .start ?_ rfl rfl
    by_contra hi
    simp [haw (Nat.pos_of_ne_zero hi)] at hst
  | schedulerUnlock sync =>
    have hi := (Outcome.assert_ok (quiet_ok h).1).1
    rw [hout hi]
    exact Placed.schedulerUnlock_kept (quiet_ok h).1
  | waitqueuePrepare q =>
    obtain ⟨hi, -, -, -, rfl⟩ := Placed.waitqueuePrepare (quiet_ok h).1
    exact hset (.prepare q) hi rfl rfl
  | waitqueueBreak =>
    obtain ⟨hi, h⟩ := Outcome.assert_ok (quiet_ok h).1
    cases h
    exact hset .brk hi rfl rfl
  | waitqueueWait T =>
    obtain ⟨d, hx, -⟩ := coded_ok h
    obtain ⟨hi, -, -, ⟨-, -, rfl⟩ | ⟨q, k₁, -, -, ht, hb⟩⟩ := hp.waitqueueWait hx
    · exact hset .user hi rfl rfl
    · have hp₁ : Placed { k₁ with waitqueueCurrent := none } :=
        (Move.scalars rfl).placed (ht.move.placed ((Move.scalars rfl).placed hp))
      have hne := hb.taskCurrent_ne hp₁ rfl
      exact absurd (hc.trans ht.frame.1.symm) hne
  | _ =>
    obtain ⟨-, hst, hx⟩ := ((Call.exec_parts hp hs.owned hsane h).stays hp hc).current_kept hp
      fun a ha => ⟨ha.2, by rintro d d' rfl; simp [Does] at ha⟩
    exact ⟨hst, by rw [hx]⟩

omit [Port] in
/-- A task that goes on behind `arch_context_switch` writes its state, unless it gives the processor
away first. -/
theorem resume_state (hp : Placed k) (h : resume n k = .ok (k', r))
    (hc : k'.taskCurrent = k.taskCurrent) :
    (k.current.ctx.interruptible = true ∧ k'.current.state = k.current.state ∧
        k'.current.ctx.interruptible = true) ∨
      (k.current.ctx.interruptible = false ∧ k'.current.state = .running) := by
  have hset : ∀ (k₁ : Kernel) (d : Ctx), (k₁.setCtx d).current.state = k₁.current.state := by
    intro k₁ d
    simp [Kernel.current, Kernel.setCtx, Kernel.setTask]
  have hrun : k.running.current.state = .running := by
    simp [Kernel.current, Kernel.running, Kernel.setTask]
  have hctx : ∀ (k₁ : Kernel) (d : Ctx), d.interruptible = true →
      (k₁.setCtx d).current.ctx.interruptible = true := by
    intro k₁ d hd
    simpa [Kernel.current, Kernel.setCtx, Kernel.setTask] using hd
  have hblk : ∀ {k₁ : Kernel} {c : RetCode}, blockedReturn k = .ok (k₁, c) →
      k₁.current.state = .running := by
    intro k₁ c hb
    obtain ⟨x, -, rfl, -⟩ := blockedReturn_ok hb
    simp [Kernel.current, Kernel.setTask]
  -- the task that has been joined is not the running one
  have hjoin : ∀ {k₁ : Kernel} {t : TaskId} (x : Task), (k₁.tasks t).state = .destroyed →
      k₁.current.state = .running → (k₁.setTask t x).current.state = .running := by
    intro k₁ t x hd hst
    have hne : k₁.taskCurrent ≠ t := by
      rintro rfl
      rw [Kernel.current, hd] at hst
      cases hst
    simpa [Kernel.current, Kernel.setTask, hne] using hst
  unfold resume at h
  split at h
  case h_1 | h_2 | h_3 => all_goals cases h
  case h_4 q hx =>
    cases (quiet_ok h).1
    exact Or.inl ⟨by rw [hx]; rfl, hset _ _, hctx _ _ rfl⟩
  case h_5 hx =>
    exact Or.inl ⟨by rw [hx]; rfl, Placed.schedulerUnlock_kept (quiet_ok h).1⟩
  case h_6 hx | h_7 hx =>
    all_goals
      have hp₁ : Placed (k.setCtx .user) := (setCtx_move k .user).placed hp
      obtain rfl := (hp₁.schedule (quiet_ok h).1 (Or.inl rfl)).eq_of_stays hp₁ hc
      exact Or.inl ⟨by rw [hx]; rfl, hset _ _, hctx _ _ rfl⟩
  case h_8 hx =>
    cases (quiet_ok h).1
    exact Or.inr ⟨by rw [hx]; rfl, (hset _ _).trans hrun⟩
  case h_9 x hx | h_10 x hx =>
    all_goals
      obtain ⟨⟨k₁, c⟩, hb, h⟩ := Outcome.bind_ok h
      cases h
      exact Or.inr ⟨by rw [hx]; rfl, (hset _ _).trans (hblk hb)⟩
  case h_11 m hx =>
    cases h
    exact Or.inr ⟨by rw [hx]; rfl, (hset _ _).trans hrun⟩
  case h_12 t hx =>
    obtain ⟨⟨k₁, c⟩, hb, h⟩ := Outcome.bind_ok h
    obtain ⟨hpath, hcur, -⟩ := blockedReturn_path hb
    obtain ⟨-, ⟨-, hm, -⟩ | ⟨hd, -, rfl⟩⟩ := (hpath.placed hp).joinDestroyed_ok h
    · have hne := hm.taskCurrent_ne (hpath.placed hp).unjoined rfl
      exact absurd (hc.trans hcur.symm) hne
    · have hst := hblk hb
      exact Or.inr ⟨by rw [hx]; rfl, (hset _ _).trans (hjoin _ hd hst)⟩
  case h_13 t hx =>
    obtain ⟨⟨k₁, v⟩, hj, h⟩ := Outcome.bind_ok h
    cases h
    obtain ⟨hd, -, rfl⟩ := joinFinish_ok hj
    exact Or.inr ⟨by rw [hx]; rfl, (hset _ _).trans (hjoin _ hd hrun)⟩

/-- What a step makes of the state of the running task, as long as the task runs. -/
theorem state_kept (hs : Sound k) (haw : 0 < k.isrNesting → k.started = true) (he : Enabled k i)
    (hsane : Sane k i) (h : exec n i k = .ok (k', r)) (hc : k'.taskCurrent = k.taskCurrent) :
    (k'.current.state = k.current.state ∧
        k'.current.ctx.interruptible = k.current.ctx.interruptible) ∨
      (k.current.ctx.interruptible = false ∧ k'.current.state = .running) := by
  cases i with
  | isrEnter => cases h; exact Or.inl ⟨rfl, rfl⟩
  | isrExit => cases h; exact Or.inl ⟨rfl, rfl⟩
  | call c => exact Or.inl (Call.state_kept hs haw he hsane h hc)
  | resume =>
    obtain ⟨hx, hst, hx'⟩ | hrun := resume_state hs.placed h hc
    · exact Or.inl ⟨hst, by rw [hx, hx']⟩
    · exact Or.inr hrun

omit [Port] in
/-- The calls that the running task makes before it is switched
away do not move another task in its code, except for its creation. -/
theorem Path.ctx_aside {D : Kind → Prop} {t : TaskId}
    (h : Path (fun a => D a ∧ a.still = true) k k') (hp : Placed k) (ht : t ≠ k.taskCurrent) :
    (k.Live t ∧ k'.Live t ∧ (k'.tasks t).ctx = (k.tasks t).ctx) ∨
      (¬ k.Live t ∧ (k'.Live t → (k'.tasks t).ctx = .user)) := by
  refine (h.invariant (I := fun k' => Placed k' ∧ k'.taskCurrent = k.taskCurrent ∧
    ((k.Live t ∧ k'.Live t ∧ (k'.tasks t).ctx = (k.tasks t).ctx) ∨
      (¬ k.Live t ∧ (k'.Live t → (k'.tasks t).ctx = .user)))) ?_ ⟨hp, rfl, ?_⟩).2.2
  · rintro a k₁ k₂ ⟨-, hst⟩ ⟨hp₁, hc, hk⟩ hm
    refine ⟨hm.placed hp₁, (hm.taskCurrent_still hst).trans hc, ?_⟩
    have hlive := (hm.task t).live_iff hp₁.toStanding
    have hexit : ¬ (a = .exit ∧ t = k₁.taskCurrent) := by
      rintro ⟨rfl, -⟩
      cases hst
    obtain hx | ⟨rfl, hn, hx⟩ | ⟨hcur, -⟩ := (hm.task t).ctx_cases
    · obtain ⟨hl, hl₁, hctx⟩ | ⟨hl, hctx⟩ := hk
      · exact Or.inl ⟨hl, hlive.mpr (Or.inl ⟨hl₁, hexit⟩), hx.trans hctx⟩
      · refine Or.inr ⟨hl, fun hl₂ => ?_⟩
        obtain ⟨hl₁, -⟩ | rfl := hlive.mp hl₂
        · exact hx.trans (hctx hl₁)
        · have htask := hm.task t
          generalize k₂.tasks t = x at htask
          cases htask with
          | same hw hc hb => exact absurd rfl hc
          | create hl => rfl
          | run hQ ha hs => simp at ha
    · refine Or.inr ⟨?_, fun _ => hx⟩
      obtain ⟨-, hl₁, -⟩ | ⟨hl, -⟩ := hk
      · exact absurd hl₁ hn
      · exact hl
    · exact absurd (hcur.trans hc) ht
  · by_cases hl : k.Live t
    · exact Or.inl ⟨hl, hl, rfl⟩
    · exact Or.inr ⟨hl, fun h => absurd h hl⟩

/-- What a task finds in its own control block after the step in which it has been switched to. -/
theorem state_arrives (hs : Sound k) (hsane : Sane k i) (he : Enabled k i)
    (h : exec n i k = .ok (k', r)) (hc : k'.taskCurrent ≠ k.taskCurrent) :
    (k.isrNesting = 0 → k'.current.state = .ready) ∧
      (k.isrNesting ≠ 0 → k'.current.state = .running) ∧
      (k'.current.ctx.interruptible = true ↔ k.Interrupted k'.taskCurrent) := by
  obtain ⟨k₁, hpath, hlast⟩ := exec_parts hs.placed hs.owned hsane h
  obtain ⟨hcur, -⟩ := hpath.ctx_cases
  obtain rfl | ⟨a, ha, hst, hm⟩ := hlast
  · exact absurd hcur hc
  have hp₁ := hpath.placed hs.placed
  have hnest : k₁.isrNesting = k.isrNesting := by
    rw [← (hm.scalars_eq (by rintro rfl; cases hst)).1,
      (scalarStep hs.placed hs.owned hsane h).isrNesting]
    cases i with
    | isrEnter | isrExit => cases ha; cases hst
    | _ => rfl
  obtain ⟨hctx, hready, hrun⟩ := hm.arrives hp₁ hst
  rw [hnest] at hready hrun
  refine ⟨hready, fun hi => hrun hi ?_, ?_⟩
  · cases hm with
    | switch | switchIsr => rfl
    | block h₀ hd hr hn hcx hmx hq hre => exact absurd (hnest.symm.trans h₀) hi
    | exit hn hd hre =>
      obtain ⟨c, rfl, hl⟩ := does_leave ha rfl (by simp)
      rw [Enabled, if_neg hi] at he
      cases c <;> simp_all [Does, Call.exits]
    | _ => cases hst
  · have hlive : k₁.Live k'.taskCurrent := by
      have hl' := (hm.placed hp₁).currentLive
      obtain ⟨hl, -⟩ | rfl := ((hm.task k'.taskCurrent).live_iff hp₁.toStanding).mp hl'
      · exact hl
      · cases hst
    rw [hctx]
    obtain ⟨hl, -, hx⟩ | ⟨hl, hx⟩ := hpath.ctx_aside hs.placed hc
    · simp [Kernel.Interrupted, hl, hx]
    · simp [Kernel.Interrupted, hl, hx hlive, Ctx.interruptible]

end Steps

section Runs
variable [Port] {k : Kernel}

/-- The step has switched to another task. -/
def Switches (x : KernelStep) : Prop := x.post.taskCurrent ≠ x.pre.taskCurrent

instance : DecidablePred Switches := fun _ => inferInstanceAs (Decidable (_ ≠ _))

/-- A task has switched to a task that does not continue behind `arch_context_switch`. -/
def Mislabels (x : KernelStep) : Prop :=
  x.pre.isrNesting = 0 ∧ x.pre.Interrupted x.post.taskCurrent

instance : DecidablePred Mislabels := fun _ => inferInstanceAs (Decidable (_ ∧ _))

/-- The label of the running task, as the last switch of a run has left it. -/
structure Labelled (tr : List KernelStep) (k : Kernel) : Prop where
  sound : Sound k
  awake : 0 < k.isrNesting → k.started = true
  right : (∀ x, tr.find? Switches = some x → ¬ Mislabels x) →
    k.current.ctx.interruptible = true → k.current.state = .running
  wrong : ∀ x, tr.find? Switches = some x → Mislabels x →
    k.current.ctx.interruptible = true ∧ k.current.state = .ready

theorem Labelled.step {tr : List KernelStep} {k' : Kernel} {l : Action × Option Ret}
    (h : Labelled tr k) (hsane : Sane k l.1) (hst : k.Step l k') :
    Labelled (⟨k, l, k'⟩ :: tr) k' := by
  obtain ⟨i, r⟩ := l
  obtain ⟨he, hset⟩ := hst
  obtain ⟨n, hn⟩ := hset.exists_eq
  have hsc := scalarStep h.sound.placed h.sound.owned hsane hn
  have hs' := h.sound.exec hsane hn
  have haw' := hsc.awake he h.awake
  by_cases hc : k'.taskCurrent = k.taskCurrent
  · have hfind : List.find? Switches (⟨k, (i, r), k'⟩ :: tr) = tr.find? Switches :=
      List.find?_cons_of_neg (by simp [Switches, hc])
    obtain ⟨hstate, hctx⟩ | ⟨hctx, hstate⟩ := state_kept h.sound h.awake he hsane hn hc
    · refine ⟨hs', haw', ?_, ?_⟩
      · rw [hfind, hstate, hctx]
        exact h.right
      · rw [hfind, hstate, hctx]
        exact h.wrong
    · refine ⟨hs', haw', fun _ _ => hstate, fun x hx hm => ?_⟩
      rw [hfind] at hx
      rw [(h.wrong x hx hm).1] at hctx
      cases hctx
  · have hfind : List.find? Switches (⟨k, (i, r), k'⟩ :: tr) = some ⟨k, (i, r), k'⟩ :=
      List.find?_cons_of_pos (by simp [Switches, hc])
    obtain ⟨hready, hrun, hctx⟩ := state_arrives h.sound hsane he hn hc
    refine ⟨hs', haw', fun hall hx => ?_, fun x hx hm => ?_⟩
    · have hnot := hall _ hfind
      exact hrun fun hi => hnot ⟨hi, hctx.mp hx⟩
    · rw [hfind] at hx
      cases hx
      exact ⟨hctx.mpr hm.2, hready hm.1⟩

theorem labelled_of_run {tr : List KernelStep}
    (h : (kernelSystem.restrict fun k i => Sane k i.1).Run tr k) : Labelled tr k := by
  refine h.invariant ?_ fun tr s i s' _ hl hst => hl.step hst.1 hst.2
  rintro k rfl
  refine ⟨sound_init, by simp [osInit, coldKernel, Kernel.setTask, Kernel.setQueue],
    fun _ _ => ?_, fun x hx => by simp at hx⟩
  simp [osInit, Kernel.current, Kernel.setTask]

/-- While the code of a task runs, the states mean what the header says if and only if the last
switch was not one by a task to a task that is new or was interrupted. -/
theorem task_states_mean_iff {tr : List KernelStep}
    (h : (kernelSystem.restrict fun k i => Sane k i.1).Run tr k)
    (ho : k.current.ctx.outside = true) :
    StatesMean k ↔ ∀ x, tr.find? Switches = some x → ¬ Mislabels x := by
  have hl := labelled_of_run h
  rw [hl.sound.placed.statesMean_iff]
  constructor
  · intro hr x hx hm
    rw [(hl.wrong x hx hm).2] at hr
    cases hr
  · intro hall
    refine hl.right hall ?_
    revert ho
    cases k.current.ctx <;> simp [Ctx.outside, Ctx.interruptible]

end Runs

/-- The idle task goes on in `os_schedule` after the task 1 has blocked. -/
theorem task_states_mean_iff_blocked : ∃ tr k,
    (kernelSystem.restrict fun k i => Sane k i.1).Run tr k ∧ k.started = true ∧
    k.isrNesting = 0 ∧ (k.tasks 1).state = .wait ∧ StatesMean k := by
  obtain ⟨⟨tr, k⟩, hk, hx⟩ := Outcome.exists_of_holds
    (x := playRun saneCheck 10 [.call (.taskCreate 1 2), .call (.semCreate 0 0), .call .start,
      .resume, .call (.semDown 0 osTimeoutInfinite), .resume] [] (osInit coldKernel))
    (p := fun (tr, k) => decide (k.started = true ∧ k.isrNesting = 0 ∧ (k.tasks 1).state = .wait ∧
      k.current.ctx.outside = true) && match tr.find? Switches with
        | none => false
        | some x => decide (¬ Mislabels x)) (by decide +kernel)
  obtain ⟨hd, hm⟩ := Bool.and_eq_true_iff.mp hx
  obtain ⟨h₁, h₂, h₃, h₄⟩ := of_decide_eq_true hd
  have hr := run_of_playRun (P := fun k i => Sane k i.1) (fun _ _ h => h)
    (fun _ _ _ hs h => sane_of_check hs h) (.start rfl) hk
  refine ⟨tr, k, hr, h₁, h₂, h₃, (task_states_mean_iff hr h₄).mpr fun x hx => ?_⟩
  simp only [hx] at hm
  exact of_decide_eq_true hm

/-- The first task that `os_start` switches to runs as `TASKSTATE_READY`. -/
theorem task_states_first_start : ∃ tr k,
    (kernelSystem.restrict fun k i => Sane k i.1).Run tr k ∧ k.isrNesting = 0 ∧
    k.current.ctx.outside = true ∧ k.current.state = .ready ∧ ¬ StatesMean k := by
  obtain ⟨⟨tr, k⟩, hk, hx⟩ := Outcome.exists_of_holds
    (x := playRun saneCheck 10 [.call (.taskCreate 1 2), .call .start, .resume] []
      (osInit coldKernel))
    (p := fun (_, k) => decide (k.isrNesting = 0 ∧ k.current.ctx.outside = true ∧
      k.current.state = .ready)) (by decide +kernel)
  obtain ⟨h₁, h₂, h₃⟩ := of_decide_eq_true hx
  have hr := run_of_playRun (P := fun k i => Sane k i.1) (fun _ _ h => h)
    (fun _ _ _ hs h => sane_of_check hs h) (.start rfl) hk
  refine ⟨tr, k, hr, h₁, h₂, h₃, fun hm => ?_⟩
  have hrun := (hm.running k.taskCurrent).mpr rfl
  rw [Kernel.current, hrun] at h₃
  cases h₃

end RadOs
