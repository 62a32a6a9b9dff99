import RadOs.Kernel.Orderly

/-! # Which tasks are inside `os_task_join`

A task is inside `os_task_join` from the step on in which it has blocked there.
While it is, the task it joins points to the semaphore on its stack.
-/

namespace RadOs
open Bucketed Runs Budget

/-- The task `u` is inside `os_task_join` for the task `t`. -/
def Joins (u t : TaskId) (k : Kernel) : Prop :=
  (k.tasks u).ctx = .joinDown t ∨ (k.tasks u).ctx = .joinDestroy t

instance (u t : TaskId) (k : Kernel) : Decidable (Joins u t k) :=
  inferInstanceAs (Decidable (_ ∨ _))

section Specs
variable {k k' : Kernel} {t : TaskId} {n : ℕ}

theorem joinFinish_ok {r : Ret} (h : joinFinish t k = .ok (k', r)) :
    (k.tasks t).state = .destroyed ∧ r = .value (k.tasks t).retValue ∧
      k' = k.setTask t { k.tasks t with state := .invalid, joinSem := none } := by
  obtain ⟨hd, h⟩ := Outcome.assert_ok h
  cases h
  exact ⟨hd, rfl, rfl⟩

/-- A queue without tasks is left alone. -/
theorem destroyLoop_none {Q : QueueId} {timed : Bool} (hf : Filed k)
    (hn : ∀ t, (k.tasks t).taskQueue ≠ some Q) (h : destroyLoop timed Q n k = .ok k') : k' = k := by
  cases n with
  | zero => cases h
  | succ n =>
    obtain ⟨⟨r, k₁⟩, hd, h₁⟩ := Outcome.bind_ok h
    obtain ⟨rfl, rfl, -⟩ | ⟨t, rfl, hfst, -⟩ := hf.dequeue hd
    · cases h₁
      rfl
    · exact absurd (hf.first hfst).1 (hn t)

/-- The kernel after the destruction of the semaphore on the stack of the running task. -/
def Kernel.unjoined (k : Kernel) : Kernel :=
  (k.setQueue (.sem (.join k.taskCurrent)) .zero).setSem (.join k.taskCurrent) 0

theorem Placed.unjoined (hp : Placed k) : Placed k.unjoined :=
  (Move.sem rfl).placed ((Move.queue (b := false) hp.no_joiner rfl).placed hp)

/-- The end of `os_task_join` of a task that was blocked in it. -/
theorem Placed.joinDestroyed_ok (hp : Placed k) {r : RetCode} {v : Option Ret}
    (h : RadOs.joinDestroyed n t r k = .ok (k', v)) :
    r = .ok ∧ ((v = none ∧ Move .switch k.unjoined k' ∧
        (k.isrNesting = 0 → (k'.tasks k.taskCurrent).ctx = .joinDestroy t)) ∨
      ((k.tasks t).state = .destroyed ∧ v = some (.value (k.tasks t).retValue) ∧
        k' = (k.unjoined.setTask t
          { k.tasks t with state := .invalid, joinSem := none }).setCtx .user)) := by
  obtain ⟨hr, h⟩ := Outcome.assert_ok h
  obtain ⟨k₁, hd, h⟩ := Outcome.bind_ok h
  refine ⟨hr, ?_⟩
  obtain ⟨-, hd⟩ := Outcome.assert_ok hd
  obtain ⟨-, hd⟩ := Outcome.assert_ok hd
  obtain ⟨k₂, hloop, hd⟩ := Outcome.bind_ok hd
  obtain rfl := destroyLoop_none hp.filed hp.no_joiner hloop
  have hd : osSchedule 1 (.joinDestroy t) k₂.unjoined = .ok k₁ := hd
  have hsch := hp.unjoined.schedule hd (Or.inr ⟨t, rfl⟩)
  obtain ⟨rfl, -⟩ | hm := hsch
  · rw [if_pos (show k₂.unjoined.taskCurrent = k₂.taskCurrent from rfl)] at h
    obtain ⟨⟨k₃, w⟩, hj, h⟩ := Outcome.bind_ok h
    cases h
    obtain ⟨hst, rfl, rfl⟩ := joinFinish_ok hj
    exact Or.inr ⟨hst, rfl, rfl⟩
  · have hne := hm.taskCurrent_ne hp.unjoined rfl
    rw [if_neg (show k₁.taskCurrent ≠ k₂.taskCurrent from hne)] at h
    cases h
    refine Or.inl ⟨rfl, hm, fun hi => ?_⟩
    obtain rfl | ⟨-, hc⟩ := hp.unjoined.schedule_ctx hd hi
    · exact absurd rfl (hm.taskCurrent_ne hp.unjoined rfl)
    · exact hc

/-- A task that blocks continues where its function says. -/
theorem Placed.blockSwitch_ctx {Q : QueueId} {c : Ctx} (hp : Placed k)
    (h : osTaskBlockSwitch Q Q.blockType c k = .ok k') : (k'.tasks k.taskCurrent).ctx = c := by
  obtain ⟨k₁, he, h₁⟩ := Outcome.bind_ok h
  obtain ⟨⟨r, k₂⟩, hq, h₂⟩ := Outcome.bind_ok h₁
  have hf := hp.filed.setTask (t := k.taskCurrent)
    (x := { k.current with state := .wait, blockType := Q.blockType }) rfl fun _ => rfl
  obtain ⟨q, rfl, hf₁, -⟩ := hf.enqueue (by simpa [Kernel.current] using hp.current) he
  obtain ⟨rfl, rfl, -⟩ | ⟨newTask, rfl, -, q₂, rfl, -, -⟩ := hf₁.dequeue hq
  · cases h₂
  · cases h₂
    simp [archContextSwitch, Kernel.setCtx, Kernel.setTask]

/-- The kernel after the semaphore on the stack of the running task has been made known to the
task `t`. -/
def Kernel.published (k : Kernel) (t : TaskId) : Kernel :=
  ((k.setQueue (.sem (.join k.taskCurrent)) osTaskqueueInit).setSem (.join k.taskCurrent) 0).setTask t
    { k.tasks t with joinSem := some (.join k.taskCurrent) }

theorem Placed.published (hp : Placed k) (t : TaskId) : Placed (k.published t) :=
  (Move.join (j := some (.join k.taskCurrent)) (by simp) (Or.inl rfl) rfl).placed
    ((Move.sem (v := 0) rfl).placed ((Move.queue (b := true) hp.no_joiner rfl).placed hp))

theorem Placed.taskJoin_ok [Port] (hp : Placed k) {v : Option Ret}
    (h : osTaskJoin n t k = .ok (k', v)) :
    k.isrNesting = 0 ∧ (k.tasks t).joinSem = none ∧
      (((k.tasks t).state = .destroyed ∧ v = some (.value (k.tasks t).retValue) ∧
        k' = k.setTask t { k.tasks t with state := .invalid, joinSem := none }) ∨
      (k.Live t ∧ v = none ∧
        Move (.block (.sem (.join k.taskCurrent))) (k.published t) k' ∧
        (k'.tasks k.taskCurrent).ctx = .joinDown t)) := by
  obtain ⟨hi, h⟩ := Outcome.assert_ok h
  obtain ⟨hd, h⟩ := Outcome.assert_ok h
  obtain ⟨-, h⟩ := Outcome.assert_ok h
  obtain ⟨hj, h⟩ := Outcome.assert_ok h
  obtain ⟨-, h⟩ := Outcome.assert_ok h
  refine ⟨hi, hj, ?_⟩
  split at h
  · cases h
  · split at h
    · rename_i hl
      obtain ⟨k₁, hc, h⟩ := Outcome.bind_ok h
      obtain ⟨-, rfl⟩ := Placed.semCreate hc
      obtain ⟨⟨k₂, r⟩, hsem, h⟩ := Outcome.bind_ok h
      have hsem : osSemDown n (.join k.taskCurrent) osTimeoutInfinite (.joinDown t)
        (k.published t) = .ok (k₂, r) := hsem
      have hpub := hp.published t
      obtain ⟨-, hsem⟩ := Outcome.assert_ok hsem
      obtain ⟨-, hsem⟩ := Outcome.assert_ok hsem
      obtain ⟨-, hsem⟩ := Outcome.assert_ok hsem
      obtain ⟨-, hsem⟩ := Outcome.assert_ok hsem
      rw [if_neg (by simp [Kernel.published, Kernel.setSem, Kernel.setTask]),
        if_neg (by decide), if_neg (by simp)] at hsem
      obtain ⟨k₃, hk₃, hsem⟩ := Outcome.bind_ok hsem
      cases hk₃
      obtain ⟨k₃, hb, hsem⟩ := Outcome.bind_ok hsem
      cases hsem
      cases h
      refine Or.inr ⟨hl, rfl, hpub.blockSwitch hb hi hd (by simp) rfl (by simp), ?_⟩
      exact hpub.blockSwitch_ctx hb
    · obtain ⟨⟨k₁, w⟩, hf, h⟩ := Outcome.bind_ok h
      cases h
      obtain ⟨hst, rfl, rfl⟩ := joinFinish_ok hf
      exact Or.inl ⟨hst, rfl, rfl⟩

end Specs

section Places
variable [Port] {k k' : Kernel} {i : Action} {c : Call} {n : ℕ} {r : Option Ret} {t u : TaskId}

/-- A task that is switched away by its call of `os_schedule` continues there. -/
theorem Call.schedule_ctx (hs : Sound k) (hsane : Sane k (.call c)) (hi : k.isrNesting = 0)
    (hl : c.leaves = false) (h : c.exec n k = .ok (k', r)) :
    k'.taskCurrent = k.taskCurrent ∨ (k'.tasks k.taskCurrent).ctx = .schedule := by
  have hp := hs.placed
  have hfin : ∀ {k₁ : Kernel} {p : ℕ}, Placed.Calls p .schedule k₁ k' →
      k₁.taskCurrent = k.taskCurrent → k₁.isrNesting = k.isrNesting →
      k'.taskCurrent = k.taskCurrent ∨ (k'.tasks k.taskCurrent).ctx = .schedule := by
    intro k₁ p hcalls hc hn
    rw [← hc]
    exact hcalls.ctx (hn.trans hi)
  cases c with
  | taskCreate t p =>
    obtain ⟨-, -, -, k₁, ⟨q, rfl, -, -⟩, hc⟩ := hp.taskCreate_calls (quiet_ok h).1 hsane
    exact hfin hc rfl rfl
  | yield =>
    obtain ⟨-, hx⟩ := Outcome.assert_ok (quiet_ok h).1
    obtain ⟨-, hx⟩ := Outcome.assert_ok hx
    obtain ⟨-, hx⟩ := Outcome.assert_ok hx
    exact hfin ⟨hp, hx⟩ rfl rfl
  | semDestroy s =>
    obtain ⟨k₁, hpath, -, hc⟩ := hp.semDestroy_calls (quiet_ok h).1
    have hfr := hpath.wakeFrame fun a ⟨u, hu⟩ => ⟨u, _, _, hu⟩
    exact hfin hc hfr.taskCurrent hfr.isrNesting
  | semUp s sync =>
    obtain ⟨-, ⟨-, rfl⟩ | ⟨u, k₁, -, hm, ⟨-, rfl⟩ | ⟨-, hc⟩⟩⟩ := hp.semUp_calls (quiet_ok h).1
    · exact Or.inl rfl
    · exact Or.inl hm.wakeFrame.taskCurrent
    · exact hfin hc hm.wakeFrame.taskCurrent hm.wakeFrame.isrNesting
  | mtxDestroy m =>
    obtain ⟨-, -, k₁, hk, -, hc⟩ := hp.mtxDestroy_calls (quiet_ok h).1 fun h t ht => hs.owned t m ht h
    have hk₁ : k₁.taskCurrent = k.taskCurrent ∧ k₁.isrNesting = k.isrNesting := by
      obtain ⟨-, rfl⟩ | ⟨-, k₂, ⟨k₃, -, rfl, hr⟩, hpath⟩ := hk
      · exact ⟨rfl, rfl⟩
      · obtain ⟨p, rfl⟩ := Placed.mtxUnlockPrioReset hr
        have hfr := hpath.wakeFrame fun a ⟨u, hu⟩ => ⟨u, _, _, hu⟩
        exact ⟨hfr.taskCurrent, hfr.isrNesting⟩
    exact hfin hc hk₁.1 hk₁.2
  | mtxUnlock m =>
    obtain ⟨-, -, -, k₁, rfl, ⟨-, rfl⟩ | ⟨-, k₂, ⟨k₃, -, rfl, hr⟩, hcase⟩⟩ :=
      hp.mtxUnlock_calls (quiet_ok h).1
    · exact Or.inl rfl
    · obtain ⟨p, rfl⟩ := Placed.mtxUnlockPrioReset hr
      obtain ⟨-, rfl⟩ | ⟨u, k₄, -, hm, hc⟩ := hcase
      · exact Or.inl rfl
      · exact hfin hc hm.wakeFrame.taskCurrent hm.wakeFrame.isrNesting
  | waitqueueDestroy q =>
    obtain ⟨-, k₁, hpath, -, hc⟩ := hp.waitqueueDestroy_calls (quiet_ok h).1
    have hfr := hpath.wakeFrame fun a ⟨u, hu⟩ => ⟨u, _, _, hu⟩
    exact hfin hc hfr.taskCurrent hfr.isrNesting
  | waitqueueWakeup q cnt sync =>
    obtain ⟨-, -, k₁, hpath, -, hk⟩ := hp.waitqueueWakeup_calls (quiet_ok h).1
    have hfr := hpath.wakeFrame fun a ⟨u, hu⟩ => ⟨u, _, _, hu⟩
    have hcaught : Placed.caught q k = k := by simp [Placed.caught, hi]
    rw [hcaught] at hfr
    obtain rfl | hc := hk
    · exact Or.inl hfr.taskCurrent
    · exact hfin hc hfr.taskCurrent hfr.isrNesting
  | tick =>
    have := (hp.tick (quiet_ok h).1).1
    omega
  | taskExit v => cases hl
  | taskJoin t => cases hl
  | semDown s T => cases hl
  | mtxLock m => cases hl
  | waitqueueWait T => cases hl
  | _ =>
    obtain ⟨k₁, hpath, rfl | ⟨a, ha, hst, -⟩⟩ := Call.exec_parts hp hs.owned hsane h
    · exact Or.inl hpath.ctx_cases.1
    · exfalso
      revert ha hst
      cases a <;> simp [Does, Kind.still]

/-- The calls that end somewhere else than `os_task_join` are not inside it. -/
theorem Call.not_joins (hs : Sound k) (hsane : Sane k (.call c)) (hi : k.isrNesting = 0)
    (ho : k.current.ctx.outside = true) (h : c.exec n k = .ok (k', r))
    (hj : Joins k.taskCurrent t k') : c = .taskJoin t := by
  have hp := hs.placed
  have hparts := Call.exec_parts hp hs.owned hsane h
  have hblock : ∀ {Q : QueueId} {k₁ : Kernel}, (∀ u, Q ≠ .sem (.join u)) → Placed k₁ →
      k₁.taskCurrent = k.taskCurrent → Move (.block Q) k₁ k' → False := by
    intro Q k₁ hQ hp₁ hc hb
    obtain ⟨-, d, hd, htask⟩ := hb.block_current hp₁
    rw [hc] at hd htask
    rw [Joins, htask] at hj
    obtain rfl | rfl : d = .joinDown t ∨ d = .joinDestroy t := hj
    · exact hQ _ hd
    · exact hd
  have hstay : k'.taskCurrent = k.taskCurrent →
      (∀ d d', Does k (.call c) (.ctx d d') → d' ≠ .joinDown t ∧ d' ≠ .joinDestroy t) → False := by
    intro hc hD
    obtain ⟨-, hx | hx | ⟨d, hx⟩⟩ := (hparts.stays hp hc).ctx_cases
    · rw [Joins, hx] at hj
      obtain hj | hj := hj <;> rw [hj] at ho <;> cases ho
    · simp [Joins, hx] at hj
    · obtain hj | hj := hj
      · exact (hD _ _ hx).1 hj
      · exact (hD _ _ hx).2 hj
  by_cases hl : c.leaves = false
  · obtain hc | hc := Call.schedule_ctx hs hsane hi hl h
    · exact (hstay hc fun d d' hd => by
        cases c <;> simp only [Does, reduceCtorEq, Kind.ctx.injEq, false_or, or_false, exists_false,
          and_false] at hd
        all_goals aesop).elim
    · simp [Joins, hc] at hj
  · cases c with
    | taskExit v =>
      obtain ⟨k₁, -, hc, -, hm, -⟩ := hp.taskExit (quiet_ok h).1 hsane
      cases hm with
      | exit hn hd hre =>
        obtain ⟨q, rfl, -, -⟩ := hre
        simp [Joins, Kernel.exited, hc] at hj
    | taskJoin t' =>
      obtain ⟨-, -, ⟨hst, -, rfl⟩ | ⟨-, -, -, hc⟩⟩ := hp.taskJoin_ok h
      · exact (hstay rfl (by simp [Does])).elim
      · simpa [Joins, hc, eq_comm] using hj
    | semDown s T =>
      obtain ⟨d, hx, -⟩ := coded_ok h
      obtain ⟨-, ⟨-, -, rfl⟩ | ⟨-, -, -, rfl⟩ | ⟨-, -, k₁, ht, hb⟩⟩ := hp.semDown hx ⟨rfl, by simp⟩
      · exact (hstay rfl (by simp [Does])).elim
      · exact (hstay rfl (by simp [Does])).elim
      · exact (hblock (by simp) (ht.move.placed hp) ht.frame.1 hb).elim
    | mtxLock m =>
      obtain ⟨d, hx, -⟩ := coded_ok h
      obtain ⟨-, -, -, ⟨-, -, rfl⟩ | ⟨-, -, rfl⟩ | ⟨o, k₁, -, -, -, -, hpath, hb⟩⟩ := hp.mtxLock hx
      · exact (hstay rfl (by simp [Does])).elim
      · exact (hstay rfl (by simp [Does])).elim
      · exact (hblock (by simp) (hpath.placed hp) hpath.reprio_frame.1 hb).elim
    | waitqueueWait T =>
      obtain ⟨d, hx, -⟩ := coded_ok h
      obtain ⟨-, -, -, ⟨-, -, rfl⟩ | ⟨q, k₁, -, -, ht, hb⟩⟩ := hp.waitqueueWait hx
      · simp [Joins, Kernel.setCtx, Kernel.setTask] at hj
      · have hp₁ : Placed { k₁ with waitqueueCurrent := none } :=
          (Move.scalars rfl).placed (ht.move.placed ((Move.scalars rfl).placed hp))
        exact (hblock (by simp) hp₁ ht.frame.1 hb).elim
    | _ => exact absurd rfl hl

omit [Port] in
/-- Where a task is after it has gone on. -/
theorem resume_ctx (hp : Placed k) (hi : k.isrNesting = 0) (h : resume n k = .ok (k', r)) :
    (k'.tasks k.taskCurrent).ctx ∈ [.user, .unlocked, .schedule] ∨
      (∃ q, k.current.ctx = .prepare q ∧ (k'.tasks k.taskCurrent).ctx = .prepared q) ∨
      ∃ t, k.current.ctx = .joinDown t ∧ (k'.tasks k.taskCurrent).ctx = .joinDestroy t := by
  have huser : ∀ k₁ : Kernel, k₁.taskCurrent = k.taskCurrent → k' = k₁.setCtx .user →
      (k'.tasks k.taskCurrent).ctx ∈ [.user, .unlocked, .schedule] := by
    rintro k₁ hc rfl
    simp [Kernel.setCtx, Kernel.setTask, hc]
  unfold resume at h
  split at h
  case h_1 | h_2 | h_3 => all_goals cases h
  case h_4 q hc =>
    cases (quiet_ok h).1
    exact Or.inr (Or.inl ⟨q, hc, by simp [Kernel.setCtx, Kernel.setTask]⟩)
  case h_5 hc =>
    obtain ⟨-, hx⟩ := Outcome.assert_ok (quiet_ok h).1
    obtain ⟨-, hx⟩ := Outcome.assert_ok hx
    simp only at hx
    split at hx <;> cases hx <;> simp [Kernel.setCtx, Kernel.setTask]
  case h_6 hc | h_7 hc =>
    all_goals
      obtain rfl | ⟨-, hx⟩ :=
        ((setCtx_move k .user).placed hp).schedule_ctx (quiet_ok h).1 hi
      · exact Or.inl (huser k rfl rfl)
      · have hx : (k'.tasks k.taskCurrent).ctx = .schedule := hx
        simp [hx]
  case h_8 hc =>
    cases (quiet_ok h).1
    exact Or.inl (huser k.running rfl rfl)
  case h_9 x hc | h_10 x hc =>
    all_goals
      obtain ⟨⟨k₁, c⟩, hb, h⟩ := Outcome.bind_ok h
      cases h
      exact Or.inl (huser _ (blockedReturn_path hb).2.1 rfl)
  case h_11 m hc =>
    cases h
    exact Or.inl (huser k.running rfl rfl)
  case h_12 t hc =>
    obtain ⟨⟨k₁, c⟩, hb, h⟩ := Outcome.bind_ok h
    obtain ⟨hpath, hcur, -⟩ := blockedReturn_path hb
    have hi₁ : k₁.isrNesting = 0 := (hpath.scalars_eq (by simp)).1.trans hi
    obtain ⟨-, ⟨-, -, hx⟩ | ⟨-, -, rfl⟩⟩ := (hpath.placed hp).joinDestroyed_ok h
    · exact Or.inr (Or.inr ⟨t, hc, hcur ▸ hx hi₁⟩)
    · exact Or.inl (huser (k₁.unjoined.setTask t _) hcur rfl)
  case h_13 t hc =>
    obtain ⟨⟨k₁, v⟩, hf, h⟩ := Outcome.bind_ok h
    cases h
    have := (Placed.joinFinish hf).taskCurrent_still rfl
    exact Or.inl (huser _ this rfl)

omit [Port] in
theorem resume_joins (hp : Placed k) (hi : k.isrNesting = 0) (h : resume n k = .ok (k', r))
    (hj : Joins k.taskCurrent t k') : k.current.ctx = .joinDown t := by
  obtain hc | ⟨q, -, hc⟩ | ⟨u, hu, hc⟩ := resume_ctx hp hi h
  · obtain hj | hj := hj <;> simp [hj] at hc
  · simp [Joins, hc] at hj
  · simpa [Joins, hu, hc] using hj

/-- A task gets into `os_task_join` by its call. -/
theorem Joins.of_step (ht : Timely k) (he : Enabled k i) (hsane : Sane k i)
    (h : exec n i k = .ok (k', r)) (hj : Joins u t k') :
    Joins u t k ∨ (ActsIn u k ∧ i = .call (.taskJoin t)) := by
  by_cases ha : ActsIn u k
  · obtain ⟨hi, rfl⟩ := ha
    cases i with
    | isrEnter => cases h; exact Or.inl hj
    | isrExit => cases h; exact Or.inl hj
    | resume => exact Or.inl (Or.inl (resume_joins ht.sound.placed hi h hj))
    | call c =>
      rw [Enabled, if_pos hi] at he
      exact Or.inr ⟨⟨hi, rfl⟩, by rw [Call.not_joins ht.sound hsane hi he h hj]⟩
  · left
    by_cases hu : u = k.taskCurrent
    · subst hu
      have hb := beside ht.sound ht.awake he hsane h ht.sound.placed.currentLive ha
      rwa [Joins, hb.ctx] at hj
    · obtain hx | hx := ctx_elsewhere ht.sound hsane h hu
      · rwa [Joins, hx] at hj
      · simp [Joins, hx] at hj

end Places

/-- Who waits for a task to exit is inside `os_task_join`. -/
def Matched (k : Kernel) : Prop :=
  ∀ t s, (k.tasks t).joinSem = some s → ∃ u, s = .join u ∧ k.Live u ∧ Joins u t k

section Matching
variable [Port] {k k' : Kernel} {i : Action} {n : ℕ} {r : Option Ret} {t u : TaskId}

omit [Port] in
theorem does_join (h : Does k i (.join t)) :
    i = .call (.taskJoin t) ∨ (i = .resume ∧ Joins k.taskCurrent t k) := by
  revert h
  cases i with
  | call c => cases c <;> simp +contextual [Does]
  | resume =>
    simp only [Does, Placed.JoinEnd, Joins, Kernel.current]
    aesop
  | isrEnter => simp [Does]
  | isrExit => simp [Does]

omit [Port] in
theorem TaskMove.joinSem_cases {a : Kind} {x : Task} (h : TaskMove k u a x) (ha : a ≠ .join u) :
    x.joinSem = (k.tasks u).joinSem ∨ x.joinSem = none := by
  cases h <;> simp_all [osTaskInit]

theorem joinSem_cases (hs : Sound k) (hsane : Sane k i) (h : exec n i k = .ok (k', r))
    (hd : ¬ Does k i (.join t)) :
    (k'.tasks t).joinSem = (k.tasks t).joinSem ∨ (k'.tasks t).joinSem = none := by
  refine (exec_path hs.placed hs.owned hsane h).invariant (I := fun k' =>
    (k'.tasks t).joinSem = (k.tasks t).joinSem ∨ (k'.tasks t).joinSem = none) ?_ (Or.inl rfl)
  intro a k₁ k₂ ha hk hm
  obtain h | h := (hm.task t).joinSem_cases (by rintro rfl; exact hd ha)
  · rwa [h]
  · exact Or.inr h

omit [Port] in
/-- A task inside `os_task_join` goes on there. -/
theorem Joins.resumes (h : Joins u t k) (ha : ActsIn u k) (he : Enabled k i) : i = .resume := by
  obtain ⟨hi, rfl⟩ := ha
  have hc : k.current.ctx = .joinDown t ∨ k.current.ctx = .joinDestroy t := h
  cases i with
  | resume => rfl
  | call c => obtain hc | hc := hc <;> simp [Enabled, hi, hc, Ctx.outside] at he
  | isrEnter => obtain hc | hc := hc <;> simp [Enabled, hi, hc, Ctx.interruptible] at he
  | isrExit => simp [Enabled, hi] at he

omit [Port] in
/-- The step in which the running task goes on in `os_task_join`: it is switched away by the
destruction of its semaphore, or returns. -/
theorem Joins.resume_ok (hp : Placed k) (hi : k.isrNesting = 0) (hj : Joins k.taskCurrent t k)
    (h : resume n k = .ok (k', r)) :
    (r = none ∧ (k'.tasks k.taskCurrent).ctx = .joinDestroy t ∧ ∃ k₁, Placed k₁ ∧
      k₁.taskCurrent = k.taskCurrent ∧ (∀ u, u ≠ k.taskCurrent → k₁.tasks u = k.tasks u) ∧
      k₁.current.joinSem = k.current.joinSem ∧ Move .switch k₁ k') ∨
    ((k.tasks t).state = .destroyed ∧ r = some (.value (k.tasks t).retValue) ∧
      (k'.tasks t).joinSem = none ∧ (k'.tasks t).state = .invalid ∧
      ∀ u, u ≠ t → (k'.tasks u).joinSem = (k.tasks u).joinSem) := by
  have hset : ∀ {k₁ : Kernel} (x : Task), x.state = .invalid → x.joinSem = none →
      k' = (k₁.setTask t x).setCtx .user →
      (∀ u, u ≠ t → (k₁.tasks u).joinSem = (k.tasks u).joinSem) →
      (k'.tasks t).joinSem = none ∧ (k'.tasks t).state = .invalid ∧
        ∀ u, u ≠ t → (k'.tasks u).joinSem = (k.tasks u).joinSem := by
    rintro k₁ x hx₁ hx₂ rfl hother
    refine ⟨?_, ?_, fun u hu => ?_⟩
    · by_cases ht : t = k₁.taskCurrent <;>
        simp [Kernel.setCtx, Kernel.setTask, Kernel.current, ht, hx₂]
    · by_cases ht : t = k₁.taskCurrent <;>
        simp [Kernel.setCtx, Kernel.setTask, Kernel.current, ht, hx₁]
    · rw [← hother u hu]
      by_cases huc : u = k₁.taskCurrent
      · subst huc
        simp [Kernel.setCtx, Kernel.setTask, Kernel.current, hu]
      · simp [Kernel.setCtx, Kernel.setTask, huc, hu]
  have hc : k.current.ctx = .joinDown t ∨ k.current.ctx = .joinDestroy t := hj
  obtain hc | hc := hc
  · simp only [resume, hc] at h
    obtain ⟨⟨k₁, c⟩, hb, h⟩ := Outcome.bind_ok h
    obtain ⟨hpath, hcur, -⟩ := blockedReturn_path hb
    obtain ⟨x, -, hk₁, -⟩ := blockedReturn_ok hb
    have hi₁ : k₁.isrNesting = 0 := (hpath.scalars_eq (by simp)).1.trans hi
    have hother : ∀ u, u ≠ k.taskCurrent → k₁.tasks u = k.tasks u := by
      intro u hu
      simp [hk₁, Kernel.setTask, hu]
    have hkeep : ∀ u, (k₁.tasks u).joinSem = (k.tasks u).joinSem ∧
        (k₁.tasks u).retValue = (k.tasks u).retValue := by
      intro u
      by_cases hu : u = k.taskCurrent
      · subst hu
        simp [hk₁, Kernel.setTask, Kernel.current]
      · rw [hother u hu]
        exact ⟨rfl, rfl⟩
    obtain ⟨-, ⟨rfl, hm, hx⟩ | ⟨hst, rfl, hk'⟩⟩ := (hpath.placed hp).joinDestroyed_ok h
    · refine Or.inl ⟨rfl, ?_, k₁.unjoined, (hpath.placed hp).unjoined, hcur, hother, ?_, hm⟩
      · rw [← hcur]
        exact hx hi₁
      · rw [Kernel.current, Kernel.current, ← (hkeep k.taskCurrent).1, ← hcur]
        rfl
    · refine Or.inr ⟨?_, by rw [(hkeep t).2], hset _ rfl rfl hk' fun u _ => (hkeep u).1⟩
      by_cases ht : t = k.taskCurrent
      · subst ht
        rw [hk₁] at hst
        simp at hst
      · rwa [hother t ht] at hst
  · simp only [resume, hc] at h
    obtain ⟨⟨k₁, v⟩, hf, h⟩ := Outcome.bind_ok h
    cases h
    obtain ⟨hst, rfl, rfl⟩ := joinFinish_ok hf
    have hkeep : ∀ u, (k.running.tasks u).joinSem = (k.tasks u).joinSem ∧
        (k.running.tasks u).retValue = (k.tasks u).retValue := by
      intro u
      by_cases hu : u = k.taskCurrent
      · subst hu
        simp [Kernel.running, Kernel.setTask, Kernel.current]
      · simp [Kernel.running, Kernel.setTask, hu]
    refine Or.inr ⟨?_, by rw [(hkeep t).2], hset _ rfl rfl rfl fun u _ => (hkeep u).1⟩
    by_cases ht : t = k.taskCurrent
    · subst ht
      simp [Kernel.running] at hst
    · simpa [Kernel.running, Kernel.setTask, ht] using hst

/-- A task that is inside `os_task_join` and does not run stays there. -/
theorem Joins.beside (h : Joins u t k) (ht : Timely k) (he : Enabled k i) (hsane : Sane k i)
    (hx : exec n i k = .ok (k', r)) (hl : k.Live u) (ha : ¬ ActsIn u k) :
    k'.Live u ∧ Joins u t k' := by
  have hb := RadOs.beside ht.sound ht.awake he hsane hx hl ha
  refine ⟨hb.live, ?_⟩
  rwa [Joins, hb.ctx]

theorem Matched.step (h : Matched k) (ht : Timely k) (he : Enabled k i) (hsane : Sane k i)
    (hx : exec n i k = .ok (k', r)) : Matched k' := by
  have hp := ht.sound.placed
  intro t s hs
  by_cases hd : Does k i (.join t)
  · obtain rfl | ⟨rfl, hj⟩ := does_join hd
    · obtain ⟨-, -, ⟨-, -, rfl⟩ | ⟨-, -, hm, hc⟩⟩ := hp.taskJoin_ok hx
      · simp at hs
      · obtain ⟨-, c, -, htask⟩ := hm.block_current (hp.published t)
        have hsem := ((hm.task t).joinSem_cases (by simp)).resolve_right (by simp [hs])
        rw [hs] at hsem
        refine ⟨k.taskCurrent, ?_, ?_, Or.inl hc⟩
        · simpa [Kernel.published] using hsem
        · have htask : k'.tasks k.taskCurrent = _ := htask
          rw [Kernel.Live, htask]
          rfl
    · obtain ⟨-, hc, k₁, hp₁, hcur, hother, hsem, hm⟩ | ⟨-, -, hn, -⟩ := hj.resume_ok hp he.1 hx
      · have hk₁ : (k₁.tasks t).joinSem = (k.tasks t).joinSem := by
          by_cases htc : t = k.taskCurrent
          · subst htc
            rwa [Kernel.current, hcur] at hsem
          · rw [hother t htc]
        have hst := ((hm.task t).joinSem_cases (by simp)).resolve_right (by simp [hs])
        rw [hs, hk₁] at hst
        obtain ⟨u, rfl, hl, hju⟩ := h t s hst.symm
        refine ⟨u, rfl, ?_⟩
        by_cases hu : u = k.taskCurrent
        · subst hu
          refine ⟨((hm.task _).live_iff hp₁.toStanding).mpr (Or.inl ⟨?_, by simp⟩), Or.inr hc⟩
          rw [← hcur]
          exact hp₁.currentLive
        · exact hju.beside ht he hsane hx hl fun ha => hu ha.2
      · rw [hn] at hs
        cases hs
  · have hst := (joinSem_cases ht.sound hsane hx hd).resolve_right (by simp [hs])
    rw [hs] at hst
    obtain ⟨u, rfl, hl, hju⟩ := h t s hst.symm
    refine ⟨u, rfl, hju.beside ht he hsane hx hl fun ha => hd ?_⟩
    obtain rfl := hju.resumes ha he
    obtain ⟨-, rfl⟩ := ha
    obtain hc | hc := hju
    · simp [Does, Placed.JoinEnd, Kernel.current, hc]
    · simp [Does, Kernel.current, hc]

theorem matched_of_reachable (h : timedSystem.Reachable k) : Timely k ∧ Matched k := by
  refine h.invariant (I := fun k => Timely k ∧ Matched k) ?_ ?_
  · rintro k rfl
    refine ⟨timely_of_reachable (.start rfl), fun t s hs => ?_⟩
    have hn : ((osInit coldKernel).tasks t).joinSem = none := by
      by_cases ht : t = taskIdle
      · rw [ht]
        rfl
      · simp [osInit, coldKernel, Kernel.setTask, Kernel.setQueue, ht, osTaskInit]
    rw [hn] at hs
    cases hs
  · rintro k ⟨i, r⟩ k' ⟨ht, hk⟩ hst
    obtain ⟨n, hn⟩ := hst.2.2.exists_eq
    exact ⟨ht.step hst, hk.step ht hst.2.1 hst.1.1 hn⟩

end Matching

end RadOs
