import RadOs.Kernel.Waits

/-! # Join and exit

The task `t` exits, and the task `j` joins it. `JoinPhase` follows the two
through every order of their steps, up to the return of `os_task_join`.
-/

namespace RadOs
open Bucketed Runs Budget

/-- The step is a call of `os_task_exit` by the task `t`. -/
def Exits (t : TaskId) (v : ℤ) (x : KernelStep) : Prop :=
  ActsIn t x.pre ∧ x.label.1 = .call (.taskExit v)

instance Exits.decidable (t : TaskId) (v : ℤ) : DecidablePred (Exits t v) :=
  fun _ => inferInstanceAs (Decidable (_ ∧ _))

/-- The step ends a call of `os_task_join` for `t` by the task `j`. -/
def JoinReturns (j t : TaskId) (v : ℤ) (x : KernelStep) : Prop :=
  ActsIn j x.pre ∧ x.label.2 = some (.value v) ∧
    (x.label.1 = .call (.taskJoin t) ∨ Joins j t x.pre)

/-- No task but `j` joins `t`, and the memory of `t` is not used for another task. -/
def Unshared (j t : TaskId) (x : KernelStep) : Prop :=
  (x.label.1 = .call (.taskJoin t) → x.pre.taskCurrent = j) ∧
    ∀ p, x.label.1 ≠ .call (.taskCreate t p)

/-- The memory of the task `t` can be used again. -/
structure Reusable (t : TaskId) (k : Kernel) : Prop where
  state : (k.tasks t).state = .invalid
  joinSem : (k.tasks t).joinSem = none
  queue : (k.tasks t).taskQueue = none
  timer : ¬ k.timers.Listed (.block t)

/-- How far the tasks `t` and `j` have come. After its exit the value of `t` is known. -/
inductive JoinPhase (j t : TaskId) (k : Kernel) : Option ℤ → Prop
  | before (hl : k.Live t) (hs : (k.tasks t).joinSem = none) (hno : ∀ u, ¬ Joins u t k) :
      JoinPhase j t k none
  | waiting (hl : k.Live t) (hs : (k.tasks t).joinSem = some (.join j))
      (hq : (k.tasks j).taskQueue = some (.sem (.join j))) (hc : (k.tasks j).ctx = .joinDown t)
      (hz : k.sems (.join j) = 0) (honly : ∀ u, Joins u t k → u = j) : JoinPhase j t k none
  | exited {v : ℤ} (hd : (k.tasks t).state = .destroyed) (hv : (k.tasks t).retValue = v)
      (hs : (k.tasks t).joinSem = none) (hno : ∀ u, ¬ Joins u t k) : JoinPhase j t k (some v)
  | signalled {v : ℤ} (hd : (k.tasks t).state = .destroyed) (hv : (k.tasks t).retValue = v)
      (hl : k.Live j) (hq : ∀ Q, Q ≠ .ready → (k.tasks j).taskQueue ≠ some Q)
      (hb : (k.tasks j).blockCode = .ok) (hc : (k.tasks j).ctx = .joinDown t)
      (honly : ∀ u, Joins u t k → u = j) : JoinPhase j t k (some v)
  | finishing {v : ℤ} (hd : (k.tasks t).state = .destroyed) (hv : (k.tasks t).retValue = v)
      (hl : k.Live j) (hc : (k.tasks j).ctx = .joinDestroy t)
      (honly : ∀ u, Joins u t k → u = j) : JoinPhase j t k (some v)

section Frames
variable [Port] {k k' : Kernel} {i : Action} {n : ℕ} {r : Option Ret} {j t u : TaskId}

omit [Port] in
theorem TaskMove.joinSem_eq {a : Kind} {x : Task} (h : TaskMove k u a x) (ha : a ≠ .join u)
    (hc : a ≠ .create u) : x.joinSem = (k.tasks u).joinSem := by
  cases h <;> simp_all

theorem joinSem_step (hs : Sound k) (hsane : Sane k i) (h : exec n i k = .ok (k', r))
    (hj : ¬ Does k i (.join t)) (hc : ∀ p, i ≠ .call (.taskCreate t p)) :
    (k'.tasks t).joinSem = (k.tasks t).joinSem := by
  refine (exec_path hs.placed hs.owned hsane h).invariant (I := fun k' =>
    (k'.tasks t).joinSem = (k.tasks t).joinSem) ?_ rfl
  intro a k₁ k₂ ha hk hm
  refine ((hm.task t).joinSem_eq ?_ ?_).trans hk
  · rintro rfl
    exact hj ha
  · rintro rfl
    obtain ⟨p, rfl⟩ := does_create ha
    exact hc p rfl

omit [Port] in
theorem TaskMove.dead {a : Kind} {x : Task} (h : TaskMove k u a x)
    (hp : Standing k.tasks k.taskCurrent) (hl : ¬ k.Live u) (ha : a ≠ .join u)
    (hc : a ≠ .create u) : x.state = (k.tasks u).state ∧ x.retValue = (k.tasks u).retValue ∧
      x.joinSem = (k.tasks u).joinSem := by
  have hli := hp.live u
  have hcl := hp.currentLive
  cases h <;> simp_all [Kernel.Live]

/-- What is left of a task that has exited stays as it is. -/
theorem dead_step (hs : Sound k) (hsane : Sane k i) (h : exec n i k = .ok (k', r))
    (hd : (k.tasks t).state = .destroyed) (hj : ¬ Does k i (.join t))
    (hc : ∀ p, i ≠ .call (.taskCreate t p)) :
    (k'.tasks t).state = .destroyed ∧ (k'.tasks t).retValue = (k.tasks t).retValue ∧
      (k'.tasks t).joinSem = (k.tasks t).joinSem := by
  refine ((exec_path hs.placed hs.owned hsane h).invariant (I := fun k' => Placed k' ∧
    (k'.tasks t).state = .destroyed ∧ (k'.tasks t).retValue = (k.tasks t).retValue ∧
      (k'.tasks t).joinSem = (k.tasks t).joinSem) ?_ ⟨hs.placed, hd, rfl, rfl⟩).2
  rintro a k₁ k₂ ha ⟨hp, h₁, h₂, h₃⟩ hm
  obtain ⟨h₁', h₂', h₃'⟩ := (hm.task t).dead hp.toStanding (by simp [Kernel.Live, h₁, TaskState.live])
    (by rintro rfl; exact hj ha) (by
      rintro rfl
      obtain ⟨p, rfl⟩ := does_create ha
      exact hc p rfl)
  exact ⟨hm.placed hp, h₁'.trans h₁, h₂'.trans h₂, h₃'.trans h₃⟩

/-- The semaphore on the stack of a task that is inside `os_task_join` for `t` is signalled by the
exit of `t` only. -/
theorem joinSem_sems (ht : Timely k) (hm : Matched k) (hsane : Sane k i)
    (h : exec n i k = .ok (k', r)) (hc : (k.tasks j).ctx = .joinDown t) (hj : j ≠ k.taskCurrent)
    (hx : ∀ v, t = k.taskCurrent → i ≠ .call (.taskExit v)) :
    k'.sems (.join j) = k.sems (.join j) := by
  refine (exec_path ht.sound.placed ht.sound.owned hsane h).invariant
    (I := fun k' => k'.sems (.join j) = k.sems (.join j)) ?_ rfl
  intro a k₁ k₂ ha hk hmv
  refine (hmv.sems_eq ?_).trans hk
  rintro rfl
  cases i with
  | call c =>
    cases c with
    | taskExit v =>
      simp only [Does, reduceCtorEq, Kind.sem.injEq, exists_false, or_false, false_or] at ha
      obtain ⟨s, hs, rfl⟩ := ha
      obtain ⟨u, hu, -, hju⟩ := hm _ _ hs
      cases hu
      refine hx v ?_ rfl
      simpa [Joins, hc] using hju
    | taskJoin t' => simp [Does, hj] at ha
    | _ => simp [Does] at ha
  | resume => simp [Does, Placed.JoinEnd, hj] at ha
  | isrEnter => simp [Does] at ha
  | isrExit => simp [Does] at ha

/-- Nobody but the task `t` on its exit wakes the task that joins it. -/
theorem not_woken (ht : Timely k) (hm : Matched k) (hst : timedSystem.step k (i, r) k')
    (hq : (k.tasks j).taskQueue = some (.sem (.join j))) (hc : (k.tasks j).ctx = .joinDown t)
    (hx : ∀ v, t = k.taskCurrent → i ≠ .call (.taskExit v)) :
    (k'.tasks j).taskQueue = some (.sem (.join j)) ∧ (k'.tasks j).ctx = .joinDown t := by
  have hp := ht.sound.placed
  have hj : j ≠ k.taskCurrent := hp.not_current (by simp [hq])
  obtain ⟨⟨hsane, hty⟩, he, hset⟩ := hst
  obtain ⟨n, hn⟩ := hset.exists_eq
  have hb := beside ht.sound ht.awake he hsane hn (hp.live j (by simp [hq])) fun ha => hj ha.2
  refine ⟨?_, hb.ctx.trans hc⟩
  obtain hu | ⟨Q, c, hw⟩ := hb.woken
  · exact (hu.queue _ (by simp)).mpr hq
  · have hQ : Q = .sem (.join j) := Option.some.inj (hw.waited.symm.trans hq)
    subst hQ
    have hd := hw.does
    cases i with
    | call d =>
      cases d with
      | taskExit v =>
        simp only [Does, reduceCtorEq, false_or, Kind.wake.injEq, QueueId.sem.injEq] at hd
        obtain ⟨s, hs, u, -, rfl, -⟩ := hd
        obtain ⟨u, hu, -, hju⟩ := hm _ _ hs
        cases hu
        exact absurd rfl (hx v (by simpa [Joins, hc] using hju))
      | tick =>
        obtain ⟨xs, hg⟩ := ht.guarded
        obtain ⟨ys, hgd⟩ := hg.exec ht.sound ht.awake he hsane hty hn
        obtain ⟨k₁, hp₁, hsch, -, hsame⟩ := hgd.tick rfl
        have hno : TimerId.block j ∉ xs := hg.notMem (hg.timer_none (by rw [hc]; rfl))
        have hq₁ : (k₁.tasks j).taskQueue = some (.sem (.join j)) := by
          rw [hsame j fun h => hno h.1, hq]
        obtain ⟨rfl, -⟩ | hmv := hsch
        · exact hq₁
        · exact ((hmv.task j).waiting_iff hp₁.toStanding (by simp)).mpr (Or.inl ⟨hq₁, by simp⟩)
      | _ => simp [Does] at hd
    | resume => simp [Does, Placed.JoinEnd, hj] at hd
    | isrEnter => simp [Does] at hd
    | isrExit => simp [Does] at hd

end Frames

section Places
variable {k : Kernel} {j t : TaskId} {v : ℤ}

/-- A task that waits for nothing but the processor. -/
def Kernel.Unblocked (k : Kernel) (j : TaskId) : Prop :=
  j = k.taskCurrent ∨ (k.tasks j).taskQueue = some .ready

/-- A live task that no wait queue keeps is in the ready queue. -/
theorem Placed.ready_of_live (hp : Placed k) (hl : k.Live j) (hj : j ≠ k.taskCurrent)
    (hw : ∀ Q, ¬ Awaits j (k.tasks j).ctx Q) : (k.tasks j).taskQueue = some .ready := by
  obtain ⟨Q, hQ⟩ := Option.ne_none_iff_exists'.mp (hp.elsewhere j hl hj)
  by_cases hr : Q = .ready
  · rw [hQ, hr]
  · exact absurd (hp.wait j Q hQ hr).2.1 (hw Q)

/-- Once `t` has exited, the task that joins it waits for nothing else. -/
theorem JoinPhase.unblocked (h : JoinPhase j t k (some v)) (hp : Placed k) (hj : Joins j t k) :
    k.Unblocked j := by
  by_cases hc : j = k.taskCurrent
  · exact Or.inl hc
  refine Or.inr ?_
  cases h with
  | exited hd hv hs hno => exact absurd hj (hno j)
  | signalled hd hv hl hq =>
    obtain ⟨Q, hQ⟩ := Option.ne_none_iff_exists'.mp (hp.elsewhere j hl hc)
    by_contra hr
    exact hq Q (fun h => hr (h ▸ hQ)) hQ
  | finishing hd hv hl hctx => exact hp.ready_of_live hl hc fun Q => by simp [hctx, Awaits]

end Places

section Steps
variable [Port] {k k' : Kernel} {i : Action} {n : ℕ} {r : Option Ret} {j t : TaskId} {o : Option ℤ}

omit [Port] in
theorem JoinPhase.only (h : JoinPhase j t k o) {u : TaskId} (hu : Joins u t k) : u = j := by
  cases h with
  | before hl hs hno => exact absurd hu (hno u)
  | waiting hl hs hq hc hz honly => exact honly u hu
  | exited hd hv hs hno => exact absurd hu (hno u)
  | signalled hd hv hl hq hb hc honly => exact honly u hu
  | finishing hd hv hl hc honly => exact honly u hu

/-- The exit of the task `t`. A task that is blocked in `os_task_join` is READY after it. -/
theorem JoinPhase.exits (h : JoinPhase j t k o) (ht : Timely k) (hne : j ≠ t) {v : ℤ}
    (hst : timedSystem.step k (.call (.taskExit v), r) k') (ha : ActsIn t k) :
    o = none ∧ JoinPhase j t k' (some v) ∧
      (Joins j t k → Joins j t k' ∧ (k'.tasks j).state = .ready) := by
  have hp := ht.sound.placed
  obtain ⟨⟨hsane, -⟩, he, hset⟩ := hst
  obtain ⟨n, hn⟩ := hset.exists_eq
  obtain ⟨-, rfl⟩ := ha
  obtain ⟨k₁, hsig, hc₁, he₁, hm, hv⟩ := hp.taskExit (quiet_ok hn).1 hsane
  have hjoins : ∀ u, Joins u k.taskCurrent k' → Joins u k.taskCurrent k := by
    intro u hu
    exact (hu.of_step ht he hsane hn).resolve_right (by simp)
  have hexit : (k'.tasks k.taskCurrent).state = .destroyed ∧
      (k'.tasks k.taskCurrent).joinSem = k.current.joinSem := by
    cases hm with
    | exit hnext hd hre =>
      obtain ⟨q, rfl, -, -⟩ := hre
      simp [Kernel.exited, hc₁, he₁]
  have hlive := hp.currentLive
  cases h with
  | before hl hs hno =>
    exact ⟨rfl, .exited hexit.1 hv (hexit.2.trans hs) fun u hu => hno u (hjoins u hu),
      fun hj => absurd hj (hno j)⟩
  | waiting hl hs hq hc hz honly =>
    refine ⟨rfl, ?_⟩
    -- the task that joins is in the queue of the semaphore, so it is woken
    obtain ⟨hs', -⟩ | ⟨s, hs', hw⟩ := hsig
    · rw [Kernel.current, hs] at hs'
      cases hs'
    · rw [Kernel.current, hs] at hs'
      cases hs'
      obtain ⟨hn, -⟩ | ⟨u, hw⟩ := hw
      · exact absurd hq (hn j)
      · have hp₁ := hw.placed hp
        have huj : u = j := by
          cases hw with
          | wake hQ hr hu htm hre => exact (hp.wait u _ hQ hr).2.1.join_eq
        subst huj
        have hj₁ : (k₁.tasks u).taskQueue = some .ready ∧ (k₁.tasks u).blockCode = .ok ∧
            (k₁.tasks u).ctx = .joinDown k.taskCurrent ∧ (k₁.tasks u).state = .ready := by
          cases hw with
          | wake hQ hr hu htm hre =>
            obtain ⟨q, rfl, -, -⟩ := hre
            simp [Kernel.woken, Task.blockCode, hc]
        obtain ⟨hq₁, hb₁, hctx₁, hs₁⟩ := hj₁
        have hne₁ : u ≠ k₁.taskCurrent := hp₁.not_current (by simp [hq₁])
        have hj' : ∀ Q, Q ≠ .ready → (k'.tasks u).taskQueue ≠ some Q := by
          intro Q hQ hx
          obtain ⟨h₁, -⟩ | ⟨h₁, -⟩ := ((hm.task u).waiting_iff hp₁.toStanding hQ).mp hx
          · rw [hq₁] at h₁
            exact hQ (Option.some.inj h₁).symm
          · exact hne₁ h₁
        have hlive' : k'.Live u := ((hm.task u).live_iff hp₁.toStanding).mpr
          (Or.inl ⟨hp₁.live u (by simp [hq₁]), fun h => hne₁ h.2⟩)
        have hctx' : (k'.tasks u).ctx = .joinDown k.taskCurrent := by
          obtain h | ⟨h, -⟩ | ⟨h, -⟩ := (hm.task u).ctx_cases
          · exact h.trans hctx₁
          · cases h
          · exact absurd h hne₁
        have hstate : (k'.tasks u).state = .ready := by
          cases hm with
          | @exit _ _ w newTask hnext hd hre =>
            obtain ⟨q, rfl, -, -⟩ := hre
            by_cases hu : u = newTask
            · simpa [Kernel.exited, ← hu, hne₁] using hs₁
            · simpa [Kernel.exited, hu, hne₁] using hs₁
        refine ⟨.signalled hexit.1 hv hlive' hj' ?_ hctx' fun w hw => honly w (hjoins w hw),
          fun _ => ⟨Or.inl hctx', hstate⟩⟩
        obtain h | ⟨Q, -, -, h⟩ | ⟨h, -⟩ | ⟨-, h⟩ := (hm.task u).blockCode_cases
        · exact h.trans hb₁
        · cases h
        · cases h
        · exact absurd h hne₁
  | exited hd => simp [hd, TaskState.live] at hlive
  | signalled hd => simp [hd, TaskState.live] at hlive
  | finishing hd => simp [hd, TaskState.live] at hlive

/-- The call of `os_task_join` by the task `j` while `t` is live. -/
theorem JoinPhase.joins (hl : k.Live t) (hno : ∀ u, ¬ Joins u t k) (ht : Timely k) (hne : j ≠ t)
    (hst : timedSystem.step k (.call (.taskJoin t), r) k') (hj : k.taskCurrent = j) :
    JoinPhase j t k' none := by
  have hp := ht.sound.placed
  obtain ⟨⟨hsane, -⟩, he, hset⟩ := hst
  obtain ⟨n, hn⟩ := hset.exists_eq
  subst hj
  obtain ⟨-, -, ⟨hd, -⟩ | ⟨-, -, hm, hc⟩⟩ := hp.taskJoin_ok hn
  · simp [Kernel.Live, hd, TaskState.live] at hl
  · have hpub := hp.published t
    obtain ⟨-, c, -, htask⟩ := hm.block_current hpub
    have htask : k'.tasks k.taskCurrent = _ := htask
    refine .waiting (live_step ht.sound hsane hn hl (by simp)) ?_ (by rw [htask]) hc ?_ fun u hu => ?_
    · rw [(hm.task t).joinSem_eq (by simp) (by simp)]
      simp [Kernel.published]
    · rw [hm.sems_eq (by simp)]
      simp [Kernel.published, Kernel.setTask, Kernel.setSem]
    · obtain h | ⟨h, -⟩ := hu.of_step ht he hsane hn
      · exact absurd h (hno u)
      · exact h.2

/-- Any other step. -/
theorem JoinPhase.step (h : JoinPhase j t k o) (ht : Timely k) (hm : Matched k) (hne : j ≠ t)
    (hst : timedSystem.step k (i, r) k') (hu : Unshared j t ⟨k, (i, r), k'⟩)
    (hx : ∀ v, ¬ Exits t v ⟨k, (i, r), k'⟩) (hr : ∀ v, ¬ JoinReturns j t v ⟨k, (i, r), k'⟩) :
    JoinPhase j t k' o := by
  have hp := ht.sound.placed
  have hst₀ := hst
  obtain ⟨⟨hsane, -⟩, he, hset⟩ := hst
  obtain ⟨n, hn⟩ := hset.exists_eq
  have hcreate : ∀ p, i ≠ .call (.taskCreate t p) := hu.2
  have hexit : ∀ v, t = k.taskCurrent → i ≠ .call (.taskExit v) := by
    rintro v hc rfl
    have hi : k.isrNesting = 0 := by
      by_contra hi
      rw [Enabled, if_neg hi] at he
      cases he
    exact hx v ⟨⟨hi, hc⟩, rfl⟩
  have hjoins : ∀ u, Joins u t k' → Joins u t k ∨ (i = .call (.taskJoin t) ∧ u = j) := by
    intro u hj
    obtain h | ⟨ha, rfl⟩ := hj.of_step ht he hsane hn
    · exact Or.inl h
    · exact Or.inr ⟨rfl, ha.2.trans (hu.1 rfl)⟩
  have honly' : ∀ u, Joins u t k' → u = j := by
    intro u hj
    obtain h' | ⟨-, rfl⟩ := hjoins u hj
    · exact h.only h'
    · rfl
  -- the steps that touch `joinSem` of `t` are made by `j`
  have hdoes : Does k i (.join t) → ActsIn j k ∧
      ((i = .call (.taskJoin t) ∧ k.current.ctx.outside = true) ∨ (i = .resume ∧ Joins j t k)) := by
    intro hd
    obtain rfl | ⟨rfl, hj⟩ := does_join hd
    · have hi := (hp.taskJoin_ok hn).1
      rw [Enabled, if_pos hi] at he
      exact ⟨⟨hi, (hu.1 rfl).symm⟩, Or.inl ⟨rfl, he⟩⟩
    · have hc := h.only hj
      exact ⟨⟨he.1, hc.symm⟩, Or.inr ⟨rfl, hc ▸ hj⟩⟩
  cases h with
  | before hl hs hno =>
    by_cases hd : Does k i (.join t)
    · obtain ⟨ha, ⟨rfl, -⟩ | ⟨-, hj⟩⟩ := hdoes hd
      · exact .joins hl hno ht hne hst₀ ha.2.symm
      · exact absurd hj (hno j)
    · refine .before (live_step ht.sound hsane hn hl hexit)
        ((joinSem_step ht.sound hsane hn hd hcreate).trans hs) fun u hj => ?_
      obtain h' | ⟨rfl, rfl⟩ := hjoins u hj
      · exact hno u h'
      · exact hd (by simp [Does])
  | waiting hl hs hq hc hz honly =>
    have hj : j ≠ k.taskCurrent := hp.not_current (by simp [hq])
    obtain ⟨hq', hc'⟩ := not_woken ht hm hst₀ hq hc hexit
    refine .waiting (live_step ht.sound hsane hn hl hexit) ?_ hq' hc'
      ((joinSem_sems ht hm hsane hn hc hj hexit).trans hz) honly'
    exact (joinSem_step ht.sound hsane hn (fun hd => hj (hdoes hd).1.2) hcreate).trans hs
  | exited hd hv hs hno =>
    have hnd : ¬ Does k i (.join t) := by
      intro hd'
      obtain ⟨ha, ⟨rfl, -⟩ | ⟨-, hj⟩⟩ := hdoes hd'
      · obtain ⟨-, -, ⟨-, rfl, -⟩ | ⟨hl, -⟩⟩ := hp.taskJoin_ok hn
        · exact hr _ ⟨ha, rfl, Or.inl rfl⟩
        · simp [Kernel.Live, hd, TaskState.live] at hl
      · exact hno j hj
    obtain ⟨h₁, h₂, h₃⟩ := dead_step ht.sound hsane hn hd hnd hcreate
    refine .exited h₁ (h₂.trans hv) (h₃.trans hs) fun u hj => ?_
    obtain h' | ⟨rfl, -⟩ := hjoins u hj
    · exact hno u h'
    · exact hnd (by simp [Does])
  | signalled hd hv hl hq hb hc honly =>
    have hjj : Joins j t k := Or.inl hc
    by_cases ha : ActsIn j k
    · obtain rfl := hjj.resumes ha he
      obtain ⟨hi, rfl⟩ := ha
      obtain ⟨rfl, hc', k₁, hp₁, hcur, hother, -, hmv⟩ | ⟨-, rfl, -⟩ := hjj.resume_ok hp hi hn
      · have hdead : ¬ k₁.Live t := by
          rw [Kernel.Live, hother t (Ne.symm hne), hd]
          simp [TaskState.live]
        obtain ⟨h₁, h₂, -⟩ := (hmv.task t).dead hp₁.toStanding hdead (by simp) (by simp)
        rw [hother t (Ne.symm hne)] at h₁ h₂
        refine .finishing (h₁.trans hd) (h₂.trans hv) ?_ hc' honly'
        exact live_step (i := .resume) ht.sound hsane hn hp.currentLive (by simp)
      · exact absurd ⟨⟨hi, rfl⟩, rfl, Or.inr hjj⟩ (hr _)
    · obtain ⟨h₁, h₂, h₃⟩ := dead_step ht.sound hsane hn hd (fun hd' => ha (hdoes hd').1) hcreate
      have hbs := beside ht.sound ht.awake he hsane hn hl ha
      obtain hun | ⟨Q, c, hw⟩ := hbs.woken
      · refine .signalled h₁ (h₂.trans hv) hbs.live (fun Q hQ hx => ?_) ?_ (hbs.ctx.trans hc) honly'
        · exact hq Q hQ ((hun.queue Q hQ).mp hx)
        · rw [Task.blockCode, hun.retValue]
          exact hb
      · exact absurd hw.waited (hq Q hw.ne_ready)
  | finishing hd hv hl hc honly =>
    have hjj : Joins j t k := Or.inr hc
    by_cases ha : ActsIn j k
    · obtain rfl := hjj.resumes ha he
      obtain ⟨hi, rfl⟩ := ha
      obtain ⟨rfl, hc', -⟩ | ⟨-, rfl, -⟩ := hjj.resume_ok hp hi hn
      · have := resume_joins hp hi hn (t := t) (Or.inr hc')
        rw [Kernel.current, hc] at this
        cases this
      · exact absurd ⟨⟨hi, rfl⟩, rfl, Or.inr hjj⟩ (hr _)
    · obtain ⟨h₁, h₂, -⟩ := dead_step ht.sound hsane hn hd (fun hd' => ha (hdoes hd').1) hcreate
      have hbs := beside ht.sound ht.awake he hsane hn hl ha
      exact .finishing h₁ (h₂.trans hv) hbs.live (hbs.ctx.trans hc) honly'

/-- The return of `os_task_join`. -/
theorem JoinPhase.returns (h : JoinPhase j t k o) (ht : Timely k)
    (hst : timedSystem.step k (i, r) k') {v : ℤ} (hr : JoinReturns j t v ⟨k, (i, r), k'⟩) :
    o = some v ∧ Reusable t k' := by
  have hp := ht.sound.placed
  have ht' := ht.step hst
  have hreuse : (k'.tasks t).state = .invalid → (k'.tasks t).joinSem = none → Reusable t k' := by
    intro h₁ h₂
    have hq : (k'.tasks t).taskQueue = none := by
      by_contra hq
      have := ht'.sound.placed.live t hq
      rw [h₁] at this
      cases this
    refine ⟨h₁, h₂, hq, fun hl => ?_⟩
    obtain ⟨xs, hg⟩ := ht'.guarded
    rw [hg.armed.listed_iff] at hl
    obtain ⟨-, -, Q, hQ, -⟩ := hg.guard t hl
    rw [hq] at hQ
    cases hQ
  obtain ⟨-, he, hset⟩ := hst
  obtain ⟨n, hn⟩ := hset.exists_eq
  obtain ⟨⟨hi, rfl⟩, hrv, hcase⟩ := hr
  have hrv : r = some (.value v) := hrv
  have hcase : i = .call (.taskJoin t) ∨ Joins k.taskCurrent t k := hcase
  subst hrv
  have hjoin : ∀ w, (k.tasks t).retValue = w → Joins k.taskCurrent t k → some w = some v ∧
      Reusable t k' := by
    intro w hw hj
    obtain rfl := hj.resumes ⟨hi, rfl⟩ he
    obtain ⟨h, -⟩ | ⟨-, h, h₁, h₂, -⟩ := hj.resume_ok hp hi hn
    · cases h
    · cases h
      exact ⟨by rw [hw], hreuse h₂ h₁⟩
  cases h with
  | before hl hs hno =>
    obtain rfl | hj := hcase
    · obtain ⟨-, -, ⟨hd, -⟩ | ⟨-, h, -⟩⟩ := hp.taskJoin_ok hn
      · simp [Kernel.Live, hd, TaskState.live] at hl
      · cases h
    · exact absurd hj (hno _)
  | waiting hl hs hq =>
    rw [hp.current] at hq
    cases hq
  | exited hd hv hs hno =>
    obtain rfl | hj := hcase
    · obtain ⟨-, -, ⟨-, h, rfl⟩ | ⟨-, h, -⟩⟩ := hp.taskJoin_ok hn
      · cases h
        exact ⟨by rw [hv], hreuse (by simp) (by simp)⟩
      · cases h
    · exact absurd hj (hno _)
  | signalled hd hv hl hq hb hc honly => exact hjoin _ hv (Or.inl hc)
  | finishing hd hv hl hc honly => exact hjoin _ hv (Or.inr hc)

/-- What a call of `os_task_join` does at once: it returns the value of a task that has exited, and
blocks otherwise. -/
theorem JoinPhase.join_result (h : JoinPhase j t k o) (ht : Timely k) (hne : j ≠ t)
    (hst : timedSystem.step k (.call (.taskJoin t), r) k') (ha : ActsIn j k) :
    (∀ v, o = some v → r = some (.value v)) ∧
      (o = none → r = none ∧ Joins j t k' ∧ (k'.tasks j).state = .wait) := by
  have hp := ht.sound.placed
  have hp' := (ht.step hst).sound.placed
  obtain ⟨hi, rfl⟩ := ha
  have hout : k.current.ctx.outside = true := by
    have he := hst.2.1
    rwa [Enabled, if_pos hi] at he
  obtain ⟨n, hn⟩ := hst.2.2.exists_eq
  cases h with
  | before hl hs hno =>
    obtain ⟨-, -, ⟨hd, -⟩ | ⟨-, rfl, -, hc⟩⟩ := hp.taskJoin_ok hn
    · simp [Kernel.Live, hd, TaskState.live] at hl
    · have hj : Joins k.taskCurrent t k' := Or.inl hc
      refine ⟨fun v hv => (by cases hv), fun _ => ⟨rfl, hj, ?_⟩⟩
      cases JoinPhase.joins hl hno ht hne hst rfl with
      | before hl' hs' hno' => exact absurd hj (hno' _)
      | waiting hl' hs' hq' => exact (hp'.wait _ _ hq' (by simp)).1
  | waiting hl hs hq =>
    rw [hp.current] at hq
    cases hq
  | exited hd hv hs hno =>
    obtain ⟨-, -, ⟨-, rfl, -⟩ | ⟨hl, -⟩⟩ := hp.taskJoin_ok hn
    · refine ⟨fun w hw => ?_, fun h => (by cases h)⟩
      rw [hv, Option.some.inj hw]
    · simp [Kernel.Live, hd, TaskState.live] at hl
  | signalled hd hv hl hq hb hc => simp [Kernel.current, hc, Ctx.outside] at hout
  | finishing hd hv hl hc => simp [Kernel.current, hc, Ctx.outside] at hout

/-- What happens when the task inside `os_task_join` runs: it returns the value, or a more urgent
task runs first, but only once. -/
theorem JoinPhase.resume_result (h : JoinPhase j t k o) (ht : Timely k)
    (hst : timedSystem.step k (.resume, r) k') (ha : ActsIn j k) (hj : Joins j t k) :
    ∃ v, o = some v ∧ (r = some (.value v) ∨ r = none ∧ (k.tasks j).ctx = .joinDown t ∧
      (k'.tasks j).ctx = .joinDestroy t ∧ (k'.tasks j).state = .ready) := by
  have hp := ht.sound.placed
  have hp' := (ht.step hst).sound.placed
  obtain ⟨hi, rfl⟩ := ha
  obtain ⟨n, hn⟩ := hst.2.2.exists_eq
  cases h with
  | before hl hs hno => exact absurd hj (hno _)
  | waiting hl hs hq =>
    rw [hp.current] at hq
    cases hq
  | exited hd hv hs hno => exact absurd hj (hno _)
  | signalled hd hv hl hq hb hc =>
    refine ⟨_, rfl, ?_⟩
    obtain ⟨rfl, hc', k₁, hp₁, hcur, -, -, hmv⟩ | ⟨-, rfl, -⟩ := hj.resume_ok hp hi hn
    · have hlive := live_step (i := .resume) ht.sound hst.1.1 hn hp.currentLive (by simp)
      have hmoved : k.taskCurrent ≠ k'.taskCurrent :=
        fun h => hmv.taskCurrent_ne hp₁ rfl (h.symm.trans hcur.symm)
      have hready := hp'.ready_of_live hlive hmoved fun Q => by simp [hc', Awaits]
      exact Or.inr ⟨rfl, hc, hc', hp'.ready _ hready⟩
    · exact Or.inl (by rw [hv])
  | finishing hd hv hl hc =>
    refine ⟨_, rfl, ?_⟩
    obtain ⟨rfl, hc', -⟩ | ⟨-, rfl, -⟩ := hj.resume_ok hp hi hn
    · have := resume_joins hp hi hn (t := t) (Or.inr hc')
      rw [Kernel.current, hc] at this
      cases this
    · exact Or.inl (by rw [hv])

end Steps

/-! ## No check fails -/

section Totality
variable {k : Kernel} {Q : QueueId} {t : TaskId}

theorem Filed.dequeue_total (hf : Filed k) (hq : (k.tasks t).taskQueue = some Q) :
    ∃ u k', osTaskqueueDequeue Q k = .ok (some u, k') ∧ k.IsFirst Q u ∧
      Realizes (k.setTask u { k.tasks u with taskQueue := none }) k' := by
  have htop : (k.queues Q).tasks.top ≠ 0 := fun h => hf.none_of_top h t hq
  obtain ⟨p, hp⟩ := Nat.exists_eq_succ_of_ne_zero htop
  obtain ⟨u, k', hd, -⟩ := hf.intdequeue_total hp
  have hx : osTaskqueueDequeue Q k = .ok (some u, k') := by
    unfold osTaskqueueDequeue
    rw [hp]
    simp only [hd]
    rfl
  obtain ⟨h, -⟩ | ⟨w, hw, hfst, hre⟩ := hf.dequeue hx
  · cases h
  · cases hw
    exact ⟨u, k', hx, hfst, hre⟩

theorem Placed.blockSwitch_total (hp : Placed k) (hl : (k.queues Q).linked = true)
    (hd : k.taskCurrent ≠ taskIdle) (b : TaskBlock) (c : Ctx) :
    ∃ k', osTaskBlockSwitch Q b c k = .ok k' := by
  have hf := hp.filed.setTask (t := k.taskCurrent)
    (x := { k.current with state := .wait, blockType := b }) rfl fun _ => rfl
  obtain ⟨k₁, hk₁⟩ := osTaskqueueEnqueue_total (k := k.setTask k.taskCurrent
    { k.current with state := .wait, blockType := b }) (by simpa using hl) k.taskCurrent
  obtain ⟨q, rfl, hf₁, -⟩ := hf.enqueue (by simpa [Kernel.current] using hp.current) hk₁
  obtain ⟨u, k₂, hdq, -, -⟩ := hf₁.dequeue_total (t := taskIdle) (Q := .ready)
    (by simpa [Ne.symm hd] using hp.idle_ready hd)
  refine ⟨archContextSwitch u c k₂, ?_⟩
  unfold osTaskBlockSwitch osTaskMakewait
  rw [hk₁, Outcome.ok_bind, hdq]
  rfl

theorem wakeup_total (hl : (k.queues .ready).linked = true) (t : TaskId) (c : RetCode) :
    ∃ k', wakeup t c k = .ok k' :=
  osTaskqueueEnqueue_total (by simpa using hl) t

variable [Port] {j : TaskId} {o : Option ℤ}

/-- A signal to a task that waits without a timeout. -/
theorem semUp_sync_total (hf : Filed k) (hl : (k.queues .ready).linked = true) {s : SemId}
    (hi : k.isrNesting = 0) (hw : k.waitqueueCurrent = none) (hv : k.sems s < Port.atomicMax - 1)
    (hq : (k.tasks t).taskQueue = some (.sem s))
    (htm : ∀ u, (k.tasks u).taskQueue = some (.sem s) → (k.tasks u).timer = none) (c : Ctx) :
    ∃ k', osSemUpSync s true c k = .ok k' ∧ Filed k' ∧
      ∃ u, (k'.tasks u).taskQueue = some .ready := by
  obtain ⟨u, k₁, hdq, hfst, hre⟩ := hf.dequeue_total hq
  have hk₁ : (k₁.tasks u).timer = none ∧ (k₁.tasks u).taskQueue = none ∧ Filed k₁ ∧
      (k₁.queues .ready).linked = true := by
    obtain ⟨q, rfl, hf₁, hl₁⟩ := hre
    exact ⟨by simpa using htm u (hf.first hfst).1, by simp, hf₁, (hl₁ .ready).trans hl⟩
  obtain ⟨htm₁, hq₁, hf₁, hl₁⟩ := hk₁
  obtain ⟨k₂, hk₂⟩ := wakeup_total hl₁ u .ok
  obtain ⟨q, rfl, hf₂, -⟩ := hf₁.wakeup hq₁ hk₂
  refine ⟨_, ?_, hf₂, u, by simp⟩
  unfold osSemUpSync
  rw [osAssert_pos (Or.inl hi), Outcome.ok_bind, osAssert_pos (Or.inr hw), Outcome.ok_bind,
    osAssert_pos hv, Outcome.ok_bind, hdq, Outcome.ok_bind]
  simp only [osBlocktimerDestroy, htm₁, Outcome.ok_bind, hk₂, if_true]
  rfl

/-- An exiting task tells the one that joins it. -/
theorem JoinPhase.signal_total (h : JoinPhase j t k o) (hatom : 1 < Port.atomicMax) (ht : Timely k)
    (ha : ActsIn t k) (hw : k.waitqueueCurrent = none) (hd : t ≠ taskIdle) (v : ℤ) :
    ∃ k', taskExitSignal v k = .ok k' ∧ Filed k' ∧
      ∃ u, (k'.tasks u).taskQueue = some .ready := by
  have hp := ht.sound.placed
  obtain ⟨hi, rfl⟩ := ha
  have hf : Filed (k.setTask k.taskCurrent { k.current with retValue := v, state := .destroyed }) :=
    hp.filed.setTask rfl fun _ => rfl
  have hsem : k.current.joinSem = none ∨ (k.current.joinSem = some (.join j) ∧
      (k.tasks j).taskQueue = some (.sem (.join j)) ∧ (k.tasks j).ctx = .joinDown k.taskCurrent ∧
      k.sems (.join j) = 0) := by
    have hlive := hp.currentLive
    cases h with
    | before hl hs hno => exact Or.inl hs
    | waiting hl hs hq hc hz honly => exact Or.inr ⟨hs, hq, hc, hz⟩
    | exited hd => simp [hd, TaskState.live] at hlive
    | signalled hd => simp [hd, TaskState.live] at hlive
    | finishing hd => simp [hd, TaskState.live] at hlive
  have hjoin : (k.setTask k.taskCurrent
      { k.current with retValue := v, state := .destroyed }).current.joinSem = k.current.joinSem := by
    simp [Kernel.current]
  have hsig : (k.current.joinSem = none ∧ taskExitSignal v k = .ok (k.setTask k.taskCurrent
        { k.current with retValue := v, state := .destroyed })) ∨
      ∃ s, k.current.joinSem = some s ∧ taskExitSignal v k = osSemUpSync s true .exit
        (k.setTask k.taskCurrent { k.current with retValue := v, state := .destroyed }) := by
    rw [← hjoin]
    unfold taskExitSignal
    dsimp only
    split
    · exact Or.inl ⟨‹_›, rfl⟩
    · exact Or.inr ⟨_, ‹_›, rfl⟩
  obtain hs | ⟨hs, hq, hc, hz⟩ := hsem
  · obtain ⟨-, he⟩ | ⟨s, hs', -⟩ := hsig
    · rw [he]
      exact ⟨_, rfl, hf, taskIdle, by simpa [Ne.symm hd] using hp.idle_ready hd⟩
    · rw [hs] at hs'
      cases hs'
  · obtain ⟨hs', -⟩ | ⟨s, hs', he⟩ := hsig
    · rw [hs] at hs'
      cases hs'
    obtain rfl : s = .join j := Option.some.inj (hs'.symm.trans hs)
    rw [he]
    have hne : j ≠ k.taskCurrent := hp.not_current (by simp [hq])
    obtain ⟨xs, hg⟩ := ht.guarded
    refine semUp_sync_total (t := j) hf (by simpa using ht.sound.linked.ready) hi hw ?_
      (by simpa [hne] using hq) (fun u hu => ?_) _
    · have : k.sems (.join j) < Port.atomicMax - 1 := by omega
      exact this
    · -- only the task that joins can be in the queue
      have huc : u ≠ k.taskCurrent := by
        rintro rfl
        simp [hp.current, Kernel.current] at hu
      have hu : (k.tasks u).taskQueue = some (.sem (.join j)) := by simpa [huc] using hu
      obtain rfl := (hp.wait u _ hu (by simp)).2.1.join_eq
      simpa [huc] using hg.timer_none (by rw [hc]; rfl)

theorem JoinPhase.exit_total (h : JoinPhase j t k o) (hatom : 1 < Port.atomicMax) (ht : Timely k)
    (ha : ActsIn t k) (hw : k.waitqueueCurrent = none) (hd : t ≠ taskIdle) (v : ℤ) :
    ∃ k', osTaskExit v k = .ok k' := by
  obtain ⟨k₁, hk₁, hf₁, u, hu⟩ := h.signal_total hatom ht ha hw hd v
  obtain ⟨newTask, k₂, hdq, -, -⟩ := hf₁.dequeue_total hu
  refine ⟨archContextSwitch newTask .exit k₂, ?_⟩
  unfold osTaskExit
  rw [hk₁, Outcome.ok_bind, hdq]
  rfl

omit [Port] in
theorem Filed.dequeue_none (hf : Filed k) (hn : ∀ t, (k.tasks t).taskQueue ≠ some Q) :
    osTaskqueueDequeue Q k = .ok (none, k) := by
  have htop : (k.queues Q).tasks.top = 0 := (hf Q).top_eq_zero.mpr fun t => by
    simp [Kernel.key, hn t]
  unfold osTaskqueueDequeue
  rw [htop]

omit [Port] in
theorem Placed.joinDestroyed_total (hp : Placed k) (hl : k.Linked) (hi : k.isrNesting = 0)
    (hw : k.waitqueueCurrent = none) (hd : (k.tasks t).state = .destroyed) :
    ∃ x, RadOs.joinDestroyed 1 t .ok k = .ok x := by
  have hloop : RadOs.destroyLoop true (.sem (.join k.taskCurrent)) 1 k = .ok k := by
    unfold RadOs.destroyLoop
    rw [hp.filed.dequeue_none hp.no_joiner]
    rfl
  have hq : Move (.queue (.sem (.join k.taskCurrent))) k _ := .queue (b := false) hp.no_joiner rfl
  have hs := Move.sem (k := k.setQueue (.sem (.join k.taskCurrent)) .zero)
    (s := .join k.taskCurrent) (v := 0) rfl
  have hlink : k.unjoined.Linked :=
    hs.linked (hq.placed hp).toStanding (by simp) (hq.linked hp.toStanding (by simp) hl)
  obtain ⟨k₁, hk₁⟩ := hp.unjoined.schedule_total hlink 1 (.joinDestroy t)
  have hdestroy : osSemDestroy 1 (.join k.taskCurrent) (.joinDestroy t) k = .ok k₁ := by
    unfold osSemDestroy
    rw [osAssert_pos hi, Outcome.ok_bind, osAssert_pos hw, Outcome.ok_bind, hloop]
    exact hk₁
  unfold RadOs.joinDestroyed
  rw [osAssert_pos rfl, Outcome.ok_bind]
  simp only [hdestroy, Outcome.ok_bind]
  split
  · rename_i hc
    -- the task has not been switched away
    obtain ⟨rfl, -⟩ | hm := hp.unjoined.schedule hk₁ (Or.inr ⟨t, rfl⟩)
    · unfold RadOs.joinFinish
      rw [osAssert_pos (show (k.unjoined.tasks t).state = .destroyed from hd)]
      exact ⟨_, rfl⟩
    · have hne := hm.taskCurrent_ne hp.unjoined rfl
      exact absurd hc hne
  · exact ⟨_, rfl⟩

theorem JoinPhase.join_total (h : JoinPhase j t k o) (hatom : 1 < Port.atomicMax) (ht : Timely k)
    (hne : j ≠ t) (ha : ActsIn j k) (hout : k.current.ctx.outside = true)
    (hw : k.waitqueueCurrent = none) (hd : j ≠ taskIdle) (hm : k.current.mtxList = []) :
    ∃ x, osTaskJoin 1 t k = .ok x := by
  have hp := ht.sound.placed
  obtain ⟨hi, rfl⟩ := ha
  unfold osTaskJoin
  rw [osAssert_pos hi, Outcome.ok_bind, osAssert_pos hd, Outcome.ok_bind, osAssert_pos hw,
    Outcome.ok_bind]
  cases h with
  | before hl hs hno =>
    have hlive : (k.tasks t).state.live = true := hl
    rw [osAssert_pos hs, Outcome.ok_bind, osAssert_pos (by rintro h; rw [h] at hlive; cases hlive),
      Outcome.ok_bind, if_neg (by intro h; rw [h] at hlive; cases hlive), if_pos hlive]
    have hcreate : osSemCreate (.join k.taskCurrent) 0 k =
        .ok ((k.setQueue (.sem (.join k.taskCurrent)) osTaskqueueInit).setSem
          (.join k.taskCurrent) 0) := by
      unfold osSemCreate
      rw [osAssert_pos (by omega), Outcome.ok_bind, osAssert_pos hw]
      rfl
    obtain ⟨k₁, hk₁⟩ := (hp.published t).blockSwitch_total (Q := .sem (.join k.taskCurrent))
      (by simp [Kernel.published, Kernel.setTask, Kernel.setSem, Kernel.setQueue, osTaskqueueInit])
      hd .sem (.joinDown t)
    have hmtx : (k.published t).current.mtxList = [] := by
      simpa [Kernel.published, Kernel.current, Kernel.setTask, Kernel.setSem, Kernel.setQueue, hne]
        using hm
    have hdown : osSemDown 1 (.join k.taskCurrent) osTimeoutInfinite (.joinDown t)
        (k.published t) = .ok (k₁, none) := by
      unfold osSemDown
      rw [osAssert_pos (show (k.published t).isrNesting = 0 from hi), Outcome.ok_bind,
        osAssert_pos (show (k.published t).taskCurrent ≠ taskIdle from hd), Outcome.ok_bind,
        osAssert_pos (show (k.published t).waitqueueCurrent = none from hw), Outcome.ok_bind,
        osAssert_pos hmtx, Outcome.ok_bind,
        if_neg (by simp [Kernel.published, Kernel.setSem, Kernel.setTask]), if_neg (by decide),
        if_neg (by simp), Outcome.ok_bind, hk₁]
      rfl
    simp only [hcreate, Outcome.ok_bind]
    change ∃ x, (osSemDown 1 (.join k.taskCurrent) osTimeoutInfinite (.joinDown t)
      (k.published t) >>= _) = .ok x
    rw [hdown]
    exact ⟨_, rfl⟩
  | waiting hl hs hq =>
    rw [hp.current] at hq
    cases hq
  | exited hst hv hs hno =>
    rw [osAssert_pos hs, Outcome.ok_bind, osAssert_pos (by simp [hst]), Outcome.ok_bind,
      if_neg (by simp [hst]), if_neg (by simp [hst, TaskState.live])]
    unfold RadOs.joinFinish
    rw [osAssert_pos hst]
    exact ⟨_, rfl⟩
  | signalled hst hv hl hq hb hc => simp [Kernel.current, hc, Ctx.outside] at hout
  | finishing hst hv hl hc => simp [Kernel.current, hc, Ctx.outside] at hout

omit [Port] in
theorem JoinPhase.resume_total (h : JoinPhase j t k o) (ht : Timely k) (htd : Tidy k) (hne : j ≠ t)
    (ha : ActsIn j k) (hj : Joins j t k) : ∃ x, resume 1 k = .ok x := by
  have hp := ht.sound.placed
  obtain ⟨hi, rfl⟩ := ha
  have hw : k.waitqueueCurrent = none := by
    apply htd.waitqueue_none
    obtain hc | hc := hj <;> rw [Kernel.current, hc] <;> rfl
  have hrun := running_move k
  have hst : ∀ {x : TaskState}, (k.tasks t).state = x → (k.running.tasks t).state = x := by
    intro x hx
    simpa [Kernel.running, Kernel.setTask, Ne.symm hne] using hx
  cases h with
  | before hl hs hno => exact absurd hj (hno _)
  | waiting hl hs hq =>
    rw [hp.current] at hq
    cases hq
  | exited hd hv hs hno => exact absurd hj (hno _)
  | signalled hd hv hl hq hb hc honly =>
    obtain ⟨xs, hg⟩ := ht.guarded
    have htm : (k.running.tasks k.taskCurrent).timer = none := by
      simpa [Kernel.running, Kernel.setTask, Kernel.current] using
        hg.timer_none (t := k.taskCurrent) (by rw [hc]; rfl)
    have hret : blockedReturn k = .ok (k.running, .ok) := by
      unfold blockedReturn osBlocktimerDestroy
      rw [htm, Outcome.ok_bind]
      simpa [Kernel.running, Kernel.setTask, Kernel.current, Task.blockCode] using hb
    have hc : k.current.ctx = .joinDown t := hc
    obtain ⟨x, hx⟩ := (hrun.placed hp).joinDestroyed_total (t := t)
      (hrun.linked hp.toStanding (by simp) ht.sound.linked) hi hw (hst hd)
    simp only [resume, hc, hret, Outcome.ok_bind]
    exact ⟨x, hx⟩
  | finishing hd hv hl hc honly =>
    have hc : k.current.ctx = .joinDestroy t := hc
    simp only [resume, hc]
    unfold RadOs.joinFinish
    rw [osAssert_pos (hst hd)]
    exact ⟨_, rfl⟩

end Totality

section Runs
variable [Port] {k k₀ : Kernel} {tr : List KernelStep} {j t : TaskId}

/-- As long as `os_task_join` has not returned. -/
theorem joinPhase_of_run (h₀ : orderlySystem.Reachable k₀) (hl : k₀.Live t)
    (hno : ∀ u, ¬ Joins u t k₀) (hne : j ≠ t) (h : (orderlySystem.startAt k₀).Run tr k)
    (hu : ∀ x ∈ tr, Unshared j t x) (hr : ∀ x ∈ tr, ∀ v, ¬ JoinReturns j t v x) :
    ∃ o, JoinPhase j t k o ∧ (∀ x ∈ tr, ∀ v, Exits t v x → o = some v) ∧
      ∀ v, o = some v → ∃ x ∈ tr, Exits t v x := by
  induction h with
  | start h =>
    cases h
    have hs : (k₀.tasks t).joinSem = none := by
      by_contra hs
      obtain ⟨s, hs⟩ := Option.ne_none_iff_exists'.mp hs
      obtain ⟨u, -, -, hj⟩ := (matched_of_reachable (tidy_of_reachable h₀).1).2 t s hs
      exact hno u hj
    exact ⟨none, .before hl hs hno, by simp, by simp⟩
  | @step tr k k' i hrun hst ih =>
    obtain ⟨i, r⟩ := i
    obtain ⟨o, hph, hall, hex⟩ := ih (fun x hx => hu x (by simp [hx])) fun x hx => hr x (by simp [hx])
    obtain ⟨ht, hm⟩ := matched_of_reachable (tidy_of_reachable (h₀.run hrun)).1
    have hst := orderlySystem_timed hst
    by_cases hx : ∃ v, Exits t v ⟨k, (i, r), k'⟩
    · obtain ⟨v, ha, hi⟩ := hx
      have hi : i = .call (.taskExit v) := hi
      subst hi
      obtain ⟨rfl, hph', -⟩ := hph.exits ht hne hst ha
      refine ⟨some v, hph', fun x hx w hw => ?_, ?_⟩
      · rw [List.mem_cons] at hx
        obtain rfl | hx := hx
        · have hw : Action.call (.taskExit v) = .call (.taskExit w) := hw.2
          cases hw
          rfl
        · cases hall x hx w hw
      · rintro w ⟨⟩
        exact ⟨_, by simp, ha, rfl⟩
    · have hx : ∀ v, ¬ Exits t v ⟨k, (i, r), k'⟩ := not_exists.mp hx
      refine ⟨o, hph.step ht hm hne hst (hu _ (by simp)) hx (hr _ (by simp)), fun x hmem v hv => ?_,
        fun v hv => ?_⟩
      · rw [List.mem_cons] at hmem
        obtain rfl | hmem := hmem
        · exact absurd hv (hx v)
        · exact hall x hmem v hv
      · obtain ⟨x, hmem, hxv⟩ := hex v hv
        exact ⟨x, by simp [hmem], hxv⟩

/-- From a state on in which the task `t` is live and nobody joins it, whatever happens before the
task `j` returns from `os_task_join`. It returns the value of the exit of `t` and nothing before
it. The exit makes a blocked `j` READY, and from then on `j` waits for the processor only and
returns when it runs; a call after the exit returns in this step. No check fails on the way. -/
theorem join_and_exit_agree (hatom : 1 < Port.atomicMax) (h₀ : orderlySystem.Reachable k₀)
    (hl : k₀.Live t) (hno : ∀ u, ¬ Joins u t k₀) (hne : j ≠ t)
    (h : (orderlySystem.startAt k₀).Run tr k) (hu : ∀ x ∈ tr, Unshared j t x)
    (hr : ∀ x ∈ tr, ∀ v, ¬ JoinReturns j t v x) :
    (∀ i r k' v, orderlySystem.step k (i, r) k' → JoinReturns j t v ⟨k, (i, r), k'⟩ →
      (∃ x ∈ tr, Exits t v x) ∧ (∀ x ∈ tr, ∀ w, Exits t w x → w = v) ∧ Reusable t k') ∧
    -- `os_task_exit`
    (∀ v, ActsIn t k → t ≠ taskIdle → Enabled k (.call (.taskExit v)) →
      Orderly k (.call (.taskExit v)) → ∃ k', k.Step (.call (.taskExit v), none) k' ∧
        (Joins j t k → Joins j t k' ∧ (k'.tasks j).state = .ready ∧ k'.Unblocked j)) ∧
    ((∃ x ∈ tr, ∃ v, Exits t v x) → Joins j t k → k.Unblocked j) ∧
    -- the call of `os_task_join`
    (ActsIn j k → j ≠ taskIdle → k.current.mtxList = [] → Enabled k (.call (.taskJoin t)) →
      Orderly k (.call (.taskJoin t)) → ∃ r k', k.Step (.call (.taskJoin t), r) k' ∧
        (∀ x ∈ tr, ∀ v, Exits t v x → r = some (.value v) ∧ Reusable t k') ∧
        ((∀ x ∈ tr, ∀ v, ¬ Exits t v x) →
          r = none ∧ Joins j t k' ∧ (k'.tasks j).state = .wait)) ∧
    -- its end, in one step, or in two if a more urgent task runs in between
    (ActsIn j k → Joins j t k → ∃ r k', k.Step (.resume, r) k' ∧ ∃ x ∈ tr, ∃ v, Exits t v x ∧
      (r = some (.value v) ∧ Reusable t k' ∨ r = none ∧ (k.tasks j).ctx = .joinDown t ∧
        (k'.tasks j).ctx = .joinDestroy t ∧ (k'.tasks j).state = .ready)) := by
  obtain ⟨o, hph, hall, hex⟩ := joinPhase_of_run h₀ hl hno hne h hu hr
  obtain ⟨htr, htd⟩ := tidy_of_reachable (h₀.run h)
  have ht := timely_of_reachable htr
  have hwq : ∀ {c : Call}, k.isrNesting = 0 → c.decides = false → Orderly k (.call c) →
      k.waitqueueCurrent = none := by
    intro c hi hc ho
    apply htd.waitqueue_none
    rw [Bool.eq_false_iff]
    intro hp
    rw [(ho hi).1.mpr hp] at hc
    cases hc
  refine ⟨fun i r k' v hst hret => ?_, fun v ha hd he ho => ?_, fun hx hj => ?_,
    fun ha hd hm he ho => ?_, fun ha hj => ?_⟩
  · obtain ⟨rfl, hreuse⟩ := hph.returns ht (orderlySystem_timed hst) hret
    refine ⟨hex v rfl, fun x hx w hw => ?_, hreuse⟩
    exact (Option.some.inj (hall x hx w hw)).symm
  · obtain ⟨k', hk'⟩ := hph.exit_total hatom ht ha (hwq ha.1 rfl ho) hd v
    have hstep : k.Step (.call (.taskExit v), none) k' := by
      refine ⟨he, (steady_exec (.call (.taskExit v)) k).settles (n := 0) ?_⟩
      change quiet (osTaskExit v k) = _
      rw [hk']
      rfl
    have hsane : k.taskCurrent ≠ taskIdle := ha.2 ▸ hd
    have hst : timedSystem.step k (.call (.taskExit v), none) k' := ⟨⟨hsane, trivial⟩, hstep⟩
    obtain ⟨-, hph', hready⟩ := hph.exits ht hne hst ha
    refine ⟨k', hstep, fun hj => ?_⟩
    obtain ⟨hj', hs'⟩ := hready hj
    exact ⟨hj', hs', hph'.unblocked (ht.step hst).sound.placed hj'⟩
  · obtain ⟨x, hx, v, hv⟩ := hx
    have ho := hall x hx v hv
    exact (ho ▸ hph).unblocked ht.sound.placed hj
  · have hout : k.current.ctx.outside = true := by rwa [Enabled, if_pos ha.1] at he
    obtain ⟨⟨k', r⟩, hx⟩ := hph.join_total hatom ht hne ha hout (hwq ha.1 rfl ho) hd hm
    have hstep : k.Step (.call (.taskJoin t), r) k' :=
      ⟨he, (steady_exec (.call (.taskJoin t)) k).settles hx⟩
    have hst : timedSystem.step k (.call (.taskJoin t), r) k' := ⟨⟨trivial, trivial⟩, hstep⟩
    obtain ⟨hval, hblock⟩ := hph.join_result ht hne hst ha
    refine ⟨r, k', hstep, fun x hx v hv => ?_, fun hnot => hblock ?_⟩
    · have hr := hval v (hall x hx v hv)
      exact ⟨hr, (hph.returns ht hst ⟨ha, hr, Or.inl rfl⟩).2⟩
    · by_contra hne
      obtain ⟨v, hv⟩ := Option.ne_none_iff_exists'.mp hne
      obtain ⟨x, hx, hxv⟩ := hex v hv
      exact hnot x hx v hxv
  · obtain ⟨⟨k', r⟩, hx⟩ := hph.resume_total ht htd hne ha hj
    have hstep : k.Step (.resume, r) k' := by
      refine ⟨⟨ha.1, ?_⟩, (steady_exec .resume k).settles hx⟩
      obtain ⟨-, rfl⟩ := ha
      obtain hc | hc := hj <;> rw [Kernel.current, hc] <;> rfl
    have hst : timedSystem.step k (.resume, r) k' := ⟨⟨trivial, trivial⟩, hstep⟩
    obtain ⟨v, ho, hres⟩ := hph.resume_result ht hst ha hj
    obtain ⟨x, hx, hxv⟩ := hex v ho
    refine ⟨r, k', hstep, x, hx, v, hxv, hres.imp (fun hr => ⟨hr, ?_⟩) id⟩
    exact (hph.returns ht hst ⟨ha, hr, Or.inr hj⟩).2

/-- Nobody is inside `os_task_join` for a task for which it was never called. -/
theorem not_joins_of_run (h : orderlySystem.Run tr k)
    (hn : ∀ x ∈ tr, x.label.1 ≠ .call (.taskJoin t)) (u : TaskId) : ¬ Joins u t k := by
  induction h with
  | start h =>
    cases h
    by_cases hu : u = taskIdle
    · subst hu
      simp [Joins, osInit, coldKernel, Kernel.setTask, Kernel.setQueue, osTaskInit]
    · simp [Joins, osInit, coldKernel, Kernel.setTask, Kernel.setQueue, hu, osTaskInit]
  | @step tr k k' i hrun hst ih =>
    obtain ⟨i, r⟩ := i
    intro hj
    obtain ⟨n, hx⟩ := hst.2.2.exists_eq
    have ht := timely_of_reachable (tidy_of_reachable ⟨tr, hrun⟩).1
    obtain h | ⟨-, rfl⟩ := hj.of_step ht hst.2.1 hst.1.1.1 hx
    · exact ih (fun x hx => hn x (by simp [hx])) h
    · exact hn ⟨k, (.call (.taskJoin t), r), k'⟩ (by simp) rfl

end Runs

/-- The steps of the runs below: the task 2 alone joins the task 1. -/
def JoinStep (x : KernelStep) : Prop :=
  x.label.2 = none ∧ (x.label.1 = .call (.taskExit 7) ∨
    x.pre.taskCurrent = 2 ∧ x.label.1 = .call (.taskJoin 1))

instance JoinStep.decidable : DecidablePred JoinStep := fun _ => inferInstanceAs (Decidable (_ ∧ _))

/-- A run that is played meets what is asked of it. -/
theorem joinRun_of_play {as bs : List Action} {tr₀ tr : List KernelStep} {k₀ k : Kernel}
    (hk₀ : playRun orderlyCheck 10 as [] (osInit coldKernel) = .ok (tr₀, k₀))
    (hn : ∀ x ∈ tr₀, x.label.1 ≠ .call (.taskJoin 1))
    (hk : playRun orderlyCheck 10 bs [] k₀ = .ok (tr, k)) (hin : ∀ x ∈ tr, JoinStep x) :
    orderlySystem.Reachable k₀ ∧ (∀ u, ¬ Joins u 1 k₀) ∧ (orderlySystem.startAt k₀).Run tr k ∧
      (∀ x ∈ tr, Unshared 2 1 x) ∧ ∀ x ∈ tr, ∀ v, ¬ JoinReturns 2 1 v x := by
  have hrun₀ : orderlySystem.Run tr₀ k₀ :=
    run_of_playRun (P := fun k i => (Sane k i.1 ∧ Typed i.1) ∧ Orderly k i.1)
      (fun _ _ h => h.1.1) (fun _ _ _ hs h => orderly_of_check hs h) (.start rfl) hk₀
  have h₀ : orderlySystem.Reachable k₀ := ⟨tr₀, hrun₀⟩
  have hrun : (orderlySystem.startAt k₀).Run tr k :=
    run_startAt_of_playRun (P := fun k i => (Sane k i.1 ∧ Typed i.1) ∧ Orderly k i.1)
      (fun _ _ h => h.1.1) (fun _ _ _ hs h => orderly_of_check hs h) h₀ (.start rfl) hk
  refine ⟨h₀, not_joins_of_run hrun₀ hn, hrun, fun x hx => ?_, fun x hx v hv => ?_⟩
  · obtain ⟨-, h | ⟨hcur, h⟩⟩ := hin x hx
    · exact ⟨fun hj => absurd (h.symm.trans hj) (by simp), fun p => by simp [h]⟩
    · exact ⟨fun _ => hcur, fun p => by simp [h]⟩
  · cases (hin x hx).1.symm.trans hv.2.1

/-- The task 1 exits while the task 2 is blocked in `os_task_join`, and before it is called. -/
theorem join_and_exit_agree_blocked :
    (∃ k₀ tr k k', (orderlySystem.startAt k₀).Run tr k ∧ Joins 2 1 k ∧
      k.Step (.call (.taskExit 7), none) k' ∧ (k'.tasks 2).state = .ready) ∧
    (∃ k₀ tr k r k', (orderlySystem.startAt k₀).Run tr k ∧ orderlySystem.step k (.resume, r) k' ∧
      JoinReturns 2 1 7 ⟨k, (.resume, r), k'⟩ ∧ (∃ x ∈ tr, Exits 1 7 x) ∧ Reusable 1 k') ∧
    ∃ k₀ tr k k', (orderlySystem.startAt k₀).Run tr k ∧ (∃ x ∈ tr, Exits 1 7 x) ∧
      k.Step (.call (.taskJoin 1), some (.value 7)) k' ∧ Reusable 1 k' := by
  obtain ⟨⟨tr₀, k₀⟩, hk₀, hx₀⟩ := Outcome.exists_of_holds
    (x := playRun orderlyCheck 10 [.call (.taskCreate 1 1), .call (.taskCreate 2 2), .call .start,
      .resume] [] (osInit coldKernel))
    (p := fun x₀ => decide (x₀.2.Live 1 ∧ ∀ x ∈ x₀.1, x.label.1 ≠ .call (.taskJoin 1)) &&
      (playRun orderlyCheck 10 [.call (.taskJoin 1)] [] x₀.2).holds
        (fun y₀ => decide (Enabled y₀.2 (.call (.taskExit 7)) ∧
          Orderly y₀.2 (.call (.taskExit 7)) ∧ ActsIn 1 y₀.2 ∧ Joins 2 1 y₀.2 ∧
          ∀ x ∈ y₀.1, JoinStep x)) &&
      (playRun orderlyCheck 10 [.call (.taskJoin 1), .call (.taskExit 7)] [] x₀.2).holds
        fun y₀ => decide (Enabled y₀.2 .resume ∧ ActsIn 2 y₀.2 ∧ Joins 2 1 y₀.2 ∧
          ∀ x ∈ y₀.1, JoinStep x) &&
        orderlyCheck y₀.2 .resume && (exec 10 .resume y₀.2).holds fun z =>
          decide (z.2 = some (.value 7))) (by decide +kernel)
  obtain ⟨⟨tr₁, k₁⟩, hk₁, hx₁⟩ := Outcome.exists_of_holds
    (x := playRun orderlyCheck 10 [.call (.taskCreate 1 2), .call (.taskCreate 2 1), .call .start,
      .resume] [] (osInit coldKernel))
    (p := fun x₀ => decide (x₀.2.Live 1 ∧ ∀ x ∈ x₀.1, x.label.1 ≠ .call (.taskJoin 1)) &&
      (playRun orderlyCheck 10 [.call (.taskExit 7)] [] x₀.2).holds
        (fun y₀ => decide (Enabled y₀.2 (.call (.taskJoin 1)) ∧
          Orderly y₀.2 (.call (.taskJoin 1)) ∧ ActsIn 2 y₀.2 ∧ y₀.2.current.mtxList = [] ∧
          (∃ x ∈ y₀.1, Exits 1 7 x) ∧ ∀ x ∈ y₀.1, JoinStep x))) (by decide +kernel)
  rw [Bool.and_eq_true, Bool.and_eq_true] at hx₀
  rw [Bool.and_eq_true] at hx₁
  obtain ⟨⟨hx₀, hb⟩, hx⟩ := hx₀
  obtain ⟨hl, hn⟩ := of_decide_eq_true hx₀
  refine ⟨?_, ?_, ?_⟩
  · obtain ⟨⟨tr, k⟩, hk, hx⟩ := Outcome.exists_of_holds hb
    obtain ⟨he, ho, ha, hj, hin⟩ := of_decide_eq_true hx
    obtain ⟨h₀, hno, hrun, hu, hnot⟩ := joinRun_of_play hk₀ hn hk hin
    obtain ⟨k', hst, hready⟩ := (join_and_exit_agree (by decide) h₀ hl hno (by decide) hrun hu
      hnot).2.1 7 ha (by decide) he ho
    exact ⟨k₀, tr, k, k', hrun, hj, hst, (hready hj).2.1⟩
  · obtain ⟨⟨tr, k⟩, hk, hx⟩ := Outcome.exists_of_holds hx
    rw [Bool.and_eq_true, Bool.and_eq_true] at hx
    obtain ⟨⟨k', r⟩, hk', hr⟩ := Outcome.exists_of_holds hx.2
    obtain ⟨he, ha, hj, hin⟩ := of_decide_eq_true hx.1.1
    have hr : r = some (.value 7) := of_decide_eq_true hr
    obtain ⟨h₀, hno, hrun, hu, hnot⟩ := joinRun_of_play hk₀ hn hk hin
    have hs := (timely_of_reachable (tidy_of_reachable (h₀.run hrun)).1).sound
    have hst : orderlySystem.step k (.resume, r) k' :=
      ⟨orderly_of_check hs hx.1.2, he, (steady_exec .resume k).settles hk'⟩
    have hret : JoinReturns 2 1 7 ⟨k, (.resume, r), k'⟩ := ⟨ha, hr, Or.inr hj⟩
    obtain ⟨hexit, -, hreuse⟩ := (join_and_exit_agree (by decide) h₀ hl hno (by decide) hrun hu
      hnot).1 .resume r k' 7 hst hret
    exact ⟨k₀, tr, k, r, k', hrun, hst, hret, hexit, hreuse⟩
  · obtain ⟨⟨tr, k⟩, hk, hx⟩ := Outcome.exists_of_holds hx₁.2
    obtain ⟨hl, hn⟩ := of_decide_eq_true hx₁.1
    obtain ⟨he, ho, ha, hm, ⟨x, hx, hxv⟩, hin⟩ := of_decide_eq_true hx
    obtain ⟨h₀, hno, hrun, hu, hnot⟩ := joinRun_of_play hk₁ hn hk hin
    obtain ⟨r, k', hst, hval, -⟩ := (join_and_exit_agree (by decide) h₀ hl hno (by decide) hrun
      hu hnot).2.2.2.1 ha (by decide) hm he ho
    obtain ⟨rfl, hreuse⟩ := hval x hx 7 hxv
    exact ⟨k₁, tr, k, k', hrun, ⟨x, hx, hxv⟩, hst, hreuse⟩

end RadOs
