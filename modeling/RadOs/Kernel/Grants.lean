import RadOs.Kernel.Owners

/-! # What `os_mtx_lock` returns

The code of a task that waits for a mutex is written by the one who wakes it,
and read by the task when it runs again. In between the mutex may be destroyed
and created anew, and change its owner many times. Still the code says whether
the task owns it.
-/

namespace RadOs
open Bucketed Runs Budget

section General
variable [Port]

/-- The kernel with programs in which no task exits while it owns a mutex. -/
def ownerSystem : System Kernel (Action × Option Ret) :=
  kernelSystem.restrict fun k i => (Sane k i.1 ∧ Typed i.1) ∧ Unburdened k i.1

/-- The mutex `m` was destroyed while the task `t` waited for it, and `t` has not run since. -/
def DestroyedMeanwhile (t : TaskId) (m : MtxId) : List KernelStep → Prop
  | [] => False
  | x :: tr =>
    (x.label.1 = .call (.mtxDestroy m) ∧ (x.pre.tasks t).taskQueue = some (.mtx m)) ∨
      (¬ ActsIn t x.pre ∧ DestroyedMeanwhile t m tr)

/-- A call of `os_mtx_lock` returns the code `c`, at once or after a wait. -/
def LockReturns (m : MtxId) (c : RetCode) (x : KernelStep) : Prop :=
  x.label.2 = some (.code c) ∧
    (x.label.1 = .call (.mtxLock m) ∨ (x.label.1 = .resume ∧ x.pre.current.ctx = .mtxLock m))

/-- An unlock of the last level of a mutex that tasks are waiting for. -/
def HandsOver (m : MtxId) (x : KernelStep) : Prop :=
  x.label.1 = .call (.mtxUnlock m) ∧ ((x.pre.mtxs m).recur + 255) % 256 = 0 ∧
    ∃ t, (x.pre.tasks t).taskQueue = some (.mtx m)

/-- What is known about the tasks behind the block switch of `os_mtx_lock`. -/
structure Locking (tr : List KernelStep) (k : Kernel) : Prop where
  lost : ∀ t m, DestroyedMeanwhile t m tr →
    Roused t (.mtxLock m) .destroyed k ∧ (k.mtxs m).owner ≠ some t
  locking : ∀ t m, k.Live t → (k.tasks t).ctx = .mtxLock m →
    (k.tasks t).taskQueue = some (.mtx m) ∨
      (Roused t (.mtxLock m) .ok k ∧ (k.mtxs m).owner = some t) ∨ DestroyedMeanwhile t m tr

section Steps
variable {tr : List KernelStep} {k k' : Kernel} {i : Action} {n : ℕ} {r : Option Ret} {m : MtxId}
  {t : TaskId}

theorem ownerSystem_timed {i : Action × Option Ret} (h : ownerSystem.step k i k') :
    timedSystem.step k i k' := ⟨h.1.1, h.2⟩

omit [Port] in
theorem does_wake_mtx {c : RetCode} (h : Does k i (.wake t (.mtx m) c)) :
    i = .call (.mtxUnlock m) ∧ c = .ok ∨ i = .call (.mtxDestroy m) ∧ c = .destroyed ∨
      i = .call .tick ∧ c = .timeout := by
  revert h
  cases i with
  | call d => cases d <;> simp +contextual [Does]
  | resume => simp [Does, Placed.JoinEnd]
  | isrEnter => simp [Does]
  | isrExit => simp [Does]

/-- A wait for a mutex has no timeout. -/
theorem tick_keeps_mtx (ht : Timely k) (hst : timedSystem.step k (.call .tick, r) k')
    (hq : (k.tasks t).taskQueue = some (.mtx m)) : (k'.tasks t).taskQueue = some (.mtx m) := by
  obtain ⟨⟨hsane, hty⟩, he, hset⟩ := hst
  obtain ⟨n, hn⟩ := hset.exists_eq
  obtain ⟨xs, hg⟩ := ht.guarded
  obtain ⟨ys, hgd⟩ := hg.exec ht.sound ht.awake he hsane hty hn
  obtain ⟨k₁, hp₁, hsch, -, hsame⟩ := hgd.tick rfl
  rw [hsch.waiting_iff hp₁ (by simp), hsame t, hq]
  rintro ⟨hm, -⟩
  obtain ⟨-, -, Q, hQ, hgs⟩ := hg.guard t hm
  rw [hq] at hQ
  exact hgs.ne_mtx (Option.some.inj hQ).symm

/-- Who wakes a task that waits for a mutex, and who owns the mutex then. -/
theorem woken_mtx (ht : Timely k) (htl : Titled k) (hst : timedSystem.step k (i, r) k')
    {c : RetCode} (hw : Woken k i t (.mtx m) c (k'.tasks t)) :
    (c = .ok ∧ i = .call (.mtxUnlock m) ∧ (k'.mtxs m).owner = some t) ∨
      (c = .destroyed ∧ i = .call (.mtxDestroy m) ∧ (k'.mtxs m).owner ≠ some t) := by
  obtain ⟨n, hn⟩ := hst.2.2.exists_eq
  have hd := htl.deeds_step ht.sound hst.1.1 hn
  obtain ⟨rfl, rfl⟩ | ⟨rfl, rfl⟩ | ⟨rfl, -⟩ := does_wake_mtx hw.does
  · refine Or.inl ⟨rfl, rfl, ?_⟩
    cases hd with
    | same h hu =>
      have := (hu m rfl).2
      exact absurd (this ▸ hw.waited) (hw.gone _ (by simp))
    | taken hi => cases hi
    | released hi hn ho hno hu h =>
      obtain hi | hi := hi
      · cases hi
        exact absurd hw.waited (hu rfl t)
      · cases hi
    | @handed m' u hi hn ho hf hq h =>
      cases hi
      have hu : t = u := by
        by_contra hne
        exact hw.gone _ (by simp) ((hq t).mpr ⟨hw.waited, hne⟩)
      change k'.deeds.owner m = some t
      rw [h, hu]
      simp [Deeds.take]
  · refine Or.inr ⟨rfl, rfl, fun ho => ?_⟩
    obtain ho | ⟨hi, -⟩ | ⟨hi, -⟩ := hd.owner_cases ho
    · exact htl.waiter t m hw.waited ho
    · cases hi
    · cases hi
  · exact absurd (tick_keeps_mtx ht hst hw.waited) (hw.gone _ (by simp))

theorem Locking.step (h : Locking tr k) (ht : Timely k) (htl : Titled k)
    (hst : timedSystem.step k (i, r) k') : Locking (⟨k, (i, r), k'⟩ :: tr) k' := by
  have hst' := hst
  obtain ⟨⟨hsane, -⟩, he, hset⟩ := hst'
  obtain ⟨n, hn⟩ := hset.exists_eq
  have hp := ht.sound.placed
  have ht' := ht.step hst
  have hd := htl.deeds_step ht.sound hsane hn
  refine ⟨fun t m hD => ?_, fun t m hl hc => ?_⟩
  · obtain ⟨hi, hq⟩ | ⟨ha, hD⟩ := hD
    · -- the step wakes all tasks that wait for the mutex
      have hi : i = .call (.mtxDestroy m) := hi
      subst hi
      have hq : (k.tasks t).taskQueue = some (.mtx m) := hq
      have ha : ¬ ActsIn t k := fun ha => hp.not_current (by simp [hq]) ha.2
      have hctx : (k.tasks t).ctx = .mtxLock m := by
        obtain ⟨-, hw, -⟩ := hp.wait t _ hq (by simp)
        generalize (k.tasks t).ctx = d at hw
        cases d <;> simp_all [Awaits]
      have hb := beside ht.sound ht.awake he hsane hn (hp.live t (by simp [hq])) ha
      obtain hu | ⟨Q, c, hw⟩ := hb.woken
      · exact absurd ((hu.queue _ (by simp)).mpr hq)
          (mtxDestroy_waiting hp ht.sound.owned (quiet_ok hn).1 t)
      · obtain rfl : Q = .mtx m := Option.some.inj (hw.waited.symm.trans hq)
        obtain ⟨-, hi, -⟩ | ⟨rfl, -, ho⟩ := woken_mtx ht htl hst hw
        · cases hi
        · exact ⟨(roused_iff rfl ht hst ha).mpr (Or.inr ⟨hctx, _, hw⟩), ho⟩
    · obtain ⟨hr, ho⟩ := h.lost t m hD
      have ha : ¬ ActsIn t k := ha
      refine ⟨(roused_iff rfl ht hst ha).mpr (Or.inl hr), fun ho' => ?_⟩
      obtain ho' | ⟨-, -, ha'⟩ | ⟨-, hf, -⟩ := hd.owner_cases ho'
      · exact ho ho'
      · exact ha ha'
      · exact hr.queue _ (by simp) (hp.filed.first hf).1
  · by_cases ha : ActsIn t k
    · -- its own step has brought it there
      obtain ⟨hi, rfl⟩ := ha
      obtain ⟨Q, hr, -, hQ⟩ := blocks_of_waits ht.sound he hsane hn hi (by rw [hc]; rfl)
      obtain ⟨-, hw, -⟩ := ht'.sound.placed.wait _ Q hQ hr
      rw [hc] at hw
      cases hw
      exact Or.inl hQ
    · by_cases hlk : k.Live t
      · have hb := beside ht.sound ht.awake he hsane hn hlk ha
        have hck := hb.ctx.symm.trans hc
        obtain hq | ⟨hr, ho⟩ | hD := h.locking t m hlk hck
        · obtain hu | ⟨Q, c, hw⟩ := hb.woken
          · exact Or.inl ((hu.queue _ (by simp)).mpr hq)
          · obtain rfl : Q = .mtx m := Option.some.inj (hw.waited.symm.trans hq)
            obtain ⟨rfl, -, ho⟩ | ⟨rfl, hi, -⟩ := woken_mtx ht htl hst hw
            · exact Or.inr (Or.inl
                ⟨(roused_iff rfl ht hst ha).mpr (Or.inr ⟨hck, _, hw⟩), ho⟩)
            · exact Or.inr (Or.inr (Or.inl ⟨hi, hq⟩))
        · exact Or.inr (Or.inl ⟨(roused_iff rfl ht hst ha).mpr (Or.inl hr), hd.owner_kept ho ha⟩)
        · exact Or.inr (Or.inr (Or.inr ⟨ha, hD⟩))
      · rw [ctx_of_created ht.sound hsane hn hlk hl] at hc
        cases hc

/-- The return of a lock. -/
theorem Locking.returns (h : Locking tr k) (ht : Timely k) (hst : timedSystem.step k (i, r) k')
    {c : RetCode} (hret : LockReturns m c ⟨k, (i, r), k'⟩) :
    (c = .ok → (k'.mtxs m).owner = some k.taskCurrent) ∧
      (c = .destroyed ↔ DestroyedMeanwhile k.taskCurrent m tr) ∧
      (c = .destroyed → (k'.mtxs m).owner ≠ some k.taskCurrent) := by
  have hp := ht.sound.placed
  obtain ⟨-, he, hset⟩ := hst
  obtain ⟨n, hn⟩ := hset.exists_eq
  obtain ⟨hr, hi⟩ := hret
  have hr : r = some (.code c) := hr
  subst hr
  obtain hi | ⟨hi, hctx⟩ := hi
  · -- it returns at once, and nobody was waiting
    have hi : i = .call (.mtxLock m) := hi
    subst hi
    obtain ⟨hc, ho, -⟩ | ⟨hc, -⟩ := lock_cases hp hn
    · cases hc
      refine ⟨fun _ => ho, iff_of_false (by simp) fun hD => ?_, fun h => (by cases h)⟩
      have hctx : k.current.ctx = .mtxLock m := (h.lost _ m hD).1.ctx
      have hi := (exec_returns hp he hn).2.1
      rw [Enabled, if_pos hi, hctx] at he
      cases he
    · cases hc
  · have hi : i = .resume := hi
    subst hi
    have hctx : k.current.ctx = .mtxLock m := hctx
    simp only [exec, resume, hctx] at hn
    obtain ⟨rfl, hc⟩ : k.running.setCtx .user = k' ∧ k.current.blockCode = c := by
      simpa using hn
    change (c = .ok → (k.mtxs m).owner = some k.taskCurrent) ∧ _ ∧
      (c = .destroyed → (k.mtxs m).owner ≠ some k.taskCurrent)
    obtain hq | ⟨hrs, ho⟩ | hD := h.locking _ m hp.currentLive hctx
    · rw [hp.current] at hq
      cases hq
    · obtain rfl : .ok = c := hrs.code.symm.trans hc
      refine ⟨fun _ => ho, iff_of_false (by simp) fun hD => ?_, fun h => (by cases h)⟩
      cases hrs.code.symm.trans (h.lost _ m hD).1.code
    · obtain ⟨hrs, ho⟩ := h.lost _ m hD
      obtain rfl : .destroyed = c := hrs.code.symm.trans hc
      exact ⟨fun h => (by cases h), iff_of_true rfl hD, fun _ => ho⟩

/-- A mutex that tasks are waiting for is never free. -/
theorem handsOver_first (ht : Timely k) (htl : Titled k) (hst : timedSystem.step k (i, r) k')
    (hx : HandsOver m ⟨k, (i, r), k'⟩) :
    ∃ t, k.IsFirst (.mtx m) t ∧ (k'.mtxs m).owner = some t := by
  obtain ⟨n, hn⟩ := hst.2.2.exists_eq
  obtain ⟨hi, hrec, t, hq⟩ := hx
  have hi : i = .call (.mtxUnlock m) := hi
  subst hi
  cases htl.deeds_step ht.sound hst.1.1 hn with
  | same h hu => exact absurd hrec (hu m rfl).1
  | taken hi => cases hi
  | released hi h₀ ho hw hu h =>
    obtain hi | hi := hi
    · cases hi
      exact absurd hq (hu rfl t)
    · cases hi
  | @handed m' u hi h₀ ho hf hqq h =>
    cases hi
    refine ⟨u, hf, ?_⟩
    change k'.deeds.owner m = some u
    rw [h]
    simp [Deeds.take]

end Steps

section Runs
variable {tr : List KernelStep} {k : Kernel}

theorem ownerSystem_run (h : ownerSystem.Run tr k) : timedSystem.Run tr k :=
  h.mono (fun _ h => h) fun _ _ _ => ownerSystem_timed

omit [Port] in
theorem titled_init : Titled (osInit coldKernel) := by
  have hlist : ∀ t, ((osInit coldKernel).tasks t).mtxList = [] := by
    intro t
    by_cases ht : t = taskIdle <;>
      simp [osInit, coldKernel, Kernel.setTask, Kernel.setQueue, osTaskInit, ht]
  refine ⟨⟨fun m t => ?_, fun t => ?_⟩, fun t _ => hlist t, fun t m _ => ?_⟩
  · have ho : ((osInit coldKernel).mtxs m).owner = none := rfl
    simp [hlist, ho]
  · simp [hlist]
  · simp [osInit, coldKernel, Kernel.setTask, Kernel.setQueue, Mtx.zero]

theorem titled_of_run (h : ownerSystem.Run tr k) : Titled k ∧ Locking tr k := by
  refine h.invariant (I := fun tr k => Titled k ∧ Locking tr k) ?_ ?_
  · rintro k rfl
    refine ⟨titled_init, nofun, fun t m _ hc => ?_⟩
    by_cases ht : t = taskIdle <;>
      simp [osInit, coldKernel, Kernel.setTask, Kernel.setQueue, osTaskInit, ht] at hc
  · rintro tr k ⟨i, r⟩ k' hrun ⟨htl, hlk⟩ hst
    have ht := timely_of_reachable ⟨tr, ownerSystem_run hrun⟩
    obtain ⟨n, hn⟩ := hst.2.2.exists_eq
    exact ⟨htl.step ht.sound hst.1.1.1 hst.1.2 hn, hlk.step ht htl (ownerSystem_timed hst)⟩

/-- The two records of ownership agree, a mutex with waiting tasks has another owner, a lock
returns what is true of the mutex, and an unlock gives it to the first of the waiting tasks. -/
theorem mtx_ownership_exclusive (h : ownerSystem.Run tr k) :
    (∀ m t, (k.mtxs m).owner = some t ↔
      (k.tasks t).mtxList.count m = 1 ∧ ∀ u, u ≠ t → m ∉ (k.tasks u).mtxList) ∧
    (∀ m t, (k.tasks t).taskQueue = some (.mtx m) →
      ∃ o, (k.mtxs m).owner = some o ∧ (k.tasks o).taskQueue ≠ some (.mtx m)) ∧
    System.Along (fun tr x => ∀ m c, LockReturns m c x →
      (c = .ok → (x.post.mtxs m).owner = some x.pre.taskCurrent) ∧
      (c = .destroyed ↔ DestroyedMeanwhile x.pre.taskCurrent m tr) ∧
      (c = .destroyed → (x.post.mtxs m).owner ≠ some x.pre.taskCurrent)) tr ∧
    System.Along (fun _ x => ∀ m, HandsOver m x →
      ∃ t, x.pre.IsFirst (.mtx m) t ∧ (x.post.mtxs m).owner = some t) tr := by
  have hs := (timely_of_reachable ⟨tr, ownerSystem_run h⟩).sound
  obtain ⟨htl, -⟩ := titled_of_run h
  refine ⟨fun m t => htl.agree.owner_iff_count, fun m t hq => ?_, ?_, ?_⟩
  · obtain ⟨o, ho⟩ := Option.ne_none_iff_exists'.mp (hs.owned t m hq)
    exact ⟨o, ho, fun hw => htl.waiter o m hw ho⟩
  · refine h.along fun tr k i k' hrun hst m c hret => ?_
    have ht := timely_of_reachable ⟨tr, ownerSystem_run hrun⟩
    exact (titled_of_run hrun).2.returns ht (ownerSystem_timed hst) hret
  · refine h.along fun tr k i k' hrun hst m hx => ?_
    have ht := timely_of_reachable ⟨tr, ownerSystem_run hrun⟩
    exact handsOver_first ht (titled_of_run hrun).1 (ownerSystem_timed hst) hx

def ownerCheck (k : Kernel) (i : Action) : Bool := timedCheck k i && decide (Unburdened k i)

omit [Port] in
theorem owner_of_check (hs : Sound k) {i : Action} (h : ownerCheck k i = true) :
    (Sane k i ∧ Typed i) ∧ Unburdened k i := by
  rw [ownerCheck, Bool.and_eq_true, decide_eq_true_eq] at h
  exact ⟨timed_of_check hs h.1, h.2⟩

end Runs

end General

/-- The task 1 destroys the mutex 0, for which the task 2 is waiting. -/
def destroyedRun : List Action :=
  [.call (.mtxCreate 0), .call (.taskCreate 1 1), .call .start, .resume, .call (.mtxLock 0),
    .call (.taskCreate 2 2), .call (.mtxLock 0), .resume, .call (.mtxDestroy 0), .resume]

theorem mtx_ownership_exclusive_destroyed : ∃ tr x k, ownerSystem.Run (x :: tr) k ∧
    x.pre.taskCurrent = 2 ∧ LockReturns 0 .destroyed x ∧ DestroyedMeanwhile 2 0 tr ∧
    (x.post.mtxs 0).owner ≠ some 2 := by
  obtain ⟨⟨tr, k⟩, hk, hx⟩ := Outcome.exists_of_holds
    (x := playRun ownerCheck 10 destroyedRun [] (osInit coldKernel))
    (p := fun (tr, _) => match tr with
      | [] => false
      | x :: _ => decide (x.pre.taskCurrent = 2 ∧ x.label = (.resume, some (.code .destroyed)) ∧
        x.pre.current.ctx = .mtxLock 0)) (by decide +kernel)
  have hr : ownerSystem.Run tr k := run_of_playRun
    (P := fun k i => (Sane k i.1 ∧ Typed i.1) ∧ Unburdened k i.1) (fun _ _ h => h.1.1)
    (fun _ _ _ hs h => owner_of_check hs h) (.start rfl) hk
  cases tr with
  | nil => cases hx
  | cons x tr =>
    obtain ⟨hc, hl, hctx⟩ := of_decide_eq_true hx
    have hret : LockReturns 0 .destroyed x := by simp [LockReturns, hl, hctx]
    obtain ⟨-, hD, ho⟩ := (mtx_ownership_exclusive hr).2.2.1.1 0 .destroyed hret
    rw [hc] at hD ho
    exact ⟨tr, x, k, hr, hc, hret, hD.mp rfl, ho rfl⟩

end RadOs
