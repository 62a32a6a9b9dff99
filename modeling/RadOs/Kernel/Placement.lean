import RadOs.Kernel.Play

/-! # Every task is in exactly one place -/

namespace RadOs
open Bucketed Runs Budget

section General
variable [Port]

/-- A live task is running and in no queue, or it is in one queue, once, in the bucket of its
priority; that queue is the ready queue or the task waits there. -/
def InPlace (k : Kernel) (t : TaskId) : Prop :=
  (t = k.taskCurrent ∧ (k.tasks t).taskQueue = none ∧
    ∀ Q p, t ∉ (k.queues Q).tasks.bucket p) ∨
  (t ≠ k.taskCurrent ∧ ∃ Q, (k.tasks t).taskQueue = some Q ∧
    (Q = .ready ∨ (k.tasks t).state = .wait) ∧
    ∀ Q' p, ((k.queues Q').tasks.bucket p).count t =
      if Q' = Q ∧ p = (k.tasks t).prioCurrent then 1 else 0)

section Places
variable {k k' : Kernel}

omit [Port] in
theorem Placed.inPlace (hp : Placed k) {t : TaskId} (hl : k.Live t) : InPlace k t := by
  by_cases ht : t = k.taskCurrent
  · refine Or.inl ⟨ht, ht ▸ hp.current, fun Q p hm => ?_⟩
    rw [hp.filed.mem, ht, hp.current] at hm
    exact absurd hm.1 (by simp)
  · obtain ⟨Q, hQ⟩ := Option.ne_none_iff_exists'.mp (hp.elsewhere t hl ht)
    refine Or.inr ⟨ht, Q, hQ, ?_, fun Q' p => ?_⟩
    · by_cases hr : Q = .ready
      · exact Or.inl hr
      · exact Or.inr (hp.wait t Q hQ hr).1
    · split
      · rename_i he
        obtain ⟨rfl, rfl⟩ := he
        exact List.count_eq_one_of_mem ((hp.filed Q').nodup _) (hp.filed.mem.mpr ⟨hQ, rfl⟩)
      · rename_i he
        rw [List.count_eq_zero, hp.filed.mem, hQ]
        rintro ⟨h₁, h₂⟩
        cases h₁
        exact he ⟨rfl, h₂.symm⟩

omit [Port] in
/-- With the idle task in the ready queue the next task to run is always found. -/
theorem Filed.dequeue_some (hf : Filed k) (hi : (k.tasks taskIdle).taskQueue = some .ready) :
    ∃ t k', osTaskqueueDequeue .ready k = .ok (some t, k') := by
  unfold osTaskqueueDequeue
  split
  · rename_i h0
    have := (hf .ready).top_eq_zero.mp h0 taskIdle
    simp [Kernel.key, hi] at this
  · rename_i p hp
    obtain ⟨t, k', hd, -⟩ := hf.intdequeue_total hp
    exact ⟨t, k', by rw [hd]; rfl⟩

omit [Port] in
theorem Placed.makewait_dequeue (hp : Placed k) (hc : k.taskCurrent ≠ taskIdle) {Q : QueueId}
    {b : TaskBlock} (h : osTaskMakewait Q b k = .ok k') :
    ∃ t k₁, osTaskqueueDequeue .ready k' = .ok (some t, k₁) := by
  have hf := hp.filed.setTask (t := k.taskCurrent)
    (x := { k.current with state := .wait, blockType := b }) rfl fun _ => rfl
  obtain ⟨q, rfl, hf₁, -⟩ := hf.enqueue (by simpa [Kernel.current] using hp.current) h
  apply hf₁.dequeue_some
  simpa [hc.symm] using hp.idle_ready hc

theorem Placed.exit_dequeue (hp : Placed k) (hc : k.taskCurrent ≠ taskIdle) {v : ℤ}
    (h : RadOs.taskExitSignal v k = .ok k') :
    ∃ t k₁, osTaskqueueDequeue .ready k' = .ok (some t, k₁) := by
  obtain ⟨k₁, -, hcur, he, hp₁, rfl⟩ := hp.taskExitSignal h
  rw [← hcur, ← he]
  apply (hp₁.filed.setTask (t := k₁.taskCurrent)
    (x := { k₁.current with retValue := v, state := .destroyed }) rfl fun _ => rfl).dequeue_some
  rw [← hcur] at hc
  simpa [hc.symm] using hp₁.idle_ready hc

end Places

/-- No task is lost or duplicated, and there is always a task to switch to. -/
theorem no_task_lost {k : Kernel} (h : (kernelSystem.restrict fun k i => Sane k i.1).Reachable k) :
    (∀ t, k.Live t → InPlace k t) ∧ k.Live taskIdle ∧
    (∀ t, ¬ k.Live t → ∀ Q p, t ∉ (k.queues Q).tasks.bucket p) ∧
    (k.taskCurrent ≠ taskIdle →
      (∃ t k₁, osTaskqueueDequeue .ready k = .ok (some t, k₁)) ∧
      (∀ Q b k₁, osTaskMakewait Q b k = .ok k₁ →
        ∃ t k₂, osTaskqueueDequeue .ready k₁ = .ok (some t, k₂)) ∧
      ∀ v k₁, taskExitSignal v k = .ok k₁ →
        ∃ t k₂, osTaskqueueDequeue .ready k₁ = .ok (some t, k₂)) := by
  have hs := sound_of_reachable (fun _ _ h => h) h
  refine ⟨fun t ht => hs.placed.inPlace ht, hs.placed.idle.1, fun t ht Q p hm => ?_, fun hc => ?_⟩
  · apply ht
    apply hs.placed.live t
    rw [(hs.placed.filed.mem.mp hm).1]
    simp
  · exact ⟨hs.placed.filed.dequeue_some (hs.placed.idle_ready hc),
      fun Q b k₁ hk => hs.placed.makewait_dequeue hc hk,
      fun v k₁ hk => hs.placed.exit_dequeue hc hk⟩

end General

/-- The idle task creates a task and a semaphore and starts; the task runs and waits. -/
def waitingRun : List Action :=
  [.call (.taskCreate 1 2), .call (.semCreate 0 0), .call .start, .resume,
    .call (.semDown 0 osTimeoutInfinite)]

theorem no_task_lost_waiting : ∃ k,
    (kernelSystem.restrict fun k i => Sane k i.1).Reachable k ∧
    (k.tasks 1).taskQueue = some (.sem (.obj 0)) ∧ k.taskCurrent = taskIdle ∧
    InPlace k 1 ∧ InPlace k taskIdle := by
  obtain ⟨k, hk, hx⟩ := Outcome.exists_of_holds
    (x := play saneCheck 10 waitingRun (osInit coldKernel))
    (p := fun k => decide ((k.tasks 1).taskQueue = some (.sem (.obj 0)) ∧
      k.taskCurrent = taskIdle ∧ k.Live 1)) (by decide +kernel)
  obtain ⟨hq, hc, hl⟩ := of_decide_eq_true hx
  have hr := reachable_of_play (P := fun k i => Sane k i.1) (fun _ _ h => h)
    (fun _ _ _ hs h => sane_of_check hs h) (.start rfl) hk
  have hall := no_task_lost hr
  exact ⟨k, hr, hq, hc, hall.1 1 hl, hall.1 _ hall.2.1⟩

end RadOs
