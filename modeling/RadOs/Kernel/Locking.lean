import Mathlib.Data.List.TakeDrop
import RadOs.Kernel.Play
import RadOs.Kernel.Scalars

/-! # A locked scheduler

`os_schedule` is the only route to another task that looks at `sched_lock`. The
other two are taken by a task that blocks or exits, and they ignore it.
-/

namespace RadOs
open Bucketed Runs Budget

section General
variable [Port] {k k' : Kernel} {i : Action} {r : Option Ret} {n : ℕ}

/-- The functions that can take the processor from their caller whatever `sched_lock` is. -/
def Call.leaves : Call → Bool
  | .semDown _ _ | .mtxLock _ | .taskJoin _ | .waitqueueWait _ | .taskExit _ => true
  | _ => false

/-- The running task has blocked or exited in the step. -/
def Leaves (x : KernelStep) : Prop :=
  x.pre.isrNesting = 0 ∧ (∃ c, x.label.1 = .call c ∧ c.leaves = true) ∧
    ((x.post.tasks x.pre.taskCurrent).state = .wait ∨
      (x.post.tasks x.pre.taskCurrent).state = .destroyed)

omit [Port] in
theorem does_leave {a : Kind} (ha : Does k i a) (hst : a.still = false) (hsw : a ≠ .switch) :
    ∃ c, i = .call c ∧ c.leaves = true := by
  have hb : a = .exit ∨ ∃ Q, a = .block Q := by
    cases a <;> simp_all [Kind.still]
  cases i with
  | call c =>
    refine ⟨c, rfl, ?_⟩
    obtain rfl | ⟨Q, rfl⟩ := hb <;> cases c <;> simp_all [Does, Call.leaves]
  | resume => obtain rfl | ⟨Q, rfl⟩ := hb <;> simp [Does, Placed.JoinEnd] at ha
  | isrEnter => cases ha; cases hst
  | isrExit => cases ha; cases hst

/-- The task changes only with `sched_lock = 0`, or when the running task leaves. -/
theorem taskCurrent_cases (hs : Sound k) (he : Enabled k i) (hsane : Sane k i)
    (h : exec n i k = .ok (k', r)) :
    k'.taskCurrent = k.taskCurrent ∨ (k'.schedLock = 0 ∧ k'.isrNesting ≤ 1) ∨
      Leaves ⟨k, (i, r), k'⟩ := by
  obtain ⟨k₁, hpath, hlast⟩ := exec_parts hs.placed hs.owned hsane h
  have hcur : k₁.taskCurrent = k.taskCurrent :=
    hpath.invariant (I := fun k₁ => k₁.taskCurrent = k.taskCurrent)
      (fun a k₂ k₃ ha hk hm => (hm.taskCurrent_still ha.2).trans hk) rfl
  have hnest := (scalarStep hs.placed hs.owned hsane h).isrNesting
  obtain rfl | ⟨a, ha, hst, hm⟩ := hlast
  · exact Or.inl hcur
  · obtain ⟨hi, hl, -, -⟩ := hm.scalars_eq (by rintro rfl; cases hst)
    cases hm with
    | switch h₀ hl₀ hn hp hc hr => exact Or.inr (Or.inl ⟨hl.trans hl₀, by omega⟩)
    | switchIsr h₀ hl₀ hn hp hr => exact Or.inr (Or.inl ⟨hl.trans hl₀, by omega⟩)
    | @block _ _ Q c newTask h₀ hd hr hn hc hmx hq hre =>
      obtain ⟨d, rfl, hd⟩ := does_leave ha rfl (by simp)
      obtain ⟨q, rfl, -, -⟩ := hre
      refine Or.inr (Or.inr ⟨?_, ⟨d, rfl, hd⟩, Or.inl ?_⟩)
      · exact hnest.symm.trans (hi.trans h₀)
      · simp [Kernel.blocked, ← hcur]
    | @exit _ _ v newTask hn hd hr =>
      obtain ⟨d, rfl, hdl⟩ := does_leave ha rfl (by simp)
      have hx : d.exits = true := by
        cases d <;> simp_all [Does, Call.exits]
      obtain ⟨q, rfl, -, -⟩ := hr
      refine Or.inr (Or.inr ⟨?_, ⟨d, rfl, hdl⟩, Or.inr ?_⟩)
      · by_contra hne
        rw [Enabled, if_neg hne, hx] at he
        cases he
      · simp [Kernel.exited, ← hcur]
    | _ => cases hst

omit [Port] in
theorem schedLockAfter_cases (k : Kernel) (i : Action) :
    (schedLockAfter k i = k.schedLock + 1 ∧ ∃ c, i = .call c ∧ c.leaves = false) ∨
      schedLockAfter k i = k.schedLock - 1 ∨ schedLockAfter k i = k.schedLock ∨
      schedLockAfter k i = 0 := by
  cases i with
  | call c => cases c <;> simp [schedLockAfter, Call.leaves]
  | resume =>
    simp only [schedLockAfter]
    split <;> simp
  | isrEnter => simp [schedLockAfter]
  | isrExit => simp [schedLockAfter]

/-- The tasks that have taken the levels of `sched_lock`, the last one first. The first level is
taken by `os_init`. -/
def takers : List KernelStep → List TaskId
  | [] => [taskIdle]
  | x :: tr =>
    if x.pre.schedLock < x.post.schedLock then x.pre.taskCurrent :: takers tr
    else if x.post.schedLock < x.pre.schedLock then (takers tr).tail
    else takers tr

/-- With the scheduler locked the task does not change unless it leaves. If none has ever left with
the scheduler locked, then the running task has taken all the levels. The second part is about
programs that unlock only what they have locked: one call of `os_scheduler_unlock` too many leaves
-1 here and 255 on the AVR. -/
theorem locked_scheduler_keeps_task {tr : List KernelStep}
    (h : (kernelSystem.restrict fun k i => Sane k i.1).Run tr k) :
    (∀ x ∈ tr, 0 < x.pre.schedLock → 0 < x.post.schedLock →
      x.post.taskCurrent = x.pre.taskCurrent ∨ Leaves x) ∧
    ((∀ x ∈ tr, 0 < x.pre.schedLock → 0 < x.post.schedLock → ¬ Leaves x) →
      k.schedLock.toNat ≤ (takers tr).length ∧
      ∀ t ∈ (takers tr).take k.schedLock.toNat, t = k.taskCurrent) := by
  induction h with
  | start h₀ =>
    cases h₀
    refine ⟨by simp, fun _ => ?_⟩
    simp [takers, osInit, coldKernel, Kernel.setTask, Kernel.setQueue]
  | @step tr k k' l hrun hst ih =>
    obtain ⟨i, r⟩ := l
    obtain ⟨ih₁, ih₂⟩ := ih
    have hs := sound_of_reachable (fun _ _ h => h) ⟨tr, hrun⟩
    obtain ⟨hsane, he, hset⟩ := hst
    obtain ⟨n, hn⟩ := hset.exists_eq
    have hcase := taskCurrent_cases hs he hsane hn
    have hlast : 0 < k.schedLock → 0 < k'.schedLock →
        k'.taskCurrent = k.taskCurrent ∨ Leaves ⟨k, (i, r), k'⟩ := by
      intro _ hl
      exact hcase.imp_right fun h => h.resolve_left fun h₀ => by omega
    refine ⟨?_, fun hall => ?_⟩
    · intro x hx
      obtain rfl | hx := List.mem_cons.mp hx
      · exact hlast
      · exact ih₁ x hx
    · obtain ⟨hlen, htop⟩ := ih₂ fun x hx => hall x (by simp [hx])
      by_cases hpos : 0 < k'.schedLock
      · have hsl : k'.schedLock = schedLockAfter k i :=
          (scalarStep hs.placed hs.owned hsane hn).schedLock
        obtain ⟨hup, c, rfl, hc⟩ | hdown | heq | h0 := schedLockAfter_cases k i
        · -- a new level of the running task, which goes on
          have hsame : k'.taskCurrent = k.taskCurrent := by
            obtain h | h | ⟨-, ⟨d, hd, hl⟩, -⟩ := hcase
            · exact h
            · omega
            · cases hd
              rw [hc] at hl
              cases hl
          have hn : k'.schedLock.toNat = k.schedLock.toNat + 1 := by omega
          rw [takers, if_pos (by simp only; omega), hn]
          simp only [List.length_cons, List.take_succ_cons, List.mem_cons, forall_eq_or_imp, hsame]
          exact ⟨by omega, trivial, htop⟩
        all_goals
          have hsame : k'.taskCurrent = k.taskCurrent :=
            (hlast (by omega) hpos).resolve_right (hall _ (by simp) (by simp only; omega) hpos)
        · have hn : k'.schedLock.toNat = k.schedLock.toNat - 1 := by omega
          rw [takers, if_neg (by simp only; omega), if_pos (by simp only; omega), hn, hsame,
            ← List.tail_take_eq_take_tail]
          exact ⟨by rw [List.length_tail]; omega, fun t ht => htop t (List.mem_of_mem_tail ht)⟩
        · rw [takers, if_neg (by simp only; omega), if_neg (by simp only; omega), hsl, heq, hsame]
          exact ⟨hlen, htop⟩
        · omega
      · have hn : k'.schedLock.toNat = 0 := by omega
        rw [hn]
        simp

end General

/-- The task 1 locks the scheduler twice, the second time for a wait queue. -/
def lockedTwiceRun : List Action :=
  [.call (.taskCreate 1 2), .call (.waitqueueCreate 0), .call .start, .resume,
    .call .schedulerLock, .call (.waitqueuePrepare 0), .resume]

theorem locked_scheduler_keeps_task_twice : ∃ tr k,
    (kernelSystem.restrict fun k i => Sane k i.1).Run tr k ∧ k.started = true ∧
    k.schedLock = 2 ∧ k.taskCurrent = 1 ∧ takers tr = [1, 1] ∧
    ∀ t ∈ (takers tr).take k.schedLock.toNat, t = k.taskCurrent := by
  obtain ⟨⟨tr, k⟩, hk, hx⟩ := Outcome.exists_of_holds
    (x := playRun saneCheck 10 lockedTwiceRun [] (osInit coldKernel))
    (p := fun (tr, k) => decide (k.started = true ∧ k.schedLock = 2 ∧ k.taskCurrent = 1 ∧
      takers tr = [1, 1] ∧ ∀ x ∈ tr, (x.post.tasks x.pre.taskCurrent).state ≠ .wait ∧
        (x.post.tasks x.pre.taskCurrent).state ≠ .destroyed)) (by decide +kernel)
  obtain ⟨h₁, h₂, h₃, h₄, hst⟩ := of_decide_eq_true hx
  have hr := run_of_playRun (P := fun k i => Sane k i.1) (fun _ _ h => h)
    (fun _ _ _ hs h => sane_of_check hs h) (.start rfl) hk
  refine ⟨tr, k, hr, h₁, h₂, h₃, h₄, ((locked_scheduler_keeps_task hr).2 ?_).2⟩
  rintro x hx - - ⟨-, -, h | h⟩
  · exact (hst x hx).1 h
  · exact (hst x hx).2 h

/-- A task that waits for a semaphore gives the processor away together with its lock. -/
theorem locked_scheduler_changes_task : ∃ tr x k,
    (kernelSystem.restrict fun k i => Sane k i.1).Run (x :: tr) k ∧ x.pre.started = true ∧
    0 < x.pre.schedLock ∧ 0 < x.post.schedLock ∧ x.post.taskCurrent ≠ x.pre.taskCurrent ∧
    ∃ t ∈ (takers (x :: tr)).take k.schedLock.toNat, t ≠ k.taskCurrent := by
  obtain ⟨⟨tr, k⟩, hk, hx⟩ := Outcome.exists_of_holds
    (x := playRun saneCheck 10 [.call (.taskCreate 1 2), .call (.semCreate 0 0), .call .start,
      .resume, .call .schedulerLock, .call (.semDown 0 osTimeoutInfinite)] [] (osInit coldKernel))
    (p := fun (tr, k) => match tr with
      | [] => false
      | x :: tr => decide (x.pre.started = true ∧ 0 < x.pre.schedLock ∧ 0 < x.post.schedLock ∧
        x.post.taskCurrent ≠ x.pre.taskCurrent ∧
        ∃ t ∈ (takers (x :: tr)).take k.schedLock.toNat, t ≠ k.taskCurrent)) (by decide +kernel)
  have hr := run_of_playRun (P := fun k i => Sane k i.1) (fun _ _ h => h)
    (fun _ _ _ hs h => sane_of_check hs h) (.start rfl) hk
  cases tr with
  | nil => cases hx
  | cons x tr => exact ⟨tr, x, k, hr, of_decide_eq_true hx⟩

end RadOs
