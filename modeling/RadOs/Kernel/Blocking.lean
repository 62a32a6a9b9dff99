import RadOs.Kernel.Inheritance
import RadOs.Lib.Hierarchy

/-! # Tasks that are blocked on mutexes

A blocked task depends on the last task of its chain of owners. If mutexes are
locked in an order that task can run, and inheritance makes it at least as
urgent as the blocked one. A chain that runs into a cycle has no last task, and
nothing ever changes that.
-/

namespace RadOs
open Bucketed Runs Budget Chains Relation

section Steps
variable [Port] {k k' : Kernel} {i : Action} {n : ℕ} {r : Option Ret} {m : MtxId} {o t w : TaskId}

/-- Only the running task ends the wait of another one for its mutex. -/
theorem waits_on (ht : Timely k) (htl : Titled k) (hst : timedSystem.step k (i, r) k')
    (hw : (k.tasks w).taskQueue = some (.mtx m)) (ho : (k.mtxs m).owner = some o)
    (hne : o ≠ k.taskCurrent) :
    (k'.tasks w).taskQueue = some (.mtx m) ∧ (k'.mtxs m).owner = some o := by
  have hp := ht.sound.placed
  obtain ⟨n, hn⟩ := hst.2.2.exists_eq
  have ho' := (htl.deeds_step ht.sound hst.1.1 hn).owner_kept ho fun ha => hne ha.2
  refine ⟨?_, ho'⟩
  have ha : ¬ ActsIn w k := fun ha => hp.not_current (by simp [hw]) ha.2
  have hlive := hp.live w (by simp [hw])
  obtain hu | ⟨Q, c, hwk⟩ := (beside ht.sound ht.awake hst.2.1 hst.1.1 hn hlive ha).woken
  · exact (hu.queue _ (by simp)).mpr hw
  · obtain rfl : Q = .mtx m := Option.some.inj (hwk.waited.symm.trans hw)
    obtain ⟨-, -, how⟩ | ⟨-, rfl, -⟩ := woken_mtx ht htl hst hwk
    · -- the new owner would be the old one, and that one does not wait
      obtain rfl : o = w := Option.some.inj (ho'.symm.trans how)
      exact absurd ho (htl.waiter o m hw)
    · obtain ⟨-, -, k₁, hcase, -⟩ := hp.mtxDestroy (quiet_ok hn).1
        fun h t ht' => ht.sound.owned t m ht' h
      obtain ⟨hnone, -⟩ | ⟨hcur, -⟩ := hcase
      · rw [hnone] at ho
        cases ho
      · rw [hcur] at ho
        exact absurd (Option.some.inj ho).symm hne

/-- The links of a chain that runs into a cycle stay. -/
theorem cyclic_step (ht : Timely k) (htl : Titled k) (hst : timedSystem.step k (i, r) k')
    (hc : Cyclic k.WaitsFor t) : Cyclic k'.WaitsFor t := by
  refine hc.mono fun w o _ ho hwo => ?_
  obtain ⟨m, hw, hmo⟩ := hwo
  have hne : o ≠ k.taskCurrent := by
    rintro rfl
    obtain ⟨u, hu⟩ := ho.succ
    exact ht.sound.placed.waitsFor_current u hu
  exact ⟨m, waits_on ht htl hst hw hmo hne⟩

omit [Port] in
/-- Without cycles the chain of owners has an end, and that task can run. -/
theorem Titled.depends (h : Titled k) (hs : Sound k) (hl : Unladen k) (hac : k.Acyclic)
    (hq : (k.tasks t).taskQueue = some (.mtx m)) :
    ∃ e, TransGen k.WaitsFor t e ∧
      (e = k.taskCurrent ∨ (k.tasks e).taskQueue = some .ready) := by
  have hcyc : ¬ Cyclic k.WaitsFor t := by
    rintro ⟨b, -, hb⟩
    exact hac b hb
  obtain ⟨e, hte, hend⟩ := ends_of_not_cyclic hs.finite_waitsFor hcyc
  obtain ⟨o, ho⟩ := Option.ne_none_iff_exists'.mp (hs.owned t m hq)
  obtain rfl | ⟨c, htc, hce⟩ := hte.cases_head
  · exact absurd ⟨m, hq, ho⟩ (hend o)
  · have hgen := TransGen.head' htc hce
    obtain ⟨b, -, m', -, he⟩ := TransGen.tail'_iff.mp hgen
    exact ⟨e, hgen, h.end_runs hl hs.placed hs.owned he hend⟩

end Steps

/-! ## Mutexes that are locked in an order -/

section Order
variable {P : Type*} [Preorder P]

/-- The tasks wait for mutexes that rank above all they own. -/
def Kernel.Ascends (rank : MtxId → P) (k : Kernel) : Prop :=
  Hierarchy.Ascends rank (fun t m => (k.tasks t).taskQueue = some (.mtx m))
    fun t m => (k.mtxs m).owner = some t

theorem Kernel.Ascends.acyclic {rank : MtxId → P} {k : Kernel} (h : k.Ascends rank) :
    k.Acyclic := by
  refine fun t => Hierarchy.Ascends.acyclic h (fun t m m' hm hm' => ?_) t
  rw [hm] at hm'
  cases hm'
  rfl

/-- The mutex that a call locks. -/
def Action.mutex : Action → Option MtxId
  | .call (.mtxLock m) => some m
  | _ => none

/-- A task locks a mutex above all that it owns, or once more. -/
def Ascending (rank : MtxId → P) (k : Kernel) (i : Action) : Prop :=
  ∀ m ∈ i.mutex, (k.mtxs m).owner = some k.taskCurrent ∨ ∀ m' ∈ k.current.mtxList, rank m' < rank m

instance [DecidableLT P] (rank : MtxId → P) (k : Kernel) (i : Action) :
    Decidable (Ascending rank k i) :=
  inferInstanceAs (Decidable (∀ m ∈ i.mutex, _ ∨ ∀ m' ∈ k.current.mtxList, rank m' < rank m))

variable [Port] {rank : MtxId → P} {k k' : Kernel} {i : Action} {n : ℕ} {r : Option Ret}

theorem Kernel.Ascends.step (h : k.Ascends rank) (htl : Titled k) (hs : Sound k) (hsane : Sane k i)
    (ha : Ascending rank k i) (hx : exec n i k = .ok (k', r)) : k'.Ascends rank := by
  have hd := htl.deeds_step hs hsane hx
  intro t m m' hq ho
  obtain ho | ⟨rfl, hnone, -, rfl⟩ | ⟨-, hf, hgone⟩ := hd.owner_cases ho
  · obtain hq₀ | ⟨rfl, hb⟩ := waiting_of_step hs hsane hx (by simp) hq
    · exact h t m m' hq₀ ho
    · -- it begins to wait
      obtain rfl := does_block_mtx hb
      obtain hown | hall := ha m rfl
      · obtain ⟨-, -, hq'⟩ | ⟨-, o, ho', hne⟩ := lock_cases hs.placed hx
        · rw [hq', hs.placed.current] at hq
          cases hq
        · rw [hown] at ho'
          exact absurd (Option.some.inj ho').symm hne
      · exact hall m' ((htl.agree.owner_iff m' k.taskCurrent).mp ho)
  · -- it gets a mutex, and does not wait
    obtain ⟨-, -, hq'⟩ | ⟨-, o, ho', -⟩ := lock_cases hs.placed hx
    · rw [hq', hs.placed.current] at hq
      cases hq
    · rw [ho'] at hnone
      cases hnone
  · -- it has been handed the mutex for which it waited
    have hm : m ≠ m' := by
      rintro rfl
      exact hgone hq
    obtain hq₀ | ⟨rfl, -⟩ := waiting_of_step hs hsane hx (by simp) hq
    · have := (hs.placed.filed.first hf).1
      rw [hq₀] at this
      cases this
      exact absurd rfl hm
    · exact absurd rfl (hs.placed.not_current (by simp [(hs.placed.filed.first hf).1]))

/-- The kernel with programs that lock mutexes in an order, and in which no task exits while it owns
a mutex. -/
def hierarchySystem (rank : MtxId → P) : System Kernel (Action × Option Ret) :=
  kernelSystem.restrict fun k i =>
    ((Sane k i.1 ∧ Typed i.1) ∧ Unburdened k i.1) ∧ Ascending rank k i.1

theorem hierarchySystem_owner {i : Action × Option Ret} (h : (hierarchySystem rank).step k i k') :
    ownerSystem.step k i k' := ⟨h.1.1, h.2⟩

omit [Port] in
theorem unladen_init : Unladen (osInit coldKernel) := by
  intro t Q hQ
  by_cases ht : t = taskIdle <;>
    simp [osInit, coldKernel, Kernel.setTask, Kernel.setQueue, osTaskInit, ht] at hQ

theorem hierarchy_of_reachable (h : (hierarchySystem rank).Reachable k) :
    ownerSystem.Reachable k ∧ Unladen k ∧ k.Ascends rank := by
  refine h.invariant (I := fun k => ownerSystem.Reachable k ∧ Unladen k ∧ k.Ascends rank) ?_ ?_
  · rintro k rfl
    refine ⟨.start rfl, unladen_init, fun t m m' hq => ?_⟩
    by_cases ht : t = taskIdle <;>
      simp [osInit, coldKernel, Kernel.setTask, Kernel.setQueue, osTaskInit, ht] at hq
  · rintro k ⟨i, r⟩ k' ⟨hr, hl, ha⟩ hst
    have hr' := hr.step (hierarchySystem_owner hst)
    obtain ⟨tr, hrun⟩ := hr
    have hs := (timely_of_reachable ⟨tr, ownerSystem_run hrun⟩).sound
    have htl := (titled_of_run hrun).1
    obtain ⟨n, hn⟩ := hst.2.2.exists_eq
    have hsane := hst.1.1.1.1
    exact ⟨hr', hl.step hs hsane hn (htl.deeds_step hs hsane hn), ha.step htl hs hsane hst.1.2 hn⟩

/-- If mutexes are locked in an order, no tasks wait for each other in a cycle, and whoever is
blocked on a mutex depends on a task that can run. -/
theorem lock_order_prevents_deadlock (h : (hierarchySystem rank).Reachable k) :
    (∀ t, ¬ TransGen k.WaitsFor t t) ∧
    ∀ t m, (k.tasks t).taskQueue = some (.mtx m) → ∃ e, TransGen k.WaitsFor t e ∧
      (e = k.taskCurrent ∨ (k.tasks e).taskQueue = some .ready) := by
  obtain ⟨⟨tr, hrun⟩, hl, ha⟩ := hierarchy_of_reachable h
  have hs := (timely_of_reachable ⟨tr, ownerSystem_run hrun⟩).sound
  have htl := (titled_of_run hrun).1
  exact ⟨ha.acyclic, fun t m hq => htl.depends hs hl ha.acyclic hq⟩

def hierarchyCheck [DecidableLT P] (rank : MtxId → P) (k : Kernel) (i : Action) : Bool :=
  ownerCheck k i && decide (Ascending rank k i)

omit [Port] in
theorem hierarchy_of_check [DecidableLT P] (hs : Sound k) (h : hierarchyCheck rank k i = true) :
    ((Sane k i ∧ Typed i) ∧ Unburdened k i) ∧ Ascending rank k i := by
  rw [hierarchyCheck, Bool.and_eq_true, decide_eq_true_eq] at h
  exact ⟨owner_of_check hs h.1, h.2⟩

end Order

/-- The task 3 is blocked on the mutex 1 of the task 2, which is blocked on the mutex 0. -/
theorem lock_order_prevents_deadlock_chained : ∃ k,
    (hierarchySystem fun m => 10 - m).Reachable k ∧ (k.tasks 3).taskQueue = some (.mtx 1) ∧
    ∃ e, TransGen k.WaitsFor 3 e ∧ (e = k.taskCurrent ∨ (k.tasks e).taskQueue = some .ready) := by
  obtain ⟨k, hk, hx⟩ := Outcome.exists_of_holds
    (x := play (hierarchyCheck fun m => 10 - m) 10 chainedRun (osInit coldKernel))
    (p := fun k => decide ((k.tasks 3).taskQueue = some (.mtx 1))) (by decide +kernel)
  have hq := of_decide_eq_true hx
  have hr : (hierarchySystem fun m => 10 - m).Reachable k := reachable_of_play
    (P := fun k i => ((Sane k i.1 ∧ Typed i.1) ∧ Unburdened k i.1) ∧
      Ascending (fun m => 10 - m) k i.1)
    (fun _ _ h => h.1.1.1) (fun _ _ _ hs h => hierarchy_of_check hs h) (.start rfl) hk
  exact ⟨k, hr, hq, (lock_order_prevents_deadlock hr).2 3 1 hq⟩

/-! ## Chains that run into a cycle -/

section Deadlock
variable [Port] {k k₀ : Kernel} {tr : List KernelStep} {t : TaskId}

/-- A task whose chain of owners runs into a cycle waits for the same mutex for ever. -/
theorem deadlock_is_final (h₀ : ownerSystem.Reachable k₀) (hc : Cyclic k₀.WaitsFor t)
    (h : (ownerSystem.startAt k₀).Run tr k) :
    Cyclic k.WaitsFor t ∧ k.taskCurrent ≠ t ∧
      ∃ m, (k₀.tasks t).taskQueue = some (.mtx m) ∧ (k.tasks t).taskQueue = some (.mtx m) := by
  obtain ⟨o, m, hq, -⟩ := hc.succ
  have hall : Cyclic k.WaitsFor t ∧ (k.tasks t).taskQueue = some (.mtx m) := by
    induction h with
    | start h =>
      cases h
      exact ⟨hc, hq⟩
    | @step tr k k' i hrun hst ih =>
      obtain ⟨i, r⟩ := i
      obtain ⟨hc, hq⟩ := ih
      obtain ⟨tr', hr⟩ := h₀.run hrun
      have ht := timely_of_reachable ⟨tr', ownerSystem_run hr⟩
      have htl := (titled_of_run hr).1
      have hst := ownerSystem_timed hst
      obtain ⟨o, m', hq', ho⟩ := hc.succ
      obtain rfl : m' = m := by
        rw [hq] at hq'
        cases hq'
        rfl
      have hoc : Cyclic k.WaitsFor o :=
        Cyclic.next (fun _ _ _ => Kernel.waitsFor_unique) ⟨m', hq, ho⟩ hc
      refine ⟨cyclic_step ht htl hst hc, (waits_on ht htl hst hq ho ?_).1⟩
      rintro rfl
      obtain ⟨u, hu⟩ := hoc.succ
      exact ht.sound.placed.waitsFor_current u hu
  obtain ⟨tr', hr⟩ := h₀.run h
  have hp := (timely_of_reachable ⟨tr', ownerSystem_run hr⟩).sound.placed
  exact ⟨hall.1, (hp.not_current (by simp [hall.2])).symm, m, hq, hall.2⟩

end Deadlock

/-- The tasks 1 and 2 wait for each other. -/
theorem deadlock_is_final_ticking : ∃ k₀ tr k, ownerSystem.Reachable k₀ ∧ k₀.WaitsFor 1 2 ∧
    k₀.WaitsFor 2 1 ∧ (ownerSystem.startAt k₀).Run tr k ∧ tr.length = 3 ∧ k.taskCurrent ≠ 1 := by
  obtain ⟨k₀, hk₀, hx₀⟩ := Outcome.exists_of_holds
    (x := play ownerCheck 10 deadlockRun (osInit coldKernel))
    (p := fun k₀ => decide ((k₀.mtxs 0).owner = some 1 ∧ (k₀.mtxs 1).owner = some 2 ∧
      (k₀.tasks 1).taskQueue = some (.mtx 1) ∧ (k₀.tasks 2).taskQueue = some (.mtx 0)) &&
      (playRun ownerCheck 10 [.isrEnter, .call .tick, .isrExit] [] k₀).holds
        fun y => decide (y.1.length = 3)) (by decide +kernel)
  rw [Bool.and_eq_true] at hx₀
  obtain ⟨⟨tr, k⟩, hk, hx⟩ := Outcome.exists_of_holds hx₀.2
  obtain ⟨ho₁, ho₂, hq₁, hq₂⟩ := of_decide_eq_true hx₀.1
  have hr : ownerSystem.Reachable k₀ := reachable_of_play
    (P := fun k i => (Sane k i.1 ∧ Typed i.1) ∧ Unburdened k i.1) (fun _ _ h => h.1.1)
    (fun _ _ _ hs h => owner_of_check hs h) (.start rfl) hk₀
  have hrun : (ownerSystem.startAt k₀).Run tr k := run_startAt_of_playRun
    (P := fun k i => (Sane k i.1 ∧ Typed i.1) ∧ Unburdened k i.1) (fun _ _ h => h.1.1)
    (fun _ _ _ hs h => owner_of_check hs h) hr (.start rfl) hk
  have h₁₂ : k₀.WaitsFor 1 2 := ⟨1, hq₁, ho₂⟩
  have h₂₁ : k₀.WaitsFor 2 1 := ⟨0, hq₂, ho₁⟩
  exact ⟨k₀, tr, k, hr, h₁₂, h₂₁, hrun, of_decide_eq_true hx,
    (deadlock_is_final hr ⟨1, .refl, (TransGen.single h₁₂).tail h₂₁⟩ hrun).2.1⟩

section Inversion
variable [Port] {k : Kernel} {tr : List KernelStep} {m : MtxId} {t : TaskId}

/-- While a task is blocked on a mutex, a task at the end of its chain of owners can run, has at
least its priority, and the running task has at least that. -/
theorem priority_inversion_bounded (h : inheritanceSystem.Run tr k)
    (hac : ∀ x ∈ tr, x.post.Acyclic) (hq : (k.tasks t).taskQueue = some (.mtx m)) :
    ∃ e, TransGen k.WaitsFor t e ∧
      (e = k.taskCurrent ∨ (k.tasks e).taskQueue = some .ready) ∧
      (k.tasks t).prioCurrent ≤ (k.tasks e).prioCurrent ∧
      (k.tasks e).prioCurrent ≤ k.current.prioCurrent := by
  have hco := contract_of_run h hac
  have hs := (timely_of_reachable ⟨tr, inheritanceSystem_timed h⟩).sound
  have hack : k.Acyclic := by
    cases h with
    | start h =>
      cases h
      by_cases ht : t = taskIdle <;>
        simp [osInit, coldKernel, Kernel.setTask, Kernel.setQueue, osTaskInit, ht] at hq
    | step hrun hst => exact hac _ List.mem_cons_self
  obtain ⟨e, hte, he⟩ := hco.depends hs hco.sleepers hack hq
  refine ⟨e, hte, he, hco.exact.le_of_chain hte.to_reflTransGen, ?_⟩
  obtain rfl | hr := he
  · exact le_rfl
  · obtain ⟨b, -, m', -, ho⟩ := TransGen.tail'_iff.mp hte
    exact hco.urgent e hr (List.ne_nil_of_mem ((hco.agree.owner_iff m' e).mp ho))

end Inversion

/-- The task 3 with the priority 3 is blocked, and the task 1 with the base priority 1 runs. -/
theorem priority_inversion_bounded_chained : ∃ tr k, inheritanceSystem.Run tr k ∧
    (∀ x ∈ tr, x.post.Acyclic) ∧ (k.tasks 3).taskQueue = some (.mtx 1) ∧
    ∃ e, TransGen k.WaitsFor 3 e ∧ (e = k.taskCurrent ∨ (k.tasks e).taskQueue = some .ready) ∧
      (k.tasks 3).prioCurrent ≤ (k.tasks e).prioCurrent ∧
      (k.tasks e).prioCurrent ≤ k.current.prioCurrent := by
  obtain ⟨⟨tr, k⟩, hk, hx⟩ := Outcome.exists_of_holds
    (x := playRun inheritingCheck 10 chainedRun [] (osInit coldKernel))
    (p := fun y => decide ((y.2.tasks 3).taskQueue = some (.mtx 1) ∧
      ∀ x ∈ y.1, x.label.1.created ⊆ [1, 2, 3] ∧ x.post.Downward [1, 2, 3])) (by decide +kernel)
  obtain ⟨hq, hx⟩ := of_decide_eq_true hx
  have hr : inheritanceSystem.Run tr k := run_of_playRun
    (P := fun k i => (Sane k i.1 ∧ Typed i.1) ∧ Inheriting k i.1) (fun _ _ h => h.1.1)
    (fun _ _ _ hs h => inheriting_of_check hs h) (.start rfl) hk
  have hac : ∀ x ∈ tr, x.post.Acyclic := by
    refine acyclic_of_run (inheritanceSystem_timed hr) fun x hxt =>
      ⟨fun t p hi => (hx x hxt).1 ?_, (hx x hxt).2⟩
    rw [hi]
    simp [Action.created]
  exact ⟨tr, k, hr, hac, hq, priority_inversion_bounded hr hac hq⟩

end RadOs
