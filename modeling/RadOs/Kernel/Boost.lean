import RadOs.Kernel.Play
import RadOs.Lib.Chains

/-! # The loop of the priority boost

`os_mtx_lock_prio_boost` follows the chain of tasks that wait for one another
from the owner of the mutex on. It tests the priority of the first task only,
and gives every task of the chain the priority of the caller.
-/

namespace RadOs
open Bucketed Runs Budget Chains Relation

/-- The task `t` waits for a mutex of the task `o`. -/
def Kernel.WaitsFor (k : Kernel) (t o : TaskId) : Prop :=
  ∃ m, (k.tasks t).taskQueue = some (.mtx m) ∧ (k.mtxs m).owner = some o

/-- The tasks that stand between a mutex of `o` and its release. -/
def Kernel.Chain (k : Kernel) (o u : TaskId) : Prop := ReflTransGen k.WaitsFor o u

section Chain
variable {k k' : Kernel} {t : TaskId} {p n : ℕ}

theorem Kernel.waitsFor_unique {t b c : TaskId} (hb : k.WaitsFor t b) (hc : k.WaitsFor t c) :
    b = c := by
  obtain ⟨m, hm, ho⟩ := hb
  obtain ⟨m', hm', ho'⟩ := hc
  rw [hm] at hm'
  cases hm'
  rw [ho] at ho'
  exact Option.some.inj ho'

theorem Kernel.waitsFor_congr (hq : ∀ t, (k'.tasks t).taskQueue = (k.tasks t).taskQueue)
    (hm : k'.mtxs = k.mtxs) : k'.WaitsFor = k.WaitsFor := by
  funext t o
  simp only [Kernel.WaitsFor, hq, hm]

/-- What a change of a priority does. -/
theorem Realizes.reprio_frame (h : Realizes (k.setTask t { k.tasks t with prioCurrent := p }) k') :
    k'.WaitsFor = k.WaitsFor ∧ k'.taskCurrent = k.taskCurrent ∧ k'.mtxs = k.mtxs ∧
      (∀ Q, (k'.queues Q).linked = (k.queues Q).linked) ∧
      ∀ u, k'.tasks u =
        { k.tasks u with prioCurrent := if u = t then p else (k.tasks u).prioCurrent } := by
  obtain ⟨q, rfl, -, hl⟩ := h
  have ht : ∀ u, Function.update k.tasks t { k.tasks t with prioCurrent := p } u =
      { k.tasks u with prioCurrent := if u = t then p else (k.tasks u).prioCurrent } := by
    intro u
    by_cases hu : u = t
    · subst hu
      simp
    · simp [hu]
  refine ⟨Kernel.waitsFor_congr (fun u => ?_) rfl, rfl, rfl, hl, ht⟩
  change (Function.update k.tasks t _ u).taskQueue = _
  rw [ht]

/-- The test at the end of a turn of the loop. -/
theorem Standing.waits_iff (hp : Standing k.tasks k.taskCurrent) (t : TaskId) :
    ((k.tasks t).state = .wait ∧ (k.tasks t).blockType = .mtx) ↔
      ∃ m, (k.tasks t).taskQueue = some (.mtx m) := by
  constructor
  · rintro ⟨hs, hb⟩
    obtain ⟨Q, hQ⟩ := Option.ne_none_iff_exists'.mp (hp.waiting t hs)
    by_cases hr : Q = .ready
    · rw [hr] at hQ
      rw [hp.ready t hQ] at hs
      cases hs
    · have hbt := (hp.wait t Q hQ hr).2.2
      rw [hb] at hbt
      cases Q with
      | mtx m => exact ⟨m, hQ⟩
      | _ => cases hbt
  · rintro ⟨m, hm⟩
    obtain ⟨hs, -, hb⟩ := hp.wait t _ hm (by simp)
    exact ⟨hs, hb⟩

/-- One turn of the loop, if it is left behind it or goes on with the task waited for. -/
theorem prioBoostLoop_ok (hp : Placed k) (hc : k.current.prioCurrent = p)
    (h : prioBoostLoop p (n + 1) t k = .ok k') :
    ∃ k₁, Realizes (k.setTask t { k.tasks t with prioCurrent := p }) k₁ ∧
      (((∀ o, ¬ k.WaitsFor t o) ∧ k' = k₁) ∨
        ∃ o, k.WaitsFor t o ∧ prioBoostLoop p n o k₁ = .ok k') := by
  obtain ⟨k₁, hr, h⟩ := Outcome.bind_ok h
  rw [hc, max_self] at hr
  have hre := hp.filed.reprio hr
  have hp₁ : Placed k₁ := (Move.reprio hre).placed hp
  have hw := hp₁.toStanding.waits_iff t
  refine ⟨k₁, hre, ?_⟩
  rw [← hre.reprio_frame.1]
  split at h
  · rename_i hne
    cases h
    refine Or.inl ⟨?_, rfl⟩
    rintro o ⟨m, hm, -⟩
    obtain ⟨h₁, h₂⟩ := hw.mpr ⟨m, hm⟩
    exact hne.elim (fun h => h h₁) (fun h => h h₂)
  · split at h
    · rename_i m hm
      split at h
      · rename_i o ho
        exact Or.inr ⟨o, ⟨m, hm, ho⟩, h⟩
      · cases h
    · cases h

/-- A finished loop has given exactly the tasks of the chain the priority `p`, and the chain has
an end. -/
theorem prioBoostLoop_spec (hp : Placed k) (hc : k.current.prioCurrent = p)
    (h : prioBoostLoop p n t k = .ok k') :
    Ends k.WaitsFor t ∧ (∀ u, k.Chain t u → (k'.tasks u).prioCurrent = p) ∧
      ∀ u, ¬ k.Chain t u → (k'.tasks u).prioCurrent = (k.tasks u).prioCurrent := by
  induction n generalizing k t with
  | zero => cases h
  | succ n ih =>
    obtain ⟨k₁, hre, hcase⟩ := prioBoostLoop_ok hp hc h
    obtain ⟨hw, hcur, -, -, htask⟩ := hre.reprio_frame
    have hprio : ∀ u, (k₁.tasks u).prioCurrent = if u = t then p else (k.tasks u).prioCurrent :=
      fun u => congrArg Task.prioCurrent (htask u)
    obtain ⟨hn, rfl⟩ | ⟨o, ho, h⟩ := hcase
    · -- the chain is the task alone
      have honly : ∀ u, k.Chain t u ↔ u = t := by
        intro u
        constructor
        · intro hu
          obtain rfl | ⟨o, ho, -⟩ := hu.cases_head
          · rfl
          · exact absurd ho (hn o)
        · rintro rfl
          exact .refl
      refine ⟨⟨t, .refl, hn⟩, fun u hu => ?_, fun u hu => ?_⟩
      · rw [hprio, if_pos ((honly u).mp hu)]
      · rw [hprio, if_neg fun he => hu ((honly u).mpr he)]
    · have hc₁ : k₁.current.prioCurrent = p := by
        rw [Kernel.current, hprio, hcur]
        split
        · rfl
        · exact hc
      obtain ⟨hend, hin, hout⟩ := ih ((Move.reprio hre).placed hp) hc₁ h
      have hchain : ∀ u, k₁.Chain o u ↔ k.Chain o u := fun u => by rw [Kernel.Chain, hw, Kernel.Chain]
      rw [hw] at hend
      have hcons : ∀ u, k.Chain t u ↔ u = t ∨ k.Chain o u := by
        intro u
        constructor
        · intro hu
          obtain rfl | ⟨o', ho', hu⟩ := hu.cases_head
          · exact Or.inl rfl
          · rw [Kernel.waitsFor_unique ho ho']
            exact Or.inr hu
        · rintro (rfl | hu)
          · exact .refl
          · exact hu.head ho
      refine ⟨ends_of_succ ho hend, fun u hu => ?_, fun u hu => ?_⟩
      · by_cases huo : k.Chain o u
        · exact hin u ((hchain u).mpr huo)
        · rw [hout u fun h => huo ((hchain u).mp h), hprio,
            if_pos (((hcons u).mp hu).resolve_right huo)]
      · rw [hcons, not_or] at hu
        rw [hout u fun h => hu.2 ((hchain u).mp h), hprio, if_neg hu.1]

theorem osTaskqueueReprio_linked (hl : k.Linked) :
    ∃ k', osTaskqueueReprio t p k = .ok k' := by
  unfold osTaskqueueReprio
  split
  · cases hq : (k.tasks t).taskQueue with
    | none => exact ⟨_, rfl⟩
    | some Q =>
      have hQ := hl.queue t Q hq
      simp only [osTaskqueueUnlink, hq, Outcome.ok_bind, osTaskqueueEnqueue, Kernel.setTask,
        Kernel.setQueue, Function.update_self, hQ, if_true]
      exact ⟨_, rfl⟩
  · exact ⟨k, rfl⟩

/-- On a chain with an end the loop is left. -/
theorem prioBoostLoop_total {r : TaskId → TaskId → Prop} {b : TaskId} (hp : Placed k)
    (hl : k.Linked) (ho : Owned k) (hr : k.WaitsFor = r) (hb : ReflTransGen r t b)
    (hn : ∀ c, ¬ r b c) : ∃ n k', prioBoostLoop p n t k = .ok k' := by
  induction hb using ReflTransGen.head_induction_on generalizing k with
  | refl =>
    obtain ⟨k₁, hk₁⟩ := osTaskqueueReprio_linked (t := b) (p := max k.current.prioCurrent p) hl
    have hre := hp.filed.reprio hk₁
    obtain ⟨hw, -, hm, -, htask⟩ := hre.reprio_frame
    have hne : (k₁.tasks b).state ≠ .wait ∨ (k₁.tasks b).blockType ≠ .mtx := by
      by_contra hc
      simp only [ne_eq, not_or, not_not] at hc
      obtain ⟨m, hq⟩ := (((Move.reprio hre).placed hp).toStanding.waits_iff b).mp hc
      have hq' : (k.tasks b).taskQueue = some (.mtx m) := by
        rw [htask] at hq
        exact hq
      obtain ⟨o, hmo⟩ := Option.ne_none_iff_exists'.mp (ho b m hq')
      exact hn o (hr ▸ ⟨m, hq', hmo⟩)
    refine ⟨1, k₁, ?_⟩
    simp only [prioBoostLoop, hk₁, Outcome.ok_bind, if_pos hne, Outcome.pure_eq]
  | @head a c hac _ ih =>
    obtain ⟨k₁, hk₁⟩ := osTaskqueueReprio_linked (t := a) (p := max k.current.prioCurrent p) hl
    have hre := hp.filed.reprio hk₁
    have hmv : Move (.reprio a) k k₁ := .reprio hre
    obtain ⟨hw, -, hm, -, htask⟩ := hre.reprio_frame
    have hq : ∀ u, (k₁.tasks u).taskQueue = (k.tasks u).taskQueue := fun u => by rw [htask]
    have ho₁ : Owned k₁ := fun u m hu => by
      rw [hm]
      exact ho u m (hq u ▸ hu)
    obtain ⟨n, k', h⟩ := ih (hmv.placed hp) (hmv.linked hp.toStanding (by simp) hl) ho₁ (hw.trans hr)
    obtain ⟨m, ham, hmc⟩ : k₁.WaitsFor a c := by
      rw [hw, hr]
      exact hac
    have hw₁ := ((hmv.placed hp).toStanding.waits_iff a).mpr ⟨m, ham⟩
    refine ⟨n + 1, k', ?_⟩
    rw [prioBoostLoop, hk₁, Outcome.ok_bind, if_neg (by simp [hw₁]), ham]
    simp only [hmc]
    exact h

/-- The tasks that wait are finitely many. -/
theorem Sound.finite_waitsFor (hs : Sound k) : {t | ∃ o, k.WaitsFor t o}.Finite := by
  refine hs.finite.subset ?_
  rintro t ⟨o, m, hm, -⟩
  exact hs.placed.live t (by simp [hm])

end Chain

section Demotion
variable [Port] {k k' : Kernel} {m : MtxId}

/-- The task that calls `os_mtx_lock` has to boost the chain of the owner. -/
def Boosts (k : Kernel) (m : MtxId) (o : TaskId) : Prop :=
  (k.mtxs m).owner = some o ∧ o ≠ k.taskCurrent ∧
    (k.tasks o).prioCurrent < k.current.prioCurrent

/-- A lock demotes nobody iff, whenever it boosts, no task on the chain of the owner has a higher
priority than the caller. -/
theorem mtx_lock_demotes_nobody_iff {r : Option Ret}
    (h : (kernelSystem.restrict fun k i => Sane k i.1).Reachable k)
    (hst : k.Step (.call (.mtxLock m), r) k') :
    (∀ t, (k.tasks t).prioCurrent ≤ (k'.tasks t).prioCurrent) ↔
      ∀ o, Boosts k m o → ∀ u, k.Chain o u → (k.tasks u).prioCurrent ≤ k.current.prioCurrent := by
  have hs := sound_of_reachable (fun _ _ h => h) h
  obtain ⟨n, hn⟩ := hst.2.exists_eq
  obtain ⟨c, hn, -⟩ := coded_ok hn
  obtain ⟨-, -, -, ⟨ho, -, rfl⟩ | ⟨ho, -, rfl⟩ | ⟨o, k₁, ho, hne, -, hb, hpath, hblk⟩⟩ :=
    hs.placed.mtxLock hn
  · refine iff_of_true (fun t => ?_) fun o hb => by simp [hb.1] at ho
    by_cases ht : t = k.taskCurrent <;> simp [osMtxSetOwner, Kernel.setMtx, ht]
  · refine iff_of_true (fun t => le_rfl) fun o hb => ?_
    exact absurd (Option.some.inj (hb.1.symm.trans ho)) hb.2.1
  · have hk' : ∀ t, (k'.tasks t).prioCurrent = (k₁.tasks t).prioCurrent :=
      fun t => (hblk.task t).prioCurrent_eq (by simp) (by simp)
    simp only [hk']
    by_cases hlt : (k.tasks o).prioCurrent < k.current.prioCurrent
    · simp only [osMtxLockPrioBoost, ho, if_pos hlt] at hb
      obtain ⟨-, hin, hout⟩ := prioBoostLoop_spec hs.placed rfl hb
      constructor
      · rintro hle o' ⟨ho', -⟩ u hu
        rw [ho] at ho'
        cases ho'
        exact hin u hu ▸ hle u
      · intro hle t
        by_cases ht : k.Chain o t
        · rw [hin t ht]
          exact hle o ⟨ho, hne, hlt⟩ t ht
        · rw [hout t ht]
    · simp only [osMtxLockPrioBoost, ho, if_neg hlt] at hb
      cases hb
      refine iff_of_true (fun t => le_rfl) fun o' hb => ?_
      rw [Boosts, ho] at hb
      obtain ⟨h₁, -, h₂⟩ := hb
      cases h₁
      exact absurd h₂ hlt

end Demotion

/-- The task 1 owns the mutex 0 and is preempted by the task 2. -/
def contendedRun : List Action :=
  [.call (.mtxCreate 0), .call (.mtxCreate 1), .call (.taskCreate 1 1), .call .start, .resume,
    .call (.mtxLock 0), .call (.taskCreate 2 2)]

/-- The task 2 has locked the mutex 1 and waits for the mutex 0, and is preempted by the task 3. -/
def preemptedRun : List Action :=
  contendedRun ++ [.call (.mtxLock 1), .call (.mtxLock 0), .resume, .call (.taskCreate 3 3)]

/-- The task 3 is about to boost the chain of the tasks 2 and 1. -/
theorem preemptedRun_step : ∃ k k' r, (kernelSystem.restrict fun k i => Sane k i.1).Reachable k ∧
    k.Step (.call (.mtxLock 1), r) k' ∧ Boosts k 1 2 ∧ k.WaitsFor 2 1 ∧
    ∀ u, k.Chain 2 u → (u = 2 ∨ u = 1) ∧ (k.tasks u).prioCurrent = 2 ∧
      k.current.prioCurrent = 3 ∧ ∀ v, k.WaitsFor u v → u = 2 ∧ v = 1 := by
  obtain ⟨⟨k, k', r⟩, hk, hx⟩ := Outcome.exists_of_holds
    (x := playStep saneCheck 10 preemptedRun (.call (.mtxLock 1)))
    (p := fun (k, _, _) => decide ((k.mtxs 1).owner = some 2 ∧ (k.mtxs 0).owner = some 1 ∧
      k.taskCurrent = 3 ∧ (k.tasks 1).prioCurrent = 2 ∧ (k.tasks 2).prioCurrent = 2 ∧
      (k.tasks 3).prioCurrent = 3 ∧ (k.tasks 2).taskQueue = some (.mtx 0) ∧
      (k.tasks 1).taskQueue = some .ready)) (by decide +kernel)
  obtain ⟨ho₁, ho₀, hc, h₁, h₂, h₃, hq₂, hq₁⟩ := of_decide_eq_true hx
  obtain ⟨hr, -, hst⟩ := step_of_playStep (P := fun k i => Sane k i.1) (fun _ _ h => h)
    (fun _ _ _ hs h => sane_of_check hs h) hk
  have hcur : k.current.prioCurrent = 3 := by rw [Kernel.current, hc, h₃]
  refine ⟨k, k', r, hr, hst, ⟨ho₁, by simp [hc], by simp [h₂, hcur]⟩, ⟨0, hq₂, ho₀⟩, fun u hu => ?_⟩
  have hwait : ∀ v, k.WaitsFor 2 v → v = 1 := by
    rintro v ⟨m, hm, hv⟩
    cases hq₂.symm.trans hm
    exact Option.some.inj (hv.symm.trans ho₀)
  have hend : ∀ v, ¬ k.WaitsFor 1 v := by
    rintro v ⟨m, hm, -⟩
    cases hq₁.symm.trans hm
  obtain rfl | ⟨v, hv, hu⟩ := hu.cases_head
  · exact ⟨.inl rfl, h₂, hcur, fun v hv => ⟨rfl, hwait v hv⟩⟩
  · obtain rfl := hwait v hv
    obtain rfl | ⟨w, hw, -⟩ := hu.cases_head
    · exact ⟨.inr rfl, h₁, hcur, fun w hw => absurd hw (hend w)⟩
    · exact absurd hw (hend w)

theorem mtx_lock_demotes_nobody_iff_chained : ∃ k k' r,
    (kernelSystem.restrict fun k i => Sane k i.1).Reachable k ∧
    k.Step (.call (.mtxLock 1), r) k' ∧ Boosts k 1 2 ∧ k.WaitsFor 2 1 ∧
    ∀ t, (k.tasks t).prioCurrent ≤ (k'.tasks t).prioCurrent := by
  obtain ⟨k, k', r, hr, hst, hb, hw, hchain⟩ := preemptedRun_step
  refine ⟨k, k', r, hr, hst, hb, hw, (mtx_lock_demotes_nobody_iff hr hst).mpr ?_⟩
  rintro o ⟨ho, -⟩ u hu
  obtain rfl := Option.some.inj (ho.symm.trans hb.1)
  obtain ⟨-, hp, hcur, -⟩ := hchain u hu
  omega

/-- The task 1 holds the mutex 3, the task 2 waits for the mutex 2 and holds the mutex 1, and the
task 3 with the highest priority holds the mutex 2 and is ready, since the task 1 has released the
mutex 3 to it with the scheduler locked. -/
def outrankedRun : List Action :=
  [.call (.mtxCreate 0), .call (.mtxCreate 1), .call (.mtxCreate 2), .call (.mtxCreate 3),
    .call (.taskCreate 2 1), .call .start, .resume,
    .call (.mtxLock 1), .call (.mtxLock 2), .call (.mtxLock 0), .call (.taskCreate 1 2),
    .call (.mtxLock 3), .call (.mtxLock 0), .resume,
    .call (.taskCreate 3 4), .call (.mtxLock 2), .resume,
    .call .schedulerLock, .call (.mtxUnlock 2), .call (.mtxUnlock 0), .call (.schedulerUnlock true),
    .call (.mtxLock 2), .resume,
    .call (.mtxLock 3), .resume,
    .call .schedulerLock, .call (.mtxUnlock 3), .call (.schedulerUnlock true)]

theorem mtx_lock_demotes_outranked : ∃ k k' r,
    (kernelSystem.restrict fun k i => Sane k i.1).Reachable k ∧
    k.Step (.call (.mtxLock 1), r) k' ∧
    ¬ ∀ t, (k.tasks t).prioCurrent ≤ (k'.tasks t).prioCurrent := by
  obtain ⟨⟨k, k', r⟩, hk, hx⟩ := Outcome.exists_of_holds
    (x := playStep saneCheck 10 outrankedRun (.call (.mtxLock 1)))
    (p := fun (k, k', _) => decide ((k.tasks 3).prioCurrent = 4 ∧ (k'.tasks 3).prioCurrent = 2))
    (by decide +kernel)
  obtain ⟨h₁, h₂⟩ := of_decide_eq_true hx
  obtain ⟨hr, -, hst⟩ := step_of_playStep (P := fun k i => Sane k i.1) (fun _ _ h => h)
    (fun _ _ _ hs h => sane_of_check hs h) hk
  refine ⟨k, k', r, hr, hst, fun h => ?_⟩
  have := h 3
  omega

section Ending
variable [Port] {k : Kernel}

/-- The loop of the boost is left iff, whenever a lock boosts, the chain of the owner does not run
into a deadlock. -/
theorem mtx_lock_leaves_boost_iff
    (h : (kernelSystem.restrict fun k i => Sane k i.1).Reachable k) (m : MtxId) :
    (∀ o, (k.mtxs m).owner = some o → o ≠ k.taskCurrent →
      ∃ k', Settles (fun n => osMtxLockPrioBoost n m k) (.ok k')) ↔
      ∀ o, Boosts k m o → ¬ Cyclic k.WaitsFor o := by
  have hs := sound_of_reachable (fun _ _ h => h) h
  constructor
  · intro hall o hb hcyc
    obtain ⟨k', hk'⟩ := hall o hb.1 hb.2.1
    obtain ⟨n, hn⟩ := hk'.exists_eq
    simp only [osMtxLockPrioBoost, hb.1, if_pos hb.2.2] at hn
    exact not_ends_of_cyclic (r := k.WaitsFor) (fun _ _ _ => Kernel.waitsFor_unique) hcyc
      (prioBoostLoop_spec hs.placed rfl hn).1
  · intro hall o ho hne
    by_cases hlt : (k.tasks o).prioCurrent < k.current.prioCurrent
    · obtain ⟨b, hb, hn⟩ := ends_of_not_cyclic hs.finite_waitsFor (hall o ⟨ho, hne, hlt⟩)
      obtain ⟨n, k', hk'⟩ := prioBoostLoop_total (p := k.current.prioCurrent) hs.placed hs.linked
        hs.owned rfl hb hn
      refine ⟨k', (steady_mtxLockPrioBoost m k).settles (n := n) ?_⟩
      simp only [osMtxLockPrioBoost, ho, if_pos hlt]
      exact hk'
    · refine ⟨k, (steady_mtxLockPrioBoost m k).settles (n := 0) ?_⟩
      simp only [osMtxLockPrioBoost, ho, if_neg hlt]

end Ending

theorem mtx_lock_leaves_boost_iff_chained : ∃ k,
    (kernelSystem.restrict fun k i => Sane k i.1).Reachable k ∧ Boosts k 1 2 ∧ k.WaitsFor 2 1 ∧
    ∃ k', Settles (fun n => osMtxLockPrioBoost n 1 k) (.ok k') := by
  obtain ⟨k, -, -, hr, -, hb, hw, hchain⟩ := preemptedRun_step
  refine ⟨k, hr, hb, hw, (mtx_lock_leaves_boost_iff hr 1).mpr ?_ 2 hb.1 hb.2.1⟩
  rintro o ⟨ho, -⟩ ⟨u, hu, huu⟩
  obtain rfl := Option.some.inj (ho.symm.trans hb.1)
  -- the chain of the task 2 ends with the task 1, which waits for nobody
  obtain ⟨v, hv, hvu⟩ := TransGen.head'_iff.mp huu
  obtain ⟨-, -, -, hnext⟩ := hchain u hu
  obtain ⟨rfl, rfl⟩ := hnext v hv
  obtain hvu | ⟨w, hvw, -⟩ := hvu.cases_head
  · cases hvu
  · cases ((hchain 1 (.single hw)).2.2.2 w hvw).1

/-- The tasks 1 and 2 have locked the mutexes 0 and 1 in opposite orders, and the task 3 has been
created after that. -/
def deadlockRun : List Action :=
  contendedRun ++ [.call (.mtxLock 1), .call (.mtxLock 0), .resume, .call (.mtxLock 1), .resume,
    .call (.taskCreate 3 3)]

theorem mtx_lock_boost_spins : ∃ k,
    (kernelSystem.restrict fun k i => Sane k i.1).Reachable k ∧
    Enabled k (.call (.mtxLock 0)) ∧ k.waitqueueCurrent = none ∧ k.taskCurrent = 3 ∧
    (k.mtxs 0).owner = some 1 ∧
    ¬ ∃ k', Settles (fun n => osMtxLockPrioBoost n 0 k) (.ok k') := by
  obtain ⟨k, hk, hx⟩ := Outcome.exists_of_holds
    (x := play saneCheck 10 deadlockRun (osInit coldKernel))
    (p := fun k => decide ((k.mtxs 0).owner = some 1 ∧ (k.mtxs 1).owner = some 2 ∧
      k.taskCurrent = 3 ∧ (k.tasks 1).prioCurrent = 2 ∧ (k.tasks 3).prioCurrent = 3 ∧
      (k.tasks 1).taskQueue = some (.mtx 1) ∧ (k.tasks 2).taskQueue = some (.mtx 0) ∧
      k.waitqueueCurrent = none ∧ Enabled k (.call (.mtxLock 0)))) (by decide +kernel)
  obtain ⟨ho₀, ho₁, hc, h₁, h₃, hq₁, hq₂, hw, he⟩ := of_decide_eq_true hx
  have hr := reachable_of_play (P := fun k i => Sane k i.1) (fun _ _ h => h)
    (fun _ _ _ hs h => sane_of_check hs h) (.start rfl) hk
  refine ⟨k, hr, he, hw, hc, ho₀, ?_⟩
  rintro ⟨k', hk'⟩
  obtain ⟨n, hn⟩ := hk'.exists_eq
  simp only [osMtxLockPrioBoost, ho₀, Kernel.current, hc, h₁, h₃] at hn
  have hs := sound_of_reachable (fun _ _ h => h) hr
  obtain ⟨hend, -⟩ := prioBoostLoop_spec hs.placed (by simp [Kernel.current, hc, h₃]) hn
  -- the tasks 1 and 2 wait for each other
  have h₁₂ : k.WaitsFor 1 2 := ⟨1, hq₁, ho₁⟩
  have h₂₁ : k.WaitsFor 2 1 := ⟨0, hq₂, ho₀⟩
  exact not_ends_of_cyclic (r := k.WaitsFor) (fun _ _ _ => Kernel.waitsFor_unique)
    ⟨1, .refl, (TransGen.single h₁₂).tail h₂₁⟩ hend

end RadOs
