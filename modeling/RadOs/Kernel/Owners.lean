import RadOs.Kernel.TimedWaits
import RadOs.Kernel.Waits
import RadOs.Lib.Deeds

/-! # The owners of mutexes

`owner` of a mutex and `mtx_list` of a task are two records of the same thing.
Only three functions change them, and a mutex with waiting tasks goes from its
owner to the first of them in one step.
-/

namespace RadOs
open Bucketed Runs Budget

def Kernel.deeds (k : Kernel) : Deeds MtxId TaskId where
  owner m := (k.mtxs m).owner
  held t := (k.tasks t).mtxList

@[simp] theorem Kernel.deeds_owner (k : Kernel) (m : MtxId) :
    k.deeds.owner m = (k.mtxs m).owner := rfl

@[simp] theorem Kernel.deeds_held (k : Kernel) (t : TaskId) :
    k.deeds.held t = (k.tasks t).mtxList := rfl

/-- What a step makes of the owners of mutexes. -/
inductive DeedStep (k : Kernel) (i : Action) (k' : Kernel) : Prop
  | same (h : k'.deeds = k.deeds)
      (hu : ∀ m, i = .call (.mtxUnlock m) →
        ((k.mtxs m).recur + 255) % 256 ≠ 0 ∧ k'.tasks = k.tasks)
  | taken {m : MtxId} (hi : i = .call (.mtxLock m)) (hn : k.isrNesting = 0)
      (ho : (k.mtxs m).owner = none) (h : k'.deeds = k.deeds.take m k.taskCurrent)
  | released {m : MtxId} (hi : i = .call (.mtxUnlock m) ∨ i = .call (.mtxDestroy m))
      (hn : k.isrNesting = 0) (ho : (k.mtxs m).owner = some k.taskCurrent)
      (hw : ∀ t, (k'.tasks t).taskQueue ≠ some (.mtx m))
      (hu : i = .call (.mtxUnlock m) → ∀ t, (k.tasks t).taskQueue ≠ some (.mtx m))
      (h : k'.deeds = k.deeds.release m k.taskCurrent)
  | handed {m : MtxId} {t : TaskId} (hi : i = .call (.mtxUnlock m)) (hn : k.isrNesting = 0)
      (ho : (k.mtxs m).owner = some k.taskCurrent) (hf : k.IsFirst (.mtx m) t)
      (hq : ∀ u, (k'.tasks u).taskQueue = some (.mtx m) ↔
        (k.tasks u).taskQueue = some (.mtx m) ∧ u ≠ t)
      (h : k'.deeds = (k.deeds.release m k.taskCurrent).take m t)

section Frames
variable {k k' k₁ : Kernel} {a : Kind} {D : Kind → Prop} {m : MtxId}

theorem deeds_eq (hm : ∀ m, (k'.mtxs m).owner = (k.mtxs m).owner)
    (ht : ∀ t, (k'.tasks t).mtxList = (k.tasks t).mtxList) : k'.deeds = k.deeds :=
  Deeds.ext (funext hm) (funext ht)

theorem Move.deeds_eq (h : Move a k k') (ha : ∀ m, a ≠ .owner m) (hc : ∀ t, a ≠ .create t) :
    k'.deeds = k.deeds :=
  RadOs.deeds_eq (fun m => by rw [h.mtxs_eq (ha m)]) fun t => (h.task t).mtxList_eq ha (hc t)

theorem Path.deeds_eq (h : Path D k k') (ha : ∀ m, ¬ D (.owner m)) (hc : ∀ t, ¬ D (.create t)) :
    k'.deeds = k.deeds := by
  refine h.invariant (I := fun k' => k'.deeds = k.deeds) ?_ rfl
  intro a k₁ k₂ hD hk hm
  refine (hm.deeds_eq ?_ ?_).trans hk
  · rintro m rfl
    exact ha m hD
  · rintro t rfl
    exact hc t hD

theorem Scheduled.deeds_eq {p : ℕ} (h : Scheduled p k k') : k'.deeds = k.deeds :=
  (h.path (D := fun a => a = .switch) rfl).deeds_eq (by simp) (by simp)

theorem deeds_setOwner (m : MtxId) (t : TaskId) :
    (osMtxSetOwner m t k).deeds = k.deeds.take m t := by
  refine Deeds.ext (funext fun m' => ?_) (funext fun u => ?_)
  · by_cases hm : m' = m <;> simp [Kernel.deeds, osMtxSetOwner, Deeds.take, Kernel.setMtx, hm]
  · by_cases hu : u = t <;> simp [Kernel.deeds, osMtxSetOwner, Deeds.take, hu, Kernel.setMtx]

theorem deeds_setMtx {y : Mtx} (h : y.owner = (k.mtxs m).owner) :
    (k.setMtx m y).deeds = k.deeds := by
  refine RadOs.deeds_eq (fun m' => ?_) fun u => rfl
  by_cases hm : m' = m
  · subst hm
    simp [Kernel.setMtx, h]
  · simp [Kernel.setMtx, hm]

/-- What the release of a mutex leaves unchanged. -/
theorem Placed.MtxReleased.frame (h : Placed.MtxReleased m k k') :
    k'.deeds = k.deeds.release m k.taskCurrent ∧ k'.taskCurrent = k.taskCurrent ∧
      k'.queues = k.queues ∧ (∀ u, u ≠ k.taskCurrent → k'.tasks u = k.tasks u) ∧
      ∃ p, k'.current =
        { k.current with mtxList := k.current.mtxList.erase m, prioCurrent := p } := by
  obtain ⟨k₁, -, rfl, hr⟩ := h
  obtain ⟨p, rfl⟩ := Placed.mtxUnlockPrioReset hr
  refine ⟨Deeds.ext (funext fun m' => ?_) (funext fun u => ?_), rfl, rfl, fun u hu => ?_, p, ?_⟩
  · by_cases hm : m' = m <;> simp [Kernel.deeds, Deeds.release, Kernel.setMtx, Kernel.setTask, hm]
  · by_cases hu : u = k.taskCurrent
    · subst hu
      simp [Kernel.deeds, Deeds.release, Kernel.setMtx, Kernel.setTask, Kernel.current]
    · simp [Kernel.deeds, Deeds.release, Kernel.setMtx, Kernel.setTask, hu]
  · simp [Kernel.setTask, Kernel.setMtx, hu]
  · simp [Kernel.setTask, Kernel.setMtx, Kernel.current]

/-- The tasks of the queues are the same as before. -/
theorem Placed.MtxReleased.queue_eq (h : Placed.MtxReleased m k k') (u : TaskId) :
    (k'.tasks u).taskQueue = (k.tasks u).taskQueue := by
  obtain ⟨-, hc, -, hu, p, hcur⟩ := h.frame
  by_cases he : u = k.taskCurrent
  · rw [Kernel.current, hc] at hcur
    rw [he, hcur]
    rfl
  · rw [hu u he]

theorem Placed.MtxReleased.isFirst (hp : Placed k) (h : Placed.MtxReleased m k k')
    {Q : QueueId} {t : TaskId} (hf : k'.IsFirst Q t) : k.IsFirst Q t := by
  obtain ⟨-, -, hq, hu, -⟩ := h.frame
  have hQ := ((h.path hp).placed hp).filed.first hf
  have hne : t ≠ k.taskCurrent := hp.not_current (by rw [← h.queue_eq, hQ.1]; simp)
  rwa [Kernel.IsFirst, hq, hu t hne] at hf

end Frames

section Steps
variable [Port] {k k' : Kernel} {i : Action} {n : ℕ} {r : Option Ret} {m : MtxId} {t : TaskId}

omit [Port] in
theorem deeds_mtxLock (hp : Placed k) {c : Option RetCode} (h : osMtxLock n m k = .ok (k', c)) :
    DeedStep k (.call (.mtxLock m)) k' := by
  obtain ⟨hi, -, -, ⟨ho, -, rfl⟩ | ⟨ho, -, rfl⟩ | ⟨o, k₁, ho, -, -, -, hpath, hb⟩⟩ := hp.mtxLock h
  · exact .taken rfl hi ho (deeds_setOwner m _)
  · exact .same (deeds_setMtx rfl) (by simp)
  · refine .same ((hb.deeds_eq (by simp) (by simp)).trans (hpath.deeds_eq ?_ ?_)) (by simp)
    · simp
    · simp

omit [Port] in
theorem deeds_mtxUnlock (hp : Placed k) (h : osMtxUnlock m k = .ok k') :
    DeedStep k (.call (.mtxUnlock m)) k' := by
  obtain ⟨hi, ho, -, k₁, hk₁, hcase⟩ := hp.mtxUnlock h
  have hp₁ : Placed k₁ := hk₁ ▸ (Move.setMtx k m _).placed hp
  have hd₁ : k₁.deeds = k.deeds := by
    rw [hk₁]
    exact deeds_setMtx rfl
  have ht₁ : k₁.tasks = k.tasks := by rw [hk₁]; rfl
  have hc₁ : k₁.taskCurrent = k.taskCurrent := by rw [hk₁]; rfl
  have hq₁ : k₁.queues = k.queues := by rw [hk₁]; rfl
  obtain ⟨hr, rfl⟩ | ⟨hr, k₂, hrel, hcase⟩ := hcase
  · refine .same hd₁ fun m' hm => ?_
    cases hm
    exact ⟨by omega, ht₁⟩
  · have hp₂ := (hrel.path hp₁).placed hp₁
    have hd₂ := hrel.frame.1
    rw [hd₁, hc₁] at hd₂
    have hqueue : ∀ u, (k₂.tasks u).taskQueue = (k.tasks u).taskQueue := fun u => by
      rw [hrel.queue_eq, ht₁]
    obtain ⟨hn, rfl⟩ | ⟨t, k₃, hf, hw, hsch⟩ := hcase
    · exact .released (Or.inl rfl) hi ho hn (fun _ u => hqueue u ▸ hn u) hd₂
    · have hf' : k.IsFirst (.mtx m) t := by
        have := hrel.isFirst hp₁ hf
        rwa [Kernel.IsFirst, hq₁, ht₁] at this
      have hps := (Move.setOwner k₂ m t).placed hp₂
      have hso : ∀ u, ((osMtxSetOwner m t k₂).tasks u).taskQueue = (k.tasks u).taskQueue := by
        intro u
        rw [← hqueue]
        by_cases hu : u = t <;> simp [osMtxSetOwner, Kernel.setMtx, hu]
      refine .handed rfl hi ho hf' (fun u => ?_) ?_
      · rw [hsch.waiting_iff (hw.placed hps) (by simp),
          (hw.task u).waiting_iff hps.toStanding (by simp), hso]
        simp [eq_comm]
      · rw [hsch.deeds_eq, hw.deeds_eq (by simp) (by simp), deeds_setOwner, hd₂]

omit [Port] in
theorem mtxDestroy_waiting (hp : Placed k) (ho : Owned k) (h : osMtxDestroy n m k = .ok k')
    (t : TaskId) : (k'.tasks t).taskQueue ≠ some (.mtx m) := by
  obtain ⟨-, -, k₁, hk, hn, hsch⟩ := hp.mtxDestroy_calls h fun h t ht => ho t m ht h
  rw [ne_eq, (hsch.scheduled (Or.inl rfl)).waiting_iff hsch.1 (by simp)]
  exact hn t

omit [Port] in
theorem deeds_mtxDestroy (hp : Placed k) (ho : Owned k) (h : osMtxDestroy n m k = .ok k') :
    DeedStep k (.call (.mtxDestroy m)) k' := by
  obtain ⟨hi, -, k₁, hk, -, hsch⟩ := hp.mtxDestroy h fun h t ht => ho t m ht h
  have hend : (k₁.mtxs m).owner = none → k'.deeds = k₁.deeds := by
    intro h
    rw [hsch.deeds_eq]
    exact deeds_setMtx (k := k₁.setQueue (.mtx m) .zero) h.symm
  obtain ⟨hnone, rfl⟩ | ⟨how, k₂, hrel, hpath⟩ := hk
  · exact .same (hend hnone) (by simp)
  · have hd₁ : k₁.deeds = k.deeds.release m k.taskCurrent := by
      rw [← hrel.frame.1]
      exact hpath.deeds_eq (by simp) (by simp)
    have hno : (k₁.mtxs m).owner = none := by
      change k₁.deeds.owner m = none
      rw [hd₁]
      simp [Deeds.release]
    exact .released (Or.inr rfl) hi how (mtxDestroy_waiting hp ho h) (by simp)
      ((hend hno).trans hd₁)

/-- The functions that have to do with owners are those of mutexes. -/
theorem deeds_step (hs : Sound k) (hd : ∀ t, ¬ k.Live t → (k.tasks t).mtxList = [])
    (hsane : Sane k i) (h : exec n i k = .ok (k', r)) : DeedStep k i k' := by
  have hpath := exec_path hs.placed hs.owned hsane h
  have hother : (∀ m, ¬ Does k i (.owner m)) → (∀ t, ¬ Does k i (.create t)) → DeedStep k i k' := by
    intro hm ht
    refine .same (hpath.deeds_eq hm ht) fun m hi => ?_
    subst hi
    exact absurd (Or.inl rfl) (hm m)
  cases i with
  | call c =>
    cases c with
    | mtxCreate m =>
      obtain ⟨-, hx⟩ := Outcome.assert_ok (quiet_ok h).1
      obtain ⟨-, hx⟩ := Outcome.assert_ok hx
      cases hx
      exact .same (deeds_setMtx (k := k.setQueue (.mtx m) osTaskqueueInit) hsane.1.symm) (by simp)
    | mtxDestroy m => exact deeds_mtxDestroy hs.placed hs.owned (quiet_ok h).1
    | mtxLock m =>
      obtain ⟨c, hx, -⟩ := coded_ok h
      exact deeds_mtxLock hs.placed hx
    | mtxUnlock m => exact deeds_mtxUnlock hs.placed (quiet_ok h).1
    | taskCreate t p =>
      obtain ⟨-, -, -, k₁, ⟨q, rfl, -, -⟩, hsch⟩ := hs.placed.taskCreate (quiet_ok h).1 hsane
      refine .same (hsch.deeds_eq.trans (RadOs.deeds_eq (fun _ => rfl) fun u => ?_)) (by simp)
      by_cases hu : u = t
      · subst hu
        simp [osTaskInit, hd u hsane]
      · simp [hu]
    | _ => exact hother (fun m => by simp [Does]) fun t => by simp [Does]
  | resume =>
    exact hother (fun m => by simp [Does, Placed.JoinEnd])
      (fun t => by simp [Does, Placed.JoinEnd])
  | isrEnter => exact hother (fun m => by simp [Does]) fun t => by simp [Does]
  | isrExit => exact hother (fun m => by simp [Does]) fun t => by simp [Does]

omit [Port] in
/-- Who owns a mutex after a step owned it before, or has got it in the step. -/
theorem DeedStep.owner_cases (h : DeedStep k i k') (ht : (k'.mtxs m).owner = some t) :
    (k.mtxs m).owner = some t ∨
      (i = .call (.mtxLock m) ∧ (k.mtxs m).owner = none ∧ ActsIn t k) ∨
      (i = .call (.mtxUnlock m) ∧ k.IsFirst (.mtx m) t ∧
        (k'.tasks t).taskQueue ≠ some (.mtx m)) := by
  replace ht : k'.deeds.owner m = some t := ht
  cases h with
  | same h =>
    rw [h] at ht
    exact Or.inl ht
  | @taken m' hi hn ho h =>
    rw [h] at ht
    by_cases hm : m = m'
    · subst hm
      refine Or.inr (Or.inl ⟨hi, ho, hn, ?_⟩)
      simpa [Deeds.take, eq_comm] using ht
    · exact Or.inl (by simpa [Deeds.take, hm] using ht)
  | @released m' hi hn ho hw hu h =>
    rw [h] at ht
    by_cases hm : m = m'
    · simp [Deeds.release, hm] at ht
    · exact Or.inl (by simpa [Deeds.release, hm] using ht)
  | @handed m' u hi hn ho hf hq h =>
    rw [h] at ht
    by_cases hm : m = m'
    · subst hm
      obtain rfl : u = t := by simpa [Deeds.take] using ht
      exact Or.inr (Or.inr ⟨hi, hf, fun hx => ((hq u).mp hx).2 rfl⟩)
    · exact Or.inl (by simpa [Deeds.take, Deeds.release, hm] using ht)

omit [Port] in
/-- Nobody takes a mutex from its owner. -/
theorem DeedStep.owner_kept (h : DeedStep k i k') (ht : (k.mtxs m).owner = some t)
    (ha : ¬ ActsIn t k) : (k'.mtxs m).owner = some t := by
  change k'.deeds.owner m = some t
  cases h with
  | same h => exact h ▸ ht
  | @taken m' hi hn ho h =>
    have hm : m ≠ m' := by
      rintro rfl
      rw [ho] at ht
      cases ht
    rw [h]
    simpa [Deeds.take, hm] using ht
  | @released m' hi hn ho hw hu h =>
    have hm : m ≠ m' := by
      rintro rfl
      rw [ho] at ht
      exact ha ⟨hn, (Option.some.inj ht).symm⟩
    rw [h]
    simpa [Deeds.release, hm] using ht
  | @handed m' u hi hn ho hf hq h =>
    have hm : m ≠ m' := by
      rintro rfl
      rw [ho] at ht
      exact ha ⟨hn, (Option.some.inj ht).symm⟩
    rw [h]
    simpa [Deeds.take, Deeds.release, hm] using ht

omit [Port] in
theorem DeedStep.agree (h : DeedStep k i k') (ha : k.deeds.Agree) : k'.deeds.Agree := by
  cases h with
  | same h => exact h ▸ ha
  | taken hi hn ho h => exact h ▸ ha.take ho _
  | released hi hn ho hw hu h => exact h ▸ ha.release ho
  | handed hi hn ho hf hq h => exact h ▸ (ha.release ho).take (by simp [Deeds.release]) _

omit [Port] in
/-- The lists of the other tasks. -/
theorem DeedStep.mtxList_eq (h : DeedStep k i k') (ht : t ≠ k.taskCurrent)
    (hq : ∀ m, ¬ k.IsFirst (.mtx m) t) : (k'.tasks t).mtxList = (k.tasks t).mtxList := by
  change k'.deeds.held t = k.deeds.held t
  cases h with
  | same h => rw [h]
  | taken hi hn ho h => simp [h, Deeds.take, ht]
  | released hi hn ho hw hu h => simp [h, Deeds.release, ht]
  | @handed m u hi hn ho hf hqq h =>
    have hu : t ≠ u := by
      rintro rfl
      exact hq m hf
    simp [h, Deeds.take, Deeds.release, ht, hu]

/-- What `os_mtx_lock` does: it returns, to the new or old owner, or it waits for another task. -/
theorem lock_cases (hp : Placed k) (h : exec n (.call (.mtxLock m)) k = .ok (k', r)) :
    (r = some (.code .ok) ∧ (k'.mtxs m).owner = some k.taskCurrent ∧
        ∀ t, (k'.tasks t).taskQueue = (k.tasks t).taskQueue) ∨
      (r = none ∧ ∃ o, (k.mtxs m).owner = some o ∧ o ≠ k.taskCurrent) := by
  obtain ⟨c, hx, rfl⟩ := coded_ok h
  obtain ⟨-, -, -, ⟨-, rfl, rfl⟩ | ⟨ho, rfl, rfl⟩ | ⟨o, k₁, ho, hne, rfl, -⟩⟩ := hp.mtxLock hx
  · refine Or.inl ⟨rfl, by simp [osMtxSetOwner, Kernel.setMtx], fun t => ?_⟩
    by_cases ht : t = k.taskCurrent <;> simp [osMtxSetOwner, Kernel.setMtx, ht]
  · exact Or.inl ⟨rfl, by simp [Kernel.setMtx, ho], fun t => rfl⟩
  · exact Or.inr ⟨rfl, o, ho, hne⟩

omit [Port] in
theorem does_block_mtx (h : Does k i (.block (.mtx m))) : i = .call (.mtxLock m) := by
  revert h
  cases i with
  | call c => cases c <;> simp +contextual [Does]
  | resume => simp [Does, Placed.JoinEnd]
  | isrEnter => simp [Does]
  | isrExit => simp [Does]

end Steps

/-! ## Whole runs -/

section Runs
variable [Port] {k k' : Kernel} {i : Action} {n : ℕ} {r : Option Ret} {m : MtxId} {t : TaskId}

def Action.exits : Action → Bool
  | .call c => c.exits
  | _ => false

/-- No task exits while it owns a mutex. -/
def Unburdened (k : Kernel) (i : Action) : Prop := i.exits = true → k.current.mtxList = []

instance (k : Kernel) (i : Action) : Decidable (Unburdened k i) :=
  inferInstanceAs (Decidable (_ → _))

/-- Ownership is recorded consistently, and nobody waits for himself. -/
structure Titled (k : Kernel) : Prop where
  agree : k.deeds.Agree
  dead : ∀ t, ¬ k.Live t → (k.tasks t).mtxList = []
  waiter : ∀ t m, (k.tasks t).taskQueue = some (.mtx m) → (k.mtxs m).owner ≠ some t

theorem Titled.deeds_step (h : Titled k) (hs : Sound k) (hsane : Sane k i)
    (hx : exec n i k = .ok (k', r)) : DeedStep k i k' := RadOs.deeds_step hs h.dead hsane hx

omit [Port] in
/-- A task that takes no part in a step has its list from before. -/
theorem DeedStep.dead (h : DeedStep k i k') (hp : Placed k) (ht : ¬ k.Live t) :
    (k'.tasks t).mtxList = (k.tasks t).mtxList := by
  apply h.mtxList_eq
  · rintro rfl
    exact ht hp.currentLive
  · intro m hf
    exact ht (hp.live t (by simp [(hp.filed.first hf).1]))

theorem Titled.step (h : Titled k) (hs : Sound k) (hsane : Sane k i) (hu : Unburdened k i)
    (hx : exec n i k = .ok (k', r)) : Titled k' := by
  have hd := h.deeds_step hs hsane hx
  refine ⟨hd.agree h.agree, fun t ht => ?_, fun t m ht ho => ?_⟩
  · by_cases hl : k.Live t
    · obtain ⟨v, rfl, rfl⟩ : ∃ v, t = k.taskCurrent ∧ i = .call (.taskExit v) := by
        by_contra hno
        exact ht (live_step hs hsane hx hl fun v hc hi => hno ⟨v, hc, hi⟩)
      cases hd with
      | same hd => exact (congrArg (fun d => Deeds.held d k.taskCurrent) hd).trans (hu rfl)
      | taken hi => cases hi
      | released hi => simp at hi
      | handed hi => cases hi
    · exact (hd.dead hs.placed hl).trans (h.dead t hl)
  · have hwait := waiting_of_step hs hsane hx (Q := .mtx m) (by simp) ht
    obtain ho | ⟨rfl, hnone, -, rfl⟩ | ⟨-, -, hgone⟩ := hd.owner_cases ho
    · obtain hw | ⟨rfl, hb⟩ := hwait
      · exact h.waiter t m hw ho
      · -- the owner does not wait for its own mutex
        obtain rfl := does_block_mtx hb
        obtain ⟨-, -, hq⟩ | ⟨-, o, ho', hne⟩ := lock_cases hs.placed hx
        · rw [hq, hs.placed.current] at ht
          cases ht
        · rw [ho'] at ho
          exact hne (Option.some.inj ho)
    · obtain ⟨-, -, hq⟩ | ⟨-, o, ho', -⟩ := lock_cases hs.placed hx
      · rw [hq, hs.placed.current] at ht
        cases ht
      · rw [ho'] at hnone
        cases hnone
    · exact hgone ht

end Runs

end RadOs
