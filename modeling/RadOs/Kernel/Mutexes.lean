import RadOs.Kernel.Play

/-! # Mutexes

What a step does to one mutex. `os_mtx_lock` and `os_mtx_unlock` count the
locks of the owner in eight bits.
-/

namespace RadOs
open Bucketed Runs Budget

section Steps
variable [Port]

/-- What a step makes of the mutex `m`. -/
inductive MtxStep (k : Kernel) (m : MtxId) : Action → Option Ret → Mtx → Prop
  | same {i : Action} {r : Option Ret} (hl : i = .call (.mtxLock m) → r = none)
      (hu : i ≠ .call (.mtxUnlock m)) : MtxStep k m i r (k.mtxs m)
  | take (ho : (k.mtxs m).owner = none) :
      MtxStep k m (.call (.mtxLock m)) (some (.code .ok)) ⟨some k.taskCurrent, 1⟩
  | again (ho : (k.mtxs m).owner = some k.taskCurrent) :
      MtxStep k m (.call (.mtxLock m)) (some (.code .ok))
        ⟨some k.taskCurrent, ((k.mtxs m).recur + 1) % 256⟩
  | less (ho : (k.mtxs m).owner = some k.taskCurrent)
      (hr : 0 < ((k.mtxs m).recur + 255) % 256) :
      MtxStep k m (.call (.mtxUnlock m)) none
        ⟨some k.taskCurrent, ((k.mtxs m).recur + 255) % 256⟩
  | release {y : Mtx} (ho : (k.mtxs m).owner = some k.taskCurrent)
      (hr : ((k.mtxs m).recur + 255) % 256 = 0)
      (hy : y.owner = none ∨ ∃ t, t ≠ k.taskCurrent ∧ y = ⟨some t, 1⟩) :
      MtxStep k m (.call (.mtxUnlock m)) none y
  | create (ho : (k.mtxs m).owner = none) : MtxStep k m (.call (.mtxCreate m)) none .zero
  | destroy : MtxStep k m (.call (.mtxDestroy m)) none .zero

variable {k k' : Kernel} {m : MtxId} {n : ℕ} {r : Option Ret} {D : Kind → Prop}

omit [Port] in
theorem Path.mtxs_eq (h : Path D k k') (hD : ¬ D (.owner m)) : k'.mtxs m = k.mtxs m := by
  refine h.invariant (I := fun k₁ => k₁.mtxs m = k.mtxs m) (fun a k₁ k₂ ha hI hm => ?_) rfl
  rw [← hI]
  apply hm.mtxs_eq
  rintro rfl
  exact hD ha

omit [Port] in
theorem Scheduled.mtxs_eq {p : ℕ} (h : Scheduled p k k') (m : MtxId) : k'.mtxs m = k.mtxs m :=
  (h.path (D := fun a => a = .switch) rfl).mtxs_eq (by simp)

omit [Port] in
/-- The release of a mutex leaves it without an owner. -/
theorem Placed.MtxReleased.owner (h : Placed.MtxReleased m k k') :
    (k'.mtxs m).owner = none ∧ k'.taskCurrent = k.taskCurrent := by
  obtain ⟨k₁, -, rfl, hr⟩ := h
  obtain ⟨p, rfl⟩ := Placed.mtxUnlockPrioReset hr
  exact ⟨by simp [Kernel.setMtx], rfl⟩

omit [Port] in
theorem mtxStep_lock (hp : Placed k) {c : Option RetCode} (h : osMtxLock n m k = .ok (k', c)) :
    MtxStep k m (.call (.mtxLock m)) (c.map .code) (k'.mtxs m) := by
  obtain ⟨-, -, -, ⟨ho, rfl, rfl⟩ | ⟨ho, rfl, rfl⟩ | ⟨o, k₁, -, -, rfl, -, hpath, hb⟩⟩ :=
    hp.mtxLock h
  · simpa [osMtxSetOwner, Kernel.setMtx] using MtxStep.take ho
  · simpa [Kernel.setMtx, ho] using MtxStep.again ho
  · have hm : k'.mtxs m = k.mtxs m := by
      rw [hb.mtxs_eq (by simp), hpath.mtxs_eq (by simp)]
    rw [hm]
    exact .same (by simp) (by simp)

omit [Port] in
theorem mtxStep_unlock (hp : Placed k) (h : osMtxUnlock m k = .ok k') :
    MtxStep k m (.call (.mtxUnlock m)) none (k'.mtxs m) := by
  obtain ⟨-, ho, -, k₁, rfl, hcase⟩ := hp.mtxUnlock h
  obtain ⟨hr, rfl⟩ | ⟨hr, k₂, hrel, hcase⟩ := hcase
  · simpa [Kernel.setMtx, ho] using MtxStep.less ho hr
  · have hp₁ := (Move.setMtx k m { k.mtxs m with recur := ((k.mtxs m).recur + 255) % 256 }).placed hp
    have hp₂ := (hrel.path hp₁).placed hp₁
    obtain ⟨hno, hcur⟩ := hrel.owner
    obtain ⟨-, rfl⟩ | ⟨t, k₃, hf, hw, hsch⟩ := hcase
    · exact .release ho hr (Or.inl hno)
    · have hne : t ≠ k.taskCurrent := by
        have := hp₂.not_current (t := t) (by simp [(hp₂.filed.first hf).1])
        rwa [hcur] at this
      refine .release ho hr (Or.inr ⟨t, hne, ?_⟩)
      rw [hsch.mtxs_eq, hw.mtxs_eq (by simp)]
      simp [osMtxSetOwner, Kernel.setMtx]

theorem mtxStep {i : Action} (hs : Sound k) (hi : Sane k i) (h : exec n i k = .ok (k', r))
    (m : MtxId) : MtxStep k m i r (k'.mtxs m) := by
  by_cases hm : i = .call (.mtxCreate m) ∨ i = .call (.mtxDestroy m) ∨ i = .call (.mtxLock m) ∨
      i = .call (.mtxUnlock m)
  · obtain rfl | rfl | rfl | rfl := hm
    · obtain ⟨hx, rfl⟩ := quiet_ok h
      obtain ⟨-, hx⟩ := Outcome.assert_ok hx
      obtain ⟨-, hx⟩ := Outcome.assert_ok hx
      cases hx
      simpa [Kernel.setMtx] using MtxStep.create hi.1
    · obtain ⟨hx, rfl⟩ := quiet_ok h
      obtain ⟨-, -, k₁, -, -, hsch⟩ := hs.placed.mtxDestroy hx fun h t ht => hs.owned t m ht h
      rw [hsch.mtxs_eq]
      simpa [Kernel.setMtx] using MtxStep.destroy (k := k) (m := m)
    · obtain ⟨c, hx, rfl⟩ := coded_ok h
      exact mtxStep_lock hs.placed hx
    · obtain ⟨hx, rfl⟩ := quiet_ok h
      exact mtxStep_unlock hs.placed hx
  · have hpath := exec_path hs.placed hs.owned hi h
    rw [hpath.mtxs_eq fun hd => hm (does_owner hd)]
    refine .same (fun hl => ?_) fun hu => ?_
    · simp [hl] at hm
    · simp [hu] at hm

end Steps

/-! ## Recursion -/

/-- The numbers of successful locks and of unlocks of the mutex since its owner became the owner,
the grant included. The steps are listed latest first. -/
def tally (m : MtxId) : List KernelStep → ℕ × ℕ
  | [] => (0, 0)
  | x :: tr =>
    if (x.post.mtxs m).owner ≠ (x.pre.mtxs m).owner then
      if (x.post.mtxs m).owner = none then (0, 0) else (1, 0)
    else if x.label = (.call (.mtxLock m), some (.code .ok)) then
      ((tally m tr).1 + 1, (tally m tr).2)
    else if x.label.1 = .call (.mtxUnlock m) then ((tally m tr).1, (tally m tr).2 + 1)
    else tally m tr

/-- `recur` counts the unmatched locks in eight bits. -/
def Counts (m : MtxId) (tr : List KernelStep) (k : Kernel) : Prop :=
  (k.mtxs m).owner ≠ none → (tally m tr).2 < (tally m tr).1 ∧
    (k.mtxs m).recur = ((tally m tr).1 - (tally m tr).2) % 256

section Recursion
variable [Port] {k k' : Kernel} {m : MtxId} {tr : List KernelStep} {i : Action} {r : Option Ret}

omit [Port] in
theorem Counts.step (hc : Counts m tr k) (h : MtxStep k m i r (k'.mtxs m)) :
    Counts m (⟨k, (i, r), k'⟩ :: tr) k' := by
  intro ho'
  generalize hy : k'.mtxs m = y at h ho'
  cases h with
  | same hl hu =>
    have hne : (i, r) ≠ (.call (.mtxLock m), some (.code .ok)) := by
      rintro ⟨⟩
      cases hl rfl
    simpa [tally, hy, hne, hu] using hc ho'
  | take ho => simp [tally, hy, ho]
  | again ho =>
    obtain ⟨h₁, h₂⟩ := hc (by simp [ho])
    simp only [tally, hy, ho, ne_eq, not_true_eq_false, if_false, if_true]
    omega
  | less ho hr =>
    obtain ⟨h₁, h₂⟩ := hc (by simp [ho])
    simp only [tally, hy, ho, ne_eq, not_true_eq_false, if_false, if_true, Prod.mk.injEq,
      reduceCtorEq, and_false]
    omega
  | release ho hr hcase =>
    obtain hn | ⟨t, ht, rfl⟩ := hcase
    · exact absurd hn ho'
    · simp [tally, hy, ho, ht]
  | create ho => exact absurd rfl ho'
  | destroy => exact absurd rfl ho'

/-- The owner keeps the mutex but for the unlock that matches its first lock. -/
def Balanced (m : MtxId) (tr : List KernelStep) (x : KernelStep) : Prop :=
  ∀ t, (x.pre.mtxs m).owner = some t → x.label.1 ≠ .call (.mtxDestroy m) →
    ((x.post.mtxs m).owner = some t ↔
      ¬ (x.label.1 = .call (.mtxUnlock m) ∧ (tally m tr).2 + 1 = (tally m tr).1))

/-- No unlock with a number of unmatched locks that eight bits take for one. -/
def Fits (m : MtxId) (tr : List KernelStep) (x : KernelStep) : Prop :=
  x.label.1 = .call (.mtxUnlock m) →
    ((tally m tr).1 - (tally m tr).2) % 256 = 1 → (tally m tr).1 - (tally m tr).2 = 1

theorem counts_of_run (h : (kernelSystem.restrict fun k i => Sane k i.1).Run tr k) :
    Counts m tr k := by
  refine (h.invariant (I := fun tr k => Sound k ∧ Counts m tr k) ?_ ?_).2
  · rintro k rfl
    exact ⟨sound_init, fun ho => absurd rfl ho⟩
  · rintro tr k ⟨i, r⟩ k' - ⟨hs, hc⟩ ⟨hi, -, hst⟩
    obtain ⟨n, hn⟩ := hst.exists_eq
    exact ⟨hs.exec hi hn, hc.step (mtxStep hs hi hn m)⟩

omit [Port] in
theorem balanced_iff_fits (hc : Counts m tr k) (h : MtxStep k m i r (k'.mtxs m)) :
    Balanced m tr ⟨k, (i, r), k'⟩ ↔ Fits m tr ⟨k, (i, r), k'⟩ := by
  simp only [Balanced, Fits]
  generalize k'.mtxs m = y at h
  cases h with
  | same hl hu => simp +contextual [hu]
  | take ho => simp [ho]
  | again ho => simp [ho]
  | less ho hr =>
    obtain ⟨h₁, h₂⟩ := hc (by simp [ho])
    simp only [ho, Option.some.injEq, true_and, forall_eq', ne_eq, Action.call.injEq, reduceCtorEq,
      not_false_eq_true, forall_const, true_iff]
    omega
  | release ho hr hcase =>
    obtain ⟨h₁, h₂⟩ := hc (by simp [ho])
    have hne : ¬ y.owner = some k.taskCurrent := by
      obtain hn | ⟨t, ht, rfl⟩ := hcase
      · simp [hn]
      · simpa using ht
    simp only [ho, Option.some.injEq, true_and, forall_eq', ne_eq, Action.call.injEq, reduceCtorEq,
      not_false_eq_true, forall_const, hne, false_iff, not_not]
    omega
  | create ho => simp [ho]
  | destroy => simp

/-- Recursive locking is balanced in a run iff no unlock of it is made with a number of unmatched
locks greater than one that eight bits take for one. -/
theorem recursive_locking_balanced_iff
    (h : (kernelSystem.restrict fun k i => Sane k i.1).Run tr k) (m : MtxId) :
    System.Along (Balanced m) tr ↔ System.Along (Fits m) tr := by
  refine h.along_iff ?_
  rintro tr k ⟨i, r⟩ k' h ⟨hi, -, hst⟩
  obtain ⟨n, hn⟩ := hst.exists_eq
  have hs := sound_of_reachable (P := fun k i => Sane k i.1) (fun _ _ h => h) ⟨tr, h⟩
  exact balanced_iff_fits (counts_of_run h) (mtxStep hs hi hn m)

end Recursion

instance (m : MtxId) (tr : List KernelStep) (x : KernelStep) : Decidable (Fits m tr x) :=
  inferInstanceAs (Decidable (_ → _ → _))

/-- The task 1 locks the mutex 0 `n` times. -/
def lockedRun (n : ℕ) : List Action :=
  [.call (.mtxCreate 0), .call (.taskCreate 1 1), .call .start, .resume] ++
    List.replicate n (.call (.mtxLock 0))

theorem recursive_locking_balanced_iff_twice : ∃ tr k,
    (kernelSystem.restrict fun k i => Sane k i.1).Run tr k ∧
    (k.mtxs 0).owner = some 1 ∧ tally 0 tr = (2, 1) ∧ System.Along (Balanced 0) tr := by
  obtain ⟨⟨tr, k⟩, hk, hx⟩ := Outcome.exists_of_holds
    (x := playRun saneCheck 10 (lockedRun 2 ++ [.call (.mtxUnlock 0)]) [] (osInit coldKernel))
    (p := fun (tr, k) => decide ((k.mtxs 0).owner = some 1 ∧ tally 0 tr = (2, 1) ∧
      System.Along (Fits 0) tr)) (by decide +kernel)
  obtain ⟨ho, ht, hfit⟩ := of_decide_eq_true hx
  have hr := run_of_playRun (P := fun k i => Sane k i.1) (fun _ _ h => h)
    (fun _ _ _ hs h => sane_of_check hs h) (.start rfl) hk
  exact ⟨tr, k, hr, ho, ht, (recursive_locking_balanced_iff hr 0).mpr hfit⟩

theorem recursive_locking_wraps : ∃ tr x k,
    (kernelSystem.restrict fun k i => Sane k i.1).Run (x :: tr) k ∧
    (x.pre.mtxs 0).owner = some 1 ∧ x.label.1 = .call (.mtxUnlock 0) ∧ tally 0 tr = (257, 0) ∧
    (x.post.mtxs 0).owner = none ∧ ¬ Balanced 0 tr x := by
  obtain ⟨⟨tr, k⟩, hk, hx⟩ := Outcome.exists_of_holds
    (x := playRun saneCheck 10 (lockedRun 257 ++ [.call (.mtxUnlock 0)]) [] (osInit coldKernel))
    (p := fun (tr, _) => match tr with
      | [] => false
      | x :: tr => decide ((x.pre.mtxs 0).owner = some 1 ∧ x.label.1 = .call (.mtxUnlock 0) ∧
        tally 0 tr = (257, 0) ∧ (x.post.mtxs 0).owner = none)) (by decide +kernel)
  have hr := run_of_playRun (P := fun k i => Sane k i.1) (fun _ _ h => h)
    (fun _ _ _ hs h => sane_of_check hs h) (.start rfl) hk
  cases tr with
  | nil => cases hx
  | cons x tr =>
    obtain ⟨ho, hi, ht, hn⟩ := of_decide_eq_true hx
    refine ⟨tr, x, k, hr, ho, hi, ht, hn, fun hb => ?_⟩
    have := hb 1 ho (by simp [hi])
    simp [hn, hi, ht] at this

end RadOs
