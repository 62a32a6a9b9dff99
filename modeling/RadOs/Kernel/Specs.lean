import RadOs.Kernel.Paths

/-! # What the interface functions do, one by one -/

namespace RadOs
open Bucketed
variable [Port]

section Frames
variable {k k' : Kernel}

omit [Port] in
theorem Awaits.join_eq {u t : TaskId} {c : Ctx} (h : Awaits u c (.sem (.join t))) : u = t := by
  cases c with
  | semDown s =>
    obtain ⟨h₁, h₂⟩ := h
    cases h₁
    exact absurd rfl (h₂ t)
  | joinDown v => simpa [Awaits, eq_comm] using h
  | _ => simp [Awaits] at h

omit [Port] in
/-- Priority changes change nothing else. -/
theorem Path.reprio_frame (h : Path (fun a => ∃ u, a = .reprio u) k k') :
    k'.taskCurrent = k.taskCurrent ∧ k'.isrNesting = k.isrNesting ∧ k'.mtxs = k.mtxs ∧
      ∃ (p : TaskId → ℕ) (q : QueueId → TaskQueue), k' = { k with
        tasks := fun t => { k.tasks t with prioCurrent := p t }, queues := q } := by
  induction h with
  | refl => exact ⟨rfl, rfl, rfl, fun t => (k.tasks t).prioCurrent, k.queues, rfl⟩
  | tail _ ha hm ih =>
    obtain ⟨u, rfl⟩ := ha
    obtain ⟨hc, hi, hx, p, q, hk⟩ := ih
    cases hm with
    | @reprio _ _ _ v h =>
      obtain ⟨q', rfl, -, -⟩ := h
      refine ⟨hc, hi, hx, Function.update p u v, q', ?_⟩
      subst hk
      simp only [Kernel.setTask, Kernel.mk.injEq, and_true]
      funext t
      by_cases ht : t = u
      · subst ht
        simp
      · simp [ht]

omit [Port] in
theorem Filed.setOwner (h : Filed k) (m : MtxId) (t : TaskId) : Filed (osMtxSetOwner m t k) :=
  (show Filed (k.setMtx m ⟨some t, 1⟩) from h).setTask rfl fun _ => rfl

omit [Port] in
theorem Move.setOwner (k : Kernel) (m : MtxId) (t : TaskId) :
    Move (.owner m) k (osMtxSetOwner m t k) := .owner rfl

omit [Port] in
theorem Move.setMtx (k : Kernel) (m : MtxId) (y : Mtx) : Move (.owner m) k (k.setMtx m y) :=
  .owner (t := k.taskCurrent) (l := k.current.mtxList)
    (Kernel.setTask_self (k := k.setMtx m y)).symm

omit [Port] in
/-- Another task runs after a switch. -/
theorem Move.taskCurrent_ne {a : Kind} (hp : Placed k) (h : Move a k k') (ha : a.still = false) :
    k'.taskCurrent ≠ k.taskCurrent := by
  cases h with
  | switch hi hl hn hp' hc h =>
    obtain ⟨q, rfl, -, -⟩ := h
    exact hp.not_current (by simp [Kernel.switched, hn.1])
  | switchIsr hi hl hn hp' h =>
    obtain ⟨q, rfl, -, -⟩ := h
    exact hp.not_current (by simp [Kernel.switchedIsr, hn.1])
  | block hi hd hr hn hc hm hq h =>
    obtain ⟨q, rfl, -, -⟩ := h
    exact hp.not_current (by simp [Kernel.blocked, hn.1])
  | exit hn hd h =>
    obtain ⟨q, rfl, -, -⟩ := h
    exact hp.not_current (by simp [Kernel.exited, hn.1])
  | _ => cases ha

omit [Port] in
/-- The task that has blocked. -/
theorem Move.block_current {Q : QueueId} (hp : Placed k) (h : Move (.block Q) k k') :
    k'.taskCurrent ≠ k.taskCurrent ∧ ∃ c, Awaits k.taskCurrent c Q ∧
      k'.tasks k.taskCurrent = { k.current with
        state := .wait, blockType := Q.blockType, taskQueue := some Q, ctx := c } := by
  cases h with
  | @block _ _ _ c newTask hi hd hr hn hc hm hq h =>
    obtain ⟨q, rfl, -, -⟩ := h
    exact ⟨hp.not_current (by simp [Kernel.blocked, hn.1]), c, hc, by simp [Kernel.blocked]⟩

end Frames

namespace Placed
variable {k k' : Kernel} {Q : QueueId} {t : TaskId} {c : Ctx} {n : ℕ}

/-- The timer of a blocking call with the timeout `timeoutTicks` is set up. -/
def Timed (n : ℕ) (proc : TimerProc) (timeoutTicks : ℕ) (k k' : Kernel) : Prop :=
  (timeoutTicks = osTimeoutInfinite ∧ k' = k) ∨
    ∃ x, timeoutTicks ≠ osTimeoutInfinite ∧ k.current.timer = none ∧
      osTimerCreate n (.block k.taskCurrent) proc timeoutTicks 0 k.timers = .ok x ∧
      k' = { k.setTask k.taskCurrent { k.current with timer := some (.block k.taskCurrent) } with
        timers := x }

omit [Port] in
theorem timed {proc : TimerProc} {timeoutTicks : ℕ}
    (h : (if timeoutTicks ≠ osTimeoutInfinite then osBlocktimerCreate n proc timeoutTicks k
      else .ok k) = .ok k') : Timed n proc timeoutTicks k k' := by
  split at h
  · rename_i hne
    obtain ⟨ht, h⟩ := Outcome.assert_ok h
    obtain ⟨x, hx, h⟩ := Outcome.bind_ok h
    cases h
    exact Or.inr ⟨x, hne, ht, hx, rfl⟩
  · rename_i ht
    cases h
    exact Or.inl ⟨by simpa using ht, rfl⟩

omit [Port] in
theorem Timed.move {proc : TimerProc} {timeoutTicks : ℕ} (h : Timed n proc timeoutTicks k k') :
    Move .timers k k' := by
  obtain ⟨-, rfl⟩ | ⟨x, -, -, -, h⟩ := h
  · exact .timers (x := k'.timers) (show k' = { k'.setTask k'.taskCurrent
      { k'.current with timer := k'.current.timer } with timers := k'.timers } by
        simp [Kernel.setTask, Kernel.current])
  · exact .timers h

omit [Port] in
theorem Timed.frame {proc : TimerProc} {timeoutTicks : ℕ} (h : Timed n proc timeoutTicks k k') :
    k'.taskCurrent = k.taskCurrent ∧ k'.isrNesting = k.isrNesting ∧ k'.mtxs = k.mtxs := by
  obtain ⟨-, rfl⟩ | ⟨x, -, -, -, rfl⟩ := h
  · exact ⟨rfl, rfl, rfl⟩
  · exact ⟨rfl, rfl, rfl⟩

omit [Port] in
theorem blocktimerDestroy (h : osBlocktimerDestroy k.taskCurrent k = .ok k') :
    ∃ x, k.Untimed k.taskCurrent none x ∧
      k' = { k.setTask k.taskCurrent { k.current with timer := none } with timers := x } := by
  unfold osBlocktimerDestroy at h
  split at h
  · rename_i ht
    cases h
    refine ⟨k.timers, Or.inl ⟨ht.symm, rfl⟩, ?_⟩
    simp [Kernel.setTask, Kernel.current, ← ht]
  · rename_i y hy
    obtain ⟨x, hx, h₁⟩ := Outcome.bind_ok h
    cases h₁
    exact ⟨x, Or.inr ⟨y, hy, hx, rfl⟩, rfl⟩

omit [Port] in
/-- Only a task itself waits on its join semaphore. -/
theorem no_joiner (hp : Placed k) (u : TaskId) :
    (k.tasks u).taskQueue ≠ some (.sem (.join k.taskCurrent)) := by
  intro hu
  obtain ⟨-, hw, -⟩ := hp.wait u _ hu (by simp)
  exact hp.not_current (by simp [hu]) hw.join_eq

/-- A function ends with a call of `os_schedule`. -/
def Calls (p : ℕ) (c : Ctx) (k k' : Kernel) : Prop := Placed k ∧ osSchedule p c k = .ok k'

omit [Port] in
theorem Calls.scheduled {p : ℕ} (h : Calls p c k k')
    (hc : c = .schedule ∨ ∃ t, c = .joinDestroy t) : Scheduled p k k' := h.1.schedule h.2 hc

omit [Port] in
/-- Where the task continues that has called. -/
theorem Calls.ctx {p : ℕ} (h : Calls p c k k') (hi : k.isrNesting = 0) :
    k'.taskCurrent = k.taskCurrent ∨ (k'.tasks k.taskCurrent).ctx = c := by
  obtain rfl | ⟨-, hc⟩ := h.1.schedule_ctx h.2 hi
  · exact Or.inl rfl
  · exact Or.inr hc

/-! ## Semaphores -/

theorem semCreate {s : SemId} {v : ℕ} (h : osSemCreate s v k = .ok k') :
    v < Port.atomicMax ∧ k' = (k.setQueue (.sem s) osTaskqueueInit).setSem s v := by
  obtain ⟨hv, h⟩ := Outcome.assert_ok h
  obtain ⟨-, h⟩ := Outcome.assert_ok h
  cases h
  exact ⟨hv, rfl⟩

omit [Port] in
theorem semDestroy_calls (hp : Placed k) {s : SemId} (h : osSemDestroy n s c k = .ok k') :
    ∃ k₁, Path (fun a => ∃ t, a = .wake t (.sem s) .destroyed) k k₁ ∧
      (∀ t, (k₁.tasks t).taskQueue ≠ some (.sem s)) ∧
      Calls 1 c ((k₁.setQueue (.sem s) .zero).setSem s 0) k' := by
  obtain ⟨-, h⟩ := Outcome.assert_ok h
  obtain ⟨-, h⟩ := Outcome.assert_ok h
  obtain ⟨k₁, hd, h⟩ := Outcome.bind_ok h
  obtain ⟨hpath, hn⟩ := destroyLoop (by simp) hp (Or.inl rfl) hd
  have hq : Move (.queue (.sem s)) k₁ (k₁.setQueue (.sem s) .zero) := .queue hn rfl
  have hs : Move (.sem s) (k₁.setQueue (.sem s) .zero) ((k₁.setQueue (.sem s) .zero).setSem s 0) :=
    .sem rfl
  exact ⟨k₁, hpath, hn, hs.placed (hq.placed (hpath.placed hp)), h⟩

omit [Port] in
theorem semDestroy (hp : Placed k) {s : SemId} (h : osSemDestroy n s c k = .ok k')
    (hc : c = .schedule ∨ ∃ t, c = .joinDestroy t) :
    ∃ k₁, Path (fun a => ∃ t, a = .wake t (.sem s) .destroyed) k k₁ ∧
      (∀ t, (k₁.tasks t).taskQueue ≠ some (.sem s)) ∧
      Scheduled 1 ((k₁.setQueue (.sem s) .zero).setSem s 0) k' := by
  obtain ⟨k₁, hpath, hn, hsch⟩ := hp.semDestroy_calls h
  exact ⟨k₁, hpath, hn, hsch.scheduled hc⟩

omit [Port] in
theorem semDown (hp : Placed k) {s : SemId} {timeoutTicks : ℕ} {r : Option RetCode}
    (h : osSemDown n s timeoutTicks c k = .ok (k', r)) (hc : Awaits k.taskCurrent c (.sem s)) :
    k.current.mtxList = [] ∧
    ((0 < k.sems s ∧ r = some .ok ∧ k' = k.setSem s (k.sems s - 1)) ∨
      (k.sems s = 0 ∧ timeoutTicks = osTimeoutTry ∧ r = some .wouldblock ∧ k' = k) ∨
      (k.sems s = 0 ∧ r = none ∧ ∃ k₁,
        Timed n (.osSemTimerclbck k.taskCurrent) timeoutTicks k k₁ ∧
        Move (.block (.sem s)) k₁ k')) := by
  obtain ⟨hi, h⟩ := Outcome.assert_ok h
  obtain ⟨hd, h⟩ := Outcome.assert_ok h
  obtain ⟨-, h⟩ := Outcome.assert_ok h
  obtain ⟨hm, h⟩ := Outcome.assert_ok h
  refine ⟨hm, ?_⟩
  split at h
  · rename_i hv
    cases h
    exact Or.inl ⟨hv, rfl, rfl⟩
  · rename_i hv
    have hv : k.sems s = 0 := by omega
    split at h
    · rename_i ht
      cases h
      exact Or.inr (Or.inl ⟨hv, ht, rfl, rfl⟩)
    · obtain ⟨k₁, ht, h₁⟩ := Outcome.bind_ok h
      obtain ⟨k₂, hb, h₂⟩ := Outcome.bind_ok h₁
      cases h₂
      have htm := timed ht
      obtain ⟨hcur, hisr, -⟩ := htm.frame
      refine Or.inr (Or.inr ⟨hv, rfl, k₁, htm, ?_⟩)
      apply (htm.move.placed hp).blockSwitch hb
      · rw [hisr, hi]
      · rwa [hcur]
      · simp
      · rwa [hcur]
      · simp

theorem semUp_calls (hp : Placed k) {s : SemId} {sync : Bool}
    (h : osSemUpSync s sync c k = .ok k') :
    k.sems s < Port.atomicMax - 1 ∧
    (((∀ t, (k.tasks t).taskQueue ≠ some (.sem s)) ∧ k' = k.setSem s (k.sems s + 1)) ∨
      ∃ t k₁, k.IsFirst (.sem s) t ∧ Move (.wake t (.sem s) .ok) k k₁ ∧
        ((sync = true ∧ k' = k₁) ∨ (sync = false ∧ Calls 1 c k₁ k'))) := by
  obtain ⟨-, h⟩ := Outcome.assert_ok h
  obtain ⟨-, h⟩ := Outcome.assert_ok h
  obtain ⟨hv, h⟩ := Outcome.assert_ok h
  refine ⟨hv, ?_⟩
  obtain ⟨⟨r, k₁⟩, hd, h₁⟩ := Outcome.bind_ok h
  obtain ⟨rfl, rfl, hn⟩ | ⟨t, rfl, hf, hre⟩ := hp.filed.dequeue hd
  · cases h₁
    exact Or.inl ⟨hn, rfl⟩
  · obtain ⟨k₂, ht, h₂⟩ := Outcome.bind_ok h₁
    obtain ⟨k₃, hw, h₃⟩ := Outcome.bind_ok h₂
    have hm := wake_untimed (hp.filed.first hf).1 (by simp) hre ht hw
    refine Or.inr ⟨t, k₃, hf, hm, ?_⟩
    split at h₃
    · rename_i hs
      cases h₃
      exact Or.inl ⟨hs, rfl⟩
    · rename_i hs
      exact Or.inr ⟨by simpa using hs, hm.placed hp, h₃⟩

theorem semUp (hp : Placed k) {s : SemId} {sync : Bool} (h : osSemUpSync s sync c k = .ok k')
    (hc : sync = true ∨ c = .schedule) :
    k.sems s < Port.atomicMax - 1 ∧
    (((∀ t, (k.tasks t).taskQueue ≠ some (.sem s)) ∧ k' = k.setSem s (k.sems s + 1)) ∨
      ∃ t k₁, k.IsFirst (.sem s) t ∧ Move (.wake t (.sem s) .ok) k k₁ ∧
        ((sync = true ∧ k' = k₁) ∨ Scheduled 1 k₁ k')) := by
  obtain ⟨hv, hk⟩ := hp.semUp_calls h
  refine ⟨hv, hk.imp_right ?_⟩
  rintro ⟨t, k₁, hf, hm, hk⟩
  refine ⟨t, k₁, hf, hm, hk.imp_right ?_⟩
  rintro ⟨hs, hsch⟩
  exact hsch.scheduled (Or.inl (hc.resolve_left (by simp [hs])))

/-! ## Mutexes -/

omit [Port] in
theorem mtxClearOwner {m : MtxId} {t : TaskId} (ht : (k.mtxs m).owner = some t)
    (h : osMtxClearOwner m k = .ok k') :
    m ∈ (k.tasks t).mtxList ∧ k' = (k.setMtx m { k.mtxs m with owner := none }).setTask t
      { k.tasks t with mtxList := (k.tasks t).mtxList.erase m } := by
  unfold osMtxClearOwner at h
  rw [ht] at h
  simp only at h
  split at h
  · rename_i hm
    cases h
    exact ⟨hm, rfl⟩
  · cases h

omit [Port] in
theorem mtxUnlockPrioReset (h : osMtxUnlockPrioReset k = .ok k') :
    ∃ p, k' = k.setTask k.taskCurrent { k.current with prioCurrent := p } := by
  unfold osMtxUnlockPrioReset at h
  split at h
  · obtain ⟨p, -, h₁⟩ := Outcome.bind_ok h
    cases h₁
    exact ⟨p, rfl⟩
  · cases h
    exact ⟨k.current.prioCurrent, by simp [Kernel.setTask, Kernel.current]⟩

omit [Port] in
/-- The running task is in no queue, so its priority can be set in place. -/
theorem reprio_current (hp : Placed k) (p : ℕ) :
    Move (.reprio k.taskCurrent) k (k.setTask k.taskCurrent { k.current with prioCurrent := p }) :=
  .reprio (Realizes.refl (hp.filed.setTask rfl fun h => absurd hp.current h))

omit [Port] in
theorem prioBoostLoop (hp : Placed k) {p : ℕ} (h : prioBoostLoop p n t k = .ok k') :
    Path (fun a => ∃ u, a = .reprio u) k k' := by
  induction n generalizing k t with
  | zero => cases h
  | succ n ih =>
    obtain ⟨k₁, hr, h₁⟩ := Outcome.bind_ok h
    have hm : Move (.reprio t) k k₁ := .reprio (hp.filed.reprio hr)
    have hs : Path (fun a => ∃ u, a = .reprio u) k k₁ := .single ⟨t, rfl⟩ hm
    split at h₁
    · cases h₁
      exact hs
    · split at h₁
      · split at h₁
        · exact hs.trans (ih (hm.placed hp) h₁)
        · cases h₁
      · cases h₁

omit [Port] in
theorem mtxLockPrioBoost (hp : Placed k) {m : MtxId} (h : osMtxLockPrioBoost n m k = .ok k') :
    Path (fun a => ∃ u, a = .reprio u) k k' := by
  unfold osMtxLockPrioBoost at h
  split at h
  · cases h
  · split at h
    · exact hp.prioBoostLoop h
    · cases h
      exact .refl _

omit [Port] in
theorem mtxLock (hp : Placed k) {m : MtxId} {r : Option RetCode}
    (h : osMtxLock n m k = .ok (k', r)) :
    k.isrNesting = 0 ∧ k.taskCurrent ≠ taskIdle ∧ k.waitqueueCurrent = none ∧
    (((k.mtxs m).owner = none ∧ r = some .ok ∧ k' = osMtxSetOwner m k.taskCurrent k) ∨
      ((k.mtxs m).owner = some k.taskCurrent ∧ r = some .ok ∧
        k' = k.setMtx m { k.mtxs m with recur := ((k.mtxs m).recur + 1) % 256 }) ∨
      ∃ o k₁, (k.mtxs m).owner = some o ∧ o ≠ k.taskCurrent ∧ r = none ∧
        osMtxLockPrioBoost n m k = .ok k₁ ∧ Path (fun a => ∃ u, a = .reprio u) k k₁ ∧
        Move (.block (.mtx m)) k₁ k') := by
  obtain ⟨hi, h⟩ := Outcome.assert_ok h
  obtain ⟨hd, h⟩ := Outcome.assert_ok h
  obtain ⟨hw, h⟩ := Outcome.assert_ok h
  refine ⟨hi, hd, hw, ?_⟩
  split at h
  · rename_i ho
    cases h
    exact Or.inl ⟨ho, rfl, rfl⟩
  · rename_i ho
    split at h
    · rename_i hc
      cases h
      exact Or.inr (Or.inl ⟨hc, rfl, rfl⟩)
    · rename_i hc
      obtain ⟨k₁, hb, h₁⟩ := Outcome.bind_ok h
      obtain ⟨k₂, hs, h₂⟩ := Outcome.bind_ok h₁
      cases h₂
      obtain ⟨o, ho⟩ := Option.ne_none_iff_exists'.mp ho
      have hpath := hp.mtxLockPrioBoost hb
      obtain ⟨hcur, hisr, hmtx, -⟩ := hpath.reprio_frame
      refine Or.inr (Or.inr ⟨o, k₁, ho, ?_, rfl, hb, hpath, ?_⟩)
      · rintro rfl
        exact hc ho
      · apply (hpath.placed hp).blockSwitch hs
        · rw [hisr, hi]
        · rwa [hcur]
        · simp
        · rfl
        · rintro m' ⟨⟩
          rw [hmtx, ho]
          simp

omit [Port] in
/-- The first waiting task becomes the owner and is woken. -/
theorem handoff {m : MtxId} {k₁ : Kernel} (hQ : (k.tasks t).taskQueue = some (.mtx m))
    (h₁ : Realizes (k.setTask t { k.tasks t with taskQueue := none }) k₁)
    (h : wakeup t .ok (osMtxSetOwner m t k₁) = .ok k') :
    Move (.wake t (.mtx m) .ok) (osMtxSetOwner m t k) k' := by
  obtain ⟨q, rfl, hf, hl⟩ := h₁
  obtain ⟨q', rfl, hf', hl'⟩ := (hf.setOwner m t).wakeup (by simp [osMtxSetOwner]) h
  refine .wake (by simpa [osMtxSetOwner] using hQ) (by simp) (Or.inl ⟨rfl, rfl⟩)
    (Or.inr (Or.inl ⟨m, rfl⟩))
    ⟨q', ?_, hf', fun Q' => (hl' Q').trans (hl Q')⟩
  simp [Kernel.woken, Kernel.setTask, osMtxSetOwner, Kernel.setMtx]

/-- The mutex `m` of the running task is released and its priority set anew. -/
def MtxReleased (m : MtxId) (k k' : Kernel) : Prop :=
  ∃ k₁, m ∈ k.current.mtxList ∧
    k₁ = (k.setMtx m { k.mtxs m with owner := none }).setTask k.taskCurrent
      { k.current with mtxList := k.current.mtxList.erase m } ∧
    osMtxUnlockPrioReset k₁ = .ok k'

omit [Port] in
theorem MtxReleased.path (hp : Placed k) {m : MtxId} (h : MtxReleased m k k') :
    Path (fun a => a = .owner m ∨ a = .reprio k.taskCurrent) k k' := by
  obtain ⟨k₁, -, hk, hr⟩ := h
  have ho : Move (.owner m) k k₁ := .owner hk
  have hc : k₁.taskCurrent = k.taskCurrent := by rw [hk]; rfl
  obtain ⟨p, rfl⟩ := mtxUnlockPrioReset hr
  have hm := (ho.placed hp).reprio_current p
  rw [hc] at hm
  exact (Path.single (Or.inl rfl) ho).tail (Or.inr rfl) (by rw [hc]; exact hm)

omit [Port] in
theorem mtxUnlock_calls (hp : Placed k) {m : MtxId} (h : osMtxUnlock m k = .ok k') :
    k.isrNesting = 0 ∧ (k.mtxs m).owner = some k.taskCurrent ∧ k.waitqueueCurrent = none ∧
    ∃ k₁, k₁ = k.setMtx m { k.mtxs m with recur := ((k.mtxs m).recur + 255) % 256 } ∧
    ((0 < ((k.mtxs m).recur + 255) % 256 ∧ k' = k₁) ∨
      ((k.mtxs m).recur + 255) % 256 = 0 ∧ ∃ k₂, MtxReleased m k₁ k₂ ∧
      (((∀ t, (k₂.tasks t).taskQueue ≠ some (.mtx m)) ∧ k' = k₂) ∨
        ∃ t k₃, k₂.IsFirst (.mtx m) t ∧ Move (.wake t (.mtx m) .ok) (osMtxSetOwner m t k₂) k₃ ∧
          Calls 1 .schedule k₃ k')) := by
  obtain ⟨hi, h⟩ := Outcome.assert_ok h
  obtain ⟨ho, h⟩ := Outcome.assert_ok h
  obtain ⟨hw, h⟩ := Outcome.assert_ok h
  refine ⟨hi, ho, hw, _, rfl, ?_⟩
  simp only at h
  split at h
  · rename_i hr
    cases h
    exact Or.inl ⟨hr, rfl⟩
  · rename_i hr
    obtain ⟨k₁, hc, h₁⟩ := Outcome.bind_ok h
    obtain ⟨k₂, hre, h₂⟩ := Outcome.bind_ok h₁
    obtain ⟨⟨r, k₃⟩, hd, h₃⟩ := Outcome.bind_ok h₂
    obtain ⟨hm, hk⟩ := mtxClearOwner (t := k.taskCurrent) (by simpa [Kernel.setMtx] using ho) hc
    have hrel : MtxReleased m (k.setMtx m
        { k.mtxs m with recur := ((k.mtxs m).recur + 255) % 256 }) k₂ := ⟨k₁, hm, hk, hre⟩
    have hp₁ := (Move.setMtx k m
      { k.mtxs m with recur := ((k.mtxs m).recur + 255) % 256 }).placed hp
    have hp₂ := (hrel.path hp₁).placed hp₁
    refine Or.inr ⟨by omega, k₂, hrel, ?_⟩
    obtain ⟨rfl, rfl, hn⟩ | ⟨t, rfl, hf, hre⟩ := hp₂.filed.dequeue hd
    · cases h₃
      exact Or.inl ⟨hn, rfl⟩
    · obtain ⟨k₄, hw, h₄⟩ := Outcome.bind_ok h₃
      have hm := handoff (hp₂.filed.first hf).1 hre hw
      have hs := (Move.setOwner k₂ m t).placed hp₂
      exact Or.inr ⟨t, k₄, hf, hm, hm.placed hs, h₄⟩

omit [Port] in
theorem mtxUnlock (hp : Placed k) {m : MtxId} (h : osMtxUnlock m k = .ok k') :
    k.isrNesting = 0 ∧ (k.mtxs m).owner = some k.taskCurrent ∧ k.waitqueueCurrent = none ∧
    ∃ k₁, k₁ = k.setMtx m { k.mtxs m with recur := ((k.mtxs m).recur + 255) % 256 } ∧
    ((0 < ((k.mtxs m).recur + 255) % 256 ∧ k' = k₁) ∨
      ((k.mtxs m).recur + 255) % 256 = 0 ∧ ∃ k₂, MtxReleased m k₁ k₂ ∧
      (((∀ t, (k₂.tasks t).taskQueue ≠ some (.mtx m)) ∧ k' = k₂) ∨
        ∃ t k₃, k₂.IsFirst (.mtx m) t ∧ Move (.wake t (.mtx m) .ok) (osMtxSetOwner m t k₂) k₃ ∧
          Scheduled 1 k₃ k')) := by
  obtain ⟨hi, ho, hw, k₁, hk₁, hcase⟩ := hp.mtxUnlock_calls h
  refine ⟨hi, ho, hw, k₁, hk₁, hcase.imp_right ?_⟩
  rintro ⟨hr, k₂, hrel, hcase⟩
  refine ⟨hr, k₂, hrel, hcase.imp_right ?_⟩
  rintro ⟨t, k₃, hf, hm, hsch⟩
  exact ⟨t, k₃, hf, hm, hsch.scheduled (Or.inl rfl)⟩

omit [Port] in
/-- `os_mtx_destroy`, unless it clears a mutex that has waiting tasks but no owner. -/
theorem mtxDestroy_calls (hp : Placed k) {m : MtxId} (h : osMtxDestroy n m k = .ok k')
    (hw : (k.mtxs m).owner = none → ∀ t, (k.tasks t).taskQueue ≠ some (.mtx m)) :
    k.isrNesting = 0 ∧ k.waitqueueCurrent = none ∧
    ∃ k₁, (((k.mtxs m).owner = none ∧ k₁ = k) ∨
      ((k.mtxs m).owner = some k.taskCurrent ∧ ∃ k₂, MtxReleased m k k₂ ∧
        Path (fun a => ∃ t, a = .wake t (.mtx m) .destroyed) k₂ k₁)) ∧
      (∀ t, (k₁.tasks t).taskQueue ≠ some (.mtx m)) ∧
      Calls 1 .schedule ((k₁.setQueue (.mtx m) .zero).setMtx m .zero) k' := by
  obtain ⟨hi, h⟩ := Outcome.assert_ok h
  obtain ⟨hwq, h⟩ := Outcome.assert_ok h
  obtain ⟨k₁, hb, h₁⟩ := Outcome.bind_ok h
  have hk₁ : (((k.mtxs m).owner = none ∧ k₁ = k) ∨
      ((k.mtxs m).owner = some k.taskCurrent ∧ ∃ k₂, MtxReleased m k k₂ ∧
        Path (fun a => ∃ t, a = .wake t (.mtx m) .destroyed) k₂ k₁)) ∧
      (∀ t, (k₁.tasks t).taskQueue ≠ some (.mtx m)) ∧ Placed k₁ := by
    split at hb
    · rename_i ho
      cases hb
      exact ⟨Or.inl ⟨ho, rfl⟩, hw ho, hp⟩
    · obtain ⟨ho, hb⟩ := Outcome.assert_ok hb
      obtain ⟨k₂, hc, hb⟩ := Outcome.bind_ok hb
      obtain ⟨k₃, hr, hb⟩ := Outcome.bind_ok hb
      obtain ⟨hm, hk⟩ := mtxClearOwner ho hc
      have hrel : MtxReleased m k k₃ := ⟨k₂, hm, hk, hr⟩
      have hp₃ := (hrel.path hp).placed hp
      obtain ⟨hpath, hn⟩ := destroyLoop (by simp) hp₃ (Or.inr ⟨m, rfl⟩) hb
      exact ⟨Or.inr ⟨ho, k₃, hrel, hpath⟩, hn, hpath.placed hp₃⟩
  obtain ⟨hcase, hn, hp₁⟩ := hk₁
  have hq : Move (.queue (.mtx m)) k₁ (k₁.setQueue (.mtx m) .zero) := .queue hn rfl
  have hp₂ := (Move.setMtx _ m .zero).placed (hq.placed hp₁)
  exact ⟨hi, hwq, k₁, hcase, hn, hp₂, h₁⟩

omit [Port] in
theorem mtxDestroy (hp : Placed k) {m : MtxId} (h : osMtxDestroy n m k = .ok k')
    (hw : (k.mtxs m).owner = none → ∀ t, (k.tasks t).taskQueue ≠ some (.mtx m)) :
    k.isrNesting = 0 ∧ k.waitqueueCurrent = none ∧
    ∃ k₁, (((k.mtxs m).owner = none ∧ k₁ = k) ∨
      ((k.mtxs m).owner = some k.taskCurrent ∧ ∃ k₂, MtxReleased m k k₂ ∧
        Path (fun a => ∃ t, a = .wake t (.mtx m) .destroyed) k₂ k₁)) ∧
      (∀ t, (k₁.tasks t).taskQueue ≠ some (.mtx m)) ∧
      Scheduled 1 ((k₁.setQueue (.mtx m) .zero).setMtx m .zero) k' := by
  obtain ⟨hi, hwq, k₁, hcase, hn, hsch⟩ := hp.mtxDestroy_calls h hw
  exact ⟨hi, hwq, k₁, hcase, hn, hsch.scheduled (Or.inl rfl)⟩

/-! ## Wait queues -/

omit [Port] in
theorem waitqueueDestroy_calls (hp : Placed k) {q : WaitqueueId}
    (h : osWaitqueueDestroy n q k = .ok k') :
    k.waitqueueCurrent = none ∧
    ∃ k₁, Path (fun a => ∃ t, a = .wake t (.waitqueue q) .destroyed) k k₁ ∧
      (∀ t, (k₁.tasks t).taskQueue ≠ some (.waitqueue q)) ∧
      Calls 1 .schedule (k₁.setQueue (.waitqueue q) .zero) k' := by
  obtain ⟨hw, h⟩ := Outcome.assert_ok h
  obtain ⟨k₁, hd, h⟩ := Outcome.bind_ok h
  obtain ⟨hpath, hn⟩ := destroyLoop (by simp) hp (Or.inl rfl) hd
  have hq : Move (.queue (.waitqueue q)) k₁ (k₁.setQueue (.waitqueue q) .zero) := .queue hn rfl
  exact ⟨hw, k₁, hpath, hn, hq.placed (hpath.placed hp), h⟩

omit [Port] in
theorem waitqueueDestroy (hp : Placed k) {q : WaitqueueId}
    (h : osWaitqueueDestroy n q k = .ok k') :
    k.waitqueueCurrent = none ∧
    ∃ k₁, Path (fun a => ∃ t, a = .wake t (.waitqueue q) .destroyed) k k₁ ∧
      (∀ t, (k₁.tasks t).taskQueue ≠ some (.waitqueue q)) ∧
      Scheduled 1 (k₁.setQueue (.waitqueue q) .zero) k' := by
  obtain ⟨hw, k₁, hpath, hn, hsch⟩ := hp.waitqueueDestroy_calls h
  exact ⟨hw, k₁, hpath, hn, hsch.scheduled (Or.inl rfl)⟩

omit [Port] in
theorem waitqueuePrepare {q : WaitqueueId} (h : osWaitqueuePrepare q k = .ok k') :
    k.isrNesting = 0 ∧ k.taskCurrent ≠ taskIdle ∧ k.current.mtxList = [] ∧
      k.waitqueueCurrent = none ∧
      k' = { k with schedLock := k.schedLock + 1 }.setCtx (.prepare q) := by
  obtain ⟨hi, h⟩ := Outcome.assert_ok h
  obtain ⟨hd, h⟩ := Outcome.assert_ok h
  obtain ⟨hm, h⟩ := Outcome.assert_ok h
  obtain ⟨hw, h⟩ := Outcome.assert_ok h
  obtain ⟨k₁, hl, h⟩ := Outcome.bind_ok h
  obtain ⟨-, hl⟩ := Outcome.assert_ok hl
  obtain ⟨-, hl⟩ := Outcome.assert_ok hl
  cases hl
  cases h
  exact ⟨hi, hd, hm, hw, rfl⟩

omit [Port] in
theorem waitqueueWait (hp : Placed k) {timeoutTicks : ℕ} {r : Option RetCode}
    (h : osWaitqueueWait n timeoutTicks k = .ok (k', r)) :
    k.isrNesting = 0 ∧ k.taskCurrent ≠ taskIdle ∧ k.current.mtxList = [] ∧
    ((k.waitqueueCurrent = none ∧ r = some k.current.blockCode ∧
        k' = { k with schedLock := k.schedLock - 1 }.setCtx .user) ∨
      ∃ q k₁, k.waitqueueCurrent = some q ∧ r = none ∧
        Timed n (.osWaitqueueTimerclbck k.taskCurrent) timeoutTicks
          { k with schedLock := k.schedLock - 1 } k₁ ∧
        Move (.block (.waitqueue q)) { k₁ with waitqueueCurrent := none } k') := by
  obtain ⟨hi, h⟩ := Outcome.assert_ok h
  obtain ⟨hd, h⟩ := Outcome.assert_ok h
  obtain ⟨-, h⟩ := Outcome.assert_ok h
  obtain ⟨hm, h⟩ := Outcome.assert_ok h
  refine ⟨hi, hd, hm, ?_⟩
  simp only at h
  split at h
  · rename_i hw
    cases h
    exact Or.inl ⟨hw, rfl, rfl⟩
  · rename_i q hw
    obtain ⟨k₁, ht, h⟩ := Outcome.bind_ok h
    obtain ⟨k₂, hb, h⟩ := Outcome.bind_ok h
    cases h
    have htm := timed ht
    obtain ⟨hcur, hisr, -⟩ := htm.frame
    have hp₀ : Placed { k with schedLock := k.schedLock - 1 } :=
      (Move.scalars rfl).placed hp
    have hp₁ : Placed { k₁ with waitqueueCurrent := none } :=
      (Move.scalars rfl).placed (htm.move.placed hp₀)
    refine Or.inr ⟨q, k₁, hw, rfl, htm, ?_⟩
    apply hp₁.blockSwitch hb
    · exact hisr.trans hi
    · exact hcur ▸ hd
    · simp
    · rfl
    · simp

/-- A wakeup from an interrupt handler takes the running task back from the wait queue it is
prepared to wait on. -/
def caught (q : WaitqueueId) (k : Kernel) : Kernel :=
  if 0 < k.isrNesting ∧ k.waitqueueCurrent = some q then { k with waitqueueCurrent := none } else k

omit [Port] in
theorem caught_move (q : WaitqueueId) (k : Kernel) : Move .scalars k (caught q k) := by
  unfold caught
  split
  · exact .scalars rfl
  · exact .scalars (i := k.isrNesting) (l := k.schedLock) (w := k.waitqueueCurrent)
      (b := k.started) rfl

omit [Port] in
theorem waitqueueWakeup_calls (hp : Placed k) {q : WaitqueueId} {cnt : ℕ} {sync : Bool}
    (h : osWaitqueueWakeupSync n q cnt sync k = .ok k') :
    (0 < k.isrNesting ∨ k.waitqueueCurrent = none) ∧ (k.isrNesting = 0 ∨ sync = false) ∧
    ∃ k₁, Path (fun a => ∃ t, a = .wake t (.waitqueue q) .ok) (caught q k) k₁ ∧
      (cnt = osWaitqueueAll → ∀ t, (k₁.tasks t).taskQueue ≠ some (.waitqueue q)) ∧
      (k' = k₁ ∨ Calls 1 .schedule k₁ k') := by
  obtain ⟨hw, h⟩ := Outcome.assert_ok h
  obtain ⟨hs, h⟩ := Outcome.assert_ok h
  obtain ⟨-, h⟩ := Outcome.assert_ok h
  refine ⟨hw, hs, ?_⟩
  obtain ⟨⟨k₁, b⟩, hl, h⟩ := Outcome.bind_ok h
  have hp₁ : Placed (caught q k) := (caught_move q k).placed hp
  obtain ⟨hpath, hall⟩ := wakeupLoop hp₁ hl
  refine ⟨k₁, hpath, fun hc => hall (by simp [hc]), ?_⟩
  simp only at h
  split at h
  · exact Or.inr ⟨hpath.placed hp₁, h⟩
  · cases h
    exact Or.inl rfl

omit [Port] in
theorem waitqueueWakeup (hp : Placed k) {q : WaitqueueId} {cnt : ℕ} {sync : Bool}
    (h : osWaitqueueWakeupSync n q cnt sync k = .ok k') :
    (0 < k.isrNesting ∨ k.waitqueueCurrent = none) ∧ (k.isrNesting = 0 ∨ sync = false) ∧
    ∃ k₁, Path (fun a => ∃ t, a = .wake t (.waitqueue q) .ok) (caught q k) k₁ ∧
      (cnt = osWaitqueueAll → ∀ t, (k₁.tasks t).taskQueue ≠ some (.waitqueue q)) ∧
      (k' = k₁ ∨ Scheduled 1 k₁ k') := by
  obtain ⟨hw, hs, k₁, hpath, hall, hk⟩ := hp.waitqueueWakeup_calls h
  exact ⟨hw, hs, k₁, hpath, hall, hk.imp_right fun hsch => hsch.scheduled (Or.inl rfl)⟩

/-! ## Tasks -/

theorem taskCreate_calls (hp : Placed k) {p : ℕ} (h : osTaskCreate t p k = .ok k')
    (hl : ¬ k.Live t) :
    k.isrNesting = 0 ∧ k.waitqueueCurrent = none ∧ 0 < p ∧
      ∃ k₁, Realizes (k.setTask t { osTaskInit p with taskQueue := some .ready }) k₁ ∧
        Calls 1 .schedule k₁ k' := by
  obtain ⟨hi, h⟩ := Outcome.assert_ok h
  obtain ⟨hw, h⟩ := Outcome.assert_ok h
  obtain ⟨-, h⟩ := Outcome.assert_ok h
  obtain ⟨h0, h⟩ := Outcome.assert_ok h
  obtain ⟨k₁, he, h⟩ := Outcome.bind_ok h
  have hq : (k.tasks t).taskQueue = none := by
    by_contra hq
    exact hl (hp.live t hq)
  have hf : Filed (k.setTask t (osTaskInit p)) := hp.filed.setTask (by simp [osTaskInit, hq])
    fun hn => absurd hq hn
  have hr : Realizes (k.setTask t { osTaskInit p with taskQueue := some .ready }) k₁ := by
    simpa [Kernel.setTask] using hf.enqueue (by simp [osTaskInit]) he
  exact ⟨hi, hw, h0, k₁, hr, (Move.create h0 hl hr).placed hp, h⟩

theorem taskCreate (hp : Placed k) {p : ℕ} (h : osTaskCreate t p k = .ok k') (hl : ¬ k.Live t) :
    k.isrNesting = 0 ∧ k.waitqueueCurrent = none ∧ 0 < p ∧
      ∃ k₁, Realizes (k.setTask t { osTaskInit p with taskQueue := some .ready }) k₁ ∧
        Scheduled 1 k₁ k' := by
  obtain ⟨hi, hw, h0, k₁, hr, hsch⟩ := hp.taskCreate_calls h hl
  exact ⟨hi, hw, h0, k₁, hr, hsch.scheduled (Or.inl rfl)⟩

omit [Port] in
theorem joinFinish {r : Ret} (h : joinFinish t k = .ok (k', r)) : Move (.join t) k k' := by
  obtain ⟨hd, h⟩ := Outcome.assert_ok h
  cases h
  exact .join (by simp) (Or.inr ⟨hd, rfl⟩) rfl

/-- What the end of `os_task_join` does in the task `cur`. -/
def JoinEnd (cur t : TaskId) (a : Kind) : Prop :=
  (∃ u, a = .wake u (.sem (.join cur)) .destroyed) ∨ a = .queue (.sem (.join cur)) ∨
    a = .sem (.join cur) ∨ a = .switch ∨ a = .join t ∨ a = .ctx (.joinDown t) .user

omit [Port] in
/-- The running task goes on in `os_task_join` behind the destruction of its semaphore. -/
theorem joinDestroyed (hp : Placed k) {r : RetCode} {v : Option Ret}
    (hc : k.current.ctx = .joinDown t) (h : joinDestroyed n t r k = .ok (k', v)) :
    Parts (JoinEnd k.taskCurrent t) k k' := by
  obtain ⟨-, h⟩ := Outcome.assert_ok h
  obtain ⟨k₁, hd, h⟩ := Outcome.bind_ok h
  obtain ⟨k₂, hpath, hn, hs⟩ := hp.semDestroy hd (Or.inr ⟨t, rfl⟩)
  have hfr := hpath.wakeFrame fun a ⟨u, hu⟩ => ⟨u, _, _, hu⟩
  have hq : Move (.queue (.sem (.join k.taskCurrent))) k₂ _ := .queue (b := false) hn rfl
  have hm := Move.sem (k := k₂.setQueue (.sem (.join k.taskCurrent)) .zero)
    (s := .join k.taskCurrent) (v := 0) rfl
  have hp₃ := hm.placed (hq.placed (hpath.placed hp))
  have h₃ : Path (fun a => JoinEnd k.taskCurrent t a ∧ a.still = true) k
      ((k₂.setQueue (.sem (.join k.taskCurrent)) .zero).setSem (.join k.taskCurrent) 0) := by
    refine Path.tail (Path.tail (hpath.mono ?_) ?_ hq) ?_ hm
    · rintro a ⟨u, rfl⟩
      simp [JoinEnd, Kind.still]
    · simp [JoinEnd, Kind.still]
    · simp [JoinEnd, Kind.still]
  obtain ⟨rfl, -⟩ | hsw := hs
  · -- no switch has happened, so the place of the task in its code is still the same
    have hcur : ((k₂.setQueue (.sem (.join k.taskCurrent)) .zero).setSem
        (.join k.taskCurrent) 0).taskCurrent = k.taskCurrent := hfr.taskCurrent
    rw [if_pos hcur] at h
    obtain ⟨⟨k₄, w⟩, hf, h⟩ := Outcome.bind_ok h
    cases h
    have hctx : (k₂.tasks k₂.taskCurrent).ctx = .joinDown t := by
      rw [hfr.ctx, hfr.taskCurrent]
      exact hc
    have hctx₄ : k₄.current.ctx = .joinDown t := by
      obtain ⟨-, hf⟩ := Outcome.assert_ok hf
      cases hf
      by_cases ht : k₂.taskCurrent = t
      · simpa [Kernel.current, Kernel.setSem, Kernel.setQueue, ht] using hctx
      · simpa [Kernel.current, Kernel.setSem, Kernel.setQueue, ht] using hctx
    have hend := Move.ctx (k := k₄) (c := .user) (Or.inr rfl) rfl
    rw [hctx₄] at hend
    exact .stay ((h₃.tail (by simp [JoinEnd, Kind.still]) (joinFinish hf)).tail
      (by simp [JoinEnd, Kind.still]) hend)
  · have hne : k₁.taskCurrent ≠ k.taskCurrent := fun he =>
      hsw.taskCurrent_ne hp₃ rfl (he.trans hfr.taskCurrent.symm)
    rw [if_neg hne] at h
    cases h
    exact .last h₃ (by simp [JoinEnd]) rfl hsw

theorem taskJoin (hp : Placed k) {v : Option Ret} (h : osTaskJoin n t k = .ok (k', v)) :
    Move (.join t) k k' ∨
      (v = none ∧ k.current.mtxList = [] ∧ ∃ k₁ k₂,
        k₁ = (k.setQueue (.sem (.join k.taskCurrent)) osTaskqueueInit).setSem
          (.join k.taskCurrent) 0 ∧
        k₂ = k₁.setTask t { k₁.tasks t with joinSem := some (.join k.taskCurrent) } ∧
        Move (.block (.sem (.join k.taskCurrent))) k₂ k') := by
  obtain ⟨hi, h⟩ := Outcome.assert_ok h
  obtain ⟨-, h⟩ := Outcome.assert_ok h
  obtain ⟨-, h⟩ := Outcome.assert_ok h
  obtain ⟨-, h⟩ := Outcome.assert_ok h
  obtain ⟨-, h⟩ := Outcome.assert_ok h
  split at h
  · cases h
  · split at h
    · right
      obtain ⟨k₁, hc, h⟩ := Outcome.bind_ok h
      obtain ⟨⟨k₂, r⟩, hd, h⟩ := Outcome.bind_ok h
      obtain ⟨-, rfl⟩ := semCreate hc
      have hn : ∀ u, (k.tasks u).taskQueue ≠ some (.sem (.join k.taskCurrent)) := hp.no_joiner
      have hp₁ := (Move.sem (s := .join k.taskCurrent) (v := 0) rfl).placed
        ((Move.queue (b := true) hn rfl).placed hp)
      have hp₂ := (Move.join (t := t) (j := some (.join k.taskCurrent))
        (by simp) (Or.inl rfl) rfl).placed hp₁
      obtain ⟨hm, ⟨hv, -⟩ | ⟨-, ht, -⟩ | ⟨-, rfl, k₃, htm, hb⟩⟩ := hp₂.semDown hd rfl
      · simp [Kernel.setSem, Kernel.setTask] at hv
      · simp [osTimeoutInfinite, osTimeoutTry, osTicksMax] at ht
      · cases h
        obtain ⟨-, rfl⟩ | ⟨x, hne, -⟩ := htm
        · refine ⟨rfl, ?_, _, _, rfl, rfl, hb⟩
          by_cases htc : t = k.taskCurrent
          · subst htc
            simpa [Kernel.current, Kernel.setSem, Kernel.setQueue] using hm
          · simpa [Kernel.current, Kernel.setSem, Kernel.setQueue, Ne.symm htc] using hm
        · exact absurd rfl hne
    · obtain ⟨⟨k₁, w⟩, hf, h⟩ := Outcome.bind_ok h
      cases h
      exact Or.inl (joinFinish hf)

/-- A signal without a call of `os_schedule`, also while the running task is on its way out. -/
theorem semUp_sync (hf : Filed k) {s : SemId} (h : osSemUpSync s true c k = .ok k') :
    ((∀ t, (k.tasks t).taskQueue ≠ some (.sem s)) ∧ k' = k.setSem s (k.sems s + 1)) ∨
      ∃ t, Move (.wake t (.sem s) .ok) k k' := by
  obtain ⟨-, h⟩ := Outcome.assert_ok h
  obtain ⟨-, h⟩ := Outcome.assert_ok h
  obtain ⟨-, h⟩ := Outcome.assert_ok h
  obtain ⟨⟨r, k₁⟩, hd, h₁⟩ := Outcome.bind_ok h
  obtain ⟨rfl, rfl, hn⟩ | ⟨t, rfl, hfst, hre⟩ := hf.dequeue hd
  · cases h₁
    exact Or.inl ⟨hn, rfl⟩
  · obtain ⟨k₂, ht, h₂⟩ := Outcome.bind_ok h₁
    obtain ⟨k₃, hw, h₃⟩ := Outcome.bind_ok h₂
    cases h₃
    exact Or.inr ⟨t, wake_untimed (hf.first hfst).1 (by simp) hre ht hw⟩

omit [Port] in
/-- Waking a task does not depend on the data of the running task. -/
theorem wake_unmarked (hp : Placed k) {y : Task} {r : RetCode} (hy : y.taskQueue = none)
    (h : Move (.wake t Q r) (k.setTask k.taskCurrent y) k') :
    ∃ k₁, Move (.wake t Q r) k k₁ ∧ k' = k₁.setTask k.taskCurrent y ∧
      k₁.taskCurrent = k.taskCurrent ∧ k₁.current = k.current := by
  cases h with
  | @wake _ _ _ _ _ tm x hQ hr hu ht h =>
    have hne : t ≠ k.taskCurrent := by
      rintro rfl
      simp [hy] at hQ
    simp only [Kernel.setTask_tasks, Function.update_of_ne hne] at hQ
    obtain ⟨q, rfl, hf, hl⟩ := h
    refine ⟨{ k.woken t r tm x with queues := q }, .wake hQ hr ?_ ht ⟨q, rfl, ?_, hl⟩, ?_, rfl, ?_⟩
    · simpa [Kernel.Untimed, hne, Kernel.setTask] using hu
    · refine hf.congr rfl fun u => ?_
      by_cases hu : u = k.taskCurrent
      · subst hu
        simp [Kernel.woken, Kernel.setTask, hne.symm, hy, hp.current]
      · by_cases hut : u = t
        · subst hut
          simp [Kernel.woken, Kernel.setTask, hne]
        · simp [Kernel.woken, Kernel.setTask, hu, hut]
    · simp [Kernel.woken, Kernel.setTask, hne, Function.update_comm hne]
    · simp [Kernel.current, Kernel.woken, Kernel.setTask, hne.symm]

/-- The task that waits for the running one to exit is woken, if there is one. -/
def Signalled (k k' : Kernel) : Prop :=
  (k.current.joinSem = none ∧ k' = k) ∨ ∃ s, k.current.joinSem = some s ∧
    (((∀ t, (k.tasks t).taskQueue ≠ some (.sem s)) ∧ k' = k.setSem s (k.sems s + 1)) ∨
      ∃ t, Move (.wake t (.sem s) .ok) k k')

/-- The signal to the joining task commutes with the mark on the exiting one. -/
theorem taskExitSignal (hp : Placed k) {v : ℤ} (h : taskExitSignal v k = .ok k') :
    ∃ k₁, Signalled k k₁ ∧
      k₁.taskCurrent = k.taskCurrent ∧ k₁.current = k.current ∧ Placed k₁ ∧
      k' = k₁.setTask k.taskCurrent { k.current with retValue := v, state := .destroyed } := by
  have hy : ({ k.current with retValue := v, state := .destroyed } : Task).taskQueue = none :=
    hp.current
  have hf₀ : Filed (k.setTask k.taskCurrent
      { k.current with retValue := v, state := .destroyed }) := hp.filed.setTask rfl fun _ => rfl
  unfold RadOs.taskExitSignal at h
  simp only at h
  split at h
  · rename_i hs
    cases h
    exact ⟨k, Or.inl ⟨by simpa [Kernel.current] using hs, rfl⟩, rfl, rfl, hp, rfl⟩
  · rename_i s hs
    have hs : k.current.joinSem = some s := by simpa [Kernel.current] using hs
    obtain ⟨hn, rfl⟩ | ⟨t, hm⟩ := semUp_sync hf₀ h
    · have hn' : ∀ u, (k.tasks u).taskQueue ≠ some (.sem s) := by
        intro u hu
        have hne : u ≠ k.taskCurrent := hp.not_current (by simp [hu])
        exact hn u (by simpa [hne] using hu)
      exact ⟨k.setSem s (k.sems s + 1), Or.inr ⟨s, hs, Or.inl ⟨hn', rfl⟩⟩, rfl, rfl,
        (Move.sem (s := s) rfl).placed hp, rfl⟩
    · obtain ⟨k₁, hm, hk, hc, he⟩ := hp.wake_unmarked hy hm
      exact ⟨k₁, Or.inr ⟨s, hs, Or.inr ⟨t, hm⟩⟩, hc, he, hm.placed hp, hk⟩

theorem taskExit (hp : Placed k) {v : ℤ} (h : osTaskExit v k = .ok k')
    (hd : k.taskCurrent ≠ taskIdle) :
    ∃ k₁, Signalled k k₁ ∧ k₁.taskCurrent = k.taskCurrent ∧ k₁.current = k.current ∧
      Move .exit k₁ k' ∧ (k'.tasks k.taskCurrent).retValue = v := by
  have hy : ({ k.current with retValue := v, state := .destroyed } : Task).taskQueue = none :=
    hp.current
  obtain ⟨k₂, hj, h⟩ := Outcome.bind_ok h
  obtain ⟨⟨r, k₃⟩, hq, h⟩ := Outcome.bind_ok h
  obtain ⟨k₁, hcase, hc, he, hp₁, rfl⟩ := hp.taskExitSignal hj
  refine ⟨k₁, hcase, hc, he, ?_⟩
  have hf₁ : Filed (k₁.setTask k.taskCurrent
      { k.current with retValue := v, state := .destroyed }) := by
    rw [← hc, ← he]
    exact hp₁.filed.setTask rfl fun _ => rfl
  obtain ⟨rfl, rfl, -⟩ | ⟨newTask, rfl, hfst, hre⟩ := hf₁.dequeue hq
  · cases h
  · cases h
    have hn := hf₁.first hfst
    have hne : newTask ≠ k.taskCurrent := by
      rintro rfl
      simp [hy] at hn
    have hnext : k₁.Next newTask := by
      refine ⟨by simpa [hne] using hn.1, fun u hu => ?_⟩
      have hu' : u ≠ k.taskCurrent := hc ▸ hp₁.not_current (by simp [hu])
      simpa [hne, hu'] using hn.2 u (by simpa [hu'] using hu)
    obtain ⟨q, rfl, hf₂, hl₂⟩ := hre
    refine ⟨.exit (v := v) hnext (hc ▸ hd) ⟨q, ?_, hf₂.congr rfl fun u => ?_, hl₂⟩, ?_⟩
    · have he' : k₁.tasks k.taskCurrent = k.tasks k.taskCurrent := by
        rw [Kernel.current, Kernel.current, hc] at he
        exact he
      simp [Kernel.exited, archContextSwitch, Kernel.setCtx, Kernel.setTask, hc, he', hne, hne.symm,
        Function.update_comm hne, Kernel.current]
    · by_cases hu : u = k.taskCurrent
      · simp [archContextSwitch, Kernel.setCtx, Kernel.current, hu, Kernel.setTask, hc]
      · simp [archContextSwitch, Kernel.setCtx, Kernel.current, hu, Kernel.setTask, hc]
    · simp [archContextSwitch, Kernel.setCtx, Kernel.current, Kernel.setTask, hc, hne.symm]

/-! ## Ticks -/

omit [Port] in
/-- A timeout wakes its task, wherever it waits. -/
theorem blockTimerclbck (hp : Placed k) (h : blockTimerclbck t k = .ok k') :
    ∃ Q, Move (.wake t Q .timeout) k k' := by
  obtain ⟨hw, h⟩ := Outcome.assert_ok h
  obtain ⟨k₁, hu, h⟩ := Outcome.bind_ok h
  obtain ⟨⟨Q, hQ⟩, hr⟩ := hp.filed.unlink hu
  refine ⟨Q, wake hQ ?_ hr (Or.inl rfl) h⟩
  rintro rfl
  have := hp.ready t hQ
  simp [hw] at this

omit [Port] in
theorem timerClbck (hp : Placed k) {x : TimerId} (h : timerClbck x k = .ok k') :
    (k' = k ∧ (k.timers.timers x).proc = .user) ∨ ∃ t Q, Move (.wake t Q .timeout) k k' ∧
      ((k.timers.timers x).proc = .osSemTimerclbck t ∨
        (k.timers.timers x).proc = .osWaitqueueTimerclbck t) := by
  unfold RadOs.timerClbck at h
  split at h
  · rename_i hx
    cases h
    exact Or.inl ⟨rfl, hx⟩
  · rename_i t hx
    obtain ⟨Q, hm⟩ := hp.blockTimerclbck h
    exact Or.inr ⟨t, Q, hm, Or.inl hx⟩
  · rename_i t hx
    obtain ⟨Q, hm⟩ := hp.blockTimerclbck h
    exact Or.inr ⟨t, Q, hm, Or.inr hx⟩

omit [Port] in
theorem setTimers_move (x : Timers TimerId TimerProc) (k : Kernel) :
    Move .timers k { k with timers := x } :=
  .timers (x := x) (show _ = { k.setTask k.taskCurrent
    { k.current with timer := k.current.timer } with timers := x } by
      simp [Kernel.setTask, Kernel.current])

omit [Port] in
theorem tickTimers (hp : Placed k) (h : osTickTimers RadOs.timerClbck n k = .ok k') :
    Path (fun a => a = .timers ∨ ∃ t Q, a = .wake t Q .timeout) k k' := by
  refine osTickTimers_invariant
    (P := Path (fun a => a = .timers ∨ ∃ t Q, a = .wake t Q .timeout) k) ?_ ?_ h (.refl k)
  · intro x s hs
    exact hs.tail (Or.inl rfl) (setTimers_move x s)
  · intro x s s' hs hc
    obtain ⟨rfl, -⟩ | ⟨t, Q, hm, -⟩ := (hs.placed hp).timerClbck hc
    · exact hs
    · exact hs.tail (Or.inr ⟨t, Q, rfl⟩) hm

omit [Port] in
theorem tick (hp : Placed k) (h : osTick n k = .ok k') :
    0 < k.isrNesting ∧ ∃ k₁, osTickTimers RadOs.timerClbck n k = .ok k₁ ∧
      Path (fun a => a = .timers ∨ ∃ t Q, a = .wake t Q .timeout) k k₁ ∧ Scheduled 0 k₁ k' := by
  obtain ⟨hi, h⟩ := Outcome.assert_ok h
  obtain ⟨k₁, ht, h⟩ := Outcome.bind_ok h
  have hpath := hp.tickTimers ht
  exact ⟨hi, k₁, ht, hpath, (hpath.placed hp).schedule h (Or.inl rfl)⟩

end Placed

end RadOs
