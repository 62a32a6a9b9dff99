import RadOs.Kernel.Rousing
import RadOs.Kernel.Boost
import RadOs.Kernel.JoinExit
import RadOs.Kernel.Owners

/-! # When the interface functions go through

Each function gets to its end if what its documentation asks for holds, and the
kernel is in a state as every run leads to. The self-checks of the kernel do not
fail then, and its loops end.
-/

namespace RadOs
open Bucketed Runs Budget Chains Relation

section Waking
variable {k k' : Kernel} {Q : QueueId} {t : TaskId} {l : List TaskId} {xs : List TimerId}

theorem Path.linked_eq {D : Kind → Prop} (h : Path D k k') (hD : ¬ D (.queue Q)) :
    (k'.queues Q).linked = (k.queues Q).linked := by
  refine h.invariant (I := fun k' => (k'.queues Q).linked = (k.queues Q).linked) ?_ rfl
  intro a k₁ k₂ ha hk hm
  refine (hm.linked_eq ?_).trans hk
  rintro rfl
  exact hD ha

/-- The first task of a queue can be woken. -/
theorem Placed.take_total (hp : Placed k) (hl : k.Linked) (hr : Q ≠ .ready) {timed : Bool}
    (hg : timed = true → Guarded k xs) (ht : timed = true ∨ ∃ m, Q = .mtx m)
    (ho : k.order Q = t :: l) (c : RetCode) :
    ∃ k₁ k₂ k₃, osTaskqueueDequeue Q k = .ok (some t, k₁) ∧
      (if timed then osBlocktimerDestroy t k₁ else .ok k₁) = .ok k₂ ∧ wakeup t c k₂ = .ok k₃ ∧
      Move (.wake t Q c) k k₃ ∧ k₃.order Q = l := by
  obtain ⟨k₁, hd, hrest, -⟩ := hp.filed.dequeue_cons ho
  obtain ⟨h, -⟩ | ⟨u, hu, hfirst, hre⟩ := hp.filed.dequeue hd
  · cases h
  obtain rfl : t = u := Option.some.inj hu
  have hQ := (hp.filed.first hfirst).1
  have hk₁ : (k₁.tasks t).timer = (k.tasks t).timer ∧ k₁.timers = k.timers ∧
      (k₁.queues .ready).linked = true := by
    obtain ⟨q, rfl, -, hlink⟩ := hre
    exact ⟨by simp, rfl, (hlink .ready).trans hl.ready⟩
  obtain ⟨htm, hts, hlink⟩ := hk₁
  obtain ⟨k₂, hk₂, hq₂⟩ : ∃ k₂, (if timed then osBlocktimerDestroy t k₁ else .ok k₁) = .ok k₂ ∧
      k₂.queues = k₁.queues := by
    cases timed with
    | false => exact ⟨k₁, rfl, rfl⟩
    | true =>
      obtain ⟨k₂, hk₂, hq₂, -⟩ := (hg rfl).destroy_total htm hts
      exact ⟨k₂, hk₂, hq₂⟩
  obtain ⟨k₃, hw, -, hqs⟩ := wakeup_enqueues (k := k₂) (t := t) (c := c) (by rw [hq₂, hlink])
  refine ⟨k₁, k₂, k₃, hd, hk₂, hw, ?_, ?_⟩
  · cases timed with
    | false =>
      cases hk₂
      exact wake hQ hr hre (Or.inr (Or.inl (ht.resolve_left (by simp)))) hw
    | true => exact wake_untimed hQ hr hre hk₂ hw
  · rw [Kernel.order, hqs Q hr, hq₂]
    exact hrest

/-- The loop that wakes every task of a queue ends. -/
theorem Placed.destroyLoop_total (hp : Placed k) (hl : k.Linked) (hr : Q ≠ .ready) {timed : Bool}
    (hg : timed = true → ∃ xs, Guarded k xs) (ht : timed = true ∨ ∃ m, Q = .mtx m) :
    ∃ n k', RadOs.destroyLoop timed Q n k = .ok k' := by
  generalize ho : k.order Q = l
  induction l generalizing k with
  | nil => exact ⟨1, k, by simp [RadOs.destroyLoop, hp.filed.dequeue_nil ho]⟩
  | cons t l ih =>
    obtain ⟨xs, hg'⟩ : ∃ xs, timed = true → Guarded k xs := by
      by_cases h : timed = true
      · obtain ⟨xs, hx⟩ := hg h
        exact ⟨xs, fun _ => hx⟩
      · exact ⟨[], fun h' => absurd h' h⟩
    obtain ⟨k₁, k₂, k₃, hd, hk₂, hw, hm, hl₃⟩ := hp.take_total hl hr hg' ht ho .destroyed
    obtain ⟨n, k', hk'⟩ := ih (hm.placed hp) (hm.linked hp.toStanding (by simp) hl)
      (fun h => by
        obtain ⟨ys, hy, -, -⟩ := (hg' h).wake hp (by simp) hm
        exact ⟨ys, hy⟩) hl₃
    refine ⟨n + 1, k', ?_⟩
    simp only [RadOs.destroyLoop, hd, hk₂, hw, Outcome.ok_bind]
    exact hk'

/-- Behind the loop the queue can be cleared. -/
theorem Placed.destroyLoop_cleared (hp : Placed k) (hl : k.Linked) (hr : Q ≠ .ready)
    {timed : Bool} {n : ℕ} (ht : timed = true ∨ ∃ m, Q = .mtx m)
    (h : RadOs.destroyLoop timed Q n k = .ok k') :
    Placed (k'.setQueue Q .zero) ∧ (k'.setQueue Q .zero).Linked := by
  obtain ⟨hpath, hn⟩ := Placed.destroyLoop hr hp ht h
  have hm : Move (.queue Q) k' (k'.setQueue Q .zero) := .queue hn rfl
  have hp' := hpath.placed hp
  exact ⟨hm.placed hp', hm.linked hp'.toStanding (by simpa using hr) (hpath.linked hp (by simp) hl)⟩

end Waking

/-! ## Semaphores and wait queues -/

section Objects
variable {k k' : Kernel} {t : TaskId} {c : Ctx} {xs : List TimerId} {s : SemId}
  {q : WaitqueueId}

theorem Placed.semDestroy_total (hp : Placed k) (hl : k.Linked) (hg : Guarded k xs)
    (hi : k.isrNesting = 0) (hw : k.waitqueueCurrent = none) (s : SemId) (c : Ctx) :
    ∃ n k', osSemDestroy n s c k = .ok k' := by
  obtain ⟨n, k₁, hloop⟩ := hp.destroyLoop_total hl (Q := .sem s) (by simp) (fun _ => ⟨xs, hg⟩)
    (Or.inl rfl)
  obtain ⟨hp₁, hl₁⟩ := hp.destroyLoop_cleared hl (by simp) (Or.inl rfl) hloop
  have hm : Move (.sem s) (k₁.setQueue (.sem s) .zero) _ := .sem (v := 0) rfl
  obtain ⟨k₂, hk₂⟩ := (hm.placed hp₁).schedule_total (hm.linked hp₁.toStanding (by simp) hl₁) 1 c
  refine ⟨n, k₂, ?_⟩
  unfold osSemDestroy
  rw [osAssert_pos hi, Outcome.ok_bind, osAssert_pos hw, Outcome.ok_bind, hloop]
  exact hk₂

theorem Placed.waitqueueDestroy_total (hp : Placed k) (hl : k.Linked) (hg : Guarded k xs)
    (hw : k.waitqueueCurrent = none) (q : WaitqueueId) :
    ∃ n k', osWaitqueueDestroy n q k = .ok k' := by
  obtain ⟨n, k₁, hloop⟩ := hp.destroyLoop_total hl (Q := .waitqueue q) (by simp)
    (fun _ => ⟨xs, hg⟩) (Or.inl rfl)
  obtain ⟨hp₁, hl₁⟩ := hp.destroyLoop_cleared hl (by simp) (Or.inl rfl) hloop
  obtain ⟨k₂, hk₂⟩ := hp₁.schedule_total hl₁ 1 .schedule
  refine ⟨n, k₂, ?_⟩
  unfold osWaitqueueDestroy
  rw [osAssert_pos hw, Outcome.ok_bind, hloop]
  exact hk₂

theorem Placed.semUp_total [Port] (hp : Placed k) (hl : k.Linked) (hg : Guarded k xs) {sync : Bool}
    (hs : k.isrNesting = 0 ∨ sync = false) (hw : 0 < k.isrNesting ∨ k.waitqueueCurrent = none)
    (hv : k.sems s < Port.atomicMax - 1) (c : Ctx) : ∃ k', osSemUpSync s sync c k = .ok k' := by
  unfold osSemUpSync
  rw [osAssert_pos hs, Outcome.ok_bind, osAssert_pos hw, Outcome.ok_bind, osAssert_pos hv,
    Outcome.ok_bind]
  cases ho : k.order (.sem s) with
  | nil =>
    rw [hp.filed.dequeue_nil ho]
    exact ⟨_, rfl⟩
  | cons t l =>
    obtain ⟨k₁, k₂, k₃, hd, hk₂, hw, hm, -⟩ :=
      hp.take_total hl (by simp) (fun _ : true = true => hg) (Or.inl rfl) ho .ok
    obtain ⟨k₄, hk₄⟩ := (hm.placed hp).schedule_total (hm.linked hp.toStanding (by simp) hl) 1 c
    have hk₂ : osBlocktimerDestroy t k₁ = .ok k₂ := hk₂
    simp only [hd, hk₂, hw, Outcome.ok_bind]
    split
    · exact ⟨k₃, rfl⟩
    · exact ⟨k₄, hk₄⟩

theorem Placed.waitqueueWakeup_total (hp : Placed k) (hl : k.Linked) (hg : Guarded k xs)
    {cnt : ℕ} {sync : Bool} (hw : 0 < k.isrNesting ∨ k.waitqueueCurrent = none)
    (hs : k.isrNesting = 0 ∨ sync = false) (hc : 0 < cnt) (hc' : cnt ≤ osWaitqueueAll) :
    ∃ n k', osWaitqueueWakeupSync n q cnt sync k = .ok k' := by
  have hm := Placed.caught_move q k
  have hg₀ : Guarded (Placed.caught q k) xs := by
    unfold Placed.caught
    split
    · exact hg.congr rfl (fun _ => Or.inr rfl) (fun _ _ => rfl) (fun _ _ => ⟨rfl, rfl⟩)
        fun _ _ _ h _ => h
    · exact hg
  let c := if (0 < k.isrNesting ∧ k.waitqueueCurrent = some q) ∧ cnt ≠ osWaitqueueAll then cnt - 1
    else cnt
  have hcle : c ≤ osWaitqueueAll := by
    simp only [c]
    split <;> omega
  let w := if c = osWaitqueueAll then (Placed.caught q k).order (.waitqueue q)
    else ((Placed.caught q k).order (.waitqueue q)).take c
  let n := ((Placed.caught q k).order (.waitqueue q)).length + 1
  obtain ⟨k₁, hloop, -, hp₁, hl₁, -⟩ := (hm.placed hp).wakeupLoop_order (n := n) (w := w)
    (hm.linked hp.toStanding (by simp) hl) hg₀ (Nat.lt_succ_self _) hcle false rfl
  obtain ⟨k₂, hk₂⟩ := hp₁.schedule_total hl₁ 1 .schedule
  refine ⟨n, ?_⟩
  unfold osWaitqueueWakeupSync
  rw [osAssert_pos hw, Outcome.ok_bind, osAssert_pos hs, Outcome.ok_bind, osAssert_pos hc,
    Outcome.ok_bind]
  change ∃ k', (RadOs.wakeupLoop q n c false (Placed.caught q k) >>= fun y =>
    if sync = false ∧ y.2 then osSchedule 1 .schedule y.1 else return y.1) = .ok k'
  rw [hloop, Outcome.ok_bind]
  split
  · exact ⟨k₂, hk₂⟩
  · exact ⟨k₁, rfl⟩

/-- The timeouts that a blocking call takes. -/
def Bounded (timeoutTicks : ℕ) : Prop :=
  timeoutTicks = osTimeoutInfinite ∨ (0 < timeoutTicks ∧ timeoutTicks < osTimerTicksremMax)

instance (timeoutTicks : ℕ) : Decidable (Bounded timeoutTicks) :=
  inferInstanceAs (Decidable (_ ∨ _))

/-- The memory of a timer that is not in use does not look as if it was. -/
def Kernel.Blank (k : Kernel) (x : TimerId) : Prop := (k.timers.timers x).magic ≠ .magic1

instance (k : Kernel) (x : TimerId) : Decidable (k.Blank x) := inferInstanceAs (Decidable (_ ≠ _))

theorem Guarded.timed_total (hg : Guarded k xs) (hc : k.current.timer = none) {T : ℕ}
    (hT : Bounded T) (hb : k.Blank (.block k.taskCurrent)) (proc : TimerProc) :
    ∃ n k', (if T ≠ osTimeoutInfinite then osBlocktimerCreate n proc T k else .ok k) = .ok k' ∧
      k'.queues = k.queues := by
  obtain h | ⟨h₁, h₂⟩ := hT
  · exact ⟨0, k, by rw [if_neg (by simp [h])], rfl⟩
  · obtain ⟨y, -, hset, -⟩ := hg.armed.create (.block k.taskCurrent) proc T 0 h₁ h₂ hb
      (by decide)
    obtain ⟨n, hn⟩ := hset.exists_eq
    have hne : T ≠ osTimeoutInfinite := by
      simp only [osTimerTicksremMax, osTicksMax, osTimerUnsynchMax] at h₂
      simp only [osTimeoutInfinite, osTicksMax]
      omega
    refine ⟨n, { k.setTask k.taskCurrent { k.current with timer := some (.block k.taskCurrent) } with
      timers := y }, ?_, rfl⟩
    rw [if_pos hne]
    simp only [osBlocktimerCreate, osAssert_pos hc, hn, Outcome.ok_bind]
    rfl

/-- A task that is not idle can block with a timeout. -/
theorem Placed.timed_block_total (hp : Placed k) (hg : Guarded k xs) {Q : QueueId}
    (hlink : (k.queues Q).linked = true) (hd : k.taskCurrent ≠ taskIdle)
    (hc : k.current.timer = none) {T : ℕ} (hT : Bounded T)
    (hb : k.Blank (.block k.taskCurrent)) (proc : TimerProc) (w : Option WaitqueueId) :
    ∃ n k₁ k₂, (if T ≠ osTimeoutInfinite then osBlocktimerCreate n proc T k else .ok k) = .ok k₁ ∧
      osTaskBlockSwitch Q Q.blockType c { k₁ with waitqueueCurrent := w } = .ok k₂ := by
  obtain ⟨n, k₁, hk₁, hq⟩ := hg.timed_total hc hT hb proc
  have ht := Placed.timed hk₁
  have hm : Move .scalars k₁ { k₁ with waitqueueCurrent := w } := .scalars rfl
  obtain ⟨k₂, hk₂⟩ := (hm.placed (ht.move.placed hp)).blockSwitch_total (Q := Q)
    (by rw [← hlink, ← hq]) (by rw [← ht.frame.1] at hd; exact hd) Q.blockType c
  exact ⟨n, k₁, k₂, hk₁, hk₂⟩

theorem Placed.semDown_total (hp : Placed k) (hg : Guarded k xs) (hi : k.isrNesting = 0)
    (hw : k.waitqueueCurrent = none) (hd : k.taskCurrent ≠ taskIdle)
    (hm : k.current.mtxList = []) (hc : k.current.timer = none) {T : ℕ}
    (hT : T = osTimeoutTry ∨ Bounded T) (hb : k.Blank (.block k.taskCurrent))
    (hlink : (k.queues (.sem s)).linked = true) (c : Ctx) :
    ∃ n x, osSemDown n s T c k = .ok x := by
  have hcall : ∀ n, osSemDown n s T c k = if 0 < k.sems s then
      .ok (k.setSem s (k.sems s - 1), some .ok) else if T = osTimeoutTry then
      .ok (k, some .wouldblock) else
      (if T ≠ osTimeoutInfinite then osBlocktimerCreate n (.osSemTimerclbck k.taskCurrent) T k
        else .ok k) >>= fun k => osTaskBlockSwitch (.sem s) .sem c k >>= fun k => .ok (k, none) := by
    intro n
    unfold osSemDown
    rw [osAssert_pos hi, Outcome.ok_bind, osAssert_pos hd, Outcome.ok_bind, osAssert_pos hw,
      Outcome.ok_bind, osAssert_pos hm, Outcome.ok_bind]
    rfl
  simp only [hcall]
  split
  · exact ⟨0, _, rfl⟩
  · split
    · exact ⟨0, _, rfl⟩
    · rename_i hne
      obtain ⟨n, k₁, k₂, hk₁, hk₂⟩ := hp.timed_block_total (c := c) hg hlink hd hc
        (hT.resolve_left hne) hb (.osSemTimerclbck k.taskCurrent) k.waitqueueCurrent
      have hk₁' : { k₁ with waitqueueCurrent := k.waitqueueCurrent } = k₁ := by
        obtain ⟨-, rfl⟩ | ⟨x, -, -, -, rfl⟩ := Placed.timed hk₁ <;> rfl
      rw [hk₁'] at hk₂
      have hk₂ : osTaskBlockSwitch (.sem s) .sem c k₁ = .ok k₂ := hk₂
      exact ⟨n, (k₂, none), by rw [hk₁, Outcome.ok_bind, hk₂]; rfl⟩

theorem Placed.waitqueueWait_total (hp : Placed k) (hg : Guarded k xs) (hi : k.isrNesting = 0)
    (hd : k.taskCurrent ≠ taskIdle) (hm : k.current.mtxList = []) (hc : k.current.timer = none)
    {T : ℕ} (hT : Bounded T) (hb : k.Blank (.block k.taskCurrent))
    (hlink : ∀ q, k.waitqueueCurrent = some q → (k.queues (.waitqueue q)).linked = true) :
    ∃ n x, osWaitqueueWait n T k = .ok x := by
  have hpos : osTimeoutTry < T := by
    obtain rfl | ⟨h, -⟩ := hT
    · decide
    · exact h
  have hs : Move .scalars k { k with schedLock := k.schedLock - 1 } := .scalars rfl
  have hg' : Guarded { k with schedLock := k.schedLock - 1 } xs :=
    hg.congr rfl (fun _ => Or.inr rfl) (fun _ _ => rfl) (fun _ _ => ⟨rfl, rfl⟩) fun _ _ _ h _ => h
  obtain ⟨n, k₁, k₂, hblock⟩ : ∃ n k₁ k₂, ∀ q, k.waitqueueCurrent = some q →
      (if T ≠ osTimeoutInfinite then osBlocktimerCreate n (.osWaitqueueTimerclbck k.taskCurrent) T
        { k with schedLock := k.schedLock - 1 } else .ok { k with schedLock := k.schedLock - 1 }) =
          .ok k₁ ∧
      osTaskBlockSwitch (.waitqueue q) .waitqueue (.waitqueueWait q)
        { k₁ with waitqueueCurrent := none } = .ok k₂ := by
    by_cases hw : ∃ q, k.waitqueueCurrent = some q
    · obtain ⟨q, hw⟩ := hw
      obtain ⟨n, k₁, k₂, hk⟩ := (hs.placed hp).timed_block_total (c := .waitqueueWait q) hg'
        (Q := .waitqueue q) (hlink q hw) hd hc hT hb (.osWaitqueueTimerclbck k.taskCurrent) none
      refine ⟨n, k₁, k₂, fun q' hq => ?_⟩
      obtain rfl : q = q' := Option.some.inj (hw.symm.trans hq)
      exact hk
    · exact ⟨0, k, k, fun q hq => absurd ⟨q, hq⟩ hw⟩
  refine ⟨n, ?_⟩
  unfold osWaitqueueWait
  rw [osAssert_pos hi, Outcome.ok_bind, osAssert_pos hd, Outcome.ok_bind, osAssert_pos hpos,
    Outcome.ok_bind, osAssert_pos hm, Outcome.ok_bind]
  simp only
  split
  · exact ⟨_, rfl⟩
  · rename_i q hq
    obtain ⟨hk₁, hk₂⟩ := hblock q hq
    rw [hk₁, Outcome.ok_bind, hk₂]
    exact ⟨_, rfl⟩

end Objects

/-! ## Mutexes -/

section Mutexes
variable {k : Kernel} {m : MtxId}

theorem Filed.peek_total (hf : Filed k) (Q : QueueId) : ∃ r, osTaskqueuePeek Q k = .ok r := by
  unfold osTaskqueuePeek
  cases ht : (k.queues Q).tasks.top with
  | zero => exact ⟨none, rfl⟩
  | succ p =>
    have hne := (hf Q).bucket_ne_nil ht
    cases hb : (k.queues Q).tasks.bucket p with
    | nil => exact absurd hb hne
    | cons t l => exact ⟨some t, by simp only [hb]⟩

theorem Filed.prioReset_total (hf : Filed k) : ∃ k', osMtxUnlockPrioReset k = .ok k' := by
  have hstep : ∀ p m, ∃ p', prioResetStep k p m = .ok p' := by
    intro p m
    obtain ⟨r, hr⟩ := hf.peek_total (.mtx m)
    unfold prioResetStep
    rw [hr, Outcome.ok_bind]
    cases r with
    | none => exact ⟨p, rfl⟩
    | some t => exact ⟨_, rfl⟩
  have hfold : ∀ (l : List MtxId) p, ∃ p', l.foldlM (prioResetStep k) p = .ok p' := by
    intro l
    induction l with
    | nil => exact fun p => ⟨p, rfl⟩
    | cons m l ih =>
      intro p
      obtain ⟨p₁, h₁⟩ := hstep p m
      obtain ⟨p₂, h₂⟩ := ih p₁
      exact ⟨p₂, by rw [List.foldlM_cons, h₁, Outcome.ok_bind, h₂]⟩
  unfold osMtxUnlockPrioReset
  split
  · obtain ⟨p, hp⟩ := hfold k.current.mtxList k.current.prioBase
    exact ⟨_, by rw [hp, Outcome.ok_bind]; rfl⟩
  · exact ⟨k, rfl⟩

/-- A task gives a mutex back that it owns. -/
theorem Placed.release_total (hp : Placed k) (ho : (k.mtxs m).owner = some k.taskCurrent)
    (hm : m ∈ k.current.mtxList) : ∃ k₁ k₂, osMtxClearOwner m k = .ok k₁ ∧
      osMtxUnlockPrioReset k₁ = .ok k₂ ∧ Placed.MtxReleased m k k₂ := by
  have hclear : osMtxClearOwner m k = .ok ((k.setMtx m { k.mtxs m with owner := none }).setTask
      k.taskCurrent { k.current with mtxList := k.current.mtxList.erase m }) := by
    unfold osMtxClearOwner
    rw [ho]
    exact if_pos hm
  have hmv : Move (.owner m) k _ := .owner (y := { k.mtxs m with owner := none })
    (t := k.taskCurrent) (l := k.current.mtxList.erase m) rfl
  obtain ⟨k₂, hk₂⟩ := (hmv.placed hp).filed.prioReset_total
  exact ⟨_, k₂, hclear, hk₂, _, hm, rfl, hk₂⟩

theorem Placed.mtxDestroy_total (hp : Placed k) (hl : k.Linked) (hown : Owned k)
    (hi : k.isrNesting = 0) (hw : k.waitqueueCurrent = none)
    (ho : (k.mtxs m).owner = none ∨
      ((k.mtxs m).owner = some k.taskCurrent ∧ m ∈ k.current.mtxList)) :
    ∃ n k', osMtxDestroy n m k = .ok k' := by
  have hcall : ∀ n, osMtxDestroy n m k = (if (k.mtxs m).owner = none then .ok k else
      osAssert ((k.mtxs m).owner = some k.taskCurrent) >>= fun _ => osMtxClearOwner m k >>= fun k =>
        osMtxUnlockPrioReset k >>= fun k => RadOs.destroyLoop false (.mtx m) n k) >>= fun k =>
      osSchedule 1 .schedule ((k.setQueue (.mtx m) .zero).setMtx m .zero) := by
    intro n
    unfold osMtxDestroy
    rw [osAssert_pos hi, Outcome.ok_bind, osAssert_pos hw, Outcome.ok_bind]
  have hend : ∀ k₁ : Kernel, Placed (k₁.setQueue (.mtx m) .zero) →
      (k₁.setQueue (.mtx m) .zero).Linked →
      ∃ k', osSchedule 1 .schedule ((k₁.setQueue (.mtx m) .zero).setMtx m .zero) = .ok k' := by
    intro k₁ hp₁ hl₁
    have hm := Move.setMtx (k₁.setQueue (.mtx m) .zero) m .zero
    exact (hm.placed hp₁).schedule_total (hm.linked hp₁.toStanding (by simp) hl₁) 1 .schedule
  simp only [hcall]
  obtain ho | ⟨ho, hm⟩ := ho
  · have hq : Move (.queue (.mtx m)) k (k.setQueue (.mtx m) .zero) :=
      .queue (fun t ht => hown t m ht ho) rfl
    obtain ⟨k', hk'⟩ := hend k (hq.placed hp) (hq.linked hp.toStanding (by simp) hl)
    exact ⟨0, k', by rw [if_pos ho, Outcome.ok_bind, hk']⟩
  · obtain ⟨k₁, k₂, hk₁, hk₂, hrel⟩ := hp.release_total ho hm
    have hpath := hrel.path hp
    have hp₂ := hpath.placed hp
    have hl₂ := hpath.linked hp (by simp) hl
    have hno : false = true → ∃ xs, Guarded k₂ xs := fun h => (by cases h)
    obtain ⟨n, k₃, hk₃⟩ := hp₂.destroyLoop_total hl₂ (by simp) hno (Or.inr ⟨m, rfl⟩)
    obtain ⟨hp₃, hl₃⟩ := hp₂.destroyLoop_cleared hl₂ (by simp) (Or.inr ⟨m, rfl⟩) hk₃
    obtain ⟨k', hk'⟩ := hend k₃ hp₃ hl₃
    refine ⟨n, k', ?_⟩
    rw [if_neg (by simp [ho]), osAssert_pos ho, Outcome.ok_bind, hk₁, Outcome.ok_bind, hk₂,
      Outcome.ok_bind, hk₃, Outcome.ok_bind, hk']

theorem Placed.mtxUnlock_total (hp : Placed k) (hl : k.Linked) (hi : k.isrNesting = 0)
    (hw : k.waitqueueCurrent = none) (ho : (k.mtxs m).owner = some k.taskCurrent)
    (hm : m ∈ k.current.mtxList) : ∃ k', osMtxUnlock m k = .ok k' := by
  unfold osMtxUnlock
  rw [osAssert_pos hi, Outcome.ok_bind, osAssert_pos ho, Outcome.ok_bind, osAssert_pos hw,
    Outcome.ok_bind]
  simp only
  split
  · exact ⟨_, rfl⟩
  · have hs := Move.setMtx k m { k.mtxs m with recur := ((k.mtxs m).recur + 255) % 256 }
    have hp₀ := hs.placed hp
    obtain ⟨k₁, k₂, hk₁, hk₂, hrel⟩ := hp₀.release_total (m := m) (by simpa [Kernel.setMtx] using ho)
      hm
    have hpath := hrel.path hp₀
    have hp₂ := hpath.placed hp₀
    have hl₂ := hpath.linked hp₀ (by simp) (hs.linked hp.toStanding (by simp) hl)
    rw [hk₁, Outcome.ok_bind, hk₂, Outcome.ok_bind]
    cases hord : k₂.order (.mtx m) with
    | nil =>
      rw [hp₂.filed.dequeue_nil hord]
      exact ⟨k₂, rfl⟩
    | cons t l =>
      obtain ⟨k₃, hd, -, -⟩ := hp₂.filed.dequeue_cons hord
      obtain ⟨h, -⟩ | ⟨u, hu, hfirst, hre⟩ := hp₂.filed.dequeue hd
      · cases h
      obtain rfl : t = u := Option.some.inj hu
      have hlink : ((osMtxSetOwner m t k₃).queues .ready).linked = true := by
        obtain ⟨q, rfl, -, hlink⟩ := hre
        exact (hlink .ready).trans hl₂.ready
      obtain ⟨k₄, hk₄⟩ := wakeup_total hlink t .ok
      have hset := Move.setOwner k₂ m t
      have hmv := Placed.handoff (hp₂.filed.first hfirst).1 hre hk₄
      have hps := hset.placed hp₂
      obtain ⟨k₅, hk₅⟩ := (hmv.placed hps).schedule_total
        (hmv.linked hps.toStanding (by simp) (hset.linked hp₂.toStanding (by simp) hl₂)) 1 .schedule
      exact ⟨k₅, by simp only [hd, Outcome.ok_bind, hk₄, hk₅]⟩

/-- The lock of a mutex whose chain of owners has an end. -/
theorem Placed.mtxLock_total (hs : Sound k) (hi : k.isrNesting = 0)
    (hw : k.waitqueueCurrent = none) (hd : k.taskCurrent ≠ taskIdle)
    (hlink : (k.queues (.mtx m)).linked = true)
    (hc : ∀ o, Boosts k m o → ¬ Cyclic k.WaitsFor o) : ∃ n x, osMtxLock n m k = .ok x := by
  have hp := hs.placed
  have hcall : ∀ n, osMtxLock n m k = if (k.mtxs m).owner = none then
      .ok (osMtxSetOwner m k.taskCurrent k, some .ok) else
      if (k.mtxs m).owner = some k.taskCurrent then
        .ok (k.setMtx m { k.mtxs m with recur := ((k.mtxs m).recur + 1) % 256 }, some .ok)
      else osMtxLockPrioBoost n m k >>= fun k =>
        osTaskBlockSwitch (.mtx m) .mtx (.mtxLock m) k >>= fun k => .ok (k, none) := by
    intro n
    unfold osMtxLock
    rw [osAssert_pos hi, Outcome.ok_bind, osAssert_pos hd, Outcome.ok_bind, osAssert_pos hw,
      Outcome.ok_bind]
    rfl
  simp only [hcall]
  split
  · exact ⟨0, _, rfl⟩
  · rename_i hne
    split
    · exact ⟨0, _, rfl⟩
    · rename_i hcur
      obtain ⟨o, ho⟩ := Option.ne_none_iff_exists'.mp hne
      obtain ⟨n, k₁, hk₁⟩ : ∃ n k₁, osMtxLockPrioBoost n m k = .ok k₁ := by
        unfold osMtxLockPrioBoost
        simp only [ho]
        by_cases hlt : (k.tasks o).prioCurrent < k.current.prioCurrent
        · have hoc : o ≠ k.taskCurrent := by
            rintro rfl
            exact hcur ho
          obtain ⟨b, hb, hn⟩ := ends_of_not_cyclic hs.finite_waitsFor (hc o ⟨ho, hoc, hlt⟩)
          simp only [if_pos hlt]
          exact prioBoostLoop_total hp hs.linked hs.owned rfl hb hn
        · exact ⟨0, k, if_neg hlt⟩
      have hpath := hp.mtxLockPrioBoost hk₁
      have hcur₁ := hpath.reprio_frame.1
      obtain ⟨k₂, hk₂⟩ := (hpath.placed hp).blockSwitch_total (Q := .mtx m)
        ((hpath.linked_eq (by simp)).trans hlink) (by rw [hcur₁]; exact hd) .mtx (.mtxLock m)
      exact ⟨n, (k₂, none), by rw [hk₁, Outcome.ok_bind, hk₂]; rfl⟩

end Mutexes

end RadOs
