import RadOs.Kernel.Blocking
import RadOs.Kernel.QueueSteps

/-! # How far a task is from the front of a queue

A task that waits for a semaphore or on a wait queue comes nearer to the front
with every signal. Only a task of higher priority that begins to wait is put in
front of it, and nothing else in the system changes the order of the queue.
-/

namespace RadOs
open Bucketed Runs Budget

section Lists
variable {α : Type} [DecidableEq α] {prio : α → ℕ} {a t : α} {l l' w : List α}

theorem idxOf_of_sublist (h : l'.Sublist l) (hn : l.Nodup) (ht : t ∈ l') :
    l'.idxOf t ≤ l.idxOf t := by
  induction h with
  | slnil => cases ht
  | @cons l' l c h ih =>
    obtain ⟨hc, hn⟩ := List.nodup_cons.mp hn
    have hne : c ≠ t := by
      rintro rfl
      exact hc (h.subset ht)
    rw [List.idxOf_cons_ne _ hne]
    exact (ih hn ht).trans (Nat.le_succ _)
  | @cons_cons l' l c h ih =>
    by_cases hne : c = t
    · subst hne
      simp
    · rw [List.idxOf_cons_ne _ hne, List.idxOf_cons_ne _ hne]
      obtain ⟨-, hn⟩ := List.nodup_cons.mp hn
      exact Nat.succ_le_succ (ih hn (List.mem_of_ne_of_mem (Ne.symm hne) ht))

/-- An element is put in front of those that are less urgent. -/
theorem idxOf_enqueued (hs : l.Pairwise fun a c => prio c ≤ prio a) (ht : t ∈ l) (ha : a ∉ l) :
    (enqueued prio a l).idxOf t = l.idxOf t + if prio t < prio a then 1 else 0 := by
  induction l with
  | nil => cases ht
  | cons c l ih =>
    obtain ⟨hc, hs⟩ := List.pairwise_cons.mp hs
    rw [List.mem_cons, not_or] at ha
    have hat : a ≠ t := by
      rintro rfl
      obtain rfl | ht := List.mem_cons.mp ht
      · exact ha.1 rfl
      · exact ha.2 ht
    by_cases hlt : prio c < prio a
    · have hle : prio t ≤ prio c := by
        obtain rfl | ht := List.mem_cons.mp ht
        · exact le_rfl
        · exact hc t ht
      rw [enqueued_cons_of_lt hlt, List.idxOf_cons_ne _ hat, if_pos (hle.trans_lt hlt)]
    · rw [enqueued_cons_of_le (not_lt.mp hlt)]
      by_cases hct : c = t
      · subst hct
        simp [hlt]
      · rw [List.idxOf_cons_ne _ hct, List.idxOf_cons_ne _ hct,
          ih hs (List.mem_of_ne_of_mem (Ne.symm hct) ht) ha.2]
        omega

end Lists

/-- How many tasks a wakeup takes out of the wait queue. -/
def waitqueueTakes (q : WaitqueueId) (v : ℕ) (k : Kernel) : ℕ :=
  if (0 < k.isrNesting ∧ k.waitqueueCurrent = some q) ∧ v ≠ osWaitqueueAll then v - 1 else v

/-- `n` tasks have left the front of the queue `Q`, and all others are there as before. -/
structure Shortens (Q : QueueId) (n : ℕ) (k k' : Kernel) : Prop where
  order : ∃ w, k.order Q = w ++ k'.order Q ∧ w.length = n
  prio : ∀ t ∈ k'.order Q, k'.prio t = k.prio t

namespace Shortens
variable {k k₁ k' : Kernel} {Q Q' : QueueId} {t : TaskId} {x : Task} {n m p : ℕ} {c : Ctx}
  {d : RetCode} {s : SemId} {r : Option TaskId}

theorem trans (h : Shortens Q n k k₁) (h' : Shortens Q m k₁ k') : Shortens Q (n + m) k k' := by
  obtain ⟨w, ho, rfl⟩ := h.order
  obtain ⟨w', ho', rfl⟩ := h'.order
  refine ⟨⟨w ++ w', by rw [ho, ho', List.append_assoc], List.length_append⟩, fun t ht => ?_⟩
  exact (h'.prio t ht).trans (h.prio t (by simp [ho', ht]))

/-- Nobody else leaves the queue. -/
theorem next (h : Shortens Q n k k₁) (h' : Shortens Q 0 k₁ k') : Shortens Q n k k' := h.trans h'

theorem order_eq (h : Shortens Q 0 k k') : k'.order Q = k.order Q := by
  obtain ⟨w, ho, hw⟩ := h.order
  rw [ho, List.length_eq_zero_iff.mp hw]
  rfl

theorem of_frame (hq : k'.queues Q = k.queues Q) (hp : ∀ t ∈ k.order Q, k'.prio t = k.prio t) :
    Shortens Q 0 k k' := by
  have ho : k'.order Q = k.order Q := by rw [Kernel.order, hq, Kernel.order]
  exact ⟨⟨[], ho.symm, rfl⟩, fun t ht => hp t (ho ▸ ht)⟩

theorem refl (k : Kernel) : Shortens Q 0 k k := .of_frame rfl fun _ _ => rfl

theorem same (hq : k'.queues = k.queues) (ht : k'.tasks = k.tasks) : Shortens Q 0 k k' :=
  .of_frame (by rw [hq]) fun t _ => by rw [Kernel.prio, ht, Kernel.prio]

theorem setTask (hx : t ∉ k.order Q ∨ x.prioCurrent = (k.tasks t).prioCurrent) :
    Shortens Q 0 k (k.setTask t x) := by
  refine .of_frame rfl fun u hu => ?_
  by_cases hut : u = t
  · subst hut
    simpa [Kernel.prio] using hx.resolve_left (not_not.mpr hu)
  · simp [Kernel.prio, hut]

theorem setQueue {y : TaskQueue} (hne : Q ≠ Q') : Shortens Q 0 k (k.setQueue Q' y) :=
  .of_frame (Function.update_of_ne hne _ _) fun _ _ => rfl

theorem enqueue (hne : Q ≠ Q') (h : osTaskqueueEnqueue Q' t k = .ok k') : Shortens Q 0 k k' :=
  .of_frame ((osTaskqueueEnqueue_bucket h).2 Q hne) fun u _ => (osTaskqueueEnqueue_frame h).prio u

theorem intdequeue (hne : Q ≠ Q') (h : osTaskqueueIntdequeue Q' m k = .ok (t, k')) :
    Shortens Q 0 k k' := by
  refine .of_frame ?_ fun u _ => (osTaskqueueIntdequeue_frame h).prio u
  unfold osTaskqueueIntdequeue at h
  split at h
  · cases h
  · cases h
    exact Function.update_of_ne hne _ _

theorem dequeue (hne : Q ≠ Q') (h : osTaskqueueDequeue Q' k = .ok (r, k')) : Shortens Q 0 k k' := by
  unfold osTaskqueueDequeue at h
  split at h
  · cases h
    exact .refl _
  · obtain ⟨⟨t, k₁⟩, hd, h⟩ := Outcome.bind_ok h
    cases h
    exact intdequeue hne hd

theorem dequeuePrio (hne : Q ≠ Q') (h : osTaskqueueDequeuePrio Q' p k = .ok (r, k')) :
    Shortens Q 0 k k' := by
  obtain ⟨-, rfl⟩ | ⟨-, hd⟩ := osTaskqueueDequeuePrio_cases h
  · exact .refl _
  · exact dequeue hne hd

/-- The first task of the queue itself. -/
theorem dequeue_self (hf : Filed k) (h : osTaskqueueDequeue Q k = .ok (some t, k')) :
    Shortens Q 1 k k' := by
  obtain ⟨hr, ho, -⟩ := hf.dequeue_order h
  obtain ⟨l, hl⟩ := List.head?_eq_some_iff.mp hr.symm
  refine ⟨⟨[t], by rw [ho, hl]; rfl, rfl⟩, fun u _ => ?_⟩
  obtain ⟨hr, -⟩ | ⟨v, -, -, q, rfl, -, -⟩ := hf.dequeue h
  · cases hr
  · by_cases hu : u = v <;> simp [Kernel.prio, hu]

theorem makeready (hr : Q ≠ .ready) (h : osTaskMakeready t k = .ok k') : Shortens Q 0 k k' := by
  have hs : Shortens Q 0 k (k.setTask t { k.tasks t with state := .ready }) := setTask (Or.inr rfl)
  exact hs.next (enqueue hr h)

theorem wakeup (hr : Q ≠ .ready) (h : RadOs.wakeup t d k = .ok k') : Shortens Q 0 k k' := by
  have hs : Shortens Q 0 k (k.setTask t { k.tasks t with retValue := d.toInt }) :=
    setTask (Or.inr rfl)
  exact hs.next (makeready hr h)

theorem blocktimerDestroy (h : osBlocktimerDestroy t k = .ok k') : Shortens Q 0 k k' := by
  unfold osBlocktimerDestroy at h
  split at h
  · cases h
    exact .refl _
  · obtain ⟨y, -, h⟩ := Outcome.bind_ok h
    cases h
    have hx : Shortens Q 0 k { k with timers := y } := .same rfl rfl
    exact hx.next (setTask (Or.inr rfl))

theorem timed {proc : TimerProc} {T : ℕ} (h : Placed.Timed n proc T k k') : Shortens Q 0 k k' := by
  obtain ⟨-, rfl⟩ | ⟨x, -, -, -, rfl⟩ := h
  · exact .refl _
  · have hk : Shortens Q 0 k (k.setTask k.taskCurrent
        { k.current with timer := some (.block k.taskCurrent) }) := setTask (Or.inr rfl)
    exact hk.next (.same rfl rfl)

theorem setCtx (k : Kernel) (c : Ctx) : Shortens Q 0 k (k.setCtx c) := setTask (Or.inr rfl)

theorem running (k : Kernel) : Shortens Q 0 k k.running := setTask (Or.inr rfl)

theorem switchContext (u : TaskId) (k : Kernel) : Shortens Q 0 k (archContextSwitch u c k) := by
  have hc : Shortens Q 0 k (k.setCtx c) := setCtx k c
  exact hc.next (.same rfl rfl)

theorem schedule (hr : Q ≠ .ready) (h : osSchedule p c k = .ok k') : Shortens Q 0 k k' := by
  unfold osSchedule at h
  split at h
  · obtain ⟨⟨u, k₁⟩, hd, h⟩ := Outcome.bind_ok h
    have h₁ : Shortens Q 0 k k₁ := dequeuePrio hr hd
    cases u with
    | none =>
      cases h
      exact h₁
    | some u =>
      obtain ⟨k₂, hm, h⟩ := Outcome.bind_ok h
      have h₂ := h₁.next (makeready hr hm)
      split at h
      · cases h
        exact h₂.next (switchContext u k₂)
      · cases h
        have hu : Shortens Q 0 k₂ { k₂ with taskCurrent := u } := .same rfl rfl
        exact h₂.next (hu.next (running _))
  · cases h
    exact .refl _

variable {b : TaskBlock} {timed : Bool} {v T : ℕ} {q : WaitqueueId} {a : Bool}

theorem blockSwitch (hr : Q ≠ .ready) (hne : Q ≠ Q') (h : osTaskBlockSwitch Q' b c k = .ok k') :
    Shortens Q 0 k k' := by
  obtain ⟨k₁, hm, h⟩ := Outcome.bind_ok h
  obtain ⟨⟨u, k₂⟩, hd, h⟩ := Outcome.bind_ok h
  have hs : Shortens Q 0 k
      (k.setTask k.taskCurrent { k.current with state := .wait, blockType := b }) :=
    setTask (Or.inr rfl)
  have h₂ := (hs.next (enqueue hne hm)).next (dequeue hr hd)
  cases u with
  | none => cases h
  | some u =>
    cases h
    exact h₂.next (switchContext u k₂)

/-- The running task comes into the queue. -/
theorem blockSwitch_self (hr : Q ≠ .ready) (hf : Filed k)
    (ho : (k.tasks k.taskCurrent).taskQueue = none) (h : osTaskBlockSwitch Q b c k = .ok k') :
    k'.order Q = enqueued k.prio k.taskCurrent (k.order Q) ∧ (∀ t ∈ k.order Q, k'.prio t = k.prio t) ∧
      k.taskCurrent ∈ k'.order Q := by
  obtain ⟨k₁, hm, h⟩ := Outcome.bind_ok h
  obtain ⟨⟨u, k₂⟩, hd, h⟩ := Outcome.bind_ok h
  let K := k.setTask k.taskCurrent { k.current with state := .wait, blockType := b }
  have hK : Shortens Q 0 k K := setTask (Or.inr rfl)
  have hfK : Filed K := hf.setTask rfl fun hne => absurd ho hne
  obtain ⟨ho₁, -⟩ := hfK.enqueue_order hm
  have hprio : K.prio = k.prio := by
    funext t
    by_cases ht : t = k.taskCurrent
    · subst ht
      simp [Kernel.prio, K, Kernel.current]
    · simp [Kernel.prio, K, ht]
  rw [hprio, hK.order_eq] at ho₁
  have h₂ : Shortens Q 0 k₁ k' := by
    have hd₂ : Shortens Q 0 k₁ k₂ := dequeue hr hd
    cases u with
    | none => cases h
    | some u =>
      cases h
      exact hd₂.next (switchContext u k₂)
  rw [h₂.order_eq, ho₁]
  refine ⟨rfl, fun t ht => ?_, mem_enqueued.mpr (Or.inl rfl)⟩
  have ht₁ : t ∈ k'.order Q := by
    rw [h₂.order_eq, ho₁]
    exact mem_enqueued.mpr (Or.inr ht)
  rw [h₂.prio t ht₁, (osTaskqueueEnqueue_frame hm).prio t, hprio]

/-- The same after changes that the queues do not see. -/
theorem blockSwitch_after (hr : Q ≠ .ready) (hp : Placed k₁) (hk : Shortens Q 0 k k₁)
    (hprio : k₁.prio = k.prio) (hc : k₁.taskCurrent = k.taskCurrent)
    (h : osTaskBlockSwitch Q b c k₁ = .ok k') :
    k'.order Q = enqueued k.prio k.taskCurrent (k.order Q) ∧ (∀ t ∈ k.order Q, k'.prio t = k.prio t) ∧
      k.taskCurrent ∈ k'.order Q := by
  have hb := blockSwitch_self hr hp.filed hp.current h
  rwa [hk.order_eq, hprio, hc] at hb

theorem timed_prio {proc : TimerProc} (h : Placed.Timed n proc T k k') :
    k'.prio = k.prio ∧ k'.taskCurrent = k.taskCurrent := by
  refine ⟨?_, h.frame.1⟩
  obtain ⟨-, rfl⟩ | ⟨x, -, -, -, rfl⟩ := h
  · rfl
  · funext u
    by_cases hu : u = k.taskCurrent
    · subst hu
      simp [Kernel.prio, Kernel.current]
    · simp [Kernel.prio, hu]

/-- What happens to a task that has left another queue. -/
theorem taken {k₂ : Kernel} (hr : Q ≠ .ready)
    (ht : (if timed then osBlocktimerDestroy t k₁ else .ok k₁) = .ok k₂)
    (hw : RadOs.wakeup t d k₂ = .ok k') : Shortens Q 0 k₁ k' := by
  cases timed with
  | false =>
    cases ht
    exact wakeup hr hw
  | true => exact (blocktimerDestroy ht).next (wakeup hr hw)

/-! ### Semaphores -/

theorem destroyLoop (hr : Q ≠ .ready) (hne : Q ≠ Q')
    (h : RadOs.destroyLoop timed Q' n k = .ok k') : Shortens Q 0 k k' := by
  induction n generalizing k with
  | zero => cases h
  | succ n ih =>
    simp only [RadOs.destroyLoop] at h
    obtain ⟨⟨r, k₁⟩, hd, h⟩ := Outcome.bind_ok h
    have h₁ : Shortens Q 0 k k₁ := dequeue hne hd
    cases r with
    | none =>
      cases h
      exact h₁
    | some t =>
      obtain ⟨k₂, ht, h⟩ := Outcome.bind_ok h
      obtain ⟨k₃, hw, h⟩ := Outcome.bind_ok h
      exact (h₁.next (taken hr ht hw)).next (ih h)

theorem semCreate [Port] (hne : Q ≠ .sem s) (h : osSemCreate s v k = .ok k') : Shortens Q 0 k k' := by
  obtain ⟨-, rfl⟩ := Placed.semCreate h
  exact (setQueue hne).next (.same rfl rfl)

theorem semDestroy (hr : Q ≠ .ready) (hne : Q ≠ .sem s) (h : osSemDestroy n s c k = .ok k') :
    Shortens Q 0 k k' := by
  obtain ⟨-, h⟩ := Outcome.assert_ok h
  obtain ⟨-, h⟩ := Outcome.assert_ok h
  obtain ⟨k₁, hl, h⟩ := Outcome.bind_ok h
  have hq : Shortens Q 0 k₁ (k₁.setQueue (.sem s) .zero) := setQueue hne
  have hs : Shortens Q 0 (k₁.setQueue (.sem s) .zero) ((k₁.setQueue (.sem s) .zero).setSem s 0) :=
    .same rfl rfl
  exact (((destroyLoop hr hne hl).next hq).next hs).next (schedule hr h)

theorem semDown {w : Option RetCode} (hr : Q ≠ .ready) (hne : Q ≠ .sem s)
    (h : osSemDown n s T c k = .ok (k', w)) : Shortens Q 0 k k' := by
  obtain ⟨-, h⟩ := Outcome.assert_ok h
  obtain ⟨-, h⟩ := Outcome.assert_ok h
  obtain ⟨-, h⟩ := Outcome.assert_ok h
  obtain ⟨-, h⟩ := Outcome.assert_ok h
  split at h
  · cases h
    exact .same rfl rfl
  · split at h
    · cases h
      exact .refl _
    · obtain ⟨k₁, ht, h⟩ := Outcome.bind_ok h
      obtain ⟨k₂, hb, h⟩ := Outcome.bind_ok h
      cases h
      exact (Shortens.timed (Placed.timed ht)).next (blockSwitch hr hne hb)

theorem semDown_self {w : Option RetCode} (hp : Placed k) (h : osSemDown n s T c k = .ok (k', w)) :
    Shortens (.sem s) 0 k k' ∨
      k'.order (.sem s) = enqueued k.prio k.taskCurrent (k.order (.sem s)) ∧
        (∀ t ∈ k.order (.sem s), k'.prio t = k.prio t) ∧ k.taskCurrent ∈ k'.order (.sem s) := by
  obtain ⟨-, h⟩ := Outcome.assert_ok h
  obtain ⟨-, h⟩ := Outcome.assert_ok h
  obtain ⟨-, h⟩ := Outcome.assert_ok h
  obtain ⟨-, h⟩ := Outcome.assert_ok h
  split at h
  · cases h
    exact Or.inl (.same rfl rfl)
  · split at h
    · cases h
      exact Or.inl (.refl _)
    · obtain ⟨k₁, ht, h⟩ := Outcome.bind_ok h
      obtain ⟨k₂, hb, h⟩ := Outcome.bind_ok h
      cases h
      have hset := Placed.timed ht
      obtain ⟨hprio, hc⟩ := timed_prio hset
      exact Or.inr (blockSwitch_after (by simp) (hset.move.placed hp) (.timed hset) hprio hc hb)

theorem semUp [Port] {sync : Bool} (hr : Q ≠ .ready) (hne : Q ≠ .sem s)
    (h : osSemUpSync s sync c k = .ok k') : Shortens Q 0 k k' := by
  obtain ⟨-, h⟩ := Outcome.assert_ok h
  obtain ⟨-, h⟩ := Outcome.assert_ok h
  obtain ⟨-, h⟩ := Outcome.assert_ok h
  obtain ⟨⟨r, k₁⟩, hd, h⟩ := Outcome.bind_ok h
  have h₁ : Shortens Q 0 k k₁ := dequeue hne hd
  cases r with
  | none =>
    cases h
    exact h₁.next (.same rfl rfl)
  | some t =>
    obtain ⟨k₂, ht, h⟩ := Outcome.bind_ok h
    obtain ⟨k₃, hw, h⟩ := Outcome.bind_ok h
    have h₃ := (h₁.next (blocktimerDestroy ht)).next (wakeup hr hw)
    split at h
    · cases h
      exact h₃
    · exact h₃.next (schedule hr h)

/-- A signal takes the first task. -/
theorem semUp_self [Port] {sync : Bool} (hf : Filed k) (ht : t ∈ k.order (.sem s))
    (h : osSemUpSync s sync c k = .ok k') : Shortens (.sem s) 1 k k' := by
  have hr : QueueId.sem s ≠ .ready := by simp
  obtain ⟨-, h⟩ := Outcome.assert_ok h
  obtain ⟨-, h⟩ := Outcome.assert_ok h
  obtain ⟨-, h⟩ := Outcome.assert_ok h
  obtain ⟨⟨r, k₁⟩, hd, h⟩ := Outcome.bind_ok h
  cases r with
  | none =>
    obtain ⟨hh, -⟩ := hf.dequeue_order hd
    rw [List.head?_eq_none_iff.mp hh.symm] at ht
    cases ht
  | some u =>
    obtain ⟨k₂, hx, h⟩ := Outcome.bind_ok h
    obtain ⟨k₃, hw, h⟩ := Outcome.bind_ok h
    have h₃ := ((dequeue_self hf hd).next (blocktimerDestroy hx)).next (wakeup hr hw)
    split at h
    · cases h
      exact h₃
    · exact h₃.next (schedule hr h)

/-! ### Mutexes -/

/-- Another task has a new priority. -/
theorem reprio (hf : Filed k) (ht : t ∉ k.order Q) (h : osTaskqueueReprio t p k = .ok k') :
    Shortens Q 0 k k' := by
  have hprio : ∀ u, u ≠ t → k'.prio u = k.prio u := by
    intro u hu
    obtain ⟨q, rfl, -, -⟩ := hf.reprio h
    simp [Kernel.prio, hu]
  have ho : k'.order Q = k.order Q := by
    by_cases hp : k.prio t = p
    · rw [osTaskqueueReprio, if_neg (not_not.mpr (show (k.tasks t).prioCurrent = p from hp))] at h
      cases h
      rfl
    · rw [hf.reprio_order h hp Q, if_neg (mt hf.mem_order.mpr ht)]
  refine ⟨⟨[], ho.symm, rfl⟩, fun u hu => hprio u ?_⟩
  rintro rfl
  exact ht (ho ▸ hu)

theorem prioBoostLoop (hf : Filed k) (hown : ∀ m o, (k.mtxs m).owner = some o → o ∉ k.order Q)
    (ht : t ∉ k.order Q) (h : RadOs.prioBoostLoop p n t k = .ok k') : Shortens Q 0 k k' := by
  induction n generalizing t k with
  | zero => cases h
  | succ n ih =>
    simp only [RadOs.prioBoostLoop] at h
    obtain ⟨k₁, hx, h⟩ := Outcome.bind_ok h
    have h₁ : Shortens Q 0 k k₁ := reprio hf ht hx
    obtain ⟨hf₁, hm₁⟩ : Filed k₁ ∧ k₁.mtxs = k.mtxs := by
      have hre := hf.reprio hx
      refine ⟨hre.filed, ?_⟩
      obtain ⟨q, rfl, -, -⟩ := hre
      rfl
    have hown₁ : ∀ m o, (k₁.mtxs m).owner = some o → o ∉ k₁.order Q := by
      rw [hm₁, h₁.order_eq]
      exact hown
    split at h
    · cases h
      exact h₁
    · split at h
      · rename_i m hm
        split at h
        · rename_i o ho
          exact h₁.next (ih hf₁ hown₁ (hown₁ m o ho) h)
        · cases h
      · cases h

theorem setOwner (m : MtxId) (t : TaskId) (k : Kernel) : Shortens Q 0 k (osMtxSetOwner m t k) := by
  have h₁ : Shortens Q 0 k (k.setMtx m ⟨some t, 1⟩) := .same rfl rfl
  exact h₁.next (setTask (Or.inr rfl))

theorem clearOwner {m : MtxId} (h : osMtxClearOwner m k = .ok k') :
    Shortens Q 0 k k' ∧ k'.taskCurrent = k.taskCurrent := by
  unfold osMtxClearOwner at h
  split at h
  · cases h
  · split at h
    · cases h
      have h₁ : Shortens Q 0 k (k.setMtx m { k.mtxs m with owner := none }) := .same rfl rfl
      exact ⟨h₁.next (setTask (Or.inr rfl)), rfl⟩
    · cases h

theorem prioReset (hc : k.taskCurrent ∉ k.order Q) (h : osMtxUnlockPrioReset k = .ok k') :
    Shortens Q 0 k k' := by
  unfold osMtxUnlockPrioReset at h
  split at h
  · obtain ⟨v, -, h⟩ := Outcome.bind_ok h
    cases h
    exact setTask (Or.inl hc)
  · cases h
    exact .refl _

theorem mtxDestroy {m : MtxId} (hr : Q ≠ .ready) (hne : Q ≠ .mtx m) (hc : k.taskCurrent ∉ k.order Q)
    (h : osMtxDestroy n m k = .ok k') : Shortens Q 0 k k' := by
  obtain ⟨-, h⟩ := Outcome.assert_ok h
  obtain ⟨-, h⟩ := Outcome.assert_ok h
  obtain ⟨k₁, hb, h⟩ := Outcome.bind_ok h
  have h₁ : Shortens Q 0 k k₁ := by
    split at hb
    · cases hb
      exact .refl _
    · obtain ⟨-, hb⟩ := Outcome.assert_ok hb
      obtain ⟨k₂, hcl, hb⟩ := Outcome.bind_ok hb
      obtain ⟨k₃, hx, hb⟩ := Outcome.bind_ok hb
      obtain ⟨h₂, hcur⟩ := clearOwner (Q := Q) hcl
      have hc₂ : k₂.taskCurrent ∉ k₂.order Q := by
        rw [hcur, h₂.order_eq]
        exact hc
      exact (h₂.next (prioReset hc₂ hx)).next (destroyLoop hr hne hb)
  have hq : Shortens Q 0 k₁ (k₁.setQueue (.mtx m) .zero) := setQueue hne
  have hm : Shortens Q 0 (k₁.setQueue (.mtx m) .zero) ((k₁.setQueue (.mtx m) .zero).setMtx m .zero) :=
    .same rfl rfl
  exact ((h₁.next hq).next hm).next (schedule hr h)

theorem mtxLock {m : MtxId} {w : Option RetCode} (hr : Q ≠ .ready) (hne : Q ≠ .mtx m) (hf : Filed k)
    (hown : ∀ m o, (k.mtxs m).owner = some o → o ∉ k.order Q)
    (h : osMtxLock n m k = .ok (k', w)) : Shortens Q 0 k k' := by
  obtain ⟨-, h⟩ := Outcome.assert_ok h
  obtain ⟨-, h⟩ := Outcome.assert_ok h
  obtain ⟨-, h⟩ := Outcome.assert_ok h
  split at h
  · cases h
    exact setOwner m _ k
  · split at h
    · cases h
      exact .same rfl rfl
    · obtain ⟨k₁, hb, h⟩ := Outcome.bind_ok h
      obtain ⟨k₂, hs, h⟩ := Outcome.bind_ok h
      cases h
      have hswitch : Shortens Q 0 k₁ k' := blockSwitch hr hne hs
      refine Shortens.next ?_ hswitch
      unfold osMtxLockPrioBoost at hb
      split at hb
      · cases hb
      · rename_i o ho
        split at hb
        · exact prioBoostLoop hf hown (hown m o ho) hb
        · cases hb
          exact .refl _

theorem mtxUnlock {m : MtxId} (hr : Q ≠ .ready) (hne : Q ≠ .mtx m) (hc : k.taskCurrent ∉ k.order Q)
    (h : osMtxUnlock m k = .ok k') : Shortens Q 0 k k' := by
  obtain ⟨-, h⟩ := Outcome.assert_ok h
  obtain ⟨-, h⟩ := Outcome.assert_ok h
  obtain ⟨-, h⟩ := Outcome.assert_ok h
  simp only at h
  split at h
  · cases h
    exact .same rfl rfl
  · obtain ⟨k₁, hcl, h⟩ := Outcome.bind_ok h
    obtain ⟨k₂, hx, h⟩ := Outcome.bind_ok h
    obtain ⟨⟨u, k₃⟩, hd, h⟩ := Outcome.bind_ok h
    have h₀ : Shortens Q 0 k (k.setMtx m { k.mtxs m with recur := ((k.mtxs m).recur + 255) % 256 }) :=
      .same rfl rfl
    obtain ⟨h₁, hcur⟩ := clearOwner (Q := Q) hcl
    have h₀₁ := h₀.next h₁
    have hc₁ : k₁.taskCurrent ∉ k₁.order Q := by
      rw [hcur, h₀₁.order_eq]
      exact hc
    have h₃ := (h₀₁.next (prioReset hc₁ hx)).next (dequeue hne hd)
    cases u with
    | none =>
      cases h
      exact h₃
    | some u =>
      obtain ⟨k₄, hw, h⟩ := Outcome.bind_ok h
      exact ((h₃.next (setOwner m u k₃)).next (wakeup hr hw)).next (schedule hr h)

/-! ### Wait queues -/

theorem wakeupLoop {y : Kernel × Bool} (hr : Q ≠ .ready) (hne : Q ≠ .waitqueue q)
    (h : RadOs.wakeupLoop q n v a k = .ok y) : Shortens Q 0 k y.1 := by
  induction n generalizing k v a with
  | zero => cases h
  | succ n ih =>
    simp only [RadOs.wakeupLoop] at h
    split at h
    · obtain ⟨⟨r, k₁⟩, hd, h⟩ := Outcome.bind_ok h
      have h₁ : Shortens Q 0 k k₁ := dequeue hne hd
      cases r with
      | none =>
        cases h
        exact h₁
      | some t =>
        obtain ⟨k₂, ht, h⟩ := Outcome.bind_ok h
        obtain ⟨k₃, hw, h⟩ := Outcome.bind_ok h
        exact ((h₁.next (blocktimerDestroy ht)).next (wakeup hr hw)).next (ih h)
    · cases h
      exact .refl _

/-- Only an empty queue ends the loop early, and nothing else ends it if all tasks are asked for. -/
theorem wakeupLoop_self {y : Kernel × Bool} (hp : Placed k)
    (h : RadOs.wakeupLoop q n v a k = .ok y) (ht : t ∈ y.1.order (.waitqueue q)) :
    v ≠ osWaitqueueAll ∧ Shortens (.waitqueue q) v k y.1 := by
  have hr : QueueId.waitqueue q ≠ .ready := by simp
  induction n generalizing k v a with
  | zero => cases h
  | succ n ih =>
    simp only [RadOs.wakeupLoop] at h
    split at h
    · rename_i hv
      obtain ⟨⟨r, k₁⟩, hd, h⟩ := Outcome.bind_ok h
      cases r with
      | none =>
        cases h
        obtain ⟨-, rfl, hnone⟩ | ⟨t, he, -⟩ := hp.filed.dequeue hd
        · exact absurd (hp.filed.mem_order.mp ht) (hnone t)
        · cases he
      | some u =>
        obtain ⟨k₂, hx, h⟩ := Outcome.bind_ok h
        obtain ⟨k₃, hw, h⟩ := Outcome.bind_ok h
        have h₃ := ((dequeue_self hp.filed hd).next (blocktimerDestroy hx)).next (wakeup hr hw)
        obtain ⟨he, -⟩ | ⟨u', he, hfirst, hre⟩ := hp.filed.dequeue hd
        · cases he
        cases he
        have hm := Placed.wake_untimed (hp.filed.first hfirst).1 hr hre hx hw
        obtain ⟨hne, h₄⟩ := ih (hm.placed hp) h
        have hall : v ≠ osWaitqueueAll := by
          intro he
          rw [if_pos he] at hne
          exact hne he
        rw [if_neg hall] at h₄
        have h₅ := h₃.trans h₄
        rw [show 1 + (v - 1) = v by omega] at h₅
        exact ⟨hall, h₅⟩
    · rename_i hv
      obtain rfl : v = 0 := by omega
      cases h
      exact ⟨by decide, .refl _⟩

theorem waitqueueDestroy (hr : Q ≠ .ready) (hne : Q ≠ .waitqueue q)
    (h : osWaitqueueDestroy n q k = .ok k') : Shortens Q 0 k k' := by
  obtain ⟨-, h⟩ := Outcome.assert_ok h
  obtain ⟨k₁, hl, h⟩ := Outcome.bind_ok h
  have hq : Shortens Q 0 k₁ (k₁.setQueue (.waitqueue q) .zero) := setQueue hne
  exact ((destroyLoop hr hne hl).next hq).next (schedule hr h)

theorem waitqueueWait {w : Option RetCode} (hr : Q ≠ .ready)
    (hne : ∀ q, k.waitqueueCurrent = some q → Q ≠ .waitqueue q)
    (h : osWaitqueueWait n T k = .ok (k', w)) : Shortens Q 0 k k' := by
  obtain ⟨-, h⟩ := Outcome.assert_ok h
  obtain ⟨-, h⟩ := Outcome.assert_ok h
  obtain ⟨-, h⟩ := Outcome.assert_ok h
  obtain ⟨-, h⟩ := Outcome.assert_ok h
  simp only at h
  have h₀ : Shortens Q 0 k { k with schedLock := k.schedLock - 1 } := .same rfl rfl
  split at h
  · cases h
    exact h₀.next (setCtx _ _)
  · rename_i q hq
    obtain ⟨k₁, ht, h⟩ := Outcome.bind_ok h
    obtain ⟨k₂, hb, h⟩ := Outcome.bind_ok h
    cases h
    have hw : Shortens Q 0 k₁ { k₁ with waitqueueCurrent := none } := .same rfl rfl
    exact ((h₀.next (timed (Placed.timed ht))).next hw).next (blockSwitch hr (hne q hq) hb)

theorem caught (q : WaitqueueId) (k : Kernel) : Shortens Q 0 k (Placed.caught q k) := by
  unfold Placed.caught
  split
  · exact .same rfl rfl
  · exact .refl k

theorem waitqueueWakeup {sync : Bool} (hr : Q ≠ .ready) (hne : Q ≠ .waitqueue q)
    (h : osWaitqueueWakeupSync n q v sync k = .ok k') : Shortens Q 0 k k' := by
  obtain ⟨-, h⟩ := Outcome.assert_ok h
  obtain ⟨-, h⟩ := Outcome.assert_ok h
  obtain ⟨-, h⟩ := Outcome.assert_ok h
  obtain ⟨⟨k₁, b⟩, hl, h⟩ := Outcome.bind_ok h
  have h₁ := (caught (Q := Q) q k).next (wakeupLoop hr hne hl)
  simp only at h
  split at h
  · exact h₁.next (schedule hr h)
  · cases h
    exact h₁

theorem waitqueueWakeup_self {sync : Bool} (hp : Placed k)
    (h : osWaitqueueWakeupSync n q v sync k = .ok k') (ht : t ∈ k'.order (.waitqueue q)) :
    Shortens (.waitqueue q) (waitqueueTakes q v k) k k' := by
  have hr : QueueId.waitqueue q ≠ .ready := by simp
  obtain ⟨-, h⟩ := Outcome.assert_ok h
  obtain ⟨-, h⟩ := Outcome.assert_ok h
  obtain ⟨-, h⟩ := Outcome.assert_ok h
  obtain ⟨⟨k₁, b⟩, hl, h⟩ := Outcome.bind_ok h
  have hk : Shortens (.waitqueue q) 0 k₁ k' := by
    simp only at h
    split at h
    · exact schedule hr h
    · cases h
      exact .refl _
  have hp₁ : Placed (Placed.caught q k) := (Placed.caught_move q k).placed hp
  rw [hk.order_eq] at ht
  obtain ⟨-, h₁⟩ := wakeupLoop_self hp₁ hl ht
  have h₂ := ((caught q k).trans h₁).next hk
  rwa [Nat.zero_add] at h₂

theorem waitqueueWait_self {w : Option RetCode} (hp : Placed k) (hq : k.waitqueueCurrent = some q)
    (h : osWaitqueueWait n T k = .ok (k', w)) :
    k'.order (.waitqueue q) = enqueued k.prio k.taskCurrent (k.order (.waitqueue q)) ∧
      (∀ t ∈ k.order (.waitqueue q), k'.prio t = k.prio t) ∧
      k.taskCurrent ∈ k'.order (.waitqueue q) := by
  obtain ⟨-, h⟩ := Outcome.assert_ok h
  obtain ⟨-, h⟩ := Outcome.assert_ok h
  obtain ⟨-, h⟩ := Outcome.assert_ok h
  obtain ⟨-, h⟩ := Outcome.assert_ok h
  simp only at h
  split at h
  · rename_i hnone
    rw [hq] at hnone
    cases hnone
  rename_i q' hq'
  obtain rfl : q = q' := Option.some.inj (hq.symm.trans hq')
  obtain ⟨k₁, ht, h⟩ := Outcome.bind_ok h
  obtain ⟨k₂, hb, h⟩ := Outcome.bind_ok h
  cases h
  have hset := Placed.timed ht
  let K : Kernel := { k with schedLock := k.schedLock - 1 }
  have hK : Placed K := Move.placed (a := .scalars) (.scalars rfl) hp
  have hk₁ : Placed { k₁ with waitqueueCurrent := none } :=
    Move.placed (a := .scalars) (.scalars rfl) (hset.move.placed hK)
  obtain ⟨hprio, hc⟩ := timed_prio hset
  have h₀ : Shortens (.waitqueue q) 0 k K := .same rfl rfl
  have h₁ : Shortens (.waitqueue q) 0 K k₁ := timed hset
  have hw : Shortens (.waitqueue q) 0 k₁ { k₁ with waitqueueCurrent := none } := .same rfl rfl
  exact blockSwitch_after (by simp) hk₁ ((h₀.next h₁).next hw) hprio hc hb

/-! ### Tasks and ticks -/

theorem taskCreate [Port] (hr : Q ≠ .ready) (ht : t ∉ k.order Q) (h : osTaskCreate t p k = .ok k') :
    Shortens Q 0 k k' := by
  obtain ⟨-, h⟩ := Outcome.assert_ok h
  obtain ⟨-, h⟩ := Outcome.assert_ok h
  obtain ⟨-, h⟩ := Outcome.assert_ok h
  obtain ⟨-, h⟩ := Outcome.assert_ok h
  obtain ⟨k₁, he, h⟩ := Outcome.bind_ok h
  have h₀ : Shortens Q 0 k (k.setTask t (osTaskInit p)) := setTask (Or.inl ht)
  exact (h₀.next (enqueue hr he)).next (schedule hr h)

theorem taskExit [Port] {v : ℤ} (hr : Q ≠ .ready) (hne : ∀ s, k.current.joinSem = some s → Q ≠ .sem s)
    (h : osTaskExit v k = .ok k') : Shortens Q 0 k k' := by
  obtain ⟨k₁, hs, h⟩ := Outcome.bind_ok h
  obtain ⟨⟨u, k₂⟩, hd, h⟩ := Outcome.bind_ok h
  have h₀ : Shortens Q 0 k (k.setTask k.taskCurrent
      { k.current with retValue := v, state := .destroyed }) := setTask (Or.inr rfl)
  have h₁ : Shortens Q 0 k k₁ := by
    unfold taskExitSignal at hs
    simp only at hs
    split at hs
    · cases hs
      exact h₀
    · rename_i s hj
      refine h₀.next (semUp hr (hne s ?_) hs)
      simpa [Kernel.current] using hj
  have h₂ := h₁.next (dequeue hr hd)
  cases u with
  | none => cases h
  | some u =>
    cases h
    exact h₂.next (switchContext u k₂)

theorem joinFinish {v : Ret} (h : RadOs.joinFinish t k = .ok (k', v)) : Shortens Q 0 k k' := by
  obtain ⟨-, h⟩ := Outcome.assert_ok h
  cases h
  exact setTask (Or.inr rfl)

theorem joinDestroyed {v : Option Ret} (hr : Q ≠ .ready) (hne : Q ≠ .sem (.join k.taskCurrent))
    (h : RadOs.joinDestroyed n t d k = .ok (k', v)) : Shortens Q 0 k k' := by
  obtain ⟨-, h⟩ := Outcome.assert_ok h
  obtain ⟨k₁, hd, h⟩ := Outcome.bind_ok h
  have h₁ : Shortens Q 0 k k₁ := semDestroy hr hne hd
  split at h
  · obtain ⟨⟨k₂, w⟩, hf, h⟩ := Outcome.bind_ok h
    cases h
    exact (h₁.next (joinFinish hf)).next (setCtx _ _)
  · cases h
    exact h₁

theorem taskJoin [Port] {v : Option Ret} (hr : Q ≠ .ready) (hne : ∀ u, Q ≠ .sem (.join u))
    (h : osTaskJoin n t k = .ok (k', v)) : Shortens Q 0 k k' := by
  obtain ⟨-, h⟩ := Outcome.assert_ok h
  obtain ⟨-, h⟩ := Outcome.assert_ok h
  obtain ⟨-, h⟩ := Outcome.assert_ok h
  obtain ⟨-, h⟩ := Outcome.assert_ok h
  obtain ⟨-, h⟩ := Outcome.assert_ok h
  split at h
  · cases h
  · split at h
    · obtain ⟨k₁, hc, h⟩ := Outcome.bind_ok h
      obtain ⟨⟨k₂, r⟩, hd, h⟩ := Outcome.bind_ok h
      have hset : Shortens Q 0 k₁ (k₁.setTask t
          { k₁.tasks t with joinSem := some (.join k.taskCurrent) }) := setTask (Or.inr rfl)
      have h₂ := ((semCreate (hne _) hc).next hset).next (semDown hr (hne _) hd)
      cases r with
      | none =>
        cases h
        exact h₂
      | some c => exact h₂.next (joinDestroyed hr (hne _) h)
    · obtain ⟨⟨k₁, w⟩, hf, h⟩ := Outcome.bind_ok h
      cases h
      exact joinFinish hf

theorem schedulerUnlock {sync : Bool} (h : osSchedulerUnlock sync k = .ok k') :
    Shortens Q 0 k k' := by
  obtain ⟨-, h⟩ := Outcome.assert_ok h
  obtain ⟨-, h⟩ := Outcome.assert_ok h
  have hl : Shortens Q 0 k { k with schedLock := k.schedLock - 1 } := .same rfl rfl
  simp only at h
  split at h
  · cases h
    exact hl.next (setCtx _ _)
  · cases h
    exact hl.next (setCtx _ _)

theorem blockedReturn (h : RadOs.blockedReturn k = .ok (k', d)) : Shortens Q 0 k k' := by
  obtain ⟨k₁, hd, h⟩ := Outcome.bind_ok h
  cases h
  exact (running k).next (blocktimerDestroy hd)

theorem resume {v : Option Ret} (hr : Q ≠ .ready) (hne : ∀ u, Q ≠ .sem (.join u))
    (h : RadOs.resume n k = .ok (k', v)) : Shortens Q 0 k k' := by
  have hset : ∀ c, Shortens Q 0 k (k.setCtx c) := fun c => setCtx k c
  have hrun : Shortens Q 0 k k.running := running k
  unfold RadOs.resume at h
  split at h
  case h_1 | h_2 | h_3 =>
    all_goals cases h
  case h_4 q hc =>
    cases h
    have hq : Shortens Q 0 k { k with waitqueueCurrent := some q } := .same rfl rfl
    exact hq.next (setCtx _ _)
  case h_5 hc => exact schedulerUnlock (quiet_ok h).1
  case h_6 hc | h_7 hc =>
    all_goals exact (hset .user).next (schedule hr (quiet_ok h).1)
  case h_8 hc =>
    cases h
    exact hrun.next (setCtx _ _)
  case h_9 s hc | h_10 q hc =>
    all_goals
      obtain ⟨⟨k₁, c⟩, hb, h⟩ := Outcome.bind_ok h
      cases h
      exact (blockedReturn hb).next (setCtx _ _)
  case h_11 m hc =>
    cases h
    exact hrun.next (setCtx _ _)
  case h_12 t hc =>
    obtain ⟨⟨k₁, c⟩, hb, h⟩ := Outcome.bind_ok h
    exact (blockedReturn hb).next (joinDestroyed hr (hne _) h)
  case h_13 t hc =>
    obtain ⟨⟨k₁, w⟩, hf, h⟩ := Outcome.bind_ok h
    cases h
    exact (hrun.next (joinFinish hf)).next (setCtx _ _)

end Shortens

/-- Tasks have left the queue `Q`, and all others are there as before. -/
structure Thins (Q : QueueId) (k k' : Kernel) : Prop where
  order : (k'.order Q).Sublist (k.order Q)
  prio : ∀ t ∈ k'.order Q, k'.prio t = k.prio t

namespace Thins
variable {k k₁ k' : Kernel} {Q : QueueId} {t : TaskId} {n : ℕ}

theorem of_serves (h : Shortens Q 0 k k') : Thins Q k k' :=
  ⟨h.order_eq ▸ .refl _, h.prio⟩

theorem trans (h : Thins Q k k₁) (h' : Thins Q k₁ k') : Thins Q k k' :=
  ⟨h'.order.trans h.order, fun t ht => (h'.prio t ht).trans (h.prio t (h'.order.subset ht))⟩

theorem unlink (hf : Filed k) (h : osTaskqueueUnlink t k = .ok k') : Thins Q k k' := by
  obtain ⟨⟨Q', hQ⟩, hre⟩ := hf.unlink h
  obtain ⟨ho, hoth⟩ := hf.unlink_order h hQ
  refine ⟨?_, fun u _ => ?_⟩
  · by_cases he : Q = Q'
    · subst he
      rw [ho]
      exact List.erase_sublist
    · rw [Kernel.order, hoth Q he]
      exact .refl _
  · obtain ⟨q, rfl, -, -⟩ := hre
    by_cases hu : u = t <;> simp [Kernel.prio, hu]

/-- A tick takes those tasks out of the queue whose timeout has expired. -/
theorem tick (hr : Q ≠ .ready) (hp : Placed k) (h : osTick n k = .ok k') : Thins Q k k' := by
  obtain ⟨-, h⟩ := Outcome.assert_ok h
  obtain ⟨k₁, ht, h⟩ := Outcome.bind_ok h
  have h₁ : Placed k₁ ∧ Thins Q k k₁ := by
    refine osTickTimers_invariant (P := fun s => Placed s ∧ Thins Q k s) (fun x s hs => ?_)
      (fun x s s' hs hc => ?_) ht ⟨hp, .of_serves (.refl k)⟩
    · exact ⟨(Placed.setTimers_move x s).placed hs.1, hs.2.trans (.of_serves (.same rfl rfl))⟩
    · have hcb : ∀ u, blockTimerclbck u s = .ok s' → Placed s' ∧ Thins Q k s' := by
        intro u hu
        obtain ⟨Q', hm⟩ := hs.1.blockTimerclbck hu
        obtain ⟨-, hu⟩ := Outcome.assert_ok hu
        obtain ⟨s₁, hun, hw⟩ := Outcome.bind_ok hu
        exact ⟨hm.placed hs.1, (hs.2.trans (unlink hs.1.filed hun)).trans
          (.of_serves (.wakeup hr hw))⟩
      unfold timerClbck at hc
      split at hc
      · cases hc
        exact hs
      · exact hcb _ hc
      · exact hcb _ hc
  exact h₁.2.trans (.of_serves (.schedule hr h))

end Thins

/-! ## Steps -/

/-- The queues of the semaphores of the application and of wait queues. -/
def QueueId.Signalled : QueueId → Prop
  | .sem (.obj _) | .waitqueue _ => True
  | _ => False

/-- How many tasks the action takes from the front of the queue `Q`. -/
def Action.serves (Q : QueueId) (k : Kernel) : Action → ℕ
  | .call (.semUp s _) => if Q = .sem (.obj s) then 1 else 0
  | .call (.waitqueueWakeup q v _) => if Q = .waitqueue q then waitqueueTakes q v k else 0
  | _ => 0

/-- How many tasks the signals of a run take from the front of the queue `Q`. -/
def served (Q : QueueId) : List KernelStep → ℕ
  | [] => 0
  | x :: tr => served Q tr + x.label.1.serves Q x.pre

/-- A task of higher priority than `t` begins to wait in the queue `Q`. -/
def Overtakes (Q : QueueId) (t : TaskId) (x : KernelStep) : Prop :=
  (x.post.tasks x.pre.taskCurrent).taskQueue = some Q ∧ x.pre.prio t < x.pre.prio x.pre.taskCurrent

instance Overtakes.decidable (Q : QueueId) (t : TaskId) (x : KernelStep) :
    Decidable (Overtakes Q t x) := inferInstanceAs (Decidable (_ ∧ _))

section Steps
variable [Port] {k k' : Kernel} {Q : QueueId} {t : TaskId} {i : Action} {r : Option Ret} {n m : ℕ}

/-- What a step does to a task that waits before it and after it. -/
def Nears (Q : QueueId) (t : TaskId) (i : Action) (x : KernelStep) : Prop :=
  (x.post.order Q).idxOf t + i.serves Q x.pre ≤
    (x.pre.order Q).idxOf t + (if Overtakes Q t x then 1 else 0) ∧ x.post.prio t = x.pre.prio t

omit [Port] in
theorem Shortens.nears (h : Shortens Q (i.serves Q k) k k') (hf : Filed k) (ht : t ∈ k'.order Q) :
    Nears Q t i ⟨k, (i, r), k'⟩ := by
  obtain ⟨w, ho, hw⟩ := h.order
  have hn : t ∉ w := by
    have hnd := hf.order_nodup (Q := Q)
    rw [ho] at hnd
    exact fun hm => List.disjoint_of_nodup_append hnd hm ht
  refine ⟨?_, h.prio t ht⟩
  simp only
  rw [ho, List.idxOf_append_of_notMem hn, hw]
  omega

omit [Port] in
/-- A task that comes in is behind all that are as urgent. -/
theorem nears_of_block (hf : Filed k) (ho : (k.tasks k.taskCurrent).taskQueue = none)
    (hord : k'.order Q = enqueued k.prio k.taskCurrent (k.order Q))
    (hprio : k'.prio t = k.prio t) (hq : (k'.tasks k.taskCurrent).taskQueue = some Q)
    (hs : i.serves Q k = 0) (ht : t ∈ k.order Q) : Nears Q t i ⟨k, (i, r), k'⟩ := by
  have hc : k.taskCurrent ∉ k.order Q := by
    rw [hf.mem_order, ho]
    exact fun h => by cases h
  refine ⟨?_, hprio⟩
  have hid := idxOf_enqueued (hf.represents Q).sorted ht hc
  by_cases hlt : k.prio t < k.prio k.taskCurrent
  · have hov : Overtakes Q t ⟨k, (i, r), k'⟩ := ⟨hq, hlt⟩
    simp only [hs, if_pos hov, hord, hid, if_pos hlt]
    omega
  · simp only [hs, hord, hid, if_neg hlt]
    omega

omit [Port] in
/-- Nobody who waits in a queue with signals owns a mutex. -/
theorem not_owner_of_order (htl : Titled k) (hl : Unladen k) (hf : Filed k) (hQ : Q.Signalled)
    (m : MtxId) (o : TaskId) (ho : (k.mtxs m).owner = some o) : o ∉ k.order Q := by
  intro hm
  have hr : Q ≠ .ready := by
    rintro rfl
    exact hQ
  have hmx : ∀ m, Q ≠ .mtx m := by
    rintro m rfl
    exact hQ
  have hnil := hl o Q (hf.mem_order.mp hm) hr hmx
  have hmem := (htl.agree.owner_iff m o).mp ho
  rw [Kernel.deeds_held, hnil] at hmem
  cases hmem

omit [Port] in
theorem Placed.waitqueueDestroy_waiting (hp : Placed k) {q : WaitqueueId}
    (h : osWaitqueueDestroy n q k = .ok k') : (k'.tasks t).taskQueue ≠ some (.waitqueue q) := by
  obtain ⟨-, k₁, hpath, hn, hsch⟩ := hp.waitqueueDestroy h
  have hq : Move (.queue (.waitqueue q)) k₁ (k₁.setQueue (.waitqueue q) .zero) := .queue hn rfl
  rw [ne_eq, hsch.waiting_iff (hq.placed (hpath.placed hp)) (by simp)]
  exact hn t

/-- One step, whoever makes it. -/
theorem nears_of_step (hs : Sound k) (htl : Titled k) (hl : Unladen k) (hsane : Sane k i)
    (hQ : Q.Signalled) (h : exec n i k = .ok (k', r)) (ht : (k.tasks t).taskQueue = some Q)
    (ht' : (k'.tasks t).taskQueue = some Q) : Nears Q t i ⟨k, (i, r), k'⟩ := by
  have hp := hs.placed
  have hf := hp.filed
  have hf' : Filed k' := (hs.exec hsane h).placed.filed
  have hm : t ∈ k.order Q := hf.mem_order.mpr ht
  have hm' : t ∈ k'.order Q := hf'.mem_order.mpr ht'
  have hr : Q ≠ .ready := by
    rintro rfl
    exact hQ
  have hmx : ∀ m, Q ≠ .mtx m := by
    rintro m rfl
    exact hQ
  have hj : ∀ u, Q ≠ .sem (.join u) := by
    rintro u rfl
    exact hQ
  have hcur : k.taskCurrent ∉ k.order Q := by
    rw [hf.mem_order, hp.current]
    exact fun h => by cases h
  have hown := not_owner_of_order htl hl hf hQ
  -- the queue is left alone
  have hsame : i.serves Q k = 0 → Shortens Q 0 k k' → Nears Q t i ⟨k, (i, r), k'⟩ := by
    intro hi hk
    rw [← hi] at hk
    exact hk.nears hf hm'
  cases i with
  | resume => exact hsame rfl (.resume hr hj h)
  | isrEnter | isrExit =>
    all_goals
      cases h
      exact hsame rfl (.same rfl rfl)
  | call c =>
    cases c with
    | start =>
      obtain ⟨-, h⟩ := Outcome.assert_ok (quiet_ok h).1
      obtain ⟨-, h⟩ := Outcome.assert_ok h
      cases h
      have hk : Shortens Q 0 k { k with schedLock := 0, started := true } := .same rfl rfl
      exact hsame rfl (hk.next (.setCtx _ _))
    | taskCreate u p =>
      refine hsame rfl (.taskCreate hr ?_ (quiet_ok h).1)
      rw [hf.mem_order]
      intro hu
      exact hsane (hp.live u (by rw [hu]; simp))
    | taskExit v =>
      refine hsame rfl (.taskExit hr (fun s hj' => ?_) (quiet_ok h).1)
      obtain ⟨u, rfl⟩ := hp.joins _ _ hj'
      exact hj u
    | taskJoin u => exact hsame rfl (.taskJoin hr hj h)
    | yield =>
      obtain ⟨-, h⟩ := Outcome.assert_ok (quiet_ok h).1
      obtain ⟨-, h⟩ := Outcome.assert_ok h
      obtain ⟨-, h⟩ := Outcome.assert_ok h
      exact hsame rfl (.schedule hr h)
    | schedulerLock =>
      obtain ⟨-, h⟩ := Outcome.assert_ok (quiet_ok h).1
      obtain ⟨-, h⟩ := Outcome.assert_ok h
      cases h
      exact hsame rfl (.same rfl rfl)
    | schedulerUnlock sync => exact hsame rfl (.schedulerUnlock (quiet_ok h).1)
    | semCreate s v =>
      refine hsame rfl (.semCreate ?_ (quiet_ok h).1)
      rintro rfl
      exact hsane t ht
    | semDestroy s =>
      refine hsame rfl (.semDestroy hr ?_ (quiet_ok h).1)
      rintro rfl
      exact hp.semDestroy_waiting (quiet_ok h).1 (Or.inl rfl) ht'
    | semDown s T =>
      obtain ⟨c, h, -⟩ := coded_ok h
      by_cases he : Q = .sem (.obj s)
      · subst he
        obtain hk | hb := Shortens.semDown_self hp h
        · exact hsame rfl hk
        · obtain ⟨hord, hprio, hq⟩ := hb
          exact nears_of_block hf hp.current hord (hprio t hm) (hf'.mem_order.mp hq) rfl hm
      · exact hsame rfl (.semDown hr he h)
    | semUp s sync =>
      by_cases he : Q = .sem (.obj s)
      · subst he
        have hk := Shortens.semUp_self hf hm (quiet_ok h).1
        refine Shortens.nears ?_ hf hm'
        simpa [Action.serves] using hk
      · exact hsame (if_neg he) (.semUp hr he (quiet_ok h).1)
    | mtxCreate m =>
      obtain ⟨-, h⟩ := Outcome.assert_ok (quiet_ok h).1
      obtain ⟨-, h⟩ := Outcome.assert_ok h
      cases h
      have hk : Shortens Q 0 k (k.setQueue (.mtx m) osTaskqueueInit) := .setQueue (hmx m)
      exact hsame rfl (hk.next (.same rfl rfl))
    | mtxDestroy m => exact hsame rfl (.mtxDestroy hr (hmx m) hcur (quiet_ok h).1)
    | mtxLock m =>
      obtain ⟨c, h, -⟩ := coded_ok h
      exact hsame rfl (.mtxLock hr (hmx m) hf hown h)
    | mtxUnlock m => exact hsame rfl (.mtxUnlock hr (hmx m) hcur (quiet_ok h).1)
    | waitqueueCreate q =>
      obtain ⟨-, h⟩ := Outcome.assert_ok (quiet_ok h).1
      cases h
      refine hsame rfl (.setQueue ?_)
      rintro rfl
      exact hsane t ht
    | waitqueueDestroy q =>
      refine hsame rfl (.waitqueueDestroy hr ?_ (quiet_ok h).1)
      rintro rfl
      exact hp.waitqueueDestroy_waiting (quiet_ok h).1 ht'
    | waitqueuePrepare q =>
      obtain ⟨-, h⟩ := Outcome.assert_ok (quiet_ok h).1
      obtain ⟨-, h⟩ := Outcome.assert_ok h
      obtain ⟨-, h⟩ := Outcome.assert_ok h
      obtain ⟨-, h⟩ := Outcome.assert_ok h
      obtain ⟨k₁, hl, h⟩ := Outcome.bind_ok h
      obtain ⟨-, hl⟩ := Outcome.assert_ok hl
      obtain ⟨-, hl⟩ := Outcome.assert_ok hl
      cases hl
      cases h
      have hk : Shortens Q 0 k { k with schedLock := k.schedLock + 1 } := .same rfl rfl
      exact hsame rfl (hk.next (.setCtx _ _))
    | waitqueueBreak =>
      obtain ⟨-, h⟩ := Outcome.assert_ok (quiet_ok h).1
      cases h
      have hk : Shortens Q 0 k { k with waitqueueCurrent := none } := .same rfl rfl
      exact hsame rfl (hk.next (.setCtx _ _))
    | waitqueueWait T =>
      obtain ⟨c, h, -⟩ := coded_ok h
      by_cases he : ∃ q, k.waitqueueCurrent = some q ∧ Q = .waitqueue q
      · obtain ⟨q, hq, rfl⟩ := he
        obtain ⟨hord, hprio, hin⟩ := Shortens.waitqueueWait_self hp hq h
        exact nears_of_block hf hp.current hord (hprio t hm) (hf'.mem_order.mp hin) rfl hm
      · exact hsame rfl (.waitqueueWait hr (fun q hq hQ => he ⟨q, hq, hQ⟩) h)
    | waitqueueWakeup q v sync =>
      by_cases he : Q = .waitqueue q
      · subst he
        have hk := Shortens.waitqueueWakeup_self hp (quiet_ok h).1 hm'
        refine Shortens.nears ?_ hf hm'
        simpa [Action.serves] using hk
      · exact hsame (if_neg he) (.waitqueueWakeup hr he (quiet_ok h).1)
    | timerCreate x T R | timerDestroy x =>
      all_goals
        obtain ⟨y, -, h⟩ := Outcome.bind_ok (quiet_ok h).1
        cases h
        exact hsame rfl (.same rfl rfl)
    | tick =>
      have hk := Thins.tick hr hp (quiet_ok h).1
      refine ⟨?_, hk.prio t hm'⟩
      have hle := idxOf_of_sublist hk.order hf.order_nodup hm'
      exact hle.trans (Nat.le_add_right _ _)

theorem owner_of_reachable (h : ownerSystem.Reachable k) : Sound k ∧ Titled k ∧ Unladen k := by
  have hu : ownerSystem.Reachable k ∧ Unladen k := by
    refine h.invariant (I := fun k => ownerSystem.Reachable k ∧ Unladen k) ?_ ?_
    · rintro k rfl
      exact ⟨.start rfl, unladen_init⟩
    · rintro k ⟨i, r⟩ k' ⟨hr, hl⟩ hst
      have hr' := hr.step hst
      obtain ⟨tr, hrun⟩ := hr
      have hs := (timely_of_reachable ⟨tr, ownerSystem_run hrun⟩).sound
      obtain ⟨n, hn⟩ := hst.2.2.exists_eq
      have hsane := hst.1.1.1
      exact ⟨hr', hl.step hs hsane hn ((titled_of_run hrun).1.deeds_step hs hsane hn)⟩
  obtain ⟨tr, hrun⟩ := h
  exact ⟨(timely_of_reachable ⟨tr, ownerSystem_run hrun⟩).sound, (titled_of_run hrun).1, hu.2⟩

/-- A task that waits for a semaphore or on a wait queue is nearer to the front by one place for
every task that a signal takes, and put back by one place only for a task of higher priority that
comes in. -/
theorem waiters_are_served_in_turn {k₀ : Kernel} {tr : List KernelStep}
    (h₀ : ownerSystem.Reachable k₀) (h : (ownerSystem.startAt k₀).Run tr k) (hQ : Q.Signalled)
    (ht₀ : (k₀.tasks t).taskQueue = some Q) (ht : ∀ x ∈ tr, (x.post.tasks t).taskQueue = some Q) :
    k.prio t = k₀.prio t ∧
    (k.order Q).idxOf t + served Q tr ≤
      (k₀.order Q).idxOf t + tr.countP fun x => decide (Overtakes Q t x) := by
  induction h with
  | start h =>
    cases h
    exact ⟨rfl, le_rfl⟩
  | @step tr k k' x hrun hst ih =>
    obtain ⟨i, r⟩ := x
    obtain ⟨hprio, hle⟩ := ih fun x hx => ht x (List.mem_cons_of_mem _ hx)
    have htk : (k.tasks t).taskQueue = some Q := by
      cases hrun with
      | start h =>
        cases h
        exact ht₀
      | step hrun' hst' => exact ht _ (List.mem_cons_of_mem _ List.mem_cons_self)
    obtain ⟨hs, htl, hl⟩ := owner_of_reachable (h₀.run hrun)
    obtain ⟨n, hn⟩ := hst.2.2.exists_eq
    obtain ⟨hstep, hp⟩ := nears_of_step hs htl hl hst.1.1.1 hQ hn htk (ht _ List.mem_cons_self)
    refine ⟨hp.trans hprio, ?_⟩
    rw [served, List.countP_cons]
    simp only [decide_eq_true_eq] at hstep ⊢
    omega

end Steps

/-- The tasks 1 and 2 wait for the semaphore 0. -/
def queuedRun : List Action :=
  [.call (.taskCreate 1 2), .call (.taskCreate 2 2), .call (.semCreate 0 0), .call .start, .resume,
    .call (.semDown 0 osTimeoutInfinite), .call (.semDown 0 osTimeoutInfinite)]

/-- The task 3 with a higher priority comes in before two signals. -/
theorem waiters_are_served_in_turn_overtaken : ∃ k₀ tr k, ownerSystem.Reachable k₀ ∧
    (ownerSystem.startAt k₀).Run tr k ∧ (k₀.order (.sem (.obj 0))).idxOf 2 = 1 ∧
    served (.sem (.obj 0)) tr = 2 ∧
    tr.countP (fun x => decide (Overtakes (.sem (.obj 0)) 2 x)) = 1 ∧
    (k.order (.sem (.obj 0))).idxOf 2 = 0 := by
  obtain ⟨k₀, hk₀, hx₀⟩ := Outcome.exists_of_holds
    (x := play ownerCheck 10 queuedRun (osInit coldKernel))
    (p := fun k₀ => decide ((k₀.order (.sem (.obj 0))).idxOf 2 = 1 ∧
        (k₀.tasks 2).taskQueue = some (.sem (.obj 0))) &&
      (playRun ownerCheck 10 [.resume, .call (.taskCreate 3 3),
        .call (.semDown 0 osTimeoutInfinite), .resume, .isrEnter, .call (.semUp 0 false),
        .call (.semUp 0 false)] [] k₀).holds fun y => decide
          (served (.sem (.obj 0)) y.1 = 2 ∧
            y.1.countP (fun x => decide (Overtakes (.sem (.obj 0)) 2 x)) = 1 ∧
            ∀ x ∈ y.1, (x.post.tasks 2).taskQueue = some (.sem (.obj 0)))) (by decide +kernel)
  rw [Bool.and_eq_true] at hx₀
  obtain ⟨hid, hq₀⟩ := of_decide_eq_true hx₀.1
  obtain ⟨⟨tr, k⟩, hk, hx⟩ := Outcome.exists_of_holds hx₀.2
  obtain ⟨hserved, hover, hq⟩ := of_decide_eq_true hx
  have hr : ownerSystem.Reachable k₀ := reachable_of_play
    (P := fun k i => (Sane k i.1 ∧ Typed i.1) ∧ Unburdened k i.1) (fun _ _ h => h.1.1)
    (fun _ _ _ hs h => owner_of_check hs h) (.start rfl) hk₀
  have hrun : (ownerSystem.startAt k₀).Run tr k := run_startAt_of_playRun
    (P := fun k i => (Sane k i.1 ∧ Typed i.1) ∧ Unburdened k i.1) (fun _ _ h => h.1.1)
    (fun _ _ _ hs h => owner_of_check hs h) hr (.start rfl) hk
  obtain ⟨-, hle⟩ := waiters_are_served_in_turn (Q := .sem (.obj 0)) (t := 2) hr hrun trivial hq₀ hq
  refine ⟨k₀, tr, k, hr, hrun, hid, hserved, hover, ?_⟩
  rw [hid, hserved, hover] at hle
  omega

end RadOs
