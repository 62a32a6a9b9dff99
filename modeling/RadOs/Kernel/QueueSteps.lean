import RadOs.Kernel.Sound
import RadOs.Kernel.Ordering
import RadOs.QueueOrder

/-! # The task queues in a step of the kernel

Whatever the kernel does with its queues, it does by calls of the functions of
task queues. `QueueStep` lists them with what these functions ask for, beside
the changes they do not see; `QueueTrace` is a sequence of them.
-/

namespace RadOs
open Bucketed Runs Budget Relation

section Steps
variable [Port]

/-- The functions of task queues on the queues of the kernel. -/
def QueueOp.onKernel : QueueOp QueueId TaskId → Kernel → Outcome (Option TaskId × Kernel)
  | .init Q, k => .ok (none, k.setQueue Q osTaskqueueInit)
  | .enqueue Q t, k => do return (none, ← osTaskqueueEnqueue Q t k)
  | .unlink t, k => do return (none, ← osTaskqueueUnlink t k)
  | .reprio t p, k => do return (none, ← osTaskqueueReprio t p k)
  | .dequeue Q, k => osTaskqueueDequeue Q k
  | .dequeuePrio Q p, k => osTaskqueueDequeuePrio Q p k
  | .peek Q, k => do return (← osTaskqueuePeek Q k, k)

/-- A queue is set up without tasks, a task is enqueued only when in no queue, and a priority has
a bucket. -/
def QueueOp.Proper (k : Kernel) : QueueOp QueueId TaskId → Prop
  | .init Q => ∀ t, (k.tasks t).taskQueue ≠ some Q
  | .enqueue _ t => (k.tasks t).taskQueue = none
  | .reprio _ p => p < Port.priocnt
  | _ => True

inductive QueueStep (k k' : Kernel) : Prop
  | call (op : QueueOp QueueId TaskId) (r : Option TaskId) (hop : op.Proper k)
      (h : op.onKernel k = .ok (r, k'))
  | frame (hq : k'.queues = k.queues)
      (ht : ∀ t, (k'.tasks t).taskQueue = (k.tasks t).taskQueue ∧
        (k'.tasks t).prioCurrent = (k.tasks t).prioCurrent ∧
        (k'.tasks t).prioBase = (k.tasks t).prioBase)
  | create (t : TaskId) (p : ℕ) (hp : p < Port.priocnt) (ht : (k.tasks t).taskQueue = none)
      (h : k' = k.setTask t (osTaskInit p))
  | prio (t : TaskId) (p : ℕ) (hp : p < Port.priocnt) (ht : (k.tasks t).taskQueue = none)
      (h : k' = k.setTask t { k.tasks t with prioCurrent := p })
  | destroy (Q : QueueId) (hQ : ∀ t, (k.tasks t).taskQueue ≠ some Q) (h : k' = k.setQueue Q .zero)

def QueueTrace : Kernel → Kernel → Prop := ReflTransGen QueueStep

/-- The queues are filed, and every priority has a bucket. -/
structure Tended (k : Kernel) : Prop where
  filed : Filed k
  prio : ∀ t, (k.tasks t).prioCurrent < Port.priocnt
  base : ∀ t, (k.tasks t).prioBase < Port.priocnt

variable {k k₁ k' : Kernel} {Q : QueueId} {t : TaskId} {x : Task} {p : ℕ}

/-- The queues follow the tasks. -/
theorem Realizes.tended {K : Kernel} (h : Realizes K k')
    (hp : ∀ t, (K.tasks t).prioCurrent < Port.priocnt)
    (hb : ∀ t, (K.tasks t).prioBase < Port.priocnt) : Tended k' := by
  obtain ⟨q, rfl, hf, -⟩ := h
  exact ⟨hf, hp, hb⟩

theorem Tended.realizes (hk : Tended k) (h : Realizes (k.setTask t x) k')
    (hp : x.prioCurrent < Port.priocnt) (hb : x.prioBase < Port.priocnt) : Tended k' := by
  refine h.tended (fun u => ?_) fun u => ?_
  · by_cases hu : u = t
    · simpa [hu] using hp
    · simpa [hu] using hk.prio u
  · by_cases hu : u = t
    · simpa [hu] using hb
    · simpa [hu] using hk.base u

theorem QueueStep.tended (h : QueueStep k k') (hk : Tended k) : Tended k' := by
  cases h with
  | call op r hop h =>
    cases op with
    | init Q =>
      cases h
      exact ⟨hk.filed.setQueue_empty hop, hk.prio, hk.base⟩
    | enqueue Q t =>
      obtain ⟨k₁, h, he⟩ := Outcome.bind_ok h
      cases he
      exact hk.realizes (hk.filed.enqueue hop h) (hk.prio t) (hk.base t)
    | unlink t =>
      obtain ⟨k₁, h, he⟩ := Outcome.bind_ok h
      cases he
      exact hk.realizes (hk.filed.unlink h).2 (hk.prio t) (hk.base t)
    | reprio t p =>
      obtain ⟨k₁, h, he⟩ := Outcome.bind_ok h
      cases he
      exact hk.realizes (hk.filed.reprio h) hop (hk.base t)
    | dequeue Q =>
      obtain ⟨-, rfl, -⟩ | ⟨t, -, -, hre⟩ := hk.filed.dequeue h
      · exact hk
      · exact hk.realizes hre (hk.prio t) (hk.base t)
    | dequeuePrio Q p =>
      obtain ⟨-, rfl, -⟩ | ⟨t, -, -, -, hre⟩ := hk.filed.dequeuePrio h
      · exact hk
      · exact hk.realizes hre (hk.prio t) (hk.base t)
    | peek Q =>
      obtain ⟨r, -, he⟩ := Outcome.bind_ok h
      cases he
      exact hk
  | frame hq ht =>
    refine ⟨hk.filed.congr hq fun t => ⟨(ht t).1, fun _ => (ht t).2.1⟩, fun t => ?_, fun t => ?_⟩
    · rw [(ht t).2.1]
      exact hk.prio t
    · rw [(ht t).2.2]
      exact hk.base t
  | create t p hp ht h =>
    subst h
    have hf : Filed (k.setTask t (osTaskInit p)) :=
      hk.filed.setTask (by rw [ht]; rfl) fun hn => absurd ht hn
    exact hk.realizes (.refl hf) hp hp
  | prio t p hp ht h =>
    subst h
    have hf : Filed (k.setTask t { k.tasks t with prioCurrent := p }) :=
      hk.filed.setTask rfl fun hn => absurd ht hn
    exact hk.realizes (.refl hf) hp (hk.base t)
  | destroy Q hQ h =>
    subst h
    exact ⟨hk.filed.setQueue_empty hQ, hk.prio, hk.base⟩

namespace QueueTrace

theorem single (h : QueueStep k k') : QueueTrace k k' := ReflTransGen.single h

theorem trans (h : QueueTrace k k₁) (h' : QueueTrace k₁ k') : QueueTrace k k' :=
  ReflTransGen.trans h h'

/-- What every step keeps. -/
theorem invariant {I : Kernel → Prop} (hI : ∀ k k', Tended k → I k → QueueStep k k' → I k')
    (h : QueueTrace k k') (hk : Tended k) (hi : I k) : Tended k' ∧ I k' := by
  induction h with
  | refl => exact ⟨hk, hi⟩
  | tail _ hs ih => exact ⟨hs.tended ih.1, hI _ _ ih.1 ih.2 hs⟩

theorem tended (h : QueueTrace k k') (hk : Tended k) : Tended k' :=
  (h.invariant (I := fun _ => True) (fun _ _ _ _ _ => trivial) hk trivial).1

/-- One task changes where the queues do not look. -/
theorem setTask (k : Kernel) (hq : x.taskQueue = (k.tasks t).taskQueue)
    (hp : x.prioCurrent = (k.tasks t).prioCurrent) (hb : x.prioBase = (k.tasks t).prioBase) :
    QueueTrace k (k.setTask t x) := by
  refine single (.frame rfl fun u => ?_)
  by_cases hu : u = t
  · subst hu
    simpa using ⟨hq, hp, hb⟩
  · simp [hu]

theorem same (hq : k'.queues = k.queues) (ht : k'.tasks = k.tasks) : QueueTrace k k' :=
  single (.frame hq fun t => by simp [ht])

end QueueTrace

/-! ## The functions of the kernel -/

/-- The running task goes on, and it is in no queue. -/
structure Tends (k k' : Kernel) : Prop where
  trace : QueueTrace k k'
  current : k'.taskCurrent = k.taskCurrent
  off : (k'.tasks k'.taskCurrent).taskQueue = none

namespace Tends
variable {c : RetCode} {b : Ctx} {n : ℕ} {m : MtxId}

theorem trans (h : Tends k k₁) (h' : Tends k₁ k') : Tends k k' :=
  ⟨h.trace.trans h'.trace, h'.current.trans h.current, h'.off⟩

theorem refl (ho : (k.tasks k.taskCurrent).taskQueue = none) : Tends k k := ⟨.refl, rfl, ho⟩

theorem same (ho : (k.tasks k.taskCurrent).taskQueue = none) (hq : k'.queues = k.queues)
    (ht : k'.tasks = k.tasks) (hc : k'.taskCurrent = k.taskCurrent) : Tends k k' :=
  ⟨.same hq ht, hc, by rw [hc, ht]; exact ho⟩

theorem setTask (ho : (k.tasks k.taskCurrent).taskQueue = none)
    (hq : x.taskQueue = (k.tasks t).taskQueue) (hp : x.prioCurrent = (k.tasks t).prioCurrent)
    (hb : x.prioBase = (k.tasks t).prioBase) : Tends k (k.setTask t x) := by
  refine ⟨.setTask k hq hp hb, rfl, ?_⟩
  by_cases ht : k.taskCurrent = t
  · subst ht
    simpa [ho] using hq
  · simpa [ht] using ho

omit [Port] in
/-- A task that is in a queue is not the running one. -/
theorem ne_current (ho : (k.tasks k.taskCurrent).taskQueue = none)
    (ht : (k.tasks t).taskQueue = some Q) : t ≠ k.taskCurrent := by
  rintro rfl
  rw [ho] at ht
  cases ht

theorem of_realizes (h : Realizes (k.setTask t x) k') (ht : t ≠ k.taskCurrent)
    (ho : (k.tasks k.taskCurrent).taskQueue = none) (hs : QueueStep k k') : Tends k k' := by
  refine ⟨.single hs, ?_, ?_⟩
  · obtain ⟨q, rfl, -, -⟩ := h
    rfl
  · obtain ⟨q, rfl, -, -⟩ := h
    simpa [Ne.symm ht] using ho

theorem enqueue (hk : Tended k) (ho : (k.tasks k.taskCurrent).taskQueue = none)
    (ht : (k.tasks t).taskQueue = none) (hne : t ≠ k.taskCurrent)
    (h : osTaskqueueEnqueue Q t k = .ok k') : Tends k k' :=
  of_realizes (hk.filed.enqueue ht h) hne ho
    (.call (.enqueue Q t) none ht (by simp only [QueueOp.onKernel, h]; rfl))

theorem unlink (hk : Tended k) (ho : (k.tasks k.taskCurrent).taskQueue = none)
    (h : osTaskqueueUnlink t k = .ok k') :
    t ≠ k.taskCurrent ∧ (k'.tasks t).taskQueue = none ∧ Tends k k' := by
  obtain ⟨⟨Q, hQ⟩, hre⟩ := hk.filed.unlink h
  refine ⟨ne_current ho hQ, ?_, of_realizes hre (ne_current ho hQ) ho
    (.call (.unlink t) none trivial (by simp only [QueueOp.onKernel, h]; rfl))⟩
  obtain ⟨q, rfl, -, -⟩ := hre
  simp

theorem dequeue (hk : Tended k) (ho : (k.tasks k.taskCurrent).taskQueue = none)
    (h : osTaskqueueDequeue Q k = .ok (some t, k')) :
    t ≠ k.taskCurrent ∧ (k'.tasks t).taskQueue = none ∧ Tends k k' := by
  obtain ⟨hr, -, -⟩ | ⟨u, hr, hf, hre⟩ := hk.filed.dequeue h
  · cases hr
  · cases hr
    have hQ := (hk.filed.first hf).1
    refine ⟨ne_current ho hQ, ?_, of_realizes hre (ne_current ho hQ) ho
      (.call (.dequeue Q) (some t) trivial h)⟩
    obtain ⟨q, rfl, -, -⟩ := hre
    simp

theorem makeready (hk : Tended k) (ho : (k.tasks k.taskCurrent).taskQueue = none)
    (ht : (k.tasks t).taskQueue = none) (hne : t ≠ k.taskCurrent)
    (h : osTaskMakeready t k = .ok k') : Tends k k' := by
  have h₁ : Tends k (k.setTask t { k.tasks t with state := .ready }) := setTask ho rfl rfl rfl
  exact h₁.trans (enqueue (h₁.trace.tended hk) h₁.off (by simpa using ht) hne h)

theorem wakeup (hk : Tended k) (ho : (k.tasks k.taskCurrent).taskQueue = none)
    (ht : (k.tasks t).taskQueue = none) (hne : t ≠ k.taskCurrent)
    (h : RadOs.wakeup t c k = .ok k') : Tends k k' := by
  have h₁ : Tends k (k.setTask t { k.tasks t with retValue := c.toInt }) := setTask ho rfl rfl rfl
  exact h₁.trans (makeready (h₁.trace.tended hk) h₁.off (by simpa using ht) hne h)

theorem blocktimerDestroy (ho : (k.tasks k.taskCurrent).taskQueue = none)
    (h : osBlocktimerDestroy t k = .ok k') :
    Tends k k' ∧ ∀ u, (k'.tasks u).taskQueue = (k.tasks u).taskQueue := by
  unfold osBlocktimerDestroy at h
  split at h
  · cases h
    exact ⟨.refl ho, fun _ => rfl⟩
  · obtain ⟨y, -, h⟩ := Outcome.bind_ok h
    cases h
    have h₁ : Tends k { k with timers := y } := .same ho rfl rfl rfl
    refine ⟨h₁.trans (setTask h₁.off rfl rfl rfl), fun u => ?_⟩
    by_cases hu : u = t <;> simp [hu]

/-- Dequeue, stop the timer, wake up. -/
theorem take {a : Bool} {k₂ k₃ : Kernel} (hk : Tended k)
    (ho : (k.tasks k.taskCurrent).taskQueue = none)
    (hd : osTaskqueueDequeue Q k = .ok (some t, k₁))
    (ht : (if a then osBlocktimerDestroy t k₁ else .ok k₁) = .ok k₂)
    (hw : RadOs.wakeup t c k₂ = .ok k₃) : Tends k k₃ := by
  obtain ⟨hne, hq, h₁⟩ := dequeue hk ho hd
  have h₂ : Tends k₁ k₂ ∧ ∀ u, (k₂.tasks u).taskQueue = (k₁.tasks u).taskQueue := by
    cases a with
    | false =>
      cases ht
      exact ⟨.refl h₁.off, fun _ => rfl⟩
    | true => exact blocktimerDestroy h₁.off ht
  have h₁₂ := h₁.trans h₂.1
  refine h₁₂.trans (wakeup (h₁₂.trace.tended hk) h₁₂.off ?_ ?_ hw)
  · rw [h₂.2]
    exact hq
  · rw [h₁₂.current]
    exact hne

theorem destroyLoop {timed : Bool} (hk : Tended k)
    (ho : (k.tasks k.taskCurrent).taskQueue = none)
    (h : RadOs.destroyLoop timed Q n k = .ok k') :
    Tends k k' ∧ ∀ t, (k'.tasks t).taskQueue ≠ some Q := by
  induction n generalizing k with
  | zero => cases h
  | succ n ih =>
    simp only [RadOs.destroyLoop] at h
    obtain ⟨⟨r, k₁⟩, hd, h⟩ := Outcome.bind_ok h
    cases r with
    | none =>
      cases h
      obtain ⟨-, rfl, hn⟩ | ⟨t, hr, -⟩ := hk.filed.dequeue hd
      · exact ⟨.refl ho, hn⟩
      · cases hr
    | some t =>
      obtain ⟨k₂, ht, h⟩ := Outcome.bind_ok h
      obtain ⟨k₃, hw, h⟩ := Outcome.bind_ok h
      have h₃ := take hk ho hd ht hw
      obtain ⟨h', hn⟩ := ih (h₃.trace.tended hk) h₃.off h
      exact ⟨h₃.trans h', hn⟩

theorem wakeupLoop {q : WaitqueueId} {cnt : ℕ} {a : Bool} {y : Kernel × Bool} (hk : Tended k)
    (ho : (k.tasks k.taskCurrent).taskQueue = none)
    (h : RadOs.wakeupLoop q n cnt a k = .ok y) : Tends k y.1 := by
  induction n generalizing k cnt a with
  | zero => cases h
  | succ n ih =>
    simp only [RadOs.wakeupLoop] at h
    split at h
    · obtain ⟨⟨r, k₁⟩, hd, h⟩ := Outcome.bind_ok h
      cases r with
      | none =>
        cases h
        obtain ⟨-, rfl, -⟩ | ⟨t, hr, -⟩ := hk.filed.dequeue hd
        · exact .refl ho
        · cases hr
      | some t =>
        obtain ⟨k₂, ht, h⟩ := Outcome.bind_ok h
        obtain ⟨k₃, hw, h⟩ := Outcome.bind_ok h
        have h₃ : Tends k k₃ := take (a := true) hk ho hd ht hw
        exact h₃.trans (ih (h₃.trace.tended hk) h₃.off h)
    · cases h
      exact .refl ho

end Tends

namespace QueueTrace
variable {c : Ctx} {n : ℕ} {m : MtxId} {r : Option RetCode} {s : SemId} {T : ℕ}

theorem setCtx (k : Kernel) (c : Ctx) : QueueTrace k (k.setCtx c) := .setTask k rfl rfl rfl

theorem running (k : Kernel) : QueueTrace k k.running := .setTask k rfl rfl rfl

theorem switchContext (u : TaskId) : QueueTrace k (archContextSwitch u c k) := by
  exact (setCtx k c).trans (.same rfl rfl)

theorem schedule (hk : Tended k) (ho : (k.tasks k.taskCurrent).taskQueue = none)
    (h : osSchedule p c k = .ok k') : QueueTrace k k' := by
  unfold osSchedule at h
  split at h
  · obtain ⟨⟨u, k₁⟩, hd, h⟩ := Outcome.bind_ok h
    have h₁ : QueueTrace k k₁ := .single (.call (.dequeuePrio .ready _) u trivial hd)
    cases u with
    | none =>
      cases h
      exact h₁
    | some u =>
      obtain ⟨k₂, hm, h⟩ := Outcome.bind_ok h
      have hoff : (k₁.tasks k₁.taskCurrent).taskQueue = none := by
        obtain ⟨hr, -, -⟩ | ⟨v, -, -, -, q, rfl, -, -⟩ := hk.filed.dequeuePrio hd
        · cases hr
        · by_cases hv : k.taskCurrent = v <;> simp [hv]
          exact ho
      have hs : QueueTrace k₁ (k₁.setTask k₁.taskCurrent
          { k₁.tasks k₁.taskCurrent with state := .ready }) := .setTask k₁ rfl rfl rfl
      have hp : QueueOp.Proper (k₁.setTask k₁.taskCurrent
          { k₁.tasks k₁.taskCurrent with state := .ready }) (.enqueue .ready k₁.taskCurrent) := by
        simpa [QueueOp.Proper] using hoff
      have hm' : QueueTrace k₁ k₂ := hs.trans
        (.single (.call (.enqueue .ready k₁.taskCurrent) none hp (by
          simp only [QueueOp.onKernel]
          rw [show osTaskqueueEnqueue .ready k₁.taskCurrent _ = _ from hm]
          rfl)))
      refine (h₁.trans hm').trans ?_
      split at h
      · cases h
        exact switchContext u
      · cases h
        have hu : QueueTrace k₂ { k₂ with taskCurrent := u } := .same rfl rfl
        exact hu.trans (running _)
  · cases h
    exact .refl

theorem blockSwitch {b : TaskBlock} (ho : (k.tasks k.taskCurrent).taskQueue = none)
    (h : osTaskBlockSwitch Q b c k = .ok k') : QueueTrace k k' := by
  obtain ⟨k₁, hm, h⟩ := Outcome.bind_ok h
  obtain ⟨⟨u, k₂⟩, hd, h⟩ := Outcome.bind_ok h
  have hs : QueueTrace k
      (k.setTask k.taskCurrent { k.current with state := .wait, blockType := b }) :=
    .setTask k rfl rfl rfl
  have hp : QueueOp.Proper (k.setTask k.taskCurrent
      { k.current with state := .wait, blockType := b }) (.enqueue Q k.taskCurrent) := by
    simpa [QueueOp.Proper, Kernel.current] using ho
  have hm' := hs.trans (.single (.call (.enqueue Q k.taskCurrent) none hp (by
    simp only [QueueOp.onKernel]
    rw [show osTaskqueueEnqueue Q k.taskCurrent _ = _ from hm]
    rfl)))
  have hd' := hm'.trans (.single (.call (.dequeue .ready) u trivial hd))
  cases u with
  | none => cases h
  | some u =>
    cases h
    exact hd'.trans (switchContext u)

theorem timed {proc : TimerProc} (ho : (k.tasks k.taskCurrent).taskQueue = none)
    (h : Placed.Timed n proc T k k') : Tends k k' := by
  obtain ⟨-, rfl⟩ | ⟨x, -, -, -, rfl⟩ := h
  · exact .refl ho
  · have h₁ : Tends k (k.setTask k.taskCurrent
        { k.current with timer := some (.block k.taskCurrent) }) := .setTask ho rfl rfl rfl
    exact h₁.trans (.same h₁.off rfl rfl rfl)

theorem semDestroy (hk : Tended k) (ho : (k.tasks k.taskCurrent).taskQueue = none)
    (h : osSemDestroy n s c k = .ok k') : QueueTrace k k' := by
  obtain ⟨-, h⟩ := Outcome.assert_ok h
  obtain ⟨-, h⟩ := Outcome.assert_ok h
  obtain ⟨k₁, hd, h⟩ := Outcome.bind_ok h
  obtain ⟨h₁, hn⟩ := Tends.destroyLoop hk ho hd
  have h₂ : QueueTrace k₁ ((k₁.setQueue (.sem s) .zero).setSem s 0) :=
    (single (.destroy _ hn rfl)).trans (.same rfl rfl)
  have h₁₂ := h₁.trace.trans h₂
  exact h₁₂.trans (schedule (h₁₂.tended hk) h₁.off h)

theorem semDown (ho : (k.tasks k.taskCurrent).taskQueue = none)
    (h : osSemDown n s T c k = .ok (k', r)) : QueueTrace k k' ∧ (r ≠ none → Tends k k') := by
  obtain ⟨-, h⟩ := Outcome.assert_ok h
  obtain ⟨-, h⟩ := Outcome.assert_ok h
  obtain ⟨-, h⟩ := Outcome.assert_ok h
  obtain ⟨-, h⟩ := Outcome.assert_ok h
  split at h
  · cases h
    exact ⟨.same rfl rfl, fun _ => .same ho rfl rfl rfl⟩
  · split at h
    · cases h
      exact ⟨.refl, fun _ => .refl ho⟩
    · obtain ⟨k₁, ht, h⟩ := Outcome.bind_ok h
      obtain ⟨k₂, hb, h⟩ := Outcome.bind_ok h
      cases h
      have h₁ := timed ho (Placed.timed ht)
      exact ⟨h₁.trace.trans (blockSwitch h₁.off hb), fun hr => absurd rfl hr⟩

theorem semUpSync {sync : Bool} (hk : Tended k) (ho : (k.tasks k.taskCurrent).taskQueue = none)
    (h : osSemUpSync s sync c k = .ok k') :
    QueueTrace k k' ∧ (sync = true → Tends k k') := by
  obtain ⟨-, h⟩ := Outcome.assert_ok h
  obtain ⟨-, h⟩ := Outcome.assert_ok h
  obtain ⟨-, h⟩ := Outcome.assert_ok h
  obtain ⟨⟨u, k₁⟩, hd, h⟩ := Outcome.bind_ok h
  cases u with
  | none =>
    cases h
    obtain ⟨-, rfl, -⟩ | ⟨t, hr, -⟩ := hk.filed.dequeue hd
    · exact ⟨.same rfl rfl, fun _ => .same ho rfl rfl rfl⟩
    · cases hr
  | some t =>
    obtain ⟨k₂, ht, h⟩ := Outcome.bind_ok h
    obtain ⟨k₃, hw, h⟩ := Outcome.bind_ok h
    have h₃ : Tends k k₃ := .take (a := true) hk ho hd ht hw
    cases sync with
    | true =>
      cases h
      exact ⟨h₃.trace, fun _ => h₃⟩
    | false =>
      refine ⟨h₃.trace.trans (schedule (h₃.trace.tended hk) h₃.off h), fun he => ?_⟩
      cases he

/-! ### Mutexes -/

theorem prioBoostLoop {q : ℕ} (hk : Tended k) (ho : (k.tasks k.taskCurrent).taskQueue = none)
    (hq : q < Port.priocnt) (h : RadOs.prioBoostLoop q n t k = .ok k') : Tends k k' := by
  induction n generalizing t k with
  | zero => cases h
  | succ n ih =>
    simp only [RadOs.prioBoostLoop] at h
    obtain ⟨k₁, hr, h⟩ := Outcome.bind_ok h
    have hp : max k.current.prioCurrent q < Port.priocnt := max_lt (hk.prio _) hq
    have h₁ : Tends k k₁ := by
      refine ⟨.single (.call (.reprio t _) none hp (by simp only [QueueOp.onKernel, hr]; rfl)), ?_,
        ?_⟩
      · obtain ⟨q, rfl, -, -⟩ := hk.filed.reprio hr
        rfl
      · obtain ⟨q, rfl, -, -⟩ := hk.filed.reprio hr
        by_cases ht : k.taskCurrent = t
        · subst ht
          simpa using ho
        · simpa [ht] using ho
    split at h
    · cases h
      exact h₁
    · split at h
      · split at h
        · exact h₁.trans (ih (h₁.trace.tended hk) h₁.off h)
        · cases h
      · cases h

theorem setOwner (ho : (k.tasks k.taskCurrent).taskQueue = none) (t : TaskId) :
    Tends k (osMtxSetOwner m t k) := by
  have h₁ : Tends k (k.setMtx m ⟨some t, 1⟩) := .same ho rfl rfl rfl
  exact h₁.trans (.setTask h₁.off rfl rfl rfl)

theorem clearOwner (ho : (k.tasks k.taskCurrent).taskQueue = none)
    (h : osMtxClearOwner m k = .ok k') : Tends k k' := by
  unfold osMtxClearOwner at h
  split at h
  · cases h
  · split at h
    · cases h
      have h₁ : Tends k (k.setMtx m { k.mtxs m with owner := none }) := .same ho rfl rfl rfl
      exact h₁.trans (.setTask h₁.off rfl rfl rfl)
    · cases h

/-- The new priority is one of those that are there. -/
theorem prioReset_lt {l : List MtxId} {v v' : ℕ} (hk : Tended k) (hv : v < Port.priocnt)
    (h : l.foldlM (prioResetStep k) v = .ok v') : v' < Port.priocnt := by
  induction l generalizing v with
  | nil =>
    cases h
    exact hv
  | cons m l ih =>
    rw [List.foldlM_cons] at h
    obtain ⟨v₁, h₁, h⟩ := Outcome.bind_ok h
    obtain ⟨u, -, h₁⟩ := Outcome.bind_ok h₁
    cases u with
    | none =>
      cases h₁
      exact ih hv h
    | some u =>
      cases h₁
      exact ih (max_lt hv (hk.prio u)) h

theorem prioReset (hk : Tended k) (ho : (k.tasks k.taskCurrent).taskQueue = none)
    (h : osMtxUnlockPrioReset k = .ok k') : Tends k k' := by
  unfold osMtxUnlockPrioReset at h
  split at h
  · obtain ⟨v, hv, h⟩ := Outcome.bind_ok h
    cases h
    refine ⟨.single (.prio k.taskCurrent v (prioReset_lt hk (hk.base _) hv) ho rfl), rfl, ?_⟩
    simpa [Kernel.current] using ho
  · cases h
    exact .refl ho

theorem mtxDestroy (hk : Tended k) (ho : (k.tasks k.taskCurrent).taskQueue = none)
    (hm : ∀ t, (k.tasks t).taskQueue = some (.mtx m) → (k.mtxs m).owner ≠ none)
    (h : osMtxDestroy n m k = .ok k') : QueueTrace k k' := by
  obtain ⟨-, h⟩ := Outcome.assert_ok h
  obtain ⟨-, h⟩ := Outcome.assert_ok h
  obtain ⟨k₁, hb, h⟩ := Outcome.bind_ok h
  have h₁ : Tends k k₁ ∧ ∀ t, (k₁.tasks t).taskQueue ≠ some (.mtx m) := by
    split at hb
    · rename_i hown
      cases hb
      exact ⟨.refl ho, fun t ht => hm t ht hown⟩
    · obtain ⟨-, hb⟩ := Outcome.assert_ok hb
      obtain ⟨k₂, hc, hb⟩ := Outcome.bind_ok hb
      obtain ⟨k₃, hr, hb⟩ := Outcome.bind_ok hb
      have h₂ := clearOwner ho hc
      have h₃ := h₂.trans (prioReset (h₂.trace.tended hk) h₂.off hr)
      obtain ⟨h₄, hn⟩ := Tends.destroyLoop (h₃.trace.tended hk) h₃.off hb
      exact ⟨h₃.trans h₄, hn⟩
  have h₂ : QueueTrace k₁ ((k₁.setQueue (.mtx m) .zero).setMtx m .zero) :=
    (single (.destroy _ h₁.2 rfl)).trans (.same rfl rfl)
  have h₁₂ := h₁.1.trace.trans h₂
  exact h₁₂.trans (schedule (h₁₂.tended hk) h₁.1.off h)

theorem mtxLock (hk : Tended k) (ho : (k.tasks k.taskCurrent).taskQueue = none)
    (h : osMtxLock n m k = .ok (k', r)) : QueueTrace k k' := by
  obtain ⟨-, h⟩ := Outcome.assert_ok h
  obtain ⟨-, h⟩ := Outcome.assert_ok h
  obtain ⟨-, h⟩ := Outcome.assert_ok h
  split at h
  · cases h
    exact (setOwner ho _).trace
  · split at h
    · cases h
      exact .same rfl rfl
    · obtain ⟨k₁, hb, h⟩ := Outcome.bind_ok h
      obtain ⟨k₂, hs, h⟩ := Outcome.bind_ok h
      cases h
      have h₁ : Tends k k₁ := by
        unfold osMtxLockPrioBoost at hb
        split at hb
        · cases hb
        · split at hb
          · exact prioBoostLoop hk ho (hk.prio _) hb
          · cases hb
            exact .refl ho
      exact h₁.trace.trans (blockSwitch h₁.off hs)

theorem mtxUnlock (hk : Tended k) (ho : (k.tasks k.taskCurrent).taskQueue = none)
    (h : osMtxUnlock m k = .ok k') : QueueTrace k k' := by
  obtain ⟨-, h⟩ := Outcome.assert_ok h
  obtain ⟨-, h⟩ := Outcome.assert_ok h
  obtain ⟨-, h⟩ := Outcome.assert_ok h
  simp only at h
  have h₀ : Tends k (k.setMtx m { k.mtxs m with recur := ((k.mtxs m).recur + 255) % 256 }) :=
    .same ho rfl rfl rfl
  split at h
  · cases h
    exact h₀.trace
  · obtain ⟨k₁, hc, h⟩ := Outcome.bind_ok h
    obtain ⟨k₂, hr, h⟩ := Outcome.bind_ok h
    obtain ⟨⟨u, k₃⟩, hd, h⟩ := Outcome.bind_ok h
    have h₁ := h₀.trans (clearOwner h₀.off hc)
    have h₂ := h₁.trans (prioReset (h₁.trace.tended hk) h₁.off hr)
    have hk₂ := h₂.trace.tended hk
    cases u with
    | none =>
      cases h
      exact h₂.trace.trans (.single (.call (.dequeue (.mtx m)) none trivial hd))
    | some t =>
      obtain ⟨k₄, hw, h⟩ := Outcome.bind_ok h
      obtain ⟨hne, hq, h₃⟩ := Tends.dequeue hk₂ h₂.off hd
      have h₄ := h₃.trans (setOwner (m := m) h₃.off t)
      have h₅ : Tends k₂ k₄ := by
        refine h₄.trans (.wakeup (h₄.trace.tended hk₂) h₄.off ?_ ?_ hw)
        · simpa [osMtxSetOwner] using hq
        · rw [h₄.current]
          exact hne
      have h₆ := h₂.trans h₅
      exact h₆.trace.trans (schedule (h₆.trace.tended hk) h₆.off h)

/-! ### Wait queues -/

theorem waitqueueDestroy {q : WaitqueueId} (hk : Tended k)
    (ho : (k.tasks k.taskCurrent).taskQueue = none)
    (h : osWaitqueueDestroy n q k = .ok k') : QueueTrace k k' := by
  obtain ⟨-, h⟩ := Outcome.assert_ok h
  obtain ⟨k₁, hd, h⟩ := Outcome.bind_ok h
  obtain ⟨h₁, hn⟩ := Tends.destroyLoop hk ho hd
  have h₂ := h₁.trace.trans (.single (.destroy _ hn rfl))
  exact h₂.trans (schedule (h₂.tended hk) h₁.off h)

theorem waitqueueWait (ho : (k.tasks k.taskCurrent).taskQueue = none)
    (h : osWaitqueueWait n T k = .ok (k', r)) : QueueTrace k k' := by
  obtain ⟨-, h⟩ := Outcome.assert_ok h
  obtain ⟨-, h⟩ := Outcome.assert_ok h
  obtain ⟨-, h⟩ := Outcome.assert_ok h
  obtain ⟨-, h⟩ := Outcome.assert_ok h
  simp only at h
  have h₀ : Tends k { k with schedLock := k.schedLock - 1 } := .same ho rfl rfl rfl
  split at h
  · cases h
    exact h₀.trace.trans (.setTask _ rfl rfl rfl)
  · obtain ⟨k₁, ht, h⟩ := Outcome.bind_ok h
    obtain ⟨k₂, hb, h⟩ := Outcome.bind_ok h
    cases h
    have h₁ := h₀.trans (timed h₀.off (Placed.timed ht))
    have hset : Tends k₁ { k₁ with waitqueueCurrent := none } := .same h₁.off rfl rfl rfl
    have h₂ := h₁.trans hset
    exact h₂.trace.trans (blockSwitch h₂.off hb)

theorem waitqueueWakeupSync {q : WaitqueueId} {cnt : ℕ} {sync : Bool} (hk : Tended k)
    (ho : (k.tasks k.taskCurrent).taskQueue = none)
    (h : osWaitqueueWakeupSync n q cnt sync k = .ok k') : QueueTrace k k' := by
  obtain ⟨-, h⟩ := Outcome.assert_ok h
  obtain ⟨-, h⟩ := Outcome.assert_ok h
  obtain ⟨-, h⟩ := Outcome.assert_ok h
  simp only at h
  obtain ⟨⟨k₁, a⟩, hl, h⟩ := Outcome.bind_ok h
  have h₀ : Tends k (if 0 < k.isrNesting ∧ k.waitqueueCurrent = some q then
      { k with waitqueueCurrent := none } else k) := by
    split
    · exact .same ho rfl rfl rfl
    · exact .refl ho
  have h₁ := h₀.trans (Tends.wakeupLoop (h₀.trace.tended hk) h₀.off hl)
  simp only at h
  split at h
  · exact h₁.trace.trans (schedule (h₁.trace.tended hk) h₁.off h)
  · cases h
    exact h₁.trace

/-! ### Tasks -/

theorem taskCreate (hk : Tended k) (ho : (k.tasks k.taskCurrent).taskQueue = none)
    (ht : (k.tasks t).taskQueue = none) (hne : t ≠ k.taskCurrent)
    (h : osTaskCreate t p k = .ok k') : QueueTrace k k' := by
  obtain ⟨-, h⟩ := Outcome.assert_ok h
  obtain ⟨-, h⟩ := Outcome.assert_ok h
  obtain ⟨hp, h⟩ := Outcome.assert_ok h
  obtain ⟨-, h⟩ := Outcome.assert_ok h
  obtain ⟨k₁, he, h⟩ := Outcome.bind_ok h
  have h₀ : QueueTrace k (k.setTask t (osTaskInit p)) := .single (.create t p hp ht rfl)
  have h₁ : Tends (k.setTask t (osTaskInit p)) k₁ := by
    refine .enqueue (h₀.tended hk) ?_ ?_ hne he
    · simpa [Ne.symm hne] using ho
    · simp [osTaskInit]
  have h₀₁ := h₀.trans h₁.trace
  exact h₀₁.trans (schedule (h₀₁.tended hk) h₁.off h)

theorem taskExit {v : ℤ} (hk : Tended k) (ho : (k.tasks k.taskCurrent).taskQueue = none)
    (h : osTaskExit v k = .ok k') : QueueTrace k k' := by
  obtain ⟨k₁, hs, h⟩ := Outcome.bind_ok h
  obtain ⟨⟨u, k₂⟩, hd, h⟩ := Outcome.bind_ok h
  have h₁ : Tends k k₁ := by
    unfold taskExitSignal at hs
    have h₀ : Tends k (k.setTask k.taskCurrent
        { k.current with retValue := v, state := .destroyed }) := .setTask ho rfl rfl rfl
    simp only at hs
    split at hs
    · cases hs
      exact h₀
    · exact h₀.trans ((semUpSync (h₀.trace.tended hk) h₀.off hs).2 rfl)
  have hd' := h₁.trace.trans (.single (.call (.dequeue .ready) u trivial hd))
  cases u with
  | none => cases h
  | some u =>
    cases h
    exact hd'.trans (switchContext u)

theorem joinFinish {v : Ret} (h : RadOs.joinFinish t k = .ok (k', v)) : QueueTrace k k' := by
  obtain ⟨-, h⟩ := Outcome.assert_ok h
  cases h
  exact .setTask _ rfl rfl rfl

theorem joinDestroyed {v : Option Ret} {c : RetCode} (hk : Tended k)
    (ho : (k.tasks k.taskCurrent).taskQueue = none)
    (h : RadOs.joinDestroyed n t c k = .ok (k', v)) : QueueTrace k k' := by
  obtain ⟨-, h⟩ := Outcome.assert_ok h
  obtain ⟨k₁, hd, h⟩ := Outcome.bind_ok h
  have h₁ := semDestroy hk ho hd
  split at h
  · obtain ⟨⟨k₂, w⟩, hf, h⟩ := Outcome.bind_ok h
    cases h
    exact (h₁.trans (joinFinish hf)).trans (.setTask _ rfl rfl rfl)
  · cases h
    exact h₁

theorem taskJoin {v : Option Ret} (hk : Tended k) (ho : (k.tasks k.taskCurrent).taskQueue = none)
    (hj : ∀ u, (k.tasks u).taskQueue ≠ some (.sem (.join k.taskCurrent)))
    (h : osTaskJoin n t k = .ok (k', v)) : QueueTrace k k' := by
  obtain ⟨-, h⟩ := Outcome.assert_ok h
  obtain ⟨-, h⟩ := Outcome.assert_ok h
  obtain ⟨-, h⟩ := Outcome.assert_ok h
  obtain ⟨-, h⟩ := Outcome.assert_ok h
  obtain ⟨-, h⟩ := Outcome.assert_ok h
  split at h
  · cases h
  · split at h
    · obtain ⟨k₁, hc, h⟩ := Outcome.bind_ok h
      obtain ⟨⟨k₂, r⟩, hd, h⟩ := Outcome.bind_ok h
      obtain ⟨-, rfl⟩ := Placed.semCreate hc
      have h₀ : Tends k ((k.setQueue (.sem (.join k.taskCurrent)) osTaskqueueInit).setSem
          (.join k.taskCurrent) 0) :=
        ⟨(single (.call (.init _) none hj rfl)).trans (.same rfl rfl), rfl, ho⟩
      have h₁ := h₀.trans (.setTask (t := t)
        (x := { k.tasks t with joinSem := some (.join k.taskCurrent) }) h₀.off rfl rfl rfl)
      obtain ⟨h₂, hr⟩ := semDown h₁.off hd
      cases r with
      | none =>
        cases h
        exact h₁.trace.trans h₂
      | some c =>
        have h₃ := h₁.trans (hr (by simp))
        exact h₃.trace.trans (joinDestroyed (h₃.trace.tended hk) h₃.off h)
    · obtain ⟨⟨k₁, w⟩, hf, h⟩ := Outcome.bind_ok h
      cases h
      exact joinFinish hf

/-! ### Timers -/

theorem tick (hk : Tended k) (ho : (k.tasks k.taskCurrent).taskQueue = none)
    (h : osTick n k = .ok k') : QueueTrace k k' := by
  obtain ⟨-, h⟩ := Outcome.assert_ok h
  obtain ⟨k₁, ht, h⟩ := Outcome.bind_ok h
  have h₁ : Tends k k₁ := by
    refine osTickTimers_invariant (P := Tends k) (fun x s hs => ?_) (fun x s s' hs hc => ?_) ht
      (.refl ho)
    · exact hs.trans (.same hs.off rfl rfl rfl)
    · have hsk := hs.trace.tended hk
      have hcb : ∀ u, blockTimerclbck u s = .ok s' → Tends k s' := by
        intro u hu
        obtain ⟨-, hu⟩ := Outcome.assert_ok hu
        obtain ⟨s₁, hun, hw⟩ := Outcome.bind_ok hu
        obtain ⟨hne, hq, h₂⟩ := Tends.unlink hsk hs.off hun
        exact hs.trans (h₂.trans (.wakeup (h₂.trace.tended hsk) h₂.off hq
          (by rw [h₂.current]; exact hne) hw))
      unfold timerClbck at hc
      split at hc
      · cases hc
        exact hs
      · exact hcb _ hc
      · exact hcb _ hc
  exact h₁.trace.trans (schedule (h₁.trace.tended hk) h₁.off h)

theorem schedulerUnlock {sync : Bool} (h : osSchedulerUnlock sync k = .ok k') : QueueTrace k k' := by
  obtain ⟨-, h⟩ := Outcome.assert_ok h
  obtain ⟨-, h⟩ := Outcome.assert_ok h
  have hl : QueueTrace k { k with schedLock := k.schedLock - 1 } := .same rfl rfl
  simp only at h
  split at h
  · cases h
    exact hl.trans (setCtx _ _)
  · cases h
    exact hl.trans (setCtx _ _)

theorem blockedReturn {c : RetCode} (ho : (k.tasks k.taskCurrent).taskQueue = none)
    (h : RadOs.blockedReturn k = .ok (k', c)) : Tends k k' := by
  obtain ⟨k₁, hd, h⟩ := Outcome.bind_ok h
  cases h
  have h₁ : Tends k k.running := .setTask ho rfl rfl rfl
  exact h₁.trans (Tends.blocktimerDestroy h₁.off hd).1

theorem resume {v : Option Ret} (hk : Tended k) (ho : (k.tasks k.taskCurrent).taskQueue = none)
    (h : RadOs.resume n k = .ok (k', v)) : QueueTrace k k' := by
  have hset : ∀ c, Tends k (k.setCtx c) := fun c => .setTask ho rfl rfl rfl
  have hrun : Tends k k.running := .setTask ho rfl rfl rfl
  unfold RadOs.resume at h
  split at h
  case h_1 | h_2 | h_3 =>
    all_goals cases h
  case h_4 q hc =>
    cases h
    have hq : QueueTrace k { k with waitqueueCurrent := some q } := .same rfl rfl
    exact hq.trans (setCtx _ _)
  case h_5 hc => exact schedulerUnlock (quiet_ok h).1
  case h_6 hc | h_7 hc =>
    all_goals
      exact (hset .user).trace.trans
        (schedule ((hset .user).trace.tended hk) (hset .user).off (quiet_ok h).1)
  case h_8 hc =>
    cases h
    exact hrun.trace.trans (.setTask _ rfl rfl rfl)
  case h_9 s hc | h_10 q hc =>
    all_goals
      obtain ⟨⟨k₁, c⟩, hb, h⟩ := Outcome.bind_ok h
      cases h
      exact (blockedReturn ho hb).trace.trans (.setTask _ rfl rfl rfl)
  case h_11 m hc =>
    cases h
    exact hrun.trace.trans (.setTask _ rfl rfl rfl)
  case h_12 t hc =>
    obtain ⟨⟨k₁, c⟩, hb, h⟩ := Outcome.bind_ok h
    have h₁ := blockedReturn ho hb
    exact h₁.trace.trans (joinDestroyed (h₁.trace.tended hk) h₁.off h)
  case h_13 t hc =>
    obtain ⟨⟨k₁, w⟩, hf, h⟩ := Outcome.bind_ok h
    cases h
    exact (hrun.trace.trans (joinFinish hf)).trans (.setTask _ rfl rfl rfl)

end QueueTrace

/-- A step of the kernel, as far as the queues are concerned. -/
theorem exec_queueTrace {n : ℕ} {i : Action} {r : Option Ret} (hk : Tended k) (hs : Sound k)
    (hsane : Sane k i) (h : exec n i k = .ok (k', r)) : QueueTrace k k' := by
  have ho : (k.tasks k.taskCurrent).taskQueue = none := hs.placed.current
  cases i with
  | resume => exact .resume hk ho h
  | isrEnter | isrExit =>
    all_goals
      cases h
      exact .same rfl rfl
  | call c =>
    cases c with
    | start =>
      obtain ⟨-, h⟩ := Outcome.assert_ok (quiet_ok h).1
      obtain ⟨-, h⟩ := Outcome.assert_ok h
      cases h
      have hq : QueueTrace k { k with schedLock := 0, started := true } := .same rfl rfl
      exact hq.trans (.setCtx _ _)
    | taskCreate t p =>
      have ht : (k.tasks t).taskQueue = none := by
        by_contra hne
        exact hsane (hs.placed.live t hne)
      refine .taskCreate hk ho ht ?_ (quiet_ok h).1
      rintro rfl
      exact hsane hs.placed.currentLive
    | taskExit v => exact .taskExit hk ho (quiet_ok h).1
    | taskJoin t => exact .taskJoin hk ho hs.placed.no_joiner h
    | yield =>
      obtain ⟨-, h⟩ := Outcome.assert_ok (quiet_ok h).1
      obtain ⟨-, h⟩ := Outcome.assert_ok h
      obtain ⟨-, h⟩ := Outcome.assert_ok h
      exact .schedule hk ho h
    | schedulerLock =>
      obtain ⟨-, h⟩ := Outcome.assert_ok (quiet_ok h).1
      obtain ⟨-, h⟩ := Outcome.assert_ok h
      cases h
      exact .same rfl rfl
    | schedulerUnlock sync => exact .schedulerUnlock (quiet_ok h).1
    | semCreate s v =>
      obtain ⟨-, rfl⟩ := Placed.semCreate (quiet_ok h).1
      exact (QueueTrace.single (.call (.init _) none hsane rfl)).trans (.same rfl rfl)
    | semDestroy s => exact .semDestroy hk ho (quiet_ok h).1
    | semDown s T =>
      obtain ⟨c, h, -⟩ := coded_ok h
      exact (QueueTrace.semDown ho h).1
    | semUp s sync => exact (QueueTrace.semUpSync hk ho (quiet_ok h).1).1
    | mtxCreate m =>
      obtain ⟨-, h⟩ := Outcome.assert_ok (quiet_ok h).1
      obtain ⟨-, h⟩ := Outcome.assert_ok h
      cases h
      exact (QueueTrace.single (.call (.init _) none hsane.2 rfl)).trans (.same rfl rfl)
    | mtxDestroy m => exact .mtxDestroy hk ho (fun t => hs.owned t m) (quiet_ok h).1
    | mtxLock m =>
      obtain ⟨c, h, -⟩ := coded_ok h
      exact .mtxLock hk ho h
    | mtxUnlock m => exact .mtxUnlock hk ho (quiet_ok h).1
    | waitqueueCreate q =>
      obtain ⟨-, h⟩ := Outcome.assert_ok (quiet_ok h).1
      cases h
      exact .single (.call (.init _) none hsane rfl)
    | waitqueueDestroy q => exact .waitqueueDestroy hk ho (quiet_ok h).1
    | waitqueuePrepare q =>
      obtain ⟨-, h⟩ := Outcome.assert_ok (quiet_ok h).1
      obtain ⟨-, h⟩ := Outcome.assert_ok h
      obtain ⟨-, h⟩ := Outcome.assert_ok h
      obtain ⟨-, h⟩ := Outcome.assert_ok h
      obtain ⟨k₁, hl, h⟩ := Outcome.bind_ok h
      obtain ⟨-, hl⟩ := Outcome.assert_ok hl
      obtain ⟨-, hl⟩ := Outcome.assert_ok hl
      cases hl
      cases h
      have hq : QueueTrace k { k with schedLock := k.schedLock + 1 } := .same rfl rfl
      exact hq.trans (.setCtx _ _)
    | waitqueueBreak =>
      obtain ⟨-, h⟩ := Outcome.assert_ok (quiet_ok h).1
      cases h
      have hq : QueueTrace k { k with waitqueueCurrent := none } := .same rfl rfl
      exact hq.trans (.setCtx _ _)
    | waitqueueWait T =>
      obtain ⟨c, h, -⟩ := coded_ok h
      exact .waitqueueWait ho h
    | waitqueueWakeup q cnt sync => exact .waitqueueWakeupSync hk ho (quiet_ok h).1
    | timerCreate x T R | timerDestroy x =>
      all_goals
        obtain ⟨y, -, h⟩ := Outcome.bind_ok (quiet_ok h).1
        cases h
        exact .same rfl rfl
    | tick => exact .tick hk ho (quiet_ok h).1

end Steps

/-! ## The order of the queues -/

section Order
variable {k k' : Kernel} {Q : QueueId} {t : TaskId}

theorem Filed.enqueue_order (hf : Filed k) (h : osTaskqueueEnqueue Q t k = .ok k') :
    k'.order Q = enqueued k.prio t (k.order Q) ∧ ∀ Q', Q' ≠ Q → k'.queues Q' = k.queues Q' := by
  refine ⟨?_, (osTaskqueueEnqueue_bucket h).2⟩
  unfold osTaskqueueEnqueue at h
  split at h
  · cases h
    have hpush := ((hf.represents Q).push t).toList_eq
    simpa [Kernel.order, Kernel.setQueue, Kernel.setTask, Kernel.prio] using hpush
  · cases h

theorem Filed.unlink_order (hf : Filed k) (h : osTaskqueueUnlink t k = .ok k')
    (hQ : (k.tasks t).taskQueue = some Q) :
    k'.order Q = (k.order Q).erase t ∧ ∀ Q', Q' ≠ Q → k'.queues Q' = k.queues Q' := by
  simp only [osTaskqueueUnlink, hQ] at h
  cases h
  refine ⟨?_, fun Q' hne => Function.update_of_ne hne _ _⟩
  have hrem := ((hf.represents Q).remove (hf.mem_order.mpr hQ)).toList_eq
  simpa [Kernel.order, Kernel.setQueue, Kernel.setTask, Kernel.prio] using hrem

theorem Filed.dequeue_order {r : Option TaskId} (hf : Filed k)
    (h : osTaskqueueDequeue Q k = .ok (r, k')) :
    r = (k.order Q).head? ∧ k'.order Q = (k.order Q).tail ∧
      ∀ Q', Q' ≠ Q → k'.queues Q' = k.queues Q' := by
  cases ho : k.order Q with
  | nil =>
    rw [hf.dequeue_nil ho] at h
    cases h
    exact ⟨rfl, ho, fun _ _ => rfl⟩
  | cons t l =>
    obtain ⟨k₁, hd, hl, hq⟩ := hf.dequeue_cons ho
    rw [hd] at h
    cases h
    exact ⟨rfl, hl, hq⟩

/-- A task with a new priority comes behind all tasks that have it. -/
theorem Filed.reprio_order {p : ℕ} (hf : Filed k) (h : osTaskqueueReprio t p k = .ok k')
    (hp : k.prio t ≠ p) (Q : QueueId) : k'.order Q = if (k.tasks t).taskQueue = some Q then
      enqueued (Function.update k.prio t p) t ((k.order Q).erase t) else k.order Q := by
  rw [osTaskqueueReprio, if_pos (show (k.tasks t).prioCurrent ≠ p from hp)] at h
  cases hQ : (k.tasks t).taskQueue with
  | none =>
    rw [hQ] at h
    cases h
    simp [Kernel.order]
  | some Q' =>
    rw [hQ] at h
    obtain ⟨k₁, hu, h⟩ := Outcome.bind_ok h
    obtain ⟨ho, hoth⟩ := hf.unlink_order hu hQ
    obtain ⟨-, hre⟩ := hf.unlink hu
    have hf₁ : Filed (k₁.setTask t { k₁.tasks t with prioCurrent := p }) := by
      refine hre.filed.setTask rfl fun hn => absurd ?_ hn
      obtain ⟨q, rfl, -, -⟩ := hre
      simp
    obtain ⟨ho', hoth'⟩ := hf₁.enqueue_order h
    have hprio : (k₁.setTask t { k₁.tasks t with prioCurrent := p }).prio =
        Function.update k.prio t p := by
      obtain ⟨q, rfl, -, -⟩ := hre
      funext u
      by_cases hu : u = t
      · subst hu
        simp [Kernel.prio]
      · simp [Kernel.prio, hu]
    by_cases he : Q = Q'
    · subst he
      rw [if_pos rfl, ho', hprio]
      exact congrArg _ ho
    · rw [if_neg (by simpa using Ne.symm he), Kernel.order, Kernel.order, hoth' Q he, ← hoth Q he]
      rfl

/-- `os_taskqueue_dequeue_prio` takes the same task or none. -/
theorem osTaskqueueDequeuePrio_cases {p : ℕ} {r : Option TaskId}
    (h : osTaskqueueDequeuePrio Q p k = .ok (r, k')) :
    (r = none ∧ k' = k) ∨ (r ≠ none ∧ osTaskqueueDequeue Q k = .ok (r, k')) := by
  unfold osTaskqueueDequeuePrio at h
  unfold osTaskqueueDequeue
  split at h
  · cases h
    exact Or.inl ⟨rfl, rfl⟩
  · split at h
    · cases h
      exact Or.inl ⟨rfl, rfl⟩
    · obtain ⟨⟨t, k₁⟩, hd, he⟩ := Outcome.bind_ok h
      cases he
      exact Or.inr ⟨by simp, h⟩

end Order

end RadOs
