import RadOs.Kernel.Sound
import RadOs.Lib.PriorityQueue

/-! # The order of a task queue

Queues that are filed hold their tasks in an order: the tasks of higher priority
first, and tasks of one priority as they came in. What is dequeued is the first
task, and what is enqueued comes behind all tasks of its priority.
-/

namespace RadOs
open Bucketed

namespace Kernel

/-- The tasks of a queue in the order in which they leave it. -/
def order (k : Kernel) (Q : QueueId) : List TaskId := (k.queues Q).tasks.toList

end Kernel

namespace Filed
variable {k k' : Kernel} {Q : QueueId} {t : TaskId} {l : List TaskId} {p : ℕ}

theorem represents (h : Filed k) (Q : QueueId) :
    Represents (k.queues Q).tasks k.prio (k.order Q) := by
  refine (h Q).represents fun a p ha => ?_
  simp only [Kernel.key, Option.ite_none_right_eq_some, Option.some.injEq] at ha
  exact ha.2

theorem mem_order (h : Filed k) : t ∈ k.order Q ↔ (k.tasks t).taskQueue = some Q := by
  have hb : t ∈ (k.queues Q).tasks.bucket (k.prio t) ↔ t ∈ k.order Q ∧ k.prio t = k.prio t :=
    (h.represents Q).mem_bucket
  rw [h.mem] at hb
  simpa [Kernel.prio] using hb.symm

theorem order_nodup (h : Filed k) : (k.order Q).Nodup := by
  refine List.nodup_iff_count_le_one.mpr fun t => ?_
  have hb := (h.represents Q).bucket (k.prio t)
  have hc : ((k.queues Q).tasks.bucket (k.prio t)).count t = (k.order Q).count t := by
    rw [hb]
    exact List.count_filter (by simp)
  rw [← hc]
  exact List.nodup_iff_count_le_one.mp ((h Q).nodup _) t

theorem dequeue_nil (h : Filed k) (ho : k.order Q = []) :
    osTaskqueueDequeue Q k = .ok (none, k) := by
  have htop : (k.queues Q).tasks.top = 0 := (ho ▸ h.represents Q).top_nil
  simp only [osTaskqueueDequeue, htop]

theorem intdequeue_cons (h : Filed k) (ho : k.order Q = t :: l) :
    ∃ k', osTaskqueueIntdequeue Q (k.prio t) k = .ok (t, k') ∧ k'.order Q = l ∧
      ∀ Q', Q' ≠ Q → k'.queues Q' = k.queues Q' := by
  have hr : Represents (k.queues Q).tasks k.prio (t :: l) := ho ▸ h.represents Q
  refine ⟨_, by simp only [osTaskqueueIntdequeue, hr.bucket_cons]; rfl, ?_, fun Q' hQ =>
    Function.update_of_ne hQ _ _⟩
  have hpop := hr.pop.toList_eq
  simpa [Kernel.order, Kernel.setQueue, Kernel.setTask] using hpop

theorem dequeue_cons (h : Filed k) (ho : k.order Q = t :: l) :
    ∃ k', osTaskqueueDequeue Q k = .ok (some t, k') ∧ k'.order Q = l ∧
      ∀ Q', Q' ≠ Q → k'.queues Q' = k.queues Q' := by
  have htop : (k.queues Q).tasks.top = k.prio t + 1 := (ho ▸ h.represents Q).top_cons
  obtain ⟨k', hd, hk⟩ := h.intdequeue_cons ho
  refine ⟨k', ?_, hk⟩
  simp only [osTaskqueueDequeue, htop, hd, Outcome.ok_bind]
  rfl

end Filed

section Buckets
variable {k k' : Kernel} {Q : QueueId} {t : TaskId} {m : ℕ}

/-- The first task of a bucket leaves it. -/
theorem osTaskqueueIntdequeue_bucket (h : osTaskqueueIntdequeue Q m k = .ok (t, k')) :
    ∃ b, (k.queues Q).tasks.bucket m = t :: b ∧ (k'.queues Q).tasks.bucket m = b ∧
      ∀ Q' q, ¬ (Q' = Q ∧ q = m) →
        (k'.queues Q').tasks.bucket q = (k.queues Q').tasks.bucket q := by
  unfold osTaskqueueIntdequeue at h
  split at h
  · cases h
  · rename_i u b hb
    cases h
    refine ⟨b, hb, by simp [Kernel.setQueue, Buckets.setBucket], fun Q' q hne => ?_⟩
    by_cases hQ : Q' = Q
    · subst hQ
      have hq : q ≠ m := fun he => hne ⟨rfl, he⟩
      simp [Kernel.setQueue, Buckets.setBucket, hq]
    · simp [Kernel.setQueue, hQ]

/-- What the operations of a queue leave alone in the whole kernel. -/
structure QueueFrame (k k' : Kernel) : Prop where
  prio : ∀ t, k'.prio t = k.prio t
  taskCurrent : k'.taskCurrent = k.taskCurrent
  isrNesting : k'.isrNesting = k.isrNesting
  schedLock : k'.schedLock = k.schedLock

theorem QueueFrame.trans {k₁ : Kernel} (h : QueueFrame k k₁) (h' : QueueFrame k₁ k') :
    QueueFrame k k' :=
  ⟨fun t => (h'.prio t).trans (h.prio t), h'.taskCurrent.trans h.taskCurrent,
    h'.isrNesting.trans h.isrNesting, h'.schedLock.trans h.schedLock⟩

theorem QueueFrame.setTask {x : Task} (hx : x.prioCurrent = (k.tasks t).prioCurrent) :
    QueueFrame k (k.setTask t x) := by
  refine ⟨fun u => ?_, rfl, rfl, rfl⟩
  by_cases hu : u = t
  · subst hu
    simpa [Kernel.prio] using hx
  · simp [Kernel.prio, hu]

theorem QueueFrame.setQueue {x : TaskQueue} : QueueFrame k (k.setQueue Q x) :=
  ⟨fun _ => rfl, rfl, rfl, rfl⟩

theorem osTaskqueueIntdequeue_frame (h : osTaskqueueIntdequeue Q m k = .ok (t, k')) :
    QueueFrame k k' := by
  unfold osTaskqueueIntdequeue at h
  split at h
  · cases h
  · cases h
    exact QueueFrame.setQueue.trans (.setTask rfl)

theorem osTaskqueueEnqueue_frame (h : osTaskqueueEnqueue Q t k = .ok k') : QueueFrame k k' := by
  unfold osTaskqueueEnqueue at h
  split at h
  · cases h
    exact QueueFrame.setQueue.trans (.setTask rfl)
  · cases h

/-- The queue whose mask is above a priority has tasks above it. -/
theorem Filed.top_le (h : Filed k) (hm : ∀ q, m ≤ q → (k.queues Q).tasks.bucket q = []) :
    (k.queues Q).tasks.top ≤ m := by
  cases ht : (k.queues Q).tasks.top with
  | zero => exact Nat.zero_le m
  | succ p =>
    have hne := (h Q).bucket_ne_nil ht
    by_contra hlt
    exact hne (hm p (by omega))

/-- The highest bucket that is not empty. -/
theorem Filed.top_eq (h : Filed k) (hm : ∀ q, m < q → (k.queues Q).tasks.bucket q = [])
    (hne : (k.queues Q).tasks.bucket m ≠ []) : (k.queues Q).tasks.top = m + 1 := by
  refine le_antisymm (h.top_le fun q hq => hm q hq) ?_
  exact Finset.le_sup (f := Nat.succ) (((h Q).mask m).mpr hne)

end Buckets

/-- A task comes behind all tasks of its priority. -/
theorem osTaskqueueEnqueue_bucket {k k' : Kernel} {Q : QueueId} {t : TaskId}
    (h : osTaskqueueEnqueue Q t k = .ok k') :
    (∀ p, (k'.queues Q).tasks.bucket p =
      (k.queues Q).tasks.bucket p ++ if k.prio t = p then [t] else []) ∧
    ∀ Q', Q' ≠ Q → k'.queues Q' = k.queues Q' := by
  unfold osTaskqueueEnqueue at h
  split at h
  · cases h
    refine ⟨fun p => ?_, fun Q' hQ => Function.update_of_ne hQ _ _⟩
    by_cases hp : p = k.prio t
    · subst hp
      simp [Kernel.setTask, Kernel.setQueue, Buckets.push, Kernel.prio]
    · have hp' : p ≠ (k.tasks t).prioCurrent := hp
      simp [Kernel.setTask, Kernel.setQueue, Buckets.push, hp', Ne.symm hp]
  · cases h

theorem osTaskMakeready_bucket {k k' : Kernel} {t : TaskId} (h : osTaskMakeready t k = .ok k') :
    QueueFrame k k' ∧
    (∀ p, (k'.queues .ready).tasks.bucket p =
      (k.queues .ready).tasks.bucket p ++ if k.prio t = p then [t] else []) ∧
    ∀ Q, Q ≠ .ready → k'.queues Q = k.queues Q := by
  have hfr : QueueFrame k (k.setTask t { k.tasks t with state := .ready }) := .setTask rfl
  obtain ⟨hb, hq⟩ := osTaskqueueEnqueue_bucket h
  rw [hfr.prio] at hb
  exact ⟨hfr.trans (osTaskqueueEnqueue_frame h), hb, hq⟩

end RadOs
