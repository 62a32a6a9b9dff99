import RadOs.Kernel.Machine

/-! # What the task queue operations do

`Filed k`: every queue of the kernel holds exactly the tasks whose `task_queue`
names it, each in the bucket of its current priority. Given this, an operation
is described by what it does to the tasks; the queues follow. `Realizes K k`
says that `k` is `K` with queues that are filed again.
-/

namespace RadOs
open Bucketed

namespace Kernel

def prio (k : Kernel) (t : TaskId) : ℕ := (k.tasks t).prioCurrent

/-- The bucket of the queue `Q` a task belongs to. -/
def key (k : Kernel) (Q : QueueId) (t : TaskId) : Option ℕ :=
  if (k.tasks t).taskQueue = some Q then some (k.tasks t).prioCurrent else none

end Kernel

def Filed (k : Kernel) : Prop := ∀ Q, Files (k.queues Q).tasks (k.key Q)

def Realizes (K k : Kernel) : Prop :=
  ∃ q, k = { K with queues := q } ∧ Filed k ∧ ∀ Q, (q Q).linked = (K.queues Q).linked

/-- The first of the waiting tasks with the highest priority. -/
def Kernel.IsFirst (k : Kernel) (Q : QueueId) (t : TaskId) : Prop :=
  (k.queues Q).tasks.top = (k.tasks t).prioCurrent + 1 ∧
    ((k.queues Q).tasks.bucket (k.tasks t).prioCurrent).head? = some t

section Basic
variable {k k' : Kernel} {Q : QueueId} {t : TaskId}

@[simp] theorem Kernel.setTask_tasks (x : Task) :
    (k.setTask t x).tasks = Function.update k.tasks t x := rfl

@[simp] theorem Kernel.setTask_queues (x : Task) : (k.setTask t x).queues = k.queues := rfl

@[simp] theorem Kernel.setTask_taskCurrent (x : Task) :
    (k.setTask t x).taskCurrent = k.taskCurrent := rfl

@[simp] theorem Kernel.setTask_isrNesting (x : Task) :
    (k.setTask t x).isrNesting = k.isrNesting := rfl

@[simp] theorem Kernel.setTask_mtxs (x : Task) : (k.setTask t x).mtxs = k.mtxs := rfl

theorem Kernel.setTask_self : k.setTask t (k.tasks t) = k := by
  simp [Kernel.setTask]

/-- A change of the tasks that the queues do not see. -/
theorem Filed.congr (h : Filed k) (hq : k'.queues = k.queues)
    (ht : ∀ t, (k'.tasks t).taskQueue = (k.tasks t).taskQueue ∧
      ((k.tasks t).taskQueue ≠ none → (k'.tasks t).prioCurrent = (k.tasks t).prioCurrent)) :
    Filed k' := by
  intro Q
  have hk : k'.key Q = k.key Q := by
    funext t
    obtain ⟨h₁, h₂⟩ := ht t
    by_cases hQ : (k.tasks t).taskQueue = some Q
    · simp [Kernel.key, h₁, hQ, h₂ (by simp [hQ])]
    · simp [Kernel.key, h₁, hQ]
  rw [hq, hk]
  exact h Q

theorem Realizes.refl (h : Filed k) : Realizes k k := ⟨k.queues, rfl, h, fun _ => rfl⟩

theorem Filed.setTask (h : Filed k) {x : Task} (hq : x.taskQueue = (k.tasks t).taskQueue)
    (hp : (k.tasks t).taskQueue ≠ none → x.prioCurrent = (k.tasks t).prioCurrent) :
    Filed (k.setTask t x) := by
  refine h.congr rfl fun u => ?_
  by_cases hu : u = t
  · subst hu
    simpa using ⟨hq, hp⟩
  · simp [hu]

theorem Filed.mem (h : Filed k) {p : ℕ} :
    t ∈ (k.queues Q).tasks.bucket p ↔
      (k.tasks t).taskQueue = some Q ∧ (k.tasks t).prioCurrent = p := by
  rw [(h Q).mem]
  simp [Kernel.key]

theorem Filed.first (h : Filed k) (hf : k.IsFirst Q t) :
    (k.tasks t).taskQueue = some Q ∧
      ∀ u, (k.tasks u).taskQueue = some Q → (k.tasks u).prioCurrent ≤ (k.tasks t).prioCurrent := by
  constructor
  · exact (h.mem.mp (List.mem_of_mem_head? hf.2)).1
  · intro u hu
    exact (h Q).le_of_key (a := u) hf.1 (by simp [Kernel.key, hu])

theorem Kernel.IsFirst.unique {u : TaskId} (ht : k.IsFirst Q t) (hu : k.IsFirst Q u) : t = u := by
  have hp : (k.tasks t).prioCurrent = (k.tasks u).prioCurrent :=
    Nat.succ.inj (ht.1.symm.trans hu.1)
  have h := ht.2
  rw [hp, hu.2] at h
  exact (Option.some.inj h).symm

/-- The change of a single queue with the tasks that change with it. -/
theorem Filed.setQueue (h : Filed k) {b : Buckets TaskId} {x : Task}
    (hb : Files b (Function.update (k.key Q) t
      (if x.taskQueue = some Q then some x.prioCurrent else none)))
    (ho : ∀ Q', Q' ≠ Q → (k.tasks t).taskQueue ≠ some Q' ∧ x.taskQueue ≠ some Q') :
    Realizes (k.setTask t x) ((k.setQueue Q { k.queues Q with tasks := b }).setTask t x) := by
  refine ⟨Function.update k.queues Q { k.queues Q with tasks := b }, rfl, fun Q' => ?_, fun Q' => ?_⟩
  · by_cases hQ : Q' = Q
    · subst hQ
      convert hb using 1
      · simp [Kernel.setQueue]
      · funext u
        by_cases hu : u = t
        · subst hu
          simp [Kernel.key]
        · simp [Kernel.key, hu, Kernel.setQueue]
    · convert h Q' using 1
      · simp [Kernel.setQueue, hQ]
      · funext u
        by_cases hu : u = t
        · subst hu
          simp [Kernel.key, ho Q' hQ]
        · simp [Kernel.key, hu, Kernel.setQueue]
  · by_cases hQ : Q' = Q
    · subst hQ
      simp
    · simp [hQ]

end Basic

section Operations
variable {k k' : Kernel} {Q : QueueId} {t : TaskId}

theorem Filed.enqueue (h : Filed k) (ht : (k.tasks t).taskQueue = none)
    (hk : osTaskqueueEnqueue Q t k = .ok k') :
    Realizes (k.setTask t { k.tasks t with taskQueue := some Q }) k' := by
  unfold osTaskqueueEnqueue at hk
  split at hk
  · cases hk
    apply h.setQueue
    · simpa using (h Q).push (by simp [Kernel.key, ht]) (k.tasks t).prioCurrent
    · intro Q' hQ
      simp [ht, Ne.symm hQ]
  · cases hk

/-- Tasks are put only into queues that are set up. -/
theorem osTaskqueueEnqueue_linked (hk : osTaskqueueEnqueue Q t k = .ok k') :
    (k.queues Q).linked = true := by
  unfold osTaskqueueEnqueue at hk
  split at hk
  · assumption
  · cases hk

theorem Filed.unlink (h : Filed k) (hk : osTaskqueueUnlink t k = .ok k') :
    (∃ Q, (k.tasks t).taskQueue = some Q) ∧
      Realizes (k.setTask t { k.tasks t with taskQueue := none }) k' := by
  unfold osTaskqueueUnlink at hk
  split at hk
  · cases hk
  · rename_i Q hQ
    cases hk
    refine ⟨⟨Q, hQ⟩, h.setQueue ?_ fun Q' hne => ?_⟩
    · simpa using (h Q).remove (p := (k.tasks t).prioCurrent) (by simp [Kernel.key, hQ])
    · simp [hQ, Ne.symm hne]

theorem Filed.intdequeue (h : Filed k) {p : ℕ} (hk : osTaskqueueIntdequeue Q p k = .ok (t, k')) :
    ((k.queues Q).tasks.bucket p).head? = some t ∧ (k.tasks t).taskQueue = some Q ∧
      (k.tasks t).prioCurrent = p ∧
      Realizes (k.setTask t { k.tasks t with taskQueue := none }) k' := by
  unfold osTaskqueueIntdequeue at hk
  split at hk
  · cases hk
  · rename_i u l hb
    cases hk
    obtain ⟨hQ, hp⟩ := h.mem.mp (show t ∈ (k.queues Q).tasks.bucket p by simp [hb])
    refine ⟨by simp [hb], hQ, hp, h.setQueue ?_ fun Q' hne => ?_⟩
    · simpa using (h Q).pop hb
    · simp [hQ, Ne.symm hne]

theorem Filed.dequeue (h : Filed k) {r : Option TaskId}
    (hk : osTaskqueueDequeue Q k = .ok (r, k')) :
    (r = none ∧ k' = k ∧ ∀ t, (k.tasks t).taskQueue ≠ some Q) ∨
      ∃ t, r = some t ∧ k.IsFirst Q t ∧
        Realizes (k.setTask t { k.tasks t with taskQueue := none }) k' := by
  unfold osTaskqueueDequeue at hk
  split at hk
  · rename_i ht
    cases hk
    refine Or.inl ⟨rfl, rfl, fun t htQ => ?_⟩
    have := ((h Q).top_eq_zero.mp ht) t
    simp [Kernel.key, htQ] at this
  · rename_i m hm
    obtain ⟨⟨t, k₁⟩, hd, he⟩ := Outcome.bind_ok hk
    cases he
    obtain ⟨hh, hQ, rfl, hr⟩ := h.intdequeue hd
    exact Or.inr ⟨t, rfl, ⟨hm, hh⟩, hr⟩

theorem Filed.dequeuePrio (h : Filed k) {r : Option TaskId} {p : ℕ}
    (hk : osTaskqueueDequeuePrio Q p k = .ok (r, k')) :
    (r = none ∧ k' = k ∧
        ∀ t, (k.tasks t).taskQueue = some Q → (k.tasks t).prioCurrent < p) ∨
      ∃ t, r = some t ∧ k.IsFirst Q t ∧ p ≤ (k.tasks t).prioCurrent ∧
        Realizes (k.setTask t { k.tasks t with taskQueue := none }) k' := by
  unfold osTaskqueueDequeuePrio at hk
  split at hk
  · rename_i ht
    cases hk
    refine Or.inl ⟨rfl, rfl, fun t htQ => ?_⟩
    have := ((h Q).top_eq_zero.mp ht) t
    simp [Kernel.key, htQ] at this
  · rename_i m hm
    split at hk
    · rename_i hlt
      cases hk
      refine Or.inl ⟨rfl, rfl, fun t htQ => ?_⟩
      have := (h Q).le_of_key hm (show k.key Q t = some (k.tasks t).prioCurrent by
        simp [Kernel.key, htQ])
      omega
    · rename_i hge
      obtain ⟨⟨t, k₁⟩, hd, he⟩ := Outcome.bind_ok hk
      cases he
      obtain ⟨hh, hQ, rfl, hr⟩ := h.intdequeue hd
      exact Or.inr ⟨t, rfl, ⟨hm, hh⟩, by omega, hr⟩

theorem Filed.reprio (h : Filed k) {p : ℕ} (hk : osTaskqueueReprio t p k = .ok k') :
    Realizes (k.setTask t { k.tasks t with prioCurrent := p }) k' := by
  unfold osTaskqueueReprio at hk
  split at hk
  · split at hk
    · rename_i hQ
      cases hk
      apply Realizes.refl
      exact h.setTask rfl fun hn => absurd hQ hn
    · rename_i Q hQ
      obtain ⟨k₁, hu, he⟩ := Outcome.bind_ok hk
      obtain ⟨-, q, rfl, hf, hl⟩ := h.unlink hu
      have hf' := hf.setTask (t := t)
        (x := { (k.setTask t { k.tasks t with taskQueue := none }).tasks t with prioCurrent := p })
        rfl (by simp)
      obtain ⟨q', rfl, hf₂, hl₂⟩ := hf'.enqueue (by simp) he
      refine ⟨q', ?_, hf₂, fun Q' => (hl₂ Q').trans (hl Q')⟩
      simp [Kernel.setTask, hQ]
  · rename_i hp
    cases hk
    have : ({ k.tasks t with prioCurrent := p } : Task) = k.tasks t := by
      simp only [ne_eq, not_not] at hp
      simp [← hp]
    rw [this, Kernel.setTask_self]
    exact Realizes.refl h

theorem Filed.makeready (h : Filed k) (ht : (k.tasks t).taskQueue = none)
    (hk : osTaskMakeready t k = .ok k') :
    Realizes (k.setTask t { k.tasks t with state := .ready, taskQueue := some .ready }) k' := by
  have hf := h.setTask (t := t) (x := { k.tasks t with state := .ready }) rfl fun _ => rfl
  obtain ⟨q, rfl, hf', hl⟩ := hf.enqueue (by simpa using ht) hk
  exact ⟨q, by simp [Kernel.setTask], hf', hl⟩

theorem Filed.wakeup (h : Filed k) (ht : (k.tasks t).taskQueue = none) {c : RetCode}
    (hk : wakeup t c k = .ok k') :
    Realizes (k.setTask t
      { k.tasks t with retValue := c.toInt, state := .ready, taskQueue := some .ready }) k' := by
  have hf := h.setTask (t := t) (x := { k.tasks t with retValue := c.toInt }) rfl fun _ => rfl
  obtain ⟨q, rfl, hf', hl⟩ := hf.makeready (by simpa using ht) hk
  exact ⟨q, by simp [Kernel.setTask], hf', hl⟩

end Operations

end RadOs
