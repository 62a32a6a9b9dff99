import RadOs.Kernel.QueueSteps
import RadOs.Kernel.Play

/-! # The kernel on linked lists

The memory of the task queues: lists linked through the tasks, a bit mask for
each queue and a back pointer in each task. Every run of the kernel can be made
on it, with the same results, whatever the memory of queues and tasks holds
before they are created.
-/

namespace RadOs
open LinkedRing Bucketed Runs

/-- What happens to the task queues: a call of one of their functions with its result, a new task, a
new priority of a task in no queue, a queue whose memory is cleared, or nothing. -/
inductive QueueEvent where
  | call (op : QueueOp QueueId TaskId) (r : Option TaskId)
  | create (t : TaskId) (p : ℕ)
  | setPrio (t : TaskId) (p : ℕ)
  | destroy (Q : QueueId)
  | other

abbrev QueueHeap := TaskHeap QueueId TaskId

namespace QueueEvent
variable [Port]

/-- Links that differ only at the nodes `P`. -/
def SameLinks (P : QueueNode QueueId TaskId → Prop) (l l' : Links (QueueNode QueueId TaskId)) :
    Prop :=
  ∀ n, ¬ P n → l'.next n = l.next n ∧ l'.prev n = l.prev n

def onKernel : QueueEvent → Kernel → Kernel → Prop
  | call op r, k, k' => op.Proper k ∧ op.onKernel k = .ok (r, k')
  | create t p, k, k' =>
    p < Port.priocnt ∧ (k.tasks t).taskQueue = none ∧ k' = k.setTask t (osTaskInit p)
  | setPrio t p, k, k' => p < Port.priocnt ∧ (k.tasks t).taskQueue = none ∧
    k' = k.setTask t { k.tasks t with prioCurrent := p }
  | destroy Q, k, k' => (∀ t, (k.tasks t).taskQueue ≠ some Q) ∧ k' = k.setQueue Q .zero
  | other, k, k' => k'.queues = k.queues ∧ ∀ t,
    (k'.tasks t).taskQueue = (k.tasks t).taskQueue ∧
    (k'.tasks t).prioCurrent = (k.tasks t).prioCurrent ∧
    (k'.tasks t).prioBase = (k.tasks t).prioBase

/-- The links of a new task and of a cleared queue may be anything. -/
def onHeap : QueueEvent → QueueHeap → QueueHeap → Prop
  | call op r, h, h' => op.exec h = .ok (r, h')
  | create t p, h, h' => SameLinks (· = .task t) h.links h'.links ∧ h'.mask = h.mask ∧
    h'.prioCurrent = Function.update h.prioCurrent t p ∧
    h'.taskQueue = Function.update h.taskQueue t none
  | setPrio t p, h, h' => h' = h.setPrio t p
  | destroy Q, h, h' => SameLinks (fun n => ∃ p, n = .bucket Q p) h.links h'.links ∧
    h'.mask = Function.update h.mask Q 0 ∧ h'.prioCurrent = h.prioCurrent ∧
    h'.taskQueue = h.taskQueue
  | other, h, h' => h' = h

end QueueEvent

/-! ## The masks of other queues -/

section Masks
variable {κ α : Type} [DecidableEq κ] [DecidableEq α] {h h' : TaskHeap κ α} {Q Q' : κ} {t : α} {p : ℕ}

theorem TaskHeap.osTaskqueueEnqueue_mask (hQ : Q' ≠ Q) :
    (h.osTaskqueueEnqueue Q t).mask Q' = h.mask Q' := Function.update_of_ne hQ _ _

theorem TaskHeap.osTaskqueueUnlink_mask (hx : h.osTaskqueueUnlink t = .ok h')
    (ht : h.taskQueue t = some Q) (hQ : Q' ≠ Q) : h'.mask Q' = h.mask Q' := by
  simp only [TaskHeap.osTaskqueueUnlink, ht] at hx
  cases hx
  exact TaskHeap.clearIfEmpty_mask_of_ne hQ

theorem TaskHeap.osTaskqueueReprio_mask (hx : h.osTaskqueueReprio t p = .ok h')
    (hQ : h.taskQueue t ≠ some Q') : h'.mask Q' = h.mask Q' := by
  unfold TaskHeap.osTaskqueueReprio at hx
  split at hx
  · split at hx
    · cases hx
      rfl
    · rename_i Q ht
      obtain ⟨h₁, hu, hx⟩ := Outcome.bind_ok hx
      cases hx
      have hne : Q' ≠ Q := by
        rintro rfl
        exact hQ ht
      have hu' : h₁.mask Q' = h.mask Q' := TaskHeap.osTaskqueueUnlink_mask hu ht hne
      exact (TaskHeap.osTaskqueueEnqueue_mask hne).trans hu'
  · cases hx
    rfl

theorem TaskHeap.osTaskqueueDequeue_mask {r : Option α} (hx : h.osTaskqueueDequeue Q = .ok (r, h'))
    (hQ : Q' ≠ Q) : h'.mask Q' = h.mask Q' := by
  unfold TaskHeap.osTaskqueueDequeue at hx
  split at hx
  · cases hx
    rfl
  · obtain ⟨⟨t, h₁⟩, hd, hx⟩ := Outcome.bind_ok hx
    cases hx
    unfold TaskHeap.osTaskqueueIntdequeue at hd
    split at hd
    · cases hd
      exact TaskHeap.clearIfEmpty_mask_of_ne hQ
    · cases hd

end Masks

section Mirror
variable [Port] {h h' : QueueHeap} {k k' : Kernel} {s : PrioQueues QueueId TaskId} {Q : QueueId}
  {t : TaskId} {p : ℕ}

/-- What the memory has to do with the kernel. -/
structure Implements (h : QueueHeap) (k : Kernel) : Prop where
  prio : ∀ t, h.prioCurrent t = (k.tasks t).prioCurrent
  taskQueue : ∀ t, h.taskQueue t = (k.tasks t).taskQueue
  lists : ∀ Q, (k.queues Q).linked = true → ∀ p < Port.priocnt,
    Ring h.links (.bucket Q p) (((k.queues Q).tasks.bucket p).map .task)
  mask : ∀ Q p, (h.mask Q).getLsbD p = true ↔ p ∈ (k.queues Q).tasks.mask

/-- The queues of the kernel as ordered lists, and the memory that holds them. -/
structure Mirrors (h : QueueHeap) (k : Kernel) (s : PrioQueues QueueId TaskId) : Prop where
  holds : h.Holds s
  queue : ∀ Q, s.queue Q = if (k.queues Q).linked then some (k.order Q) else none
  prio : s.prio = k.prio
  stale : ∀ t, s.stale t = false
  linked : ∀ t Q, (k.tasks t).taskQueue = some Q → (k.queues Q).linked = true
  cleared : ∀ Q, (k.queues Q).linked = false → h.mask Q = 0

namespace Mirrors
variable (M : Mirrors h k s)
include M

theorem queue_some (hl : (k.queues Q).linked = true) : s.queue Q = some (k.order Q) := by
  rw [M.queue, if_pos hl]

theorem queue_eq_some {l : List TaskId} (hl : s.queue Q = some l) :
    (k.queues Q).linked = true ∧ l = k.order Q := by
  rw [M.queue] at hl
  split at hl
  · rename_i hq
    exact ⟨hq, (Option.some.inj hl).symm⟩
  · cases hl

theorem free_iff (hf : Filed k) : s.Free t ↔ (k.tasks t).taskQueue = none := by
  constructor
  · intro hfree
    by_contra hne
    obtain ⟨Q, hQ⟩ := Option.ne_none_iff_exists'.mp hne
    exact hfree Q _ (M.queue_some (M.linked t Q hQ)) (hf.mem_order.mpr hQ)
  · intro hn Q l hl ht
    obtain ⟨-, rfl⟩ := M.queue_eq_some hl
    rw [hf.mem_order, hn] at ht
    cases ht

theorem taskQueue (hf : Filed k) (t : TaskId) : h.taskQueue t = (k.tasks t).taskQueue := by
  cases hQ : (k.tasks t).taskQueue with
  | none => exact M.holds.outside t (M.stale t) ((M.free_iff hf).mpr hQ)
  | some Q =>
    exact M.holds.inside Q _ t (M.queue_some (M.linked t Q hQ)) (hf.mem_order.mpr hQ)

/-- A queue that is not set up is empty. -/
theorem order_nil (hf : Filed k) (hl : (k.queues Q).linked = false) : k.order Q = [] := by
  rw [List.eq_nil_iff_forall_not_mem]
  intro t ht
  rw [M.linked t Q (hf.mem_order.mp ht)] at hl
  cases hl

theorem implements (hf : Filed k) : Implements h k where
  prio t := congrFun (M.holds.prio.trans M.prio) t
  taskQueue := M.taskQueue hf
  lists Q hl p hp := by
    have hr := M.holds.ring (M.queue_some hl) hp
    rwa [ofPrio, M.prio, ← (hf.represents Q).bucket p] at hr
  mask Q p := by
    rw [← mem_bits]
    cases hl : (k.queues Q).linked with
    | true =>
      rw [M.holds.mask Q _ (M.queue_some hl), ofPrio, M.prio, ← (hf.represents Q).bucket p,
        (hf.represents Q).mask p]
    | false =>
      rw [M.cleared Q hl, (hf.represents Q).mask p, (hf.represents Q).bucket p, M.order_nil hf hl]
      simp [mem_bits]

/-! ### The functions -/

theorem init (hf : Filed k) (hQ : ∀ t, (k.tasks t).taskQueue ≠ some Q) :
    Mirrors (h.osTaskqueueInit Q) (k.setQueue Q osTaskqueueInit) (s.init Q) := by
  refine ⟨M.holds.init Q, fun Q' => ?_, M.prio, fun t => ?_, fun t Q' ht => ?_, fun Q' hl => ?_⟩
  · by_cases he : Q' = Q
    · subst he
      have hnil : Represents .empty k.prio [] := .empty
      simp [Kernel.setQueue, Kernel.order, osTaskqueueInit, hnil.toList_eq]
    · have hq : (k.setQueue Q osTaskqueueInit).queues Q' = k.queues Q' := by
        simp [Kernel.setQueue, he]
      simp only [PrioQueues.init_queue, Function.update_of_ne he, M.queue, Kernel.order, hq]
  · have hnil : (s.queue Q).getD [] = [] := by
      cases hl : s.queue Q with
      | none => rfl
      | some l =>
        obtain ⟨-, rfl⟩ := M.queue_eq_some hl
        rw [Option.getD_some, List.eq_nil_iff_forall_not_mem]
        exact fun u hu => hQ u (hf.mem_order.mp hu)
    simp [PrioQueues.init, M.stale, hnil]
  · have hne : Q' ≠ Q := by
      rintro rfl
      exact hQ t ht
    simpa [Kernel.setQueue, hne] using M.linked t Q' ht
  · have hne : Q' ≠ Q := by
      rintro rfl
      simp [Kernel.setQueue, osTaskqueueInit] at hl
    have hm : (h.osTaskqueueInit Q).mask Q' = h.mask Q' := Function.update_of_ne hne _ _
    rw [hm]
    exact M.cleared Q' (by simpa [Kernel.setQueue, hne] using hl)

/-- What a function makes of one queue of the kernel, it makes of the ordered lists. -/
theorem change {s' : PrioQueues QueueId TaskId} {x : Task} (H : h'.Holds s')
    (hre : Realizes (k.setTask t x) k')
    (hl : ∀ Q', x.taskQueue = some Q' → (k.queues Q').linked = true)
    (hq : ∀ Q', (k.queues Q').linked = true → s'.queue Q' = some (k'.order Q'))
    (hn : ∀ Q', s.queue Q' = none → s'.queue Q' = none)
    (hp : s'.prio = k'.prio) (hs : ∀ t, s'.stale t = false)
    (hm : ∀ Q', (k.queues Q').linked = false → h'.mask Q' = h.mask Q') : Mirrors h' k' s' := by
  obtain ⟨q, rfl, -, hlink⟩ := hre
  refine ⟨H, fun Q' => ?_, hp, hs, fun u Q' hu => ?_, fun Q' hl' => ?_⟩
  · rw [hlink Q']
    cases hb : (k.queues Q').linked with
    | true => simpa [hb] using hq Q' hb
    | false =>
      rw [Kernel.setTask_queues, hb]
      exact hn Q' (by rw [M.queue, hb]; rfl)
  · rw [hlink Q']
    by_cases hut : u = t
    · subst hut
      exact hl Q' (by simpa using hu)
    · exact M.linked u Q' (by simpa [hut] using hu)
  · rw [hlink Q'] at hl'
    rw [hm Q' hl']
    exact M.cleared Q' hl'

theorem enqueue (hP : Port.priocnt ≤ 8) (hf : Filed k) (ht : (k.tasks t).taskQueue = none)
    (hx : osTaskqueueEnqueue Q t k = .ok k') :
    Mirrors (h.osTaskqueueEnqueue Q t) k' (s.put Q t) := by
  have hl := osTaskqueueEnqueue_linked hx
  obtain ⟨ho, hoth⟩ := hf.enqueue_order hx
  refine M.change (M.holds.enqueue hP (by rw [M.queue_some hl]; rfl) ((M.free_iff hf).mpr ht))
    (hf.enqueue ht hx) ?_ (fun Q' hl' => ?_) (fun Q' hn => ?_) ?_ (fun u => ?_) fun Q' hl' => ?_
  · rintro Q' ⟨⟩
    exact hl
  · by_cases he : Q' = Q
    · subst he
      simp only [PrioQueues.put_queue, Function.update_self, M.queue_some hl, Option.map_some, ho,
        M.prio]
    · simp only [PrioQueues.put_queue, Function.update_of_ne he, M.queue_some hl', Kernel.order,
        hoth Q' he]
  · have hne : Q' ≠ Q := by
      rintro rfl
      rw [M.queue_some hl] at hn
      cases hn
    simpa [hne] using hn
  · exact M.prio.trans (funext fun u => ((osTaskqueueEnqueue_frame hx).prio u).symm)
  · by_cases hu : u = t
    · subst hu
      simp [PrioQueues.put]
    · simp [PrioQueues.put, hu, M.stale]
  · refine TaskHeap.osTaskqueueEnqueue_mask ?_
    rintro rfl
    rw [hl] at hl'
    cases hl'

omit [Port] M in
theorem ne_of_unlinked {Q' : QueueId} (hl : (k.queues Q).linked = true)
    (hl' : (k.queues Q').linked = false) : Q' ≠ Q := by
  rintro rfl
  rw [hl] at hl'
  cases hl'

/-- One task leaves the queue `Q`. -/
theorem leave {s' : PrioQueues QueueId TaskId} {l : List TaskId} (H : h'.Holds s')
    (hQ : (k.tasks t).taskQueue = some Q)
    (hre : Realizes (k.setTask t { k.tasks t with taskQueue := none }) k')
    (ho : k'.order Q = l) (hoth : ∀ Q', Q' ≠ Q → k'.queues Q' = k.queues Q')
    (hs' : s' = { s with queue := Function.update s.queue Q (some l) })
    (hm : ∀ Q', Q' ≠ Q → h'.mask Q' = h.mask Q') : Mirrors h' k' s' := by
  have hl := M.linked t Q hQ
  refine M.change H hre (fun Q' hx => by cases hx) (fun Q' hl' => ?_) (fun Q' hn => ?_) ?_
    (fun u => ?_) fun Q' hl' => hm Q' (ne_of_unlinked hl hl')
  · rw [hs']
    by_cases he : Q' = Q
    · subst he
      simp [ho]
    · simp only [Function.update_of_ne he, M.queue_some hl', Kernel.order, hoth Q' he]
  · have hne : Q' ≠ Q := by
      rintro rfl
      rw [M.queue_some hl] at hn
      cases hn
    rw [hs']
    simpa [hne] using hn
  · rw [hs']
    obtain ⟨q, rfl, -, -⟩ := hre
    refine M.prio.trans (funext fun u => ?_)
    by_cases hu : u = t <;> simp [Kernel.prio, hu]
  · rw [hs']
    exact M.stale u

theorem unlink (hP : Port.priocnt ≤ 8) (hf : Filed k) (hx : osTaskqueueUnlink t k = .ok k') :
    ∃ h', h.osTaskqueueUnlink t = .ok h' ∧ Mirrors h' k' (s.take t) := by
  obtain ⟨⟨Q, hQ⟩, hre⟩ := hf.unlink hx
  have hl := M.linked t Q hQ
  have hfree : ¬ s.Free t := by
    rw [M.free_iff hf, hQ]
    simp
  obtain ⟨h', hun, H⟩ := M.holds.unlink hP hfree
  obtain ⟨ho, hoth⟩ := hf.unlink_order hx hQ
  refine ⟨h', hun, M.leave H hQ hre ho hoth ?_ fun Q' hne => ?_⟩
  · have hq : (s.take t).queue = Function.update s.queue Q (some ((k.order Q).erase t)) := by
      funext Q'
      by_cases he : Q' = Q
      · subst he
        simp [PrioQueues.take, M.queue_some hl]
      · rw [Function.update_of_ne he]
        cases hq : s.queue Q' with
        | none => simp [PrioQueues.take, hq]
        | some l =>
          obtain ⟨-, rfl⟩ := M.queue_eq_some hq
          have hn : t ∉ k.order Q' := by
            rw [hf.mem_order, hQ]
            simpa using Ne.symm he
          simp [PrioQueues.take, hq, List.erase_of_not_mem hn]
    exact congrArg (fun q => { s with queue := q }) hq
  · exact TaskHeap.osTaskqueueUnlink_mask hun ((M.taskQueue hf t).trans hQ) hne

theorem fls_nil (ho : k.order Q = []) : archBitmaskFls (h.mask Q) = 0 := by
  cases hl : (k.queues Q).linked with
  | false =>
    rw [M.cleared Q hl]
    rfl
  | true => exact M.holds.fls_nil (ho ▸ M.queue_some hl)

theorem fls_cons {l : List TaskId} (hf : Filed k) (ho : k.order Q = t :: l) :
    archBitmaskFls (h.mask Q) = k.prio t + 1 := by
  rw [← M.prio]
  exact M.holds.fls_cons (ho ▸ M.queue_some (M.linked t Q (hf.mem_order.mp (by simp [ho]))))

theorem dequeue {r : Option TaskId} (hP : Port.priocnt ≤ 8) (hf : Filed k)
    (hx : osTaskqueueDequeue Q k = .ok (r, k')) :
    ∃ h' s', h.osTaskqueueDequeue Q = .ok (r, h') ∧ Mirrors h' k' s' := by
  obtain ⟨hr, ho, hoth⟩ := hf.dequeue_order hx
  obtain ⟨rfl, rfl, -⟩ | ⟨t, rfl, hfirst, hre⟩ := hf.dequeue hx
  · have hfls := M.fls_nil (List.head?_eq_none_iff.mp hr.symm)
    exact ⟨h, s, by simp only [TaskHeap.osTaskqueueDequeue, hfls], M⟩
  · have hQ := (hf.first hfirst).1
    have hl := M.linked t Q hQ
    obtain ⟨h', hd, H⟩ := M.holds.dequeue hP (by rw [M.queue_some hl]; rfl)
    refine ⟨h', s.pop Q, ?_, M.leave H hQ hre ho hoth ?_ fun Q' hne =>
      TaskHeap.osTaskqueueDequeue_mask hd hne⟩
    · rw [hd, PrioQueues.first, M.queue_some hl, hr]
      rfl
    · rw [PrioQueues.pop, M.queue_some hl]
      rfl

theorem dequeuePrio {r : Option TaskId} (hP : Port.priocnt ≤ 8) (hf : Filed k)
    (hx : osTaskqueueDequeuePrio Q p k = .ok (r, k')) :
    ∃ h' s', h.osTaskqueueDequeuePrio Q p = .ok (r, h') ∧ Mirrors h' k' s' := by
  obtain ⟨rfl, rfl, hlow⟩ | ⟨t, rfl, hfirst, hp, -⟩ := hf.dequeuePrio hx
  · refine ⟨h, s, ?_, M⟩
    cases ho : k'.order Q with
    | nil => simp only [TaskHeap.osTaskqueueDequeuePrio, M.fls_nil ho]
    | cons t l =>
      have hlt : k'.prio t < p := hlow t (hf.mem_order.mp (by simp [ho]))
      simp only [TaskHeap.osTaskqueueDequeuePrio, M.fls_cons hf ho, if_pos hlt]
  · obtain ⟨hr, -⟩ | ⟨-, hd⟩ := osTaskqueueDequeuePrio_cases hx
    · cases hr
    · obtain ⟨h', s', hd', M'⟩ := M.dequeue hP hf hd
      refine ⟨h', s', ?_, M'⟩
      obtain ⟨hhead, -⟩ := hf.dequeue_order hd
      obtain ⟨l, ho⟩ := List.head?_eq_some_iff.mp hhead.symm
      have hfls := M.fls_cons hf ho
      have hge : ¬ k.prio t < p := not_lt.mpr hp
      simp only [TaskHeap.osTaskqueueDequeue, hfls] at hd'
      simp only [TaskHeap.osTaskqueueDequeuePrio, hfls, if_neg hge, hd']

theorem peek {r : Option TaskId} (hf : Filed k) (hx : osTaskqueuePeek Q k = .ok r) :
    h.osTaskqueuePeek Q = .ok r := by
  have hr : r = (k.order Q).head? := by
    cases ho : k.order Q with
    | nil =>
      have htop : (k.queues Q).tasks.top = 0 := (ho ▸ hf.represents Q).top_nil
      simp only [osTaskqueuePeek, htop, Except.ok.injEq] at hx
      exact hx.symm
    | cons t l =>
      have hrep : Represents (k.queues Q).tasks k.prio (t :: l) := ho ▸ hf.represents Q
      simp only [osTaskqueuePeek, hrep.top_cons, hrep.bucket_cons, Except.ok.injEq] at hx
      exact hx.symm
  cases hl : (k.queues Q).linked with
  | false =>
    rw [M.order_nil hf hl] at hr
    simp only [TaskHeap.osTaskqueuePeek, M.fls_nil (M.order_nil hf hl), hr, List.head?_nil]
  | true =>
    have hq := M.queue_some hl
    rw [M.holds.peek (by rw [hq]; rfl), PrioQueues.first, hq, hr]
    rfl

theorem reprio (hP : Port.priocnt ≤ 8) (hf : Filed k) (hp : p < Port.priocnt)
    (hx : osTaskqueueReprio t p k = .ok k') :
    ∃ h', h.osTaskqueueReprio t p = .ok h' ∧ Mirrors h' k' (s.reprio t p) := by
  obtain ⟨h', hre, H⟩ := M.holds.reprio hP hp (M.stale t)
  refine ⟨h', hre, ?_⟩
  have hprio : (s.reprio t p).prio = Function.update k.prio t p := by
    by_cases he : s.prio t = p
    · rw [PrioQueues.reprio, if_pos he, ← he, M.prio, Function.update_eq_self]
    · rw [PrioQueues.reprio, if_neg he, M.prio]
  refine M.change H (hf.reprio hx) (fun Q' hQ => M.linked t Q' hQ) (fun Q' hl => ?_)
    (fun Q' hn => ?_) ?_ (fun u => ?_) fun Q' hl => ?_
  · by_cases he : s.prio t = p
    · have hk : k' = k := by
        rw [osTaskqueueReprio, if_neg (by simpa [M.prio, Kernel.prio] using he)] at hx
        exact (Except.ok.inj hx).symm
      rw [PrioQueues.reprio, if_pos he, hk]
      exact M.queue_some hl
    · rw [hf.reprio_order hx (by rwa [M.prio] at he) Q', PrioQueues.reprio, if_neg he]
      simp only [M.queue_some hl, Option.map_some, hf.mem_order, M.prio]
  · rw [PrioQueues.reprio]
    split <;> simp [hn]
  · rw [hprio]
    obtain ⟨q, rfl, -, -⟩ := hf.reprio hx
    funext u
    by_cases hu : u = t <;> simp [Kernel.prio, hu]
  · rw [PrioQueues.reprio]
    split <;> exact M.stale u
  · refine TaskHeap.osTaskqueueReprio_mask hre ?_
    rw [M.taskQueue hf]
    intro hQ
    rw [M.linked t Q' hQ] at hl
    cases hl

/-! ### New tasks and old queues -/

omit M in
/-- The memory at the nodes `P`, which are in no list, may hold anything. -/
theorem relink {P : QueueNode QueueId TaskId → Prop} {l : Links (QueueNode QueueId TaskId)}
    (H : h.Holds s) (hl : QueueEvent.SameLinks P h.links l)
    (hP : ∀ n xs, familyOf s n = some xs → ∀ u ∈ n :: xs, ¬ P u) :
    ({ h with links := l } : QueueHeap).Holds s :=
  { H with lists := H.lists.frame fun n xs hn u hu => hl u (hP n xs hn u hu) }

theorem setPrio (hf : Filed k) (hp : p < Port.priocnt) (ht : (k.tasks t).taskQueue = none)
    {x : Task} (hx : x.prioCurrent = p) (hxq : x.taskQueue = none) :
    Mirrors (h.setPrio t p) (k.setTask t x) { s with prio := Function.update s.prio t p } := by
  have hfree : s.Free t := (M.free_iff hf).mpr ht
  have hord : PrioQueues.Ordered { s with prio := Function.update s.prio t p } :=
    M.holds.ordered.relabel hfree rfl (fun u hu => Function.update_of_ne hu _ _) (fun _ _ => rfl)
      le_rfl
  refine ⟨M.holds.setPrio hfree hp hord rfl rfl rfl, M.queue, ?_, M.stale, fun u Q hu => ?_,
    M.cleared⟩
  · rw [M.prio]
    funext u
    by_cases hu : u = t <;> simp [Kernel.prio, hu, hx]
  · by_cases hut : u = t
    · subst hut
      simp [hxq] at hu
    · exact M.linked u Q (by simpa [hut] using hu)

theorem create (hf : Filed k) (hp : p < Port.priocnt) (ht : (k.tasks t).taskQueue = none)
    (he : (QueueEvent.create t p).onHeap h h') :
    Mirrors h' (k.setTask t (osTaskInit p)) { s with prio := Function.update s.prio t p } := by
  obtain ⟨hl, hm, hpr, hq⟩ := he
  have M' := M.setPrio hf hp ht (x := osTaskInit p) rfl rfl
  have hfree : PrioQueues.Free { s with prio := Function.update s.prio t p } t :=
    (M.free_iff hf).mpr ht
  have hh : h' = { h.setPrio t p with links := h'.links } := by
    have hsame : Function.update h.taskQueue t none = h.taskQueue := by
      rw [← ht, ← M.taskQueue hf, Function.update_eq_self]
    cases h'
    cases hm
    cases hpr
    cases hq
    exact congrArg (fun q => TaskHeap.mk _ _ _ q) hsame
  rw [hh]
  refine { M' with holds := relink M'.holds hl fun n xs hn u hu => ?_ }
  rintro rfl
  exact loose_of_free hfree n xs hn hu

theorem destroy (hf : Filed k) (hQ : ∀ t, (k.tasks t).taskQueue ≠ some Q)
    (he : (QueueEvent.destroy Q).onHeap h h') :
    Mirrors h' (k.setQueue Q .zero) { s with queue := Function.update s.queue Q none } := by
  obtain ⟨hl, hm, hpr, hq⟩ := he
  have hold : ∀ {Q' l}, Function.update s.queue Q none Q' = some l →
      Q' ≠ Q ∧ s.queue Q' = some l := by
    intro Q' l hl'
    by_cases hne : Q' = Q
    · subst hne
      simp at hl'
    · exact ⟨hne, by simpa [hne] using hl'⟩
  have hfam : ∀ n xs, familyOf { s with queue := Function.update s.queue Q none } n = some xs →
      familyOf s n = some xs ∧ ∀ p, n ≠ .bucket Q p := by
    intro n xs hn
    obtain ⟨Q', q, l, rfl, hq', hl', rfl⟩ := family_eq_some.mp hn
    refine ⟨family_eq_some.mpr ⟨Q', q, l, rfl, hq', (hold hl').2, rfl⟩, ?_⟩
    rintro p ⟨⟩
    exact (hold hl').1 rfl
  have H : ({ h with mask := h'.mask } : QueueHeap).Holds
      { s with queue := Function.update s.queue Q none } := by
    refine ⟨?_, M.holds.bound, M.holds.prio, M.holds.lists.mono fun n xs hn => (hfam n xs hn).1,
      fun Q' l hl' p => ?_, fun Q' l u hl' => M.holds.inside Q' l u (hold hl').2,
      fun u hst hfree => ?_⟩
    · exact M.holds.ordered.shrink rfl rfl rfl fun Q' l hl' => Or.inr ⟨l, (hold hl').2, .refl l⟩
    · have hsame : h'.mask Q' = h.mask Q' := by
        rw [hm, Function.update_of_ne (hold hl').1]
      rw [hsame]
      exact M.holds.mask Q' l (hold hl').2 p
    · refine M.holds.outside u hst fun Q' l hl' hu => ?_
      by_cases hne : Q' = Q
      · subst hne
        obtain ⟨-, rfl⟩ := M.queue_eq_some hl'
        exact hQ u (hf.mem_order.mp hu)
      · exact hfree Q' l (by simpa [hne] using hl') hu
  have hh : h' = { ({ h with mask := h'.mask } : QueueHeap) with links := h'.links } := by
    cases h'
    cases hpr
    cases hq
    rfl
  rw [hh]
  refine ⟨relink H hl fun n xs hn u hu => ?_, fun Q' => ?_, M.prio, M.stale, fun u Q' hu => ?_,
    fun Q' hl' => ?_⟩
  · rintro ⟨p, rfl⟩
    obtain he | hu := List.mem_cons.mp hu
    · exact (hfam n xs hn).2 p he.symm
    · obtain ⟨_, _, _, -, -, -, rfl⟩ := family_eq_some.mp hn
      simp at hu
  · by_cases hne : Q' = Q
    · subst hne
      simp [Kernel.setQueue, TaskQueue.zero]
    · simp [Kernel.setQueue, Kernel.order, hne, M.queue]
  · have hne : Q' ≠ Q := by
      rintro rfl
      exact hQ u hu
    simpa [Kernel.setQueue, hne] using M.linked u Q' hu
  · rw [hm]
    by_cases hne : Q' = Q
    · rw [hne, Function.update_self]
    · rw [Function.update_of_ne hne]
      exact M.cleared Q' (by simpa [Kernel.setQueue, hne] using hl')

theorem other (he : QueueEvent.other.onKernel k k') : Mirrors h k' s := by
  obtain ⟨hq, ht⟩ := he
  refine ⟨M.holds, fun Q => ?_, ?_, M.stale, fun u Q hu => ?_, fun Q hl => ?_⟩
  · rw [M.queue, Kernel.order, Kernel.order, hq]
  · rw [M.prio]
    exact funext fun u => (ht u).2.1.symm
  · rw [hq]
    exact M.linked u Q ((ht u).1 ▸ hu)
  · exact M.cleared Q (hq ▸ hl)

/-! ### All of them -/

theorem call {op : QueueOp QueueId TaskId} {r : Option TaskId} (hP : Port.priocnt ≤ 8) (hf : Filed k)
    (hop : op.Proper k) (hx : op.onKernel k = .ok (r, k')) :
    ∃ h' s', op.exec h = .ok (r, h') ∧ Mirrors h' k' s' := by
  cases op with
  | init Q =>
    cases hx
    exact ⟨_, _, rfl, M.init hf hop⟩
  | enqueue Q t =>
    obtain ⟨k₁, hx, he⟩ := Outcome.bind_ok hx
    cases he
    exact ⟨_, _, rfl, M.enqueue hP hf hop hx⟩
  | unlink t =>
    obtain ⟨k₁, hx, he⟩ := Outcome.bind_ok hx
    cases he
    obtain ⟨h', hu, M'⟩ := M.unlink hP hf hx
    exact ⟨h', _, by rw [QueueOp.exec, hu]; rfl, M'⟩
  | reprio t p =>
    obtain ⟨k₁, hx, he⟩ := Outcome.bind_ok hx
    cases he
    obtain ⟨h', hu, M'⟩ := M.reprio hP hf hop hx
    exact ⟨h', _, by rw [QueueOp.exec, hu]; rfl, M'⟩
  | dequeue Q => exact M.dequeue hP hf hx
  | dequeuePrio Q p => exact M.dequeuePrio hP hf hx
  | peek Q =>
    obtain ⟨r', hpeek, he⟩ := Outcome.bind_ok hx
    cases he
    exact ⟨h, s, by rw [QueueOp.exec, M.peek hf hpeek]; rfl, M⟩

end Mirrors

/-! ## Runs -/

theorem queueStep_iff : QueueStep k k' ↔ ∃ e : QueueEvent, e.onKernel k k' := by
  constructor
  · rintro (⟨op, r, hop, h⟩ | ⟨hq, ht⟩ | ⟨t, p, hp, ht, h⟩ | ⟨t, p, hp, ht, h⟩ | ⟨Q, hQ, h⟩)
    · exact ⟨.call op r, hop, h⟩
    · exact ⟨.other, hq, ht⟩
    · exact ⟨.create t p, hp, ht, h⟩
    · exact ⟨.setPrio t p, hp, ht, h⟩
    · exact ⟨.destroy Q, hQ, h⟩
  · rintro ⟨e, he⟩
    cases e with
    | call op r => exact .call op r he.1 he.2
    | create t p => exact .create t p he.1 he.2.1 he.2.2
    | setPrio t p => exact .prio t p he.1 he.2.1 he.2.2
    | destroy Q => exact .destroy Q he.1 he.2
    | other => exact .frame he.1 he.2

theorem QueueTrace.events (h : QueueTrace k k') : ∃ es, Events QueueEvent.onKernel es k k' := by
  induction h with
  | refl => exact ⟨[], rfl⟩
  | tail _ hs ih =>
    obtain ⟨es, hes⟩ := ih
    obtain ⟨e, he⟩ := queueStep_iff.mp hs
    exact ⟨es ++ [e], hes.append ⟨_, he, rfl⟩⟩

/-- The memory has the queues of the kernel. -/
def OnHeap (k : Kernel) (h : QueueHeap) : Prop := Tended k ∧ ∃ s, Mirrors h k s

/-- Every event can be made in memory, with the same result. -/
theorem linked_follows (hP : Port.priocnt ≤ 8) :
    Follows QueueEvent.onKernel QueueEvent.onHeap OnHeap := by
  rintro e k k' h ⟨hk, s, M⟩ he
  have hk' : Tended k' := (queueStep_iff.mpr ⟨e, he⟩).tended hk
  suffices hs : (∃ h', e.onHeap h h') ∧ ∀ h', e.onHeap h h' → ∃ s', Mirrors h' k' s' from
    ⟨hs.1, fun h' hh => ⟨hk', hs.2 h' hh⟩⟩
  cases e with
  | call op r =>
    obtain ⟨h₁, s₁, hx, M₁⟩ := M.call hP hk.filed he.1 he.2
    refine ⟨⟨h₁, hx⟩, fun h' hh => ?_⟩
    cases hx.symm.trans hh
    exact ⟨s₁, M₁⟩
  | create t p =>
    obtain ⟨hp, ht, rfl⟩ := he
    refine ⟨⟨(h.setPrio t p).setTaskQueue t none, fun _ _ => ⟨rfl, rfl⟩, rfl, rfl, rfl⟩,
      fun h' hh => ?_⟩
    exact ⟨_, M.create hk.filed hp ht hh⟩
  | setPrio t p =>
    obtain ⟨hp, ht, rfl⟩ := he
    refine ⟨⟨_, rfl⟩, fun h' hh => ?_⟩
    cases hh
    exact ⟨_, M.setPrio hk.filed hp ht rfl ht⟩
  | destroy Q =>
    obtain ⟨hQ, rfl⟩ := he
    refine ⟨⟨h.setMask Q 0, fun _ _ => ⟨rfl, rfl⟩, rfl, rfl, rfl⟩, fun h' hh => ?_⟩
    exact ⟨_, M.destroy hk.filed hQ hh⟩
  | other =>
    refine ⟨⟨h, rfl⟩, fun h' hh => ?_⟩
    cases hh
    exact ⟨s, M.other he⟩

/-- Memory before `os_init`: zero, but for the links. -/
structure TaskHeap.Cold (h : QueueHeap) : Prop where
  mask : ∀ Q, h.mask Q = 0
  prioCurrent : ∀ t, h.prioCurrent t = 0
  taskQueue : ∀ t, h.taskQueue t = none

theorem tended_cold (h₀ : 0 < Port.priocnt) : Tended coldKernel := by
  refine ⟨fun Q => ?_, fun _ => h₀, fun _ => h₀⟩
  have hkey : coldKernel.key Q = fun _ => none := by
    funext t
    simp [Kernel.key, coldKernel, osTaskInit]
  rw [hkey]
  exact .empty fun _ => rfl

theorem linked_cold (h₀ : 0 < Port.priocnt) (hh : h.Cold) : OnHeap coldKernel h := by
  have hf : h.Fresh := ⟨hh.taskQueue, fun t => (hh.prioCurrent t).trans_lt h₀⟩
  refine ⟨tended_cold h₀, h.noQueues, hf.holds, fun _ => rfl, funext hh.prioCurrent, fun _ => rfl,
    fun t Q ht => ?_, fun Q _ => hh.mask Q⟩
  cases ht

/-- `os_init` on the queues. -/
def bootEvents : List QueueEvent := [.call (.init .ready) none, .create taskIdle 0, .other]

theorem boot_events (h₀ : 0 < Port.priocnt) :
    Events QueueEvent.onKernel bootEvents coldKernel (osInit coldKernel) := by
  refine ⟨_, ⟨fun t ht => ?_, rfl⟩, _, ⟨h₀, rfl, rfl⟩, osInit coldKernel, ⟨rfl, fun t => ?_⟩, rfl⟩
  · cases ht
  · by_cases ht : t = taskIdle <;> simp [osInit, Kernel.setTask, ht, osTaskInit]

/-- The kernel and the memory of its queues. Whatever a step of the kernel does with the queues, it
does in memory by the functions on linked lists, with the same results. -/
def linkedSystem : System (Kernel × QueueHeap) (Action × Option Ret) where
  start s := s.1 = osInit coldKernel ∧ ∃ h, h.Cold ∧ Events QueueEvent.onHeap bootEvents h s.2
  step s i s' := Sane s.1 i.1 ∧ kernelSystem.step s.1 i s'.1 ∧
    ∃ es, Events QueueEvent.onKernel es s.1 s'.1 ∧ Events QueueEvent.onHeap es s.2 s'.2

theorem linked_of_reachable (hP : Port.priocnt ≤ 8) (h₀ : 0 < Port.priocnt)
    {s : Kernel × QueueHeap} (h : linkedSystem.Reachable s) :
    (kernelSystem.restrict fun k i => Sane k i.1).Reachable s.1 ∧ OnHeap s.1 s.2 := by
  refine h.invariant (I := fun s =>
    (kernelSystem.restrict fun k i => Sane k i.1).Reachable s.1 ∧ OnHeap s.1 s.2) ?_ ?_
  · rintro ⟨k, h'⟩ ⟨hk, h, hc, he⟩
    cases hk
    exact ⟨.start rfl, ((linked_follows hP).events (linked_cold h₀ hc) (boot_events h₀)).2 h' he⟩
  · rintro s i s' ⟨hr, hl⟩ ⟨hs, hst, es, hek, heh⟩
    exact ⟨hr.step ⟨hs, hst⟩, ((linked_follows hP).events hl hek).2 _ heh⟩

/-- A step of the kernel on its memory. -/
theorem linked_step (hP : Port.priocnt ≤ 8) {i : Action × Option Ret}
    (hr : (kernelSystem.restrict fun k i => Sane k i.1).Reachable k) (hl : OnHeap k h)
    (hs : Sane k i.1) (hst : kernelSystem.step k i k') :
    ∃ h', linkedSystem.step (k, h) i (k', h') := by
  obtain ⟨n, hn⟩ := hst.2.exists_eq
  have htr := exec_queueTrace hl.1 (sound_of_reachable (fun _ _ h => h) hr) hs hn
  obtain ⟨es, hes⟩ := htr.events
  obtain ⟨⟨h', hh⟩, -⟩ := (linked_follows hP).events hl hes
  exact ⟨h', hs, hst, es, hes, hh⟩

/-- Every run of the kernel can be made on linked lists. Whatever the memory of tasks and queues
held before they were created, its lists, masks, back pointers and priorities are those of the
kernel, and it is ready for every step the kernel can take. -/
theorem queues_are_linked_lists (hP : Port.priocnt ≤ 8) (h₀ : 0 < Port.priocnt)
    (hr : (kernelSystem.restrict fun k i => Sane k i.1).Reachable k) :
    (∃ h, linkedSystem.Reachable (k, h)) ∧ ∀ h, linkedSystem.Reachable (k, h) →
      Implements h k ∧ ∀ i k', Sane k i.1 → kernelSystem.step k i k' →
        ∃ h', linkedSystem.step (k, h) i (k', h') := by
  refine ⟨?_, fun h hh => ?_⟩
  · refine hr.invariant (I := fun k => ∃ h, linkedSystem.Reachable (k, h)) ?_ ?_
    · rintro k rfl
      let h : QueueHeap := ⟨⟨id, id⟩, fun _ => 0, fun _ => 0, fun _ => none⟩
      have hc : h.Cold := ⟨fun _ => rfl, fun _ => rfl, fun _ => rfl⟩
      obtain ⟨⟨h', hh⟩, -⟩ := (linked_follows hP).events (linked_cold h₀ hc) (boot_events h₀)
      exact ⟨h', .start ⟨rfl, h, hc, hh⟩⟩
    · rintro k i k' ⟨h, hh⟩ ⟨hs, hst⟩
      obtain ⟨hrk, hl⟩ := linked_of_reachable hP h₀ hh
      obtain ⟨h', hstep⟩ := linked_step hP hrk hl hs hst
      exact ⟨h', hh.step hstep⟩
  · obtain ⟨hrk, hl⟩ := linked_of_reachable hP h₀ hh
    obtain ⟨s, M⟩ := hl.2
    exact ⟨M.implements hl.1.filed, fun i k' hs hst => linked_step hP hrk hl hs hst⟩

end Mirror

/-- The tasks 1 and 3 are in one bucket while the task 2 runs. -/
theorem queues_are_linked_lists_ready : ∃ k h, linkedSystem.Reachable (k, h) ∧
    Ring h.links (.bucket .ready 2) [.task 1, .task 3] ∧ (h.mask .ready).getLsbD 2 = true ∧
    h.taskQueue 3 = some .ready ∧ h.taskQueue 2 = none := by
  obtain ⟨k, hk, hx⟩ := Outcome.exists_of_holds
    (x := play saneCheck 10 [.call (.taskCreate 1 2), .call (.taskCreate 2 3),
      .call (.taskCreate 3 2), .call .start, .resume] (osInit coldKernel))
    (p := fun k => decide ((k.queues .ready).linked = true ∧
      (k.queues .ready).tasks.bucket 2 = [1, 3] ∧ 2 ∈ (k.queues .ready).tasks.mask ∧
      (k.tasks 3).taskQueue = some .ready ∧ (k.tasks 2).taskQueue = none)) (by decide +kernel)
  obtain ⟨hl, hb, hm, h3, h2⟩ := of_decide_eq_true hx
  have hr := reachable_of_play (P := fun k i => Sane k i.1) (fun _ _ h => h)
    (fun _ _ _ hs h => sane_of_check hs h) (.start rfl) hk
  obtain ⟨⟨h, hh⟩, hall⟩ := queues_are_linked_lists (by decide) (by decide) hr
  obtain ⟨hi, -⟩ := hall h hh
  refine ⟨k, h, hh, ?_, (hi.mask _ _).mpr hm, (hi.taskQueue 3).trans h3, (hi.taskQueue 2).trans h2⟩
  have hring := hi.lists .ready hl 2 (by decide)
  rwa [hb] at hring

end RadOs
