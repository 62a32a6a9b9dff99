import RadOs.Kernel.Basic
import RadOs.ListFamily
import RadOs.Lib.PriorityQueue

/-! # Task queues

The functions of `os_sched.c` on the heap they work on: the nodes of the lists of
tasks, the bit masks of the queues, and of every task its priority and the queue
it is in. They keep four views of one queue, the lists, the mask, the priorities
and the back pointers, and behave like one ordered list.
-/

namespace RadOs
open LinkedRing Bucketed

/-! ## Bit masks -/

/-- `arch_bitmask_set` -/
def archBitmaskSet (bitfield : BitVec 8) (bit : ℕ) : BitVec 8 := bitfield ||| (1#8 <<< bit)

/-- `arch_bitmask_clear` -/
def archBitmaskClear (bitfield : BitVec 8) (bit : ℕ) : BitVec 8 := bitfield &&& ~~~(1#8 <<< bit)

/-- `arch_bitmask_fls` of the Linux port. -/
def archBitmaskFls (bitfield : BitVec 8) : ℕ :=
  if bitfield = 0 then 0 else 32 - (bitfield.setWidth 32).clz.toNat

/-- The table in `arch_bitmask_fls` of the other ports. -/
def log2lkup : List ℕ :=
  0 :: (List.range 8).flatMap fun i => List.replicate (2 ^ i) (i + 1)

/-- The bits of a mask. -/
def bits (m : BitVec 8) : Finset ℕ := (Finset.range 8).filter fun p => m.getLsbD p = true

theorem mem_bits {m : BitVec 8} {p : ℕ} : p ∈ bits m ↔ m.getLsbD p = true := by
  rw [bits, Finset.mem_filter, Finset.mem_range, and_iff_right_iff_imp]
  exact BitVec.lt_of_getLsbD

theorem archBitmaskFls_eq : ∀ m, archBitmaskFls m = (bits m).sup Nat.succ := by
  decide +kernel

theorem archBitmaskFls_lookup : ∀ m, archBitmaskFls m = log2lkup.getD m.toNat 0 := by
  decide +kernel

theorem bits_set (m : BitVec 8) {p : ℕ} (hp : p < 8) :
    bits (archBitmaskSet m p) = insert p (bits m) := by
  ext q
  rw [Finset.mem_insert, mem_bits, mem_bits, archBitmaskSet, ← BitVec.twoPow_eq,
    BitVec.getLsbD_or, BitVec.getLsbD_twoPow]
  simp only [Bool.or_eq_true, Bool.and_eq_true, decide_eq_true_eq]
  constructor
  · rintro (hm | ⟨-, rfl⟩)
    · exact Or.inr hm
    · exact Or.inl rfl
  · rintro (rfl | hm)
    · exact Or.inr ⟨hp, rfl⟩
    · exact Or.inl hm

theorem bits_clear (m : BitVec 8) {p : ℕ} (hp : p < 8) :
    bits (archBitmaskClear m p) = (bits m).erase p := by
  ext q
  rw [Finset.mem_erase, mem_bits, mem_bits, archBitmaskClear, ← BitVec.twoPow_eq,
    BitVec.getLsbD_and, BitVec.getLsbD_not, BitVec.getLsbD_twoPow]
  simp only [Bool.and_eq_true, Bool.not_eq_true', Bool.and_eq_false_iff, decide_eq_true_eq,
    decide_eq_false_iff_not]
  constructor
  · rintro ⟨hm, -, hn⟩
    exact ⟨fun he => hn.elim (fun h => h hp) fun h => h he.symm, hm⟩
  · rintro ⟨hne, hm⟩
    exact ⟨hm, BitVec.lt_of_getLsbD hm, Or.inr (Ne.symm hne)⟩

/-! ## The functions -/

/-- The nodes that are linked: the heads of the buckets and one node in each task. -/
inductive QueueNode (κ α : Type) where
  | bucket (Q : κ) (p : ℕ)
  | task (t : α)
  deriving DecidableEq

structure TaskHeap (κ α : Type) where
  links : Links (QueueNode κ α)
  mask : κ → BitVec 8
  prioCurrent : α → ℕ
  taskQueue : α → Option κ

namespace TaskHeap
variable {κ α : Type} [DecidableEq κ] [DecidableEq α]

def setMask (Q : κ) (m : BitVec 8) (h : TaskHeap κ α) : TaskHeap κ α :=
  { h with mask := Function.update h.mask Q m }

def setPrio (t : α) (p : ℕ) (h : TaskHeap κ α) : TaskHeap κ α :=
  { h with prioCurrent := Function.update h.prioCurrent t p }

def setTaskQueue (t : α) (Q : Option κ) (h : TaskHeap κ α) : TaskHeap κ α :=
  { h with taskQueue := Function.update h.taskQueue t Q }

/-- Clear the bit of a bucket that has become empty. -/
def clearIfEmpty (Q : κ) (p : ℕ) (h : TaskHeap κ α) : TaskHeap κ α :=
  if listIsEmpty (.bucket Q p) h.links then h.setMask Q (archBitmaskClear (h.mask Q) p) else h

section Fields
variable {h : TaskHeap κ α} {Q Q' : κ} {t : α} {p : ℕ}

@[simp] theorem clearIfEmpty_prioCurrent :
    (h.clearIfEmpty Q p).prioCurrent = h.prioCurrent := by
  rw [clearIfEmpty]
  split <;> rfl

@[simp] theorem clearIfEmpty_taskQueue : (h.clearIfEmpty Q p).taskQueue = h.taskQueue := by
  rw [clearIfEmpty]
  split <;> rfl

@[simp] theorem clearIfEmpty_links : (h.clearIfEmpty Q p).links = h.links := by
  rw [clearIfEmpty]
  split <;> rfl

theorem clearIfEmpty_mask : (h.clearIfEmpty Q p).mask Q =
    if listIsEmpty (.bucket Q p) h.links then archBitmaskClear (h.mask Q) p else h.mask Q := by
  rw [clearIfEmpty]
  split
  · exact Function.update_self _ _ _
  · rfl

theorem clearIfEmpty_mask_of_ne (hQ : Q' ≠ Q) : (h.clearIfEmpty Q p).mask Q' = h.mask Q' := by
  rw [clearIfEmpty]
  split
  · exact Function.update_of_ne hQ _ _
  · rfl

end Fields

def osTaskqueueInit [Port] (Q : κ) (h : TaskHeap κ α) : TaskHeap κ α :=
  let l := (List.range Port.priocnt).foldl (fun l i => listInit (.bucket Q i) l) h.links
  { h with links := l }.setMask Q 0

def osTaskqueueEnqueue (Q : κ) (t : α) (h : TaskHeap κ α) : TaskHeap κ α :=
  let h := { h with links := listAppend (.bucket Q (h.prioCurrent t)) (.task t) h.links }
  let h := h.setTaskQueue t (some Q)
  h.setMask Q (archBitmaskSet (h.mask Q) (h.prioCurrent t))

def osTaskqueueUnlink (t : α) (h : TaskHeap κ α) : Outcome (TaskHeap κ α) :=
  let h := { h with links := listUnlink (.task t) h.links }
  match h.taskQueue t with
  | none => .error .wild
  | some Q => .ok ((h.clearIfEmpty Q (h.prioCurrent t)).setTaskQueue t none)

def osTaskqueueReprio (t : α) (newPrio : ℕ) (h : TaskHeap κ α) : Outcome (TaskHeap κ α) :=
  if h.prioCurrent t ≠ newPrio then
    match h.taskQueue t with
    | none => .ok (h.setPrio t newPrio)
    | some Q => do
      let h ← osTaskqueueUnlink t h
      return osTaskqueueEnqueue Q t (h.setPrio t newPrio)
  else .ok h

/-- On an empty bucket `os_container_of` is applied to null. -/
def osTaskqueueIntdequeue (Q : κ) (maxprio : ℕ) (h : TaskHeap κ α) :
    Outcome (α × TaskHeap κ α) :=
  match listDetachfirst (.bucket Q maxprio) h.links with
  | some (.task t, l) => .ok (t, ({ h with links := l }.clearIfEmpty Q maxprio).setTaskQueue t none)
  | _ => .error .wild

def osTaskqueueDequeue (Q : κ) (h : TaskHeap κ α) : Outcome (Option α × TaskHeap κ α) :=
  match archBitmaskFls (h.mask Q) with
  | 0 => .ok (none, h)
  | maxprio + 1 => do
    let (t, h) ← osTaskqueueIntdequeue Q maxprio h
    return (some t, h)

def osTaskqueueDequeuePrio (Q : κ) (prio : ℕ) (h : TaskHeap κ α) :
    Outcome (Option α × TaskHeap κ α) :=
  match archBitmaskFls (h.mask Q) with
  | 0 => .ok (none, h)
  | maxprio + 1 =>
    if maxprio < prio then .ok (none, h)
    else do
      let (t, h) ← osTaskqueueIntdequeue Q maxprio h
      return (some t, h)

def osTaskqueuePeek (Q : κ) (h : TaskHeap κ α) : Outcome (Option α) :=
  match archBitmaskFls (h.mask Q) with
  | 0 => .ok none
  | maxprio + 1 =>
    match listPeekfirst (.bucket Q maxprio) h.links with
    | some (.task t) => .ok (some t)
    | _ => .error .wild

end TaskHeap

/-- The functions of task queues. -/
inductive QueueOp (κ α : Type) where
  | init (Q : κ)
  | enqueue (Q : κ) (t : α)
  | unlink (t : α)
  | reprio (t : α) (p : ℕ)
  | dequeue (Q : κ)
  | dequeuePrio (Q : κ) (p : ℕ)
  | peek (Q : κ)

namespace QueueOp
variable {κ α : Type} [DecidableEq κ] [DecidableEq α]

def exec [Port] : QueueOp κ α → TaskHeap κ α → Outcome (Option α × TaskHeap κ α)
  | init Q, h => .ok (none, h.osTaskqueueInit Q)
  | enqueue Q t, h => .ok (none, h.osTaskqueueEnqueue Q t)
  | unlink t, h => do return (none, ← h.osTaskqueueUnlink t)
  | reprio t p, h => do return (none, ← h.osTaskqueueReprio t p)
  | dequeue Q, h => h.osTaskqueueDequeue Q
  | dequeuePrio Q p, h => h.osTaskqueueDequeuePrio Q p
  | peek Q, h => do return (← h.osTaskqueuePeek Q, h)

/-- The same on ordered lists. -/
def apply : QueueOp κ α → PrioQueues κ α → Option α × PrioQueues κ α
  | init Q, s => (none, s.init Q)
  | enqueue Q t, s => (none, s.put Q t)
  | unlink t, s => (none, s.take t)
  | reprio t p, s => (none, s.reprio t p)
  | dequeue Q, s => (s.first Q, s.pop Q)
  | dequeuePrio Q p, s =>
    if ∃ t ∈ s.first Q, p ≤ s.prio t then (s.first Q, s.pop Q) else (none, s)
  | peek Q, s => (s.first Q, s)

/-- A queue is set up before it is used. A task is enqueued only when in no queue and unlinked only
when in one. -/
def Fits [Port] (s : PrioQueues κ α) : QueueOp κ α → Prop
  | init _ => True
  | enqueue Q t => (s.queue Q).isSome ∧ s.Free t
  | unlink t => ¬ s.Free t
  | reprio _ p => p < Port.priocnt
  | dequeue Q | dequeuePrio Q _ | peek Q => (s.queue Q).isSome

/-- The priority of a task is left alone when its queue was set up again without it. -/
def Intact (s : PrioQueues κ α) : QueueOp κ α → Prop
  | reprio t _ => s.stale t = false
  | _ => True

/-- The results of a sequence of calls. -/
def run [Port] : List (QueueOp κ α) → TaskHeap κ α → Outcome (List (Option α) × TaskHeap κ α)
  | [], h => .ok ([], h)
  | op :: ops, h => do
    let (r, h) ← op.exec h
    let (rs, h) ← run ops h
    return (r :: rs, h)

def runQueues : List (QueueOp κ α) → PrioQueues κ α → List (Option α) × PrioQueues κ α
  | [], s => ([], s)
  | op :: ops, s =>
    let (rs, s') := runQueues ops (op.apply s).2
    ((op.apply s).1 :: rs, s')

/-- Every call of the sequence has the property `P` where it is made. -/
def Along (P : PrioQueues κ α → QueueOp κ α → Prop) :
    List (QueueOp κ α) → PrioQueues κ α → Prop
  | [], _ => True
  | op :: ops, s => P s op ∧ Along P ops (op.apply s).2

end QueueOp

/-- New tasks. The memory of the queues holds anything. -/
structure TaskHeap.Fresh [Port] {κ α : Type} (h : TaskHeap κ α) : Prop where
  taskQueue : ∀ t, h.taskQueue t = none
  prioCurrent : ∀ t, h.prioCurrent t < Port.priocnt

/-- No queue is set up. -/
def TaskHeap.noQueues {κ α : Type} (h : TaskHeap κ α) : PrioQueues κ α where
  queue _ := none
  prio := h.prioCurrent
  since _ := 0
  stale _ := false
  now := 0

end RadOs
