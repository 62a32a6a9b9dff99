import RadOs.Lib.Buckets
import RadOs.Timer.Basic

/-! # The data of the kernel

Tasks, synchronization objects and timers are named by numbers. The context of
a task is the place in its code at which it continues, `ctx`, as far as the
kernel is concerned; the places are those at which a task can be interrupted or
switched away. A synchronization object that `memset` has cleared, or that was
never created, has the value `zero`: the heads of its lists are null.
-/

namespace RadOs
open Bucketed

/-- The constants of a port and of `os_config.h`. -/
class Port where
  /-- `ARCH_ATOMIC_MAX` -/
  atomicMax : ℕ
  /-- `OS_CONFIG_PRIOCNT` -/
  priocnt : ℕ

abbrev TaskId := ℕ
abbrev MtxId := ℕ
abbrev WaitqueueId := ℕ

/-- The idle task is created by `os_init`. -/
def taskIdle : TaskId := 0

/-- `join t` is the semaphore on the stack of `t` inside `os_task_join`. -/
inductive SemId where
  | obj (n : ℕ)
  | join (t : TaskId)
  deriving DecidableEq, Repr

/-- `block t` is the timer on the stack of `t` inside a blocking call. -/
inductive TimerId where
  | obj (n : ℕ)
  | block (t : TaskId)
  deriving DecidableEq, Repr

/-- The task queues of the kernel. -/
inductive QueueId where
  | ready
  | sem (s : SemId)
  | mtx (m : MtxId)
  | waitqueue (q : WaitqueueId)
  deriving DecidableEq, Repr

inductive TaskState where
  /-- memory that was never passed to `os_task_create` -/
  | none
  | running
  | ready
  | wait
  | destroyed
  | invalid
  deriving DecidableEq, Repr

/-- `state < TASKSTATE_DESTROYED` -/
def TaskState.live : TaskState → Bool
  | .running | .ready | .wait => true
  | _ => false

inductive TaskBlock where
  | invalid
  | sem
  | mtx
  | waitqueue
  deriving DecidableEq, Repr

inductive RetCode where
  | ok
  | wouldblock
  | timeout
  | destroyed
  | invalid
  deriving DecidableEq, Repr

/-- Where a task continues. In the first six places interrupts are enabled, in the others the task
is inside a critical section behind a call of `arch_context_switch`. -/
inductive Ctx where
  /-- outside the kernel -/
  | user
  /-- in `os_waitqueue_prepare`, scheduler locked, before the store to `waitqueue_current` -/
  | prepare (q : WaitqueueId)
  /-- outside the kernel, after `os_waitqueue_prepare` -/
  | prepared (q : WaitqueueId)
  /-- in `os_waitqueue_break`, before `os_scheduler_unlock` -/
  | brk
  /-- in `os_scheduler_unlock`, before the critical section -/
  | unlocked
  /-- in `os_start`, before the critical section -/
  | start
  /-- in `os_schedule`, called last by an interface function -/
  | schedule
  | semDown (s : SemId)
  | mtxLock (m : MtxId)
  | waitqueueWait (q : WaitqueueId)
  /-- in `os_sem_down` called by `os_task_join` -/
  | joinDown (t : TaskId)
  /-- in `os_schedule` called by `os_sem_destroy` called by `os_task_join` -/
  | joinDestroy (t : TaskId)
  /-- at the end of `os_task_exit`, never continued -/
  | exit
  deriving DecidableEq, Repr

def Ctx.interruptible : Ctx → Bool
  | .user | .prepare _ | .prepared _ | .brk | .unlocked | .start => true
  | _ => false

/-- The value of a code as an `int`. -/
def RetCode.toInt : RetCode → ℤ
  | .ok => 0
  | .wouldblock => 1
  | .timeout => 2
  | .destroyed => 3
  | .invalid => 4

/-- The code that an `int` holds, if it is read as one. -/
def RetCode.ofInt (v : ℤ) : RetCode :=
  if v = 0 then .ok else if v = 1 then .wouldblock else if v = 2 then .timeout
  else if v = 3 then .destroyed else .invalid

@[simp] theorem RetCode.ofInt_toInt (c : RetCode) : RetCode.ofInt c.toInt = c := by
  cases c <;> rfl

/-- `os_task_t`. `retValue` is the storage of the union of `ret_value` and `block_code`. -/
structure Task where
  prioBase : ℕ
  prioCurrent : ℕ
  state : TaskState
  taskQueue : Option QueueId
  blockType : TaskBlock
  timer : Option TimerId
  mtxList : List MtxId
  joinSem : Option SemId
  retValue : ℤ
  ctx : Ctx

/-- The union read as `block_code`. -/
def Task.blockCode (x : Task) : RetCode := .ofInt x.retValue

/-- `os_taskqueue_t`. The bit mask is the set of its bits. -/
structure TaskQueue where
  tasks : Buckets TaskId
  /-- whether `list_init` has been called for the buckets -/
  linked : Bool

def TaskQueue.zero : TaskQueue := ⟨.empty, false⟩

/-- `os_taskqueue_init` on cleared memory. -/
def osTaskqueueInit : TaskQueue := ⟨.empty, true⟩

/-- `os_mtx_t` without its task queue and its link. -/
structure Mtx where
  owner : Option TaskId
  recur : ℕ
  deriving DecidableEq

def Mtx.zero : Mtx := ⟨none, 0⟩

/-- The callback of a timer with its parameter. A callback of the application calls no function of
the kernel. -/
inductive TimerProc where
  | user
  | osSemTimerclbck (t : TaskId)
  | osWaitqueueTimerclbck (t : TaskId)
  deriving DecidableEq, Repr

/-- All variables of the kernel and the objects it works on. `isr_nesting` and `sched_lock` are of
the type `arch_atomic_t`, an unsigned one of 8 bits in the AVR port and of 16 bits in the MSP430
port. Here they do not wrap: 256 nested handlers bring the counter back to 0 on the AVR, and a call
of `os_scheduler_unlock` too many leaves 255 there (which is greater than 0) and -1 here. -/
structure Kernel where
  tasks : TaskId → Task
  queues : QueueId → TaskQueue
  sems : SemId → ℕ
  mtxs : MtxId → Mtx
  timers : Timers TimerId TimerProc
  taskCurrent : TaskId
  isrNesting : ℕ
  schedLock : ℤ
  waitqueueCurrent : Option WaitqueueId
  /-- interrupts are enabled by `os_start` -/
  started : Bool

instance : HasTimers Kernel TimerId TimerProc where
  timers k := k.timers
  setTimers x k := { k with timers := x }
  timers_set _ _ := rfl
  set_timers _ := rfl
  set_set _ _ _ := rfl

namespace Kernel

def setTask (t : TaskId) (x : Task) (k : Kernel) : Kernel :=
  { k with tasks := Function.update k.tasks t x }

def setQueue (Q : QueueId) (x : TaskQueue) (k : Kernel) : Kernel :=
  { k with queues := Function.update k.queues Q x }

def setSem (s : SemId) (v : ℕ) (k : Kernel) : Kernel :=
  { k with sems := Function.update k.sems s v }

def setMtx (m : MtxId) (x : Mtx) (k : Kernel) : Kernel :=
  { k with mtxs := Function.update k.mtxs m x }

/-- `*task_current` -/
def current (k : Kernel) : Task := k.tasks k.taskCurrent

def setCtx (c : Ctx) (k : Kernel) : Kernel :=
  k.setTask k.taskCurrent { k.current with ctx := c }

end Kernel

/-! ## Task queues -/

def osTaskqueueEnqueue (Q : QueueId) (t : TaskId) (k : Kernel) : Outcome Kernel :=
  if (k.queues Q).linked then
    let b := (k.queues Q).tasks.push (k.tasks t).prioCurrent t
    .ok ((k.setQueue Q { k.queues Q with tasks := b }).setTask t
      { k.tasks t with taskQueue := some Q })
  else .error .wild

def osTaskqueueUnlink (t : TaskId) (k : Kernel) : Outcome Kernel :=
  match (k.tasks t).taskQueue with
  | none => .error .wild
  | some Q =>
    let b := (k.queues Q).tasks.remove (k.tasks t).prioCurrent t
    .ok ((k.setQueue Q { k.queues Q with tasks := b }).setTask t
      { k.tasks t with taskQueue := none })

def osTaskqueueReprio (t : TaskId) (newPrio : ℕ) (k : Kernel) : Outcome Kernel :=
  if (k.tasks t).prioCurrent ≠ newPrio then
    match (k.tasks t).taskQueue with
    | none => .ok (k.setTask t { k.tasks t with prioCurrent := newPrio })
    | some Q => do
      let k ← osTaskqueueUnlink t k
      osTaskqueueEnqueue Q t (k.setTask t { k.tasks t with prioCurrent := newPrio })
  else .ok k

def osTaskqueueIntdequeue (Q : QueueId) (maxprio : ℕ) (k : Kernel) : Outcome (TaskId × Kernel) :=
  match (k.queues Q).tasks.bucket maxprio with
  | [] => .error .wild
  | t :: l =>
    let b := (k.queues Q).tasks.setBucket maxprio l
    .ok (t, (k.setQueue Q { k.queues Q with tasks := b }).setTask t
      { k.tasks t with taskQueue := none })

def osTaskqueueDequeue (Q : QueueId) (k : Kernel) : Outcome (Option TaskId × Kernel) :=
  match (k.queues Q).tasks.top with
  | 0 => .ok (none, k)
  | maxprio + 1 => do
    let (t, k) ← osTaskqueueIntdequeue Q maxprio k
    return (some t, k)

def osTaskqueueDequeuePrio (Q : QueueId) (prio : ℕ) (k : Kernel) :
    Outcome (Option TaskId × Kernel) :=
  match (k.queues Q).tasks.top with
  | 0 => .ok (none, k)
  | maxprio + 1 =>
    if maxprio < prio then .ok (none, k)
    else do
      let (t, k) ← osTaskqueueIntdequeue Q maxprio k
      return (some t, k)

def osTaskqueuePeek (Q : QueueId) (k : Kernel) : Outcome (Option TaskId) :=
  match (k.queues Q).tasks.top with
  | 0 => .ok none
  | maxprio + 1 =>
    match (k.queues Q).tasks.bucket maxprio with
    | [] => .error .wild
    | t :: _ => .ok (some t)

/-! ## Scheduling -/

def osTaskMakeready (t : TaskId) (k : Kernel) : Outcome Kernel :=
  osTaskqueueEnqueue .ready t (k.setTask t { k.tasks t with state := .ready })

def osTaskMakewait (Q : QueueId) (blockType : TaskBlock) (k : Kernel) : Outcome Kernel :=
  osTaskqueueEnqueue Q k.taskCurrent
    (k.setTask k.taskCurrent { k.current with state := .wait, blockType := blockType })

/-- `arch_context_switch`: the calling task will continue at `c`. What the new task does next
is a step of its own. -/
def archContextSwitch (newTask : TaskId) (c : Ctx) (k : Kernel) : Kernel :=
  { k.setCtx c with taskCurrent := newTask }

/-- `task_current->state = TASKSTATE_RUNNING` -/
def Kernel.running (k : Kernel) : Kernel :=
  k.setTask k.taskCurrent { k.current with state := .running }

/-- `os_schedule`. If it switches the context in a task, that task continues at `c`. -/
def osSchedule (higherPrio : ℕ) (c : Ctx) (k : Kernel) : Outcome Kernel :=
  if k.isrNesting ≤ 1 ∧ k.schedLock = 0 then do
    match ← osTaskqueueDequeuePrio .ready (k.current.prioCurrent + higherPrio) k with
    | (none, k) => return k
    | (some newTask, k) =>
      let k ← osTaskMakeready k.taskCurrent k
      if k.isrNesting = 0 then return archContextSwitch newTask c k
      else return { k with taskCurrent := newTask }.running
  else return k

/-- `os_task_block_switch`. The task continues at `c` once it is switched back. -/
def osTaskBlockSwitch (Q : QueueId) (blockType : TaskBlock) (c : Ctx) (k : Kernel) :
    Outcome Kernel := do
  let k ← osTaskMakewait Q blockType k
  match ← osTaskqueueDequeue .ready k with
  | (none, _) => .error .wild
  | (some newTask, k) => return archContextSwitch newTask c k

def osBlocktimerCreate (n : ℕ) (proc : TimerProc) (timeoutTicks : ℕ) (k : Kernel) :
    Outcome Kernel := do
  osAssert (k.current.timer = none)
  let x ← osTimerCreate n (.block k.taskCurrent) proc timeoutTicks 0 k.timers
  let k := { k with timers := x }
  return k.setTask k.taskCurrent { k.current with timer := some (.block k.taskCurrent) }

def osBlocktimerDestroy (t : TaskId) (k : Kernel) : Outcome Kernel :=
  match (k.tasks t).timer with
  | none => .ok k
  | some x => do
    let y ← osTimerDestroy x k.timers
    let k := { k with timers := y }
    return k.setTask t { k.tasks t with timer := none }

/-- What a task is woken with: the code it will read, and a place in the ready queue. -/
def wakeup (t : TaskId) (c : RetCode) (k : Kernel) : Outcome Kernel :=
  osTaskMakeready t (k.setTask t { k.tasks t with retValue := c.toInt })

end RadOs
