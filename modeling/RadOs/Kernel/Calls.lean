import RadOs.Kernel.Basic

/-! # The interface functions of the kernel

`os_sched.c`, `os_sem.c`, `os_mtx.c` and `os_waitqueue.c`. A function that can
switch the context ends at the switch; what it does when the task is continued
is a function of its own. Loops take an iteration budget.
-/

namespace RadOs
variable [Port]

/-- What a function returns to its caller; `value` is the value of a joined task. -/
inductive Ret where
  | code (c : RetCode)
  | value (v : ℤ)
  deriving DecidableEq, Repr

def osTimeoutTry : ℕ := 0
def osTimeoutInfinite : ℕ := osTicksMax

/-- `OS_WAITQUEUE_ALL` -/
def osWaitqueueAll : ℕ := 255

/-! ## Semaphores -/

def osSemCreate (s : SemId) (initValue : ℕ) (k : Kernel) : Outcome Kernel := do
  osAssert (initValue < Port.atomicMax)
  osAssert (k.waitqueueCurrent = none)
  return (k.setQueue (.sem s) osTaskqueueInit).setSem s initValue

/-- The loop of `os_sem_destroy` and `os_waitqueue_destroy` (`timed`) and of `os_mtx_destroy`,
which stops no timers. -/
def destroyLoop (timed : Bool) (Q : QueueId) : ℕ → Kernel → Outcome Kernel
  | 0, _ => .error .spin
  | n + 1, k => do
    match ← osTaskqueueDequeue Q k with
    | (none, k) => return k
    | (some t, k) =>
      let k ← (if timed then osBlocktimerDestroy t k else .ok k)
      let k ← wakeup t .destroyed k
      destroyLoop timed Q n k

def osSemDestroy (n : ℕ) (s : SemId) (c : Ctx) (k : Kernel) : Outcome Kernel := do
  osAssert (k.isrNesting = 0)
  osAssert (k.waitqueueCurrent = none)
  let k ← destroyLoop true (.sem s) n k
  osSchedule 1 c ((k.setQueue (.sem s) .zero).setSem s 0)

def osSemDown (n : ℕ) (s : SemId) (timeoutTicks : ℕ) (c : Ctx) (k : Kernel) :
    Outcome (Kernel × Option RetCode) := do
  osAssert (k.isrNesting = 0)
  osAssert (k.taskCurrent ≠ taskIdle)
  osAssert (k.waitqueueCurrent = none)
  osAssert (k.current.mtxList = [])
  if 0 < k.sems s then return (k.setSem s (k.sems s - 1), some .ok)
  else if timeoutTicks = osTimeoutTry then return (k, some .wouldblock)
  else do
    let k ← (if timeoutTicks ≠ osTimeoutInfinite then
        osBlocktimerCreate n (.osSemTimerclbck k.taskCurrent) timeoutTicks k
      else .ok k)
    let k ← osTaskBlockSwitch (.sem s) .sem c k
    return (k, none)

/-- The end of `os_sem_down` and of `os_waitqueue_wait`, behind `os_task_block_switch`. -/
def blockedReturn (k : Kernel) : Outcome (Kernel × RetCode) := do
  let k ← osBlocktimerDestroy k.taskCurrent k.running
  return (k, k.current.blockCode)

def osSemUpSync (s : SemId) (sync : Bool) (c : Ctx) (k : Kernel) : Outcome Kernel := do
  osAssert (k.isrNesting = 0 ∨ sync = false)
  osAssert (0 < k.isrNesting ∨ k.waitqueueCurrent = none)
  osAssert (k.sems s < Port.atomicMax - 1)
  match ← osTaskqueueDequeue (.sem s) k with
  | (none, k) => return k.setSem s (k.sems s + 1)
  | (some t, k) =>
    let k ← osBlocktimerDestroy t k
    let k ← wakeup t .ok k
    if sync then return k else osSchedule 1 c k

/-! ## Mutexes -/

def osMtxSetOwner (m : MtxId) (t : TaskId) (k : Kernel) : Kernel :=
  (k.setMtx m ⟨some t, 1⟩).setTask t
    { k.tasks t with mtxList := (k.tasks t).mtxList ++ [m] }

/-- A mutex that is not in the list of its owner is linked through stale pointers. -/
def osMtxClearOwner (m : MtxId) (k : Kernel) : Outcome Kernel :=
  match (k.mtxs m).owner with
  | none => .error .wild
  | some t =>
    if m ∈ (k.tasks t).mtxList then
      .ok ((k.setMtx m { k.mtxs m with owner := none }).setTask t
        { k.tasks t with mtxList := (k.tasks t).mtxList.erase m })
    else .error .wild

/-- The loop of `os_mtx_lock_prio_boost` from the task `t` on. -/
def prioBoostLoop (taskCurrentPrio : ℕ) : ℕ → TaskId → Kernel → Outcome Kernel
  | 0, _, _ => .error .spin
  | n + 1, t, k => do
    let prioNew := max k.current.prioCurrent taskCurrentPrio
    let k ← osTaskqueueReprio t prioNew k
    if (k.tasks t).state ≠ .wait ∨ (k.tasks t).blockType ≠ .mtx then return k
    else match (k.tasks t).taskQueue with
      | some (.mtx m) =>
        match (k.mtxs m).owner with
        | some o => prioBoostLoop taskCurrentPrio n o k
        | none => .error .wild
      | _ => .error .wild

def osMtxLockPrioBoost (n : ℕ) (m : MtxId) (k : Kernel) : Outcome Kernel :=
  match (k.mtxs m).owner with
  | none => .error .wild
  | some t =>
    if (k.tasks t).prioCurrent < k.current.prioCurrent then
      prioBoostLoop k.current.prioCurrent n t k
    else .ok k

/-- One turn of the loop of `os_mtx_unlock_prio_reset`. -/
def prioResetStep (k : Kernel) (prioNew : ℕ) (m : MtxId) : Outcome ℕ := do
  match ← osTaskqueuePeek (.mtx m) k with
  | none => return prioNew
  | some t => return max prioNew (k.tasks t).prioCurrent

def osMtxUnlockPrioReset (k : Kernel) : Outcome Kernel :=
  if k.current.prioCurrent ≠ k.current.prioBase then do
    let prioNew ← k.current.mtxList.foldlM (prioResetStep k) k.current.prioBase
    return k.setTask k.taskCurrent { k.current with prioCurrent := prioNew }
  else .ok k

def osMtxCreate (m : MtxId) (k : Kernel) : Outcome Kernel := do
  osAssert (k.isrNesting = 0)
  osAssert (k.waitqueueCurrent = none)
  return (k.setQueue (.mtx m) osTaskqueueInit).setMtx m .zero

def osMtxDestroy (n : ℕ) (m : MtxId) (k : Kernel) : Outcome Kernel := do
  osAssert (k.isrNesting = 0)
  osAssert (k.waitqueueCurrent = none)
  let k ← (if (k.mtxs m).owner = none then .ok k
    else do
      osAssert ((k.mtxs m).owner = some k.taskCurrent)
      let k ← osMtxClearOwner m k
      let k ← osMtxUnlockPrioReset k
      destroyLoop false (.mtx m) n k)
  osSchedule 1 .schedule ((k.setQueue (.mtx m) .zero).setMtx m .zero)

/-- `recur` is an 8-bit counter. -/
def osMtxLock (n : ℕ) (m : MtxId) (k : Kernel) : Outcome (Kernel × Option RetCode) := do
  osAssert (k.isrNesting = 0)
  osAssert (k.taskCurrent ≠ taskIdle)
  osAssert (k.waitqueueCurrent = none)
  if (k.mtxs m).owner = none then return (osMtxSetOwner m k.taskCurrent k, some .ok)
  else if (k.mtxs m).owner = some k.taskCurrent then
    return (k.setMtx m { k.mtxs m with recur := ((k.mtxs m).recur + 1) % 256 }, some .ok)
  else do
    let k ← osMtxLockPrioBoost n m k
    let k ← osTaskBlockSwitch (.mtx m) .mtx (.mtxLock m) k
    return (k, none)

def osMtxUnlock (m : MtxId) (k : Kernel) : Outcome Kernel := do
  osAssert (k.isrNesting = 0)
  osAssert ((k.mtxs m).owner = some k.taskCurrent)
  osAssert (k.waitqueueCurrent = none)
  let recur := ((k.mtxs m).recur + 255) % 256
  let k := k.setMtx m { k.mtxs m with recur := recur }
  if 0 < recur then return k
  else do
    let k ← osMtxClearOwner m k
    let k ← osMtxUnlockPrioReset k
    match ← osTaskqueueDequeue (.mtx m) k with
    | (none, k) => return k
    | (some t, k) =>
      let k ← wakeup t .ok (osMtxSetOwner m t k)
      osSchedule 1 .schedule k

/-! ## Wait queues -/

def osWaitqueueCreate (q : WaitqueueId) (k : Kernel) : Outcome Kernel := do
  osAssert (k.waitqueueCurrent = none)
  return k.setQueue (.waitqueue q) osTaskqueueInit

def osWaitqueueDestroy (n : ℕ) (q : WaitqueueId) (k : Kernel) : Outcome Kernel := do
  osAssert (k.waitqueueCurrent = none)
  let k ← destroyLoop true (.waitqueue q) n k
  osSchedule 1 .schedule (k.setQueue (.waitqueue q) .zero)

def osSchedulerLock (k : Kernel) : Outcome Kernel := do
  osAssert (k.isrNesting = 0)
  osAssert (k.waitqueueCurrent = none)
  return { k with schedLock := k.schedLock + 1 }

/-- `os_scheduler_unlock` up to its critical section. -/
def osSchedulerUnlock (sync : Bool) (k : Kernel) : Outcome Kernel := do
  osAssert (k.isrNesting = 0)
  osAssert (k.waitqueueCurrent = none)
  let k := { k with schedLock := k.schedLock - 1 }
  if sync = false ∧ k.schedLock = 0 then return k.setCtx .unlocked else return k.setCtx .user

/-- `os_waitqueue_prepare` up to the store to `waitqueue_current`. -/
def osWaitqueuePrepare (q : WaitqueueId) (k : Kernel) : Outcome Kernel := do
  osAssert (k.isrNesting = 0)
  osAssert (k.taskCurrent ≠ taskIdle)
  osAssert (k.current.mtxList = [])
  osAssert (k.waitqueueCurrent = none)
  let k ← osSchedulerLock k
  return k.setCtx (.prepare q)

/-- `os_waitqueue_break` up to the call of `os_scheduler_unlock`. -/
def osWaitqueueBreak (k : Kernel) : Outcome Kernel := do
  osAssert (k.isrNesting = 0)
  return { k with waitqueueCurrent := none }.setCtx .brk

def osWaitqueueWait (n : ℕ) (timeoutTicks : ℕ) (k : Kernel) :
    Outcome (Kernel × Option RetCode) := do
  osAssert (k.isrNesting = 0)
  osAssert (k.taskCurrent ≠ taskIdle)
  osAssert (osTimeoutTry < timeoutTicks)
  osAssert (k.current.mtxList = [])
  let k := { k with schedLock := k.schedLock - 1 }
  match k.waitqueueCurrent with
  | none => return (k.setCtx .user, some k.current.blockCode)
  | some q => do
    let k ← (if timeoutTicks ≠ osTimeoutInfinite then
        osBlocktimerCreate n (.osWaitqueueTimerclbck k.taskCurrent) timeoutTicks k
      else .ok k)
    let k := { k with waitqueueCurrent := none }
    let k ← osTaskBlockSwitch (.waitqueue q) .waitqueue (.waitqueueWait q) k
    return (k, none)

/-- The loop of `os_waitqueue_wakeup_sync`. -/
def wakeupLoop (q : WaitqueueId) : ℕ → ℕ → Bool → Kernel → Outcome (Kernel × Bool)
  | 0, _, _, _ => .error .spin
  | n + 1, wakeupCnt, awoken, k =>
    if wakeupCnt = osWaitqueueAll ∨ 0 < wakeupCnt then do
      let wakeupCnt := if wakeupCnt = osWaitqueueAll then wakeupCnt else wakeupCnt - 1
      match ← osTaskqueueDequeue (.waitqueue q) k with
      | (none, k) => return (k, awoken)
      | (some t, k) =>
        let k ← osBlocktimerDestroy t k
        let k ← wakeup t .ok k
        wakeupLoop q n wakeupCnt true k
    else return (k, awoken)

def osWaitqueueWakeupSync (n : ℕ) (q : WaitqueueId) (wakeupCnt : ℕ) (sync : Bool) (k : Kernel) :
    Outcome Kernel := do
  osAssert (0 < k.isrNesting ∨ k.waitqueueCurrent = none)
  osAssert (k.isrNesting = 0 ∨ sync = false)
  osAssert (0 < wakeupCnt)
  -- an interrupt has found the current task between prepare and wait
  let caught := 0 < k.isrNesting ∧ k.waitqueueCurrent = some q
  let wakeupCnt := if caught ∧ wakeupCnt ≠ osWaitqueueAll then wakeupCnt - 1 else wakeupCnt
  let k := if caught then { k with waitqueueCurrent := none } else k
  let (k, awoken) ← wakeupLoop q n wakeupCnt false k
  if sync = false ∧ awoken then osSchedule 1 .schedule k else return k

/-! ## Tasks -/

/-- `os_task_init`; `arch_task_init` lets the task begin outside the kernel. -/
def osTaskInit (prio : ℕ) : Task where
  prioBase := prio
  prioCurrent := prio
  state := .ready
  taskQueue := none
  blockType := .invalid
  timer := none
  mtxList := []
  joinSem := none
  retValue := 0
  ctx := .user

def osTaskCreate (t : TaskId) (prio : ℕ) (k : Kernel) : Outcome Kernel := do
  osAssert (k.isrNesting = 0)
  osAssert (k.waitqueueCurrent = none)
  osAssert (prio < Port.priocnt)
  osAssert (0 < prio)
  let k ← osTaskqueueEnqueue .ready t (k.setTask t (osTaskInit prio))
  osSchedule 1 .schedule k

/-- The end of `os_task_join`. -/
def joinFinish (t : TaskId) (k : Kernel) : Outcome (Kernel × Ret) := do
  osAssert ((k.tasks t).state = .destroyed)
  return (k.setTask t { k.tasks t with state := .invalid, joinSem := none },
    .value (k.tasks t).retValue)

/-- `os_task_join` behind its `os_sem_down`. -/
def joinDestroyed (n : ℕ) (t : TaskId) (r : RetCode) (k : Kernel) :
    Outcome (Kernel × Option Ret) := do
  osAssert (r = .ok)
  let cur := k.taskCurrent
  let k ← osSemDestroy n (.join cur) (.joinDestroy t) k
  if k.taskCurrent = cur then do
    let (k, v) ← joinFinish t k
    return (k.setCtx .user, some v)
  else return (k, none)

def osTaskJoin (n : ℕ) (t : TaskId) (k : Kernel) : Outcome (Kernel × Option Ret) := do
  osAssert (k.isrNesting = 0)
  osAssert (k.taskCurrent ≠ taskIdle)
  osAssert (k.waitqueueCurrent = none)
  osAssert ((k.tasks t).joinSem = none)
  osAssert ((k.tasks t).state ≠ .invalid)
  if (k.tasks t).state = .none then .error .wild
  else if (k.tasks t).state.live then do
    let cur := k.taskCurrent
    let k ← osSemCreate (.join cur) 0 k
    let k := k.setTask t { k.tasks t with joinSem := some (.join cur) }
    match ← osSemDown n (.join cur) osTimeoutInfinite (.joinDown t) k with
    | (k, none) => return (k, none)
    | (k, some r) => joinDestroyed n t r k
  else do
    let (k, v) ← joinFinish t k
    return (k, some v)

def osYield (k : Kernel) : Outcome Kernel := do
  osAssert (k.isrNesting = 0)
  osAssert (k.taskCurrent ≠ taskIdle)
  osAssert (k.waitqueueCurrent = none)
  osSchedule 0 .schedule k

/-- `os_task_exit` up to the choice of the next task. -/
def taskExitSignal (retv : ℤ) (k : Kernel) : Outcome Kernel :=
  let k := k.setTask k.taskCurrent { k.current with retValue := retv, state := .destroyed }
  match k.current.joinSem with
  | none => .ok k
  | some s => osSemUpSync s true .exit k

def osTaskExit (retv : ℤ) (k : Kernel) : Outcome Kernel := do
  let k ← taskExitSignal retv k
  match ← osTaskqueueDequeue .ready k with
  | (none, _) => .error .wild
  | (some newTask, k) => return archContextSwitch newTask .exit k

/-- `os_start` up to its critical section. -/
def osStart (k : Kernel) : Outcome Kernel := do
  osAssert (k.taskCurrent = taskIdle)
  osAssert (k.started = false)
  return { k with schedLock := 0, started := true }.setCtx .start

/-! ## Timers -/

/-- `os_sem_timerclbck` and `os_waitqueue_timerclbck`, which do the same. -/
def blockTimerclbck (t : TaskId) (k : Kernel) : Outcome Kernel := do
  osAssert ((k.tasks t).state = .wait)
  let k ← osTaskqueueUnlink t k
  wakeup t .timeout k

/-- `itr_timer->clbck(itr_timer->param)` -/
def timerClbck (x : TimerId) (k : Kernel) : Outcome Kernel :=
  match (k.timers.timers x).proc with
  | .user => .ok k
  | .osSemTimerclbck t => blockTimerclbck t k
  | .osWaitqueueTimerclbck t => blockTimerclbck t k

def osTick (n : ℕ) (k : Kernel) : Outcome Kernel := do
  osAssert (0 < k.isrNesting)
  let k ← osTickTimers timerClbck n k
  osSchedule 0 .schedule k

end RadOs
