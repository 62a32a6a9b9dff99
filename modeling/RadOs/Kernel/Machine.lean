import RadOs.Kernel.Calls
import RadOs.Lib.Run

/-! # The kernel as a transition system

A step is a call of an interface function by the running task or by an
interrupt handler, the continuation of a task that is inside such a function,
or the begin or end of an interrupt. Interrupts arrive whenever the running
code has them enabled: in a task outside critical sections, and in a handler.
-/

namespace RadOs
open Budget Runs
variable [Port]

/-- The interface functions with their parameters. -/
inductive Call where
  | start
  | taskCreate (t : TaskId) (prio : ℕ)
  | taskExit (retv : ℤ)
  | taskJoin (t : TaskId)
  | yield
  | schedulerLock
  | schedulerUnlock (sync : Bool)
  | semCreate (n initValue : ℕ)
  | semDestroy (n : ℕ)
  | semDown (n timeoutTicks : ℕ)
  | semUp (n : ℕ) (sync : Bool)
  | mtxCreate (m : MtxId)
  | mtxDestroy (m : MtxId)
  | mtxLock (m : MtxId)
  | mtxUnlock (m : MtxId)
  | waitqueueCreate (q : WaitqueueId)
  | waitqueueDestroy (q : WaitqueueId)
  | waitqueuePrepare (q : WaitqueueId)
  | waitqueueBreak
  | waitqueueWait (timeoutTicks : ℕ)
  | waitqueueWakeup (q : WaitqueueId) (wakeupCnt : ℕ) (sync : Bool)
  | timerCreate (n timeoutTicks reloadTicks : ℕ)
  | timerDestroy (n : ℕ)
  | tick
  deriving DecidableEq

inductive Action where
  | call (c : Call)
  | resume
  | isrEnter
  | isrExit
  deriving DecidableEq

/-- A function without a result. -/
def quiet (x : Outcome Kernel) : Outcome (Kernel × Option Ret) := do return (← x, none)

/-- A function that returns a code, unless it has switched the context. -/
def coded (x : Outcome (Kernel × Option RetCode)) : Outcome (Kernel × Option Ret) := do
  let (k, r) ← x
  return (k, r.map .code)

def Call.exec (n : ℕ) : Call → Kernel → Outcome (Kernel × Option Ret)
  | .start, k => quiet (osStart k)
  | .taskCreate t prio, k => quiet (osTaskCreate t prio k)
  | .taskExit retv, k => quiet (osTaskExit retv k)
  | .taskJoin t, k => osTaskJoin n t k
  | .yield, k => quiet (osYield k)
  | .schedulerLock, k => quiet (osSchedulerLock k)
  | .schedulerUnlock sync, k => quiet (osSchedulerUnlock sync k)
  | .semCreate s v, k => quiet (osSemCreate (.obj s) v k)
  | .semDestroy s, k => quiet (osSemDestroy n (.obj s) .schedule k)
  | .semDown s timeoutTicks, k => coded (osSemDown n (.obj s) timeoutTicks (.semDown (.obj s)) k)
  | .semUp s sync, k => quiet (osSemUpSync (.obj s) sync .schedule k)
  | .mtxCreate m, k => quiet (osMtxCreate m k)
  | .mtxDestroy m, k => quiet (osMtxDestroy n m k)
  | .mtxLock m, k => coded (osMtxLock n m k)
  | .mtxUnlock m, k => quiet (osMtxUnlock m k)
  | .waitqueueCreate q, k => quiet (osWaitqueueCreate q k)
  | .waitqueueDestroy q, k => quiet (osWaitqueueDestroy n q k)
  | .waitqueuePrepare q, k => quiet (osWaitqueuePrepare q k)
  | .waitqueueBreak, k => quiet (osWaitqueueBreak k)
  | .waitqueueWait timeoutTicks, k => coded (osWaitqueueWait n timeoutTicks k)
  | .waitqueueWakeup q cnt sync, k => quiet (osWaitqueueWakeupSync n q cnt sync k)
  | .timerCreate x timeoutTicks reloadTicks, k => quiet do
    let y ← osTimerCreate n (.obj x) .user timeoutTicks reloadTicks k.timers
    return { k with timers := y }
  | .timerDestroy x, k => quiet do
    let y ← osTimerDestroy (.obj x) k.timers
    return { k with timers := y }
  | .tick, k => quiet (osTick n k)

/-- The running task goes on from a place inside the kernel. -/
def resume (n : ℕ) (k : Kernel) : Outcome (Kernel × Option Ret) :=
  match k.current.ctx with
  | .user | .prepared _ | .exit => .error .wild
  | .prepare q => quiet (.ok ({ k with waitqueueCurrent := some q }.setCtx (.prepared q)))
  | .brk => quiet (osSchedulerUnlock false k)
  | .unlocked => quiet (osSchedule 1 .schedule (k.setCtx .user))
  | .start => quiet (osSchedule 0 .schedule (k.setCtx .user))
  | .schedule => quiet (.ok (k.running.setCtx .user))
  | .semDown _ | .waitqueueWait _ => do
    let (k, r) ← blockedReturn k
    return (k.setCtx .user, some (.code r))
  | .mtxLock _ => .ok (k.running.setCtx .user, some (.code k.current.blockCode))
  | .joinDown t => do
    let (k, r) ← blockedReturn k
    joinDestroyed n t r k
  | .joinDestroy t => do
    let (k, v) ← joinFinish t k.running
    return (k.setCtx .user, some v)

def exec (n : ℕ) : Action → Kernel → Outcome (Kernel × Option Ret)
  | .call c, k => c.exec n k
  | .resume, k => resume n k
  | .isrEnter, k => .ok ({ k with isrNesting := k.isrNesting + 1 }, none)
  | .isrExit, k => .ok ({ k with isrNesting := k.isrNesting - 1 }, none)

/-- Whether the running task is outside the kernel. -/
def Ctx.outside : Ctx → Bool
  | .user | .prepared _ => true
  | _ => false

def Call.exits : Call → Bool
  | .taskExit _ => true
  | _ => false

/-- Which actions the program counter and the interrupt flag let happen. The function of a task
returns into `os_task_exit`, a handler does not. -/
def Enabled (k : Kernel) : Action → Prop
  | .call c => if k.isrNesting = 0 then k.current.ctx.outside = true else c.exits = false
  | .resume => k.isrNesting = 0 ∧ k.current.ctx.outside = false
  | .isrEnter => k.started = true ∧ (k.isrNesting = 0 → k.current.ctx.interruptible = true)
  | .isrExit => 0 < k.isrNesting

instance (k : Kernel) (i : Action) : Decidable (Enabled k i) := by
  cases i <;> unfold Enabled <;> infer_instance

/-- A step with what it returns. -/
def Kernel.Step (k : Kernel) (i : Action × Option Ret) (k' : Kernel) : Prop :=
  Enabled k i.1 ∧ Settles (fun n => exec n i.1 k) (.ok (k', i.2))

/-- A step with the states around it. -/
abbrev KernelStep := Taken Kernel (Action × Option Ret)

/-- The memory of the kernel before `os_init`. -/
def coldKernel : Kernel where
  tasks _ := { osTaskInit 0 with state := .none }
  queues _ := .zero
  sems _ := 0
  mtxs _ := .zero
  timers :=
    { links := ⟨id, id⟩
      timers := fun _ => ⟨0, 0, .user, .other⟩
      timerTickUnsynch := 0
      ticksCnt := 0
      history := [] }
  taskCurrent := taskIdle
  isrNesting := 0
  schedLock := 0
  waitqueueCurrent := none
  started := false

def osInit (k : Kernel) : Kernel :=
  { (k.setQueue .ready osTaskqueueInit).setTask taskIdle { osTaskInit 0 with state := .running } with
    timers := osTimersInit k.timers
    taskCurrent := taskIdle
    schedLock := 1 }

def kernelSystem : System Kernel (Action × Option Ret) where
  start k := k = osInit coldKernel
  step := Kernel.Step

end RadOs
