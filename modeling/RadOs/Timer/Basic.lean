import RadOs.LinkList
import RadOs.Outcome

/-! # The timer module `os_timer.c`

The timer list is a list of `list.h` over the nodes embedded in the timers; its
head and the head of the temporary list inside `timer_trigger` are two more
nodes. `os_ticks_t` is the 16-bit type of the AVR and MSP430 ports, so every
addition and subtraction is taken modulo `2 ^ 16`. The loops take an iteration
budget because a callback may leave the saved iterator behind on a node that is
no longer linked.
-/

namespace RadOs
open LinkedRing

/-- The number of values of `os_ticks_t`. -/
def ticksMod : ℕ := 65536

def osTicksMax : ℕ := 65535
def osTimerUnsynchMax : ℕ := 1024
def osTimerTicksremMax : ℕ := osTicksMax - osTimerUnsynchMax

def ticksAdd (a b : ℕ) : ℕ := (a + b) % ticksMod
def ticksSub (a b : ℕ) : ℕ := (a + ticksMod - b) % ticksMod

/-- The canary of a timer; `other` is memory never passed to `os_timer_create`. -/
inductive TimerMagic where
  | other
  | magic1
  | magic2
  deriving DecidableEq, Repr

/-- `os_timer_t` without its link. `proc` is the callback together with its parameter. -/
structure Timer (π : Type) where
  ticksRem : ℕ
  ticksReload : ℕ
  proc : π
  magic : TimerMagic

/-- Every `list_t` the timer module links: two heads and one node in each timer. -/
inductive TimerNode (τ : Type) where
  | timerList
  | listAutoreload
  | timer (t : τ)
  deriving DecidableEq, Repr

/-- What an observer of the timer interface sees. -/
inductive TimerEvent (τ : Type) where
  | tick
  | fire (t : τ)
  | create (t : τ) (timeout reload : ℕ)
  | destroy (t : τ)
  deriving DecidableEq, Repr

/-- The variables of the timer module. `history` is no variable of the code: it records the calls
of the interface and of the callbacks, latest first. -/
structure Timers (τ π : Type) where
  links : Links (TimerNode τ)
  timers : τ → Timer π
  timerTickUnsynch : ℕ
  ticksCnt : ℕ
  history : List (TimerEvent τ)

variable {τ π : Type} [DecidableEq τ]

namespace Timers

def rem (s : Timers τ π) (t : τ) : ℕ := (s.timers t).ticksRem

def reload (s : Timers τ π) (t : τ) : ℕ := (s.timers t).ticksReload

def setTimer (t : τ) (x : Timer π) (s : Timers τ π) : Timers τ π :=
  { s with timers := Function.update s.timers t x }

def setRem (t : τ) (n : ℕ) (s : Timers τ π) : Timers τ π :=
  s.setTimer t { s.timers t with ticksRem := n }

def setLinks (l : Links (TimerNode τ)) (s : Timers τ π) : Timers τ π := { s with links := l }

def record (e : TimerEvent τ) (s : Timers τ π) : Timers τ π := { s with history := e :: s.history }

end Timers

/-- The loop of `timer_add`: the place before which a timer with `rem` ticks is put. -/
def timerAddLoop (s : Timers τ π) (rem : ℕ) : ℕ → TimerNode τ → Outcome (TimerNode τ)
  | 0, _ => .error .spin
  | _ + 1, .timerList => .ok .timerList
  | _ + 1, .listAutoreload => .error .wild
  | n + 1, .timer t =>
    if rem < s.rem t then .ok (.timer t) else timerAddLoop s rem n (s.links.next (.timer t))

def timerAdd (n : ℕ) (addTimer : τ) (s : Timers τ π) : Outcome (Timers τ π) := do
  let itr ← timerAddLoop s (s.rem addTimer) n (s.links.next .timerList)
  return s.setLinks (listPutBefore itr (.timer addTimer) s.links)

def osTimersInit (s : Timers τ π) : Timers τ π := s.setLinks (listInit .timerList s.links)

def osTimerCreate (n : ℕ) (timer : τ) (proc : π) (timeoutTicks reloadTicks : ℕ)
    (s : Timers τ π) : Outcome (Timers τ π) := do
  osAssert (0 < timeoutTicks)
  osAssert (timeoutTicks < osTimerTicksremMax)
  osAssert ((s.timers timer).magic ≠ .magic1)
  let s := s.record (.create timer timeoutTicks reloadTicks)
  let s := s.setLinks (listInit (.timer timer) s.links)
  let s := s.setTimer timer
    { ticksRem := ticksAdd timeoutTicks s.timerTickUnsynch, ticksReload := reloadTicks,
      proc := proc, magic := .magic1 }
  timerAdd n timer s

/-- Clearing `ticks_reload` depends on `ticks_rem`, the canary does not. -/
def osTimerDestroy (timer : τ) (s : Timers τ π) : Outcome (Timers τ π) := do
  osAssert ((s.timers timer).magic = .magic1 ∨ (s.timers timer).magic = .magic2)
  let s := s.record (.destroy timer)
  let s := if 0 < s.rem timer then
      (s.setLinks (listUnlink (.timer timer) s.links)).setTimer timer
        { s.timers timer with ticksRem := 0, ticksReload := 0 }
    else s
  let s := s.setTimer timer { s.timers timer with magic := .magic2 }
  return if listIsEmpty .timerList s.links then { s with timerTickUnsynch := 0 } else s

/-- A state that holds the variables of the timer module among others. -/
class HasTimers (σ : Type) (τ π : outParam Type) where
  timers : σ → Timers τ π
  setTimers : Timers τ π → σ → σ
  timers_set : ∀ x s, timers (setTimers x s) = x
  set_timers : ∀ s, setTimers (timers s) s = s
  set_set : ∀ x y s, setTimers x (setTimers y s) = setTimers x s

attribute [simp] HasTimers.timers_set HasTimers.set_timers HasTimers.set_set

instance : HasTimers (Timers τ π) τ π where
  timers s := s
  setTimers x _ := x
  timers_set _ _ := rfl
  set_timers _ := rfl
  set_set _ _ _ := rfl

section Trigger
variable {σ : Type} [HasTimers σ τ π]
open HasTimers

/-- The first loop of `timer_trigger`. `clbck t` is the effect of the call
`itr_timer->clbck(itr_timer->param)` for the timer `t`; the successor is read before it. -/
def triggerLoop (clbck : τ → σ → Outcome σ) : ℕ → TimerNode τ → σ → Outcome σ
  | 0, _, _ => .error .spin
  | _ + 1, .timerList, s => .ok s
  | _ + 1, .listAutoreload, _ => .error .wild
  | n + 1, .timer t, s =>
    let itr := (timers s).links.next (.timer t)
    let rem := ticksSub ((timers s).rem t) (timers s).timerTickUnsynch
    let x := (timers s).setRem t rem
    if 0 < rem then triggerLoop clbck n itr (setTimers x s)
    else do
      let x := (x.setLinks (listUnlink (.timer t) x.links)).record (.fire t)
      let s ← clbck t (setTimers x s)
      if 0 < (timers s).reload t then
        let x := (timers s).setLinks (listAppend .listAutoreload (.timer t) (timers s).links)
        triggerLoop clbck n itr (setTimers x s)
      else triggerLoop clbck n itr s

/-- The second loop of `timer_trigger`: the temporary list is put back into the timer list. -/
def rearmLoop : ℕ → Timers τ π → Outcome (Timers τ π)
  | 0, _ => .error .spin
  | n + 1, s =>
    match listDetachfirst .listAutoreload s.links with
    | none => .ok s
    | some (.timer t, l) => do
      let s := (s.setLinks l).setRem t ((s.setLinks l).reload t)
      rearmLoop n (← timerAdd n t s)
    | some (_, _) => .error .wild

def timerTrigger (clbck : τ → σ → Outcome σ) (n : ℕ) (s : σ) : Outcome σ := do
  let x := (timers s).setLinks (listInit .listAutoreload (timers s).links)
  let s ← triggerLoop clbck n (x.links.next .timerList) (setTimers x s)
  let x ← rearmLoop n { timers s with timerTickUnsynch := 0 }
  return setTimers x s

/-- The part of `os_tick` before the call of `os_schedule`. -/
def osTickTimers (clbck : τ → σ → Outcome σ) (n : ℕ) (s : σ) : Outcome σ := do
  let x : Timers τ π :=
    { timers s with ticksCnt := ticksAdd (timers s).ticksCnt 1 }.record .tick
  match listPeekfirst .timerList x.links with
  | none => return setTimers x s
  | some (.timer head) =>
    let x := { x with timerTickUnsynch := ticksAdd x.timerTickUnsynch 1 }
    if x.rem head ≤ x.timerTickUnsynch ∨ osTimerUnsynchMax < x.timerTickUnsynch then
      timerTrigger clbck n (setTimers x s)
    else return setTimers x s
  | some _ => .error .wild

end Trigger

end RadOs
