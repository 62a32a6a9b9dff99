import RadOs.Msp430.Contexts

/-! # Resumption

Every task continues in the context in which it lost the CPU, however deep the
ISRs were nested. The counter of nested ISRs is as wide as an address here, so
a stack is full before it wraps around.
-/

namespace RadOs.Msp430
open Turns Runs Runs.System

section Resumption
variable [Device] {L : Stacks} {m m' : Machine} {i : Move} {tr : List (Taken Machine Move)}

/-- The tasks of a program on one CPU. In the beginning one of them runs and no other has been
set up. -/
def contexts (L : Stacks) : System Machine Move where
  start m := m.nested = [] ∧ m.cpu.isrNesting = 0 ∧ m.cpu.task = m.running ∧
    (∀ t, m.suspended t = none) ∧ m.Within L m.cpu.sp
  step := Step L

/-- The step gives the CPU back to somebody. -/
def Move.Returns : Move → Prop
  | .leave => True
  | .switch _ => True
  | _ => False

/-- The code that has got the CPU back. What is left of `arch_context_switch` is executed. -/
def Move.landed : Move → Cpu → Cpu
  | .switch _, s => exec 0 [.ret] s
  | _, s => s

theorem Intact.start (h : (contexts L).start m) : Intact L m := by
  obtain ⟨hn, h0, hc, hs, hw⟩ := h
  refine ⟨?_, fun _ => hc, Or.inl hc, hs _, fun t x hx => ?_, ?_, fun c hl => ?_, hw, fun c hl => ?_⟩
  · rw [h0, hn]
    rfl
  · rw [hs] at hx
    cases hx
  · rw [hn]
    trivial
  · rw [hn] at hl
    cases hl
  · rw [hn] at hl
    cases hl

theorem Intact.step (h : Intact L m) (hs : Step L m i m') : Intact L m' := by
  cases hs with
  | code hn hc hs hm hw => exact h.code hn hc hs hm hw
  | pick hn _ ht => exact h.pick hn ht
  | enter hi hr => exact h.enter hi hr
  | leave hn hs => exact (h.leave hn hs).2
  | leaveLast hn _ => exact (h.leaveLast hn).2
  | switch hn _ hr ht => exact (h.switch hn hr ht).2
  | init hn ht hr htop hs => exact h.init hn ht hr htop hs

theorem intact_of_run (h : (contexts L).Run tr m) : Intact L m :=
  Run.invariant (M := contexts L) (I := fun _ m => Intact L m)
    (fun _ h => Intact.start h) (fun _ _ _ _ _ hI hs => hI.step hs) h

/-- Whoever gets the CPU continues as it has to. -/
theorem contexts_continued (h : (contexts L).Run tr m) (hs : Step L m i m') (hi : i.Returns) :
    m.awaited i = some (i.landed m'.cpu).context := by
  have hI := intact_of_run h
  cases hs with
  | code => cases hi
  | pick => cases hi
  | enter => cases hi
  | init => cases hi
  | @leave c _ _ hn hs =>
    obtain ⟨hc, -⟩ := hI.leave hn hs
    rw [Machine.awaited, hn]
    exact congrArg some hc.symm
  | leaveLast hn _ => exact (hI.leaveLast hn).1
  | switch hn _ hr ht =>
    rw [(hI.switch hn hr ht).1]
    exact congrArg some (exec_archContextSwitch _)

end Resumption

/-! ## A task that has given the CPU away -/

instance plainDevice : Device where
  flags _ _ := 0
  archTaskStart := 0x8400
  archContextSwitchRet := 0x8480
  apicheck := false

def twoStacks : Stacks where
  bottom t := if t = 0x0e00 then 0x1000 else if t = 0x0e10 then 0x0f00 else 0
  top t := if t = 0x0e00 then 0x1800 else if t = 0x0e10 then 0x0f80 else 0
  disjoint := by
    intro t t' h
    by_cases h₁ : t = 0x0e00 <;> by_cases h₂ : t' = 0x0e00 <;> by_cases h₃ : t = 0x0e10 <;>
      by_cases h₄ : t' = 0x0e10 <;> simp_all
  clear := by
    rintro t ⟨h₁, h₂⟩
    have hc : (cell 0x0a20).toNat = 0x0510 := by decide
    rw [hc] at h₁ h₂
    dsimp only at h₁ h₂
    by_cases h₃ : t = 0x0e00
    · rw [if_pos h₃] at h₁
      exact absurd h₁ (by decide)
    · rw [if_neg h₃] at h₁ h₂
      by_cases h₄ : t = 0x0e10
      · rw [if_pos h₄] at h₁
        exact absurd h₁ (by decide)
      · rw [if_neg h₄] at h₂
        exact absurd h₂ (by decide)

/-- The task at `0x1c00` is inside the kernel, with interrupts disabled. -/
def kernelCpu : Cpu where
  reg r := if r = .r15 then 0x1c20 else 0
  sr := 0
  pc := 0
  sp := 0x1801
  mem _ := 0
  isrNesting := 0
  taskCurrent := 0x1c00
  ctxSp _ := 0

def kernelMachine : Machine := ⟨kernelCpu, 0x0e00, [], fun _ => none⟩

/-- The other task has been set up. -/
def createdMachine : Machine :=
  { kernelMachine with
    cpu := { kernelCpu with
      mem := Descending.store kernelCpu.mem (cell (0x1e02 + 0x0100 - 2)) (initialFrame 0x8500 7)
      ctxSp := Function.update kernelCpu.ctxSp (cell 0x1c20) (0x1e02 + 0x0100 - 28) }
    suspended := Function.update kernelMachine.suspended (cell 0x1c20)
      (some (initialContext 0x1e02 0x0100 0x8500 7)) }

/-- It has got the CPU. -/
def switchedMachine : Machine :=
  createdMachine.dispatch (createdMachine.cpu.caller 0x8600) (cell (createdMachine.cpu.reg .r15))
    { exec 0 switchTasks (createdMachine.cpu.pushWord 0x8600) with pc := 0x8480 }

/-- An ISR comes before it has left `arch_context_switch`, and picks the first task. -/
def pickedMachine : Machine :=
  { switchedMachine with
    cpu := { exec 0 archContextstoreI (switchedMachine.cpu.interrupt 0x8700) with
      taskCurrent := 0x1c00 }
    nested := [switchedMachine.cpu.context] }

def leftMachine : Machine :=
  pickedMachine.dispatch switchedMachine.cpu.context pickedMachine.cpu.task
    (exec 0 archContextrestoreI pickedMachine.cpu)

theorem pickedMachine_run : ∃ tr, (contexts twoStacks).Run tr pickedMachine := by
  have h₀ : (contexts twoStacks).start kernelMachine :=
    ⟨rfl, rfl, by decide, fun _ => rfl, by decide, by decide⟩
  have h₁ : Step twoStacks kernelMachine (.init 0x1c20 0x1e02 0x0100 0x8500 7) createdMachine :=
    .init rfl (by decide) (by decide) (by decide) rfl
  have h₂ : Step twoStacks createdMachine (.switch 0x8600) switchedMachine :=
    .switch rfl (by decide) (show 0x1000 + frames.size ≤ 0x1800 by decide)
      (Or.inr (by decide))
  have h₃ := Step.enter (L := twoStacks) (m := switchedMachine) (v := 0x8700)
    (by decide +kernel) (by unfold Machine.Room; decide +kernel)
  have h₄ := Step.pick (L := twoStacks) (m := { switchedMachine with
      cpu := exec 0 archContextstoreI (switchedMachine.cpu.interrupt 0x8700)
      nested := [switchedMachine.cpu.context] }) (x := 0x1c00)
    (List.cons_ne_nil _ _) (by decide +kernel) (Or.inr (by decide +kernel))
  exact ⟨_, ((((Run.start (M := contexts twoStacks) h₀).step h₁).step h₂).step h₃).step h₄⟩

/-- The first task continues with interrupts enabled. -/
theorem contexts_continued_enabled :
    pickedMachine.awaited .leave = some leftMachine.cpu.context ∧
      (createdMachine.cpu.caller 0x8600).sr = 0 ∧ leftMachine.cpu.context.pc = 0x8600 ∧
        leftMachine.cpu.context.sr = gie := by
  obtain ⟨tr, h⟩ := pickedMachine_run
  have hs : Step twoStacks pickedMachine .leave leftMachine := .leaveLast rfl (by decide +kernel)
  have hr := contexts_continued h hs trivial
  exact ⟨hr, by decide, by decide +kernel, by decide +kernel⟩

end RadOs.Msp430
