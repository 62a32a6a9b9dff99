import RadOs.Lib.Turns
import RadOs.Outcome

/-! # The MSP430 port

The assembler sequences of `arch_port.h` and `arch_port.c` on a model of the
CPU. Memory consists of words, and the stack pointer counts them. The variables
of the kernel that the sequences touch are kept apart from the memory:
`isr_nesting`, `task_current`, and the stack pointer at the beginning of each
`os_task_t`.
-/

namespace RadOs.Msp430
open Descending

abbrev Word := BitVec 16

/-- The number of a word in the memory. -/
abbrev Addr := BitVec 15

/-- The word at an address in bytes. The last bit of the address does not count. -/
def cell (x : Word) : Addr := (x >>> 1).setWidth 15

/-- The address of a word in bytes. -/
def bytes (a : Addr) : Word := a.setWidth 16 <<< 1

/-- The registers that the CPU has no purpose for. -/
inductive Reg where
  | r4
  | r5
  | r6
  | r7
  | r8
  | r9
  | r10
  | r11
  | r12
  | r13
  | r14
  | r15
  deriving DecidableEq

/-- The bit `GIE` of the status register. -/
def gie : Word := 0x0008

/-- `SCG1 + SCG0 + OSCOFF + CPUOFF` -/
def powerbits : Word := 0x00f0

structure Cpu where
  reg : Reg → Word
  /-- `r2` -/
  sr : Word
  pc : Word
  /-- `r1`, which is always even -/
  sp : Addr
  mem : Addr → Word
  isrNesting : Word
  taskCurrent : Word
  /-- `ctx.sp` of the task at an address -/
  ctxSp : Addr → Word

/-- `inc`, `dec` and `cmp` work on `isr_nesting`, `bic` and `bis` on the word that `r1` points to.
`movCtx` and `movCtxSp` load `task_current` into a register and into `r1`, `storeSp` and `loadSp`
access a task through a register and through `r1`. `jne` is `jnz`, and a jump skips as many
instructions as it says. -/
inductive Instr where
  | pushSr
  | popSr
  | pushm (rs : List Reg)
  | popm (rs : List Reg)
  | inc
  | dec
  | cmp (k : Word)
  | movCtx (r : Reg)
  | setCtx (r : Reg)
  | storeSp (r : Reg)
  | movCtxSp
  | loadSp
  | bic (k : Word)
  | bis (k : Word)
  | movb (k : Word) (x : Word)
  | dint
  | jnz (n : ℕ)
  | jmp (n : ℕ)
  | ret
  | reti
  deriving DecidableEq

/-- What differs between devices and builds. -/
class Device where
  /-- the flags that an instruction leaves; only `Z` and `GIE` of them matter here -/
  flags : Instr → Cpu → Word
  /-- the address of `arch_task_start` -/
  archTaskStart : Word
  /-- the address of the last instruction of `arch_context_switch` -/
  archContextSwitchRet : Word
  /-- `OS_CONFIG_APICHECK` -/
  apicheck : Bool

namespace Cpu

/-- Interrupts are enabled. -/
def enabled (s : Cpu) : Bool := s.sr.getLsbD 3

def z (s : Cpu) : Bool := s.sr.getLsbD 1

/-- The task that `task_current` points to. -/
def task (s : Cpu) : Addr := cell s.taskCurrent

def pushWord (x : Word) (s : Cpu) : Cpu :=
  { s with mem := Function.update s.mem (s.sp - 1) x, sp := s.sp - 1 }

def popReg (r : Reg) (s : Cpu) : Cpu :=
  { s with reg := Function.update s.reg r (s.mem s.sp), sp := s.sp + 1 }

def popSr (s : Cpu) : Cpu := { s with sr := s.mem s.sp, sp := s.sp + 1 }

def popPc (s : Cpu) : Cpu := { s with pc := s.mem s.sp, sp := s.sp + 1 }

/-- The word that `r1` points to is changed. -/
def setTop (x : Word) (s : Cpu) : Cpu := { s with mem := Function.update s.mem s.sp x }

/-- The CPU enters the handler at `vector`. Of the status register only `SCG0` is left. -/
def interrupt (vector : Word) (s : Cpu) : Cpu :=
  { (s.pushWord s.pc).pushWord s.sr with sr := s.sr &&& 0x0040, pc := vector }

end Cpu

section Execution
variable [Device]

/-- The flags after an arithmetic instruction. -/
def Cpu.setFlags (j : Instr) (z : Bool) (s : Cpu) : Cpu :=
  { s with sr := (Device.flags j s &&& 0x0105) ||| (if z then 0x0002 else 0) ||| (s.sr &&& 0xfef8) }

/-- One instruction that is not a jump. -/
def Instr.run (j : Instr) (s : Cpu) : Cpu :=
  match j with
  | .pushSr => s.pushWord s.sr
  | .popSr => s.popSr
  | .pushm rs => rs.foldl (fun s r => s.pushWord (s.reg r)) s
  | .popm rs => rs.foldl (fun s r => s.popReg r) s
  | .inc => { s with isrNesting := s.isrNesting + 1 }.setFlags j (s.isrNesting + 1 = 0)
  | .dec => { s with isrNesting := s.isrNesting - 1 }.setFlags j (s.isrNesting - 1 = 0)
  | .cmp k => s.setFlags j (s.isrNesting = k)
  | .movCtx r => { s with reg := Function.update s.reg r s.taskCurrent }
  | .setCtx r => { s with taskCurrent := s.reg r }
  | .storeSp r => { s with ctxSp := Function.update s.ctxSp (cell (s.reg r)) (bytes s.sp) }
  | .movCtxSp => { s with sp := cell s.taskCurrent }
  | .loadSp => { s with sp := cell (s.ctxSp s.sp) }
  | .bic k => s.setTop (s.mem s.sp &&& ~~~k)
  | .bis k => s.setTop (s.mem s.sp ||| k)
  | .movb k x =>
    { s with mem := Function.update s.mem (cell x) ((s.mem (cell x) &&& 0xff00) ||| k) }
  | .dint => { s with sr := s.sr &&& ~~~gie }
  | .jnz _ | .jmp _ | .ret | .reti => s

/-- Execute a sequence, after the first instructions have been skipped. -/
def exec : ℕ → List Instr → Cpu → Cpu
  | _, [], s => s
  | n + 1, _ :: l, s => exec n l s
  | 0, .jnz n :: l, s => exec (if s.z then 0 else n) l s
  | 0, .jmp n :: l, s => exec n l s
  | 0, .ret :: _, s => s.popPc
  | 0, .reti :: _, s => s.popSr.popPc
  | 0, j :: l, s => exec 0 l (j.run s)

/-! ## The sequences -/

/-- `pushm 12,r15` -/
def savedRegs : List Reg := [.r15, .r14, .r13, .r12, .r11, .r10, .r9, .r8, .r7, .r6, .r5, .r4]

def archContextstoreI : List Instr :=
  [.inc, .pushm savedRegs, .cmp 1, .jnz 2, .movCtx .r15, .storeSp .r15]

def archContextrestoreI : List Instr :=
  [.dint, .dec, .jnz 5, .movCtxSp, .loadSp, .popm savedRegs.reverse, .bic powerbits, .jmp 2,
    .movb 0x80 0x0a20, .popm savedRegs.reverse,
    .bis gie, .reti]

/-- All of `arch_context_switch` but its last instruction, before which an interrupt may come. The
parameter `new_task` is in `r15`. -/
def switchTasks : List Instr :=
  [.pushSr, .pushm savedRegs, .movCtx .r4, .storeSp .r4] ++
  [.setCtx .r15] ++
  [.movCtxSp, .loadSp, .popm savedRegs.reverse, .bic powerbits, .popSr]

def archContextSwitch : List Instr := switchTasks ++ [.ret]

/-- What `arch_task_init` stores, downwards. -/
def initialFrame (proc param : Word) : List Word :=
  [Device.archTaskStart, gie, proc, param, 0, 0, 0, 0, 0, 0, 0, 0, 0, 0]

/-- The first assertion denies a string, which is never null. -/
def archTaskInit (task stackParam stackSize proc param : Word) (s : Cpu) : Outcome Cpu := do
  osAssert (Device.apicheck = false)
  osAssert (Device.apicheck = false ∨ stackParam &&& 1 = 0)
  .ok { s with
    mem := store s.mem (cell (stackParam + stackSize - 2)) (initialFrame proc param)
    ctxSp := Function.update s.ctxSp (cell task) (stackParam + stackSize - 28) }

end Execution

end RadOs.Msp430
