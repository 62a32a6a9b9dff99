import Mathlib.Algebra.GroupWithZero.Nat
import RadOs.Lib.Descending

/-! # The AVR port

The assembler sequences of `arch_port.h` and `arch_port.c` on a model of the
CPU. The stacks of the tasks lie in the data memory. The variables of the kernel
that the sequences touch are kept apart from it: `isr_nesting`, `task_current`,
and the stack pointer at the beginning of each `os_task_t`.
-/

namespace RadOs.Avr
open Descending

abbrev Byte := BitVec 8
abbrev Word := BitVec 16
abbrev Reg := Fin 32

instance neZero_reg : NeZero 32 := ⟨by decide⟩

instance lawfulBEq_reg : LawfulBEq Reg := inferInstance

def lo (x : Word) : Byte := x.setWidth 8
def hi (x : Word) : Byte := (x >>> 8).setWidth 8
def word (h l : Byte) : Word := h ++ l

structure Cpu where
  reg : Reg → Byte
  sreg : Byte
  rampz : Byte
  sp : Word
  pc : Word
  mem : Word → Byte
  isrNesting : Byte
  taskCurrent : Word
  /-- `ctx.sp` of the task at an address -/
  ctxSp : Word → Word

/-- Registers in the I/O space. -/
inductive Io where
  | sreg
  | rampz
  | spl
  | sph
  deriving DecidableEq

/-- The bytes of the variables. -/
inductive Var where
  | isrNesting
  | taskCurrent
  | taskCurrent1
  deriving DecidableEq

/-- `st`, `std`, `ld` and `ldd` address a task through `Z` and `Z+1`. A branch skips as many
instructions as it says. -/
inductive Instr where
  | push (r : Reg)
  | pop (r : Reg)
  | in_ (r : Reg) (io : Io)
  | out (io : Io) (r : Reg)
  | lds (r : Reg) (v : Var)
  | sts (v : Var) (r : Reg)
  | st (r : Reg)
  | std (r : Reg)
  | ld (r : Reg)
  | ldd (r : Reg)
  | sbr (r : Reg) (k : Byte)
  | cbr (r : Reg) (k : Byte)
  | eor (r r' : Reg)
  | inc (r : Reg)
  | dec (r : Reg)
  | cpi (r : Reg) (k : Byte)
  | sbiw (r : Reg) (k : Word)
  | movw (r r' : Reg)
  | cli
  | sbrc (r : Reg) (b : ℕ)
  | brne (n : ℕ)
  | rjmp (n : ℕ)
  | ret
  | reti
  deriving DecidableEq

/-- What differs between devices. -/
class Device where
  /-- `__AVR_HAVE_RAMPZ__` -/
  hasRampz : Bool
  /-- the flags that an instruction leaves; only `Z` and `I` of them matter here -/
  flags : Instr → Cpu → Byte
  /-- the address of `arch_task_start` -/
  archTaskStart : Word

namespace Cpu

/-- The interrupt flag, `SREG_I`. -/
def i (s : Cpu) : Bool := s.sreg.getLsbD 7

def z (s : Cpu) : Bool := s.sreg.getLsbD 1

/-- The register pair `r`, `r + 1`. -/
def pair (s : Cpu) (r : Reg) : Word := word (s.reg (r + 1)) (s.reg r)

def setReg (r : Reg) (b : Byte) (s : Cpu) : Cpu := { s with reg := Function.update s.reg r b }

def setPair (r : Reg) (x : Word) (s : Cpu) : Cpu := (s.setReg r (lo x)).setReg (r + 1) (hi x)

def getIo (s : Cpu) : Io → Byte
  | .sreg => s.sreg
  | .rampz => s.rampz
  | .spl => lo s.sp
  | .sph => hi s.sp

def setIo (b : Byte) (s : Cpu) : Io → Cpu
  | .sreg => { s with sreg := b }
  | .rampz => { s with rampz := b }
  | .spl => { s with sp := word (hi s.sp) b }
  | .sph => { s with sp := word b (lo s.sp) }

def getVar (s : Cpu) : Var → Byte
  | .isrNesting => s.isrNesting
  | .taskCurrent => lo s.taskCurrent
  | .taskCurrent1 => hi s.taskCurrent

def setVar (b : Byte) (s : Cpu) : Var → Cpu
  | .isrNesting => { s with isrNesting := b }
  | .taskCurrent => { s with taskCurrent := word (hi s.taskCurrent) b }
  | .taskCurrent1 => { s with taskCurrent := word b (lo s.taskCurrent) }

def setCtxSp (x : Word) (s : Cpu) : Cpu := { s with ctxSp := Function.update s.ctxSp (s.pair 30) x }

def pushByte (b : Byte) (s : Cpu) : Cpu :=
  { s with mem := Function.update s.mem s.sp b, sp := s.sp - 1 }

/-- A return address is pushed with its low byte first. -/
def pushPc (pc : Word) (s : Cpu) : Cpu := (s.pushByte (lo pc)).pushByte (hi pc)

def popPc (s : Cpu) : Cpu :=
  { s with pc := word (s.mem (s.sp + 1)) (s.mem (s.sp + 1 + 1)), sp := s.sp + 1 + 1 }

def setI (s : Cpu) : Cpu := { s with sreg := s.sreg ||| 0x80 }

def clearI (s : Cpu) : Cpu := { s with sreg := s.sreg &&& 0x7f }

/-- The CPU enters the handler at `vector`. -/
def interrupt (vector : Word) (s : Cpu) : Cpu := { (s.pushPc s.pc).clearI with pc := vector }

end Cpu

section Execution
variable [Device]

/-- The flags after an arithmetic instruction. The interrupt flag is not among them. -/
def Cpu.setFlags (j : Instr) (z : Bool) (s : Cpu) : Cpu :=
  { s with sreg := (Device.flags j s &&& 0x7d) ||| (if z then 0x02 else 0) ||| (s.sreg &&& 0x80) }

/-- One instruction that is not a branch. -/
def Instr.run (j : Instr) (s : Cpu) : Cpu :=
  match j with
  | .push r => s.pushByte (s.reg r)
  | .pop r => { s with sp := s.sp + 1 }.setReg r (s.mem (s.sp + 1))
  | .in_ r io => s.setReg r (s.getIo io)
  | .out io r => s.setIo (s.reg r) io
  | .lds r v => s.setReg r (s.getVar v)
  | .sts v r => s.setVar (s.reg r) v
  | .st r => s.setCtxSp (word (hi (s.ctxSp (s.pair 30))) (s.reg r))
  | .std r => s.setCtxSp (word (s.reg r) (lo (s.ctxSp (s.pair 30))))
  | .ld r => s.setReg r (lo (s.ctxSp (s.pair 30)))
  | .ldd r => s.setReg r (hi (s.ctxSp (s.pair 30)))
  | .sbr r k => (s.setReg r (s.reg r ||| k)).setFlags j (s.reg r ||| k = 0)
  | .cbr r k => (s.setReg r (s.reg r &&& ~~~k)).setFlags j (s.reg r &&& ~~~k = 0)
  | .eor r r' => (s.setReg r (s.reg r ^^^ s.reg r')).setFlags j (s.reg r ^^^ s.reg r' = 0)
  | .inc r => (s.setReg r (s.reg r + 1)).setFlags j (s.reg r + 1 = 0)
  | .dec r => (s.setReg r (s.reg r - 1)).setFlags j (s.reg r - 1 = 0)
  | .cpi r k => s.setFlags j (s.reg r = k)
  | .sbiw r k => (s.setPair r (s.pair r - k)).setFlags j (s.pair r - k = 0)
  | .movw r r' => s.setPair r (s.pair r')
  | .cli => s.clearI
  | .sbrc _ _ | .brne _ | .rjmp _ | .ret | .reti => s

/-- Execute a sequence, after the first instructions have been skipped. -/
def exec : ℕ → List Instr → Cpu → Cpu
  | _, [], s => s
  | n + 1, _ :: l, s => exec n l s
  | 0, .sbrc r b :: l, s => exec (if (s.reg r).getLsbD b then 0 else 1) l s
  | 0, .brne n :: l, s => exec (if s.z then 0 else n) l s
  | 0, .rjmp n :: l, s => exec n l s
  | 0, .ret :: _, s => s.popPc
  | 0, .reti :: _, s => s.popPc.setI
  | 0, j :: l, s => exec 0 l (j.run s)

/-! ## The sequences -/

/-- The registers that `arch_context_switch` saves too. -/
def keptRegs : List Reg := [28, 29, 0, 1, 2, 3, 4, 5, 6, 7, 8, 9, 10, 11, 12, 13, 14, 15, 17]

/-- The registers for which it leaves room. -/
def skippedRegs : List Reg := [18, 19, 20, 21, 22, 23, 24, 25, 26, 27, 30, 31]

/-- The registers in the order in which `arch_contextstore_i` saves them, behind `r16`. -/
def savedRegs : List Reg := keptRegs ++ skippedRegs

def archPushRampz : List Instr :=
  if Device.hasRampz then [.in_ 16 .rampz, .push 16] else []

def archPopRampz : List Instr :=
  if Device.hasRampz then [.pop 16, .out .rampz 16] else []

def archContextstoreI : List Instr :=
  [.push 16, .in_ 16 .sreg, .sbr 16 0x80, .push 16] ++ archPushRampz ++ savedRegs.map .push ++
  [.lds 16 .isrNesting, .inc 16, .sts .isrNesting 16] ++
  [.in_ 28 .spl, .in_ 29 .sph, .eor 1 1, .cpi 16 1] ++
  [.brne 4, .lds 30 .taskCurrent, .lds 31 .taskCurrent1, .st 28, .std 29]

/-- The end of `arch_contextrestore_i` and of `arch_context_switch`. -/
def restoreRegs : List Instr :=
  savedRegs.reverse.map .pop ++ archPopRampz ++
  [.pop 16, .sbrc 16 7, .rjmp 3,
    .out .sreg 16, .pop 16, .ret,
    .cbr 16 0x80, .out .sreg 16, .pop 16, .reti]

def archContextrestoreI : List Instr :=
  [.cli, .lds 16 .isrNesting, .dec 16, .sts .isrNesting 16] ++
  [.brne 6, .lds 30 .taskCurrent, .lds 31 .taskCurrent1, .ld 16, .ldd 17, .out .spl 16,
    .out .sph 17] ++
  restoreRegs

/-- The parameter `new_task` is in the registers `p` and `p + 1`. -/
def archContextSwitch (p : Reg) : List Instr :=
  [.push 16, .eor 16 16, .push 16] ++ archPushRampz ++ keptRegs.map .push ++
  [.in_ 28 .spl, .in_ 29 .sph, .sbiw 28 12,
    .lds 30 .taskCurrent, .lds 31 .taskCurrent1, .st 28, .std 29] ++
  [.sts .taskCurrent p, .sts .taskCurrent1 (p + 1),
    .movw 30 p, .ld 28, .ldd 29, .out .spl 28, .out .sph 29] ++
  restoreRegs

/-- What `arch_task_init` stores, downwards. -/
def initialFrame (stackParam stackSize proc param : Word) : List Byte :=
  [lo Device.archTaskStart, hi Device.archTaskStart, 0, 0x80] ++
  (if Device.hasRampz then [0] else []) ++
  [lo (stackParam + stackSize - 3), hi (stackParam + stackSize - 3),
    0, 0, 0, 0, 0, 0, 0, 0, 0, 0, 0, 0, 0, 0, 0, 0,
    0, 0, 0, 0, 0, lo param, hi param, lo proc, hi proc, 0, 0, 0, 0]

def archTaskInit (task stackParam stackSize proc param : Word) (s : Cpu) : Cpu :=
  let stack := stackParam + stackSize - 1
  let frame := initialFrame stackParam stackSize proc param
  { s with
    mem := store s.mem stack frame
    ctxSp := Function.update s.ctxSp task (stack - BitVec.ofNat 16 frame.length) }

end Execution

end RadOs.Avr
