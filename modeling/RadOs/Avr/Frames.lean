import RadOs.Avr.Cpu

/-! # Frames

What the sequences do to the CPU. The frame that `arch_contextstore_i`,
`arch_context_switch` and `arch_task_init` leave on a stack is the one that
`arch_contextrestore_i` and `arch_context_switch` take from it.
-/

namespace RadOs.Avr
open Descending

section Bits

theorem toNat_word (h l : Byte) : (word h l).toNat = 256 * h.toNat + l.toNat := by
  rw [word, BitVec.toNat_append, Nat.shiftLeft_eq, Nat.mul_comm,
    ← Nat.two_pow_add_eq_or_of_lt l.isLt]

theorem toNat_lo (x : Word) : (lo x).toNat = x.toNat % 256 := BitVec.toNat_setWidth _ _

theorem toNat_hi (x : Word) : (hi x).toNat = x.toNat / 256 := by
  rw [hi, BitVec.toNat_setWidth, BitVec.toNat_ushiftRight, Nat.shiftRight_eq_div_pow]
  omega

@[simp] theorem word_hi_lo (x : Word) : word (hi x) (lo x) = x := by
  apply BitVec.eq_of_toNat_eq
  rw [toNat_word, toNat_lo, toNat_hi]
  omega

@[simp] theorem lo_word (h l : Byte) : lo (word h l) = l := by
  apply BitVec.eq_of_toNat_eq
  rw [toNat_lo, toNat_word]
  omega

@[simp] theorem hi_word (h l : Byte) : hi (word h l) = h := by
  apply BitVec.eq_of_toNat_eq
  rw [toNat_hi, toNat_word]
  omega

theorem and_or_i {x : Byte} (h : x.getLsbD 7 = true) : (x &&& ~~~0x80) ||| 0x80 = x := by
  revert x
  decide

end Bits

/-- What the CPU needs to continue a piece of code. -/
structure Context where
  reg : Reg → Byte
  sreg : Byte
  rampz : Byte
  pc : Word
  sp : Word

section Restore
variable [Device] {s : Cpu} {c : Context} {l : List Reg} {l₁ js : List Instr}

/-- Without a `RAMPZ` the context has 0 in its place. -/
def Cpu.context (s : Cpu) : Context :=
  ⟨s.reg, s.sreg, if Device.hasRampz then s.rampz else 0, s.pc, s.sp⟩

/-- The CPU continues a context. -/
def Cpu.resume (c : Context) (s : Cpu) : Cpu :=
  { s with
    reg := c.reg
    sreg := c.sreg
    rampz := if Device.hasRampz then c.rampz else s.rampz
    pc := c.pc
    sp := c.sp }

/-- The saved context, upwards. -/
def Context.frame (c : Context) : List Byte :=
  savedRegs.reverse.map c.reg ++ (if Device.hasRampz then [c.rampz] else []) ++
    [c.sreg, c.reg 16, hi c.pc, lo c.pc]

def frameSize : ℕ := if Device.hasRampz then 36 else 35

theorem length_frame (c : Context) : c.frame.length = frameSize := by
  unfold Context.frame frameSize
  split <;> rfl

/-- The context is saved above `q`. -/
structure Framed (mem : Word → Byte) (q : Word) (c : Context) : Prop where
  above : Above mem q c.frame
  sp : c.sp = q + BitVec.ofNat 16 frameSize
  rampz : Device.hasRampz = false → c.rampz = 0

theorem context_resume (h : Device.hasRampz = false → c.rampz = 0) :
    (s.resume c).context = c := by
  cases hd : Device.hasRampz with
  | false =>
    have hz := h hd
    simp only [Cpu.context, Cpu.resume, hd, Bool.false_eq_true, if_false, ← hz]
  | true => simp [Cpu.context, Cpu.resume, hd]

/-- The bytes are pushed, the first one first. -/
def Cpu.pushes (bs : List Byte) (s : Cpu) : Cpu :=
  { s with mem := store s.mem s.sp bs, sp := s.sp - BitVec.ofNat 16 bs.length }

section Pushes
variable {bs bs' : List Byte} {x : Byte} {pc : Word}

omit [Device]

@[simp] theorem Cpu.pushes_nil : s.pushes [] = s := by simp [Cpu.pushes, store]

@[simp] theorem Cpu.pushes_pushes : (s.pushes bs).pushes bs' = s.pushes (bs ++ bs') := by
  simp only [Cpu.pushes, store_append, BitVec.sub_sub, List.length_append, BitVec.ofNat_add]

theorem Cpu.pushes_cons : s.pushes (x :: bs) = (s.pushByte x).pushes bs := by
  rw [← List.singleton_append, ← Cpu.pushes_pushes]
  rfl

/-- Nothing is written but the cells below the stack pointer. -/
theorem Cpu.mem_pushes {b : ℕ} {a : Word} (hb : b + bs.length ≤ s.sp.toNat)
    (ha : a.toNat ≤ b ∨ s.sp.toNat < a.toNat) : (s.pushes bs).mem a = s.mem a :=
  store_outside (by omega) (by omega)

theorem Cpu.pushPc_eq : s.pushPc pc = s.pushes [lo pc, hi pc] := by
  rw [Cpu.pushes_cons, Cpu.pushes_cons, Cpu.pushes_nil, Cpu.pushPc]

end Pushes

/-- The registers and the flags are overwritten. -/
def Cpu.scratch (g : Reg → Byte) (f : Byte) (s : Cpu) : Cpu := { s with reg := g, sreg := f }

section Scratch
variable {g g' : Reg → Byte} {f f' : Byte} {bs : List Byte} {v : Word}

omit [Device]

@[simp] theorem Cpu.reg_scratch : (s.scratch g f).reg = g := rfl
@[simp] theorem Cpu.sreg_scratch : (s.scratch g f).sreg = f := rfl
@[simp] theorem Cpu.rampz_scratch : (s.scratch g f).rampz = s.rampz := rfl
@[simp] theorem Cpu.rampz_pushes : (s.pushes bs).rampz = s.rampz := rfl

@[simp] theorem Cpu.scratch_scratch : (s.scratch g f).scratch g' f' = s.scratch g' f' := rfl

@[simp] theorem Cpu.pushes_scratch : (s.scratch g f).pushes bs = (s.pushes bs).scratch g f := rfl

theorem Cpu.interrupt_eq : s.interrupt v =
    ({ s with pc := v }.pushes [lo s.pc, hi s.pc]).scratch s.reg (s.sreg &&& 0x7f) := by
  rw [Cpu.pushes_cons, Cpu.pushes_cons, Cpu.pushes_nil]
  rfl

end Scratch

omit [Device] in
theorem mem_savedRegs (r : Reg) : r ∈ savedRegs ↔ r ≠ 16 := by
  revert r
  decide

/-- Whether the instruction goes on with the next one. -/
def Instr.straight : Instr → Bool
  | .sbrc _ _ | .brne _ | .rjmp _ | .ret | .reti => false
  | _ => true

/-- A sequence up to its first branch. -/
theorem exec_straight (h : l₁.all Instr.straight = true) :
    exec 0 (l₁ ++ js) s = exec 0 js (l₁.foldl (fun s j => j.run s) s) := by
  induction l₁ generalizing s with
  | nil => rfl
  | cons j l₁ ih =>
    obtain ⟨hj, hl⟩ := Bool.and_eq_true_iff.mp h
    rw [List.cons_append, List.foldl_cons, ← ih hl]
    cases j <;> first | rfl | cases hj

theorem exec_pops {f : Reg → Byte} {bs : List Byte}
    (h : Above s.mem s.sp (l.map f ++ bs)) :
    exec 0 (l.map .pop ++ js) s = exec 0 js { s with
      reg := fun r => if r ∈ l then f r else s.reg r
      sp := s.sp + BitVec.ofNat 16 l.length } := by
  induction l generalizing s with
  | nil => simp
  | cons r l ih =>
    obtain ⟨hr, hl⟩ := h
    change exec 0 (l.map .pop ++ js) ({ s with sp := s.sp + 1 }.setReg r (s.mem (s.sp + 1))) = _
    rw [ih hl]
    congr 1
    simp only [Cpu.setReg, List.length_cons, ofNat_succ, BitVec.add_assoc, Cpu.mk.injEq, and_true]
    funext r'
    rw [hr]
    by_cases hr' : r' = r
    · simp [hr']
    · simp [hr']

theorem exec_pushes : exec 0 (l.map .push ++ js) s = exec 0 js (s.pushes (l.map s.reg)) := by
  induction l generalizing s with
  | nil => simp
  | cons r l ih =>
    change exec 0 (l.map .push ++ js) (s.pushByte (s.reg r)) = _
    rw [ih, List.map_cons, Cpu.pushes_cons]
    rfl

/-- The end of the frame, where the status register decides how to return. -/
theorem exec_return (h : Above s.mem s.sp [c.sreg, c.reg 16, hi c.pc, lo c.pc])
    (hr : ∀ r, r ≠ 16 → s.reg r = c.reg r) :
    exec 0 [.pop 16, .sbrc 16 7, .rjmp 3, .out .sreg 16, .pop 16, .ret,
      .cbr 16 0x80, .out .sreg 16, .pop 16, .reti] s =
    { s with reg := c.reg, sreg := c.sreg, pc := c.pc, sp := s.sp + 4 } := by
  obtain ⟨h₁, h₂, h₃, h₄, -⟩ := h
  have hreg : Function.update s.reg 16 (c.reg 16) = c.reg := by
    funext r
    by_cases h : r = 16
    · simp [h]
    · simp [h, hr r h]
  have hsp : s.sp + 1 + 1 + 1 + 1 = s.sp + 4 := by
    simp only [BitVec.add_assoc]
    rfl
  rw [hsp] at h₄
  cases hc : c.sreg.getLsbD 7 with
  | false =>
    simp only [exec, Instr.run, Cpu.setReg, Cpu.setIo, Cpu.popPc, Function.update_self,
      Function.update_idem, h₁, h₂, h₃, h₄, hc, hreg, hsp, Bool.false_eq_true, if_false,
      word_hi_lo]
  | true =>
    simp only [exec, Instr.run, Cpu.setReg, Cpu.setIo, Cpu.popPc, Cpu.setI, Cpu.setFlags,
      Function.update_self, Function.update_idem, h₁, h₂, h₃, h₄, hc, hreg, hsp, if_true,
      word_hi_lo, and_or_i hc]

/-- A context is taken from its frame. -/
theorem exec_restoreRegs (h : Framed s.mem s.sp c) : exec 0 restoreRegs s = s.resume c := by
  obtain ⟨h, hsp, -⟩ := h
  simp only [Context.frame, List.append_assoc] at h
  have hrest := (above_append.mp h).2
  have hreg : ∀ r, r ≠ 16 → (if r ∈ savedRegs.reverse then c.reg r else s.reg r) = c.reg r := by
    intro r hr
    rw [if_pos (by simpa [mem_savedRegs] using hr)]
  rw [restoreRegs, List.append_assoc, exec_pops h, Cpu.resume, hsp]
  rw [List.length_map] at hrest
  unfold archPopRampz frameSize
  cases hd : Device.hasRampz with
  | false =>
    rw [hd] at hrest
    simp only [Bool.false_eq_true, if_false, List.nil_append] at hrest ⊢
    rw [exec_return hrest hreg, BitVec.add_assoc]
    rfl
  | true =>
    rw [hd] at hrest
    simp only [if_true, List.singleton_append] at hrest ⊢
    obtain ⟨hz, hrest⟩ := hrest
    rw [exec_straight rfl]
    simp only [List.foldl, Instr.run, Cpu.setReg, Cpu.setIo, Function.update_self]
    rw [exec_return hrest]
    · rw [← hz]
      simp only [BitVec.add_assoc]
      rfl
    · intro r hr
      simp only [Function.update_of_ne hr]
      exact hreg r hr

end Restore

end RadOs.Avr
