import RadOs.Msp430.Cpu

/-! # Frames

What the sequences do to the CPU. `arch_contextstore_i`, `arch_context_switch`
and `arch_task_init` leave the same frame on a stack, `arch_contextrestore_i`
and `arch_context_switch` take it from there. The status register is changed in
the frame before it is loaded.
-/

namespace RadOs.Msp430
open Descending Turns

section Addresses
variable {x : Word} {a : Addr}

theorem toNat_cell (x : Word) : (cell x).toNat = x.toNat / 2 := by
  rw [cell, BitVec.toNat_setWidth, BitVec.toNat_ushiftRight, Nat.shiftRight_eq_div_pow]
  omega

theorem toNat_bytes (a : Addr) : (bytes a).toNat = 2 * a.toNat := by
  rw [bytes, BitVec.toNat_shiftLeft, BitVec.toNat_setWidth, Nat.shiftLeft_eq]
  omega

@[simp] theorem cell_bytes (a : Addr) : cell (bytes a) = a := by
  apply BitVec.eq_of_toNat_eq
  rw [toNat_cell, toNat_bytes]
  omega

theorem cell_sub_frame (x : Word) : cell (x - 28) = cell (x - 2) - 13 := by
  apply BitVec.eq_of_toNat_eq
  rw [toNat_cell, BitVec.toNat_sub, BitVec.toNat_sub, toNat_cell, BitVec.toNat_sub]
  change (2 ^ 16 - 28 + x.toNat) % 2 ^ 16 / 2 =
    (2 ^ 15 - 13 + (2 ^ 16 - 2 + x.toNat) % 2 ^ 16 / 2) % 2 ^ 15
  omega

end Addresses

/-- What the CPU needs to continue a piece of code. -/
structure Context where
  reg : Reg → Word
  sr : Word
  pc : Word
  sp : Addr

def Cpu.context (s : Cpu) : Context := ⟨s.reg, s.sr, s.pc, s.sp⟩

/-- The CPU continues a context. -/
def Cpu.resume (c : Context) (s : Cpu) : Cpu :=
  { s with reg := c.reg, sr := c.sr, pc := c.pc, sp := c.sp }

/-- The saved context, upwards. -/
def Context.frame (c : Context) : List Word := savedRegs.reverse.map c.reg ++ [c.sr, c.pc]

def frames : Layout 15 Word Context where
  size := 14
  frame := Context.frame
  length_frame _ := rfl
  free c := c.sp - 1

/-- The context with the power enabled. -/
def Context.powered (c : Context) : Context := { c with sr := c.sr &&& ~~~powerbits }

/-- The context with interrupts enabled. -/
def Context.interruptible (c : Context) : Context := { c with sr := c.sr ||| gie }

theorem mem_savedRegs (r : Reg) : r ∈ savedRegs := by
  cases r <;> decide

variable {s : Cpu} {c : Context} {xs ys : List Word} {x v : Word} {rs : List Reg} {q a : Addr}
  {mem : Addr → Word}

/-! ## Pushes and pops -/

/-- The words are pushed, the first one first. -/
def Cpu.pushes (xs : List Word) (s : Cpu) : Cpu :=
  { s with mem := store s.mem (s.sp - 1) xs, sp := s.sp - BitVec.ofNat 15 xs.length }

@[simp] theorem Cpu.pushes_nil : s.pushes [] = s := by simp [Cpu.pushes, store]

theorem Cpu.pushes_cons : s.pushes (x :: xs) = (s.pushWord x).pushes xs := by
  simp only [Cpu.pushes, Cpu.pushWord, store, List.length_cons, ofNat_succ, BitVec.sub_sub]

@[simp] theorem Cpu.pushes_pushes : (s.pushes xs).pushes ys = s.pushes (xs ++ ys) := by
  induction xs generalizing s with
  | nil => simp
  | cons x xs ih => rw [List.cons_append, pushes_cons, pushes_cons, ih]

section Runs
variable [Device]

theorem run_pushm : (Instr.pushm rs).run s = s.pushes (rs.map s.reg) := by
  change rs.foldl (fun s r => s.pushWord (s.reg r)) s = _
  induction rs generalizing s with
  | nil => simp
  | cons r rs ih =>
    rw [List.foldl_cons, ih, List.map_cons, Cpu.pushes_cons]
    rfl

theorem run_popm {f : Reg → Word} (h : Above s.mem (s.sp - 1) (rs.map f ++ xs)) :
    (Instr.popm rs).run s = { s with
      reg := fun r => if r ∈ rs then f r else s.reg r
      sp := s.sp + BitVec.ofNat 15 rs.length } := by
  change rs.foldl (fun s r => s.popReg r) s = _
  induction rs generalizing s with
  | nil => simp
  | cons r rs ih =>
    obtain ⟨hr, hl⟩ := h
    rw [BitVec.sub_add_cancel] at hr hl
    have hsp : (s.popReg r).sp - 1 = s.sp := BitVec.add_sub_cancel _ _
    rw [List.foldl_cons, ih (by rw [hsp]; exact hl)]
    simp only [Cpu.popReg, List.length_cons, ofNat_succ, BitVec.add_assoc, Cpu.mk.injEq, and_true]
    funext r'
    rw [hr]
    by_cases hr' : r' = r
    · simp [hr']
    · simp [hr']

@[simp] theorem z_setFlags {j : Instr} {b : Bool} : (s.setFlags j b).z = b := by
  have h : ∀ x y : Word, ((x &&& 0x0105) ||| (if b then 0x0002 else 0) |||
      (y &&& 0xfef8)).getLsbD 1 = b := by
    intro x y
    cases b <;> simp
  exact h _ _

/-! ## Saving a context -/

omit [Device] in
theorem reverse_frame (c : Context) : c.frame.reverse = [c.pc, c.sr] ++ savedRegs.map c.reg := by
  simp [Context.frame]

omit [Device] in
theorem sp_pushes_frame : (s.pushes c.frame.reverse).sp = s.sp - 14 := by
  rw [Cpu.pushes, List.length_reverse]
  rfl

omit [Device] in
theorem framed_pushes (hc : c.sp = s.sp) (h : frames.size ≤ (s.sp - 1).toNat) :
    frames.Framed (s.pushes c.frame.reverse).mem (frames.base c) c := by
  rw [Cpu.pushes, ← hc]
  rw [← hc] at h
  exact Layout.framed_store (F := frames) s.mem h

omit [Device] in
/-- Nothing is written but the cells below the stack pointer. -/
theorem mem_pushes_frame {b : ℕ} (h : b + frames.size ≤ (s.sp - 1).toNat)
    (ha : a.toNat ≤ b ∨ (s.sp - 1).toNat < a.toNat) :
    (s.pushes c.frame.reverse).mem a = s.mem a := by
  have hlen : c.frame.reverse.length = frames.size := List.length_reverse
  exact store_outside (by omega) (by omega)

/-- An ISR counts itself and saves the context that it has interrupted. -/
theorem exec_save : ∃ f : Word, f.getLsbD 1 = decide (s.isrNesting + 1 = 1) ∧ ∀ js,
    exec 0 ([.inc, .pushm savedRegs, .cmp 1] ++ js) (s.interrupt v) =
      exec 0 js { s.pushes s.context.frame.reverse with
        sr := f
        pc := v
        isrNesting := s.isrNesting + 1 } := by
  let s₀ : Cpu := Instr.run .inc (s.interrupt v)
  have hp : Instr.run (.pushm savedRegs) s₀ = { s.pushes s.context.frame.reverse with
      sr := s₀.sr
      pc := v
      isrNesting := s.isrNesting + 1 } := by
    rw [run_pushm, reverse_frame, ← Cpu.pushes_pushes]
    simp only [Cpu.pushes_cons, Cpu.pushes_nil]
    rfl
  refine ⟨(Instr.run (.cmp 1) (Instr.run (.pushm savedRegs) s₀)).sr, ?_, fun js => ?_⟩
  · rw [hp]
    exact z_setFlags
  · change exec 0 js (Instr.run (.cmp 1) (Instr.run (.pushm savedRegs) s₀)) = _
    rw [hp]
    rfl

/-- The outermost ISR saves the stack pointer of the task as well. -/
theorem exec_contextstore : ∃ g f, exec 0 archContextstoreI (s.interrupt v) =
    { s.pushes s.context.frame.reverse with
      reg := g
      sr := f
      pc := v
      isrNesting := s.isrNesting + 1
      ctxSp := if s.isrNesting + 1 = 1 then
        Function.update s.ctxSp s.task (bytes (s.sp - 14)) else s.ctxSp } := by
  obtain ⟨f, hz, he⟩ := exec_save (s := s) (v := v)
  have h := he [.jnz 2, .movCtx .r15, .storeSp .r15]
  by_cases hn : s.isrNesting + 1 = 1
  · refine ⟨Function.update s.reg .r15 s.taskCurrent, f, ?_⟩
    rw [hn, decide_eq_true rfl] at hz
    rw [if_pos hn, ← sp_pushes_frame (c := s.context)]
    refine h.trans ?_
    simp only [exec, Cpu.z, hz, if_true, Instr.run, Function.update_self]
    rfl
  · refine ⟨s.reg, f, ?_⟩
    rw [decide_eq_false hn] at hz
    rw [if_neg hn]
    refine h.trans ?_
    simp only [exec, Cpu.z, hz, Bool.false_eq_true, if_false]
    rfl

/-! ## Taking a context up again -/

omit [Device] in
theorem framed_sp (h : frames.Framed mem (q - 1) c) : c.sp = q + 14 := by
  have hq : c.sp - 1 = q - 1 + 14 := h.free
  bv_omega

/-- The registers have been loaded, and `r1` points to the status register in the frame. -/
structure Poised (c : Context) (s : Cpu) : Prop where
  reg : s.reg = c.reg
  sp : s.sp = c.sp - 2
  sr : s.mem s.sp = c.sr
  pc : s.mem (s.sp + 1) = c.pc

/-- The frame is left but for its last two words. -/
theorem run_popm_frame (h : frames.Framed s.mem (s.sp - 1) c) :
    Instr.run (.popm savedRegs.reverse) s = { s with reg := c.reg, sp := c.sp - 2 } ∧
      Poised c { s with reg := c.reg, sp := c.sp - 2 } := by
  have hsp := framed_sp h
  have hc : c.sp - 2 = s.sp + 12 := by
    rw [hsp]
    bv_omega
  have hrest := (above_append.mp h.above).2
  rw [List.length_map] at hrest
  have hq : s.sp - 1 + BitVec.ofNat 15 savedRegs.reverse.length + 1 = s.sp + 12 := by
    change s.sp - 1 + 12 + 1 = s.sp + 12
    bv_omega
  obtain ⟨hsr, hpc, -⟩ := hrest
  rw [hq] at hsr hpc
  have hreg : (fun r => if r ∈ savedRegs.reverse then c.reg r else s.reg r) = c.reg :=
    funext fun r => if_pos (List.mem_reverse.mpr (mem_savedRegs r))
  rw [run_popm h.above, hreg, hc]
  exact ⟨rfl, rfl, hc.symm, hsr, hpc⟩

omit [Device] in
theorem Poised.setTop (h : Poised c s) (x : Word) : Poised { c with sr := x } (s.setTop x) := by
  refine ⟨h.reg, h.sp, Function.update_self .., ?_⟩
  have hne : s.sp + 1 ≠ s.sp := by
    bv_omega
  exact (Function.update_of_ne hne _ _).trans h.pc

theorem Poised.bic (h : Poised c s) : Poised c.powered (Instr.run (.bic powerbits) s) := by
  rw [Context.powered, ← h.sr]
  exact h.setTop _

theorem Poised.bis (h : Poised c s) : Poised c.interruptible (Instr.run (.bis gie) s) := by
  rw [Context.interruptible, ← h.sr]
  exact h.setTop _

theorem Poised.reti (h : Poised c s) : exec 0 [.reti] s = s.resume c := by
  change { s with sr := s.mem s.sp, pc := s.mem (s.sp + 1), sp := s.sp + 1 + 1 } = s.resume c
  have hsp : s.sp + 1 + 1 = c.sp := by
    rw [h.sp]
    bv_omega
  rw [h.sr, h.pc, hsp, Cpu.resume, h.reg]

/-- The outermost ISR returns to the task whose turn it is. -/
theorem exec_contextrestore_last (hn : s.isrNesting - 1 = 0)
    (h : frames.Framed s.mem (cell (s.ctxSp s.task) - 1) c) :
    ∃ mem', (∀ a, a ≠ c.sp - 2 → mem' a = s.mem a) ∧ exec 0 archContextrestoreI s =
      { s with isrNesting := s.isrNesting - 1, mem := mem' }.resume c.powered.interruptible := by
  let s₀ : Cpu := Instr.run .dec (Instr.run .dint s)
  let s₁ : Cpu := Instr.run .loadSp (Instr.run .movCtxSp s₀)
  have hz : s₀.z = true := by
    refine z_setFlags.trans ?_
    change decide (s.isrNesting - 1 = 0) = true
    rw [hn]
    rfl
  obtain ⟨hpop, hp⟩ := run_popm_frame (s := s₁) h
  have he : exec 0 archContextrestoreI s = exec (if s₀.z then 0 else 5) [.movCtxSp, .loadSp,
    .popm savedRegs.reverse, .bic powerbits, .jmp 2, .movb 0x80 0x0a20, .popm savedRegs.reverse,
    .bis gie, .reti] s₀ := rfl
  let s₂ : Cpu := Instr.run (.bis gie)
    (Instr.run (.bic powerbits) { s₁ with reg := c.reg, sp := c.sp - 2 })
  refine ⟨s₂.mem, fun a ha => ?_, ?_⟩
  · change Function.update (Function.update s.mem (c.sp - 2) _) (c.sp - 2) _ a = _
    rw [Function.update_of_ne ha, Function.update_of_ne ha]
  · rw [he, hz, if_pos rfl]
    change exec 0 [.reti] (Instr.run (.bis gie) (Instr.run (.bic powerbits)
      (Instr.run (.popm savedRegs.reverse) s₁))) = _
    rw [hpop, hp.bic.bis.reti]
    rfl

/-- An ISR inside another one returns to it. -/
theorem exec_contextrestore_nested (hn : s.isrNesting - 1 ≠ 0)
    (h : frames.Framed s.mem (s.sp - 1) c) (hs : (s.sp - 1).toNat + 14 < 2 ^ 15)
    (ha : ¬ frames.Inside (s.sp - 1) (cell 0x0a20)) :
    ∃ mem', (∀ a, a ≠ c.sp - 2 → a ≠ cell 0x0a20 → mem' a = s.mem a) ∧
      exec 0 archContextrestoreI s =
        { s with isrNesting := s.isrNesting - 1, mem := mem' }.resume c.interruptible := by
  let s₀ : Cpu := Instr.run .dec (Instr.run .dint s)
  let s₁ : Cpu := Instr.run (.movb 0x80 0x0a20) s₀
  have hz : s₀.z = false := by
    refine z_setFlags.trans ?_
    exact decide_eq_false hn
  have hf : frames.Framed s₁.mem (s₁.sp - 1) c := by
    refine h.congr hs fun a hi => Function.update_of_ne ?_ _ _
    rintro rfl
    exact ha hi
  obtain ⟨hpop, hp⟩ := run_popm_frame hf
  have he : exec 0 archContextrestoreI s = exec (if s₀.z then 0 else 5) [.movCtxSp, .loadSp,
    .popm savedRegs.reverse, .bic powerbits, .jmp 2, .movb 0x80 0x0a20, .popm savedRegs.reverse,
    .bis gie, .reti] s₀ := rfl
  let s₂ : Cpu := Instr.run (.bis gie) { s₁ with reg := c.reg, sp := c.sp - 2 }
  refine ⟨s₂.mem, fun a ha₁ ha₂ => ?_, ?_⟩
  · change Function.update (Function.update s.mem (cell 0x0a20) _) (c.sp - 2) _ a = _
    rw [Function.update_of_ne ha₁, Function.update_of_ne ha₂]
  · rw [he, hz]
    change exec 0 [.reti] (Instr.run (.bis gie) (Instr.run (.popm savedRegs.reverse) s₁)) = _
    rw [hpop, hp.bis.reti]
    rfl

/-! ## Changing tasks -/

/-- The context in which a caller of `arch_context_switch` goes on. -/
def Cpu.caller (ret : Word) (s : Cpu) : Context := { s.context with pc := ret }

/-- The CPU after the context of the caller has been saved. -/
def Cpu.switched (ret : Word) (s : Cpu) : Cpu :=
  { s.pushes (s.caller ret).frame.reverse with
    taskCurrent := s.reg .r15
    ctxSp := Function.update s.ctxSp s.task (bytes (s.sp - 14)) }

theorem exec_saveCaller (ret : Word) (js : List Instr) : ∃ g,
    exec 0 ([.pushSr, .pushm savedRegs, .movCtx .r4, .storeSp .r4] ++ [.setCtx .r15] ++ js)
        (s.pushWord ret) =
      exec 0 js { s.switched ret with reg := g } := by
  have hp : Instr.run (.pushm savedRegs) (Instr.run .pushSr (s.pushWord ret)) =
      s.pushes (s.caller ret).frame.reverse := by
    rw [run_pushm, reverse_frame, ← Cpu.pushes_pushes]
    simp only [Cpu.pushes_cons, Cpu.pushes_nil]
    rfl
  refine ⟨Function.update s.reg .r4 s.taskCurrent, ?_⟩
  change exec 0 js (Instr.run (.setCtx .r15) (Instr.run (.storeSp .r4) (Instr.run (.movCtx .r4)
    (Instr.run (.pushm savedRegs) (Instr.run .pushSr (s.pushWord ret)))))) = _
  rw [hp, Cpu.switched, ← sp_pushes_frame (c := s.caller ret)]
  simp only [Instr.run, Function.update_self]
  rfl

/-- `arch_context_switch` is about to return to the new task. -/
theorem exec_switchTasks (ret : Word)
    (h : frames.Framed (s.switched ret).mem
      (cell ((s.switched ret).ctxSp (cell (s.reg .r15))) - 1) c) :
    ∃ mem', (∀ a, a ≠ c.sp - 2 → mem' a = (s.switched ret).mem a) ∧ mem' (c.sp - 1) = c.pc ∧
      exec 0 switchTasks (s.pushWord ret) =
        { s.switched ret with
          mem := mem'
          reg := c.reg
          sr := c.powered.sr
          sp := c.sp - 1 } := by
  obtain ⟨g, he⟩ := exec_saveCaller (s := s) ret
    [.movCtxSp, .loadSp, .popm savedRegs.reverse, .bic powerbits, .popSr]
  let s₁ : Cpu := Instr.run .loadSp (Instr.run .movCtxSp { s.switched ret with reg := g })
  obtain ⟨hpop, hp⟩ := run_popm_frame (s := s₁) h
  let s₂ : Cpu := Instr.run (.bic powerbits) { s₁ with reg := c.reg, sp := c.sp - 2 }
  have hs : c.sp - 2 + 1 = c.sp - 1 := by
    bv_omega
  refine ⟨s₂.mem, fun a ha => ?_, ?_, he.trans ?_⟩
  · change Function.update (s.switched ret).mem (c.sp - 2) _ a = _
    rw [Function.update_of_ne ha]
  · rw [← hs]
    exact hp.bic.pc
  · change (Instr.run (.bic powerbits) (Instr.run (.popm savedRegs.reverse) s₁)).popSr = _
    rw [hpop, Cpu.popSr, hp.bic.sr]
    change _ = Cpu.mk ..
    rw [← hs]
    rfl

/-- The return address is loaded by the last instruction, whatever was done before it. -/
theorem exec_archContextSwitch (x : Word) : (exec 0 archContextSwitch s).context =
    (exec 0 [.ret] { exec 0 switchTasks s with pc := x }).context := by
  have he : exec 0 archContextSwitch s = (exec 0 switchTasks s).popPc := rfl
  rw [he]
  generalize exec 0 switchTasks s = s'
  rfl

/-! ## A new task -/

/-- The context in which a task begins. -/
def initialContext (stackParam stackSize proc param : Word) : Context where
  reg r := if r = .r15 then proc else if r = .r14 then param else 0
  sr := gie
  pc := Device.archTaskStart
  sp := cell (stackParam + stackSize - 2) + 1

variable {task stackParam stackSize proc param : Word} {s' : Cpu}

theorem taskInit_ok (h : archTaskInit task stackParam stackSize proc param s = .ok s') :
    Device.apicheck = false ∧ s' = { s with
      mem := store s.mem (cell (stackParam + stackSize - 2))
        (initialContext stackParam stackSize proc param).frame.reverse
      ctxSp := Function.update s.ctxSp (cell task) (stackParam + stackSize - 28) } := by
  obtain ⟨ha, h⟩ := Outcome.assert_ok h
  obtain ⟨-, h⟩ := Outcome.assert_ok h
  cases h
  exact ⟨ha, rfl⟩

/-- With the assertions no task can be created. -/
theorem taskInit_halts (h : Device.apicheck = true) :
    archTaskInit task stackParam stackSize proc param s = .error .halt := by
  simp [archTaskInit, osAssert, h]

end Runs

end RadOs.Msp430
