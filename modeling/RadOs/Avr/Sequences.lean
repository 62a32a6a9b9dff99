import RadOs.Avr.Frames

/-! # The four sequences

One statement for each of `arch_contextstore_i`, `arch_contextrestore_i`,
`arch_context_switch` and `arch_task_init`.
-/

namespace RadOs.Avr
open Descending

variable [Device] {s : Cpu} {c : Context} {mem mem' : Word → Byte} {p q a : Word}

section Flags
variable {j : Instr} {b : Bool}

omit [Device] in
theorem getLsbD_flags (x y : Byte) :
    ((x &&& 0x7d) ||| (if b then 0x02 else 0) ||| (y &&& 0x80)).getLsbD 1 = b := by
  cases b <;> simp

@[simp] theorem z_setFlags : (s.setFlags j b).z = b := getLsbD_flags _ _

end Flags

/-! ## Leaving an ISR -/

/-- An ISR counts itself down. -/
theorem exec_dec : ∃ g f, f.getLsbD 1 = decide (s.isrNesting - 1 = 0) ∧
    ∀ js, exec 0 ([.cli, .lds 16 .isrNesting, .dec 16, .sts .isrNesting 16] ++ js) s =
      exec 0 js ({ s with isrNesting := s.isrNesting - 1 }.scratch g f) := by
  refine ⟨_, _, ?_, fun js => (exec_straight rfl).trans rfl⟩
  exact z_setFlags

theorem exec_contextrestore
    (h : Framed s.mem (if s.isrNesting - 1 = 0 then s.ctxSp s.taskCurrent else s.sp) c) :
    exec 0 archContextrestoreI s = { s with isrNesting := s.isrNesting - 1 }.resume c := by
  obtain ⟨g, f, hz, he⟩ := exec_dec (s := s)
  rw [archContextrestoreI, List.append_assoc, he]
  by_cases hn : s.isrNesting - 1 = 0
  · rw [if_pos hn] at h
    rw [hn, decide_eq_true rfl] at hz
    simp only [List.cons_append, List.nil_append, exec, Cpu.z, Cpu.scratch, hz, if_true]
    refine (exec_restoreRegs ?_).trans rfl
    simpa [Instr.run, Cpu.getVar, Cpu.setReg, Cpu.setIo, Cpu.pair] using h
  · rw [if_neg hn] at h
    rw [decide_eq_false hn] at hz
    simp only [List.cons_append, List.nil_append, exec, Cpu.z, Cpu.scratch, hz, Bool.false_eq_true,
      if_false]
    exact exec_restoreRegs h

/-! ## Entering an ISR -/

/-- `RAMPZ` is saved through `r16`. -/
theorem exec_pushRampz : ∃ g, (∀ r, r ≠ 16 → g r = s.reg r) ∧
    ∀ js, exec 0 (archPushRampz ++ js) s = exec 0 js
      ((s.pushes (if Device.hasRampz then [s.rampz] else [])).scratch g s.sreg) := by
  unfold archPushRampz
  cases hd : Device.hasRampz with
  | false => exact ⟨s.reg, fun _ _ => rfl, fun js => by simp [Cpu.scratch]⟩
  | true =>
    refine ⟨Function.update s.reg 16 s.rampz, fun r hr => Function.update_of_ne hr _ _, fun js => ?_⟩
    rw [if_pos rfl, exec_straight rfl, if_pos rfl]
    rfl

/-- `r16` and the status register are saved, the interrupt flag as set. -/
theorem exec_saveStatus : ∃ g f, (∀ r, r ≠ 16 → g r = s.reg r) ∧
    ∀ js, exec 0 ([.push 16, .in_ 16 .sreg, .sbr 16 0x80, .push 16] ++ js) s =
      exec 0 js ((s.pushes [s.reg 16, s.sreg ||| 0x80]).scratch g f) := by
  let t := [.push 16, .in_ 16 .sreg, .sbr 16 0x80].foldl (fun s j => Instr.run j s) s
  refine ⟨t.reg, t.sreg, fun r hr => ?_, fun js => ?_⟩
  · exact (Function.update_of_ne hr _ _).trans (Function.update_of_ne hr _ _)
  · rw [exec_straight rfl, Cpu.pushes_cons, Cpu.pushes_cons, Cpu.pushes_nil]
    rfl

theorem reverse_frame (c : Context) : c.frame.reverse =
    [lo c.pc, hi c.pc] ++ ([c.reg 16, c.sreg] ++
      ((if Device.hasRampz then [c.rampz] else []) ++ savedRegs.map c.reg)) := by
  unfold Context.frame
  cases Device.hasRampz <;> simp

/-- The context of the interrupted code is saved. -/
theorem exec_saveContext {v : Word} (hi : s.i = true) : ∃ g f, ∀ js,
    exec 0 ([.push 16, .in_ 16 .sreg, .sbr 16 0x80, .push 16] ++
      (archPushRampz ++ (savedRegs.map .push ++ js))) (s.interrupt v) =
      exec 0 js ({ s.pushes s.context.frame.reverse with pc := v }.scratch g f) := by
  have hsreg : (s.interrupt v).sreg ||| 0x80 = s.sreg := and_or_i hi
  obtain ⟨g₁, f₁, hg₁, h₁⟩ := exec_saveStatus (s := s.interrupt v)
  obtain ⟨g₂, hg₂, h₂⟩ := exec_pushRampz
    (s := ((s.interrupt v).pushes [s.reg 16, s.sreg]).scratch g₁ f₁)
  have hg : savedRegs.map g₂ = savedRegs.map s.reg :=
    List.map_congr_left fun r hr => (hg₂ r ((mem_savedRegs r).mp hr)).trans
      (hg₁ r ((mem_savedRegs r).mp hr))
  refine ⟨g₂, f₁, fun js => ?_⟩
  rw [hsreg] at h₁
  rw [h₁]
  refine (h₂ _).trans ?_
  rw [exec_pushes]
  congr 1
  simp only [Cpu.interrupt_eq, Cpu.pushes_scratch, Cpu.scratch_scratch, Cpu.reg_scratch,
    Cpu.sreg_scratch, Cpu.rampz_scratch, Cpu.rampz_pushes, Cpu.pushes_pushes, hg]
  have hl : [lo s.pc, Avr.hi s.pc] ++ [s.reg 16, s.sreg] ++
      (if Device.hasRampz then [s.rampz] else []) ++ savedRegs.map s.reg =
        s.context.frame.reverse := by
    rw [reverse_frame]
    cases hd : Device.hasRampz <;> simp [Cpu.context, hd]
  rw [hl]
  rfl

/-- An ISR counts itself up. -/
theorem exec_inc : ∃ g f, g 16 = s.isrNesting + 1 ∧
    ∀ js, exec 0 ([.lds 16 .isrNesting, .inc 16, .sts .isrNesting 16] ++ js) s =
      exec 0 js ({ s with isrNesting := s.isrNesting + 1 }.scratch g f) := by
  refine ⟨_, _, ?_, fun js => (exec_straight rfl).trans rfl⟩
  rfl

/-- The stack pointer is read, and the counter compared with 1. -/
theorem exec_compare {b : Byte} (h : s.reg 16 = b) :
    ∃ g f, g 28 = lo s.sp ∧ g 29 = hi s.sp ∧ f.getLsbD 1 = decide (b = 1) ∧
      ∀ js, exec 0 ([.in_ 28 .spl, .in_ 29 .sph, .eor 1 1, .cpi 16 1] ++ js) s =
        exec 0 js (s.scratch g f) := by
  refine ⟨_, _, ?_, ?_, ?_, fun js => (exec_straight rfl).trans rfl⟩
  · rfl
  · rfl
  · rw [← h]
    exact z_setFlags

/-- The outermost ISR saves the stack pointer of the task it has interrupted. -/
theorem exec_saveSp {b : Byte} (hz : s.sreg.getLsbD 1 = decide (b = 1))
    (hl : s.reg 28 = lo s.sp) (hh : s.reg 29 = hi s.sp) :
    ∃ g, exec 0 [.brne 4, .lds 30 .taskCurrent, .lds 31 .taskCurrent1, .st 28, .std 29] s =
      { s with ctxSp := if b = 1 then Function.update s.ctxSp s.taskCurrent s.sp else s.ctxSp
        }.scratch g s.sreg := by
  by_cases hb : b = 1
  · rw [decide_eq_true hb] at hz
    refine ⟨((s.setReg 30 (lo s.taskCurrent)).setReg 31 (hi s.taskCurrent)).reg, ?_⟩
    rw [if_pos hb]
    simp only [exec, Cpu.z, hz, if_true]
    simp [Instr.run, Cpu.getVar, Cpu.setReg, Cpu.pair, Cpu.setCtxSp, Cpu.scratch, hl, hh]
  · rw [decide_eq_false hb] at hz
    refine ⟨s.reg, ?_⟩
    rw [if_neg hb]
    simp only [exec, Cpu.z, hz, Bool.false_eq_true, if_false]
    rfl

/-- The ISR counts itself, and the outermost one saves the stack pointer. -/
theorem exec_enter : ∃ g f, exec 0 ([.lds 16 .isrNesting, .inc 16, .sts .isrNesting 16] ++
      ([.in_ 28 .spl, .in_ 29 .sph, .eor 1 1, .cpi 16 1] ++
      [.brne 4, .lds 30 .taskCurrent, .lds 31 .taskCurrent1, .st 28, .std 29])) s =
    { s with
      isrNesting := s.isrNesting + 1
      ctxSp := if s.isrNesting + 1 = 1 then Function.update s.ctxSp s.taskCurrent s.sp
        else s.ctxSp }.scratch g f := by
  obtain ⟨g₁, f₁, hg₁, h₁⟩ := exec_inc (s := s)
  obtain ⟨g₂, f₂, hl, hh, hz, h₂⟩ := exec_compare
    (s := { s with isrNesting := s.isrNesting + 1 }.scratch g₁ f₁) hg₁
  obtain ⟨g₃, h₃⟩ := exec_saveSp
    (s := { s with isrNesting := s.isrNesting + 1 }.scratch g₂ f₂) hz hl hh
  exact ⟨g₃, f₂, (h₁ _).trans ((h₂ _).trans h₃)⟩

theorem exec_contextstore {v : Word} (hi : s.i = true) :
    ∃ g f, exec 0 archContextstoreI (s.interrupt v) =
      { s.pushes s.context.frame.reverse with
        pc := v
        isrNesting := s.isrNesting + 1
        ctxSp := if s.isrNesting + 1 = 1 then
            Function.update s.ctxSp s.taskCurrent (s.sp - BitVec.ofNat 16 frameSize)
          else s.ctxSp }.scratch g f := by
  obtain ⟨g₁, f₁, h₁⟩ := exec_saveContext (v := v) hi
  obtain ⟨g₂, f₂, h₂⟩ := exec_enter
    (s := { s.pushes s.context.frame.reverse with pc := v }.scratch g₁ f₁)
  refine ⟨g₂, f₂, ?_⟩
  simp only [archContextstoreI, List.append_assoc]
  rw [h₁, h₂]
  simp only [Cpu.scratch, Cpu.pushes, List.length_reverse, length_frame]

/-! ## Switching to another task -/

/-- The sequence can still read its parameter from the registers `p` and `p + 1`. -/
def Free (p : Reg) : Prop := ∀ r ∈ ([16, 28, 29, 30, 31] : List Reg), p ≠ r ∧ p + 1 ≠ r

instance (p : Reg) : Decidable (Free p) :=
  inferInstanceAs (Decidable (∀ r ∈ ([16, 28, 29, 30, 31] : List Reg), p ≠ r ∧ p + 1 ≠ r))

/-- `r16` and a cleared status register are saved. -/
theorem exec_saveCleared : ∃ g f, (∀ r, r ≠ 16 → g r = s.reg r) ∧
    ∀ js, exec 0 ([.push 16, .eor 16 16, .push 16] ++ js) s =
      exec 0 js ((s.pushes [s.reg 16, 0]).scratch g f) := by
  let t := [.push 16, .eor 16 16].foldl (fun s j => Instr.run j s) s
  refine ⟨t.reg, t.sreg, fun r hr => Function.update_of_ne hr _ _, fun js => ?_⟩
  rw [exec_straight rfl, Cpu.pushes_cons, Cpu.pushes_cons, Cpu.pushes_nil]
  have h0 : s.reg 16 ^^^ s.reg 16 = 0 := BitVec.xor_self
  rw [← h0]
  rfl

/-- The stack pointer is saved, below the room for the registers that are not. -/
theorem exec_saveCurrent {p : Reg} (hp : Free p) : ∃ g f, g p = s.reg p ∧ g (p + 1) = s.reg (p + 1) ∧
    ∀ js, exec 0 ([.in_ 28 .spl, .in_ 29 .sph, .sbiw 28 12,
        .lds 30 .taskCurrent, .lds 31 .taskCurrent1, .st 28, .std 29] ++ js) s =
      exec 0 js ({ s with ctxSp := Function.update s.ctxSp s.taskCurrent (s.sp - 12)
        }.scratch g f) := by
  let t := [.in_ 28 .spl, .in_ 29 .sph, .sbiw 28 12,
    .lds 30 .taskCurrent, .lds 31 .taskCurrent1].foldl (fun s j => Instr.run j s) s
  have hkept : ∀ r ∉ ([28, 29, 30, 31] : List Reg), t.reg r = s.reg r := by
    intro r hr
    simp only [List.mem_cons, List.not_mem_nil, or_false, not_or] at hr
    simp [t, Instr.run, Cpu.setReg, Cpu.setPair, Cpu.setFlags, Function.update_of_ne, hr]
  refine ⟨t.reg, t.sreg, hkept p ?_, hkept (p + 1) ?_, fun js => ?_⟩
  · exact fun h => (hp _ (List.mem_cons_of_mem _ h)).1 rfl
  · exact fun h => (hp _ (List.mem_cons_of_mem _ h)).2 rfl
  · rw [exec_straight rfl]
    congr 1
    simp [t, Instr.run, Cpu.setReg, Cpu.setPair, Cpu.setFlags, Cpu.getIo, Cpu.getVar, Cpu.setCtxSp,
      Cpu.pair, Cpu.scratch]

/-- The new task becomes the current one, and its stack the stack. -/
theorem exec_loadCurrent {p : Reg} : ∃ g, ∀ js,
    exec 0 ([.sts .taskCurrent p, .sts .taskCurrent1 (p + 1),
        .movw 30 p, .ld 28, .ldd 29, .out .spl 28, .out .sph 29] ++ js) s =
      exec 0 js ({ s with taskCurrent := s.pair p, sp := s.ctxSp (s.pair p) }.scratch g s.sreg) := by
  let t := (s.setPair 30 (s.pair p)).setPair 28 (s.ctxSp (s.pair p))
  refine ⟨t.reg, fun js => ?_⟩
  rw [exec_straight rfl]
  congr 1
  simp [Instr.run, Cpu.setVar, Cpu.setReg, Cpu.setPair, Cpu.setIo, Cpu.pair, Cpu.scratch, t]

/-- What a task pushes until it is switched out. -/
def Cpu.switchedBytes (ret : Word) (s : Cpu) : List Byte :=
  [lo ret, hi ret] ++ [s.reg 16, 0] ++ (if Device.hasRampz then [s.rampz] else []) ++
    keptRegs.map s.reg

def Cpu.switched (ret : Word) (s : Cpu) : Cpu := s.pushes (s.switchedBytes ret)

theorem exec_saveSwitched {p : Reg} (ret : Word) (hp : Free p) : ∃ g f,
    g p = s.reg p ∧ g (p + 1) = s.reg (p + 1) ∧ ∀ js,
    exec 0 ([.push 16, .eor 16 16, .push 16] ++ (archPushRampz ++ (keptRegs.map .push ++ js)))
      (s.pushPc ret) = exec 0 js ((s.switched ret).scratch g f) := by
  obtain ⟨g₁, f₁, hg₁, h₁⟩ := exec_saveCleared (s := s.pushPc ret)
  obtain ⟨g₂, hg₂, h₂⟩ := exec_pushRampz
    (s := ((s.pushPc ret).pushes [s.reg 16, 0]).scratch g₁ f₁)
  have hg : ∀ r, r ≠ 16 → g₂ r = s.reg r := fun r hr => (hg₂ r hr).trans (hg₁ r hr)
  have hl : keptRegs.map g₂ = keptRegs.map s.reg :=
    List.map_congr_left fun r hr => hg r ((mem_savedRegs r).mp (List.mem_append_left _ hr))
  refine ⟨g₂, f₁, hg p (hp 16 (List.mem_cons_self ..)).1,
    hg (p + 1) (hp 16 (List.mem_cons_self ..)).2, fun js => ?_⟩
  rw [h₁]
  refine (h₂ _).trans ?_
  rw [exec_pushes]
  congr 1
  simp only [Cpu.pushPc_eq, Cpu.pushes_scratch, Cpu.scratch_scratch, Cpu.reg_scratch,
    Cpu.sreg_scratch, Cpu.rampz_scratch, Cpu.rampz_pushes, Cpu.pushes_pushes, hl]
  rfl

theorem length_switchedBytes (s : Cpu) (ret : Word) :
    (s.switchedBytes ret).length + 12 = frameSize := by
  unfold Cpu.switchedBytes frameSize
  cases Device.hasRampz <;> rfl

theorem switched_sp (s : Cpu) (ret : Word) :
    (s.switched ret).sp - 12 = s.sp - BitVec.ofNat 16 frameSize := by
  rw [← length_switchedBytes s ret, BitVec.ofNat_add, ← BitVec.sub_sub]
  rfl

theorem exec_contextSwitch {p : Reg} (ret : Word) (hp : Free p)
    (h : Framed (s.switched ret).mem (Function.update s.ctxSp s.taskCurrent
      (s.sp - BitVec.ofNat 16 frameSize) (s.pair p)) c) :
    exec 0 (archContextSwitch p) (s.pushPc ret) =
      { s with
        mem := (s.switched ret).mem
        taskCurrent := s.pair p
        ctxSp := Function.update s.ctxSp s.taskCurrent (s.sp - BitVec.ofNat 16 frameSize)
        }.resume c := by
  obtain ⟨g₁, f₁, hlo, hhi, h₁⟩ := exec_saveSwitched (s := s) ret hp
  obtain ⟨g₂, f₂, hlo', hhi', h₂⟩ := exec_saveCurrent (s := (s.switched ret).scratch g₁ f₁) hp
  let t : Cpu := { s.switched ret with
    ctxSp := Function.update s.ctxSp s.taskCurrent (s.sp - BitVec.ofNat 16 frameSize) }
  obtain ⟨g₃, h₃⟩ := exec_loadCurrent (s := t.scratch g₂ f₂) (p := p)
  have hpair : (t.scratch g₂ f₂).pair p = s.pair p := by
    change word (g₂ (p + 1)) (g₂ p) = word (s.reg (p + 1)) (s.reg p)
    rw [hlo', hhi']
    exact congrArg₂ word hhi hlo
  rw [hpair] at h₃
  simp only [archContextSwitch, List.append_assoc]
  rw [h₁, h₂]
  have ht : { s.switched ret with
      ctxSp := Function.update s.ctxSp s.taskCurrent ((s.switched ret).sp - 12) } = t := by
    rw [switched_sp]
  refine (congrArg (fun t : Cpu => exec 0 _ (t.scratch g₂ f₂)) ht).trans ?_
  refine (h₃ _).trans ((exec_restoreRegs ?_).trans rfl)
  exact h

/-! ## The frames -/

theorem frameSize_lt : frameSize < 2 ^ 16 := by
  unfold frameSize
  cases Device.hasRampz <;> decide

theorem Framed.congr (h : Framed mem q c) (hq : q.toNat + frameSize < 2 ^ 16)
    (hm : ∀ a, q.toNat < a.toNat → a.toNat ≤ q.toNat + frameSize → mem' a = mem a) :
    Framed mem' q c := by
  refine ⟨h.above.congr ?_ ?_, h.sp, h.rampz⟩
  · rwa [length_frame]
  · rwa [length_frame]

theorem framed_context (hs : frameSize ≤ s.sp.toNat) :
    Framed (s.pushes s.context.frame.reverse).mem (s.sp - BitVec.ofNat 16 frameSize) s.context := by
  refine ⟨?_, (BitVec.sub_add_cancel _ _).symm, fun h => by simp [Cpu.context, h]⟩
  have h := above_store s.mem (show s.context.frame.reverse.length ≤ s.sp.toNat by
    rwa [List.length_reverse, length_frame])
  rwa [List.length_reverse, length_frame, List.reverse_reverse] at h

/-- The frame of a task that was switched out has whatever was in the memory in the place of the
registers that were not saved. -/
theorem framed_switched (ret : Word) (hs : frameSize ≤ s.sp.toNat) :
    ∃ c : Context, Framed (s.switched ret).mem (s.sp - BitVec.ofNat 16 frameSize) c ∧
      c.pc = ret ∧ c.sreg = 0 ∧ ∀ r, r ∉ skippedRegs → c.reg r = s.reg r := by
  obtain ⟨f, hf, hm⟩ := exists_above (s.switched ret).mem s.reg
    (show skippedRegs.reverse.Nodup by decide) (s.sp - BitVec.ofNat 16 frameSize)
  have hkept : keptRegs.reverse.map f = keptRegs.reverse.map s.reg :=
    List.map_congr_left fun r hr => hf r (by revert r; decide)
  have h16 : f 16 = s.reg 16 := hf 16 (by decide)
  refine ⟨⟨f, 0, if Device.hasRampz then s.rampz else 0, ret, s.sp⟩, ⟨?_, ?_, ?_⟩, rfl, rfl, ?_⟩
  · have hframe : Context.frame ⟨f, 0, if Device.hasRampz then s.rampz else 0, ret, s.sp⟩ =
        skippedRegs.reverse.map f ++ (s.switchedBytes ret).reverse := by
      rw [Context.frame, savedRegs, List.reverse_append, List.map_append, hkept,
        Cpu.switchedBytes]
      cases Device.hasRampz <;> simp [h16]
    have hlen := length_switchedBytes s ret
    have hq : s.sp - BitVec.ofNat 16 frameSize + BitVec.ofNat 16 (skippedRegs.reverse.map f).length =
        s.sp - BitVec.ofNat 16 (s.switchedBytes ret).length := by
      rw [← switched_sp s ret]
      exact BitVec.sub_add_cancel _ _
    rw [hframe]
    refine above_append.mpr ⟨hm, ?_⟩
    rw [hq]
    exact above_store _ (by omega)
  · exact (BitVec.sub_add_cancel _ _).symm
  · intro h
    simp [h]
  · exact fun r hr => hf r (by rwa [List.mem_reverse])

/-- Whatever lies above a stack pointer can be taken as a frame. -/
theorem exists_framed (mem : Word → Byte) (q : Word) : ∃ c, Framed mem q c := by
  let p := q + BitVec.ofNat 16 31
  let p' := p + BitVec.ofNat 16 (if Device.hasRampz then 1 else 0)
  obtain ⟨f, hf, hm⟩ := exists_above mem (fun _ => mem (p' + 1 + 1))
    (show savedRegs.reverse.Nodup by decide) q
  have h16 : f 16 = mem (p' + 1 + 1) := hf 16 (by decide)
  refine ⟨⟨f, mem (p' + 1), if Device.hasRampz then mem (p + 1) else 0,
    word (mem (p' + 1 + 1 + 1)) (mem (p' + 1 + 1 + 1 + 1)), q + BitVec.ofNat 16 frameSize⟩, ?_, rfl,
    fun h => by simp [h]⟩
  rw [Context.frame, List.append_assoc]
  refine above_append.mpr ⟨hm, above_append.mpr ?_⟩
  cases hd : Device.hasRampz with
  | false =>
    simp only [p', p, hd, Bool.false_eq_true, if_false] at h16 ⊢
    exact ⟨trivial, rfl, h16.symm, (hi_word _ _).symm, (lo_word _ _).symm, trivial⟩
  | true =>
    simp only [p', p, hd, if_true] at h16 ⊢
    exact ⟨⟨rfl, trivial⟩, rfl, h16.symm, (hi_word _ _).symm, (lo_word _ _).symm, trivial⟩

/-- The context in which `arch_task_init` lets a task begin. -/
def initialContext (stackParam stackSize proc param : Word) : Context where
  reg r :=
    match r with
    | 22 => lo param
    | 23 => hi param
    | 24 => lo proc
    | 25 => hi proc
    | 28 => lo (stackParam + stackSize - 3)
    | 29 => hi (stackParam + stackSize - 3)
    | _ => 0
  sreg := 0x80
  rampz := 0
  pc := Device.archTaskStart
  sp := stackParam + stackSize - 1

section Init
variable (task stackParam stackSize proc param : Word)

theorem initialFrame_eq : initialFrame stackParam stackSize proc param =
    (initialContext stackParam stackSize proc param).frame.reverse := by
  rw [reverse_frame]
  unfold initialFrame
  cases Device.hasRampz <;> rfl

theorem length_initialFrame : (initialFrame stackParam stackSize proc param).length = frameSize := by
  rw [initialFrame_eq, List.length_reverse, length_frame]

theorem ctxSp_taskInit : (archTaskInit task stackParam stackSize proc param s).ctxSp =
    Function.update s.ctxSp task (stackParam + stackSize - 1 - BitVec.ofNat 16 frameSize) := by
  rw [← length_initialFrame stackParam stackSize proc param]
  rfl

theorem mem_taskInit {bottom : ℕ} (hs : bottom + frameSize ≤ (stackParam + stackSize - 1).toNat)
    (ha : a.toNat ≤ bottom ∨ (stackParam + stackSize - 1).toNat < a.toNat) :
    (archTaskInit task stackParam stackSize proc param s).mem a = s.mem a := by
  have hlen := length_initialFrame stackParam stackSize proc param
  exact store_outside (by omega) (by omega)

theorem framed_taskInit (hs : frameSize ≤ (stackParam + stackSize - 1).toNat) :
    Framed (archTaskInit task stackParam stackSize proc param s).mem
      (stackParam + stackSize - 1 - BitVec.ofNat 16 frameSize)
      (initialContext stackParam stackSize proc param) := by
  have hlen := length_initialFrame stackParam stackSize proc param
  refine ⟨?_, (BitVec.sub_add_cancel _ _).symm, fun _ => rfl⟩
  have h := above_store s.mem (show (initialFrame stackParam stackSize proc param).length ≤ _ by
    rwa [hlen])
  rw [hlen, initialFrame_eq, List.reverse_reverse, ← initialFrame_eq] at h
  exact h

end Init

end RadOs.Avr
