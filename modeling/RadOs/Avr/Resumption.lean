import RadOs.Avr.Contexts

/-! # Resumption

Every task continues where it lost the CPU, by whichever route the CPU comes
back to it, as long as `isr_nesting` counts the ISRs.
-/

namespace RadOs.Avr
open Runs Runs.System Descending

section Resumption
variable [Device] {L : Stacks} {m m' : Machine} {i : Move} {tr : List (Taken Machine Move)}

/-- The tasks of a program on one CPU. In the beginning one of them runs and no other has been
set up. -/
def contexts (L : Stacks) : System Machine Move where
  start m := m.nested = [] ∧ m.cpu.isrNesting = 0 ∧ m.cpu.taskCurrent = m.running ∧
    (∀ t, m.suspended t = none) ∧ m.Within L m.cpu.sp
  step := Step L

/-- An ISR starts inside fewer than 256 others. -/
def Counted (m : Machine) : Move → Prop
  | .enter _ => m.nested.length < 256
  | _ => True

/-- The step gives the CPU back to somebody. -/
def Move.Returns : Move → Prop
  | .leave => True
  | .switch _ _ => True
  | _ => False

theorem Intact.start (h : (contexts L).start m) : Intact L m := by
  obtain ⟨hn, h0, hc, hs, hw⟩ := h
  refine ⟨?_, ?_, fun _ => hc, Or.inl hc, hs _, fun t x hx => ?_, ?_, fun c hl => ?_, hw⟩
  · rw [h0, hn]
    rfl
  · rw [hn]
    exact Nat.zero_le _
  · rw [hs] at hx
    cases hx
  · rw [hn]
    trivial
  · rw [hn] at hl
    cases hl

theorem Intact.step (h : Intact L m) (hs : Step L m i m') (hd : Counted m i) : Intact L m' := by
  cases hs with
  | code hn hc hs hm hw => exact h.code hn hc hs hm hw
  | pick hn _ ht => exact h.pick hn ht
  | enter hi hr => exact h.enter hi hr hd
  | leave hn hs => exact (h.leave hn hs).2
  | leaveLast hn _ => exact (h.leaveLast hn).2
  | switch hn _ hr hp ht => exact (h.switch hn hr hp ht).2
  | init hn ht hr => exact h.init hn ht hr

theorem intact_of_run (h : ((contexts L).restrict Counted).Run tr m) : Intact L m :=
  Run.invariant (M := (contexts L).restrict Counted) (I := fun _ m => Intact L m)
    (fun _ h => Intact.start h) (fun _ _ _ _ _ hI hs => hI.step hs.2 hs.1) h

/-- Whoever gets the CPU continues as it has to. -/
theorem contexts_resumed (h : ((contexts L).restrict Counted).Run tr m) (hs : Step L m i m')
    (hi : i.Returns) : ∃ x, m.awaited i = some x ∧ x.Continues m'.cpu.context := by
  have hI := intact_of_run h
  cases hs with
  | code => cases hi
  | pick => cases hi
  | enter => cases hi
  | init => cases hi
  | @leave c _ _ hn hs =>
    refine ⟨.preempted c, ?_, (hI.leave hn hs).1⟩
    rw [Machine.awaited, hn]
  | leaveLast hn _ => exact (hI.leaveLast hn).1
  | switch hn _ hr hp ht => exact (hI.switch hn hr hp ht).1

end Resumption

/-! ## One ISR too many -/

section Wraparound
variable [Device] {L : Stacks} {m : Machine} {q n : ℕ} {r : Word}

/-- The frames follow each other without a gap, from `q` on downwards. -/
def Packed (q : ℕ) : List Context → Prop
  | [] => True
  | c :: l => c.sp.toNat + frameSize * l.length = q ∧ Packed q l

/-- Nothing but ISRs has happened on the stack below `q`. -/
structure Deep (q n : ℕ) (m : Machine) : Prop where
  length : m.nested.length = n
  packed : Packed q m.nested
  sp : m.cpu.sp.toNat + frameSize * n = q
  nesting : m.cpu.isrNesting = BitVec.ofNat 8 n
  owner : m.cpu.taskCurrent = m.running

/-- One more ISR starts and enables interrupts. -/
theorem Deep.enter (hr : (contexts L).Reachable m) (h : Deep q n m) (hi : m.cpu.i = true)
    (hroom : (L.bottom m.running).toNat + frameSize * (n + 1) ≤ q) :
    ∃ m', (contexts L).Reachable m' ∧ Deep q (n + 1) m' ∧ m'.cpu.i = true ∧
      m'.running = m.running ∧
      (m'.cpu.isrNesting = 1 → m'.cpu.ctxSp m.running = m'.cpu.sp) := by
  have hsp := h.sp
  have hlow : (L.bottom m.running).toNat + frameSize ≤ m.cpu.sp.toNat := by
    rw [Nat.mul_add, Nat.mul_one] at hroom
    omega
  obtain ⟨g, f, he⟩ := exec_contextstore (s := m.cpu) (v := 0) hi
  let s₁ := exec 0 archContextstoreI (m.cpu.interrupt 0)
  have hp : s₁.sp = m.cpu.context.base := by
    change (exec 0 archContextstoreI (m.cpu.interrupt 0)).sp = _
    rw [he]
    exact sp_pushes_frame
  have hn : s₁.isrNesting = m.cpu.isrNesting + 1 := congrArg Cpu.isrNesting he
  have hc : s₁.taskCurrent = m.cpu.taskCurrent := (congrArg Cpu.taskCurrent he).trans rfl
  have hx : s₁.ctxSp = if m.cpu.isrNesting + 1 = 1 then
      Function.update m.cpu.ctxSp m.cpu.taskCurrent m.cpu.context.base else m.cpu.ctxSp :=
    congrArg Cpu.ctxSp he
  have hbase := toNat_base (c := m.cpu.context) (by change _ ≤ m.cpu.sp.toNat; omega)
  change m.cpu.context.base.toNat = m.cpu.sp.toNat - frameSize at hbase
  have h₁ := hr.step (Step.enter (v := 0) hi hlow)
  have h₂ := h₁.step (.code (s := { s₁ with sreg := 0x80 }) rfl rfl rfl (fun _ _ => rfl) ?_)
  · refine ⟨_, h₂, ⟨?_, ⟨?_, h.packed⟩, ?_, ?_, hc.trans h.owner⟩, ?_, rfl, fun h1 => ?_⟩
    · exact congrArg (· + 1) h.length
    · change m.cpu.sp.toNat + frameSize * m.nested.length = q
      rw [h.length]
      exact hsp
    · change s₁.sp.toNat + frameSize * (n + 1) = q
      rw [hp, hbase, Nat.mul_add]
      omega
    · change s₁.isrNesting = _
      rw [hn, h.nesting, BitVec.ofNat_add]
      rfl
    · change (0x80 : Byte).getLsbD 7 = true
      decide
    · change s₁.isrNesting = 1 at h1
      rw [hn] at h1
      change s₁.ctxSp m.running = s₁.sp
      rw [hx, if_pos h1, h.owner, Function.update_self, hp]
  · change Machine.Within L s₁.sp _
    rw [hp]
    refine ⟨?_, Nat.le_refl _⟩
    rw [hbase]
    exact Nat.le_sub_of_add_le hlow

/-- The innermost ISR returns, to the ISR it has interrupted. -/
theorem Deep.leave (hr : (contexts L).Reachable m) (h : Deep q (n + 2) m) (hn : n + 2 ≤ 257)
    (hx : (m.cpu.ctxSp m.running).toNat + frameSize * 257 = q) :
    ∃ m', (contexts L).Reachable m' ∧ Deep q (n + 1) m' ∧ m'.running = m.running ∧
      m'.cpu.ctxSp = m.cpu.ctxSp := by
  obtain ⟨hlen, hp, hsp, hnest, hown⟩ := h
  obtain ⟨c, c', l, hl⟩ : ∃ c c' l, m.nested = c :: c' :: l := by
    rcases hl : m.nested with _ | ⟨c, _ | ⟨c', l⟩⟩
    · rw [hl] at hlen
      cases hlen
    · rw [hl] at hlen
      cases hlen
    · exact ⟨c, c', l, rfl⟩
  rw [hl] at hlen hp
  obtain ⟨hc, hp⟩ := hp
  rw [List.length_cons] at hlen
  have hlen' : (c' :: l).length = n + 1 := Nat.succ.inj hlen
  rw [hlen'] at hc
  rw [Nat.mul_add] at hsp
  rw [Nat.mul_add] at hc
  have hbase := toNat_base (c := c) (by omega)
  have hs : m.cpu.sp = c.base := BitVec.toNat_inj.mp (by omega)
  have hq : (if m.cpu.isrNesting - 1 = 0 then m.cpu.ctxSp m.cpu.taskCurrent else m.cpu.sp) =
      m.cpu.sp := by
    split
    · next h0 =>
      rw [hnest, ← BitVec.toNat_inj, BitVec.toNat_sub, BitVec.toNat_ofNat] at h0
      change (256 - 1 + (n + 2) % 256) % 256 = 0 at h0
      have hn' : n = 255 := by omega
      subst hn'
      rw [hown]
      exact BitVec.toNat_inj.mp (by omega)
    · rfl
  obtain ⟨c₀, hf⟩ := exists_framed m.cpu.mem m.cpu.sp
  have he : exec 0 archContextrestoreI m.cpu =
      { m.cpu with isrNesting := m.cpu.isrNesting - 1 }.resume c₀ := by
    refine exec_contextrestore ?_
    rwa [hq]
  have h₁ := hr.step (Step.leave hl hs)
  rw [he] at h₁
  refine ⟨_, h₁, ⟨hlen', hp, ?_, ?_, hown⟩, rfl, rfl⟩
  · have hfs : (BitVec.ofNat 16 frameSize).toNat = frameSize := by
      rw [BitVec.toNat_ofNat, Nat.mod_eq_of_lt frameSize_lt]
    change c₀.sp.toNat + frameSize * (n + 1) = q
    rw [hf.sp, BitVec.toNat_add_of_lt (by omega), hfs, Nat.mul_add]
    omega
  · change m.cpu.isrNesting - 1 = _
    rw [hnest, BitVec.ofNat_add (n + 1) 1]
    exact BitVec.add_sub_cancel _ _

/-- 257 ISRs start on the stack in use. -/
theorem exists_deep (h : (contexts L).start m) (hi : m.cpu.i = true)
    (hroom : (L.bottom m.running).toNat + frameSize * 257 ≤ m.cpu.sp.toNat) (hn : n ≤ 257) :
    ∃ m', (contexts L).Reachable m' ∧ Deep m.cpu.sp.toNat n m' ∧ m'.cpu.i = true ∧
      m'.running = m.running ∧
      (m'.cpu.isrNesting = 1 → m'.cpu.ctxSp m.running = m'.cpu.sp) := by
  induction n with
  | zero =>
    obtain ⟨hn, h0, hc, -⟩ := id h
    refine ⟨m, .start h, ⟨by rw [hn]; rfl, by rw [hn]; trivial, rfl, h0, hc⟩, hi, rfl, fun h1 => ?_⟩
    rw [h0] at h1
    cases h1
  | succ n ih =>
    obtain ⟨m₁, hr, hd, hi₁, hm, -⟩ := ih (by omega)
    have hmul := Nat.mul_le_mul_left frameSize hn
    obtain ⟨m₂, hr₂, hd₂, hi₂, hm₂, hx⟩ := hd.enter hr hi₁ (by rw [hm]; omega)
    rw [hm] at hm₂ hx
    exact ⟨m₂, hr₂, hd₂, hi₂, hm₂, hx⟩

/-- All but the first of them return. -/
theorem exists_shallow (h : (contexts L).start m) (hi : m.cpu.i = true)
    (hroom : (L.bottom m.running).toNat + frameSize * 257 ≤ m.cpu.sp.toNat) (hn : n ≤ 256) :
    ∃ m', (contexts L).Reachable m' ∧ Deep m.cpu.sp.toNat (257 - n) m' ∧
      (m'.cpu.ctxSp m'.running).toNat + frameSize * 257 = m.cpu.sp.toNat := by
  induction n with
  | zero =>
    obtain ⟨m₁, hr, hd, -, hm, hx⟩ := exists_deep h hi hroom (Nat.le_refl _)
    refine ⟨m₁, hr, hd, ?_⟩
    rw [hm, hx (by rw [hd.nesting]; rfl)]
    exact hd.sp
  | succ n ih =>
    obtain ⟨m₁, hr, hd, hx⟩ := ih (by omega)
    rw [show 257 - n = 257 - (n + 2) + 2 by omega] at hd
    obtain ⟨m₂, hr₂, hd₂, hm, hx₂⟩ := hd.leave hr (by omega) hx
    rw [show 257 - (n + 2) + 1 = 257 - (n + 1) by omega] at hd₂
    refine ⟨m₂, hr₂, hd₂, ?_⟩
    rwa [hm, hx₂]

/-- The first ISR takes the frame of the last one for its own. -/
theorem Deep.lost (h : Deep q 1 m) (hx : (m.cpu.ctxSp m.running).toNat + frameSize * 257 = q) :
    ∃ m', Step L m .leave m' ∧
      ¬ ∃ x, m.awaited .leave = some x ∧ x.Continues m'.cpu.context := by
  obtain ⟨hlen, hp, hsp, hnest, hown⟩ := h
  obtain ⟨c, hl⟩ := List.length_eq_one_iff.mp hlen
  rw [hl] at hp
  have hc : c.sp.toNat = q := hp.1
  have hbase := toNat_base (c := c) (by omega)
  have h0 : m.cpu.isrNesting - 1 = 0 := by
    rw [hnest]
    rfl
  obtain ⟨c₀, hf⟩ := exists_framed m.cpu.mem (m.cpu.ctxSp m.running)
  have he : exec 0 archContextrestoreI m.cpu =
      { m.cpu with isrNesting := m.cpu.isrNesting - 1 }.resume c₀ := by
    refine exec_contextrestore ?_
    rwa [if_pos h0, hown]
  refine ⟨_, .leaveLast hl (BitVec.toNat_inj.mp (by omega)), ?_⟩
  rintro ⟨x, hx', hc'⟩
  rw [Machine.awaited, hl, hown] at hx'
  cases (Function.update_self (f := m.suspended) m.running
    (some (Suspended.preempted c))).symm.trans hx'
  have hsp' : c₀.sp = c.sp := (congrArg Cpu.sp he).symm.trans (congrArg Context.sp hc')
  have hfs : (BitVec.ofNat 16 frameSize).toNat = frameSize := by
    rw [BitVec.toNat_ofNat, Nat.mod_eq_of_lt frameSize_lt]
  have hpos : 0 < frameSize := by
    unfold frameSize
    split <;> decide
  rw [hf.sp, ← BitVec.toNat_inj, BitVec.toNat_add_of_lt (by omega), hfs] at hsp'
  omega

theorem resumption_lost (h : (contexts L).start m) (hi : m.cpu.i = true)
    (hroom : (L.bottom m.running).toNat + frameSize * 257 ≤ m.cpu.sp.toNat) :
    ∃ tr m₁ m₂, (contexts L).Run tr m₁ ∧ Step L m₁ .leave m₂ ∧
      ¬ ∃ x, m₁.awaited .leave = some x ∧ x.Continues m₂.cpu.context := by
  obtain ⟨m₁, ⟨tr, hr⟩, hd, hx⟩ := exists_shallow h hi hroom (Nat.le_refl _)
  obtain ⟨m₂, hs, hl⟩ := hd.lost hx
  exact ⟨tr, m₁, m₂, hr, hs, hl⟩

end Wraparound

/-! ## A program with two tasks -/

/-- A device without `RAMPZ`. -/
instance plainDevice : Device where
  hasRampz := false
  flags _ _ := 0
  archTaskStart := 0x0400

def twoStacks : Stacks where
  bottom t := if t = 0x0200 then 0x1000 else if t = 0x0210 then 0x0800 else 0
  top t := if t = 0x0200 then 0x5000 else if t = 0x0210 then 0x0900 else 0
  disjoint := by
    intro t t' h
    by_cases h₁ : t = 0x0200 <;> by_cases h₂ : t' = 0x0200 <;> by_cases h₃ : t = 0x0210 <;>
      by_cases h₄ : t' = 0x0210 <;> simp_all

def mainCpu : Cpu where
  reg _ := 0
  sreg := 0x80
  rampz := 0
  sp := 0x5000
  pc := 0
  mem _ := 0
  isrNesting := 0
  taskCurrent := 0x0200
  ctxSp _ := 0

def mainMachine : Machine := ⟨mainCpu, 0x0200, [], fun _ => none⟩

/-- The other task has been set up. -/
def createdMachine : Machine :=
  { mainMachine with
    cpu := archTaskInit 0x0210 0x0801 0x0100 0x0300 0x0007 mainCpu
    suspended := Function.update mainMachine.suspended 0x0210 (some (.created 0x0300 0x0007)) }

/-- An ISR has started. -/
def enteredMachine : Machine :=
  { createdMachine with
    cpu := exec 0 archContextstoreI (createdMachine.cpu.interrupt 0x0010)
    nested := [createdMachine.cpu.context] }

/-- It has picked the other task. -/
def pickedMachine : Machine :=
  { enteredMachine with cpu := { enteredMachine.cpu with taskCurrent := 0x0210 } }

/-- It returns. -/
def leftMachine : Machine :=
  pickedMachine.dispatch (.preempted createdMachine.cpu.context) pickedMachine.cpu.taskCurrent
    (exec 0 archContextrestoreI pickedMachine.cpu)

theorem mainMachine_start : (contexts twoStacks).start mainMachine :=
  ⟨rfl, rfl, rfl, fun _ => rfl, by decide, by decide⟩

theorem pickedMachine_run :
    ∃ tr, ((contexts twoStacks).restrict Counted).Run tr pickedMachine := by
  let M := (contexts twoStacks).restrict Counted
  have h₁ : M.step mainMachine (.init 0x0210 0x0300 0x0007) createdMachine :=
    ⟨trivial, .init rfl (by decide) (by decide)⟩
  have h₂ : M.step createdMachine (.enter 0x0010) enteredMachine :=
    ⟨Nat.zero_lt_succ _, .enter rfl (show 0x1000 + frameSize ≤ 0x5000 by decide)⟩
  have h₃ : M.step enteredMachine (.pick 0x0210) pickedMachine :=
    ⟨trivial, .pick (List.cons_ne_nil _ _) (by decide +kernel) (Or.inr (Option.some_ne_none _))⟩
  exact ⟨_, (((Run.start (M := M) mainMachine_start).step h₁).step h₂).step h₃⟩

theorem pickedMachine_sp : pickedMachine.cpu.sp = createdMachine.cpu.context.base := by
  decide +kernel

theorem contexts_resumed_created :
    ∃ x, pickedMachine.awaited .leave = some x ∧ x.Continues leftMachine.cpu.context := by
  obtain ⟨tr, h⟩ := pickedMachine_run
  exact contexts_resumed h (.leaveLast rfl pickedMachine_sp) trivial

theorem resumption_lost_at_257 : ¬ ∀ (tr : List (Taken Machine Move)) (m m' : Machine) (i : Move),
    (contexts twoStacks).Run tr m → Step twoStacks m i m' → i.Returns →
      ∃ x, m.awaited i = some x ∧ x.Continues m'.cpu.context := by
  intro h
  have hroom : (twoStacks.bottom mainMachine.running).toNat + frameSize * 257 ≤
      mainMachine.cpu.sp.toNat := by
    decide +kernel
  obtain ⟨tr, m, m', hr, hs, hl⟩ := resumption_lost mainMachine_start (by decide) hroom
  exact hl (h tr m m' _ hr hs trivial)

end RadOs.Avr
