import RadOs.Msp430.Frames
import RadOs.Lib.Run

/-! # Contexts of tasks

The tasks of a program take turns on one CPU, as on the AVR. Here a frame holds
all registers, whoever has saved it, so every task has a context in which it
continues. The interrupt flag alone depends on the way back: the end of an ISR
enables interrupts for whatever comes next.
-/

namespace RadOs.Msp430
open Descending Turns Runs Runs.System

/-- No stack has the cell that `arch_contextrestore_i` writes to. -/
structure Stacks extends Turns.Stacks Addr 15 where
  clear : ∀ t, ¬ toStacks.Owns t (cell 0x0a20)

structure Machine where
  cpu : Cpu
  /-- the task whose stack is in use -/
  running : Addr
  /-- the contexts that ISRs have interrupted, the innermost first -/
  nested : List Context
  /-- the tasks that wait for the CPU -/
  suspended : Addr → Option Context

inductive Move where
  | code (s : Cpu)
  | pick (x : Word)
  | enter (vector : Word)
  | leave
  | switch (ret : Word)
  | init (task stackParam stackSize proc param : Word)

/-- The next free cell of the stack of a task. -/
def saves (ctxSp : Addr → Word) (t : Addr) : Addr := cell (ctxSp t) - 1

namespace Machine

def Ready (t : Addr) (m : Machine) : Prop := t = m.running ∨ m.suspended t ≠ none

/-- The cells of the frames. -/
def Holds (a : Addr) (m : Machine) : Prop :=
  (∃ t, m.suspended t ≠ none ∧ frames.Inside (saves m.cpu.ctxSp t) a) ∨
    ∃ c ∈ m.nested, frames.Inside (frames.base c) a

/-- The stack in use neither overflows nor is emptied too far at the stack pointer `p`. -/
def Within (L : Stacks) (p : Addr) (m : Machine) : Prop :=
  (L.bottom m.running).toNat ≤ (p - 1).toNat ∧
    (p - 1).toNat ≤ roof frames (L.top m.running).toNat m.nested

/-- There is room for one more frame. -/
def Room (L : Stacks) (m : Machine) : Prop :=
  (L.bottom m.running).toNat + frames.size ≤ (m.cpu.sp - 1).toNat

/-- The running task is set aside, and the task `t` takes the CPU. -/
def dispatch (c : Context) (t : Addr) (s : Cpu) (m : Machine) : Machine where
  cpu := s
  running := t
  nested := []
  suspended := Function.update (Function.update m.suspended m.running (some c)) t none

/-- The context in which the CPU has to continue after the step. -/
def awaited (m : Machine) : Move → Option Context
  | .leave =>
    match m.nested with
    | [] => none
    | [c] => (Function.update m.suspended m.running (some c) m.cpu.task).map
        fun c => c.powered.interruptible
    | c :: _ => some c
  | .switch ret => (Function.update m.suspended m.running (some (m.cpu.caller ret))
      (cell (m.cpu.reg .r15))).map Context.powered
  | _ => none

end Machine

section Steps
variable [Device]

/-- One step. Any code may run in between that leaves the frames and the variables of the kernel
alone. After `switch` the CPU is at the `ret` of `arch_context_switch`. -/
inductive Step (L : Stacks) : Machine → Move → Machine → Prop
  | code {m s} (hn : s.isrNesting = m.cpu.isrNesting) (hc : s.taskCurrent = m.cpu.taskCurrent)
      (hs : s.ctxSp = m.cpu.ctxSp) (hm : ∀ a, m.Holds a → s.mem a = m.cpu.mem a)
      (hw : m.Within L s.sp) : Step L m (.code s) { m with cpu := s }
  | pick {m x} (hn : m.nested ≠ []) (h1 : m.cpu.isrNesting ≤ 1) (ht : m.Ready (cell x)) :
      Step L m (.pick x) { m with cpu := { m.cpu with taskCurrent := x } }
  | enter {m v} (hi : m.cpu.enabled = true) (hr : m.Room L) :
      Step L m (.enter v) { m with
        cpu := exec 0 archContextstoreI (m.cpu.interrupt v)
        nested := m.cpu.context :: m.nested }
  | leave {m c c' l} (hn : m.nested = c :: c' :: l) (hs : m.cpu.sp - 1 = frames.base c) :
      Step L m .leave { m with cpu := exec 0 archContextrestoreI m.cpu, nested := c' :: l }
  | leaveLast {m c} (hn : m.nested = [c]) (hs : m.cpu.sp - 1 = frames.base c) :
      Step L m .leave (m.dispatch c m.cpu.task (exec 0 archContextrestoreI m.cpu))
  | switch {m ret} (hn : m.nested = []) (hi : m.cpu.enabled = false) (hr : m.Room L)
      (ht : m.Ready (cell (m.cpu.reg .r15))) :
      Step L m (.switch ret) (m.dispatch (m.cpu.caller ret) (cell (m.cpu.reg .r15))
        { exec 0 switchTasks (m.cpu.pushWord ret) with pc := Device.archContextSwitchRet })
  | init {m task stackParam stackSize proc param s} (hn : m.nested = [])
      (ht : cell task ≠ m.running)
      (hr : (L.bottom (cell task)).toNat + frames.size ≤ (cell (stackParam + stackSize - 2)).toNat)
      (htop : (cell (stackParam + stackSize - 2)).toNat ≤ (L.top (cell task)).toNat)
      (hs : archTaskInit task stackParam stackSize proc param m.cpu = .ok s) :
      Step L m (.init task stackParam stackSize proc param) { m with
        cpu := s
        suspended := Function.update m.suspended (cell task)
          (some (initialContext stackParam stackSize proc param)) }

end Steps

variable {L : Stacks} {m m' : Machine} {i : Move} {s : Cpu} {c : Context} {t a q : Addr}
  {mem mem' : Addr → Word} {ctxSp : Addr → Word} {l : List Context}

theorem saves_update (x : Word) :
    saves (Function.update ctxSp t x) = Function.update (saves ctxSp) t (cell x - 1) :=
  Function.comp_update (fun x => cell x - 1) ctxSp t x

theorem toNat_base (h : frames.size ≤ (c.sp - 1).toNat) :
    (frames.base c).toNat = (c.sp - 1).toNat - frames.size :=
  Layout.toNat_base h

/-- The cell of the status register lies in the frame. -/
theorem inside_sr (h : frames.Framed mem q c) (hq : q.toNat + frames.size < 2 ^ 15) :
    frames.Inside q (c.sp - 2) := by
  have hsp : c.sp - 1 = q + 14 := h.free
  have hsr : c.sp - 2 = q + 13 := by bv_omega
  change q.toNat + 14 < 2 ^ 15 at hq
  have hn : (q + 13).toNat = q.toNat + 13 := BitVec.toNat_add_of_lt (by
    change q.toNat + 13 < 2 ^ 15
    omega)
  rw [hsr]
  change q.toNat < (q + 13).toNat ∧ (q + 13).toNat ≤ q.toNat + 14
  omega

/-- An ISR starts only where interrupts are enabled. -/
theorem or_gie (h : s.enabled = true) : s.sr ||| gie = s.sr := by
  have hg : ∀ i < 16, i ≠ 3 → gie.getLsbD i = false := by decide
  apply BitVec.eq_of_getLsbD_eq
  intro i hi
  rw [BitVec.getLsbD_or]
  by_cases h3 : i = 3
  · subst h3
    rw [show s.sr.getLsbD 3 = true from h]
    rfl
  · rw [hg i hi h3, Bool.or_false]

/-! ## The invariant -/

structure Intact (L : Stacks) (m : Machine) : Prop where
  nesting : m.cpu.isrNesting = BitVec.ofNat 16 m.nested.length
  owner : m.nested = [] → m.cpu.task = m.running
  ready : m.Ready m.cpu.task
  aside : m.suspended m.running = none
  saved : Saved frames L.toStacks m.cpu.mem (saves m.cpu.ctxSp) m.suspended
  layers : Layered frames m.cpu.mem (L.bottom m.running).toNat (L.top m.running).toNat m.nested
  /-- The outermost ISR has saved the stack pointer. -/
  outermost : ∀ c, m.nested.getLast? = some c → saves m.cpu.ctxSp m.running = frames.base c
  within : m.Within L m.cpu.sp
  interruptible : ∀ c ∈ m.nested, c.interruptible = c

/-- What is written on the stack in use goes to no frame. -/
theorem Intact.kept (h : Intact L m)
    (hm : ∀ a, a.toNat ≤ (L.bottom m.running).toNat ∨ (m.cpu.sp - 1).toNat < a.toNat →
      mem' a = m.cpu.mem a)
    (ha : m.Holds a) : mem' a = m.cpu.mem a := by
  have htop := h.layers.roof_le
  obtain ⟨hb, ht⟩ := h.within
  apply hm
  rcases ha with ⟨t, ht', hin⟩ | ⟨c, hc, h₁, h₂⟩
  · obtain ⟨c, hc⟩ := Option.ne_none_iff_exists'.mp ht'
    have hne : m.running ≠ t := by
      rintro rfl
      rw [h.aside] at hc
      cases hc
    have hown := L.not_owns hne (h.saved.owns hc hin)
    by_contra hcon
    refine hown ⟨by omega, by omega⟩
  · have := h.layers.bounds hc
    omega

/-- Neither the innermost frame nor the cell that `mov.b` writes to belongs to anybody else. -/
theorem Intact.apart {b : Addr} (h : Intact L m) (hn : m.nested = c :: l)
    (hb : frames.Inside (frames.base c) b) (ha : Machine.Holds a { m with nested := l }) :
    a ≠ b ∧ a ≠ cell 0x0a20 := by
  have hl := h.layers
  rw [hn] at hl
  have hbounds := hl.bounds (List.mem_cons_self ..)
  have hown : L.Owns m.running b :=
    ⟨Nat.lt_of_le_of_lt hbounds.2.1 hb.1, Nat.le_trans hb.2 hbounds.2.2⟩
  obtain ⟨hlow, hroof, -, hl⟩ := hl
  have hq := toNat_base (c := c) (Nat.le_trans (Nat.le_add_left ..) hlow)
  rcases ha with ⟨t, ht, hin⟩ | ⟨c₁, hc₁, hin⟩
  · obtain ⟨x, hx⟩ := Option.ne_none_iff_exists'.mp ht
    have hne : m.running ≠ t := by
      rintro rfl
      rw [h.aside] at hx
      cases hx
    have hat := h.saved.owns hx hin
    refine ⟨?_, ?_⟩
    · rintro rfl
      exact L.not_owns hne hat hown
    · rintro rfl
      exact L.clear t hat
  · have hb₁ := hl.bounds hc₁
    have hat : L.Owns m.running a :=
      ⟨Nat.lt_of_le_of_lt hb₁.2.1 hin.1, Nat.le_trans hin.2 hb₁.2.2⟩
    refine ⟨?_, ?_⟩
    · rintro rfl
      change (L.bottom m.running).toNat + frames.size ≤ (c.sp - 1).toNat at hlow
      change (c.sp - 1).toNat ≤ _ at hroof
      obtain ⟨h₁, -⟩ := hin
      obtain ⟨-, h₂⟩ := hb
      omega
    · rintro rfl
      exact L.clear m.running hat

/-- The stack has no room for so many frames that the counter would wrap around. -/
theorem Intact.depth (h : Intact L m) : m.nested.length ≤ 2340 := by
  have hl : _ + 14 * m.nested.length ≤ (L.top m.running).toNat := h.layers.size_mul_length_le
  have := (L.top m.running).isLt
  omega

theorem nesting_succ (hl : l.length ≤ 2340) : BitVec.ofNat 16 l.length + 1 = 1 ↔ l = [] := by
  rw [← List.length_eq_zero_iff, ← BitVec.toNat_inj, BitVec.toNat_add, BitVec.toNat_ofNat]
  change (l.length % 2 ^ 16 + 1) % 2 ^ 16 = 1 ↔ _
  omega

theorem nesting_pred (hl : l.length ≤ 2340) : BitVec.ofNat 16 l.length - 1 = 0 ↔ l.length = 1 := by
  rw [← BitVec.toNat_inj, BitVec.toNat_sub, BitVec.toNat_ofNat]
  change (2 ^ 16 - 1 + l.length % 2 ^ 16) % 2 ^ 16 = 0 ↔ _
  omega

/-! ## What a step keeps -/

theorem Intact.code (h : Intact L m) (hn : s.isrNesting = m.cpu.isrNesting)
    (hc : s.taskCurrent = m.cpu.taskCurrent) (hs : s.ctxSp = m.cpu.ctxSp)
    (hm : ∀ a, m.Holds a → s.mem a = m.cpu.mem a) (hw : m.Within L s.sp) :
    Intact L { m with cpu := s } where
  nesting := hn.trans h.nesting
  owner hl := (congrArg cell hc).trans (h.owner hl)
  ready := by
    change m.Ready (cell s.taskCurrent)
    rw [hc]
    exact h.ready
  aside := h.aside
  saved := by
    change Saved frames L.toStacks s.mem (saves s.ctxSp) m.suspended
    rw [hs]
    exact h.saved.congr fun t ht a ha => hm a (Or.inl ⟨t, ht, ha⟩)
  layers := h.layers.congr (BitVec.isLt _) fun c hc a ha => hm a (Or.inr ⟨c, hc, ha⟩)
  outermost c hc := (congrArg (fun x => saves x m.running) hs).trans (h.outermost c hc)
  within := hw
  interruptible := h.interruptible

theorem Intact.pick {x : Word} (h : Intact L m) (hn : m.nested ≠ []) (ht : m.Ready (cell x)) :
    Intact L { m with cpu := { m.cpu with taskCurrent := x } } :=
  { h with
    owner := fun hl => absurd hl hn
    ready := ht }

theorem cell_base (c : Context) : cell (bytes (c.sp - 14)) - 1 = frames.base c := by
  rw [cell_bytes]
  change c.sp - 14 - 1 = c.sp - 1 - 14
  bv_omega

section Keeps
variable [Device]

theorem Intact.enter {v : Word} (h : Intact L m) (hi : m.cpu.enabled = true) (hr : m.Room L) :
    Intact L { m with
      cpu := exec 0 archContextstoreI (m.cpu.interrupt v)
      nested := m.cpu.context :: m.nested } := by
  obtain ⟨g, f, he⟩ := exec_contextstore (s := m.cpu) (v := v)
  have hsp : frames.size ≤ (m.cpu.context.sp - 1).toNat := Nat.le_trans (Nat.le_add_left ..) hr
  have hq := toNat_base hsp
  have hone : m.cpu.isrNesting + 1 = 1 ↔ m.nested = [] := by
    rw [h.nesting]
    exact nesting_succ h.depth
  have hm : ∀ a, m.Holds a → (m.cpu.pushes m.cpu.context.frame.reverse).mem a = m.cpu.mem a :=
    fun a => h.kept fun a ha => mem_pushes_frame hr ha
  have hf := framed_pushes (s := m.cpu) (c := m.cpu.context) rfl hsp
  have hcur : (m.cpu.pushes m.cpu.context.frame.reverse).taskCurrent = m.cpu.taskCurrent := rfl
  generalize hmem : m.cpu.pushes m.cpu.context.frame.reverse = s₁ at he hm hf hcur
  rw [he]
  refine ⟨?_, fun hl => absurd hl (List.cons_ne_nil _ _), ?_, h.aside, ?_,
    ⟨hr, h.within.2, hf, ?_⟩, ?_, ?_, ?_⟩
  · change m.cpu.isrNesting + 1 = _
    rw [h.nesting, List.length_cons, BitVec.ofNat_add]
    rfl
  · change m.Ready (cell s₁.taskCurrent)
    rw [hcur]
    exact h.ready
  · have hsaved := h.saved.congr fun t ht a ha => hm a (Or.inl ⟨t, ht, ha⟩)
    change Saved frames _ _ (saves (if m.cpu.isrNesting + 1 = 1 then _ else _)) m.suspended
    split
    · next h1 =>
      rw [h.owner (hone.mp h1), saves_update]
      exact hsaved.unused h.aside
    · exact hsaved
  · exact h.layers.congr (BitVec.isLt _) fun c hc a ha => hm a (Or.inr ⟨c, hc, ha⟩)
  · intro c hc
    change saves (if m.cpu.isrNesting + 1 = 1 then
      Function.update m.cpu.ctxSp m.cpu.task (bytes (m.cpu.sp - 14))
        else m.cpu.ctxSp) m.running = _
    cases hl : m.nested with
    | nil =>
      rw [hl] at hc
      cases hc
      rw [if_pos (hone.mpr hl), h.owner hl, saves_update, Function.update_self]
      exact cell_base m.cpu.context
    | cons c' l =>
      rw [if_neg (fun h1 => by rw [hone.mp h1] at hl; cases hl)]
      rw [hl, List.getLast?_cons_cons, ← hl] at hc
      exact h.outermost c hc
  · change Machine.Within L s₁.sp _
    rw [← hmem, sp_pushes_frame]
    have hb : m.cpu.sp - 14 - 1 = frames.base m.cpu.context := by
      rw [← cell_base, cell_bytes]
      rfl
    refine ⟨?_, ?_⟩
    · rw [hb, hq]
      exact Nat.le_sub_of_add_le hr
    · rw [hb]
      exact Nat.le_refl _
  · intro c hc
    obtain rfl | hc := List.mem_cons.mp hc
    · exact congrArg (fun x => { m.cpu.context with sr := x }) (or_gie hi)
    · exact h.interruptible c hc

/-- An ISR inside another one returns to it. -/
theorem Intact.leave {c' : Context} (h : Intact L m) (hn : m.nested = c :: c' :: l)
    (hs : m.cpu.sp - 1 = frames.base c) :
    (exec 0 archContextrestoreI m.cpu).context = c ∧
      Intact L { m with cpu := exec 0 archContextrestoreI m.cpu, nested := c' :: l } := by
  have hlen : m.nested.length = l.length + 2 := by rw [hn]; rfl
  have hne : m.cpu.isrNesting - 1 ≠ 0 := by
    rw [h.nesting, ne_eq, nesting_pred h.depth, hlen]
    omega
  have hl := h.layers
  rw [hn] at hl
  have hbounds := hl.bounds (List.mem_cons_self ..)
  have htop := (L.top m.running).isLt
  have hclear := L.clear m.running
  obtain ⟨hb, ht, hc, hl⟩ := hl
  have hq := toNat_base (c := c) (Nat.le_trans (Nat.le_add_left ..) hb)
  rw [← hs] at hc
  have hout : ¬ frames.Inside (m.cpu.sp - 1) (cell 0x0a20) := by
    rw [hs]
    intro hin
    exact hclear ⟨Nat.lt_of_le_of_lt hbounds.2.1 hin.1, Nat.le_trans hin.2 hbounds.2.2⟩
  have hlt : (m.cpu.sp - 1).toNat + frames.size < 2 ^ 15 := by
    rw [hs]
    omega
  obtain ⟨mem', hm, he⟩ := exec_contextrestore_nested hne hc hlt hout
  have hint : c.interruptible = c := h.interruptible c (by
    rw [hn]
    exact List.mem_cons_self ..)
  rw [hint] at he
  rw [hs] at hc hlt
  have hkeep : ∀ a, Machine.Holds a { m with nested := c' :: l } → mem' a = m.cpu.mem a := by
    intro a ha
    obtain ⟨h₁, h₂⟩ := h.apart hn (inside_sr hc hlt) ha
    exact hm a h₁ h₂
  rw [he]
  refine ⟨rfl, ?_, fun h => ?_, h.ready, h.aside, ?_, ?_, ?_, ?_, ?_⟩
  · change m.cpu.isrNesting - 1 = BitVec.ofNat 16 (l.length + 1)
    rw [h.nesting, hlen, BitVec.ofNat_add l.length.succ 1]
    exact BitVec.add_sub_cancel _ _
  · cases h
  · exact h.saved.congr fun t ht a ha => hkeep a (Or.inl ⟨t, ht, ha⟩)
  · exact hl.congr (BitVec.isLt _) fun c₁ hc₁ a ha => hkeep a (Or.inr ⟨c₁, hc₁, ha⟩)
  · intro c₁ hc₁
    apply h.outermost
    rw [hn, List.getLast?_cons_cons]
    exact hc₁
  · refine ⟨?_, ht⟩
    change (L.bottom m.running).toNat ≤ (c.sp - 1).toNat
    change (L.bottom m.running).toNat + frames.size ≤ (c.sp - 1).toNat at hb
    omega
  · intro c₁ hc₁
    apply h.interruptible
    rw [hn]
    exact List.mem_cons_of_mem _ hc₁

omit [Device] in
/-- The task whose turn it is has its frame on its stack. -/
theorem exists_frame {σ : Addr → Option Context} (hσ : Saved frames L.toStacks mem (saves ctxSp)
    (Function.update σ q (some c))) (ht : t = q ∨ σ t ≠ none) :
    ∃ c', Function.update σ q (some c) t = some c' ∧ frames.Framed mem (saves ctxSp t) c' := by
  have hc : ∃ c', Function.update σ q (some c) t = some c' := by
    by_cases he : t = q
    · rw [he]
      exact ⟨c, Function.update_self ..⟩
    · rw [Function.update_of_ne he]
      exact Option.ne_none_iff_exists'.mp (ht.resolve_left he)
  obtain ⟨c', hc⟩ := hc
  exact ⟨c', hc, (hσ t c' hc).2.2⟩

omit [Device] in
/-- It takes the CPU. Only the word of the status register is changed in its frame. -/
theorem intact_dispatch {c' : Context} (hσ : Saved frames L.toStacks mem (saves s.ctxSp)
    (Function.update m.suspended m.running (some c)))
    (hc : Function.update m.suspended m.running (some c) t = some c') (hn : s.isrNesting = 0)
    (ht : s.task = t) (hm : ∀ a, a ≠ c'.sp - 2 → s.mem a = mem a)
    (hsp : s.sp = c'.sp ∨ s.sp = c'.sp - 1) : Intact L (m.dispatch c t s) := by
  obtain ⟨hb, htop, hf⟩ := hσ t c' hc
  have hlt := Nat.lt_of_le_of_lt htop (L.top t).isLt
  have hown := hσ.owns hc (inside_sr hf hlt)
  have hfree : (c'.sp - 1).toNat = (saves s.ctxSp t).toNat + frames.size := hf.toNat_free hlt
  have hone : (c'.sp - 1 - 1).toNat = (c'.sp - 1).toNat - 1 := toNat_sub_one (by
    rw [hfree]
    exact Nat.succ_le_of_lt (Nat.lt_add_left _ (by decide)))
  have h14 : frames.size = 14 := rfl
  refine ⟨hn, fun _ => ht, Or.inl ht, Function.update_self .., hσ.take fun a ha => hm a ?_, trivial,
    fun x hx => ?_, ?_, fun x hx => ?_⟩
  · rintro rfl
    exact ha hown
  · cases hx
  · change (L.bottom t).toNat ≤ (s.sp - 1).toNat ∧ (s.sp - 1).toNat ≤ (L.top t).toNat
    rcases hsp with hsp | hsp
    · rw [hsp]
      omega
    · rw [hsp]
      omega
  · cases hx

/-- The outermost ISR returns to the task whose turn it is. -/
theorem Intact.leaveLast (h : Intact L m) (hn : m.nested = [c]) :
    m.awaited .leave = some (exec 0 archContextrestoreI m.cpu).context ∧
      Intact L (m.dispatch c m.cpu.task (exec 0 archContextrestoreI m.cpu)) := by
  have hlen : m.nested.length = 1 := by rw [hn]; rfl
  have h0 : m.cpu.isrNesting - 1 = 0 := by
    rw [h.nesting, nesting_pred h.depth, hlen]
  have hl := h.layers
  rw [hn] at hl
  have hbounds := hl.bounds (List.mem_cons_self ..)
  obtain ⟨-, -, hc, -⟩ := hl
  have hσ := h.saved.put (t := m.running) (fun _ _ => rfl) hbounds.2.1 hbounds.2.2 hc
  rw [← h.outermost c (by rw [hn]; rfl), Function.update_eq_self] at hσ
  obtain ⟨c', hc', hf⟩ := exists_frame hσ h.ready
  obtain ⟨mem', hm, he⟩ := exec_contextrestore_last h0 hf
  rw [he]
  refine ⟨?_, intact_dispatch hσ hc' h0 rfl hm (Or.inl rfl)⟩
  rw [Machine.awaited, hn]
  change (Function.update m.suspended m.running (some c) m.cpu.task).map _ = _
  rw [hc']
  rfl

theorem Intact.switch {ret : Word} (h : Intact L m) (hn : m.nested = []) (hr : m.Room L)
    (ht : m.Ready (cell (m.cpu.reg .r15))) :
    m.awaited (.switch ret) = some (exec 0 archContextSwitch (m.cpu.pushWord ret)).context ∧
      Intact L (m.dispatch (m.cpu.caller ret) (cell (m.cpu.reg .r15))
        { exec 0 switchTasks (m.cpu.pushWord ret) with pc := Device.archContextSwitchRet }) := by
  obtain ⟨hb, htop⟩ := h.within
  rw [hn] at htop
  change (m.cpu.sp - 1).toNat ≤ (L.top m.running).toNat at htop
  have hsp : frames.size ≤ (m.cpu.sp - 1).toNat := Nat.le_trans (Nat.le_add_left ..) hr
  have hq := toNat_base (c := m.cpu.caller ret) hsp
  change (L.bottom m.running).toNat + frames.size ≤ (m.cpu.sp - 1).toNat at hr
  change (frames.base (m.cpu.caller ret)).toNat = (m.cpu.sp - 1).toNat - frames.size at hq
  have hm : ∀ a, ¬ L.Owns m.running a → (m.cpu.switched ret).mem a = m.cpu.mem a := by
    intro a ha
    refine mem_pushes_frame (b := (L.bottom m.running).toNat) hr ?_
    by_contra hcon
    exact ha ⟨by omega, by omega⟩
  have hf₁ := framed_pushes (c := m.cpu.caller ret) rfl hsp
  have hσ := h.saved.put hm (by omega) (by omega) hf₁
  have hfree : saves (m.cpu.switched ret).ctxSp = Function.update (saves m.cpu.ctxSp) m.running
      (frames.base (m.cpu.caller ret)) := by
    rw [← cell_base, ← h.owner hn]
    exact saves_update _
  rw [← hfree] at hσ
  obtain ⟨c', hc', hf⟩ := exists_frame hσ ht
  obtain ⟨mem', hmem, hpc, he⟩ := exec_switchTasks (s := m.cpu) ret hf
  have h0 : m.cpu.isrNesting = 0 := by
    rw [h.nesting, hn]
    rfl
  rw [exec_archContextSwitch 0, he]
  refine ⟨?_, intact_dispatch hσ hc' h0 rfl hmem (Or.inr rfl)⟩
  change (Function.update m.suspended m.running (some (m.cpu.caller ret)) _).map Context.powered =
    some ⟨c'.reg, c'.powered.sr, mem' (c'.sp - 1), c'.sp - 1 + 1⟩
  rw [hc', hpc, BitVec.sub_add_cancel]
  rfl

theorem Intact.init {task stackParam stackSize proc param : Word} (h : Intact L m)
    (hn : m.nested = []) (ht : cell task ≠ m.running)
    (hr : (L.bottom (cell task)).toNat + frames.size ≤ (cell (stackParam + stackSize - 2)).toNat)
    (htop : (cell (stackParam + stackSize - 2)).toNat ≤ (L.top (cell task)).toNat)
    (hs : archTaskInit task stackParam stackSize proc param m.cpu = .ok s) :
    Intact L { m with
      cpu := s
      suspended := Function.update m.suspended (cell task)
        (some (initialContext stackParam stackSize proc param)) } := by
  obtain ⟨-, rfl⟩ := taskInit_ok hs
  let c : Context := initialContext stackParam stackSize proc param
  have hfree : c.sp - 1 = cell (stackParam + stackSize - 2) := BitVec.add_sub_cancel _ _
  have hbase : cell (stackParam + stackSize - 28) - 1 = frames.base c := by
    rw [cell_sub_frame, ← hfree]
    change c.sp - 1 - 13 - 1 = c.sp - 1 - 14
    bv_omega
  rw [← hfree] at hr htop
  have hq := toNat_base (c := c) (Nat.le_trans (Nat.le_add_left ..) hr)
  have hlen : c.frame.reverse.length = frames.size := List.length_reverse
  have hm : ∀ a, ¬ L.Owns (cell task) a →
      store m.cpu.mem (c.sp - 1) c.frame.reverse a = m.cpu.mem a := by
    intro a ha
    refine store_outside (by omega) ?_
    by_contra hcon
    exact ha ⟨by omega, by omega⟩
  have hf : frames.Framed (store m.cpu.mem (c.sp - 1) c.frame.reverse) (frames.base c) c :=
    Layout.framed_store (F := frames) m.cpu.mem (Nat.le_trans (Nat.le_add_left ..) hr)
  have hσ := h.saved.put hm (by omega) (by omega) hf
  rw [← hbase, ← saves_update, hfree] at hσ
  refine ⟨h.nesting, h.owner, Or.inl (h.owner hn), ?_, hσ, ?_, fun x hx => ?_, h.within,
    h.interruptible⟩
  · exact (Function.update_of_ne ht.symm _ _).trans h.aside
  · change Layered _ _ _ _ m.nested
    rw [hn]
    trivial
  · change m.nested.getLast? = some x at hx
    rw [hn] at hx
    cases hx

end Keeps

end RadOs.Msp430
