import RadOs.Avr.Sequences
import RadOs.Lib.Run

/-! # Contexts of tasks

The tasks of a program take turns on one CPU. They lose it in an ISR, after
which another task continues, or in `arch_context_switch`. The machine keeps
with the state of the CPU what every task that does not run was doing when it
lost it, and that is what it finds when the CPU comes back to it.
-/

namespace RadOs.Avr
open Descending

/-- How a task came to wait for the CPU, and with what. -/
inductive Suspended where
  | preempted (c : Context)
  | switched (c : Context)
  | created (proc param : Word)

/-- The registers that a function keeps. -/
def CallSaved (r : Reg) : Prop := 2 ≤ r ∧ r ≤ 17 ∨ r = 28 ∨ r = 29

/-- A task has the stack above `bottom`, up to `top`. -/
structure Stacks where
  bottom : Word → Word
  top : Word → Word
  disjoint : ∀ t t', t ≠ t' →
    (top t).toNat ≤ (bottom t').toNat ∨ (top t').toNat ≤ (bottom t).toNat

structure Machine where
  cpu : Cpu
  /-- the task whose stack is in use -/
  running : Word
  /-- the contexts that ISRs have interrupted, the innermost first -/
  nested : List Context
  /-- the tasks that wait for the CPU -/
  suspended : Word → Option Suspended

inductive Move where
  | code (s : Cpu)
  | pick (t : Word)
  | enter (vector : Word)
  | leave
  | switch (p : Reg) (ret : Word)
  | init (t proc param : Word)

/-- The counter is 1 in the outermost ISR only, as long as it does not wrap around. -/
theorem nesting_succ {n : ℕ} (hn : n < 256) : BitVec.ofNat 8 n + 1 = 1 ↔ n = 0 := by
  rw [← BitVec.toNat_inj, BitVec.toNat_add, BitVec.toNat_ofNat]
  change (n % 256 + 1) % 256 = 1 ↔ n = 0
  omega

theorem nesting_pred {n : ℕ} (hn : n ≤ 256) : BitVec.ofNat 8 n - 1 = 0 ↔ n = 1 := by
  rw [← BitVec.toNat_inj, BitVec.toNat_sub, BitVec.toNat_ofNat]
  change (256 - 1 + n % 256) % 256 = 0 ↔ n = 1
  omega

section Contexts
variable [Device]

/-- The task continues in the context `c`. -/
def Suspended.Continues (c : Context) : Suspended → Prop
  | .preempted c₀ => c = c₀
  | .switched c₀ => c.pc = c₀.pc ∧ c.sp = c₀.sp ∧ (∀ r, CallSaved r → c.reg r = c₀.reg r) ∧
      c.sreg.getLsbD 7 = false
  | .created proc param => c.pc = Device.archTaskStart ∧ word (c.reg 25) (c.reg 24) = proc ∧
      word (c.reg 23) (c.reg 22) = param ∧ c.reg 1 = 0 ∧ c.sreg.getLsbD 7 = true

/-- The stack pointer behind the frame of a context. -/
def Context.base (c : Context) : Word := c.sp - BitVec.ofNat 16 frameSize

def InFrame (q a : Word) : Prop := q.toNat < a.toNat ∧ a.toNat ≤ q.toNat + frameSize

theorem sp_pushes_frame {s : Cpu} :
    (s.pushes s.context.frame.reverse).sp = s.context.base := by
  rw [Cpu.pushes, List.length_reverse, length_frame]
  rfl

/-- How far the stack in use may be emptied. -/
def roof (top : ℕ) : List Context → ℕ
  | [] => top
  | c :: _ => c.base.toNat

namespace Machine

def Ready (t : Word) (m : Machine) : Prop := t = m.running ∨ m.suspended t ≠ none

/-- The cells of the frames. -/
def Holds (a : Word) (m : Machine) : Prop :=
  (∃ t, m.suspended t ≠ none ∧ InFrame (m.cpu.ctxSp t) a) ∨ ∃ c ∈ m.nested, InFrame c.base a

/-- The stack in use neither overflows nor is emptied too far at the stack pointer `p`. -/
def Within (L : Stacks) (p : Word) (m : Machine) : Prop :=
  (L.bottom m.running).toNat ≤ p.toNat ∧ p.toNat ≤ roof (L.top m.running).toNat m.nested

/-- There is room for one more frame. -/
def Room (L : Stacks) (m : Machine) : Prop :=
  (L.bottom m.running).toNat + frameSize ≤ m.cpu.sp.toNat

/-- The running task is set aside, and the task `t` takes the CPU. -/
def dispatch (x : Suspended) (t : Word) (s : Cpu) (m : Machine) : Machine where
  cpu := s
  running := t
  nested := []
  suspended := Function.update (Function.update m.suspended m.running (some x)) t none

/-- What has to continue after the step. -/
def awaited (m : Machine) : Move → Option Suspended
  | .leave =>
    match m.nested with
    | [] => none
    | [c] => Function.update m.suspended m.running (some (.preempted c)) m.cpu.taskCurrent
    | c :: _ => some (.preempted c)
  | .switch p ret =>
    Function.update m.suspended m.running (some (.switched { m.cpu.context with pc := ret }))
      (m.cpu.pair p)
  | _ => none

end Machine

/-- One step. Any code may run in between that leaves the frames and the variables of the kernel
alone. Only the outermost ISR and `arch_context_switch` change `task_current`. -/
inductive Step (L : Stacks) : Machine → Move → Machine → Prop
  | code {m s} (hn : s.isrNesting = m.cpu.isrNesting) (hc : s.taskCurrent = m.cpu.taskCurrent)
      (hs : s.ctxSp = m.cpu.ctxSp) (hm : ∀ a, m.Holds a → s.mem a = m.cpu.mem a)
      (hw : m.Within L s.sp) : Step L m (.code s) { m with cpu := s }
  | pick {m t} (hn : m.nested ≠ []) (h1 : m.cpu.isrNesting ≤ 1) (ht : m.Ready t) :
      Step L m (.pick t) { m with cpu := { m.cpu with taskCurrent := t } }
  | enter {m v} (hi : m.cpu.i = true) (hr : m.Room L) :
      Step L m (.enter v) { m with
        cpu := exec 0 archContextstoreI (m.cpu.interrupt v)
        nested := m.cpu.context :: m.nested }
  | leave {m c c' l} (hn : m.nested = c :: c' :: l) (hs : m.cpu.sp = c.base) :
      Step L m .leave { m with cpu := exec 0 archContextrestoreI m.cpu, nested := c' :: l }
  | leaveLast {m c} (hn : m.nested = [c]) (hs : m.cpu.sp = c.base) :
      Step L m .leave (m.dispatch (.preempted c) m.cpu.taskCurrent
        (exec 0 archContextrestoreI m.cpu))
  | switch {m p ret} (hn : m.nested = []) (hi : m.cpu.i = false) (hr : m.Room L) (hp : Free p)
      (ht : m.Ready (m.cpu.pair p)) :
      Step L m (.switch p ret) (m.dispatch (.switched { m.cpu.context with pc := ret })
        (m.cpu.pair p) (exec 0 (archContextSwitch p) (m.cpu.pushPc ret)))
  | init {m t proc param} (hn : m.nested = []) (ht : t ≠ m.running)
      (hr : (L.bottom t).toNat + frameSize ≤ (L.top t).toNat) :
      Step L m (.init t proc param) { m with
        cpu := archTaskInit t (L.bottom t + 1) (L.top t - L.bottom t) proc param m.cpu
        suspended := Function.update m.suspended t (some (.created proc param)) }

variable {L : Stacks} {m m' : Machine} {i : Move} {s : Cpu} {c : Context} {x y : Suspended}
  {t p q a : Word} {mem mem' : Word → Byte} {ctxSp : Word → Word}
  {σ : Word → Option Suspended} {l : List Context} {bottom top : ℕ}

/-! ## The tasks that wait -/

/-- Every task that waits has its frame on its stack. -/
def Saved (L : Stacks) (mem : Word → Byte) (ctxSp : Word → Word) (σ : Word → Option Suspended) :
    Prop :=
  ∀ t x, σ t = some x → (L.bottom t).toNat ≤ (ctxSp t).toNat ∧
    (ctxSp t).toNat + frameSize ≤ (L.top t).toNat ∧ ∃ c, Framed mem (ctxSp t) c ∧ x.Continues c

theorem Saved.congr (h : Saved L mem ctxSp σ)
    (hm : ∀ t, σ t ≠ none → ∀ a, InFrame (ctxSp t) a → mem' a = mem a) :
    Saved L mem' ctxSp σ := by
  intro t x hx
  obtain ⟨hb, ht, c, hc, hx'⟩ := h t x hx
  have hne : σ t ≠ none := by simp [hx]
  exact ⟨hb, ht, c, hc.congr (by omega) fun a h₁ h₂ => hm t hne a ⟨h₁, h₂⟩, hx'⟩

/-- A task is put aside. Nothing was written but to its own stack. -/
theorem Saved.put (h : Saved L mem ctxSp σ)
    (hm : ∀ a, a.toNat ≤ (L.bottom t).toNat ∨ (L.top t).toNat < a.toNat → mem' a = mem a)
    (hb : (L.bottom t).toNat ≤ q.toNat) (ht : q.toNat + frameSize ≤ (L.top t).toNat)
    (hc : Framed mem' q c) (hx : x.Continues c) :
    Saved L mem' (Function.update ctxSp t q) (Function.update σ t (some x)) := by
  intro t' y hy
  by_cases he : t' = t
  · subst he
    rw [Function.update_self] at hy ⊢
    cases hy
    exact ⟨hb, ht, c, hc, hx⟩
  · rw [Function.update_of_ne he] at hy ⊢
    obtain ⟨hb', ht', c', hc', hy'⟩ := h t' y hy
    have hd := L.disjoint t' t he
    exact ⟨hb', ht', c', hc'.congr (by omega) fun a h₁ h₂ => hm a (by omega), hy'⟩

theorem Saved.drop (h : Saved L mem ctxSp σ) : Saved L mem ctxSp (Function.update σ t none) := by
  intro t' y hy
  by_cases he : t' = t
  · subst he
    rw [Function.update_self] at hy
    cases hy
  · rw [Function.update_of_ne he] at hy
    exact h t' y hy

/-- The saved stack pointer of a task that does not wait says nothing. -/
theorem Saved.free (h : Saved L mem ctxSp σ) (ht : σ t = none) :
    Saved L mem (Function.update ctxSp t q) σ := by
  intro t' y hy
  have hne : t' ≠ t := by
    rintro rfl
    rw [ht] at hy
    cases hy
  rw [Function.update_of_ne hne]
  exact h t' y hy

/-! ## The ISRs on the stack in use -/

/-- The frames lie one below the other. -/
def Layered (mem : Word → Byte) (bottom top : ℕ) : List Context → Prop
  | [] => True
  | c :: l => bottom + frameSize ≤ c.sp.toNat ∧ c.sp.toNat ≤ roof top l ∧ Framed mem c.base c ∧
      Layered mem bottom top l

theorem toNat_below (h : frameSize ≤ p.toNat) :
    (p - BitVec.ofNat 16 frameSize).toNat = p.toNat - frameSize := by
  have hf : (BitVec.ofNat 16 frameSize).toNat = frameSize := by
    rw [BitVec.toNat_ofNat, Nat.mod_eq_of_lt frameSize_lt]
  rw [BitVec.toNat_sub_of_le (by rwa [BitVec.le_def, hf]), hf]

theorem toNat_base (h : frameSize ≤ c.sp.toNat) : c.base.toNat = c.sp.toNat - frameSize :=
  toNat_below h

theorem Layered.congr (h : Layered mem bottom top l)
    (hm : ∀ c ∈ l, ∀ a, InFrame c.base a → mem' a = mem a) : Layered mem' bottom top l := by
  induction l with
  | nil => trivial
  | cons c l ih =>
    obtain ⟨hb, ht, hc, hl⟩ := h
    have hq := toNat_base (c := c) (by omega)
    refine ⟨hb, ht, hc.congr (by omega) fun a h₁ h₂ => ?_, ih hl fun c' hc' => ?_⟩
    · exact hm c (List.mem_cons_self ..) a ⟨h₁, h₂⟩
    · exact hm c' (List.mem_cons_of_mem _ hc')

theorem Layered.roof_le (h : Layered mem bottom top l) : roof top l ≤ top := by
  induction l with
  | nil => exact Nat.le_refl _
  | cons c l ih =>
    obtain ⟨hb, ht, -, hl⟩ := h
    have hq := toNat_base (c := c) (by omega)
    have := ih hl
    rw [roof]
    omega

/-- Each frame lies above the innermost one and below the top. -/
theorem Layered.bounds (h : Layered mem bottom top l) (hc : c ∈ l) :
    roof top l ≤ c.base.toNat ∧ bottom ≤ c.base.toNat ∧ c.base.toNat + frameSize ≤ top := by
  induction l with
  | nil => cases hc
  | cons c' l ih =>
    obtain ⟨hb, ht, -, hl⟩ := h
    have hq := toNat_base (c := c') (by omega)
    have hr := hl.roof_le
    rw [roof]
    rcases List.mem_cons.mp hc with rfl | hc
    · omega
    · have := ih hl hc
      omega

/-! ## The invariant -/

structure Intact (L : Stacks) (m : Machine) : Prop where
  nesting : m.cpu.isrNesting = BitVec.ofNat 8 m.nested.length
  depth : m.nested.length ≤ 256
  owner : m.nested = [] → m.cpu.taskCurrent = m.running
  ready : m.Ready m.cpu.taskCurrent
  aside : m.suspended m.running = none
  saved : Saved L m.cpu.mem m.cpu.ctxSp m.suspended
  layers : Layered m.cpu.mem (L.bottom m.running).toNat (L.top m.running).toNat m.nested
  /-- The outermost ISR has saved the stack pointer. -/
  outermost : ∀ c, m.nested.getLast? = some c → m.cpu.ctxSp m.running = c.base
  within : m.Within L m.cpu.sp

/-- What is written on the stack in use goes to no frame. -/
theorem Intact.kept (h : Intact L m)
    (hm : ∀ a, a.toNat ≤ (L.bottom m.running).toNat ∨ m.cpu.sp.toNat < a.toNat → mem' a = m.cpu.mem a)
    (ha : m.Holds a) : mem' a = m.cpu.mem a := by
  have htop := h.layers.roof_le
  obtain ⟨hb, ht⟩ := h.within
  apply hm
  rcases ha with ⟨t, ht', h₁, h₂⟩ | ⟨c, hc, h₁, h₂⟩
  · obtain ⟨x, hx⟩ := Option.ne_none_iff_exists'.mp ht'
    have hne : t ≠ m.running := by
      rintro rfl
      rw [h.aside] at hx
      cases hx
    obtain ⟨hb', ht', -⟩ := h.saved t x hx
    have hd := L.disjoint t m.running hne
    omega
  · have := h.layers.bounds hc
    omega

/-! ## What a step keeps -/

theorem Intact.code (h : Intact L m) (hn : s.isrNesting = m.cpu.isrNesting)
    (hc : s.taskCurrent = m.cpu.taskCurrent) (hs : s.ctxSp = m.cpu.ctxSp)
    (hm : ∀ a, m.Holds a → s.mem a = m.cpu.mem a) (hw : m.Within L s.sp) :
    Intact L { m with cpu := s } where
  nesting := hn.trans h.nesting
  depth := h.depth
  owner hl := hc.trans (h.owner hl)
  ready := by
    change m.Ready s.taskCurrent
    rw [hc]
    exact h.ready
  aside := h.aside
  saved := by
    change Saved L s.mem s.ctxSp m.suspended
    rw [hs]
    exact h.saved.congr fun t ht a ha => hm a (Or.inl ⟨t, ht, ha⟩)
  layers := h.layers.congr fun c hc a ha => hm a (Or.inr ⟨c, hc, ha⟩)
  outermost c hc := (congrFun hs _).trans (h.outermost c hc)
  within := hw

theorem Intact.pick (h : Intact L m) (hn : m.nested ≠ []) (ht : m.Ready t) :
    Intact L { m with cpu := { m.cpu with taskCurrent := t } } :=
  { h with
    owner := fun hl => absurd hl hn
    ready := ht }

theorem Intact.enter {v : Word} (h : Intact L m) (hi : m.cpu.i = true) (hr : m.Room L)
    (hd : m.nested.length < 256) :
    Intact L { m with
      cpu := exec 0 archContextstoreI (m.cpu.interrupt v)
      nested := m.cpu.context :: m.nested } := by
  obtain ⟨g, f, he⟩ := exec_contextstore (s := m.cpu) (v := v) hi
  have hsp : frameSize ≤ m.cpu.sp.toNat := Nat.le_trans (Nat.le_add_left ..) hr
  have hq := toNat_base (c := m.cpu.context) hsp
  have hone : m.cpu.isrNesting + 1 = 1 ↔ m.nested = [] := by
    rw [h.nesting, nesting_succ hd, List.length_eq_zero_iff]
  have hlen : m.cpu.context.frame.reverse.length = frameSize := by
    rw [List.length_reverse, length_frame]
  have hm : ∀ a, m.Holds a → (m.cpu.pushes m.cpu.context.frame.reverse).mem a = m.cpu.mem a :=
    fun a => h.kept fun a ha => Cpu.mem_pushes (by rw [hlen]; exact hr) ha
  rw [he]
  refine ⟨?_, Nat.succ_le_of_lt hd, fun hl => absurd hl (List.cons_ne_nil _ _), h.ready, h.aside,
    ?_, ⟨hr, h.within.2, framed_context hsp, ?_⟩, ?_, ?_⟩
  · change m.cpu.isrNesting + 1 = _
    rw [h.nesting, List.length_cons, BitVec.ofNat_add]
    rfl
  · have hsaved := h.saved.congr fun t ht a ha => hm a (Or.inl ⟨t, ht, ha⟩)
    change Saved L _ (if m.cpu.isrNesting + 1 = 1 then _ else _) m.suspended
    split
    · next h1 =>
      rw [h.owner (hone.mp h1)]
      exact hsaved.free h.aside
    · exact hsaved
  · exact h.layers.congr fun c hc a ha => hm a (Or.inr ⟨c, hc, ha⟩)
  · intro c hc
    change (if m.cpu.isrNesting + 1 = 1 then
      Function.update m.cpu.ctxSp m.cpu.taskCurrent m.cpu.context.base
        else m.cpu.ctxSp) m.running = _
    cases hl : m.nested with
    | nil =>
      rw [hl] at hc
      cases hc
      rw [if_pos (hone.mpr hl), h.owner hl]
      exact Function.update_self ..
    | cons c' l =>
      rw [if_neg (fun h1 => by rw [hone.mp h1] at hl; cases hl)]
      rw [hl, List.getLast?_cons_cons, ← hl] at hc
      exact h.outermost c hc
  · change Machine.Within L (m.cpu.pushes m.cpu.context.frame.reverse).sp _
    rw [sp_pushes_frame]
    refine ⟨?_, Nat.le_refl _⟩
    rw [hq]
    exact Nat.le_sub_of_add_le hr

/-- An ISR inside another one returns to it. -/
theorem Intact.leave {c' : Context} (h : Intact L m) (hn : m.nested = c :: c' :: l)
    (hs : m.cpu.sp = c.base) :
    (exec 0 archContextrestoreI m.cpu).context = c ∧
      Intact L { m with cpu := exec 0 archContextrestoreI m.cpu, nested := c' :: l } := by
  have hlen : m.nested.length = l.length + 2 := by rw [hn]; rfl
  have hne : ¬ m.cpu.isrNesting - 1 = 0 := by
    rw [h.nesting, nesting_pred h.depth, hlen]
    omega
  have hl := h.layers
  rw [hn] at hl
  obtain ⟨hb, ht, hc, hl⟩ := hl
  have he : exec 0 archContextrestoreI m.cpu =
      { m.cpu with isrNesting := m.cpu.isrNesting - 1 }.resume c := by
    refine exec_contextrestore ?_
    rwa [if_neg hne, hs]
  rw [he]
  refine ⟨context_resume hc.rampz, ?_, ?_, fun h => ?_, h.ready, h.aside, h.saved, hl, ?_, ?_, ht⟩
  · change m.cpu.isrNesting - 1 = BitVec.ofNat 8 (l.length + 1)
    rw [h.nesting, hlen, BitVec.ofNat_add l.length.succ 1]
    exact BitVec.add_sub_cancel _ _
  · have := h.depth
    change l.length + 1 ≤ 256
    omega
  · cases h
  · intro c₁ hc₁
    apply h.outermost
    rw [hn, List.getLast?_cons_cons]
    exact hc₁
  · change (L.bottom m.running).toNat ≤ c.sp.toNat
    omega

/-- The task whose turn it is goes on in the context of its frame. -/
theorem dispatch_resumes (hσ : Saved L s.mem s.ctxSp (Function.update m.suspended m.running (some x)))
    (ht : m.Ready t) (hn : s.isrNesting = 0) (hc : s.taskCurrent = t) :
    ∃ c y, Framed s.mem (s.ctxSp t) c ∧
      Function.update m.suspended m.running (some x) t = some y ∧ y.Continues c ∧
      Intact L (m.dispatch x t (s.resume c)) := by
  have hy : ∃ y, Function.update m.suspended m.running (some x) t = some y := by
    by_cases he : t = m.running
    · rw [he]
      exact ⟨x, Function.update_self ..⟩
    · rw [Function.update_of_ne he]
      exact Option.ne_none_iff_exists'.mp (ht.resolve_left he)
  obtain ⟨y, hy⟩ := hy
  obtain ⟨hb, htop, c, hf, hyc⟩ := hσ t y hy
  have hsp : c.sp.toNat = (s.ctxSp t).toNat + frameSize := by
    rw [hf.sp, BitVec.toNat_add_of_lt] <;> rw [BitVec.toNat_ofNat, Nat.mod_eq_of_lt frameSize_lt]
    omega
  refine ⟨c, y, hf, hy, hyc, hn, Nat.zero_le _, fun _ => hc, Or.inl hc, Function.update_self ..,
    hσ.drop, trivial, fun c' hc' => ?_, ?_, ?_⟩
  · cases hc'
  · change (L.bottom t).toNat ≤ c.sp.toNat
    omega
  · change c.sp.toNat ≤ (L.top t).toNat
    omega

/-- The outermost ISR returns to the task whose turn it is. -/
theorem Intact.leaveLast (h : Intact L m) (hn : m.nested = [c]) :
    (∃ y, m.awaited .leave = some y ∧ y.Continues (exec 0 archContextrestoreI m.cpu).context) ∧
      Intact L (m.dispatch (.preempted c) m.cpu.taskCurrent (exec 0 archContextrestoreI m.cpu)) := by
  have hlen : m.nested.length = 1 := by rw [hn]; rfl
  have h0 : m.cpu.isrNesting - 1 = 0 := by
    rw [h.nesting, nesting_pred h.depth, hlen]
  have hl := h.layers
  rw [hn] at hl
  obtain ⟨hb, ht, hc, -⟩ := hl
  have hq := toNat_base (c := c) (by omega)
  have hout : m.cpu.ctxSp m.running = c.base := h.outermost c (by rw [hn]; rfl)
  change c.sp.toNat ≤ (L.top m.running).toNat at ht
  have hσ := h.saved.put (t := m.running) (x := .preempted c) (fun _ _ => rfl)
    (by omega) (by omega) hc rfl
  rw [← hout, Function.update_eq_self] at hσ
  obtain ⟨c', y, hf, hy, hyc, hI⟩ := dispatch_resumes
    (s := { m.cpu with isrNesting := m.cpu.isrNesting - 1 }) hσ h.ready h0 rfl
  have he : exec 0 archContextrestoreI m.cpu =
      { m.cpu with isrNesting := m.cpu.isrNesting - 1 }.resume c' := by
    refine exec_contextrestore ?_
    rwa [if_pos h0]
  rw [he]
  refine ⟨⟨y, ?_, ?_⟩, hI⟩
  · rw [Machine.awaited, hn]
    exact hy
  · rwa [context_resume hf.rampz]

omit [Device] in
theorem callSaved_not_skipped : ∀ r, CallSaved r → r ∉ skippedRegs := by
  unfold CallSaved
  decide

theorem Intact.switch {p : Reg} {ret : Word} (h : Intact L m) (hn : m.nested = []) (hr : m.Room L)
    (hp : Free p) (ht : m.Ready (m.cpu.pair p)) :
    (∃ y, m.awaited (.switch p ret) = some y ∧
      y.Continues (exec 0 (archContextSwitch p) (m.cpu.pushPc ret)).context) ∧
      Intact L (m.dispatch (.switched { m.cpu.context with pc := ret }) (m.cpu.pair p)
        (exec 0 (archContextSwitch p) (m.cpu.pushPc ret))) := by
  have hsp : frameSize ≤ m.cpu.sp.toNat := Nat.le_trans (Nat.le_add_left ..) hr
  have hq := toNat_base (c := m.cpu.context) hsp
  obtain ⟨hb, htop⟩ := h.within
  rw [hn] at htop
  obtain ⟨c₁, hf₁, hpc, hsreg, hreg⟩ := framed_switched (s := m.cpu) ret hsp
  have hlen := length_switchedBytes m.cpu ret
  have hx : (Suspended.switched { m.cpu.context with pc := ret }).Continues c₁ := by
    refine ⟨hpc, hf₁.sp.trans (BitVec.sub_add_cancel _ _), fun r hr => ?_, ?_⟩
    · exact hreg r (callSaved_not_skipped r hr)
    · rw [hsreg]
      decide
  change (L.bottom m.running).toNat + frameSize ≤ m.cpu.sp.toNat at hr
  change m.cpu.context.base.toNat = m.cpu.sp.toNat - frameSize at hq
  change m.cpu.sp.toNat ≤ (L.top m.running).toNat at htop
  have hm : ∀ a, a.toNat ≤ (L.bottom m.running).toNat ∨ (L.top m.running).toNat < a.toNat →
      (m.cpu.switched ret).mem a = m.cpu.mem a := fun a ha =>
    Cpu.mem_pushes (b := (L.bottom m.running).toNat) (by omega) (by omega)
  have hσ := h.saved.put (q := m.cpu.context.base) hm (by omega) (by omega) hf₁ hx
  obtain ⟨c, y, hf, hy, hyc, hI⟩ := dispatch_resumes
    (s := { m.cpu with
      mem := (m.cpu.switched ret).mem
      taskCurrent := m.cpu.pair p
      ctxSp := Function.update m.cpu.ctxSp m.running m.cpu.context.base })
    hσ ht (by rw [h.nesting, hn]; rfl) rfl
  have he := exec_contextSwitch (s := m.cpu) (c := c) ret hp
    (by rw [h.owner hn]; exact hf)
  rw [h.owner hn] at he
  rw [he]
  refine ⟨⟨y, hy, ?_⟩, hI⟩
  rwa [context_resume hf.rampz]

theorem Intact.init {proc param : Word} (h : Intact L m) (hn : m.nested = []) (ht : t ≠ m.running)
    (hr : (L.bottom t).toNat + frameSize ≤ (L.top t).toNat) :
    Intact L { m with
      cpu := archTaskInit t (L.bottom t + 1) (L.top t - L.bottom t) proc param m.cpu
      suspended := Function.update m.suspended t (some (.created proc param)) } := by
  have hstack : L.bottom t + 1 + (L.top t - L.bottom t) - 1 = L.top t := by
    bv_omega
  have hq := toNat_below (p := L.top t) (by omega)
  have hf := framed_taskInit (s := m.cpu) t (L.bottom t + 1) (L.top t - L.bottom t) proc param
    (by rw [hstack]; omega)
  have hx : (Suspended.created proc param).Continues
      (initialContext (L.bottom t + 1) (L.top t - L.bottom t) proc param) := by
    refine ⟨rfl, word_hi_lo _, word_hi_lo _, rfl, ?_⟩
    change (0x80 : Byte).getLsbD 7 = true
    decide
  rw [hstack] at hf
  have hσ := h.saved.put (fun a ha => mem_taskInit (s := m.cpu) t (L.bottom t + 1)
    (L.top t - L.bottom t) proc param (by rwa [hstack]) (by rwa [hstack])) (by omega) (by omega) hf hx
  refine ⟨h.nesting, h.depth, h.owner, Or.inl (h.owner hn), ?_, ?_, ?_, fun c hc => ?_, h.within⟩
  · exact (Function.update_of_ne ht.symm _ _).trans h.aside
  · change Saved L _ (archTaskInit t (L.bottom t + 1) (L.top t - L.bottom t) proc param m.cpu).ctxSp _
    rw [ctxSp_taskInit, hstack]
    exact hσ
  · change Layered _ _ _ m.nested
    rw [hn]
    trivial
  · change m.nested.getLast? = some c at hc
    rw [hn] at hc
    cases hc

end Contexts

end RadOs.Avr
