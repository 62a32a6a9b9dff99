import RadOs.Kernel.Timeouts

/-! # The most urgent task runs

`Ranked` says that no ready task has a higher priority than the running one.
Every switch restores it. An interrupt handler that wakes tasks restores it on
the first level of nesting; on the levels above nobody does.
-/

namespace RadOs
open Bucketed Runs Budget

section General
variable [Port]

/-- No ready task is more urgent than the running one. -/
def Ranked (k : Kernel) : Prop :=
  ∀ t, (k.tasks t).taskQueue = some .ready → (k.tasks t).prioCurrent ≤ k.current.prioCurrent

section Moves
variable {k k' k₁ : Kernel} {Q : QueueId} {c : RetCode}

omit [Port] in
/-- The order depends on the queues and priorities of the tasks only. -/
theorem Ranked.setTask (h : Ranked k) {t : TaskId} {x : Task}
    (hq : x.taskQueue = (k.tasks t).taskQueue) (hp : x.prioCurrent = (k.tasks t).prioCurrent) :
    Ranked (k.setTask t x) := by
  have hprio : ∀ u, ((k.setTask t x).tasks u).prioCurrent = (k.tasks u).prioCurrent := by
    intro u
    by_cases hu : u = t
    · simp [hu, hp]
    · simp [hu]
  intro u hu
  rw [hprio, Kernel.current, hprio]
  apply h u
  by_cases hut : u = t
  · subst hut
    simpa [hq] using hu
  · simpa [hut] using hu

omit [Port] in
/-- The mask of the ready queue tells. -/
theorem ranked_of_top (hf : Filed k)
    (h : (k.queues .ready).tasks.top ≤ k.current.prioCurrent + 1) : Ranked k := by
  intro t ht
  have hk : k.key .ready t = some (k.tasks t).prioCurrent := by simp [Kernel.key, ht]
  cases htop : (k.queues .ready).tasks.top with
  | zero =>
    rw [(hf .ready).top_eq_zero.mp htop t] at hk
    cases hk
  | succ p =>
    have := (hf .ready).le_of_key htop hk
    omega

omit [Port] in
/-- The task that is switched to has the highest priority. -/
theorem Move.ranked {a : Kind} (h : Move a k k') (ha : a.still = false) : Ranked k' := by
  have hprio : ∀ u, (k'.tasks u).prioCurrent = (k.tasks u).prioCurrent := by
    intro u
    apply (h.task u).prioCurrent_eq
    · rintro rfl
      cases ha
    · rintro rfl
      cases ha
  have hready : ∀ u, (k'.tasks u).taskQueue = some .ready →
      (k.tasks u).taskQueue = some .ready ∨ (u = k.taskCurrent ∧ a = .switch) := by
    intro u hu
    have hx := h.task u
    generalize k'.tasks u = x at hx hu
    cases hx <;> simp_all [Kind.still]
  have hnext : ∃ t, k.Next t ∧ k'.taskCurrent = t ∧
      (a = .switch → k.current.prioCurrent ≤ (k.tasks t).prioCurrent) := by
    cases h with
    | switch hi hl hn hle hc hr =>
      obtain ⟨q, rfl, -, -⟩ := hr
      exact ⟨_, hn, rfl, fun _ => by omega⟩
    | switchIsr hi hl hn hle hr =>
      obtain ⟨q, rfl, -, -⟩ := hr
      exact ⟨_, hn, rfl, fun _ => by omega⟩
    | block hi hd hr hn hc hm hq hre =>
      obtain ⟨q, rfl, -, -⟩ := hre
      exact ⟨_, hn, rfl, by simp⟩
    | exit hn hd hre =>
      obtain ⟨q, rfl, -, -⟩ := hre
      exact ⟨_, hn, rfl, by simp⟩
    | _ => cases ha
  obtain ⟨newTask, hn, hc, hle⟩ := hnext
  intro u hu
  rw [hprio, Kernel.current, hc, hprio]
  obtain h | ⟨rfl, rfl⟩ := hready u hu
  · exact hn.2 u h
  · exact hle rfl

omit [Port] in
/-- `os_schedule` restores the order where it is allowed to. -/
theorem Scheduled.ranked {p : ℕ} (h : Scheduled p k k') (hp : p ≤ 1) (hi : k.isrNesting ≤ 1)
    (hl : k.schedLock = 0) : Ranked k' := by
  obtain ⟨rfl, hn⟩ | hm := h
  · intro t ht
    have := hn hi hl t ht
    omega
  · exact hm.ranked rfl

omit [Port] in
theorem Scheduled.eq_of_nested {p : ℕ} (h : Scheduled p k k') (hi : 1 < k.isrNesting) : k' = k := by
  obtain ⟨rfl, -⟩ | hm := h
  · rfl
  · cases hm <;> omega

omit [Port] in
/-- Waking tasks adds them to the ready queue. -/
theorem Path.woken_queue (h : Path (fun a => ∃ t, a = .wake t Q c) k k') (u : TaskId) :
    (k'.tasks u).taskQueue = (k.tasks u).taskQueue ∨
      ((k.tasks u).taskQueue = some Q ∧ (k'.tasks u).taskQueue = some .ready) := by
  induction h with
  | refl => exact Or.inl rfl
  | tail hpath ha hm ih =>
    obtain ⟨t, rfl⟩ := ha
    cases hm with
    | wake hQ hr hu ht hre =>
      obtain ⟨q, rfl, -, -⟩ := hre
      by_cases hut : u = t
      · subst hut
        obtain ih | ⟨-, ih⟩ := ih
        · exact Or.inr ⟨ih ▸ hQ, by simp [Kernel.woken]⟩
        · rw [hQ] at ih
          exact absurd (Option.some.inj ih) hr
      · simpa [Kernel.woken, hut] using ih

omit [Port] in
/-- Who is woken from a queue is no more urgent than its first task. -/
theorem Path.ranked_iff (h : Path (fun a => ∃ t, a = .wake t Q c) k k') (hp : Placed k)
    (hr : Q ≠ .ready) {t : TaskId} (hf : k.IsFirst Q t)
    (ht : (k'.tasks t).taskQueue = some .ready) :
    Ranked k' ↔ Ranked k ∧ (k.tasks t).prioCurrent ≤ k.current.prioCurrent := by
  have hfr := h.wakeFrame fun a ⟨u, hu⟩ => ⟨u, Q, c, hu⟩
  have hcur : k'.current.prioCurrent = k.current.prioCurrent := by
    rw [Kernel.current, hfr.prioCurrent, hfr.taskCurrent]
    rfl
  obtain ⟨hQ, hle⟩ := hp.filed.first hf
  constructor
  · intro hk
    refine ⟨fun u hu => ?_, ?_⟩
    · rw [← hfr.prioCurrent, ← hcur]
      apply hk u
      obtain h | ⟨h, -⟩ := h.woken_queue u
      · exact h.trans hu
      · rw [hu] at h
        exact absurd (Option.some.inj h).symm hr
    · rw [← hfr.prioCurrent, ← hcur]
      exact hk t ht
  · rintro ⟨hk, htc⟩ u hu
    rw [hfr.prioCurrent, hcur]
    obtain h | ⟨h, -⟩ := h.woken_queue u
    · exact hk u (h ▸ hu)
    · exact (hle u h).trans htc

omit [Port] in
/-- A wakeup takes the first tasks out of the wait queue, if it takes any. -/
theorem Placed.wakeupLoop_cases {q : WaitqueueId} {n cnt : ℕ} {b b' : Bool} (hp : Placed k)
    (h : RadOs.wakeupLoop q n cnt b k = .ok (k', b')) :
    (k' = k ∧ b' = b ∧ (cnt = 0 ∨ ∀ t, (k.tasks t).taskQueue ≠ some (.waitqueue q))) ∨
      (b' = true ∧ cnt ≠ 0 ∧ ∃ t k₁, k.IsFirst (.waitqueue q) t ∧
        Move (.wake t (.waitqueue q) .ok) k k₁ ∧
        Path (fun a => ∃ t, a = .wake t (.waitqueue q) .ok) k₁ k') := by
  induction n generalizing k cnt b with
  | zero => cases h
  | succ n ih =>
    unfold RadOs.wakeupLoop at h
    split at h
    · rename_i hc
      obtain ⟨⟨r, k₁⟩, hd, h₁⟩ := Outcome.bind_ok h
      obtain ⟨rfl, rfl, hn⟩ | ⟨t, rfl, hf, hre⟩ := hp.filed.dequeue hd
      · cases h₁
        exact Or.inl ⟨rfl, rfl, Or.inr hn⟩
      · obtain ⟨k₂, ht, h₂⟩ := Outcome.bind_ok h₁
        obtain ⟨k₃, hw, h₃⟩ := Outcome.bind_ok h₂
        have hm := Placed.wake_untimed (hp.filed.first hf).1 (by simp) hre ht hw
        have hcnt : cnt ≠ 0 := by
          rintro rfl
          simp [osWaitqueueAll] at hc
        obtain ⟨rfl, rfl, -⟩ | ⟨rfl, -, u, k₄, -, hm', hpath⟩ := ih (hm.placed hp) h₃
        · exact Or.inr ⟨rfl, hcnt, t, k', hf, hm, .refl _⟩
        · exact Or.inr ⟨rfl, hcnt, t, k₃, hf, hm, (Path.single ⟨u, rfl⟩ hm').trans hpath⟩
    · rename_i hc
      cases h
      exact Or.inl ⟨rfl, rfl, Or.inl (by omega)⟩

end Moves

/-! ## Interrupt handlers -/

/-- The functions by which an interrupt handler wakes tasks. -/
def Call.signals : Call → Bool
  | .semUp _ _ | .waitqueueWakeup _ _ _ | .tick => true
  | _ => false

/-- The call, made by an interrupt handler, wakes the task `t`, and no task that is more urgent
than all such `t`. A wakeup of one task may find it between prepare and wait. -/
def Rouses (k : Kernel) : Call → TaskId → Prop
  | .semUp s _, t => k.IsFirst (.sem (.obj s)) t
  | .waitqueueWakeup q cnt _, t =>
      k.IsFirst (.waitqueue q) t ∧ ¬ (cnt = 1 ∧ k.waitqueueCurrent = some q)
  | .tick, t => k.timers.Listed (.block t) ∧ k.due t = k.timers.ticks + 1
  | _, _ => False

/-- What a handler does up to its call of `os_schedule`. -/
structure Rouse (k : Kernel) (c : Call) (k₁ : Kernel) : Prop where
  placed : Placed k₁
  isrNesting : k₁.isrNesting = k.isrNesting
  schedLock : k₁.schedLock = k.schedLock
  ranked : Ranked k₁ ↔ Ranked k ∧
    ∀ t, Rouses k c t → (k.tasks t).prioCurrent ≤ k.current.prioCurrent

section Handlers
variable {k k' k₁ : Kernel} {c : Call} {r : Option Ret} {n : ℕ}

omit [Port] in
theorem Rouse.nobody (hp : Placed k₁) (hi : k₁.isrNesting = k.isrNesting)
    (hl : k₁.schedLock = k.schedLock) (hr : Ranked k₁ ↔ Ranked k) (hn : ∀ t, ¬ Rouses k c t) :
    Rouse k c k₁ :=
  ⟨hp, hi, hl, hr.trans ⟨fun h => ⟨h, fun t ht => absurd ht (hn t)⟩, And.left⟩⟩

omit [Port] in
/-- The first task of a queue is woken, and maybe others after it. -/
theorem Rouse.first {Q : QueueId} {d : RetCode} {t : TaskId} {w : Option WaitqueueId} (hp : Placed k)
    (hr : Q ≠ .ready) (hf : k.IsFirst Q t)
    (hm : Move (.wake t Q d) { k with waitqueueCurrent := w } k')
    (hpath : Path (fun a => ∃ t, a = .wake t Q d) k' k₁)
    (ht : ∀ u, Rouses k c u ↔ u = t) : Rouse k c k₁ := by
  have hall := (Path.single (D := fun a => ∃ t, a = .wake t Q d) ⟨t, rfl⟩ hm).trans hpath
  have hfr := hall.wakeFrame fun a ⟨u, hu⟩ => ⟨u, Q, d, hu⟩
  have hready : (k₁.tasks t).taskQueue = some .ready := by
    have hk' : (k'.tasks t).taskQueue = some .ready := by
      cases hm with
      | wake hQ hr hu ht hre =>
        obtain ⟨q, rfl, -, -⟩ := hre
        simp [Kernel.woken]
    obtain h | ⟨-, h⟩ := hpath.woken_queue t
    · exact h.trans hk'
    · exact h
  have hp₀ : Placed { k with waitqueueCurrent := w } := (Move.scalars rfl).placed hp
  have hranked := hall.ranked_iff hp₀ hr hf hready
  refine ⟨hall.placed hp₀, hfr.isrNesting, hfr.schedLock, hranked.trans ?_⟩
  simp only [ht, forall_eq]
  exact Iff.rfl

theorem rouse_semUp (hp : Placed k) {s : ℕ} {sync : Bool} (hi : 0 < k.isrNesting)
    (h : osSemUpSync (.obj s) sync .schedule k = .ok k') :
    ∃ k₁, Rouse k (.semUp s sync) k₁ ∧
      ((Scheduled 1 k₁ k' ∧ ∃ t, Rouses k (.semUp s sync) t) ∨
        (k' = k₁ ∧ ∀ t, ¬ Rouses k (.semUp s sync) t)) := by
  have hsync : sync = false := (Outcome.assert_ok h).1.resolve_left (by omega)
  obtain ⟨-, ⟨hn, rfl⟩ | ⟨t, k₁, hf, hm, hk⟩⟩ := hp.semUp h (Or.inr rfl)
  · have hno : ∀ t, ¬ Rouses k (.semUp s sync) t := fun t ht => hn t (hp.filed.first ht).1
    exact ⟨_, .nobody ((Move.sem rfl).placed hp) rfl rfl Iff.rfl hno, Or.inr ⟨rfl, hno⟩⟩
  · refine ⟨k₁, .first hp (by simp) hf hm (.refl _) fun u => ⟨fun hu => hu.unique hf, ?_⟩,
      Or.inl ⟨hk.resolve_left (by simp [hsync]), t, hf⟩⟩
    rintro rfl
    exact hf

omit [Port] in
theorem rouse_wakeup (hp : Placed k) {q : WaitqueueId} {cnt : ℕ} {sync : Bool}
    (hi : 0 < k.isrNesting) (h : osWaitqueueWakeupSync n q cnt sync k = .ok k') :
    ∃ k₁, Rouse k (.waitqueueWakeup q cnt sync) k₁ ∧
      ((Scheduled 1 k₁ k' ∧ ∃ t, Rouses k (.waitqueueWakeup q cnt sync) t) ∨
        (k' = k₁ ∧ ∀ t, ¬ Rouses k (.waitqueueWakeup q cnt sync) t)) := by
  obtain ⟨-, h⟩ := Outcome.assert_ok h
  obtain ⟨hs, h⟩ := Outcome.assert_ok h
  obtain ⟨hc, h⟩ := Outcome.assert_ok h
  have hsync : sync = false := hs.resolve_left (by omega)
  obtain ⟨⟨k₁, b⟩, hl, h⟩ := Outcome.bind_ok h
  simp only [hsync, true_and] at h
  obtain ⟨w, hw, hcnt⟩ : ∃ w, Placed.caught q k = { k with waitqueueCurrent := w } ∧
      ((if (0 < k.isrNesting ∧ k.waitqueueCurrent = some q) ∧ cnt ≠ osWaitqueueAll then cnt - 1
        else cnt) = 0 ↔ cnt = 1 ∧ k.waitqueueCurrent = some q) := by
    unfold Placed.caught
    split
    · rename_i hcaught
      refine ⟨_, rfl, ?_⟩
      by_cases hall : cnt = osWaitqueueAll
      · rw [if_neg (by simp [hall])]
        simp [hall, osWaitqueueAll]
      · rw [if_pos ⟨hcaught, hall⟩]
        exact ⟨fun h => ⟨by omega, hcaught.2⟩, fun h => by omega⟩
    · rename_i hcaught
      refine ⟨_, rfl, ?_⟩
      simp only [hcaught, false_and, if_false]
      constructor
      · omega
      · rintro ⟨-, hq⟩
        exact absurd ⟨hi, hq⟩ hcaught
  change RadOs.wakeupLoop q n _ false (Placed.caught q k) = _ at hl
  rw [hw] at hl
  have hp₀ : Placed { k with waitqueueCurrent := w } := (Move.scalars rfl).placed hp
  obtain ⟨rfl, rfl, hno⟩ | ⟨rfl, hpos, t, k₂, hf, hm, hpath⟩ := hp₀.wakeupLoop_cases hl
  · have hnot : ∀ t, ¬ Rouses k (.waitqueueWakeup q cnt sync) t := by
      rintro t ⟨hf, hne⟩
      obtain h0 | hn := hno
      · exact hne (hcnt.mp h0)
      · exact hn t (hp.filed.first hf).1
    cases h
    exact ⟨_, .nobody hp₀ rfl rfl Iff.rfl hnot, Or.inr ⟨rfl, hnot⟩⟩
  · have hrouse : Rouses k (.waitqueueWakeup q cnt sync) t := ⟨hf, fun h1 => hpos (hcnt.mpr h1)⟩
    refine ⟨k₁, .first hp (by simp) hf hm hpath fun u => ⟨fun hu => hu.1.unique hf, ?_⟩,
      Or.inl ⟨?_, t, hrouse⟩⟩
    · rintro rfl
      exact hrouse
    · rw [if_pos rfl] at h
      exact (hpath.placed (hm.placed hp₀)).schedule h (Or.inl rfl)

omit [Port] in
theorem rouse_tick (ht : Timely k) (h : osTick n k = .ok k') :
    ∃ k₁, Rouse k .tick k₁ ∧ Scheduled 0 k₁ k' := by
  obtain ⟨hi, k₁, htick, hpath, hsch⟩ := ht.sound.placed.tick h
  obtain ⟨xs, hg⟩ := ht.guarded
  obtain ⟨k₂, ys, hset, -, -, -, hwoken, hsame⟩ := hg.tick ht.sound.placed ht.sound.linked
  obtain rfl : k₁ = k₂ := by
    simpa using ((steady_osTickTimers _ _).settles htick).unique hset
  obtain ⟨hnest, hlock, -, -⟩ := hpath.scalars_eq (by simp)
  have hcur : k₁.taskCurrent = k.taskCurrent :=
    hpath.invariant (I := fun k₁ => k₁.taskCurrent = k.taskCurrent) (by
      rintro a k₂ k₃ (rfl | ⟨t, Q, rfl⟩) hk hm
      · exact (hm.taskCurrent_still rfl).trans hk
      · exact (hm.taskCurrent_still rfl).trans hk) rfl
  have hprio : ∀ t, (k₁.tasks t).prioCurrent = (k.tasks t).prioCurrent := by
    intro t
    by_cases hd : .block t ∈ xs ∧ k.due t = k.timers.ticks + 1
    · rw [hwoken t hd.1 hd.2]
    · rw [hsame t hd]
  refine ⟨k₁, ⟨hpath.placed ht.sound.placed, hnest, hlock, ?_⟩, hsch⟩
  simp only [Rouses, hg.armed.listed_iff]
  constructor
  · intro hk
    have hk' : ∀ t, (k₁.tasks t).taskQueue = some .ready →
        (k.tasks t).prioCurrent ≤ k.current.prioCurrent := by
      intro t h
      have := hk t h
      rwa [hprio, Kernel.current, hcur, hprio] at this
    refine ⟨fun t h => hk' t ?_, fun t h => hk' t ?_⟩
    · rw [hsame t, h]
      rintro ⟨hm, -⟩
      obtain ⟨-, -, Q, hQ, hgd⟩ := hg.guard t hm
      rw [h] at hQ
      exact hgd.ne_ready (Option.some.inj hQ).symm
    · rw [hwoken t h.1 h.2]
  · rintro ⟨hk, hall⟩ t h
    rw [hprio, Kernel.current, hcur, hprio]
    by_cases hd : .block t ∈ xs ∧ k.due t = k.timers.ticks + 1
    · exact hall t hd
    · rw [hsame t hd] at h
      exact hk t h

/-- A step of an interrupt handler. -/
theorem rouse_step (ht : Timely k) (hi : 0 < k.isrNesting) (hc : c.signals = true)
    (hst : timedSystem.step k (.call c, r) k') :
    ∃ k₁ p, Rouse k c k₁ ∧ p ≤ 1 ∧
      ((Scheduled p k₁ k' ∧ (c = .tick ∨ ∃ t, Rouses k c t)) ∨
        (k' = k₁ ∧ c ≠ .tick ∧ ∀ t, ¬ Rouses k c t)) := by
  obtain ⟨-, -, hset⟩ := hst
  obtain ⟨n, hn⟩ := hset.exists_eq
  cases c with
  | semUp s sync =>
    obtain ⟨k₁, hr, hk⟩ := rouse_semUp ht.sound.placed hi (quiet_ok hn).1
    exact ⟨k₁, 1, hr, le_rfl, hk.imp (fun h => ⟨h.1, Or.inr h.2⟩) fun h => ⟨h.1, by simp, h.2⟩⟩
  | waitqueueWakeup q cnt sync =>
    obtain ⟨k₁, hr, hk⟩ := rouse_wakeup ht.sound.placed hi (quiet_ok hn).1
    exact ⟨k₁, 1, hr, le_rfl, hk.imp (fun h => ⟨h.1, Or.inr h.2⟩) fun h => ⟨h.1, by simp, h.2⟩⟩
  | tick =>
    obtain ⟨k₁, hr, hk⟩ := rouse_tick ht (quiet_ok hn).1
    exact ⟨k₁, 0, hr, by omega, Or.inl ⟨hk, Or.inl rfl⟩⟩
  | _ => cases hc

end Handlers

/-! ## Nested handlers -/

/-- Interrupts begin and end, and their handlers wake tasks. -/
def InHandler (x : KernelStep) : Prop :=
  x.label.1 = .isrEnter ∨ x.label.1 = .isrExit ∨
    (0 < x.pre.isrNesting ∧ ∃ c, x.label.1 = .call c ∧ c.signals = true)

/-- A handler on the first level calls `os_schedule`: a tick does, and whoever wakes a task. -/
def Mends (x : KernelStep) : Prop :=
  x.pre.isrNesting = 1 ∧ ∃ c, x.label.1 = .call c ∧ (c = .tick ∨ ∃ t, Rouses x.pre c t)

/-- A nested handler wakes a task that is more urgent than the running one. -/
def Disturbs (x : KernelStep) : Prop :=
  1 < x.pre.isrNesting ∧ ∃ c t, x.label.1 = .call c ∧ Rouses x.pre c t ∧
    x.pre.current.prioCurrent < (x.pre.tasks t).prioCurrent

/-- The order was disturbed, before the interrupts or by a nested one, and not mended since then. -/
def Unmended (k₀ : Kernel) : List KernelStep → Prop
  | [] => ¬ Ranked k₀
  | x :: tr => ¬ Mends x ∧ (Disturbs x ∨ Unmended k₀ tr)

section Nests
variable {k k' k₀ : Kernel} {i : Action × Option Ret} {tr : List KernelStep}

/-- One step of a handler. -/
theorem InHandler.step (h : InHandler ⟨k, i, k'⟩) (ht : Timely k) (hl : k.schedLock = 0)
    (hst : timedSystem.step k i k') :
    k'.schedLock = 0 ∧ (Ranked k' ↔ Mends ⟨k, i, k'⟩ ∨ (Ranked k ∧ ¬ Disturbs ⟨k, i, k'⟩)) := by
  obtain ⟨i, r⟩ := i
  obtain rfl | rfl | ⟨hi, c, rfl, hc⟩ := h
  · obtain ⟨n, hn⟩ := hst.2.2.exists_eq
    cases hn
    exact ⟨hl, by simp [Mends, Disturbs]; rfl⟩
  · obtain ⟨n, hn⟩ := hst.2.2.exists_eq
    cases hn
    exact ⟨hl, by simp [Mends, Disturbs]; rfl⟩
  · have hi : 0 < k.isrNesting := hi
    obtain ⟨k₁, p, hr, hp, hk⟩ := rouse_step ht hi hc hst
    have hlock : k'.schedLock = 0 := by
      obtain ⟨hsch, -⟩ | ⟨rfl, -⟩ := hk
      · rw [((hsch.path (D := fun a => a = .switch) rfl).scalars_eq (by simp)).2.1, hr.schedLock, hl]
      · rw [hr.schedLock, hl]
    refine ⟨hlock, ?_⟩
    have hmends : Mends ⟨k, (.call c, r), k'⟩ ↔
        k.isrNesting = 1 ∧ (c = .tick ∨ ∃ t, Rouses k c t) := by
      simp [Mends]
    have hdist : Disturbs ⟨k, (.call c, r), k'⟩ ↔ 1 < k.isrNesting ∧
        ∃ t, Rouses k c t ∧ k.current.prioCurrent < (k.tasks t).prioCurrent := by
      simp [Disturbs]
    rw [hmends, hdist]
    by_cases h1 : k.isrNesting = 1
    · obtain ⟨hsch, hwake⟩ | ⟨rfl, hnt, hno⟩ := hk
      · exact iff_of_true (hsch.ranked hp (by rw [hr.isrNesting, h1]) (hr.schedLock.trans hl))
          (Or.inl ⟨h1, hwake⟩)
      · rw [hr.ranked]
        simp [hnt, hno, h1]
    · -- on a higher level `os_schedule` does nothing
      have hk₁ : k' = k₁ := by
        obtain ⟨hsch, -⟩ | ⟨rfl, -⟩ := hk
        · exact hsch.eq_of_nested (by rw [hr.isrNesting]; omega)
        · rfl
      have h2 : 1 < k.isrNesting := by omega
      rw [hk₁, hr.ranked]
      simp [h1, h2]

/-- When the handlers end, the most urgent task runs iff the order has been mended since it was last
disturbed. -/
theorem nested_wakeups_take_effect_iff (h₀ : timedSystem.Reachable k₀) (hl : k₀.schedLock = 0)
    (h : (timedSystem.startAt k₀).Run tr k) (hin : ∀ x ∈ tr, InHandler x) :
    Ranked k ↔ ¬ Unmended k₀ tr := by
  have hall : k.schedLock = 0 ∧ (Ranked k ↔ ¬ Unmended k₀ tr) := by
    induction h with
    | start h =>
      cases h
      exact ⟨hl, by simp [Unmended]⟩
    | @step tr k k' i hrun hst ih =>
      obtain ⟨hlock, hiff⟩ := ih fun x hx => hin x (by simp [hx])
      obtain ⟨hlock', hiff'⟩ := (hin ⟨k, i, k'⟩ (by simp)).step
        (timely_of_reachable (h₀.run hrun)) hlock hst
      refine ⟨hlock', ?_⟩
      rw [hiff', hiff, Unmended]
      tauto
  exact hall.2

end Nests

end General

/-- The task 1 runs and the more urgent task 2 waits for the semaphore 0. -/
def signalRun : List Action :=
  [.call (.taskCreate 1 1), .call (.taskCreate 2 2), .call (.semCreate 0 0), .call .start, .resume,
    .call (.semDown 0 osTimeoutInfinite)]

theorem nested_wakeups_take_effect_iff_mended : ∃ k₀ tr k, timedSystem.Reachable k₀ ∧
    k₀.isrNesting = 0 ∧ k₀.schedLock = 0 ∧ (timedSystem.startAt k₀).Run tr k ∧
    (∀ x ∈ tr, InHandler x) ∧ k.isrNesting = 0 ∧ k.taskCurrent = 2 ∧ Ranked k := by
  obtain ⟨k₀, hk₀, hx₀⟩ := Outcome.exists_of_holds
    (x := play timedCheck 10 signalRun (osInit coldKernel))
    (p := fun k₀ => decide (k₀.isrNesting = 0 ∧ k₀.schedLock = 0) &&
      (playRun timedCheck 10 [.isrEnter, .isrEnter, .call (.semUp 0 false), .isrExit, .call .tick,
        .isrExit] [] k₀).holds fun (tr, k) => decide (k.isrNesting = 0 ∧ k.taskCurrent = 2 ∧
          ∀ x ∈ tr, x.label.1 = .isrEnter ∨ x.label.1 = .isrExit ∨ (0 < x.pre.isrNesting ∧
            (x.label.1 = .call (.semUp 0 false) ∨ x.label.1 = .call .tick))) && match tr with
        | x₂ :: x₁ :: _ => decide (x₂.label.1 = .isrExit ∧ x₁.label.1 = .call .tick ∧
            x₁.pre.isrNesting = 1)
        | _ => false) (by decide +kernel)
  rw [Bool.and_eq_true] at hx₀
  obtain ⟨⟨tr, k⟩, hk, hx⟩ := Outcome.exists_of_holds hx₀.2
  rw [Bool.and_eq_true] at hx
  obtain ⟨hn₀, hl₀⟩ := of_decide_eq_true hx₀.1
  obtain ⟨hn, hc, hin⟩ := of_decide_eq_true hx.1
  have hr : timedSystem.Reachable k₀ := reachable_of_play (P := fun k i => Sane k i.1 ∧ Typed i.1)
    (fun _ _ h => h.1) (fun _ _ _ hs h => timed_of_check hs h) (.start rfl) hk₀
  have hrun : (timedSystem.startAt k₀).Run tr k :=
    run_startAt_of_playRun (P := fun k i => Sane k i.1 ∧ Typed i.1) (fun _ _ h => h.1)
      (fun _ _ _ hs h => timed_of_check hs h) hr (.start rfl) hk
  have hall : ∀ x ∈ tr, InHandler x := by
    intro x hx
    obtain h | h | ⟨h, h' | h'⟩ := hin x hx
    · exact Or.inl h
    · exact Or.inr (Or.inl h)
    · exact Or.inr (Or.inr ⟨h, _, h', rfl⟩)
    · exact Or.inr (Or.inr ⟨h, _, h', rfl⟩)
  refine ⟨k₀, tr, k, hr, hn₀, hl₀, hrun, hall, hn, hc,
    (nested_wakeups_take_effect_iff hr hl₀ hrun hall).mpr ?_⟩
  match tr, hx.2 with
  | x₂ :: x₁ :: _, hx =>
    obtain ⟨h₂, h₁, h₀⟩ := of_decide_eq_true hx
    rintro ⟨-, hd | ⟨hm, -⟩⟩
    · obtain ⟨-, c, t, hc, -⟩ := hd
      rw [h₂] at hc
      cases hc
    · exact hm ⟨h₀, .tick, h₁, Or.inl rfl⟩

/-- A nested handler signals the semaphore, and the handler it has interrupted makes no call
after that. -/
theorem nested_wakeup_without_effect : ∃ k₀ tr k, timedSystem.Reachable k₀ ∧
    k₀.isrNesting = 0 ∧ Ranked k₀ ∧ (timedSystem.startAt k₀).Run tr k ∧
    (∀ x ∈ tr, InHandler x) ∧ k.isrNesting = 0 ∧ k.schedLock = 0 ∧ ¬ Ranked k := by
  obtain ⟨k₀, hk₀, hx₀⟩ := Outcome.exists_of_holds
    (x := play timedCheck 10 signalRun (osInit coldKernel))
    (p := fun k₀ => decide (k₀.isrNesting = 0 ∧
      (k₀.queues .ready).tasks.top ≤ k₀.current.prioCurrent + 1) &&
      (playRun timedCheck 10 [.isrEnter, .isrEnter, .call (.semUp 0 false), .isrExit, .isrExit] []
        k₀).holds fun (tr, k) => decide ((k.tasks 2).taskQueue = some .ready ∧
          k.current.prioCurrent < (k.tasks 2).prioCurrent ∧ k.isrNesting = 0 ∧ k.schedLock = 0 ∧
          ∀ x ∈ tr, x.label.1 = .isrEnter ∨ x.label.1 = .isrExit ∨
            (x.pre.isrNesting = 2 ∧ x.label.1 = .call (.semUp 0 false)))) (by decide +kernel)
  rw [Bool.and_eq_true] at hx₀
  obtain ⟨⟨tr, k⟩, hk, hx⟩ := Outcome.exists_of_holds hx₀.2
  obtain ⟨hn₀, htop⟩ := of_decide_eq_true hx₀.1
  obtain ⟨hq, hlt, hn, hl, hin⟩ := of_decide_eq_true hx
  have hr : timedSystem.Reachable k₀ := reachable_of_play (P := fun k i => Sane k i.1 ∧ Typed i.1)
    (fun _ _ h => h.1) (fun _ _ _ hs h => timed_of_check hs h) (.start rfl) hk₀
  have hrun : (timedSystem.startAt k₀).Run tr k :=
    run_startAt_of_playRun (P := fun k i => Sane k i.1 ∧ Typed i.1) (fun _ _ h => h.1)
      (fun _ _ _ hs h => timed_of_check hs h) hr (.start rfl) hk
  refine ⟨k₀, tr, k, hr, hn₀, ranked_of_top (timely_of_reachable hr).sound.placed.filed htop, hrun,
    fun x hx => ?_, hn, hl, fun hrk => ?_⟩
  · obtain h | h | ⟨h, h'⟩ := hin x hx
    · exact Or.inl h
    · exact Or.inr (Or.inl h)
    · exact Or.inr (Or.inr ⟨by omega, _, h', rfl⟩)
  · have := hrk 2 hq
    omega

end RadOs
