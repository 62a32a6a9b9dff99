import RadOs.Kernel.Frames

/-! # The interface functions as sequences of moves -/

namespace RadOs
open Bucketed

section Timers
variable {τ π σ : Type} [DecidableEq τ] [HasTimers σ τ π] {clbck : τ → σ → Outcome σ} {P : σ → Prop}
open HasTimers

theorem timerAdd_ticksCnt {x y : Timers τ π} {t : τ} {n : ℕ} (h : timerAdd n t x = .ok y) :
    y.ticksCnt = x.ticksCnt := by
  obtain ⟨itr, -, h⟩ := Outcome.bind_ok h
  cases h
  rfl

theorem rearmLoop_ticksCnt {x y : Timers τ π} {n : ℕ} (h : rearmLoop n x = .ok y) :
    y.ticksCnt = x.ticksCnt := by
  induction n generalizing x with
  | zero => cases h
  | succ n ih =>
    unfold rearmLoop at h
    split at h
    · cases h
      rfl
    · obtain ⟨x₁, h₁, h⟩ := Outcome.bind_ok h
      have hadd := timerAdd_ticksCnt h₁
      exact (ih h).trans hadd
    · cases h

/-- What callbacks keep and changes of the timers but for the counter, `timer_trigger` keeps. -/
theorem triggerLoop_invariant
    (hs : ∀ x s, x.ticksCnt = (timers s).ticksCnt → P s → P (setTimers x s))
    (hc : ∀ t s s', P s → clbck t s = .ok s' → P s') {n : ℕ} {x : TimerNode τ} {s s' : σ}
    (h : triggerLoop clbck n x s = .ok s') (hP : P s) : P s' := by
  induction n generalizing x s with
  | zero => cases h
  | succ n ih =>
    cases x with
    | timerList => cases h; exact hP
    | listAutoreload => cases h
    | timer t =>
      simp only [triggerLoop] at h
      split at h
      · exact ih h (hs _ _ rfl hP)
      · obtain ⟨s₁, h₁, h⟩ := Outcome.bind_ok h
        have hP₁ := hc _ _ _ (hs _ _ (by rfl) hP) h₁
        split at h
        · exact ih h (hs _ _ (by rfl) hP₁)
        · exact ih h hP₁

/-- A tick counts, and keeps what callbacks and changes of the other timer variables keep. -/
theorem osTickTimers_counted
    (hs : ∀ x s, x.ticksCnt = (timers s).ticksCnt → P s → P (setTimers x s))
    (hc : ∀ t s s', P s → clbck t s = .ok s' → P s') {n : ℕ} {s s' : σ}
    (h : osTickTimers clbck n s = .ok s')
    (hP : ∀ x, x.ticksCnt = ticksAdd (timers s).ticksCnt 1 → P (setTimers x s)) : P s' := by
  unfold osTickTimers at h
  simp only at h
  split at h
  · cases h
    exact hP _ rfl
  · split at h
    · obtain ⟨s₁, h₁, h⟩ := Outcome.bind_ok h
      obtain ⟨x, hx, h⟩ := Outcome.bind_ok h
      cases h
      have hcnt := rearmLoop_ticksCnt hx
      refine hs _ _ hcnt (triggerLoop_invariant hs hc h₁ (hs _ _ (by rfl) (hP _ (by rfl))))
    · cases h
      exact hP _ rfl
  · cases h

theorem osTickTimers_invariant (hs : ∀ x s, P s → P (setTimers x s))
    (hc : ∀ t s s', P s → clbck t s = .ok s' → P s') {n : ℕ} {s s' : σ}
    (h : osTickTimers clbck n s = .ok s') (hP : P s) : P s' :=
  osTickTimers_counted (fun x s _ => hs x s) hc h fun _ _ => hs _ _ hP

end Timers

/-- The outcome of `os_schedule`: nothing, as no ready task has a high enough priority or switching
is not allowed, or a switch. -/
def Scheduled (p : ℕ) (k k' : Kernel) : Prop :=
  (k' = k ∧ (k.isrNesting ≤ 1 → k.schedLock = 0 → ∀ t, (k.tasks t).taskQueue = some .ready →
    (k.tasks t).prioCurrent < k.current.prioCurrent + p)) ∨ Move .switch k k'

theorem Scheduled.path {p : ℕ} {k k' : Kernel} {D : Kind → Prop} (hD : D .switch)
    (h : Scheduled p k k') : Path D k k' := by
  obtain ⟨rfl, -⟩ | h := h
  · exact .refl _
  · exact .single hD h

/-- Moves that leave the running task running. -/
def Kind.still : Kind → Bool
  | .switch | .exit | .block _ => false
  | _ => true

/-- Moves of the kinds `D`; the running task changes at the end, if at all. -/
def Parts (D : Kind → Prop) (k k' : Kernel) : Prop :=
  ∃ k₁, Path (fun a => D a ∧ a.still = true) k k₁ ∧
    (k' = k₁ ∨ ∃ a, D a ∧ a.still = false ∧ Move a k₁ k')

theorem Move.taskCurrent_still {k k' : Kernel} {a : Kind} (h : Move a k k') (ha : a.still = true) :
    k'.taskCurrent = k.taskCurrent := by
  apply h.taskCurrent_eq
  · rintro rfl
    cases ha
  · rintro Q rfl
    cases ha
  · rintro rfl
    cases ha

namespace Parts
variable {D : Kind → Prop} {k k₁ k' : Kernel} {a : Kind}

theorem stay (h : Path (fun a => D a ∧ a.still = true) k k') : Parts D k k' := ⟨k', h, Or.inl rfl⟩

theorem last (h : Path (fun a => D a ∧ a.still = true) k k₁) (ha : D a) (hs : a.still = false)
    (hm : Move a k₁ k') : Parts D k k' := ⟨k₁, h, Or.inr ⟨a, ha, hs, hm⟩⟩

theorem scheduled {p : ℕ} (h : Path (fun a => D a ∧ a.still = true) k k₁) (ha : D .switch)
    (hs : Scheduled p k₁ k') : Parts D k k' := by
  obtain ⟨rfl, -⟩ | hm := hs
  · exact stay h
  · exact last h ha rfl hm

theorem path (h : Parts D k k') : Path D k k' := by
  obtain ⟨k₁, h, rfl | ⟨a, ha, -, hm⟩⟩ := h
  · exact h.mono fun a ha => ha.1
  · exact (h.mono fun a ha => ha.1).tail ha hm

theorem trans (h : Path (fun a => D a ∧ a.still = true) k k₁) (h₁ : Parts D k₁ k') :
    Parts D k k' := by
  obtain ⟨k₂, h₂, hk⟩ := h₁
  exact ⟨k₂, Path.trans h h₂, hk⟩

theorem mono {E : Kind → Prop} (h : Parts D k k') (hD : ∀ a, D a → E a) : Parts E k k' := by
  obtain ⟨k₁, h, hk⟩ := h
  refine ⟨k₁, h.mono fun a ha => ⟨hD a ha.1, ha.2⟩, hk.imp_right ?_⟩
  rintro ⟨a, ha, hm⟩
  exact ⟨a, hD a ha, hm⟩

end Parts

namespace Placed
variable {k k₁ k₂ k' : Kernel} {Q : QueueId} {t : TaskId} {c : Ctx} {D : Kind → Prop}

theorem not_current (hp : Placed k) (ht : (k.tasks t).taskQueue ≠ none) : t ≠ k.taskCurrent := by
  rintro rfl
  exact ht hp.current

theorem schedule (hp : Placed k) {p : ℕ} (h : osSchedule p c k = .ok k')
    (hc : c = .schedule ∨ ∃ t, c = .joinDestroy t) : Scheduled p k k' := by
  unfold osSchedule at h
  split at h
  · rename_i hg
    obtain ⟨⟨r, k₁⟩, hd, h₁⟩ := Outcome.bind_ok h
    obtain ⟨rfl, rfl, hn⟩ | ⟨newTask, rfl, hf, hle, hr⟩ := hp.filed.dequeuePrio hd
    · cases h₁
      exact Or.inl ⟨rfl, fun _ _ => hn⟩
    · right
      have hn := hp.filed.first hf
      have hne : newTask ≠ k.taskCurrent := hp.not_current (by simp [hn.1])
      obtain ⟨q, rfl, hf₁, hl₁⟩ := hr
      obtain ⟨k₂, hm, h₂⟩ := Outcome.bind_ok h₁
      have hcur : (k.setTask newTask { k.tasks newTask with taskQueue := none }).tasks k.taskCurrent =
          k.tasks k.taskCurrent := by
        simp [hne.symm]
      obtain ⟨q₂, rfl, hf₂, hl₂⟩ := hf₁.makeready (by simpa [hcur] using hp.current) hm
      have hl : ∀ Q, (q₂ Q).linked = (k.queues Q).linked := fun Q => (hl₂ Q).trans (hl₁ Q)
      split at h₂
      · rename_i hi
        cases h₂
        refine .switch hi hg.2 hn hle hc ⟨q₂, ?_, hf₂.congr rfl fun u => ?_, hl⟩
        · simp [Kernel.switched, archContextSwitch, Kernel.setCtx, Kernel.setTask, Kernel.current,
            hne.symm]
        · by_cases hu : u = k.taskCurrent
          · simp [archContextSwitch, Kernel.setCtx, Kernel.current, hu, Kernel.setTask]
          · simp [archContextSwitch, Kernel.setCtx, Kernel.current, hu, Kernel.setTask]
      · rename_i hi
        cases h₂
        have hi : k.isrNesting = 1 := by
          have : ¬ k.isrNesting = 0 := hi
          have := hg.1
          omega
        refine .switchIsr hi hg.2 hn hle ⟨q₂, ?_, hf₂.congr rfl fun u => ?_, hl⟩
        · simp [Kernel.switchedIsr, Kernel.running, Kernel.setTask, Kernel.current, hne.symm,
            Function.update_comm hne]
        · by_cases hu : u = newTask
          · simp [Kernel.running, Kernel.current, hu, Kernel.setTask]
          · simp [Kernel.running, Kernel.current, hu, Kernel.setTask]
  · rename_i hg
    cases h
    exact Or.inl ⟨rfl, fun hi hl => absurd ⟨hi, hl⟩ hg⟩

/-- A task that `os_schedule` has switched away continues where the caller says. -/
theorem schedule_ctx (hp : Placed k) {p : ℕ} (h : osSchedule p c k = .ok k')
    (hi : k.isrNesting = 0) :
    k' = k ∨ (k'.taskCurrent ≠ k.taskCurrent ∧ (k'.tasks k.taskCurrent).ctx = c) := by
  unfold osSchedule at h
  split at h
  · obtain ⟨⟨r, k₁⟩, hd, h₁⟩ := Outcome.bind_ok h
    obtain ⟨rfl, rfl, -⟩ | ⟨newTask, rfl, hf, -, hr⟩ := hp.filed.dequeuePrio hd
    · cases h₁
      exact Or.inl rfl
    · have hne : newTask ≠ k.taskCurrent := hp.not_current (by simp [(hp.filed.first hf).1])
      obtain ⟨q, rfl, hf₁, -⟩ := hr
      obtain ⟨k₂, hm, h₂⟩ := Outcome.bind_ok h₁
      obtain ⟨q₂, rfl, -, -⟩ := hf₁.makeready (by simpa [hne.symm] using hp.current) hm
      rw [if_pos (by simpa using hi)] at h₂
      cases h₂
      exact Or.inr ⟨hne, by simp [archContextSwitch, Kernel.setCtx, Kernel.setTask]⟩
  · cases h
    exact Or.inl rfl

theorem blockSwitch (hp : Placed k) (h : osTaskBlockSwitch Q Q.blockType c k = .ok k')
    (hi : k.isrNesting = 0) (hd : k.taskCurrent ≠ taskIdle) (hr : Q ≠ .ready)
    (hc : Awaits k.taskCurrent c Q) (hm : ∀ m, Q = .mtx m → (k.mtxs m).owner ≠ none) :
    Move (.block Q) k k' := by
  obtain ⟨k₁, he, h₁⟩ := Outcome.bind_ok h
  obtain ⟨⟨r, k₂⟩, hq, h₂⟩ := Outcome.bind_ok h₁
  have hf := hp.filed.setTask (t := k.taskCurrent)
    (x := { k.current with state := .wait, blockType := Q.blockType }) rfl fun _ => rfl
  have hlink : (k.queues Q).linked = true := by
    simpa using osTaskqueueEnqueue_linked (t := k.taskCurrent) he
  obtain ⟨q, rfl, hf₁, hl₁⟩ := hf.enqueue (by simpa [Kernel.current] using hp.current) he
  obtain ⟨rfl, rfl, -⟩ | ⟨newTask, rfl, hfst, hre⟩ := hf₁.dequeue hq
  · cases h₂
  · cases h₂
    have hn := hf₁.first hfst
    have hne : newTask ≠ k.taskCurrent := by
      rintro rfl
      simp [hr] at hn
    obtain ⟨q₂, rfl, hf₂, hl₂⟩ := hre
    have hnext : k.Next newTask := by
      refine ⟨by simpa [hne] using hn.1, fun u hu => ?_⟩
      have hu' : u ≠ k.taskCurrent := hp.not_current (by simp [hu])
      simpa [hne, hu'] using hn.2 u (by simpa [hu'] using hu)
    refine .block hi hd hr hnext hc hm hlink
      ⟨q₂, ?_, hf₂.congr rfl fun u => ?_, fun Q' => (hl₂ Q').trans (hl₁ Q')⟩
    · simp [Kernel.blocked, archContextSwitch, Kernel.setCtx, Kernel.setTask, Kernel.current, hne,
        hne.symm, Function.update_comm hne]
    · by_cases hu : u = k.taskCurrent
      · simp [archContextSwitch, Kernel.setCtx, Kernel.current, hu, Kernel.setTask]
      · simp [archContextSwitch, Kernel.setCtx, Kernel.current, hu, Kernel.setTask]

/-- A task taken out of the queue `Q` is woken, its timer left alone. -/
theorem wake (hQ : (k.tasks t).taskQueue = some Q) (hr : Q ≠ .ready)
    (h₁ : Realizes (k.setTask t { k.tasks t with taskQueue := none }) k₁) {r : RetCode}
    (ht : r = .timeout ∨ (∃ m, Q = .mtx m) ∨ (k.tasks t).timer = none)
    (h : wakeup t r k₁ = .ok k') : Move (.wake t Q r) k k' := by
  obtain ⟨q, rfl, hf, hl⟩ := h₁
  obtain ⟨q', rfl, hf', hl'⟩ := hf.wakeup (by simp) h
  refine .wake hQ hr (Or.inl ⟨rfl, rfl⟩) ht ⟨q', ?_, hf', fun Q' => (hl' Q').trans (hl Q')⟩
  simp [Kernel.woken, Kernel.setTask]

/-- The same with its timer stopped. -/
theorem wake_untimed (hQ : (k.tasks t).taskQueue = some Q) (hr : Q ≠ .ready)
    (h₁ : Realizes (k.setTask t { k.tasks t with taskQueue := none }) k₁)
    (h₂ : osBlocktimerDestroy t k₁ = .ok k₂) {r : RetCode} (h : wakeup t r k₂ = .ok k') :
    Move (.wake t Q r) k k' := by
  unfold osBlocktimerDestroy at h₂
  split at h₂
  · rename_i hx
    cases h₂
    refine wake hQ hr h₁ (Or.inr (Or.inr ?_)) h
    obtain ⟨q, rfl, -, -⟩ := h₁
    simpa using hx
  · rename_i x hx
    obtain ⟨y, hy, h₃⟩ := Outcome.bind_ok h₂
    cases h₃
    obtain ⟨q, rfl, hf, hl⟩ := h₁
    have hf₂ := (show Filed { k.setTask t { k.tasks t with taskQueue := none } with
      queues := q, timers := y } from hf).setTask (t := t)
      (x := { (k.setTask t { k.tasks t with taskQueue := none }).tasks t with timer := none })
      rfl fun _ => rfl
    obtain ⟨q', rfl, hf', hl'⟩ := hf₂.wakeup (by simp) h
    refine .wake hQ hr (Or.inr ⟨x, by simpa using hx, hy, rfl⟩) (Or.inr (Or.inr rfl))
      ⟨q', ?_, hf', fun Q' => (hl' Q').trans (hl Q')⟩
    simp [Kernel.woken, Kernel.setTask]

/-- The loops that wake every task of a queue. -/
theorem destroyLoop (hr : Q ≠ .ready) {timed : Bool} {n : ℕ} (hp : Placed k)
    (ht : timed = true ∨ ∃ m, Q = .mtx m) (h : destroyLoop timed Q n k = .ok k') :
    Path (fun a => ∃ t, a = .wake t Q .destroyed) k k' ∧ ∀ t, (k'.tasks t).taskQueue ≠ some Q := by
  induction n generalizing k with
  | zero => cases h
  | succ n ih =>
    unfold RadOs.destroyLoop at h
    obtain ⟨⟨r, k₁⟩, hd, h₁⟩ := Outcome.bind_ok h
    obtain ⟨rfl, rfl, hn⟩ | ⟨t, rfl, hf, hre⟩ := hp.filed.dequeue hd
    · cases h₁
      exact ⟨.refl _, hn⟩
    · obtain ⟨k₂, htm, h₂⟩ := Outcome.bind_ok h₁
      obtain ⟨k₃, hw, h₃⟩ := Outcome.bind_ok h₂
      have hm : Move (.wake t Q .destroyed) k k₃ := by
        cases timed with
        | false =>
          cases htm
          exact wake (hp.filed.first hf).1 hr hre (Or.inr (Or.inl (ht.resolve_left (by simp)))) hw
        | true => exact wake_untimed (hp.filed.first hf).1 hr hre htm hw
      obtain ⟨hpath, hend⟩ := ih (hm.placed hp) h₃
      exact ⟨(Path.single ⟨t, rfl⟩ hm).trans hpath, hend⟩

theorem wakeupLoop {q : WaitqueueId} {n cnt : ℕ} {b b' : Bool} (hp : Placed k)
    (h : wakeupLoop q n cnt b k = .ok (k', b')) :
    Path (fun a => ∃ t, a = .wake t (.waitqueue q) .ok) k k' ∧
      (cnt = osWaitqueueAll → ∀ t, (k'.tasks t).taskQueue ≠ some (.waitqueue q)) := by
  induction n generalizing k cnt b with
  | zero => cases h
  | succ n ih =>
    unfold RadOs.wakeupLoop at h
    split at h
    · obtain ⟨⟨r, k₁⟩, hd, h₁⟩ := Outcome.bind_ok h
      obtain ⟨rfl, rfl, hn⟩ | ⟨t, rfl, hf, hre⟩ := hp.filed.dequeue hd
      · cases h₁
        exact ⟨.refl _, fun _ => hn⟩
      · obtain ⟨k₂, ht, h₂⟩ := Outcome.bind_ok h₁
        obtain ⟨k₃, hw, h₃⟩ := Outcome.bind_ok h₂
        have hm := wake_untimed (hp.filed.first hf).1 (by simp) hre ht hw
        obtain ⟨hpath, hend⟩ := ih (hm.placed hp) h₃
        exact ⟨(Path.single ⟨t, rfl⟩ hm).trans hpath, fun hc => hend (by simp [hc])⟩
    · rename_i hc
      cases h
      exact ⟨.refl _, fun he => absurd (Or.inl he) hc⟩

end Placed

end RadOs
