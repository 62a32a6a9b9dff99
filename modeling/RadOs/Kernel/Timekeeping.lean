import RadOs.Kernel.Elapsed

/-! # The timers of a running kernel

Blocking calls put their timers on the list of the application and take them off
it, tasks and interrupt handlers come in between, and the callbacks wake tasks.
None of this disturbs a timer of the application.
-/

namespace RadOs
open Bucketed Runs Budget

/-- The timer module with callbacks that leave the timers alone. -/
def kernelTimers : System (Timers TimerId TimerProc) (TimerCall TimerId TimerProc) :=
  (timerSystem TimerId TimerProc).restrict fun _ c => c.Quiet

/-- The event is a tick, or the application creates or destroys a timer. -/
def TimerEvent.asked : TimerEvent TimerId → Bool
  | .tick | .create (.obj _) _ _ | .destroy (.obj _) => true
  | _ => false

/-- What an action asks of the timer module. -/
def Action.asks : Action → Option (TimerEvent TimerId)
  | .call (.timerCreate n timeoutTicks reloadTicks) =>
    some (.create (.obj n) timeoutTicks reloadTicks)
  | .call (.timerDestroy n) => some (.destroy (.obj n))
  | .call .tick => some .tick
  | _ => none

section History
variable {h : List (TimerEvent TimerId)} {n : ℕ}

end History

/-- The timers change by calls of their interface, of which the application made `es`. -/
structure Serves (es : List (TimerEvent TimerId)) (s s' : Timers TimerId TimerProc) : Prop where
  reachable : kernelTimers.Reachable s → kernelTimers.Reachable s'
  asked : s'.history.filter TimerEvent.asked = es ++ s.history.filter TimerEvent.asked

namespace Serves
variable {s s₁ s' : Timers TimerId TimerProc} {es es' : List (TimerEvent TimerId)} {x : TimerId}

theorem refl (s : Timers TimerId TimerProc) : Serves [] s s := ⟨id, rfl⟩

theorem trans (h : Serves es s s₁) (h' : Serves es' s₁ s') : Serves (es' ++ es) s s' :=
  ⟨fun hr => h'.reachable (h.reachable hr), by rw [h'.asked, h.asked, List.append_assoc]⟩

theorem osTimerCreate_history {n T R : ℕ} {proc : TimerProc}
    (h : osTimerCreate n x proc T R s = .ok s') : s'.history = .create x T R :: s.history := by
  obtain ⟨-, h⟩ := Outcome.assert_ok h
  obtain ⟨-, h⟩ := Outcome.assert_ok h
  obtain ⟨-, h⟩ := Outcome.assert_ok h
  obtain ⟨itr, -, h⟩ := Outcome.bind_ok h
  cases h
  rfl

theorem create {n T R : ℕ} {proc : TimerProc} (h : osTimerCreate n x proc T R s = .ok s')
    (hR : R < ticksMod) : Serves ([.create x T R].filter TimerEvent.asked) s s' := by
  obtain ⟨h₁, h₂, h₃⟩ := osTimerCreate_ok h
  have hT : T < ticksMod := by
    simp only [osTimerTicksremMax, ticksMod, osTicksMax, osTimerUnsynchMax] at h₂ ⊢
    omega
  have hset : Settles (fun n => osTimerCreate n x proc T R s) (.ok s') :=
    (steady_osTimerCreate _ _ _ _ _).settles h
  refine ⟨fun hr => hr.step (i := .create x proc T R) ⟨trivial, ⟨hT, hR⟩, hset⟩, ?_⟩
  rw [osTimerCreate_history h, ← List.filter_append]
  rfl

theorem destroy (h : osTimerDestroy x s = .ok s') :
    Serves ([.destroy x].filter TimerEvent.asked) s s' := by
  refine ⟨fun hr => hr.step (i := .destroy x) ⟨trivial, trivial, ?_⟩, ?_⟩
  · simp only [TimerCall.exec, h]
    exact settles_const _
  · rw [osTimerDestroy_eq (osTimerDestroy_made h), Except.ok.injEq] at h
    rw [← h, destroyed_history, ← List.filter_append]
    rfl

end Serves

section Moves
variable {k k' : Kernel} {a : Kind}

/-- The timer of a task is not one of the application. -/
def Kernel.OwnTimers (k : Kernel) : Prop := ∀ t x, (k.tasks t).timer = some x → ∃ u, x = .block u

theorem Kernel.OwnTimers.set {t : TaskId} {y : Task} (h : k.OwnTimers)
    (hy : ∀ x, y.timer = some x → ∃ u, x = .block u) : (k.setTask t y).OwnTimers := by
  intro u x hx
  by_cases hu : u = t
  · subst hu
    exact hy x (by simpa using hx)
  · exact h u x (by simpa [hu] using hx)

theorem Move.timer_cases (h : Move a k k') (ha : a ≠ .timers) (t : TaskId) :
    (k'.tasks t).timer = (k.tasks t).timer ∨ (k'.tasks t).timer = none := by
  by_cases hw : ∃ t Q c, a = .wake t Q c
  · obtain ⟨u, Q, c, rfl⟩ := hw
    cases h with
    | wake hQ hr hu ht h =>
      obtain ⟨q, rfl, -, -⟩ := h
      by_cases htu : t = u
      · subst htu
        obtain ⟨rfl, -⟩ | ⟨y, -, -, rfl⟩ := hu <;> simp [Kernel.woken]
      · simp [Kernel.woken, htu]
  · have hm := h.task t
    generalize k'.tasks t = x at hm ⊢
    cases hm with
    | wake hQ hr => exact absurd ⟨_, _, _, rfl⟩ hw
    | create hl => exact Or.inr rfl
    | timers hu => exact absurd rfl ha
    | _ => exact Or.inl rfl

theorem Move.ownTimers (h : Move a k k') (ha : a ≠ .timers) (hk : k.OwnTimers) : k'.OwnTimers := by
  intro t x hx
  obtain he | he := h.timer_cases ha t
  · exact hk t x (he ▸ hx)
  · rw [he] at hx
    cases hx

/-- What a move does to the timers. -/
theorem Move.serves (h : Move a k k') (ha : a ≠ .timers) (hk : k.OwnTimers) :
    Serves [] k.timers k'.timers := by
  by_cases hw : ∃ t Q c, a = .wake t Q c
  · obtain ⟨t, Q, c, rfl⟩ := hw
    cases h with
    | wake hQ hr hu ht h =>
      obtain ⟨q, rfl, -, -⟩ := h
      obtain ⟨-, rfl⟩ | ⟨y, hy, hd, -⟩ := hu
      · exact .refl _
      · obtain ⟨u, rfl⟩ := hk t y hy
        exact .destroy hd
  · rw [h.timers_eq ha fun t Q c he => hw ⟨t, Q, c, he⟩]
    exact .refl _

theorem Path.serves {D : Kind → Prop} (h : Path D k k') (hD : ¬ D .timers) (hk : k.OwnTimers) :
    k'.OwnTimers ∧ Serves [] k.timers k'.timers := by
  refine h.invariant (I := fun k' => k'.OwnTimers ∧ Serves [] k.timers k'.timers) ?_ ⟨hk, .refl _⟩
  rintro a k₁ k₂ ha ⟨h₁, hs⟩ hm
  have hne : a ≠ .timers := by
    rintro rfl
    exact hD ha
  exact ⟨hm.ownTimers hne h₁, hs.trans (hm.serves hne h₁)⟩

theorem Placed.Timed.serves {n T : ℕ} {proc : TimerProc} (h : Placed.Timed n proc T k k') :
    Serves [] k.timers k'.timers := by
  obtain ⟨-, rfl⟩ | ⟨x, -, -, hx, rfl⟩ := h
  · exact .refl _
  · exact .create hx (by decide)

theorem Placed.Timed.ownTimers {n T : ℕ} {proc : TimerProc} (h : Placed.Timed n proc T k k')
    (hk : k.OwnTimers) : k'.OwnTimers := by
  obtain ⟨-, rfl⟩ | ⟨x, -, -, -, rfl⟩ := h
  · exact hk
  · refine Kernel.OwnTimers.set hk fun x hx => ?_
    cases hx
    exact ⟨_, rfl⟩

theorem blockedReturn_serves {c : RetCode} (hk : k.OwnTimers) (h : blockedReturn k = .ok (k', c)) :
    k'.OwnTimers ∧ Serves [] k.timers k'.timers := by
  obtain ⟨x, hu, rfl, -⟩ := blockedReturn_ok h
  refine ⟨hk.set fun x hx => (by cases hx), ?_⟩
  obtain ⟨-, rfl⟩ | ⟨y, hy, hd, -⟩ := hu
  · exact .refl _
  · obtain ⟨u, rfl⟩ := hk k.taskCurrent y (by simpa [Kernel.running, Kernel.current] using hy)
    exact .destroy hd

end Moves

section Steps
variable [Port] {k k' : Kernel} {i : Action} {r : Option Ret} {n : ℕ} {xs : List TimerId}

omit [Port] in
/-- A tick of the kernel is a tick of the timer module. -/
theorem Guarded.tick_serves (hg : Guarded k xs) (h : osTickTimers timerClbck n k = .ok k') :
    Serves [.tick] k.timers k'.timers := by
  obtain ⟨y, ys, hset, ht⟩ := hg.armed.tick
  obtain ⟨m, hm⟩ := hset
  have hn : osTickTimers timerClbck (max n m) k = .ok k' :=
    (steady_osTickTimers timerClbck k) n (max n m) _ (le_max_left _ _) h
  obtain ⟨fired, -, -, he⟩ := osTickTimers_lift (s := k) runProc_aside (hm _ (le_max_right n m))
  rw [timerClbck_eq, he] at hn
  have hk' : k'.timers = y := by
    cases hc : callbacks runProc (HasTimers.timers k).proc fired k with
    | error e =>
      rw [hc] at hn
      cases hn
    | ok k₁ =>
      rw [hc] at hn
      cases hn
      rfl
  rw [hk']
  refine ⟨fun hr => hr.step (i := .tick fun _ => []) ⟨fun _ => rfl, trivial, ⟨m, hm⟩⟩, ?_⟩
  rw [ht.history, List.filter_append]
  have hfires : ∀ fs : List TimerId,
      (fs.map TimerEvent.fire).reverse.filter TimerEvent.asked = [] := by
    intro fs
    simp [List.filter_eq_nil_iff, TimerEvent.asked]
  rw [hfires]
  rfl

omit [Port] in
theorem Guarded.osTick_serves (hg : Guarded k xs) (hp : Placed k) (h : RadOs.osTick n k = .ok k') :
    Serves [.tick] k.timers k'.timers := by
  obtain ⟨-, k₁, ht, -, hsch⟩ := hp.tick h
  have hs := hg.tick_serves ht
  obtain ⟨rfl, -⟩ | hm := hsch
  · exact hs
  · rw [hm.timers_eq (by simp) (by simp)]
    exact hs

omit [Port] in
theorem resume_serves (hp : Placed k) (hk : k.OwnTimers) (hi : Action.timing k .resume = true)
    (h : resume n k = .ok (k', r)) : Serves [] k.timers k'.timers := by
  unfold resume at h
  split at h
  case h_9 s hc | h_10 q hc =>
    all_goals
      obtain ⟨⟨k₁, c⟩, hb, h⟩ := Outcome.bind_ok h
      cases h
      exact (blockedReturn_serves hk hb).2
  case h_12 t hc =>
    obtain ⟨⟨k₁, c⟩, hb, h⟩ := Outcome.bind_ok h
    obtain ⟨hk₁, hs⟩ := blockedReturn_serves hk hb
    obtain ⟨hpath, -, hctx⟩ := blockedReturn_path hb
    have hend := ((hpath.placed hp).joinDestroyed (hctx.trans hc) h).path.serves
      (by simp [Placed.JoinEnd]) hk₁
    exact hs.trans hend.2
  all_goals simp_all [Action.timing]

/-- The step lemma. -/
theorem Timely.serves (ht : Timely k) (hsane : Sane k i) (hty : Typed i)
    (h : exec n i k = .ok (k', r)) : Serves i.asks.toList k.timers k'.timers := by
  have hs := ht.sound
  obtain ⟨xs, hg⟩ := ht.guarded
  have hk : k.OwnTimers := fun t x hx => ⟨t, (hg.own t x hx).1⟩
  by_cases hi : i.timing k = false
  · have hasks : i.asks = none := by
      cases i with
      | call c => cases c <;> first | rfl | cases hi
      | _ => rfl
    rw [hasks]
    exact ((exec_path hs.placed hs.owned hsane h).serves
      (fun hd => (does_untimed hi _ hd).1 rfl) hk).2
  · cases i with
    | resume => exact resume_serves hs.placed hk (by simpa using hi) h
    | isrEnter => simp [Action.timing] at hi
    | isrExit => simp [Action.timing] at hi
    | call c =>
      cases c with
      | semDown s T =>
        obtain ⟨c, hx, -⟩ := coded_ok h
        obtain ⟨-, ⟨-, -, rfl⟩ | ⟨-, -, -, rfl⟩ | ⟨-, -, k₁, ht, hb⟩⟩ :=
          hs.placed.semDown hx ⟨rfl, by simp⟩
        · exact .refl _
        · exact .refl _
        · exact ht.serves.trans (hb.serves (by simp) (ht.ownTimers hk))
      | waitqueueWait T =>
        obtain ⟨c, hx, -⟩ := coded_ok h
        obtain ⟨-, -, -, ⟨-, -, rfl⟩ | ⟨q, k₁, -, -, ht, hb⟩⟩ := hs.placed.waitqueueWait hx
        · exact .refl _
        · exact ht.serves.trans (hb.serves (by simp) (ht.ownTimers hk))
      | timerCreate m T R =>
        obtain ⟨y, hy, hx⟩ := Outcome.bind_ok (quiet_ok h).1
        cases hx
        exact .create hy hty
      | timerDestroy m =>
        obtain ⟨y, hy, hx⟩ := Outcome.bind_ok (quiet_ok h).1
        cases hx
        exact .destroy hy
      | tick => exact hg.osTick_serves hs.placed (quiet_ok h).1
      | _ => simp [Action.timing] at hi

end Steps

section Runs
variable [Port] {k : Kernel} {tr : List KernelStep}

end Runs

end RadOs
