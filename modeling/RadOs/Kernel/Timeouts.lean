import RadOs.Kernel.Guards

/-! # Timeouts

`Guarded` holds in every reachable state, and a step keeps the deadline of every
task that goes on waiting. So a timed wait ends at the latest on the tick of its
timeout, and whatever ends it earlier stops the timer.
-/

namespace RadOs
open Bucketed Runs Budget

section Timers
variable {k : Kernel} {xs : List TimerId} {x : Timers TimerId TimerProc} {m : ℕ}

/-- A timer of the application is created. -/
theorem Guarded.timerCreate (hg : Guarded k xs) {n T R : ℕ}
    (hx : osTimerCreate n (.obj m) .user T R k.timers = .ok x) (hR : R < ticksMod) :
    ∃ ys, Guarded { k with timers := x } ys ∧ Kept k xs { k with timers := x } ys := by
  obtain ⟨h₁, h₂, h₃⟩ := osTimerCreate_ok hx
  obtain ⟨y, ys, hset, ha, hmem, -, -, hother, -, hhist⟩ :=
    hg.armed.create (.obj m) .user T R h₁ h₂ h₃ hR
  have hxy : x = y := by
    simpa using ((steady_osTimerCreate _ _ _ _ _).settles hx).unique hset
  subst hxy
  have hold : ∀ t, .block t ∈ ys → .block t ∈ xs := fun t ht =>
    ((hmem _).mp ht).resolve_left (by simp)
  have hsame : ∀ t, x.timers (.block t) = k.timers.timers (.block t) := fun t =>
    (hother (.block t) (by simp)).2
  have hticks : x.ticks = k.timers.ticks := by
    rw [Timers.ticks, hhist]
    simp [Timers.ticks]
  refine ⟨ys, ⟨ha, fun j => ?_, fun t ht => ?_, fun t z hz => ?_, fun t z Q hz hQ hr => ?_⟩,
    hticks, fun t ht => ⟨hold t ht, ?_⟩⟩
  · change x.proc (.obj j) = .user
    by_cases hj : j = m
    · simp [Timers.proc, osTimerCreate_timers hx, hj]
    · simpa [Timers.proc, osTimerCreate_timers hx, hj] using hg.user j
  · change _ ∧ x.reload (.block t) = 0 ∧ ∃ Q, _ ∧ Guards t (x.proc (.block t)) Q
    simp only [Timers.reload, Timers.proc, hsame]
    exact hg.guard t (hold t ht)
  · obtain ⟨rfl, hm, hc⟩ := hg.own t z hz
    refine ⟨rfl, ?_, hc⟩
    change x.Made (.block t)
    rwa [Timers.Made, hsame]
  · exact (hmem z).mpr (Or.inr (hg.pending t z Q hz hQ hr))
  · change x.ticks + x.left (.block t) = _
    rw [(hother (.block t) (by simp)).1, hticks, Kernel.due]

/-- A timer of the application is destroyed. -/
theorem Guarded.timerDestroy (hg : Guarded k xs) (hx : osTimerDestroy (.obj m) k.timers = .ok x) :
    ∃ ys, Guarded { k with timers := x } ys ∧ Kept k xs { k with timers := x } ys := by
  have hmade := osTimerDestroy_made hx
  rw [osTimerDestroy_eq hmade, Except.ok.injEq] at hx
  subst hx
  obtain ⟨ha, hsame⟩ := hg.armed.destroy hmade
  have hold : ∀ t, .block t ∈ xs.filter (· ≠ .obj m) → .block t ∈ xs := fun t ht =>
    (List.mem_filter.mp ht).1
  have hticks : (destroyed (.obj m) k.timers).ticks = k.timers.ticks := by
    simp [Timers.ticks, destroyed_history]
  refine ⟨xs.filter (· ≠ .obj m), ⟨ha, fun j => ?_, fun t ht => ?_, fun t z hz => ?_,
    fun t z Q hz hQ hr => ?_⟩, hticks, fun t ht => ⟨hold t ht, ?_⟩⟩
  · change (destroyed (.obj m) k.timers).proc (.obj j) = .user
    rw [destroyed_proc]
    exact hg.user j
  · change _ ∧ (destroyed (.obj m) k.timers).reload (.block t) = 0 ∧
      ∃ Q, _ ∧ Guards t ((destroyed (.obj m) k.timers).proc (.block t)) Q
    rw [(hsame _ (hold t ht) (by simp)).2, destroyed_proc]
    exact hg.guard t (hold t ht)
  · obtain ⟨rfl, hm, hc⟩ := hg.own t z hz
    exact ⟨rfl, destroyed_made _ _ hm, hc⟩
  · have hmem := hg.pending t z Q hz hQ hr
    obtain ⟨rfl, -, -⟩ := hg.own t z hz
    simpa using hmem
  · change (destroyed (.obj m) k.timers).ticks + (destroyed (.obj m) k.timers).left (.block t) = _
    rw [(hsame _ (hold t ht) (by simp)).1, hticks, Kernel.due]

end Timers

section Steps
variable [Port] {k k' : Kernel} {xs ys : List TimerId} {i : Action} {n : ℕ} {r : Option Ret}

/-- The reload value of a timer fits into `os_ticks_t`. -/
def Typed : Action → Prop
  | .call (.timerCreate _ _ reloadTicks) => reloadTicks < ticksMod
  | _ => True

/-- The reload value of the timer that an action creates. -/
def Action.reloads : Action → ℕ
  | .call (.timerCreate _ _ reloadTicks) => reloadTicks
  | _ => 0

/-- The steps at which a blocking call sets up or stops a timer, or time passes. -/
def Action.timing (k : Kernel) : Action → Bool
  | .call (.semDown _ _) | .call (.waitqueueWait _) | .call (.timerCreate _ _ _)
  | .call (.timerDestroy _) | .call .tick => true
  | .resume =>
    match k.current.ctx with
    | .semDown _ | .waitqueueWait _ | .joinDown _ => true
    | _ => false
  | _ => false

omit [Port] in
theorem does_untimed (hi : i.timing k = false) (a : Kind) (ha : Does k i a) :
    a ≠ .timers ∧ ∀ t Q, a ≠ .wake t Q .timeout := by
  cases i with
  | call c =>
    cases c <;> simp only [Action.timing, Bool.true_eq_false] at hi <;>
      simp only [Does] at ha <;> aesop
  | resume =>
    simp only [Action.timing] at hi
    simp only [Does, Placed.JoinEnd] at ha
    split at hi <;> aesop
  | isrEnter => simp [Does] at ha; simp [ha]
  | isrExit => simp [Does] at ha; simp [ha]

/-- A step that does not deal with timers is made by a task without a timer, or it is made by an
interrupt handler and leaves the running task where it is in its code. -/
theorem Guarded.untimed_cases (hg : Guarded k xs) (haw : 0 < k.isrNesting → k.started = true)
    (he : Enabled k i) (hi : i.timing k = false) (h : RadOs.exec n i k = .ok (k', r)) :
    k.current.timer = none ∨ ((∀ c c', ¬ Does k i (.ctx c c')) ∧ ¬ Does k i .exit ∧
      (k.isrNesting = 0 → ∀ a : Kind, a.still = false → ¬ Does k i a)) := by
  cases i with
  | call c =>
    by_cases hn : k.isrNesting = 0
    · rw [Enabled, if_pos hn] at he
      refine Or.inl (hg.timer_none (t := k.taskCurrent) ?_)
      cases hc : (k.tasks k.taskCurrent).ctx <;> simp_all [Kernel.current, Ctx.outside, Ctx.timed]
    · rw [Enabled, if_neg hn] at he
      refine Or.inr ⟨not_does_ctx (haw (Nat.pos_of_ne_zero hn)) hn h, ?_, fun h₀ => absurd h₀ hn⟩
      cases c <;> simp_all [Does, Call.exits]
  | resume =>
    refine Or.inl (hg.timer_none (t := k.taskCurrent) ?_)
    simp only [Action.timing, Kernel.current] at hi
    cases hc : (k.tasks k.taskCurrent).ctx <;> simp_all [Ctx.timed]
  | isrEnter | isrExit =>
    all_goals
      refine Or.inr ⟨by simp [Does], by simp [Does], fun _ a ha hd => ?_⟩
      cases hd
      cases ha

theorem Guarded.untimed (hg : Guarded k xs) (hs : Sound k)
    (haw : 0 < k.isrNesting → k.started = true) (he : Enabled k i) (hsane : Sane k i)
    (hi : i.timing k = false) (h : RadOs.exec n i k = .ok (k', r)) :
    ∃ ys, Guarded k' ys ∧ Kept k xs k' ys := by
  have hcase := hg.untimed_cases haw he hi h
  obtain ⟨k₁, hpath, hlast⟩ := exec_parts hs.placed hs.owned hsane h
  obtain ⟨ys, hg₁, hk₁, -, ht₁⟩ := hg.path hs.placed hpath fun a ha => by
    obtain ⟨hnt, hnw⟩ := does_untimed hi a ha
    refine ⟨hnt, hnw, hcase.symm.imp_left ?_⟩
    rintro ⟨hctx, -⟩ c c' rfl
    exact hctx c c' ha
  obtain rfl | ⟨a, ha, hst, hm⟩ := hlast
  · exact ⟨ys, hg₁, hk₁⟩
  · obtain ⟨hnt, hnw⟩ := does_untimed hi a ha
    have hw : ∀ t Q c, a ≠ .wake t Q c := by
      rintro t Q c rfl
      cases hst
    have hp₁ := hpath.placed hs.placed
    refine ⟨ys, hg₁.move hp₁ hm hnt hw fun _ => ?_, hk₁.trans (.refl (hm.timers_eq hnt hw))⟩
    obtain ht | ⟨-, hx, hsw⟩ := hcase
    · exact Or.inr (ht₁ ht)
    · -- the last move of an interrupt handler is a switch
      have hnest : k₁.isrNesting = k.isrNesting := by
        rw [← (hm.scalars_eq (by rintro rfl; cases hst)).1,
          (scalarStep hs.placed hs.owned hsane h).isrNesting]
        cases i with
        | call c => rfl
        | resume => rfl
        | isrEnter | isrExit =>
          all_goals
            cases ha
            cases hst
      cases hm with
      | switch hn hl hnx hpr hc hr => exact absurd ha (hsw (hnest ▸ hn) _ rfl)
      | switchIsr hn hl hnx hpr hr => exact Or.inl ⟨rfl, by omega⟩
      | block hn hd hr hnx hc hmx hq hre => exact absurd ha (hsw (hnest ▸ hn) _ rfl)
      | exit hnx hd hr => exact absurd ha hx
      | _ => cases hst

omit [Port] in
/-- A sequence of moves of a task without a timer. -/
theorem Guarded.parts {D : Kind → Prop} (hg : Guarded k xs) (hp : Placed k)
    (hc : k.current.timer = none) (h : Parts D k k')
    (hD : ∀ a, D a → a ≠ .timers ∧ ∀ t Q, a ≠ .wake t Q .timeout) :
    ∃ ys, Guarded k' ys ∧ Kept k xs k' ys := by
  obtain ⟨k₁, hpath, hlast⟩ := h
  obtain ⟨ys, hg₁, hk₁, -, ht₁⟩ := hg.path hp hpath fun a ha =>
    ⟨(hD a ha).1, (hD a ha).2, Or.inr hc⟩
  obtain rfl | ⟨a, ha, hst, hm⟩ := hlast
  · exact ⟨ys, hg₁, hk₁⟩
  · have hw : ∀ t Q c, a ≠ .wake t Q c := by
      rintro t Q c rfl
      cases hst
    exact ⟨ys, hg₁.move (hpath.placed hp) hm (hD a ha).1 hw fun _ => Or.inr (ht₁ hc),
      hk₁.trans (.refl (hm.timers_eq (hD a ha).1 hw))⟩

/-- What a step makes of the timers of blocking calls. -/
structure Guarding (k : Kernel) (xs : List TimerId) (i : Action) (r : Option Ret) (k' : Kernel)
    (ys : List TimerId) : Prop where
  guarded : Guarded k' ys
  ticks : k'.timers.ticks = k.timers.ticks + if i = .call .tick then 1 else 0
  due : ∀ u, u ≠ k.taskCurrent → .block u ∈ ys → .block u ∈ xs ∧ k'.due u = k.due u
  down : ∀ s T, i = .call (.semDown s T) → r = none → T ≠ osTimeoutInfinite →
    .block k.taskCurrent ∈ ys ∧ k'.due k.taskCurrent = k.timers.ticks + T
  tick : i = .call .tick → ∃ k₁, Placed k₁ ∧ Scheduled 0 k₁ k' ∧
    (∀ t, .block t ∈ xs → k.due t = k.timers.ticks + 1 → k₁.tasks t = { k.tasks t with
      retValue := RetCode.timeout.toInt, state := .ready, taskQueue := some .ready }) ∧
    ∀ t, ¬ (.block t ∈ xs ∧ k.due t = k.timers.ticks + 1) → k₁.tasks t = k.tasks t

omit [Port] in
theorem Guarding.of_kept (hg : Guarded k' ys) (hk : Kept k xs k' ys) (hi : i ≠ .call .tick)
    (hd : ∀ s T, i = .call (.semDown s T) → r ≠ none) : Guarding k xs i r k' ys :=
  ⟨hg, by simp [hi, hk.ticks], fun u _ hu => hk.due u hu, fun s T h hr => absurd hr (hd s T h),
    fun h => absurd h hi⟩

omit [Port] in
/-- The running task blocks in a call with the timeout `T`. -/
theorem Guarding.of_block {T : ℕ} (hg : Guarded k' ys) (hi : i ≠ .call .tick)
    (hd : ∀ s T', i = .call (.semDown s T') → T' = T)
    (h : (T = osTimeoutInfinite ∧ Kept k xs k' ys) ∨
      (T ≠ osTimeoutInfinite ∧ k'.timers.ticks = k.timers.ticks ∧ .block k.taskCurrent ∈ ys ∧
        k'.due k.taskCurrent = k.timers.ticks + T ∧
        ∀ u, u ≠ k.taskCurrent → .block u ∈ ys → .block u ∈ xs ∧ k'.due u = k.due u)) :
    Guarding k xs i r k' ys := by
  obtain ⟨rfl, hk⟩ | ⟨-, ht, hm, hdue, hk⟩ := h
  · refine ⟨hg, by simp [hi, hk.ticks], fun u _ hu => hk.due u hu, fun s T' h _ hne => ?_,
      fun h => absurd h hi⟩
    exact absurd (hd s T' h) hne
  · refine ⟨hg, by simp [hi, ht], hk, fun s T' h _ _ => ?_, fun h => absurd h hi⟩
    rw [hd s T' h]
    exact ⟨hm, hdue⟩

omit [Port] in
theorem Guarded.semDown (hg : Guarded k xs) (hp : Placed k) (hc : k.current.timer = none)
    {s T : ℕ} {c : Option RetCode}
    (h : osSemDown n (.obj s) T (.semDown (.obj s)) k = .ok (k', c)) :
    ∃ ys, Guarding k xs (.call (.semDown s T)) (c.map .code) k' ys := by
  obtain ⟨-, ⟨-, rfl, rfl⟩ | ⟨-, -, rfl, rfl⟩ | ⟨-, rfl, k₁, ht, hb⟩⟩ := hp.semDown h ⟨rfl, by simp⟩
  · have hg' : Guarded (k.setSem (.obj s) (k.sems (.obj s) - 1)) xs :=
      hg.congr rfl (fun _ => Or.inr rfl) (fun _ _ => rfl) (fun _ _ => ⟨rfl, rfl⟩) fun _ _ _ h _ => h
    exact ⟨xs, .of_kept hg' (.refl rfl) (by simp) (by simp)⟩
  · exact ⟨xs, .of_kept hg (.refl rfl) (by simp) (by simp)⟩
  · have hgd : Guards k.taskCurrent (.osSemTimerclbck k.taskCurrent) (.sem (.obj s)) := rfl
    obtain ⟨ys, hg', hk⟩ := hg.block (w := k₁.waitqueueCurrent) hp hc ht hgd (by simp) hb
    refine ⟨ys, .of_block hg' (by simp) ?_ hk⟩
    rintro s' T' ⟨⟩
    rfl

omit [Port] in
theorem Guarded.waitqueueWait (hg : Guarded k xs) (hp : Placed k) (hc : k.current.timer = none)
    {T : ℕ} {c : Option RetCode} (h : osWaitqueueWait n T k = .ok (k', c)) :
    ∃ ys, Guarding k xs (.call (.waitqueueWait T)) (c.map .code) k' ys := by
  have hm : Move .scalars k { k with schedLock := k.schedLock - 1 } := .scalars rfl
  have hg₁ := hg.move hp hm (by simp) (by simp) (by simp [Kind.relocates])
  obtain ⟨-, -, -, ⟨-, -, rfl⟩ | ⟨q, k₁, -, -, ht, hb⟩⟩ := hp.waitqueueWait h
  · exact ⟨xs, .of_kept (hg₁.move (hm.placed hp) (setCtx_move _ _) (by simp) (by simp)
      fun _ => Or.inr hc) (.refl rfl) (by simp) (by simp)⟩
  · have hgd : Guards k.taskCurrent (.osWaitqueueTimerclbck k.taskCurrent) (.waitqueue q) := rfl
    obtain ⟨ys, hg', hk⟩ := hg₁.block (hm.placed hp) hc ht hgd (by simp) hb
    refine ⟨ys, .of_block (T := T) hg' (by simp) (by simp) ?_⟩
    obtain ⟨hT, hk⟩ | hk := hk
    · have hk₀ : Kept k xs { k with schedLock := k.schedLock - 1 } xs := .refl rfl
      exact Or.inl ⟨hT, hk₀.trans hk⟩
    · exact Or.inr hk

omit [Port] in
theorem Guarded.resume (hg : Guarded k xs) (hp : Placed k) (hi : Action.timing k .resume = true)
    (h : RadOs.resume n k = .ok (k', r)) : ∃ ys, Guarding k xs .resume r k' ys := by
  unfold RadOs.resume at h
  split at h
  case h_9 s hc | h_10 q hc =>
    all_goals
      obtain ⟨⟨k₁, c⟩, hb, h⟩ := Outcome.bind_ok h
      cases h
      obtain ⟨ys, hg', -, hk⟩ := hg.blockedReturn hb .user
      exact ⟨ys, .of_kept hg' hk (by simp) (by simp)⟩
  case h_12 t hc =>
    obtain ⟨⟨k₁, c⟩, hb, h⟩ := Outcome.bind_ok h
    -- the timeout of a join is infinite, so there is no timer to stop
    have htm : k.current.timer = none := hg.timer_none (by
      rw [Kernel.current] at hc
      simp [hc, Ctx.timed])
    obtain ⟨-, hcur, hctx⟩ := blockedReturn_path hb
    obtain ⟨x, hu, hk₁, -⟩ := blockedReturn_ok hb
    have hm : Move (.ctx k.current.ctx k.current.ctx) k k₁ := by
      obtain ⟨-, rfl⟩ | ⟨y, hy, -, -⟩ := hu
      · refine .ctx (Or.inl rfl) (hk₁.trans ?_)
        simp [Kernel.setTask, Kernel.running, ← htm]
      · simp [Kernel.running, Kernel.current] at hy htm
        simp [htm] at hy
    have hparts := ((hm.placed hp).joinDestroyed (hctx.trans hc) h).mono
      (E := fun a => a = .ctx k.current.ctx k.current.ctx ∨ Placed.JoinEnd k₁.taskCurrent t a)
      fun a ha => Or.inr ha
    obtain ⟨ys, hg', hk⟩ := hg.parts hp htm (.trans (.single ⟨Or.inl rfl, rfl⟩ hm) hparts) (by
      rintro a (rfl | ha)
      · simp
      · simp only [Placed.JoinEnd] at ha
        aesop)
    exact ⟨ys, .of_kept hg' hk (by simp) (by simp)⟩
  all_goals simp_all [Action.timing]

omit [Port] in
theorem Guarded.osTick (hg : Guarded k xs) (hs : Sound k) (h : RadOs.osTick n k = .ok k') :
    ∃ ys, Guarding k xs (.call .tick) r k' ys := by
  obtain ⟨hi, k₁, htick, hpath, hsch⟩ := hs.placed.tick h
  obtain ⟨k₂, ys, hset, hg₁, hticks, hkept, hwoken, hsame⟩ := hg.tick hs.placed hs.linked
  obtain rfl : k₁ = k₂ := by
    simpa using ((steady_osTickTimers _ _).settles htick).unique hset
  have hp₁ := hpath.placed hs.placed
  have hnest : k₁.isrNesting = k.isrNesting := (hpath.scalars_eq (by simp)).1
  have hg' : Guarded k' ys ∧ k'.timers = k₁.timers := by
    obtain ⟨rfl, -⟩ | hm := hsch
    · exact ⟨hg₁, rfl⟩
    · exact ⟨hg₁.move hp₁ hm (by simp) (by simp) fun _ => Or.inl ⟨rfl, by omega⟩,
        hm.timers_eq (by simp) (by simp)⟩
  refine ⟨ys, hg'.1, by rw [hg'.2, hticks, if_pos rfl], fun u _ hu => ?_, by simp,
    fun _ => ⟨k₁, hp₁, hsch, hwoken, hsame⟩⟩
  rw [Kernel.due, hg'.2]
  exact ⟨(hkept u hu).1, (hkept u hu).2.1⟩

/-- The step lemma. -/
theorem Guarded.exec (hg : Guarded k xs) (hs : Sound k)
    (haw : 0 < k.isrNesting → k.started = true) (he : Enabled k i) (hsane : Sane k i)
    (hty : Typed i) (h : RadOs.exec n i k = .ok (k', r)) : ∃ ys, Guarding k xs i r k' ys := by
  by_cases hi : i.timing k = false
  · obtain ⟨ys, hg', hk⟩ := hg.untimed hs haw he hsane hi h
    exact ⟨ys, .of_kept hg' hk (by rintro rfl; cases hi) (by rintro s T rfl; cases hi)⟩
  · have hcur : ∀ c, i = .call c → k.isrNesting = 0 → k.current.timer = none := by
      rintro c rfl hn
      rw [Enabled, if_pos hn] at he
      apply hg.timer_none
      cases hc : (k.tasks k.taskCurrent).ctx <;> simp_all [Kernel.current, Ctx.outside, Ctx.timed]
    cases i with
    | resume => exact hg.resume hs.placed (by simpa using hi) h
    | isrEnter => simp [Action.timing] at hi
    | isrExit => simp [Action.timing] at hi
    | call c =>
      cases c with
      | semDown s T =>
        obtain ⟨c, hx, rfl⟩ := coded_ok h
        exact hg.semDown hs.placed (hcur _ rfl (Outcome.assert_ok hx).1) hx
      | waitqueueWait T =>
        obtain ⟨c, hx, rfl⟩ := coded_ok h
        exact hg.waitqueueWait hs.placed (hcur _ rfl (Outcome.assert_ok hx).1) hx
      | timerCreate m T R =>
        obtain ⟨y, hy, hx⟩ := Outcome.bind_ok (quiet_ok h).1
        cases hx
        obtain ⟨ys, hg', hk⟩ := hg.timerCreate hy hty
        exact ⟨ys, .of_kept hg' hk (by simp) (by simp)⟩
      | timerDestroy m =>
        obtain ⟨y, hy, hx⟩ := Outcome.bind_ok (quiet_ok h).1
        cases hx
        obtain ⟨ys, hg', hk⟩ := hg.timerDestroy hy
        exact ⟨ys, .of_kept hg' hk (by simp) (by simp)⟩
      | tick => exact hg.osTick hs (quiet_ok h).1
      | _ => simp [Action.timing] at hi

end Steps

/-! ## Every reachable state -/

section Runs
variable [Port] {k k' : Kernel} {r : Option Ret} {i : Action}

/-- The kernel, used as its interface asks for. -/
def timedSystem : System Kernel (Action × Option Ret) :=
  kernelSystem.restrict fun k i => Sane k i.1 ∧ Typed i.1

/-- The invariant of `timedSystem`. -/
structure Timely (k : Kernel) : Prop where
  sound : Sound k
  awake : 0 < k.isrNesting → k.started = true
  guarded : ∃ xs, Guarded k xs

omit [Port] in
theorem guarded_init : Guarded (osInit coldKernel) [] := by
  have hnone : ∀ t, ((osInit coldKernel).tasks t).timer = none := by
    intro t
    by_cases ht : t = taskIdle
    · subst ht
      simp [osInit, Kernel.setTask, osTaskInit]
    · simp [osInit, coldKernel, Kernel.setTask, Kernel.setQueue, ht, osTaskInit]
  refine ⟨Timers.Fresh.armed ⟨fun t => ?_, rfl, rfl⟩, fun n => rfl, by simp, fun t x hx => ?_,
    fun t x Q hx => ?_⟩
  · simp [Timers.Made, coldKernel]
  · rw [hnone] at hx
    cases hx
  · rw [hnone] at hx
    cases hx

theorem Timely.step (h : Timely k) (hst : timedSystem.step k (i, r) k') : Timely k' := by
  obtain ⟨⟨hsane, hty⟩, he, hset⟩ := hst
  obtain ⟨n, hn⟩ := hset.exists_eq
  obtain ⟨xs, hg⟩ := h.guarded
  obtain ⟨ys, hgd⟩ := hg.exec h.sound h.awake he hsane hty hn
  have hsc := scalarStep h.sound.placed h.sound.owned hsane hn
  exact ⟨h.sound.exec hsane hn, hsc.awake he h.awake, ys, hgd.guarded⟩

theorem timely_of_reachable (h : timedSystem.Reachable k) : Timely k := by
  refine h.invariant ?_ ?_
  · rintro k rfl
    exact ⟨sound_init, by simp [osInit, coldKernel, Kernel.setTask, Kernel.setQueue], [],
      guarded_init⟩
  · rintro k ⟨i, r⟩ k' hk hst
    exact hk.step hst

omit [Port] in
theorem Guards.sem {t u : TaskId} {Q : QueueId} (h : Guards t (.osSemTimerclbck u) Q) :
    u = t ∧ ∃ s, Q = .sem s := by
  cases Q with
  | sem s => exact ⟨h, s, rfl⟩
  | _ => exact h.elim

omit [Port] in
theorem Guards.waitqueue {t u : TaskId} {Q : QueueId} (h : Guards t (.osWaitqueueTimerclbck u) Q) :
    u = t ∧ ∃ q, Q = .waitqueue q := by
  cases Q with
  | waitqueue q => exact ⟨h, q, rfl⟩
  | _ => exact h.elim

omit [Port] in
/-- A timer on the list that is not one of the application belongs to a waiting task. -/
theorem Timely.listed (h : Timely k) {x : TimerId} (hx : k.timers.Listed x)
    (hp : k.timers.proc x ≠ .user) : ∃ t Q, x = .block t ∧ (k.tasks t).timer = some x ∧
      (k.tasks t).state = .wait ∧ (k.tasks t).taskQueue = some Q ∧ Guards t (k.timers.proc x) Q := by
  obtain ⟨xs, hg⟩ := h.guarded
  rw [hg.armed.listed_iff] at hx
  cases x with
  | obj n => exact absurd (hg.user n) hp
  | block t =>
    obtain ⟨htm, -, Q, hQ, hgd⟩ := hg.guard t hx
    exact ⟨t, Q, rfl, htm, (h.sound.placed.wait t Q hQ hgd.ne_ready).1, hQ, hgd⟩

omit [Port] in
theorem Timely.tick (h : Timely k) (hi : 0 < k.isrNesting) :
    ∃ k', Settles (fun n => osTick n k) (.ok k') := by
  obtain ⟨xs, hg⟩ := h.guarded
  obtain ⟨k₁, ys, hset, -⟩ := hg.tick h.sound.placed h.sound.linked
  obtain ⟨n, hn⟩ := hset.exists_eq
  have hpath := h.sound.placed.tickTimers hn
  obtain ⟨k', hk'⟩ := (hpath.placed h.sound.placed).schedule_total
    (hpath.linked h.sound.placed (by simp) h.sound.linked) 0 .schedule
  refine ⟨k', Settles.congr (hset.bind (g := fun _ k => osSchedule 0 .schedule k) ?_) fun n => ?_⟩
  · rw [hk']
    exact settles_const _
  · simp only [osTick, osAssert_pos hi, Outcome.ok_bind]

/-- The timers of blocking calls on `timer_list` belong to tasks that wait in such a call. -/
theorem no_guard_outlives_its_call (h : timedSystem.Reachable k) :
    (∀ x t, k.timers.Listed x → k.timers.proc x = .osSemTimerclbck t →
      (k.tasks t).state = .wait ∧ (∃ s, (k.tasks t).taskQueue = some (.sem s)) ∧
        (k.tasks t).timer = some x) ∧
    (∀ x t, k.timers.Listed x → k.timers.proc x = .osWaitqueueTimerclbck t →
      (k.tasks t).state = .wait ∧ (∃ q, (k.tasks t).taskQueue = some (.waitqueue q)) ∧
        (k.tasks t).timer = some x) ∧
    -- the checks in the callbacks and in `os_blocktimer_create`
    (0 < k.isrNesting → ∃ k', Settles (fun n => osTick n k) (.ok k')) ∧
    (∀ c, Enabled k (.call c) → k.isrNesting = 0 → k.current.timer = none) ∧
    -- the end of a blocking call
    ∀ i c k', timedSystem.step k (i, some (.code c)) k' →
      ¬ k'.timers.Listed (.block k.taskCurrent) := by
  have ht := timely_of_reachable h
  obtain ⟨xs, hg⟩ := ht.guarded
  have hout : ∀ {k : Kernel} {xs : List TimerId}, Guarded k xs → k.current.ctx.outside = true →
      k.current.timer = none := by
    intro k xs hg ho
    apply hg.timer_none
    cases hc : (k.tasks k.taskCurrent).ctx <;> simp_all [Kernel.current, Ctx.outside, Ctx.timed]
  refine ⟨fun x t hx hp => ?_, fun x t hx hp => ?_, ht.tick, fun c he hi => ?_, fun i c k' hst => ?_⟩
  · obtain ⟨u, Q, rfl, htm, hw, hQ, hgd⟩ := ht.listed hx (by simp [hp])
    rw [hp] at hgd
    obtain ⟨rfl, s, rfl⟩ := hgd.sem
    exact ⟨hw, ⟨s, hQ⟩, htm⟩
  · obtain ⟨u, Q, rfl, htm, hw, hQ, hgd⟩ := ht.listed hx (by simp [hp])
    rw [hp] at hgd
    obtain ⟨rfl, q, rfl⟩ := hgd.waitqueue
    exact ⟨hw, ⟨q, hQ⟩, htm⟩
  · rw [Enabled, if_pos hi] at he
    exact hout hg he
  · obtain ⟨ys, hg'⟩ := (ht.step hst).guarded
    obtain ⟨n, hn⟩ := hst.2.2.exists_eq
    obtain ⟨hcur, -, ho⟩ := exec_returns ht.sound.placed hst.2.1 hn
    rw [hg'.armed.listed_iff, ← hcur]
    exact hg'.notMem (hout hg' ho)

omit [Port] in
theorem typed_iff (i : Action) : Typed i ↔ i.reloads < ticksMod := by
  cases i with
  | call c => cases c <;> simp [Typed, Action.reloads, ticksMod]
  | _ => simp [Typed, Action.reloads, ticksMod]

omit [Port] in
instance : DecidablePred Typed := fun i => decidable_of_iff _ (typed_iff i).symm

def timedCheck (k : Kernel) (i : Action) : Bool := saneCheck k i && decide (Typed i)

omit [Port] in
theorem timed_of_check (hs : Sound k) (h : timedCheck k i = true) : Sane k i ∧ Typed i := by
  rw [timedCheck, Bool.and_eq_true, decide_eq_true_eq] at h
  exact ⟨sane_of_check hs h.1, h.2⟩

end Runs

/-- The task 1 waits for two ticks at most. -/
def timedRun : List Action :=
  [.call (.taskCreate 1 2), .call (.semCreate 0 0), .call .start, .resume, .call (.semDown 0 2)]

theorem no_guard_outlives_its_call_waiting : ∃ k, timedSystem.Reachable k ∧
    k.timers.Listed (.block 1) ∧ k.timers.proc (.block 1) = .osSemTimerclbck 1 ∧
    (k.tasks 1).state = .wait ∧ (k.tasks 1).timer = some (.block 1) := by
  obtain ⟨k, hk, hx⟩ := Outcome.exists_of_holds
    (x := play timedCheck 10 timedRun (osInit coldKernel))
    (p := fun k => decide ((k.tasks 1).taskQueue = some (.sem (.obj 0)) ∧
      (k.tasks 1).timer = some (.block 1) ∧ (k.timers.timers (.block 1)).proc = .osSemTimerclbck 1))
    (by decide +kernel)
  obtain ⟨hq, htm, hproc⟩ := of_decide_eq_true hx
  have hr : timedSystem.Reachable k := reachable_of_play (P := fun k i => Sane k i.1 ∧ Typed i.1)
    (fun _ _ h => h.1) (fun _ _ _ hs h => timed_of_check hs h) (.start rfl) hk
  obtain ⟨xs, hg⟩ := (timely_of_reachable hr).guarded
  have hl := hg.armed.listed_iff.mpr (hg.pending 1 _ _ htm hq (by simp))
  obtain ⟨hw, -, -⟩ := (no_guard_outlives_its_call hr).1 _ _ hl hproc
  exact ⟨k, hr, hl, hproc, hw, htm⟩

end RadOs
