import RadOs.Timer.Calls

/-! # Callbacks that leave the timers alone

If the callbacks of a tick do not touch the variables of the timer module, a tick
does to the timers what it does without callbacks, and to everything else what
the callbacks of the fired timers do, one after the other.
-/

namespace RadOs
open LinkedRing Budget

section Callbacks
variable {τ π σ : Type} [DecidableEq τ] [HasTimers σ τ π]
open HasTimers

/-- Call the callbacks of the timers `fired`. -/
def callbacks (act : π → σ → Outcome σ) (proc : τ → π) (fired : List τ) (s : σ) : Outcome σ :=
  fired.foldlM (fun s t => act (proc t) s) s

/-- The effect of the callbacks does not involve the timers. -/
def Aside (act : π → σ → Outcome σ) : Prop :=
  ∀ p x s, act p (setTimers x s) = (act p s).map (setTimers x)

/-- The callback with its parameter, as stored in a timer. -/
def Timers.proc (s : Timers τ π) (t : τ) : π := (s.timers t).proc

variable {act : π → σ → Outcome σ} {proc : τ → π} {fired : List τ} {s : σ} {x y : Timers τ π}

theorem Outcome.map_map {f g : σ → σ} (z : Outcome σ) : (z.map f).map g = z.map (g ∘ f) := by
  cases z <;> rfl

omit [DecidableEq τ] [HasTimers σ τ π] in
theorem callbacks_cons (t : τ) :
    callbacks act proc (t :: fired) s = act (proc t) s >>= callbacks act proc fired := by
  simp only [callbacks, List.foldlM_cons]
  rfl

omit [DecidableEq τ] in
theorem callbacks_setTimers (hact : Aside act) (x : Timers τ π) :
    callbacks act proc fired (setTimers x s) = (callbacks act proc fired s).map (setTimers x) := by
  induction fired generalizing s with
  | nil => rfl
  | cons t fired ih =>
    rw [callbacks_cons, callbacks_cons, hact]
    cases act (proc t) s with
    | error e => rfl
    | ok s₁ => exact ih

omit [DecidableEq τ] in
/-- Of the timers that the callbacks see only the last value counts. -/
theorem callbacks_set (hact : Aside act) :
    (callbacks act proc fired (setTimers x s)).map (setTimers y) =
      (callbacks act proc fired s).map (setTimers y) := by
  rw [callbacks_setTimers hact, Outcome.map_map]
  congr 1
  funext s
  simp

/-- The variables after the loop has passed the timer `t`. -/
def Timers.passed (t : τ) (x : Timers τ π) : Timers τ π :=
  x.setRem t (ticksSub (x.rem t) x.timerTickUnsynch)

/-- The variables when the callback of `t` is called. -/
def Timers.called (t : τ) (x : Timers τ π) : Timers τ π :=
  ((x.passed t).setLinks (listUnlink (.timer t) x.links)).record (.fire t)

/-- The variables after the timer `t` was put on the temporary list. -/
def Timers.kept (t : τ) (x : Timers τ π) : Timers τ π :=
  x.setLinks (listAppend .listAutoreload (.timer t) x.links)

theorem Timers.passed_proc (t : τ) (x : Timers τ π) : (x.passed t).proc = x.proc := by
  funext u
  by_cases hu : u = t
  · subst hu
    simp [Timers.proc, Timers.passed, Timers.setRem, Timers.setTimer]
  · simp [Timers.proc, Timers.passed, Timers.setRem, Timers.setTimer, hu]

theorem Timers.called_proc (t : τ) (x : Timers τ π) : (x.called t).proc = x.proc := x.passed_proc t

/-- One turn of the loop, on any state that holds the timers. -/
theorem triggerLoop_turn (clbck : τ → σ → Outcome σ) (n : ℕ) (t : τ) (s : σ) :
    triggerLoop clbck (n + 1) (.timer t) s =
      if 0 < ticksSub ((timers s).rem t) (timers s).timerTickUnsynch then
        triggerLoop clbck n ((timers s).links.next (.timer t)) (setTimers ((timers s).passed t) s)
      else clbck t (setTimers ((timers s).called t) s) >>= fun s₁ =>
        triggerLoop clbck n ((timers s).links.next (.timer t))
          (if 0 < (timers s₁).reload t then setTimers ((timers s₁).kept t) s₁ else s₁) := by
  rw [triggerLoop]
  simp only
  congr 1
  apply congrArg
  funext s₁
  split <;> rfl

theorem triggerLoop_lift (hact : Aside act) {n : ℕ} {z : TimerNode τ}
    (h : triggerLoop (fun _ => .ok) n z (timers s) = .ok y) :
    ∃ fired, y.history = (fired.map .fire).reverse ++ (timers s).history ∧ y.proc = (timers s).proc ∧
      triggerLoop (fun t s => act ((timers s).proc t) s) n z s =
        (callbacks act (timers s).proc fired s).map (setTimers y) := by
  induction n generalizing z s with
  | zero => cases h
  | succ n ih =>
    cases z with
    | timerList =>
      cases h
      refine ⟨[], rfl, rfl, ?_⟩
      change Except.ok s = Except.ok (setTimers (timers s) s)
      rw [set_timers]
    | listAutoreload => cases h
    | timer t =>
      rw [triggerLoop_turn] at h ⊢
      by_cases hlt : 0 < ticksSub ((timers s).rem t) (timers s).timerTickUnsynch
      · rw [if_pos hlt]
        obtain ⟨fired, hh, hp, he⟩ := ih (s := setTimers ((timers s).passed t) s)
          (z := (timers s).links.next (.timer t)) (by
            rw [timers_set]
            exact (if_pos hlt).symm.trans h)
        rw [timers_set, Timers.passed_proc] at hp he
        rw [timers_set] at hh
        rw [callbacks_set hact] at he
        exact ⟨fired, hh, hp, he⟩
      · rw [if_neg hlt, hact, timers_set, Timers.called_proc]
        replace h := (if_neg hlt).symm.trans h
        -- the variables behind the callback, whatever else it has done
        let x := (timers s).called t
        let x' := if 0 < x.reload t then x.kept t else x
        have hx' : x'.history = .fire t :: (timers s).history ∧ x'.proc = (timers s).proc := by
          by_cases hr : 0 < x.reload t
          · simp only [x', if_pos hr]
            exact ⟨rfl, Timers.called_proc t _⟩
          · simp only [x', if_neg hr]
            exact ⟨rfl, Timers.called_proc t _⟩
        have hstep : ∀ s₁ : σ, ∃ fired, y.history = (fired.map .fire).reverse ++ x'.history ∧
            y.proc = x'.proc ∧
            triggerLoop (fun t s => act ((timers s).proc t) s) n ((timers s).links.next (.timer t))
              (setTimers x' s₁) = (callbacks act x'.proc fired s₁).map (setTimers y) := by
          intro s₁
          obtain ⟨fired, hh, hp, he⟩ := ih (s := setTimers x' s₁)
            (z := (timers s).links.next (.timer t)) (by
              rw [timers_set]
              exact h)
          rw [timers_set] at hh hp he
          rw [callbacks_set hact] at he
          exact ⟨fired, hh, hp, he⟩
        rw [hx'.1, hx'.2] at hstep
        cases hs : act ((timers s).proc t) s with
        | error e =>
          obtain ⟨fired, hh, hp, -⟩ := hstep s
          refine ⟨t :: fired, by simpa using hh, hp, ?_⟩
          rw [callbacks_cons, hs]
          rfl
        | ok s₁ =>
          obtain ⟨fired, hh, hp, he⟩ := hstep s₁
          refine ⟨t :: fired, by simpa using hh, hp, ?_⟩
          rw [callbacks_cons, hs]
          refine Eq.trans ?_ he
          change triggerLoop _ n _ (if 0 < (timers (setTimers x s₁)).reload t then
            setTimers ((timers (setTimers x s₁)).kept t) (setTimers x s₁) else setTimers x s₁) = _
          rw [timers_set, set_set]
          congr 1
          by_cases hr : 0 < x.reload t
          · simp only [x', if_pos hr]
          · simp only [x', if_neg hr]

theorem rearmLoop_proc {n : ℕ} (h : rearmLoop n x = .ok y) :
    y.history = x.history ∧ y.proc = x.proc := by
  induction n generalizing x with
  | zero => cases h
  | succ n ih =>
    unfold rearmLoop at h
    split at h
    · cases h
      exact ⟨rfl, rfl⟩
    · rename_i t l hl
      obtain ⟨z, hz, h⟩ := Outcome.bind_ok h
      obtain ⟨itr, -, hz⟩ := Outcome.bind_ok hz
      cases hz
      obtain ⟨hh, hp⟩ := ih h
      refine ⟨hh, hp.trans ?_⟩
      funext u
      by_cases hu : u = t
      · subst hu
        simp [Timers.proc, Timers.setLinks, Timers.setRem, Timers.setTimer]
      · simp [Timers.proc, Timers.setLinks, Timers.setRem, Timers.setTimer, hu]
    · cases h

theorem timerTrigger_lift (hact : Aside act) {n : ℕ}
    (h : timerTrigger (fun _ => .ok) n (timers s) = .ok y) :
    ∃ fired, y.history = (fired.map .fire).reverse ++ (timers s).history ∧
      y.proc = (timers s).proc ∧
      timerTrigger (fun t s => act ((timers s).proc t) s) n s =
        (callbacks act (timers s).proc fired s).map (setTimers y) := by
  obtain ⟨z, hz, h⟩ := Outcome.bind_ok h
  obtain ⟨w, hw, h⟩ := Outcome.bind_ok h
  cases h
  let x := (timers s).setLinks (listInit .listAutoreload (timers s).links)
  obtain ⟨hwh, hwp⟩ := rearmLoop_proc hw
  obtain ⟨fired, hh, hp, he⟩ := triggerLoop_lift (s := setTimers x s) (y := z) hact
    (z := x.links.next .timerList) (by
      rw [timers_set]
      exact hz)
  rw [timers_set] at hh hp he
  rw [callbacks_set hact] at he
  refine ⟨fired, hwh.trans hh, hwp.trans hp, ?_⟩
  change (triggerLoop _ n (x.links.next .timerList) (setTimers x s) >>= _) = _
  rw [he]
  cases hs : callbacks act x.proc fired s with
  | error e =>
    rw [show callbacks act (timers s).proc fired s = _ from hs]
    rfl
  | ok s₁ =>
    rw [show callbacks act (timers s).proc fired s = _ from hs]
    change (rearmLoop n { timers (setTimers z s₁) with timerTickUnsynch := 0 } >>= fun x =>
      pure (setTimers x (setTimers z s₁))) = _
    rw [timers_set, show rearmLoop n { z with timerTickUnsynch := 0 } = .ok w from hw]
    change Except.ok (setTimers w (setTimers z s₁)) = _
    rw [set_set]
    rfl

/-- `os_tick` on any state that holds the timers. -/
theorem osTickTimers_eq (clbck : τ → σ → Outcome σ) (n : ℕ) (s : σ) :
    osTickTimers clbck n s = match listPeekfirst .timerList (timers s).links with
      | none => .ok (setTimers (timers s).countedIdle s)
      | some (.timer head) =>
        if (timers s).rem head ≤ (timers s).counted.timerTickUnsynch ∨
            osTimerUnsynchMax < (timers s).counted.timerTickUnsynch then
          timerTrigger clbck n (setTimers (timers s).counted s)
        else .ok (setTimers (timers s).counted s)
      | some _ => .error .wild := rfl

/-- A tick whose callbacks leave the timers alone. -/
theorem osTickTimers_lift (hact : Aside act) {n : ℕ}
    (h : osTickTimers (fun _ => .ok) n (timers s) = .ok y) :
    ∃ fired, y.history = (fired.map .fire).reverse ++ .tick :: (timers s).history ∧
      y.proc = (timers s).proc ∧
      osTickTimers (fun t s => act ((timers s).proc t) s) n s =
        (callbacks act (timers s).proc fired s).map (setTimers y) := by
  rw [osTickTimers_eq] at h ⊢
  change (match listPeekfirst .timerList (timers s).links with
    | none => .ok (timers s).countedIdle
    | some (.timer head) =>
      if (timers s).rem head ≤ (timers s).counted.timerTickUnsynch ∨
          osTimerUnsynchMax < (timers s).counted.timerTickUnsynch then
        timerTrigger (fun _ => .ok) n (timers s).counted
      else .ok (timers s).counted
    | some _ => .error .wild) = Except.ok y at h
  split at h
  · cases h
    exact ⟨[], rfl, rfl, rfl⟩
  · split at h
    · rename_i hc
      obtain ⟨fired, hh, hp, he⟩ := timerTrigger_lift (s := setTimers (timers s).counted s) hact
        (by rw [timers_set]; exact h)
      rw [timers_set] at hh hp he
      rw [callbacks_set hact] at he
      exact ⟨fired, hh, hp, (if_pos hc).trans he⟩
    · rename_i hc
      cases h
      exact ⟨[], rfl, rfl, if_neg hc⟩
  · cases h

/-- A tick on an armed list: the callbacks of the timers with one tick left are called. -/
theorem Armed.tick_lift {xs : List τ} (h : Armed (timers s) xs) (hact : Aside act) :
    ∃ y ys, Ticked (timers s) y xs ys ∧ y.proc = (timers s).proc ∧
      Settles (fun n => osTickTimers (fun t s => act ((timers s).proc t) s) n s)
        ((callbacks act (timers s).proc (xs.filter fun t => (timers s).left t = 1) s).map
          (setTimers y)) := by
  obtain ⟨y, ys, ⟨N, hN⟩, ht⟩ := h.tick
  have hfired : ∀ fired : List τ,
      y.history = (fired.map .fire).reverse ++ .tick :: (timers s).history →
        fired = xs.filter fun t => (timers s).left t = 1 := by
    intro fired hh
    rw [ht.history] at hh
    have := List.reverse_injective (List.append_cancel_right hh)
    exact (List.map_injective_iff.mpr (fun _ _ h => TimerEvent.fire.inj h) this).symm
  obtain ⟨fired, -, hp, -⟩ := osTickTimers_lift hact (hN N le_rfl)
  refine ⟨y, ys, ht, hp, N, fun n hn => ?_⟩
  obtain ⟨fired, hh, -, he⟩ := osTickTimers_lift hact (hN n hn)
  rw [hfired fired hh] at he
  exact he

end Callbacks

section Fields
variable {τ π : Type} [DecidableEq τ] {s s' : Timers τ π} {t : τ} {xs : List τ}

/-- The timer is on `timer_list`. -/
def Timers.Listed (s : Timers τ π) (t : τ) : Prop :=
  ∃ xs : List τ, Ring s.links .timerList (xs.map .timer) ∧ t ∈ xs

omit [DecidableEq τ] in
theorem Armed.listed_iff (h : Armed s xs) : s.Listed t ↔ t ∈ xs := by
  constructor
  · rintro ⟨ys, hr, ht⟩
    rwa [timers_eq_of_ring h.ring hr]
  · intro ht
    exact ⟨xs, h.ring, ht⟩

theorem destroyed_proc (t : τ) (s : Timers τ π) : (destroyed t s).proc = s.proc := by
  funext u
  by_cases hu : u = t
  · subst hu
    simp [Timers.proc, destroyed_timers]
  · simp [Timers.proc, destroyed_timers, hu]

theorem destroyed_made {u : τ} (t : τ) (s : Timers τ π) (h : s.Made u) : (destroyed t s).Made u := by
  by_cases hu : u = t
  · subst hu
    simp [Timers.Made, destroyed_timers]
  · simpa [Timers.Made, destroyed_timers, hu] using h

/-- What `os_timer_create` writes into the timer. -/
theorem osTimerCreate_timers {n : ℕ} {proc : π} {timeout reload : ℕ}
    (h : osTimerCreate n t proc timeout reload s = .ok s') :
    s'.timers = Function.update s.timers t
      ⟨ticksAdd timeout s.timerTickUnsynch, reload, proc, .magic1⟩ := by
  obtain ⟨-, h⟩ := Outcome.assert_ok h
  obtain ⟨-, h⟩ := Outcome.assert_ok h
  obtain ⟨-, h⟩ := Outcome.assert_ok h
  obtain ⟨itr, -, h⟩ := Outcome.bind_ok h
  cases h
  rfl

end Fields

end RadOs
