import RadOs.Timer.Calls
import RadOs.Timer.Machine
import RadOs.Timer.Schedule

/-! # The lazy timer list refines the naive model

The relation between the states of the timer module and those of the naive
model: the timers with `d` ticks left stand on the list in the order in which
the naive model armed them.
-/

namespace RadOs
open LinkedRing Budget Runs

variable {τ π : Type} [DecidableEq τ]

theorem Timers.Fresh.armed {s : Timers τ π} (h : s.Fresh) : Armed (osTimersInit s) [] where
  ring := listInit_ring _ s.links
  sorted := by simp
  above := by simp
  rem_lt := by simp
  reload_lt := by simp
  mem_of_rem t ht := absurd ht (h.unmade t)
  magic := by simp
  unsynch_le := by simp [osTimersInit, Timers.setLinks, h.unsynch]
  unsynch_nil _ := h.unsynch

/-- A call of `os_timer_create` that returns has passed its assertions. -/
theorem osTimerCreate_ok {n : ℕ} {t : τ} {proc : π} {timeout reload : ℕ} {s s' : Timers τ π}
    (h : osTimerCreate n t proc timeout reload s = .ok s') :
    0 < timeout ∧ timeout < osTimerTicksremMax ∧ (s.timers t).magic ≠ .magic1 := by
  unfold osTimerCreate at h
  obtain ⟨_, h₁, h⟩ := Outcome.bind_ok h
  obtain ⟨_, h₂, h⟩ := Outcome.bind_ok h
  obtain ⟨_, h₃, -⟩ := Outcome.bind_ok h
  exact ⟨osAssert_eq_ok.mp h₁, osAssert_eq_ok.mp h₂, osAssert_eq_ok.mp h₃⟩

/-- The abstraction relation. `xs` is the content of the timer list. -/
structure Refines (s : Timers τ π) (n : NaiveTimers τ) (xs : List τ) : Prop where
  armed : Armed s xs
  order : ∀ d, 0 < d → (n.armed.filter fun e => e.due = n.now + d).map Deadline.timer =
    xs.filter fun t => s.left t = d
  future : ∀ e ∈ n.armed, n.now < e.due
  reload : ∀ e ∈ n.armed, e.reload = s.reload e.timer
  history : s.history = n.history

omit [DecidableEq τ] in
theorem Refines.mem_armed {s : Timers τ π} {n : NaiveTimers τ} {xs : List τ} (r : Refines s n xs)
    {e : Deadline τ} (he : e ∈ n.armed) : e.timer ∈ xs ∧ s.left e.timer = e.due - n.now := by
  have hlt := r.future e he
  have hmem : e.timer ∈
      (n.armed.filter fun x => x.due = n.now + (e.due - n.now)).map Deadline.timer :=
    List.mem_map_of_mem (List.mem_filter.mpr ⟨he, decide_eq_true (by omega)⟩)
  rw [r.order _ (by omega)] at hmem
  simpa using hmem

theorem Refines.create {s s' : Timers τ π} {n : NaiveTimers τ} {xs : List τ} (r : Refines s n xs)
    {t : τ} {proc : π} {timeout reload : ℕ} (hr : reload < ticksMod)
    (hs : Settles (fun k => osTimerCreate k t proc timeout reload s) (.ok s')) :
    (∀ e ∈ n.armed, e.timer ≠ t) ∧ 0 < timeout ∧
      ∃ ys, Refines s' (n.create t timeout reload) ys := by
  obtain ⟨k, hk⟩ := hs.exists_eq
  obtain ⟨h₁, h₂, hm⟩ := osTimerCreate_ok hk
  obtain ⟨s'', ys, hs', ha, -, hleft, hrel, hother, horder, hhist⟩ :=
    r.armed.create t proc timeout reload h₁ h₂ hm hr
  have he : s' = s'' := by simpa using hs.unique hs'
  subst he
  have hne : ∀ e ∈ n.armed, e.timer ≠ t := by
    rintro e he rfl
    exact hm (r.armed.magic _ (r.mem_armed he).1)
  refine ⟨hne, h₁, ys, ha, fun d hd => ?_, fun e he => ?_, fun e he => ?_, ?_⟩
  · rw [horder d, ← r.order d hd]
    have hsplit : (n.create t timeout reload).armed.filter
          (fun e => e.due = (n.create t timeout reload).now + d) =
        (n.armed.filter fun e => e.due = n.now + d) ++
          [⟨t, n.now + timeout, reload⟩].filter fun e => e.due = n.now + d :=
      List.filter_append ..
    rw [hsplit, List.map_append]
    by_cases hdt : timeout = d <;> simp [hdt]
  · rcases List.mem_append.mp he with he | he
    · exact r.future e he
    · rw [List.mem_singleton.mp he]
      exact Nat.lt_add_of_pos_right h₁
  · rcases List.mem_append.mp he with he | he
    · rw [r.reload e he, Timers.reload, Timers.reload, (hother _ (hne e he)).2]
    · rw [List.mem_singleton.mp he, hrel]
  · rw [hhist, r.history]
    rfl

theorem Refines.destroy {s s' : Timers τ π} {n : NaiveTimers τ} {xs : List τ} (r : Refines s n xs)
    {t : τ} (hs : osTimerDestroy t s = .ok s') : ∃ ys, Refines s' (n.destroy t) ys := by
  have hmade := osTimerDestroy_made hs
  rw [osTimerDestroy_eq hmade, Except.ok.injEq] at hs
  subst hs
  obtain ⟨ha, hsame⟩ := r.armed.destroy hmade
  refine ⟨_, ha, fun d hd => ?_, fun e he => ?_, fun e he => ?_, ?_⟩
  · have hleft : (xs.filter (· ≠ t)).filter (fun x => (destroyed t s).left x = d) =
        (xs.filter fun x => s.left x = d).filter (· ≠ t) := by
      rw [List.filter_comm (· ≠ t)]
      refine List.filter_congr fun x hx => ?_
      obtain ⟨hx, hxt⟩ := List.mem_filter.mp hx
      rw [(hsame x hx (by simpa using hxt)).1]
    have hsplit : (n.destroy t).armed.filter (fun e => e.due = (n.destroy t).now + d) =
        (n.armed.filter fun e => e.due = n.now + d).filter fun e => e.timer ≠ t :=
      List.filter_comm ..
    rw [hleft, ← r.order d hd, hsplit, List.filter_map]
    rfl
  · exact r.future e (List.mem_filter.mp he).1
  · obtain ⟨he, ht⟩ := List.mem_filter.mp he
    rw [r.reload e he, (hsame _ (r.mem_armed he).1 (by simpa using ht)).2]
  · rw [destroyed_history, r.history]
    rfl

omit [DecidableEq τ] in
theorem Refines.tick {s s' : Timers τ π} {n : NaiveTimers τ} {xs ys : List τ} (r : Refines s n xs)
    (ht : Ticked s s' xs ys) : Refines s' n.tick ys := by
  have hexp : n.expiring.map Deadline.timer = xs.filter fun t => s.left t = 1 :=
    r.order 1 Nat.one_pos
  refine ⟨ht.armed, fun d hd => ?_, fun e he => ?_, fun e he => ?_, ?_⟩
  · rw [ht.order d hd, ← r.order (d + 1) (by omega), ← hexp]
    simp only [NaiveTimers.tick, List.filter_append, List.map_append, List.filter_map,
      List.map_map, List.filter_filter, Function.comp_def]
    congr 1
    · congr 1
      refine List.filter_congr fun e _ => ?_
      rw [Bool.eq_iff_iff]
      simp only [Bool.and_eq_true, decide_eq_true_eq]
      omega
    · congr 1
      refine List.filter_congr fun e he => ?_
      rw [r.reload e (List.mem_filter.mp he).1, Bool.eq_iff_iff]
      simp only [Bool.and_eq_true, decide_eq_true_eq]
      omega
  · rcases List.mem_append.mp he with he | he
    · obtain ⟨he, hd⟩ := List.mem_filter.mp he
      have hlt := r.future e he
      have : e.due ≠ n.now + 1 := by simpa using hd
      simp only [NaiveTimers.tick]
      omega
    · obtain ⟨e', he', rfl⟩ := List.mem_map.mp he
      have : 0 < e'.reload := by simpa using (List.mem_filter.mp he').2
      simp only [NaiveTimers.tick]
      omega
  · rw [ht.reload]
    rcases List.mem_append.mp he with he | he
    · exact r.reload e (List.mem_filter.mp he).1
    · obtain ⟨e', he', rfl⟩ := List.mem_map.mp he
      exact r.reload e' (List.mem_filter.mp (List.mem_filter.mp he').1).1
  · rw [ht.history, r.history, ← hexp]
    rfl

/-- Every state of the timer module refines a reachable state of the naive model. -/
theorem refines_of_reachable {s : Timers τ π}
    (h : ((timerSystem τ π).restrict fun _ c => c.Quiet).Reachable s) :
    ∃ n xs, (naiveTimers τ π).Reachable n ∧ Refines s n xs := by
  refine h.invariant (I := fun s => ∃ n xs, (naiveTimers τ π).Reachable n ∧ Refines s n xs) ?_ ?_
  · rintro s ⟨s₀, hf, rfl⟩
    refine ⟨.init, [], .start rfl, hf.armed, ?_, ?_, ?_, hf.history⟩ <;> simp [NaiveTimers.init]
  · rintro s c s' ⟨n, xs, hn, r⟩ ⟨hq, hty, hs⟩
    cases c with
    | create t proc timeout reload =>
      obtain ⟨hne, h₁, ys, r'⟩ := r.create hty.2 hs
      exact ⟨_, ys, hn.step (.create proc h₁ hne), r'⟩
    | destroy t =>
      obtain ⟨k, hk⟩ := hs.exists_eq
      obtain ⟨ys, r'⟩ := r.destroy hk
      exact ⟨_, ys, hn.step .destroy, r'⟩
    | tick stops =>
      have hstops : stops = fun _ => [] := funext hq
      subst hstops
      obtain ⟨s'', ys, hs', ht⟩ := r.armed.tick
      have he : s' = s'' := by simpa using hs.unique hs'
      subst he
      exact ⟨_, ys, hn.step .tick, r.tick ht⟩

/-- The assertions of the call hold. -/
def TimerCall.Allowed (s : Timers τ π) : TimerCall τ π → Prop
  | .create t _ timeout _ =>
    0 < timeout ∧ timeout < osTimerTicksremMax ∧ (s.timers t).magic ≠ .magic1
  | .destroy t => s.Made t
  | .tick _ => True

theorem Armed.returns {s : Timers τ π} {xs : List τ} (h : Armed s xs) {c : TimerCall τ π}
    (hty : c.Typed) (hq : c.Quiet) (ha : c.Allowed s) :
    ∃ s', Settles (fun n => c.exec n s) (.ok s') := by
  cases c with
  | create t proc timeout reload =>
    obtain ⟨h₁, h₂, hm⟩ := ha
    obtain ⟨s', _, hs, -⟩ := h.create t proc timeout reload h₁ h₂ hm hty.2
    exact ⟨s', hs⟩
  | destroy t =>
    refine ⟨destroyed t s, ?_⟩
    simp only [TimerCall.exec, osTimerDestroy_eq (show s.Made t from ha)]
    exact settles_const _
  | tick stops =>
    have hstops : stops = fun _ => [] := funext hq
    obtain ⟨s', _, hs, -⟩ := h.tick
    subst hstops
    exact ⟨s', hs⟩

/-- No operation on the tick type wraps in a call that starts in `s`: the pass of a tick reduces
every listed timer by the counter, and creating a timer adds the counter to the timeout. -/
structure Timers.Unwrapped (s : Timers τ π) : Prop where
  sub : ∃ xs : List τ, Ring s.links .timerList (xs.map .timer) ∧ ∀ t ∈ xs,
    ticksAdd s.timerTickUnsynch 1 = s.timerTickUnsynch + 1 ∧ s.timerTickUnsynch + 1 ≤ s.rem t
  add : ∀ timeout, timeout < osTimerTicksremMax → timeout + s.timerTickUnsynch < ticksMod

omit [DecidableEq τ] in
theorem Armed.unwrapped {s : Timers τ π} {xs : List τ} (h : Armed s xs) : s.Unwrapped := by
  refine ⟨⟨xs, h.ring, fun t ht => ⟨ticksAdd_unsynch h, h.above t ht⟩⟩, fun timeout ht => ?_⟩
  have := h.unsynch_le
  simp only [ticksMod, osTimerTicksremMax, osTicksMax, osTimerUnsynchMax] at *
  omega

/-- In every run with callbacks that leave the timers alone, every allowed call returns, the
observable history is one of the naive model, each timer fires exactly on the ticks of its
schedule and in the order of arming, and no operation on ticks wraps. -/
theorem timers_keep_time {s : Timers τ π}
    (h : ((timerSystem τ π).restrict fun _ c => c.Quiet).Reachable s) :
    (∀ c : TimerCall τ π, c.Typed → c.Quiet → c.Allowed s →
      ∃ s', Settles (fun n => c.exec n s) (.ok s')) ∧
    (∃ n, (naiveTimers τ π).Reachable n ∧ n.history = s.history) ∧
    OnTime s.history ∧ s.Unwrapped := by
  obtain ⟨n, xs, hn, r⟩ := refines_of_reachable h
  have hon : OnTime s.history := by
    rw [r.history]
    exact (NaiveTimers.timely_of_reachable hn).onTime
  exact ⟨fun c hty hq ha => r.armed.returns hty hq ha, ⟨n, hn, r.history.symm⟩, hon,
    r.armed.unwrapped⟩

/-- Memory that was never touched. -/
def blankTimers : Timers ℕ Unit where
  links := ⟨id, id⟩
  timers _ := ⟨0, 0, (), .other⟩
  timerTickUnsynch := 0
  ticksCnt := 0
  history := []

theorem blankTimers_fresh : blankTimers.Fresh := by
  refine ⟨fun t => ?_, rfl, rfl⟩
  simp [Timers.Made, blankTimers]

/-- An auto-reload timer that fires twice and a one-shot timer that fires in between. -/
theorem timers_keep_time_reloaded : ∃ s : Timers ℕ Unit,
    ((timerSystem ℕ Unit).restrict fun _ c => c.Quiet).Reachable s ∧
    s.history = [.fire 7, .tick, .fire 8, .tick, .tick, .fire 7, .tick, .tick, .create 8 4 0,
      .create 7 2 3] ∧ OnTime s.history := by
  obtain ⟨⟨tr, s⟩, hs, hh⟩ := Outcome.exists_of_holds
    (x := playCalls 5 ([.create 7 () 2 3, .create 8 () 4 0] ++ List.replicate 5 (.tick fun _ => []))
      [] (osTimersInit blankTimers))
    (p := fun x => decide (x.2.history = [.fire 7, .tick, .fire 8, .tick, .tick, .fire 7, .tick,
      .tick, .create 8 4 0, .create 7 2 3])) (by decide +kernel)
  have hr := run_of_playCalls (P := TimerCall.Quiet) (.start ⟨_, blankTimers_fresh, rfl⟩)
    (fun c hc => by
      simp only [List.cons_append, List.nil_append, List.mem_cons, List.mem_replicate] at hc
      obtain rfl | rfl | ⟨-, rfl⟩ := hc
      · exact ⟨trivial, by decide, by decide⟩
      · exact ⟨trivial, by decide, by decide⟩
      · exact ⟨fun _ => rfl, trivial⟩) hs
  exact ⟨s, ⟨tr, hr⟩, of_decide_eq_true hh, (timers_keep_time ⟨tr, hr⟩).2.2.1⟩

end RadOs
