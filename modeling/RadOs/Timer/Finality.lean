import RadOs.Timer.Stopping

/-! # Destroying a timer is final

Runs of the timer interface in which the callbacks stop timers. As long as no
callback stops the next timer of the list, or an auto-reload timer that has
already expired in the running pass, a destroyed timer is on no list, does not
fire again before it is created again, and every tick returns.
-/

namespace RadOs
open LinkedRing Budget Runs

variable {τ π : Type} [DecidableEq τ] {D : τ → List τ}

/-- The callbacks of a tick stop only timers that were created, and neither the timer that is next
on the list nor an auto-reload timer that has expired in the running pass. -/
def Considerate (s : Timers τ π) : TimerCall τ π → Prop
  | .tick stops => ∀ xs : List τ, Ring s.links .timerList (xs.map .timer) →
      (∀ t ∈ xs, ∀ d ∈ stops t, s.Made d) ∧ SparesNext stops s.counted.due xs ∧
        SparesReloaded stops s.counted xs
  | _ => True

/-- The invariant of such runs. -/
structure Retiring (s : Timers τ π) (xs : List τ) : Prop where
  armed : Armed s xs
  magic : ∀ t, retired t s.history = true → (s.timers t).magic = .magic2
  past : ∀ t h, .fire t :: h <:+ s.history → retired t h = false

theorem Retiring.not_retired {s : Timers τ π} {xs : List τ} (h : Retiring s xs) {t : τ}
    (ht : t ∈ xs) : retired t s.history = false := by
  by_contra hr
  have hm := h.magic t (Bool.eq_true_of_not_eq_false hr)
  rw [h.armed.magic t ht] at hm
  exact absurd hm (by decide)

omit [DecidableEq τ] in
theorem suffix_of_suffix_cons {t : τ} {e : TimerEvent τ} {h h₁ : List (TimerEvent τ)}
    (he : e ≠ .fire t) (hs : .fire t :: h₁ <:+ e :: h) : .fire t :: h₁ <:+ h := by
  rcases List.suffix_cons_iff.mp hs with heq | hs
  · exact absurd (List.cons.inj heq).1.symm he
  · exact hs

theorem Timers.Fresh.retiring {s : Timers τ π} (h : s.Fresh) : Retiring (osTimersInit s) [] := by
  have hh : (osTimersInit s).history = [] := h.history
  refine ⟨h.armed, fun t ht => ?_, fun t h₁ hs => ?_⟩
  · rw [hh] at ht
    simp [retired] at ht
  · rw [hh] at hs
    simp at hs

theorem Retiring.create {s s' : Timers τ π} {xs : List τ} (h : Retiring s xs) {t : τ} {proc : π}
    {timeout reload : ℕ} (hr : reload < ticksMod)
    (hs : Settles (fun n => osTimerCreate n t proc timeout reload s) (.ok s')) :
    ∃ ys, Retiring s' ys := by
  obtain ⟨n, hn⟩ := hs.exists_eq
  obtain ⟨h₁, h₂, hm⟩ := osTimerCreate_ok hn
  obtain ⟨s'', ys, hs', ha, -, -, -, hother, -, hhist⟩ :=
    h.armed.create t proc timeout reload h₁ h₂ hm hr
  have he : s' = s'' := by simpa using hs.unique hs'
  subst he
  refine ⟨ys, ha, fun u hu => ?_, fun u g hg => ?_⟩
  · rw [hhist, retired] at hu
    split at hu
    · exact absurd hu (by decide)
    · rename_i hut
      rw [(hother u (Ne.symm hut)).2]
      exact h.magic u hu
  · rw [hhist] at hg
    exact h.past u g (suffix_of_suffix_cons (by simp) hg)

theorem Retiring.destroy {s s' : Timers τ π} {xs : List τ} (h : Retiring s xs) {t : τ}
    (hs : osTimerDestroy t s = .ok s') : ∃ ys, Retiring s' ys := by
  have hmade := osTimerDestroy_made hs
  rw [osTimerDestroy_eq hmade, Except.ok.injEq] at hs
  subst hs
  refine ⟨_, (h.armed.destroy hmade).1, fun u hu => ?_, fun u g hg => ?_⟩
  · by_cases hut : u = t
    · rw [hut]
      exact (destroyed_timers_self t s).2
    · rw [destroyed_history, retired, if_neg (Ne.symm hut)] at hu
      rw [destroyed_timers_of_ne s hut]
      exact h.magic u hu
  · rw [destroyed_history] at hg
    exact h.past u g (suffix_of_suffix_cons (by simp) hg)

theorem StopTicked.past {s s' : Timers τ π} {xs ys : List τ} (st : StopTicked D s s' xs ys)
    (h : Retiring s xs) : ∀ t g, .fire t :: g <:+ s'.history → retired t g = false := by
  rw [st.history]
  refine passEvents_suffix h.armed.nodup (fun t ht => h.not_retired ht) fun t g hg => ?_
  exact h.past t g (suffix_of_suffix_cons (by simp) hg)

theorem StopTicked.retired_iff {s s' : Timers τ π} {xs ys : List τ} (st : StopTicked D s s' xs ys)
    (t : τ) : retired t s'.history = true ↔
      t ∈ stoppedBy D s.counted.due xs ∨ retired t s.history = true := by
  rw [st.history]
  by_cases hs : t ∈ stoppedBy D s.counted.due xs
  · have hev := destroy_mem_passEvents.mpr hs
    have hret : retired t (passEvents D s.counted.due xs ++ .tick :: s.history) = true :=
      retired_of_destroy (fun a b => create_notMem_passEvents a b) (.inl hev)
    simp only [hs, hret, true_or]
  · have hev : .destroy t ∉ passEvents D s.counted.due xs := fun e =>
      hs (destroy_mem_passEvents.mp e)
    rw [retired_append_of_notMem (fun a b => create_notMem_passEvents a b) hev]
    simp only [hs, false_or]
    rfl

theorem Retiring.tick {s s' : Timers τ π} {xs ys : List τ} (h : Retiring s xs)
    (st : StopTicked D s s' xs ys) (hr : SparesReloaded D s.counted xs) : Retiring s' ys := by
  refine ⟨st.armed hr, fun t ht => ?_, st.past h⟩
  rw [st.magic t]
  split
  · rfl
  · rename_i hs
    exact h.magic t (((st.retired_iff t).mp ht).resolve_left hs)

/-- The step lemma. -/
theorem Retiring.step {s s' : Timers τ π} {xs : List τ} (hx : Retiring s xs) {c : TimerCall τ π}
    (hc : Considerate s c) (h : (timerSystem τ π).step s c s') : ∃ ys, Retiring s' ys := by
  obtain ⟨hty, hs⟩ := h
  cases c with
  | create t proc timeout reload => exact hx.create hty.2 hs
  | destroy t =>
    obtain ⟨n, hn⟩ := hs.exists_eq
    exact hx.destroy hn
  | tick stops =>
    obtain ⟨hm, hspare, hr⟩ := hc xs hx.armed.ring
    obtain ⟨s'', ys, hs', st⟩ := hx.armed.tick_stopping hm hspare
    have he : s' = s'' := by simpa using hs.unique hs'
    subst he
    exact ⟨ys, hx.tick st hr⟩

/-- Every state of a run with considerate callbacks satisfies the invariant. -/
theorem retiring_of_reachable {s : Timers τ π}
    (h : ((timerSystem τ π).restrict Considerate).Reachable s) : ∃ xs, Retiring s xs := by
  refine h.invariant (I := fun s => ∃ xs, Retiring s xs) ?_ ?_
  · rintro s ⟨s₀, hf, rfl⟩
    exact ⟨[], hf.retiring⟩
  · rintro s c s' ⟨xs, hx⟩ ⟨hc, hst⟩
    exact hx.step hc hst

theorem Retiring.destroy_again {s : Timers τ π} {xs : List τ} (h : Retiring s xs) {t : τ}
    (ht : retired t s.history = true) :
    osTimerDestroy t s = .ok { s with history := .destroy t :: s.history } := by
  have hm := h.magic t ht
  have hmade : s.Made t := by simp [Timers.Made, hm]
  have hx : t ∉ xs := fun e => by
    rw [h.not_retired e] at ht
    exact Bool.false_ne_true ht
  have hrem : ¬0 < s.rem t := fun e => hx (h.armed.mem_of_rem t hmade e)
  have hrem0 : s.rem t = 0 := by omega
  have hl : (destroyed t s).links = s.links := by rw [destroyed_links, if_neg hrem]
  have ht : (destroyed t s).timers = s.timers := by
    rw [destroyed_timers, if_neg hrem, Timers.reload, ← hm, ← hrem0]
    exact Function.update_eq_self t s.timers
  have hu : (destroyed t s).timerTickUnsynch = s.timerTickUnsynch := by
    rw [destroyed_unsynch]
    split
    · rename_i he
      rw [hl] at he
      have hnil : xs = [] := by simpa using (listIsEmpty_iff h.armed.ring).mp he
      rw [h.armed.unsynch_nil hnil]
    · rfl
  have heta : destroyed t s = ⟨(destroyed t s).links, (destroyed t s).timers,
      (destroyed t s).timerTickUnsynch, (destroyed t s).ticksCnt, (destroyed t s).history⟩ := rfl
  rw [osTimerDestroy_eq hmade, heta, hl, ht, hu, destroyed_ticksCnt, destroyed_history]

/-- Destroying timers is final in the state `s` and its past. -/
structure DestroyFinal (s : Timers τ π) : Prop where
  final : Final s.history
  unlinked : ∃ xs : List τ, Ring s.links .timerList (xs.map .timer) ∧
    ∀ t, retired t s.history = true → t ∉ xs
  again : ∀ t, retired t s.history = true →
    osTimerDestroy t s = .ok { s with history := .destroy t :: s.history }

theorem Retiring.destroyFinal {s : Timers τ π} {xs : List τ} (h : Retiring s xs) :
    DestroyFinal s where
  final := final_of_suffix h.past
  unlinked := ⟨xs, h.armed.ring, fun t ht hx => by simp [h.not_retired hx] at ht⟩
  again _ ht := h.destroy_again ht

/-- A run that creates one timer with a timeout of one tick. -/
theorem one_timer_created (reload : ℕ) (hr : reload < ticksMod) : ∃ s : Timers ℕ Unit,
    ((timerSystem ℕ Unit).restrict Considerate).Reachable s ∧ Armed s [7] ∧ s.left 7 = 1 ∧
      s.reload 7 = reload ∧ s.history = [.create 7 1 reload] ∧
      ∀ t, t ≠ 7 → (s.timers t).magic = .other := by
  obtain ⟨s, xs, hs, ha, hmem, hleft, hrel, hother, -, hh⟩ :=
    blankTimers_fresh.armed.create 7 () 1 reload (by decide) (by decide) (by decide) hr
  have hxs : xs = [7] := by
    refine List.perm_singleton.mp ((List.perm_ext_iff_of_nodup ha.nodup (by simp)).mpr fun x => ?_)
    simpa using hmem x
  subst hxs
  refine ⟨s, ?_, ha, hleft, hrel, hh, fun t ht => by rw [(hother t ht).2]; rfl⟩
  have h₀ : ((timerSystem ℕ Unit).restrict Considerate).Reachable (osTimersInit blankTimers) :=
    .start ⟨_, blankTimers_fresh, rfl⟩
  exact h₀.step (i := TimerCall.create 7 () 1 reload) ⟨trivial, ⟨by decide, hr⟩, hs⟩

omit [DecidableEq τ] in
theorem due_of_left {s : Timers τ π} {xs : List τ} (h : Armed s xs) {t : τ} (ht : t ∈ xs)
    (hl : s.left t = 1) : s.counted.due t = true := by
  have hu : s.counted.timerTickUnsynch = s.timerTickUnsynch + 1 := ticksAdd_unsynch h
  have hrem : s.counted.rem t = s.rem t := rfl
  have := h.above t ht
  rw [Timers.left] at hl
  rw [Timers.due, decide_eq_true_eq]
  omega

/-- An auto-reload timer that is destroyed by its own callback is on the list after the tick. -/
theorem timer_destroy_in_callback_not_final : ∃ s : Timers ℕ Unit,
    (timerSystem ℕ Unit).Reachable s ∧
      s.history = [.destroy 7, .fire 7, .tick, .create 7 1 1] ∧
      Ring s.links .timerList [.timer 7] ∧ ¬DestroyFinal s := by
  obtain ⟨s, h, ha, hleft, hrel, hh, -⟩ := one_timer_created 1 (by decide)
  have hdue : s.counted.due 7 = true := due_of_left ha (by simp) hleft
  have hfire : firings (fun _ => [7]) s.counted.due [7] = [7] := by
    rw [firings_cons hdue]
    simp [without, firings]
  have hrearm : rearmed (fun _ => [7]) s.counted [7] = [7] := by
    have hpos : 0 < s.counted.reload 7 := by
      have : s.counted.reload 7 = s.reload 7 := rfl
      omega
    rw [rearmed, hfire, List.filter_cons_of_pos (by simpa using hpos), List.filter_nil]
  have hspare : SparesNext (fun _ => [7]) s.counted.due [7] := by
    rw [SparesNext]
    exact fun _ => ⟨by simp, by simp [without, SparesNext]⟩
  obtain ⟨s', ys, hs, st⟩ := ha.tick_stopping (D := fun _ => [7])
    (fun t _ d hd => List.mem_singleton.mp hd ▸ ha.made (by simp)) hspare
  have hys : 7 ∈ ys := (st.mem 7).mpr (.inl (by simp [hrearm]))
  have hsub : ∀ x ∈ ys, x = 7 := by
    intro x hx
    rcases (st.mem x).mp hx with hx | hx
    · simpa [hrearm] using hx
    · simpa using (mem_survivors.mp hx).1
  have hring : Ring s'.links .timerList [.timer 7] := by
    have hnd := map_timer_nodup st.ring
    have hxs : ys = [7] := by
      refine List.perm_singleton.mp ((List.perm_ext_iff_of_nodup hnd (by simp)).mpr fun x => ?_)
      exact ⟨fun hx => by simp [hsub x hx], fun hx => by rwa [List.mem_singleton.mp hx]⟩
    have hring := st.ring
    rwa [hxs] at hring
  have hhist : s'.history = [.destroy 7, .fire 7, .tick, .create 7 1 1] := by
    rw [st.history, passEvents, hfire, hh]
    rfl
  refine ⟨s', ?_, hhist, hring, fun hf => ?_⟩
  · have h₀ : (timerSystem ℕ Unit).Reachable s := by
      refine h.invariant (fun s hs => .start hs) fun s c s' hs hstep => ?_
      exact hs.step hstep.2
    exact h₀.step (i := TimerCall.tick fun _ => [7]) ⟨trivial, hs⟩
  · obtain ⟨zs, hzs, hoff⟩ := hf.unlinked
    have hmap : zs.map TimerNode.timer = [.timer 7] := hzs.unique hring
    refine hoff 7 (by rw [hhist]; rfl) ?_
    have hmem : (.timer 7 : TimerNode ℕ) ∈ zs.map TimerNode.timer := by simp [hmap]
    simpa using hmem

/-- A tick with callbacks that stop the timers `D` returns, runs no callback of a destroyed timer,
leaves no destroyed timer on the list, and lowers every other timer by the counter once. -/
def TickServes (D : τ → List τ) (s : Timers τ π) (xs : List τ) : Prop :=
  ∃ s' events, Settles (fun n => osTickTimers (fun t => destroyAll (D t)) n s) (.ok s') ∧
    s'.history = events ++ .tick :: s.history ∧ Final s'.history ∧
    (∃ ys : List τ, Ring s'.links .timerList (ys.map .timer) ∧
      ∀ t, retired t s'.history = true → t ∉ ys) ∧
    ∀ t ∈ xs, .fire t ∉ events → .destroy t ∉ events →
      (s.Passes → s'.rem t = s.rem t - (s.timerTickUnsynch + 1)) ∧
      (¬s.Passes → s'.rem t = s.rem t)

theorem mem_firings_of_due {due : τ → Bool} {q : List τ} {t : τ}
    (hfirst : q.Pairwise fun a b => due b = true → due a = true) (ht : t ∈ q)
    (hdt : due t = true) (hs : t ∉ stoppedBy D due q) : t ∈ firings D due q := by
  induction q using firings.induct D due with
  | case1 => simp at ht
  | case3 x p hdx =>
    exfalso
    rcases List.mem_cons.mp ht with rfl | ht
    · exact hdx hdt
    · exact hdx ((List.pairwise_cons.mp hfirst).1 t ht hdt)
  | case2 x p hdx ih =>
    rw [firings_cons hdx]
    rw [stoppedBy_cons hdx, List.mem_append, not_or] at hs
    rcases List.mem_cons.mp ht with rfl | ht
    · simp
    · refine List.mem_cons_of_mem x (ih ((List.pairwise_cons.mp hfirst).2.filter _) ?_ hs.2)
      exact mem_without.mpr ⟨ht, hs.1⟩

theorem Retiring.tickServes_iff {s : Timers τ π} {xs : List τ} (hx : Retiring s xs)
    (hm : ∀ t ∈ xs, ∀ d ∈ D t, s.Made d) :
    TickServes D s xs ↔ SparesNext D s.counted.due xs ∧ SparesReloaded D s.counted xs := by
  constructor
  · rintro ⟨s', events, hs, hev, -, ⟨ys, hys, hoff⟩, -⟩
    have hspare : SparesNext D s.counted.due xs := by
      by_contra hno
      obtain ⟨n, hn⟩ := hs.exists_eq
      exact hx.armed.tick_ne_ok hm hno n s' hn
    refine ⟨hspare, fun t ht hst => ?_⟩
    obtain ⟨s'', zs, hs', st⟩ := hx.armed.tick_stopping hm hspare
    have he : s' = s'' := by simpa using hs.unique hs'
    subst he
    have hzs : zs = ys := timers_eq_of_ring st.ring hys
    exact hoff t ((st.retired_iff t).mpr (.inl hst)) (hzs ▸ (st.mem t).mpr (.inl ht))
  · rintro ⟨hspare, hrel⟩
    obtain ⟨s', ys, hs, st⟩ := hx.armed.tick_stopping hm hspare
    have hx' := hx.tick st hrel
    refine ⟨s', _, hs, st.history, hx'.destroyFinal.final, hx'.destroyFinal.unlinked,
      fun t ht hf hd => ?_⟩
    have hst : t ∉ stoppedBy D s.counted.due xs := fun e => hd (destroy_mem_passEvents.mpr e)
    have hdue : s.counted.due t = false := by
      by_contra hdue
      exact hf (fire_mem_passEvents.mpr (mem_firings_of_due hx.armed.pending.due_first ht
        (Bool.eq_true_of_not_eq_false hdue) hst))
    have hsv : t ∈ survivors D s.counted.due xs := mem_survivors.mpr ⟨ht, hdue, hst⟩
    exact ⟨fun hp => st.rem_pass hp t hsv, fun hp => st.rem_quick hp t hsv⟩

/-- The callbacks of a tick stop only timers that were created. -/
def StopsMade (s : Timers τ π) : TimerCall τ π → Prop
  | .tick stops => ∀ xs : List τ, Ring s.links .timerList (xs.map .timer) →
      ∀ t ∈ xs, ∀ d ∈ stops t, s.Made d
  | _ => True

/-- The callbacks of a tick stop neither the timer that is next on the list nor an auto-reload timer
that has expired in the running pass. -/
def StepSpares (s : Timers τ π) : TimerCall τ π → Prop
  | .tick stops => ∀ xs : List τ, Ring s.links .timerList (xs.map .timer) →
      SparesNext stops s.counted.due xs ∧ SparesReloaded stops s.counted xs
  | _ => True

/-- A tick serves the timers of the list. -/
def StepServes (s : Timers τ π) : TimerCall τ π → Prop
  | .tick stops => ∃ xs : List τ, Ring s.links .timerList (xs.map .timer) ∧ TickServes stops s xs
  | _ => True

theorem considerate_of_spares {s : Timers τ π} {c : TimerCall τ π} (hm : StopsMade s c)
    (hs : StepSpares s c) : Considerate s c := by
  cases c with
  | create => trivial
  | destroy => trivial
  | tick stops => exact fun xs hr => ⟨hm xs hr, hs xs hr⟩

theorem Retiring.serves_iff {s : Timers τ π} {xs : List τ} (h : Retiring s xs)
    {c : TimerCall τ π} (hm : StopsMade s c) : StepServes s c ↔ StepSpares s c := by
  cases c with
  | create => exact Iff.rfl
  | destroy => exact Iff.rfl
  | tick stops =>
    have huniq : ∀ ys : List τ, Ring s.links .timerList (ys.map .timer) → ys = xs :=
      fun ys hr => timers_eq_of_ring hr h.armed.ring
    have hiff := h.tickServes_iff (hm xs h.armed.ring)
    constructor
    · rintro ⟨ys, hr, hts⟩ zs hz
      rw [huniq zs hz]
      exact hiff.mp (huniq ys hr ▸ hts)
    · intro hsp
      exact ⟨xs, h.armed.ring, hiff.mpr (hsp xs h.armed.ring)⟩

theorem reachable_of_spares {tr : List (Taken (Timers τ π) (TimerCall τ π))} {s : Timers τ π}
    (h : (timerSystem τ π).Run tr s) (hm : ∀ x ∈ tr, StopsMade x.pre x.label)
    (hs : ∀ x ∈ tr, StepSpares x.pre x.label) :
    ((timerSystem τ π).restrict Considerate).Reachable s := by
  induction h with
  | start h => exact .start h
  | step h hst ih =>
    rw [List.forall_mem_cons] at hm hs
    exact (ih hm.2 hs.2).step ⟨considerate_of_spares hm.1 hs.1, hst⟩

/-- As long as all the ticks before it spare the timers, a tick serves them exactly if it does. -/
theorem serves_run {tr : List (Taken (Timers τ π) (TimerCall τ π))} {s : Timers τ π}
    (h : (timerSystem τ π).Run tr s) (hm : ∀ x ∈ tr, StopsMade x.pre x.label) :
    (∀ x ∈ tr, StepServes x.pre x.label) ↔ ∀ x ∈ tr, StepSpares x.pre x.label := by
  induction h with
  | start => simp
  | @step tr s s' c h hst ih =>
    simp only [List.forall_mem_cons] at hm ⊢
    rw [ih hm.2]
    refine and_congr_left fun hs => ?_
    obtain ⟨xs, hx⟩ := retiring_of_reachable (reachable_of_spares h hm.2 hs)
    exact hx.serves_iff hm.1

/-- In a run whose callbacks stop timers at will, all the ticks up to and including the next one
serve the timers exactly if the callbacks of all of them spare the timer that is next on the list
and the auto-reload timers that have expired. -/
theorem os_tick_serves_iff {tr : List (Taken (Timers τ π) (TimerCall τ π))} {s : Timers τ π}
    (h : (timerSystem τ π).Run tr s) (hm : ∀ x ∈ tr, StopsMade x.pre x.label)
    (hd : StopsMade s (.tick D)) :
    ((∀ x ∈ tr, StepServes x.pre x.label) ∧ StepServes s (.tick D)) ↔
      (∀ x ∈ tr, StepSpares x.pre x.label) ∧ StepSpares s (.tick D) := by
  rw [serves_run h hm]
  refine and_congr_right fun hs => ?_
  obtain ⟨xs, hx⟩ := retiring_of_reachable (reachable_of_spares h hm hs)
  exact hx.serves_iff hd

theorem stepSpares_of_quiet {s : Timers τ π} {c : TimerCall τ π} (h : c.Quiet) :
    StopsMade s c ∧ StepSpares s c := by
  cases c with
  | create => exact ⟨trivial, trivial⟩
  | destroy => exact ⟨trivial, trivial⟩
  | tick stops =>
    have hstops : stops = fun _ => [] := funext h
    subst hstops
    refine ⟨fun xs _ t _ d hd => by simp at hd, fun xs _ =>
      ⟨sparesNext_harmless _ _, fun t _ => ?_⟩⟩
    simp [stoppedBy]

/-- After a tick on which nothing happens, the callback of the first of three timers stops its own
timer and the last one. -/
theorem os_tick_serves_iff_stopping : ∃ (s : Timers ℕ Unit) (D : ℕ → List ℕ),
    (timerSystem ℕ Unit).Reachable s ∧
      s.history = [.tick, .create 9 5 0, .create 8 3 0, .create 7 2 0] ∧ D 7 = [7, 9] ∧
      StepServes s (.tick D) := by
  obtain ⟨⟨tr, s⟩, hs, hx⟩ := Outcome.exists_of_holds
    (x := playCalls 5 [.create 7 () 2 0, .create 8 () 3 0, .create 9 () 5 0, .tick fun _ => []]
      [] (osTimersInit blankTimers))
    (p := fun x => decide (x.2.history = [.tick, .create 9 5 0, .create 8 3 0, .create 7 2 0] ∧
      Ring x.2.links .timerList ([7, 8, 9].map .timer) ∧ x.2.Made 7 ∧ x.2.Made 9 ∧
      x.2.counted.due 8 = false ∧ ∀ t ∈ ([7, 8, 9] : List ℕ), x.2.reload t = 0))
    (by decide +kernel)
  obtain ⟨hh, hr, h7, h9, h8, hrel⟩ := of_decide_eq_true hx
  have hrun : ((timerSystem ℕ Unit).restrict fun _ c => c.Quiet).Run tr s :=
    run_of_playCalls (.start ⟨_, blankTimers_fresh, rfl⟩) (by
      simp [TimerCall.Quiet, TimerCall.Typed, ticksMod]) hs
  have hquiet : ∀ x ∈ tr, x.label.Quiet := by
    refine hrun.invariant (I := fun tr _ => ∀ x ∈ tr, x.label.Quiet) (by simp) ?_
    exact fun tr s c s' _ ih hst => List.forall_mem_cons.mpr ⟨hst.1, ih⟩
  have hrun := hrun.mono (N := timerSystem ℕ Unit) (fun _ h => h) fun _ _ _ h => h.2
  have huniq : ∀ xs : List ℕ, Ring s.links .timerList (xs.map .timer) → xs = [7, 8, 9] :=
    fun xs hxs => timers_eq_of_ring hxs hr
  refine ⟨s, fun _ => [7, 9], ⟨tr, hrun⟩, hh, rfl, ((os_tick_serves_iff hrun
    (fun x hx => (stepSpares_of_quiet (hquiet x hx)).1) fun xs hxs t ht d hd => ?_).mpr
    ⟨fun x hx => (stepSpares_of_quiet (hquiet x hx)).2, fun xs hxs => ?_⟩).2⟩
  · obtain rfl | hd := List.mem_cons.mp hd
    · exact h7
    · rwa [List.mem_singleton.mp hd]
  · rw [huniq xs hxs]
    refine ⟨?_, fun t ht => ?_⟩
    · simp [SparesNext, without, h8]
    · obtain ⟨hx, -, hpos⟩ := rearmed_subset ht
      have : s.counted.reload t = s.reload t := rfl
      rw [this, hrel t hx] at hpos
      exact absurd hpos (lt_irrefl 0)

/-- Two timers due on one tick, the first of which stops the second: the tick does not return. -/
theorem os_tick_stops_next_spins : ∃ (s : Timers ℕ Unit) (D : ℕ → List ℕ),
    ((timerSystem ℕ Unit).restrict Considerate).Reachable s ∧
      s.history = [.create 8 1 0, .create 7 1 0] ∧ Ring s.links .timerList [.timer 7, .timer 8] ∧
      (∀ t d, d ∈ D t → s.Made d) ∧
      (∀ n s', osTickTimers (fun t => destroyAll (D t)) n s ≠ .ok s') ∧
      ¬TickServes D s [7, 8] := by
  obtain ⟨s₁, h₁, ha₁, hl₁, -, hh₁, hother₁⟩ := one_timer_created 0 (by decide)
  obtain ⟨s, xs, hs, ha, hmem, hl, -, hother, horder, hh⟩ := ha₁.create 8 () 1 0
    (by decide) (by decide) (by rw [hother₁ 8 (by decide)]; decide)
    (by decide)
  have hl' : s.left 7 = 1 := by rw [(hother 7 (by decide)).1, hl₁]
  have hxs : xs = [7, 8] := by
    have hall : xs.filter (fun x => s.left x = 1) = xs := by
      refine List.filter_eq_self.mpr fun x hx => decide_eq_true ?_
      rcases (hmem x).mp hx with rfl | hx
      · exact hl
      · rwa [List.mem_singleton.mp hx]
    rw [← hall, horder 1]
    simp [hl₁]
  subst hxs
  have h : ((timerSystem ℕ Unit).restrict Considerate).Reachable s :=
    h₁.step (i := TimerCall.create 8 () 1 0) ⟨trivial, ⟨by decide, by decide⟩, hs⟩
  have hmade : ∀ t d, d ∈ (fun _ : ℕ => [8]) t → s.Made d := by
    intro t d hd
    rw [List.mem_singleton.mp hd]
    exact ha.made (by simp)
  have hspare : ¬SparesNext (fun _ => [8]) s.counted.due [7, 8] := by
    rw [SparesNext]
    intro hsp
    exact (hsp (due_of_left ha (by simp) hl')).1 8 (by simp) (by simp)
  have hspin := ha.tick_ne_ok (fun t _ => hmade t) hspare
  refine ⟨s, fun _ => [8], h, by rw [hh, hh₁], by simpa using ha.ring, hmade, hspin, ?_⟩
  rintro ⟨s', -, hset, -⟩
  obtain ⟨n, hn⟩ := hset.exists_eq
  exact hspin n s' hn

end RadOs
