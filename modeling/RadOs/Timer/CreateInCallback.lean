import RadOs.Timer.SelfRearm
import RadOs.Timer.Finality

/-! # When a timer created in a callback keeps time

A timer that is created while `timer_trigger` runs keeps time exactly if the
counter added by `os_timer_create` is taken off again and the timer, if it is
the one whose callback is running, is created without a reload value. In runs
whose callbacks create timers only so, and destroy them considerately, a timer
that is destroyed stays so.
-/

namespace RadOs
open LinkedRing Budget Runs

variable {τ π : Type} [DecidableEq τ]

/-- From the state `s` on, the timer fires for the first time on the `d`-th tick. -/
inductive FiresAfter (t : τ) : ℕ → Timers τ π → Prop
  | now {s s' : Timers τ π} {events : List (TimerEvent τ)}
      (h : Settles (fun n => osTickTimers (fun _ => .ok) n s) (.ok s'))
      (he : s'.history = events ++ .tick :: s.history) (hf : .fire t ∈ events) : FiresAfter t 1 s
  | later {s s' : Timers τ π} {events : List (TimerEvent τ)} {d : ℕ}
      (h : Settles (fun n => osTickTimers (fun _ => .ok) n s) (.ok s'))
      (he : s'.history = events ++ .tick :: s.history) (hf : .fire t ∉ events)
      (hd : FiresAfter t d s') : FiresAfter t (d + 1) s

theorem FiresAfter.unique {t : τ} {d e : ℕ} {s : Timers τ π} (h : FiresAfter t d s)
    (h' : FiresAfter t e s) : d = e := by
  induction h generalizing e with
  | @now s s' events hs he hf =>
    cases h' with
    | now => rfl
    | @later _ s'' events' e' hs' he' hf' hd =>
      have : s' = s'' := by simpa using hs.unique hs'
      subst this
      have hev : events = events' := List.append_cancel_right (he.symm.trans he')
      exact absurd (hev ▸ hf) hf'
  | @later s s' events d hs he hf hd ih =>
    cases h' with
    | @now _ s'' events' hs' he' hf' =>
      have : s' = s'' := by simpa using hs.unique hs'
      subst this
      have hev : events = events' := List.append_cancel_right (he.symm.trans he')
      exact absurd (hev ▸ hf') hf
    | @later _ s'' events' e' hs' he' hf' hd' =>
      have : s' = s'' := by simpa using hs.unique hs'
      subst this
      rw [ih hd']

/-- On an armed list a timer fires when the ticks it has left are over. -/
theorem Armed.firesAfter {s : Timers τ π} {xs : List τ} {t : τ} {d : ℕ} (h : Armed s xs)
    (ht : t ∈ xs) (hd : s.left t = d) : FiresAfter t d s := by
  induction d generalizing s xs with
  | zero =>
    have := h.left_pos ht
    omega
  | succ d ih =>
    obtain ⟨s', ys, hs, tk⟩ := h.tick
    by_cases hd0 : d = 0
    · subst hd0
      refine .now hs tk.history ?_
      simpa using ⟨ht, hd⟩
    · refine .later hs tk.history ?_ ?_
      · simp only [List.mem_reverse, List.mem_map, List.mem_filter, decide_eq_true_eq,
          TimerEvent.fire.injEq, exists_eq_right, not_and]
        omega
      · have hmem : t ∈ ys.filter fun x => s'.left x = d := by
          rw [tk.order d (by omega)]
          exact List.mem_append_left _ (List.mem_filter.mpr ⟨ht, decide_eq_true hd⟩)
        obtain ⟨hy, hl⟩ := List.mem_filter.mp hmem
        exact ih tk.armed hy (of_decide_eq_true hl)

/-- The callback's request is honoured: the tick returns with a sorted list, the new timer first
fires `timeout` ticks later, and every other timer keeps its deadline. -/
def CreateOnTime (s : Timers τ π) (as p : List τ) (x t : τ) (proc : π) (timeout reload : ℕ)
    (first : Bool) : Prop :=
  ∃ (s' : Timers τ π) (ys : List τ) (events : List (TimerEvent τ)),
    Settles (fun n => osTickTimers (createClbck x t proc timeout reload first n) n s) (.ok s') ∧
    Ring s'.links .timerList (ys.map .timer) ∧ (ys.Pairwise fun a b => s'.rem a ≤ s'.rem b) ∧
    s'.history = events ++ .tick :: s.history ∧ FiresAfter t timeout s' ∧
    ∀ y, y ≠ t → (.fire y ∈ events ↔ y ∈ as ++ x :: p ∧ s.left y = 1) ∧
      (y ∈ ys ↔ y ∈ as ++ x :: p ∧ (1 < s.left y ∨ 0 < s.reload y)) ∧
      (y ∈ ys → s'.left y = if s.left y = 1 then s.reload y else s.left y - 1)

section
variable {s s' : Timers τ π} {as p L R : List τ} {x t : τ} {timeout reload : ℕ} {first : Bool}

theorem CreateTicked.armed (c : CallbackCreate s as p x t timeout reload first)
    (ct : CreateTicked s s' as p x t timeout reload first L R)
    (hs : (insertTimers s'.rem R L).Pairwise fun a b => s'.rem a ≤ s'.rem b) :
    Armed s' (insertTimers s'.rem R L) := by
  have hmem : ∀ y, y ∈ insertTimers s'.rem R L ↔ y ∈ R ∨ y ∈ L := fun y => mem_insertTimers
  have hR : ∀ y ∈ R, y ∈ as ++ x :: p ∧ 0 < s.reload y := fun y hy => by
    obtain ⟨h, hpos⟩ := (ct.mem_rearmed y).mp hy
    refine ⟨?_, hpos⟩
    rcases h with h | h | h
    · simp [h]
    · simp [h.1]
    · simp [besides_subset h.1]
  have hremt : 0 < s'.rem t ∧ s'.rem t < ticksMod := by
    have h₀ := c.timeout_pos
    have h₁ := c.timeout_lt
    have h₂ := c.armed.unsynch_le
    by_cases hc : Compensated s p timeout first
    · rw [ct.rem_new hc]
      simp only [ticksMod, osTimerTicksremMax, osTicksMax, osTimerUnsynchMax] at *
      omega
    · rw [ct.rem_late hc]
      simp only [ticksMod, osTimerTicksremMax, osTicksMax, osTimerUnsynchMax] at *
      omega
  have hrem : ∀ y, y ∈ R ∨ y ∈ L → 0 < s'.rem y ∧ s'.rem y < ticksMod := by
    rintro y (hy | hy)
    · rw [ct.rem_rearmed y hy]
      exact ⟨(hR y hy).2, c.armed.reload_lt y (hR y hy).1⟩
    · rcases (ct.mem_kept y).mp hy with rfl | ⟨hyp, hlt⟩
      · exact hremt
      · have := c.armed.rem_lt y (by simp [besides_subset hyp])
        rw [ct.rem_kept y hyp hlt]
        omega
  have hin : ∀ y, y ∈ R ∨ y ∈ L → y ≠ t → y ∈ as ++ x :: p := by
    rintro y (hy | hy) hyt
    · exact (hR y hy).1
    · have := ((ct.mem_kept y).mp hy).resolve_left hyt
      simp [besides_subset this.1]
  refine ⟨ct.ring, hs, fun y hy => ?_, fun y hy => ?_, fun y hy => ?_, fun y hy hpos => ?_,
    fun y hy => ?_, ?_, fun _ => ct.unsynch⟩
  · rw [ct.unsynch]
    exact (hrem y ((hmem y).mp hy)).1
  · exact (hrem y ((hmem y).mp hy)).2
  · by_cases hyt : y = t
    · rw [hyt, ct.reload_new]
      exact c.reload_lt
    · rw [ct.reload_other y hyt]
      exact c.armed.reload_lt y (hin y ((hmem y).mp hy) hyt)
  · rw [hmem]
    by_contra hno
    rw [not_or] at hno
    have hyt : y ≠ t := by
      rintro rfl
      exact hno.2 ((ct.mem_kept y).mpr (.inl rfl))
    by_cases hyx : y ∈ as ++ x :: p
    · rw [ct.rem_gone y hno.2 hno.1 hyx] at hpos
      exact absurd hpos (Nat.lt_irrefl 0)
    · rw [ct.rem_other y hyt hyx] at hpos
      have hmade : s.Made y := by
        simp only [Timers.Made, ct.magic_other y hyt] at hy
        exact hy
      exact hyx (c.armed.mem_of_rem y hmade hpos)
  · by_cases hyt : y = t
    · rw [hyt, ct.magic_new]
    · rw [ct.magic_other y hyt]
      exact c.armed.magic y (hin y ((hmem y).mp hy) hyt)
  · rw [ct.unsynch]
    exact Nat.zero_le _

/-- The deadlines of the other timers do not depend on the new one. -/
theorem CreateTicked.others (c : CallbackCreate s as p x t timeout reload first)
    (ct : CreateTicked s s' as p x t timeout reload first L R) {y : τ} (hyt : y ≠ t) :
    (y ∈ insertTimers s'.rem R L ↔ y ∈ as ++ x :: p ∧ (1 < s.left y ∨ 0 < s.reload y)) ∧
      (y ∈ insertTimers s'.rem R L →
        s'.left y = if s.left y = 1 then s.reload y else s.left y - 1) := by
  have habove : ∀ z ∈ as ++ x :: p, s.timerTickUnsynch < s.rem z := c.armed.above
  have hone : ∀ z, z ∈ as ∨ z = x → s.left z = 1 ∧ z ∈ as ++ x :: p ∧ z ∉ p := by
    rintro z (hz | rfl)
    · have := c.rem_before hz
      exact ⟨by simp only [Timers.left]; omega, by simp [hz], c.notMem_before hz⟩
    · exact ⟨c.fires, by simp, c.notMem_x.1⟩
  have hleft : s'.left y = s'.rem y := by simp [Timers.left, ct.unsynch]
  rw [mem_insertTimers, ct.mem_rearmed, ct.mem_kept]
  constructor
  · constructor
    · rintro (⟨h | h | h, hpos⟩ | h | h)
      · exact ⟨(hone y (.inl h)).2.1, .inr hpos⟩
      · exact ⟨(hone y (.inr h.1)).2.1, .inr hpos⟩
      · exact ⟨by simp [besides_subset h.1], .inr hpos⟩
      · exact absurd h hyt
      · refine ⟨by simp [besides_subset h.1], .inl ?_⟩
        simp only [Timers.left]
        omega
    · rintro ⟨hy, hor⟩
      have hab := habove y hy
      rcases List.mem_append.mp hy with ha | hy
      · have := (hone y (.inl ha)).1
        exact .inl ⟨.inl ha, hor.resolve_left (by omega)⟩
      · rcases List.mem_cons.mp hy with rfl | hyp
        · have := c.fires
          exact .inl ⟨.inr (.inl ⟨rfl, Ne.symm hyt⟩), hor.resolve_left (by omega)⟩
        · by_cases hlt : s.timerTickUnsynch + 1 < s.rem y
          · exact .inr (.inr ⟨mem_besides.mpr ⟨hyp, hyt⟩, hlt⟩)
          · simp only [Timers.left] at hor
            exact .inl ⟨.inr (.inr ⟨mem_besides.mpr ⟨hyp, hyt⟩, by omega⟩),
              hor.resolve_left (by omega)⟩
  · rintro (h | h | h)
    · have hl : s.left y = 1 := by
        rcases h.1 with h | h | h
        · exact (hone y (.inl h)).1
        · exact (hone y (.inr h.1)).1
        · simp only [Timers.left]
          omega
      rw [hleft, ct.rem_rearmed y ((ct.mem_rearmed y).mpr h), if_pos hl]
    · exact absurd h hyt
    · have hl : ¬s.left y = 1 := by
        simp only [Timers.left]
        omega
      rw [hleft, ct.rem_kept y h.1 h.2, if_neg hl, Timers.left]
      omega

/-- The other timers that fire in the tick are the ones that are due. -/
theorem CreateTicked.fires (c : CallbackCreate s as p x t timeout reload first) {y : τ}
    (hyt : y ≠ t) : .fire y ∈
      (((besides t p).filter fun y => s.rem y = s.timerTickUnsynch + 1).map TimerEvent.fire).reverse
        ++ createEvents as x t timeout reload first ↔ y ∈ as ++ x :: p ∧ s.left y = 1 := by
  have hmem : (.fire y : TimerEvent τ) ∈ createEvents as x t timeout reload first ↔
      y = x ∨ y ∈ as := by
    cases first <;> simp [createEvents]
  rw [List.mem_append, hmem]
  simp only [List.mem_reverse, List.mem_map, List.mem_filter, decide_eq_true_eq,
    TimerEvent.fire.injEq, exists_eq_right, mem_besides, List.mem_append, List.mem_cons]
  constructor
  · rintro (⟨⟨hy, -⟩, hrem⟩ | rfl | hy)
    · exact ⟨.inr (.inr hy), by simp only [Timers.left]; omega⟩
    · exact ⟨.inr (.inl rfl), c.fires⟩
    · have := c.rem_before hy
      exact ⟨.inl hy, by simp only [Timers.left]; omega⟩
  · rintro ⟨hy | rfl | hy, hl⟩
    · exact .inr (.inr hy)
    · exact .inr (.inl rfl)
    · have := c.armed.above y (by simp [hy])
      simp only [Timers.left] at hl
      exact .inl ⟨⟨hy, hyt⟩, by omega⟩

theorem CallbackCreate.onTime_iff (c : CallbackCreate s as p x t timeout reload first) (proc : π) :
    CreateOnTime s as p x t proc timeout reload first ↔
      (t = x → reload = 0) ∧ Compensated s p timeout first := by
  constructor
  · rintro ⟨s', ys, -, hs, hr, hsort, -, hfire, -⟩
    have hself : t = x → reload = 0 := by
      intro htx
      by_contra hne
      have c' : CallbackCreate s as p x x timeout reload first := htx ▸ c
      rw [htx] at hs
      exact c'.tick_not_settles proc (Nat.pos_of_ne_zero hne) s' hs
    refine ⟨hself, ?_⟩
    by_contra hc
    obtain ⟨s'', L, R, hs', ct⟩ := c.tick proc hself
    have he : s' = s'' := by simpa using hs.unique hs'
    subst he
    have hys : insertTimers s'.rem R L = ys := timers_eq_of_ring ct.ring hr
    have ha := ct.armed c (hys ▸ hsort)
    have hmem : t ∈ insertTimers s'.rem R L :=
      mem_insertTimers.mpr (.inr ((ct.mem_kept t).mpr (.inl rfl)))
    -- the uncompensated timer is late by the value of the counter
    have hlate : s'.left t = timeout + (s.timerTickUnsynch + 1) := by
      rw [Timers.left, ct.rem_late hc, ct.unsynch, Nat.sub_zero]
    have := hfire.unique (ha.firesAfter hmem hlate)
    omega
  · rintro ⟨hself, hc⟩
    obtain ⟨s', L, R, hs, ct⟩ := c.tick proc hself
    have hsort : (insertTimers s'.rem R L).Pairwise fun a b => s'.rem a ≤ s'.rem b :=
      insertTimers_sorted (ct.sorted hc)
    have ha := ct.armed c hsort
    have hmem : t ∈ insertTimers s'.rem R L :=
      mem_insertTimers.mpr (.inr ((ct.mem_kept t).mpr (.inl rfl)))
    have hleft : s'.left t = timeout := by
      rw [Timers.left, ct.rem_new hc, ct.unsynch, Nat.sub_zero]
    have hhist := ct.history
    rw [← List.append_assoc] at hhist
    exact ⟨s', _, _, hs, ct.ring, hsort, hhist, ha.firesAfter hmem hleft,
      fun y hy => ⟨CreateTicked.fires c hy, ct.others c hy⟩⟩

end

section Events
variable {h : List (TimerEvent τ)}

theorem retired_fires (us : List τ) (t : τ) :
    retired t ((us.map TimerEvent.fire).reverse ++ h) = retired t h :=
  retired_append_of_notMem (by simp) (by simp)

/-- Callbacks of timers that are not destroyed. -/
theorem past_fires {us : List τ} (hr : ∀ t ∈ us, retired t h = false)
    (hs : ∀ t g, .fire t :: g <:+ h → retired t g = false) :
    ∀ t g, .fire t :: g <:+ (us.map TimerEvent.fire).reverse ++ h → retired t g = false := by
  induction us generalizing h with
  | nil => exact hs
  | cons u us ih =>
    have hsplit : ((u :: us).map TimerEvent.fire).reverse ++ h =
        (us.map TimerEvent.fire).reverse ++ .fire u :: h := by simp
    rw [hsplit]
    refine ih (fun t ht => hr t (List.mem_cons_of_mem u ht)) fun t g hg => ?_
    rcases List.suffix_cons_iff.mp hg with heq | hg
    · obtain ⟨he, rfl⟩ := List.cons.inj heq
      cases he
      exact hr _ List.mem_cons_self
    · exact hs t g hg

/-- The events up to the end of the callback that creates `t`. -/
theorem past_createEvents {as : List τ} {x t : τ} {timeout reload : ℕ} {first : Bool}
    (hr : ∀ u ∈ as ++ [x], retired u h = false)
    (hs : ∀ u g, .fire u :: g <:+ h → retired u g = false) :
    ∀ u g, .fire u :: g <:+ createEvents as x t timeout reload first ++ h →
      retired u g = false := by
  intro u g hg
  have hfires : ∀ u g, .fire u :: g <:+ .fire x :: ((as.map TimerEvent.fire).reverse ++ h) →
      retired u g = false := by
    have hsplit : .fire x :: ((as.map TimerEvent.fire).reverse ++ h) =
        ((as ++ [x]).map TimerEvent.fire).reverse ++ h := by simp
    rw [hsplit]
    exact past_fires hr hs
  have hg := suffix_of_suffix_cons (e := .create t timeout reload) (by simp) hg
  cases first with
  | false => exact hfires u g (by simpa using hg)
  | true =>
    have hg := suffix_of_suffix_cons (e := .destroy t) (by simp)
      (h := .fire x :: ((as.map TimerEvent.fire).reverse ++ h)) (by simpa using hg)
    exact hfires u g hg

theorem retired_createEvents {as : List τ} {x t u : τ} {timeout reload : ℕ} {first : Bool} :
    retired u (createEvents as x t timeout reload first ++ h) =
      if t = u then false else retired u h := by
  have hfires : retired u (.fire x :: ((as.map TimerEvent.fire).reverse ++ h)) = retired u h :=
    retired_fires as u
  rw [createEvents, List.cons_append, retired]
  split
  · rfl
  · rename_i hut
    cases first with
    | false => simpa using hfires
    | true =>
      have hd : retired u (.destroy t :: .fire x :: ((as.map TimerEvent.fire).reverse ++ h)) =
          retired u h := by
        rw [retired, if_neg hut, hfires]
      simpa using hd

end Events

/-! ## Runs in which callbacks create timers -/

/-- A call of the interface, or an `os_tick` in which one callback creates a timer. -/
inductive CreatingCall (τ π : Type) where
  | call (c : TimerCall τ π)
  | creating (x t : τ) (proc : π) (timeout reload : ℕ) (first : Bool)

def CreatingCall.Step (s : Timers τ π) : CreatingCall τ π → Timers τ π → Prop
  | .call c, s' => (timerSystem τ π).step s c s'
  | .creating x t proc timeout reload first, s' =>
    Settles (fun n => osTickTimers (createClbck x t proc timeout reload first n) n s) (.ok s')

def creatingSystem (τ π : Type) [DecidableEq τ] : System (Timers τ π) (CreatingCall τ π) where
  start := (timerSystem τ π).start
  step := CreatingCall.Step

/-- Callbacks destroy timers considerately, or one of them creates a timer that keeps time. -/
def Heedful (s : Timers τ π) : CreatingCall τ π → Prop
  | .call c => Considerate s c
  | .creating x t _ timeout reload first =>
    ∃ as p : List τ, Ring s.links .timerList ((as ++ x :: p).map .timer) ∧
      CreateRequest s as p x t timeout reload first ∧ (t = x → reload = 0) ∧
      Compensated s p timeout first

section
variable {s s' : Timers τ π} {xs as p L R : List τ} {x t : τ} {timeout reload : ℕ} {first : Bool}

/-- The invariant survives such a tick. -/
theorem Retiring.created (h : Retiring s (as ++ x :: p))
    (c : CallbackCreate s as p x t timeout reload first)
    (ct : CreateTicked s s' as p x t timeout reload first L R)
    (hs : (insertTimers s'.rem R L).Pairwise fun a b => s'.rem a ≤ s'.rem b) :
    Retiring s' (insertTimers s'.rem R L) := by
  have htick : ∀ u ∈ as ++ x :: p, retired u (.tick :: s.history) = false :=
    fun u hu => h.not_retired hu
  have hevents : ∀ u, retired u s'.history =
      if t = u then false else retired u (.tick :: s.history) := fun u => by
    rw [ct.history, retired_fires, retired_createEvents]
  refine ⟨ct.armed c hs, fun u hu => ?_, ?_⟩
  · rw [hevents] at hu
    split at hu
    · cases hu
    · rename_i hut
      rw [ct.magic_other u (Ne.symm hut)]
      exact h.magic u hu
  · rw [ct.history]
    refine past_fires (fun u hu => ?_) (past_createEvents (fun u hu => htick u ?_) ?_)
    · obtain ⟨hup, hut⟩ := mem_besides.mp (List.mem_filter.mp hu).1
      rw [retired_createEvents, if_neg (Ne.symm hut)]
      exact htick u (by simp [hup])
    · rcases List.mem_append.mp hu with hu | hu
      · exact List.mem_append_left _ hu
      · simp [List.mem_singleton.mp hu]
    · exact fun u g hg => h.past u g (suffix_of_suffix_cons (by simp) hg)

theorem retiring_of_heedful (h : ((creatingSystem τ π).restrict Heedful).Reachable s) :
    ∃ xs, Retiring s xs := by
  refine h.invariant (I := fun s => ∃ xs, Retiring s xs) ?_ ?_
  · rintro s ⟨s₀, hf, rfl⟩
    exact ⟨[], hf.retiring⟩
  · rintro s c s' ⟨xs, hx⟩ ⟨hc, hs⟩
    cases c with
    | call c => exact hx.step hc hs
    | creating x t proc timeout reload first =>
      obtain ⟨as, p, hr, hreq, hself, hcomp⟩ := hc
      obtain rfl := timers_eq_of_ring hr hx.armed.ring
      have c : CallbackCreate s as p x t timeout reload first := ⟨hreq, hx.armed⟩
      obtain ⟨s'', L, R, hs', ct⟩ := c.tick proc hself
      have he : s' = s'' := by simpa using Settles.unique hs hs'
      subst he
      exact ⟨_, hx.created c ct (insertTimers_sorted (ct.sorted hcomp))⟩

end

section Play
variable {s s' : Timers τ π}

theorem steady_createTick (x t : τ) (proc : π) (timeout reload : ℕ) (first : Bool)
    (s : Timers τ π) :
    Steady fun n => osTickTimers (createClbck x t proc timeout reload first n) n s := by
  intro n m a hnm h
  refine steady_osTickTimers _ s n m a hnm (osTickTimers_mono (fun y s a hc => ?_) h)
  unfold createClbck at hc ⊢
  split
  · rename_i hy
    rw [if_pos hy] at hc
    cases first with
    | false => exact steady_osTimerCreate t proc timeout reload s n m a hnm hc
    | true =>
      exact ((steady_const (osTimerDestroy t s)).bind fun s =>
        steady_osTimerCreate t proc timeout reload s) n m a hnm hc
  · rename_i hy
    rwa [if_neg hy] at hc

/-- Runs in which callbacks only destroy timers. -/
theorem heedful_of_considerate (h : ((timerSystem τ π).restrict Considerate).Reachable s) :
    ((creatingSystem τ π).restrict Heedful).Reachable s := by
  refine h.invariant ?_ ?_
  · intro s hs
    exact .start hs
  · intro s c s' hr hst
    exact hr.step (i := .call c) hst

end Play

/-- The callback of the first of two timers creates a third one, behind the second. -/
theorem third_timer_created : ∃ s : Timers ℕ Unit,
    ((creatingSystem ℕ Unit).restrict Heedful).Reachable s ∧
      s.history = [.create 9 3 0, .fire 7, .tick, .create 8 2 0, .create 7 1 0] ∧
      Ring s.links .timerList (([8, 9] : List ℕ).map .timer) ∧ s.left 8 = 1 ∧ s.Made 7 ∧
      s.rem 9 ≤ 4 + (s.timerTickUnsynch + 1) := by
  obtain ⟨⟨tr, s⟩, hp, hx⟩ := Outcome.exists_of_holds
    (x := playCalls 5 [.create 7 () 1 0, .create 8 () 2 0] [] (osTimersInit blankTimers))
    (p := fun x => (osTickTimers (createClbck 7 9 () 3 0 false 5) 5 x.2).holds fun s' =>
      decide ((Ring x.2.links .timerList (([7, 8] : List ℕ).map .timer) ∧ x.2.left 7 = 1 ∧
        (x.2.timers 9).magic ≠ .magic1 ∧ x.2.rem 8 ≤ 3 + (x.2.timerTickUnsynch + 1)) ∧
        s'.history = [.create 9 3 0, .fire 7, .tick, .create 8 2 0, .create 7 1 0] ∧
        Ring s'.links .timerList (([8, 9] : List ℕ).map .timer) ∧ s'.left 8 = 1 ∧ s'.Made 7 ∧
        s'.rem 9 ≤ 4 + (s'.timerTickUnsynch + 1))) (by decide +kernel)
  obtain ⟨s', ht, hx⟩ := Outcome.exists_of_holds hx
  obtain ⟨⟨hr, hl, hm, hu⟩, hs'⟩ := of_decide_eq_true hx
  have hrun : ((timerSystem ℕ Unit).restrict fun _ c => c.Quiet).Run tr s :=
    run_of_playCalls (.start ⟨_, blankTimers_fresh, rfl⟩) (by
      simp [TimerCall.Quiet, TimerCall.Typed, ticksMod]) hp
  have hc : ((timerSystem ℕ Unit).restrict Considerate).Reachable s :=
    ⟨tr, hrun.mono (fun _ h => h) fun _ _ _ h => ⟨considerate_of_spares
      (stepSpares_of_quiet h.1).1 (stepSpares_of_quiet h.1).2, h.2⟩⟩
  have hreq : CreateRequest s [] [8] 7 9 3 0 false :=
    ⟨hl, by simp, by simp, by simpa using hm, by decide, by decide, by decide⟩
  exact ⟨s', (heedful_of_considerate hc).step (i := .creating 7 9 () 3 0 false)
    ⟨⟨[], [8], hr, hreq, by simp, .inl ⟨8, rfl, hu⟩⟩,
      (steady_createTick 7 9 () 3 0 false s).settles ht⟩, hs'⟩

/-- A timer created in the callback of `x` keeps time exactly if it is not `x` itself with a reload
value, and if it lands behind the position of the loop, or was destroyed first with no timer left
on the list. -/
theorem create_in_callback_onTime_iff {s : Timers τ π} {as p : List τ} {x t : τ}
    {timeout reload : ℕ} {first : Bool} (proc : π)
    (h : ((creatingSystem τ π).restrict Heedful).Reachable s)
    (hr : Ring s.links .timerList ((as ++ x :: p).map .timer))
    (c : CreateRequest s as p x t timeout reload first) :
    CreateOnTime s as p x t proc timeout reload first ↔
      (t = x → reload = 0) ∧ Compensated s p timeout first := by
  obtain ⟨xs, hx⟩ := retiring_of_heedful h
  obtain rfl := timers_eq_of_ring hr hx.armed.ring
  exact CallbackCreate.onTime_iff ⟨c, hx.armed⟩ proc

/-- In the next tick the second timer creates the first one again. -/
theorem create_in_callback_onTime_again : ∃ s : Timers ℕ Unit,
    ((creatingSystem ℕ Unit).restrict Heedful).Reachable s ∧
      s.history = [.create 9 3 0, .fire 7, .tick, .create 8 2 0, .create 7 1 0] ∧
      CreateOnTime s [] [9] 8 7 () 4 2 true := by
  obtain ⟨s, h, hh, hr, hl, hm, hu⟩ := third_timer_created
  have hreq : CreateRequest s [] [9] 8 7 4 2 true :=
    ⟨hl, by simp, by simp, by simpa using hm, by decide, by decide, by decide⟩
  exact ⟨s, h, hh, (create_in_callback_onTime_iff () h hr hreq).mpr
    ⟨by simp, .inl ⟨9, rfl, hu⟩⟩⟩

/-- A one-shot timer whose callback creates another timer on the otherwise empty list: the new
timer is one tick late. -/
theorem create_in_callback_late : ∃ s : Timers ℕ Unit,
    ((timerSystem ℕ Unit).restrict Considerate).Reachable s ∧ s.history = [.create 7 1 0] ∧
      CreateRequest s [] [] 7 8 3 0 false ∧ ¬CreateOnTime s [] [] 7 8 () 3 0 false := by
  obtain ⟨s, h, ha, hleft, hrel, hh, hother⟩ := one_timer_created 0 (by decide)
  have hreq : CreateRequest s [] [] 7 8 3 0 false := by
    refine ⟨hleft, by simp, by simp, ?_, by decide, by decide, by decide⟩
    simp only [Bool.false_eq_true, if_false, hother 8 (by decide)]
    decide
  have hc : CallbackCreate s [] [] 7 8 3 0 false := ⟨hreq, ha⟩
  refine ⟨s, h, hh, hreq, fun hon => ?_⟩
  rcases ((hc.onTime_iff ()).mp hon).2 with ⟨y, hy, -⟩ | ⟨hf, -⟩
  · simp at hy
  · simp at hf

/-! ## Destroying is final -/

/-- In every run whose callbacks destroy timers considerately or create one in time, destroying a
timer is final and ticks return. In any state at all, also inside a callback, a second call of
`os_timer_destroy` changes nothing. -/
theorem timer_destroy_final {s : Timers τ π}
    (h : ((creatingSystem τ π).restrict Heedful).Reachable s) :
    DestroyFinal s ∧
    (∀ D : τ → List τ, Considerate s (.tick D) →
      ∃ s', Settles (fun n => osTickTimers (fun t => destroyAll (D t)) n s) (.ok s')) ∧
    (∀ (x t : τ) (proc : π) (timeout reload : ℕ) (first : Bool),
      Heedful s (.creating x t proc timeout reload first) →
      ∃ s', Settles (fun n => osTickTimers (createClbck x t proc timeout reload first n) n s)
        (.ok s')) ∧
    ∀ (t : τ) (x x' : Timers τ π), osTimerDestroy t x = .ok x' →
      ∃ x'', osTimerDestroy t x' = .ok x'' ∧ { x'' with history := x'.history } = x' := by
  obtain ⟨xs, hx⟩ := retiring_of_heedful h
  refine ⟨hx.destroyFinal, fun D hc => ?_, fun x t proc timeout reload first hc => ?_,
    fun t x x' hd => ?_⟩
  · obtain ⟨hm, hspare, -⟩ := hc xs hx.armed.ring
    obtain ⟨s', -, hs, -⟩ := hx.armed.tick_stopping hm hspare
    exact ⟨s', hs⟩
  · obtain ⟨as, p, hr, hreq, hself, -⟩ := hc
    obtain rfl := timers_eq_of_ring hr hx.armed.ring
    have c : CallbackCreate s as p x t timeout reload first := ⟨hreq, hx.armed⟩
    obtain ⟨s', -, -, hs, -⟩ := c.tick proc hself
    exact ⟨s', hs⟩
  · have hmade := osTimerDestroy_made hd
    rw [osTimerDestroy_eq hmade, Except.ok.injEq] at hd
    subst hd
    refine ⟨_, osTimerDestroy_eq ((Made_destroyed hmade t).mpr hmade), ?_⟩
    have htwice := congrArg (fun y : Timers τ π => { y with history := (destroyed t x).history })
      (destroyed_twice t x)
    exact htwice

/-- A timer is destroyed that was waiting when a callback created another one. -/
theorem timer_destroy_final_waiting : ∃ s : Timers ℕ Unit,
    ((creatingSystem ℕ Unit).restrict Heedful).Reachable s ∧
      s.history =
        [.destroy 8, .create 9 3 0, .fire 7, .tick, .create 8 2 0, .create 7 1 0] ∧
      DestroyFinal s := by
  obtain ⟨s, h, hh, hr, -⟩ := third_timer_created
  obtain ⟨xs, hx⟩ := retiring_of_heedful h
  obtain rfl := timers_eq_of_ring hr hx.armed.ring
  have hmade : s.Made 8 := hx.armed.made (by simp)
  have h' : ((creatingSystem ℕ Unit).restrict Heedful).Reachable (destroyed 8 s) :=
    h.step (i := .call (.destroy 8)) ⟨trivial, trivial, by
      simp only [TimerCall.exec, osTimerDestroy_eq hmade]
      exact settles_const _⟩
  refine ⟨destroyed 8 s, h', ?_, (timer_destroy_final h').1⟩
  rw [destroyed_history, hh]

end RadOs
