import RadOs.Timer.Naive

/-! # The naive timer model keeps time

The armed timers of the naive model are characterised by the history alone: a
timer is armed for the least tick on its schedule that is still to come.
-/

namespace RadOs
open Runs

variable {τ π : Type} [DecidableEq τ]

/-- The history of a run of the timer interface is on time. -/
structure OnTime (h : List (TimerEvent τ)) : Prop where
  fired : ∀ t k timeout reload, lastCreate t h = some (k, timeout, reload) →
    ∀ m, k < m → m ≤ h.count .tick →
      (firedOn m h).count t = if OnSchedule k timeout reload m then 1 else 0
  punctual : ∀ t h₁, .fire t :: h₁ <:+ h → ∃ k timeout reload,
    lastCreate t h₁ = some (k, timeout, reload) ∧ OnSchedule k timeout reload (h₁.count .tick)
  sequence : ∀ m, (firedOn m h).Pairwise fun a b =>
    armedAt a (beforeTick m h) < armedAt b (beforeTick m h)

/-- The invariant of the naive model. -/
structure NaiveTimers.Timely (n : NaiveTimers τ) : Prop where
  now : n.now = n.history.count .tick
  armed : ∀ e, e ∈ n.armed ↔ ∃ k timeout,
    lastCreate e.timer n.history = some (k, timeout, e.reload) ∧
      IsLeast {m | n.now < m ∧ OnSchedule k timeout e.reload m} e.due
  order : n.armed.Pairwise fun a b => armedAt a.timer n.history < armedAt b.timer n.history
  onTime : OnTime n.history

/-- An event that neither counts a tick nor fires leaves the record of the past alone. -/
theorem OnTime.cons {h : List (TimerEvent τ)} (ho : OnTime h) {e : TimerEvent τ}
    (hfire : ∀ t, e ≠ .fire t) (htick : e ≠ .tick)
    (hlast : ∀ t k timeout reload, lastCreate t (e :: h) = some (k, timeout, reload) →
      k = h.count .tick ∨ lastCreate t h = some (k, timeout, reload)) : OnTime (e :: h) := by
  have hcount : (e :: h).count .tick = h.count .tick := List.count_cons_of_ne htick
  have hfired : ∀ m, firedOn m (e :: h) = firedOn m h := by
    intro m
    cases e with
    | fire t => exact absurd rfl (hfire t)
    | tick => rfl
    | create t a b => rfl
    | destroy t => rfl
  refine ⟨fun t k timeout reload hc m hk hm => ?_, fun t h₁ hs => ?_, fun m => ?_⟩
  · rw [hfired]
    rw [hcount] at hm
    rcases hlast t k timeout reload hc with rfl | hc
    · omega
    · exact ho.fired t k timeout reload hc m hk hm
  · rcases List.suffix_cons_iff.mp hs with he | hs
    · exact absurd (List.cons.inj he).1.symm (hfire t)
    · exact ho.punctual t h₁ hs
  · rw [hfired]
    by_cases hm : m ≤ h.count .tick
    · rw [beforeTick_cons_of_le (by omega)]
      exact ho.sequence m
    · rw [firedOn_of_lt (by omega)]
      exact List.Pairwise.nil

namespace NaiveTimers
variable {n : NaiveTimers τ}

theorem timely_init : (init : NaiveTimers τ).Timely := by
  refine ⟨rfl, fun e => ?_, List.Pairwise.nil, ?_, fun t h₁ hs => ?_, fun m => List.Pairwise.nil⟩
  · simp [init, lastCreate]
  · simp [init, lastCreate]
  · simp [init] at hs

theorem Timely.nodup (h : n.Timely) : (n.armed.map Deadline.timer).Nodup := by
  rw [List.Nodup, List.pairwise_map]
  exact h.order.imp fun hab e => by rw [e] at hab; exact Nat.lt_irrefl _ hab

theorem Timely.create (h : n.Timely) {t : τ} {timeout reload : ℕ} (h₁ : 0 < timeout)
    (ht : ∀ e ∈ n.armed, e.timer ≠ t) : (n.create t timeout reload).Timely := by
  have hself : lastCreate t (TimerEvent.create t timeout reload :: n.history) =
      some (n.now, timeout, reload) := by
    rw [lastCreate, if_pos rfl, h.now]
  have hother : ∀ x, x ≠ t →
      lastCreate x (TimerEvent.create t timeout reload :: n.history) = lastCreate x n.history := by
    intro x hx
    rw [lastCreate, if_neg (Ne.symm hx)]
  refine ⟨?_, fun e => ?_, ?_, ?_⟩
  · exact h.now.trans (List.count_cons_of_ne (by simp)).symm
  · simp only [NaiveTimers.create, List.mem_append, List.mem_singleton]
    by_cases he : e.timer = t
    · rw [he, hself]
      constructor
      · rintro (hm | rfl)
        · exact absurd he (ht e hm)
        · exact ⟨n.now, timeout, rfl, onSchedule_first h₁⟩
      · rintro ⟨k, a, hk, hl⟩
        simp only [Option.some.injEq, Prod.mk.injEq] at hk
        obtain ⟨rfl, rfl, hr⟩ := hk
        right
        cases e
        simp only at he hr hl ⊢
        rw [he, ← hr, hl.unique (onSchedule_first h₁)]
    · rw [hother _ he, ← h.armed e]
      refine or_iff_left fun e' => he ?_
      rw [e']
  · refine List.pairwise_append.mpr ⟨?_, List.pairwise_singleton _ _, fun a ha b hb => ?_⟩
    · refine h.order.imp_of_mem fun {a b} ha hb hab => ?_
      simpa [NaiveTimers.create, armedAt, (ht a ha).symm, (ht b hb).symm] using hab
    · rw [List.mem_singleton.mp hb]
      simp only [NaiveTimers.create, armedAt, if_neg (ht a ha).symm, if_true]
      exact Nat.lt_succ_of_le (armedAt_le _ _)
  · refine h.onTime.cons (by simp) (by simp) fun x k a b hx => ?_
    by_cases hxt : x = t
    · left
      rw [hxt, hself] at hx
      simp only [Option.some.injEq, Prod.mk.injEq] at hx
      rw [← hx.1, h.now]
    · right
      rwa [hother x hxt] at hx

theorem Timely.destroy (h : n.Timely) (t : τ) : (n.destroy t).Timely := by
  have hself : lastCreate t (TimerEvent.destroy t :: n.history) = none := by
    rw [lastCreate, if_pos rfl]
  have hother : ∀ x, x ≠ t →
      lastCreate x (TimerEvent.destroy t :: n.history) = lastCreate x n.history := by
    intro x hx
    rw [lastCreate, if_neg (Ne.symm hx)]
  refine ⟨?_, fun e => ?_, ?_, ?_⟩
  · exact h.now.trans (List.count_cons_of_ne (by simp)).symm
  · simp only [NaiveTimers.destroy, List.mem_filter, decide_eq_true_eq]
    by_cases he : e.timer = t
    · simp [he, hself]
    · rw [hother _ he, ← h.armed e]
      simp [he]
  · exact h.order.sublist List.filter_sublist
  · refine h.onTime.cons (by simp) (by simp) fun x k a b hx => ?_
    by_cases hxt : x = t
    · rw [hxt, hself] at hx
      simp at hx
    · right
      rwa [hother x hxt] at hx

/-- The timers that fire on the next tick are those whose schedule names it. -/
theorem Timely.mem_expiring (h : n.Timely) {t : τ} {k timeout reload : ℕ}
    (ht : lastCreate t n.history = some (k, timeout, reload)) :
    t ∈ n.expiring.map Deadline.timer ↔ OnSchedule k timeout reload (n.now + 1) := by
  simp only [expiring, List.mem_map, List.mem_filter, decide_eq_true_eq]
  constructor
  · rintro ⟨e, ⟨he, hd⟩, rfl⟩
    obtain ⟨k', timeout', hc, hl⟩ := (h.armed e).mp he
    rw [ht] at hc
    simp only [Option.some.injEq, Prod.mk.injEq] at hc
    obtain ⟨rfl, rfl, rfl⟩ := hc
    rw [hd] at hl
    exact hl.1.2
  · intro hs
    refine ⟨⟨t, n.now + 1, reload⟩, ⟨(h.armed _).mpr ⟨k, timeout, ht, ?_⟩, rfl⟩, rfl⟩
    exact ⟨⟨Nat.lt_succ_self _, hs⟩, fun m hm => hm.1⟩

/-- The entries of the next state, read off the history. -/
theorem Timely.mem_tick_armed (h : n.Timely) (e : Deadline τ) :
    e ∈ n.tick.armed ↔ ∃ k timeout, lastCreate e.timer n.history = some (k, timeout, e.reload) ∧
      IsLeast {m | n.now + 1 < m ∧ OnSchedule k timeout e.reload m} e.due := by
  simp only [tick, expiring, List.mem_append, List.mem_map, List.mem_filter, decide_eq_true_eq]
  constructor
  · rintro (⟨he, hd⟩ | ⟨e, ⟨⟨he, hd⟩, hr⟩, rfl⟩)
    · obtain ⟨k, timeout, hc, hl⟩ := (h.armed e).mp he
      have hno : ¬OnSchedule k timeout e.reload (n.now + 1) := by
        intro hs
        have hle : e.due ≤ n.now + 1 := hl.2 ⟨Nat.lt_succ_self _, hs⟩
        have hlt : n.now < e.due := hl.1.1
        omega
      exact ⟨k, timeout, hc, (isLeast_after_succ hno).mpr hl⟩
    · obtain ⟨k, timeout, hc, hl⟩ := (h.armed e).mp he
      rw [hd] at hl
      exact ⟨k, timeout, hc, onSchedule_next hl.1.2 hr⟩
  · rintro ⟨k, timeout, hc, hl⟩
    by_cases hs : OnSchedule k timeout e.reload (n.now + 1)
    · have hr : 0 < e.reload := by
        by_contra h0
        have he0 : e.reload = 0 := by omega
        rw [he0] at hs hl
        have := onSchedule_last hs hl.1.2
        have : n.now + 1 < e.due := hl.1.1
        omega
      have hdue : e.due = n.now + 1 + e.reload := hl.unique (onSchedule_next hs hr)
      have hpre : (⟨e.timer, n.now + 1, e.reload⟩ : Deadline τ) ∈ n.armed :=
        (h.armed _).mpr ⟨k, timeout, hc, ⟨Nat.lt_succ_self _, hs⟩, fun m hm => hm.1⟩
      refine .inr ⟨_, ⟨⟨hpre, rfl⟩, hr⟩, ?_⟩
      rw [← hdue]
    · have hl' := (isLeast_after_succ hs).mp hl
      refine .inl ⟨(h.armed e).mpr ⟨k, timeout, hc, hl'⟩, ?_⟩
      have : n.now + 1 < e.due := hl.1.1
      omega

theorem Timely.timer_notMem_expiring (h : n.Timely) {e : Deadline τ} (he : e ∈ n.armed)
    (hd : e.due ≠ n.now + 1) : e.timer ∉ n.expiring.map Deadline.timer := by
  obtain ⟨k, timeout, hc, hl⟩ := (h.armed e).mp he
  rw [h.mem_expiring hc]
  intro hs
  have hle : e.due ≤ n.now + 1 := hl.2 ⟨Nat.lt_succ_self _, hs⟩
  have hlt : n.now < e.due := hl.1.1
  omega

theorem Timely.expiring_nodup (h : n.Timely) : (n.expiring.map Deadline.timer).Nodup :=
  h.nodup.sublist (List.filter_sublist.map _)

theorem Timely.tick_order (h : n.Timely) : n.tick.armed.Pairwise fun a b =>
    armedAt a.timer n.tick.history < armedAt b.timer n.tick.history := by
  obtain ⟨habove, hpair⟩ := armedAt_fires (h := .tick :: n.history) h.expiring_nodup
  have hkept : ∀ e ∈ n.armed.filter fun e => e.due ≠ n.now + 1,
      armedAt e.timer n.tick.history = armedAt e.timer n.history := by
    intro e he
    obtain ⟨he, hd⟩ := List.mem_filter.mp he
    exact armedAt_fires_of_notMem (h.timer_notMem_expiring he (by simpa using hd))
  refine List.pairwise_append.mpr ⟨?_, ?_, fun a ha b hb => ?_⟩
  · refine (h.order.sublist List.filter_sublist).imp_of_mem fun {a b} ha hb hab => ?_
    rwa [hkept a ha, hkept b hb]
  · rw [List.pairwise_map]
    rw [List.pairwise_map] at hpair
    exact hpair.sublist List.filter_sublist
  · obtain ⟨b', hb', rfl⟩ := List.mem_map.mp hb
    have hmem : b'.timer ∈ n.expiring.map Deadline.timer :=
      List.mem_map_of_mem (List.mem_filter.mp hb').1
    have hlow := armedAt_le a.timer n.history
    have hhigh := habove b'.timer hmem
    rw [hkept a ha]
    simp only [List.length_cons] at hhigh
    simp only [tick]
    omega

theorem Timely.tick_onTime (h : n.Timely) : OnTime n.tick.history := by
  have hcount : (TimerEvent.tick :: n.history).count .tick = n.now + 1 := by
    rw [List.count_cons_self, h.now]
  have hfired : ∀ m, firedOn m n.tick.history =
      if n.now + 1 = m then n.expiring.map Deadline.timer else firedOn m n.history := by
    intro m
    simp only [tick, firedOn_fires, hcount]
    split
    · have hnil : firedOn m (.tick :: n.history) = [] := firedOn_of_lt (h := n.history)
        (by rw [← h.now]; omega)
      rw [hnil, List.nil_append]
    · rfl
  refine ⟨fun t k timeout reload hc m hk hm => ?_, fun t h₁ hs => ?_, fun m => ?_⟩
  · have hc' : lastCreate t n.history = some (k, timeout, reload) := by
      simpa only [tick, lastCreate_fires, lastCreate] using hc
    rw [tick, count_tick_fires, hcount] at hm
    rw [hfired]
    split
    · rename_i he
      rw [← he, h.expiring_nodup.count]
      simp only [h.mem_expiring hc']
    · exact h.onTime.fired t k timeout reload hc' m hk (by rw [← h.now]; omega)
  · rcases suffix_fires hs with ⟨ht, L, rfl⟩ | hs
    · obtain ⟨e, he, rfl⟩ := List.mem_map.mp ht
      obtain ⟨he, hd⟩ := List.mem_filter.mp he
      obtain ⟨k, timeout, hc, hl⟩ := (h.armed e).mp he
      refine ⟨k, timeout, e.reload, by rw [lastCreate_fires]; exact hc, ?_⟩
      rw [count_tick_fires, hcount, ← of_decide_eq_true hd]
      exact hl.1.2
    · rcases List.suffix_cons_iff.mp hs with he | hs
      · simp at he
      · exact h.onTime.punctual t h₁ hs
  · rw [hfired]
    split
    · rename_i he
      have hb : beforeTick m n.tick.history = n.history := by
        rw [tick, beforeTick_fires (by omega), beforeTick_cons_of_le (by omega),
          beforeTick_of_lt (by rw [← h.now]; omega)]
      rw [hb, List.pairwise_map]
      exact h.order.sublist List.filter_sublist
    · by_cases hm : m ≤ n.now
      · rw [tick, beforeTick_fires (by omega), beforeTick_cons_of_le (by omega)]
        exact h.onTime.sequence m
      · rw [firedOn_of_lt (by rw [← h.now]; omega)]
        exact List.Pairwise.nil

theorem Timely.tick (h : n.Timely) : n.tick.Timely := by
  refine ⟨?_, fun e => ?_, h.tick_order, h.tick_onTime⟩
  · rw [NaiveTimers.tick, count_tick_fires, List.count_cons_self, h.now]
  · rw [h.mem_tick_armed e]
    simp only [NaiveTimers.tick, lastCreate_fires]
    rfl

theorem timely_of_reachable (h : (naiveTimers τ π).Reachable n) : n.Timely := by
  refine h.invariant (fun n hn => hn ▸ timely_init) fun n c n' hn hstep => ?_
  cases hstep with
  | create proc h₁ ht => exact hn.create h₁ ht
  | destroy => exact hn.destroy _
  | tick => exact hn.tick

end NaiveTimers

end RadOs
