import RadOs.Timer.Destroy

/-! # The pass of `timer_trigger` over the timer list

All timers with the fewest ticks left stand in front. The loop runs their
callbacks one after the other and then only lowers the remaining times. A
callback may stop any timers except the one right behind the running timer,
whose node the loop has already taken as its next position.
-/

namespace RadOs
open LinkedRing Budget

variable {τ π : Type} [DecidableEq τ]

/-- The timers whose callbacks run, in order, when the callback of `t` stops the timers `D t`. -/
def firings (D : τ → List τ) (due : τ → Bool) : List τ → List τ
  | [] => []
  | t :: p => if due t then t :: firings D due (without (D t) p) else []
termination_by p => p.length
decreasing_by exact Nat.lt_succ_of_le (length_without_le _ p)

/-- No callback that runs stops the timer that is next on the list at that moment. -/
def SparesNext (D : τ → List τ) (due : τ → Bool) : List τ → Prop
  | [] => True
  | t :: p => due t = true →
      (∀ y ∈ p.head?, y ∉ D t) ∧ SparesNext D due (without (D t) p)
termination_by p => p.length
decreasing_by exact Nat.lt_succ_of_le (length_without_le _ p)

/-- Everything stopped by the callbacks that run. -/
def stoppedBy (D : τ → List τ) (due : τ → Bool) (q : List τ) : List τ :=
  (firings D due q).flatMap D

theorem firings_subset (D : τ → List τ) (due : τ → Bool) (q : List τ) :
    ∀ t ∈ firings D due q, t ∈ q ∧ due t = true := by
  induction q using firings.induct D due with
  | case1 => simp [firings]
  | case2 t p hdue ih =>
    rw [firings, if_pos hdue]
    intro x hx
    rcases List.mem_cons.mp hx with rfl | hx
    · simp [hdue]
    · obtain ⟨hm, hd⟩ := ih x hx
      exact ⟨List.mem_cons_of_mem t (mem_without.mp hm).1, hd⟩
  | case3 t p hdue =>
    rw [firings, if_neg (by simpa using hdue)]
    simp

/-- Lowering the remaining time of the timers on `p`. -/
def Timers.reduce (p : List τ) (u : ℕ) (s : Timers τ π) : Timers τ π :=
  { s with timers := fun t =>
      if t ∈ p then { s.timers t with ticksRem := (s.timers t).ticksRem - u } else s.timers t }

theorem ticksSub_of_le {a b : ℕ} (hb : b ≤ a) (ha : a < ticksMod) : ticksSub a b = a - b := by
  have : a + ticksMod - b = (a - b) + ticksMod := by omega
  rw [ticksSub, this, Nat.add_mod_right, Nat.mod_eq_of_lt (by omega)]

/-- No callback runs on timers that do not expire; the pass subtracts the ticks once from each. -/
theorem triggerLoop_unexpired (clbck : τ → Timers τ π → Outcome (Timers τ π)) {s : Timers τ π}
    {a p rs : List τ} (r : Rings s.links (a ++ p) rs) (u : ℕ)
    (hu : p ≠ [] → s.timerTickUnsynch = u)
    (hp : ∀ t ∈ p, u < s.rem t ∧ s.rem t < ticksMod) (n : ℕ) :
    triggerLoop clbck (n + (p.length + 1)) (firstNode (p.map .timer) .timerList) s =
      .ok (s.reduce p u) := by
  induction p generalizing a s with
  | nil => simp [triggerLoop, Timers.reduce]
  | cons t p ih =>
    obtain ⟨hlt, hmod⟩ := hp t (by simp)
    have hnd : t ∉ p := by
      have := r.nodup
      simp only [List.nodup_append, List.nodup_cons] at this
      exact this.2.1.1
    have hunsynch := hu (by simp)
    have hsub : ticksSub (s.rem t) s.timerTickUnsynch = s.rem t - u := by
      rw [hunsynch]
      exact ticksSub_of_le (Nat.le_of_lt hlt) hmod
    let s₁ := s.setRem t (s.rem t - u)
    have hset := ih (s := s₁) (a := a ++ [t]) (by rw [List.append_assoc]; exact r)
        (fun _ => hunsynch) (by
      intro x hx
      have hxt : x ≠ t := fun e => hnd (e ▸ hx)
      simpa [s₁, Timers.setRem, Timers.setTimer, Timers.rem, hxt] using hp x (by simp [hx]))
    have hres : s₁.reduce p u = s.reduce (t :: p) u := by
      simp only [s₁, Timers.reduce, Timers.setRem, Timers.setTimer]
      congr 1
      funext x
      by_cases hx : x = t
      · subst hx
        simp [hnd, Timers.rem]
      · simp [hx]
    rw [hres] at hset
    have hpos : 0 < s.rem t - u := by omega
    rw [List.length_cons, ← Nat.add_assoc n, List.map_cons, firstNode_cons, triggerLoop]
    simp only [HasTimers.timers, HasTimers.setTimers]
    rw [hsub, if_pos hpos, r.next_mid]
    exact hset

/-- The state between the timer list and the callback of an expired timer. -/
def expire (t : τ) (s : Timers τ π) : Timers τ π :=
  ((s.setRem t 0).setLinks (listUnlink (.timer t) s.links)).record (.fire t)

theorem expire_timers_of_ne {t u : τ} (s : Timers τ π) (h : u ≠ t) :
    (expire t s).timers u = s.timers u := by
  simp [expire, Timers.record, Timers.setLinks, Timers.setRem, Timers.setTimer, h]

@[simp] theorem expire_reload (t u : τ) (s : Timers τ π) :
    (expire t s).reload u = s.reload u := by
  by_cases h : u = t
  · subst h
    simp [expire, Timers.record, Timers.setLinks, Timers.setRem, Timers.setTimer, Timers.reload]
  · simp [Timers.reload, expire_timers_of_ne s h]

@[simp] theorem expire_magic (t u : τ) (s : Timers τ π) :
    ((expire t s).timers u).magic = (s.timers u).magic := by
  by_cases h : u = t
  · subst h
    simp [expire, Timers.record, Timers.setLinks, Timers.setRem, Timers.setTimer]
  · simp [expire_timers_of_ne s h]

@[simp] theorem expire_rem_self (t : τ) (s : Timers τ π) : (expire t s).rem t = 0 := by
  simp [expire, Timers.record, Timers.setLinks, Timers.setRem, Timers.setTimer, Timers.rem]

theorem Linked.expire {s : Timers τ π} {t : τ} {q rs : List τ} (h : Linked s (t :: q) rs) :
    Linked (RadOs.expire t s) q rs := by
  have hnd := List.nodup_cons.mp h.rings.nodup
  have hne : ∀ u ∈ q, u ≠ t := fun u hu e => hnd.1 (e ▸ hu)
  have hmade : ∀ u, (RadOs.expire t s).Made u ↔ s.Made u := by
    intro u
    simp [Timers.Made]
  refine ⟨?_, ?_, ?_, ?_⟩
  · exact Rings.unlink (a := []) h.rings
  · intro u hu hr
    have hut : u ≠ t := by
      rintro rfl
      simp at hr
    have hr' : 0 < s.rem u := by simpa [Timers.rem, expire_timers_of_ne s hut] using hr
    simpa [hut] using h.mem_of_rem u ((hmade u).mp hu) hr'
  · exact fun u hu => (hmade u).mpr (h.made u (by simp [hu]))
  · intro u hu
    simpa [Timers.rem, expire_timers_of_ne s (hne u hu)] using h.rem_pos u (by simp [hu])

/-- One iteration on an expired timer, up to the test of `ticks_reload`. -/
theorem triggerLoop_expired (clbck : τ → Timers τ π → Outcome (Timers τ π)) {s s' : Timers τ π}
    {t : τ} {q rs : List τ} (r : Rings s.links (t :: q) rs)
    (hz : ticksSub (s.rem t) s.timerTickUnsynch = 0) (hc : clbck t (expire t s) = .ok s') (n : ℕ) :
    triggerLoop clbck (n + 1) (.timer t) s =
      if 0 < s'.reload t then
        triggerLoop clbck n (firstNode (q.map .timer) .timerList)
          (s'.setLinks (listAppend .listAutoreload (.timer t) s'.links))
      else triggerLoop clbck n (firstNode (q.map .timer) .timerList) s' := by
  have hn : s.links.next (.timer t) = firstNode (q.map .timer) .timerList :=
    Rings.next_mid (a := []) r
  simp only [triggerLoop, HasTimers.timers, HasTimers.setTimers]
  rw [hz, if_neg (lt_irrefl 0), hn]
  have he : ((s.setRem t 0).setLinks (listUnlink (.timer t) (s.setRem t 0).links)).record (.fire t)
      = expire t s := rfl
  rw [he, hc]
  rfl

/-- The timers that stay on the list: neither expired nor stopped by a callback that ran. -/
def survivors (D : τ → List τ) (due : τ → Bool) (q : List τ) : List τ :=
  without (stoppedBy D due q) (q.filter fun t => !due t)

theorem mem_survivors {D : τ → List τ} {due : τ → Bool} {q : List τ} {t : τ} :
    t ∈ survivors D due q ↔ t ∈ q ∧ due t = false ∧ t ∉ stoppedBy D due q := by
  simp [survivors, and_assoc]

theorem firings_cons {D : τ → List τ} {due : τ → Bool} {t : τ} {p : List τ}
    (h : due t = true) : firings D due (t :: p) = t :: firings D due (without (D t) p) := by
  rw [firings, if_pos h]

theorem firings_cons_neg {D : τ → List τ} {due : τ → Bool} {t : τ} {p : List τ}
    (h : due t = false) : firings D due (t :: p) = [] := by
  rw [firings, if_neg (by simp [h])]

theorem stoppedBy_cons {D : τ → List τ} {due : τ → Bool} {t : τ} {p : List τ}
    (h : due t = true) :
    stoppedBy D due (t :: p) = D t ++ stoppedBy D due (without (D t) p) := by
  simp [stoppedBy, firings_cons h]

theorem survivors_cons {D : τ → List τ} {due : τ → Bool} {t : τ} {p : List τ}
    (h : due t = true) : survivors D due (t :: p) = survivors D due (without (D t) p) := by
  have hf : (t :: p).filter (fun t => !due t) = p.filter fun t => !due t := by simp [h]
  rw [survivors, survivors, stoppedBy_cons h, hf, ← without_without]
  congr 1
  simp only [without, List.filter_filter]
  congr 1
  funext a
  exact Bool.and_comm _ _

/-- What the first loop of `timer_trigger` leaves behind when it starts on the list `q`. -/
structure Swept (D : τ → List τ) (due : τ → Bool) (u : ℕ) (s s' : Timers τ π)
    (q rs : List τ) : Prop where
  rings : Rings s'.links (survivors D due q)
    (rs ++ (firings D due q).filter fun t => 0 < s.reload t)
  rem_survivor : ∀ t ∈ survivors D due q, s'.rem t = s.rem t - u
  rem_gone : ∀ t ∈ q, t ∉ survivors D due q → s'.rem t = 0
  rem_other : ∀ t, t ∉ q → s'.rem t = s.rem t
  reload : ∀ t, s'.reload t =
    if t ∈ q ∧ t ∉ firings D due q ∧ t ∈ stoppedBy D due q then 0 else s.reload t
  magic : ∀ t, (s'.timers t).magic =
    if t ∈ stoppedBy D due q then .magic2 else (s.timers t).magic
  history : s'.history = ((firings D due q).flatMap fun t =>
    .fire t :: (D t).map .destroy).reverse ++ s.history
  ticksCnt : s'.ticksCnt = s.ticksCnt

theorem swept_of_not_due {D : τ → List τ} {due : τ → Bool} {u : ℕ} {s : Timers τ π}
    {q rs : List τ} (r : Rings s.links q rs) (hq : ∀ t ∈ q, due t = false) :
    Swept D due u s (s.reduce q u) q rs := by
  have hf : firings D due q = [] := by
    cases q with
    | nil => simp [firings]
    | cons t p => exact firings_cons_neg (hq t (by simp))
  have hstop : stoppedBy D due q = [] := by simp [stoppedBy, hf]
  have hs : survivors D due q = q := by
    rw [survivors, hstop, without_nil, List.filter_eq_self]
    exact fun t ht => by simp [hq t ht]
  constructor
  · rw [hs, hf]
    exact (List.append_nil rs).symm ▸ r
  · intro t ht
    rw [hs] at ht
    simp [Timers.rem, Timers.reduce, ht]
  · intro t ht hn
    rw [hs] at hn
    exact absurd ht hn
  · intro t ht
    simp [Timers.rem, Timers.reduce, ht]
  · intro t
    by_cases ht : t ∈ q <;> simp [Timers.reload, Timers.reduce, ht, hstop]
  · intro t
    by_cases ht : t ∈ q <;> simp [Timers.reduce, ht, hstop]
  · simp [hf, Timers.reduce]
  · rfl

/-- The state in which the loop goes on after the callback of the expired timer `t`. -/
def requeue (t : τ) (s : Timers τ π) : Timers τ π :=
  if 0 < s.reload t then s.setLinks (listAppend .listAutoreload (.timer t) s.links) else s

@[simp] theorem requeue_timers (t : τ) (s : Timers τ π) : (requeue t s).timers = s.timers := by
  unfold requeue
  split <;> rfl

@[simp] theorem requeue_unsynch (t : τ) (s : Timers τ π) :
    (requeue t s).timerTickUnsynch = s.timerTickUnsynch := by
  unfold requeue
  split <;> rfl

@[simp] theorem requeue_history (t : τ) (s : Timers τ π) : (requeue t s).history = s.history := by
  unfold requeue
  split <;> rfl

@[simp] theorem requeue_ticksCnt (t : τ) (s : Timers τ π) :
    (requeue t s).ticksCnt = s.ticksCnt := by
  unfold requeue
  split <;> rfl

theorem Linked.requeue {s : Timers τ π} {t : τ} {q rs : List τ} (h : Linked s q rs)
    (hq : t ∉ q) (hr : t ∉ rs) :
    Linked (RadOs.requeue t s) q (rs ++ if 0 < s.reload t then [t] else []) := by
  unfold RadOs.requeue
  split
  · exact ⟨h.rings.append hq hr, h.mem_of_rem, h.made, h.rem_pos⟩
  · simpa using h

/-- One callback: what it stops leaves the list, and the loop finds its saved position there. -/
theorem sweep_step {D : τ → List τ} {s : Timers τ π} {t : τ} {p rs : List τ}
    (h : Linked s (t :: p) rs) (hm : ∀ d ∈ D t, s.Made d)
    (hz : ticksSub (s.rem t) s.timerTickUnsynch = 0) (hy : ∀ y ∈ p.head?, y ∉ D t) :
    ∃ s₁, Stopped (expire t s) s₁ (D t) p rs ∧
      Linked (requeue t s₁) (without (D t) p) (rs ++ if 0 < s.reload t then [t] else []) ∧
      ∀ n, triggerLoop (fun t => destroyAll (D t)) (n + 1) (.timer t) s =
        triggerLoop (fun t => destroyAll (D t)) n
          (firstNode ((without (D t) p).map .timer) .timerList) (requeue t s₁) := by
  have htp : t ∉ p := (List.nodup_cons.mp h.rings.nodup).1
  have htr : t ∉ rs := h.rings.disjoint t (by simp)
  obtain ⟨s₁, hs₁, st⟩ := destroyAll_stopped (D t) h.expire
    fun d hd => by simpa [Timers.Made] using hm d hd
  have hrel : s₁.reload t = s.reload t := by
    rw [st.reload t, if_neg (fun e => htp e.2), expire_reload]
  have hfirst : firstNode (p.map TimerNode.timer) .timerList =
      firstNode ((without (D t) p).map .timer) .timerList := by
    cases p with
    | nil => rfl
    | cons y p =>
      have hyD : y ∉ D t := hy y (by simp)
      simp [without, hyD]
  refine ⟨s₁, st, ?_, fun n => ?_⟩
  · rw [← hrel]
    exact st.linked.requeue (fun e => htp (mem_without.mp e).1) htr
  · rw [triggerLoop_expired (fun t => destroyAll (D t)) h.rings hz hs₁ n, hfirst, requeue]
    split <;> rfl

/-- The state of the first loop of `timer_trigger` in front of the timers `q`: the counter stands at
`u`, no timer has fewer ticks left, and those with exactly `u` come first. -/
structure Sweeping (D : τ → List τ) (due : τ → Bool) (u : ℕ) (s : Timers τ π)
    (q rs : List τ) : Prop where
  linked : Linked s q rs
  made : ∀ t ∈ q, ∀ d ∈ D t, s.Made d
  unsynch : q ≠ [] → s.timerTickUnsynch = u
  bound : ∀ t ∈ q, u ≤ s.rem t ∧ s.rem t < ticksMod
  due_iff : ∀ t ∈ q, due t = true ↔ s.rem t = u
  due_first : q.Pairwise fun a b => due b = true → due a = true

omit [DecidableEq τ] in
theorem Sweeping.expired {D : τ → List τ} {due : τ → Bool} {u : ℕ} {s : Timers τ π} {t : τ}
    {p rs : List τ} (h : Sweeping D due u s (t :: p) rs) (hdt : due t = true) :
    ticksSub (s.rem t) s.timerTickUnsynch = 0 := by
  have hrem : s.rem t = u := (h.due_iff t (by simp)).mp hdt
  rw [hrem, h.unsynch (by simp), ticksSub_of_le le_rfl (hrem ▸ (h.bound t (by simp)).2)]
  exact Nat.sub_self u

/-- The fields after one callback: only `t` and what the callback stopped have changed. -/
theorem Stopped.requeue_timers_of_ne {D : τ → List τ} {s s₁ : Timers τ π} {t : τ} {p rs : List τ}
    (st : Stopped (expire t s) s₁ (D t) p rs) {x : τ} (hxD : x ∉ D t) (hxt : x ≠ t) :
    (requeue t s₁).timers x = s.timers x := by
  rw [requeue_timers, st.other x hxD, expire_timers_of_ne s hxt]

theorem Sweeping.step {D : τ → List τ} {due : τ → Bool} {u : ℕ} {s s₁ : Timers τ π} {t : τ}
    {p rs rs' : List τ} (h : Sweeping D due u s (t :: p) rs)
    (st : Stopped (expire t s) s₁ (D t) p rs)
    (hl : Linked (requeue t s₁) (without (D t) p) rs') :
    Sweeping D due u (requeue t s₁) (without (D t) p) rs' := by
  have htp : t ∉ p := (List.nodup_cons.mp h.linked.rings.nodup).1
  have hsub : ∀ x, x ∈ without (D t) p → x ∈ p ∧ x ∉ D t ∧ x ≠ t := fun x hx => by
    rw [mem_without] at hx
    exact ⟨hx.1, hx.2, fun e => htp (e ▸ hx.1)⟩
  have hsrem : ∀ x ∈ without (D t) p, (requeue t s₁).rem x = s.rem x := fun x hx => by
    obtain ⟨-, hD, hne⟩ := hsub x hx
    simp only [Timers.rem, st.requeue_timers_of_ne hD hne]
  constructor
  · exact hl
  · intro x hx d hd
    have hmd := h.made x (by simp [(hsub x hx).1]) d hd
    have hmade := (st.made d).mpr (by simpa [Timers.Made] using hmd)
    simpa [Timers.Made] using hmade
  · intro hne
    rw [requeue_unsynch, st.unsynch hne]
    exact h.unsynch (by simp)
  · intro x hx
    rw [hsrem x hx]
    exact h.bound x (by simp [(hsub x hx).1])
  · intro x hx
    rw [hsrem x hx]
    exact h.due_iff x (by simp [(hsub x hx).1])
  · exact (List.pairwise_cons.mp h.due_first).2.filter _

/-- The first loop of `timer_trigger` ends and does exactly the work described by `Swept`, provided
no callback stops the timer that is next. -/
theorem sweep {D : τ → List τ} {due : τ → Bool} {u : ℕ} {s : Timers τ π} {q rs : List τ}
    (h : Sweeping D due u s q rs) (hspare : SparesNext D due q) :
    ∃ s', Settles (fun n => triggerLoop (fun t => destroyAll (D t)) n
        (firstNode (q.map .timer) .timerList) s) (.ok s') ∧ Swept D due u s s' q rs := by
  induction q using firings.induct D due generalizing s rs with
  | case1 =>
    refine ⟨_,
      settles_of_add (triggerLoop_unexpired (a := []) _ h.linked.rings u h.unsynch (by simp)),
      swept_of_not_due h.linked.rings (by simp)⟩
  | case3 t p hdt =>
    have hnot : ∀ x ∈ t :: p, due x = false := by
      intro x hx
      rcases List.mem_cons.mp hx with rfl | hx
      · simpa using hdt
      · by_contra hc
        exact hdt ((List.pairwise_cons.mp h.due_first).1 x hx (by simpa using hc))
    refine ⟨_, settles_of_add (triggerLoop_unexpired (a := []) _ h.linked.rings u h.unsynch
      fun x hx => ?_), swept_of_not_due h.linked.rings hnot⟩
    have hne : s.rem x ≠ u := fun e => by
      have := (h.due_iff x hx).mpr e
      simp [hnot x hx] at this
    have := h.bound x hx
    omega
  | case2 t p hdt ih =>
    rw [SparesNext] at hspare
    obtain ⟨hy, hspare⟩ := hspare hdt
    obtain ⟨s₁, st, hl, hstep⟩ := sweep_step h.linked (h.made t (by simp)) (h.expired hdt) hy
    have htp : t ∉ p := (List.nodup_cons.mp h.linked.rings.nodup).1
    have hsub : ∀ x, x ∈ without (D t) p → x ∈ p ∧ x ∉ D t ∧ x ≠ t := fun x hx => by
      rw [mem_without] at hx
      exact ⟨hx.1, hx.2, fun e => htp (e ▸ hx.1)⟩
    have hsrem : ∀ x, x ∉ D t → x ≠ t → (requeue t s₁).rem x = s.rem x := fun x h₁ h₂ => by
      simp only [Timers.rem, st.requeue_timers_of_ne h₁ h₂]
    have hreload : ∀ x, (requeue t s₁).reload x = if x ∈ D t ∧ x ∈ p then 0 else s.reload x := by
      intro x
      have := st.reload x
      rw [expire_reload] at this
      simpa [Timers.reload] using this
    obtain ⟨s', hset, sw⟩ := ih (h.step st hl) hspare
    refine ⟨s', hset.of_succ hstep, ?_⟩
    have hF := firings_subset D due (without (D t) p)
    constructor
    · have hr := sw.rings
      rw [survivors_cons hdt, firings_cons hdt]
      have hrs : (firings D due (without (D t) p)).filter (fun x => 0 < (requeue t s₁).reload x) =
          (firings D due (without (D t) p)).filter fun x => 0 < s.reload x := by
        apply List.filter_congr
        intro x hx
        obtain ⟨hp, hD, hne⟩ := hsub x (hF x hx).1
        simp [hreload x, hD]
      rw [hrs] at hr
      by_cases hrel : 0 < s.reload t <;> simpa [hrel] using hr
    · intro x hx
      rw [survivors_cons hdt] at hx
      obtain ⟨hp, hD, hne⟩ := hsub x (mem_survivors.mp hx).1
      rw [sw.rem_survivor x hx, hsrem x hD hne]
    · intro x hx hn
      rw [survivors_cons hdt] at hn
      by_cases hxq : x ∈ without (D t) p
      · exact sw.rem_gone x hxq hn
      · rw [sw.rem_other x hxq]
        by_cases hxD : x ∈ D t
        · simpa [Timers.rem] using st.rem x hxD
        · have hxt : x = t := by
            rcases List.mem_cons.mp hx with e | e
            · exact e
            · exact absurd (mem_without.mpr ⟨e, hxD⟩) hxq
          subst hxt
          simp only [Timers.rem, requeue_timers, st.other x hxD]
          exact expire_rem_self x s
    · intro x hx
      simp only [List.mem_cons, not_or] at hx
      rw [sw.rem_other x fun e => hx.2 (hsub x e).1]
      by_cases hxD : x ∈ D t
      · have h0 : s.rem x = 0 := by
          by_contra hc
          have := h.linked.mem_of_rem x (h.made t (by simp) x hxD) (Nat.pos_of_ne_zero hc)
          simp [hx.1, hx.2] at this
        rw [h0]
        simpa [Timers.rem] using st.rem x hxD
      · exact hsrem x hxD hx.1
    · intro x
      rw [sw.reload x, hreload x, firings_cons hdt, stoppedBy_cons hdt]
      have hFx : x ∈ firings D due (without (D t) p) → x ∈ without (D t) p := fun e => (hF x e).1
      by_cases hxt : x = t
      · subst hxt
        simp [htp]
      · by_cases hxp : x ∈ p <;> by_cases hxD : x ∈ D t <;> simp [hxt, hxp, hxD] at hFx ⊢
        exact fun e => absurd e hFx
    · intro x
      rw [sw.magic x, stoppedBy_cons hdt]
      by_cases hS : x ∈ stoppedBy D due (without (D t) p)
      · simp [hS]
      · by_cases hxD : x ∈ D t
        · simp [hS, hxD, st.magic x hxD]
        · simp [hS, hxD, st.other x hxD]
    · rw [sw.history, requeue_history, st.history, firings_cons hdt]
      simp [expire, Timers.record, Timers.setLinks, Timers.setRem, Timers.setTimer]
    · rw [sw.ticksCnt, requeue_ticksCnt, st.ticksCnt]
      rfl

end RadOs
