import RadOs.Timer.Tick

/-! # The calls of the timer interface on an armed list

Every call is described by the ticks a timer has left, which is its remaining
time above the common counter. In these terms creating adds one timer behind
those that burn off on the same tick, destroying removes one, and a tick with
callbacks that leave the timers alone lowers every timer by one.
-/

namespace RadOs
open LinkedRing Budget

variable {τ π : Type} [DecidableEq τ]

namespace Timers

/-- The ticks until the timer burns off. -/
def left (s : Timers τ π) (t : τ) : ℕ := s.rem t - s.timerTickUnsynch

/-- The number of ticks that have happened. -/
def ticks (s : Timers τ π) : ℕ := s.history.count .tick

/-- The variables after `os_tick` has counted the tick on a non-empty list. -/
def counted (s : Timers τ π) : Timers τ π :=
  { s with
    ticksCnt := ticksAdd s.ticksCnt 1
    timerTickUnsynch := ticksAdd s.timerTickUnsynch 1
    history := .tick :: s.history }

/-- The variables after `os_tick` on the empty list. -/
def countedIdle (s : Timers τ π) : Timers τ π :=
  { s with ticksCnt := ticksAdd s.ticksCnt 1, history := .tick :: s.history }

end Timers

omit [DecidableEq τ] in
theorem Armed.left_pos {s : Timers τ π} {xs : List τ} (h : Armed s xs) {t : τ} (ht : t ∈ xs) :
    0 < s.left t :=
  Nat.sub_pos_of_lt (h.above t ht)

theorem Armed.destroy {s : Timers τ π} {xs : List τ} (h : Armed s xs) {t : τ} (ht : s.Made t) :
    Armed (destroyed t s) (xs.filter (· ≠ t)) ∧
      ∀ x ∈ xs, x ≠ t →
        (destroyed t s).left x = s.left x ∧ (destroyed t s).reload x = s.reload x := by
  have hlink : Ring (destroyed t s).links .timerList ((xs.filter (· ≠ t)).map .timer) := by
    rw [destroyed_links]
    split
    · obtain ⟨as, bs, rfl, hf⟩ := filter_ne_append h.nodup (h.mem_of_rem t ht (by assumption))
      have hr : Ring s.links .timerList (as.map .timer ++ .timer t :: bs.map .timer) := by
        simpa using h.ring
      rw [hf]
      simpa using listUnlink_ring hr
    · rename_i hr
      have hf : xs.filter (· ≠ t) = xs := by
        rw [List.filter_eq_self]
        intro a ha
        simp only [decide_eq_true_eq]
        rintro rfl
        exact hr (Nat.lt_of_le_of_lt (Nat.zero_le _) (h.above a ha))
      rw [hf]
      exact h.ring
  have hsame : ∀ x, x ≠ t → (destroyed t s).timers x = s.timers x :=
    fun x hx => destroyed_timers_of_ne s hx
  have hunsynch : xs.filter (· ≠ t) ≠ [] →
      (destroyed t s).timerTickUnsynch = s.timerTickUnsynch := by
    intro hne
    rw [destroyed_unsynch, if_neg]
    intro he
    have := (listIsEmpty_iff hlink).mp he
    exact hne (by simpa using this)
  have hle : (destroyed t s).timerTickUnsynch ≤ s.timerTickUnsynch := by
    rw [destroyed_unsynch]
    split
    · exact Nat.zero_le _
    · exact le_rfl
  have hmem : ∀ x ∈ xs.filter (· ≠ t), x ∈ xs ∧ x ≠ t := by
    intro x hx
    simpa using hx
  refine ⟨?_, ?_⟩
  · constructor
    · exact hlink
    · refine (h.sorted.sublist List.filter_sublist).imp_of_mem fun {a b} ha hb hab => ?_
      simpa [Timers.rem, hsame a (hmem a ha).2, hsame b (hmem b hb).2] using hab
    · intro x hx
      have := h.above x (hmem x hx).1
      simp only [Timers.rem, hsame x (hmem x hx).2] at this ⊢
      omega
    · intro x hx
      simpa [Timers.rem, hsame x (hmem x hx).2] using h.rem_lt x (hmem x hx).1
    · intro x hx
      simpa [Timers.reload, hsame x (hmem x hx).2] using h.reload_lt x (hmem x hx).1
    · intro x hx hpos
      have hxt : x ≠ t := by
        rintro rfl
        rw [(destroyed_timers_self x s).1] at hpos
        exact absurd hpos (Nat.lt_irrefl 0)
      simp only [Timers.Made, Timers.rem, hsame x hxt] at hx hpos
      simpa [hxt] using h.mem_of_rem x hx hpos
    · intro x hx
      rw [hsame x (hmem x hx).2]
      exact h.magic x (hmem x hx).1
    · exact Nat.le_trans hle h.unsynch_le
    · intro hnil
      rw [destroyed_unsynch, if_pos]
      rw [listIsEmpty_iff hlink, hnil]
      rfl
  · intro x hx hxt
    have hne : xs.filter (· ≠ t) ≠ [] := by
      intro he
      have hm : x ∈ xs.filter (· ≠ t) := by simpa using ⟨hx, hxt⟩
      rw [he] at hm
      exact absurd hm List.not_mem_nil
    simp [Timers.left, Timers.rem, Timers.reload, hsame x hxt, hunsynch hne]

theorem Armed.create {s : Timers τ π} {xs : List τ} (h : Armed s xs) (t : τ) (proc : π)
    (timeout reload : ℕ) (h₁ : 0 < timeout) (h₂ : timeout < osTimerTicksremMax)
    (hm : (s.timers t).magic ≠ .magic1) (hr : reload < ticksMod) :
    ∃ s' ys, Settles (fun n => osTimerCreate n t proc timeout reload s) (.ok s') ∧
      Armed s' ys ∧ (∀ x, x ∈ ys ↔ x = t ∨ x ∈ xs) ∧ s'.left t = timeout ∧ s'.reload t = reload ∧
      (∀ x, x ≠ t → s'.left x = s.left x ∧ s'.timers x = s.timers x) ∧
      (∀ d, ys.filter (fun x => s'.left x = d) =
        xs.filter (fun x => s.left x = d) ++ if timeout = d then [t] else []) ∧
      s'.history = .create t timeout reload :: s.history := by
  have htx : t ∉ xs := fun e => hm (h.magic t e)
  let s₁ : Timers τ π := s.record (.create t timeout reload)
  let s₂ : Timers τ π := (s₁.setLinks (listInit (.timer t) s₁.links)).setTimer t
    { ticksRem := ticksAdd timeout s.timerTickUnsynch, ticksReload := reload, proc := proc,
      magic := .magic1 }
  have hu := h.unsynch_le
  have hrem : ticksAdd timeout s.timerTickUnsynch = timeout + s.timerTickUnsynch := by
    rw [ticksAdd, Nat.mod_eq_of_lt]
    simp only [ticksMod, osTimerTicksremMax, osTicksMax, osTimerUnsynchMax] at *
    omega
  have hremt : s₂.rem t = timeout + s.timerTickUnsynch := by
    simp [s₂, Timers.rem, Timers.setTimer, hrem]
  have hsame : ∀ x, x ≠ t → s₂.timers x = s.timers x := by
    intro x hx
    simp [s₂, s₁, Timers.setTimer, Timers.setLinks, Timers.record, hx]
  have hring : Ring s₂.links .timerList (xs.map .timer) := by
    refine h.ring.frame (fun u hu => listInit_next_of_ne _ ?_) fun u hu => listInit_prev_of_ne _ ?_
    · rintro rfl; simp [htx] at hu
    · rintro rfl; simp [htx] at hu
  obtain ⟨l, hset, hl⟩ := timerAdd_ring hring htx
  have hset' : Settles (fun n => osTimerCreate n t proc timeout reload s)
      (.ok (s₂.setLinks l)) := by
    refine hset.congr fun n => ?_
    rw [osTimerCreate, osAssert_pos h₁, osAssert_pos h₂, osAssert_pos hm]
    rfl
  have hrem₂ : ∀ x, (s₂.setLinks l).rem x = s₂.rem x := fun _ => rfl
  have hxrem : ∀ x ∈ xs, s₂.rem x = s.rem x := fun x hx => by
    simp only [Timers.rem, hsame x fun e => htx (e ▸ hx)]
  have hsort : xs.Pairwise fun a b => s₂.rem a ≤ s₂.rem b :=
    h.sorted.imp_of_mem fun {a b} ha hb hab => by rwa [hxrem a ha, hxrem b hb]
  have hmem : ∀ x, x ∈ insertTimer s₂.rem t xs ↔ x = t ∨ x ∈ xs := fun x => mem_insertTimer
  have hcases : ∀ x ∈ insertTimer s₂.rem t xs, x = t ∨ x ∈ xs ∧ x ≠ t := fun x hx => by
    by_cases hxt : x = t
    · exact .inl hxt
    · exact .inr ⟨by simpa [hxt] using (hmem x).mp hx, hxt⟩
  have hbig : timeout + s.timerTickUnsynch < ticksMod := by
    simp only [ticksMod, osTimerTicksremMax, osTicksMax, osTimerUnsynchMax] at *
    omega
  refine ⟨s₂.setLinks l, insertTimer s₂.rem t xs, hset', ?_, hmem, ?_, ?_, ?_, ?_, rfl⟩
  · constructor
    · exact hl
    · exact insertTimer_sorted hsort
    · intro x hx
      rcases hcases x hx with rfl | ⟨hx, hxt⟩
      · rw [hrem₂, hremt]
        exact Nat.lt_add_of_pos_left h₁
      · rw [hrem₂, hxrem x hx]
        exact h.above x hx
    · intro x hx
      rcases hcases x hx with rfl | ⟨hx, hxt⟩
      · rw [hrem₂, hremt]
        exact hbig
      · rw [hrem₂, hxrem x hx]
        exact h.rem_lt x hx
    · intro x hx
      rcases hcases x hx with rfl | ⟨hx, hxt⟩
      · simpa [s₂, Timers.reload, Timers.setTimer, Timers.setLinks] using hr
      · simpa [Timers.reload, Timers.setLinks, hsame x hxt] using h.reload_lt x hx
    · intro x hx hpos
      rw [hmem]
      by_cases hxt : x = t
      · exact .inl hxt
      · have hx' : s.Made x := by simpa [Timers.Made, Timers.setLinks, hsame x hxt] using hx
        have hp' : 0 < s.rem x := by simpa [Timers.rem, Timers.setLinks, hsame x hxt] using hpos
        exact .inr (h.mem_of_rem x hx' hp')
    · intro x hx
      rcases hcases x hx with rfl | ⟨hx, hxt⟩
      · simp [s₂, Timers.setTimer, Timers.setLinks]
      · simpa [Timers.setLinks, hsame x hxt] using h.magic x hx
    · exact h.unsynch_le
    · intro hnil
      have : t ∈ insertTimer s₂.rem t xs := (hmem t).mpr (.inl rfl)
      simp [hnil] at this
  · have : (s₂.setLinks l).left t = s₂.rem t - s.timerTickUnsynch := rfl
    rw [this, hremt]
    omega
  · simp [s₂, Timers.reload, Timers.setTimer, Timers.setLinks]
  · intro x hx
    refine ⟨?_, hsame x hx⟩
    have : (s₂.setLinks l).left x = s₂.rem x - s.timerTickUnsynch := rfl
    rw [this]
    simp only [Timers.left, Timers.rem, hsame x hx]
  · intro d
    have hleft : ∀ x ∈ insertTimer s₂.rem t xs, 0 < d →
        ((s₂.setLinks l).left x = d ↔ s₂.rem x = d + s.timerTickUnsynch) := by
      intro x hx hd
      have : (s₂.setLinks l).left x = s₂.rem x - s.timerTickUnsynch := rfl
      rw [this]
      omega
    by_cases hd : 0 < d
    · have e₁ : (insertTimer s₂.rem t xs).filter (fun x => (s₂.setLinks l).left x = d) =
          (insertTimer s₂.rem t xs).filter fun x => s₂.rem x = d + s.timerTickUnsynch :=
        List.filter_congr fun x hx => by simp [hleft x hx hd]
      have e₂ : xs.filter (fun x => s.left x = d) =
          xs.filter fun x => s₂.rem x = d + s.timerTickUnsynch := by
        refine List.filter_congr fun x hx => ?_
        have hl' := hleft x ((hmem x).mpr (.inr hx)) hd
        have hsx : (s₂.setLinks l).left x = s.left x := by
          have : (s₂.setLinks l).left x = s₂.rem x - s.timerTickUnsynch := rfl
          rw [this, hxrem x hx]
          rfl
        rw [hsx] at hl'
        simp [hl']
      rw [e₁, e₂, filter_insertTimer hsort, hremt]
      simp
    · have hd0 : d = 0 := by omega
      subst hd0
      have hnone : ∀ x ∈ insertTimer s₂.rem t xs, (s₂.setLinks l).left x ≠ 0 := by
        intro x hx
        have hl' : (s₂.setLinks l).left x = s₂.rem x - s.timerTickUnsynch := rfl
        rcases hcases x hx with rfl | ⟨hx, hxt⟩
        · rw [hl', hremt]; omega
        · have := h.above x hx
          rw [hl', hxrem x hx]; omega
      have hnone' : ∀ x ∈ xs, s.left x ≠ 0 := fun x hx => Nat.ne_of_gt (h.left_pos hx)
      rw [List.filter_eq_nil_iff.mpr (by simpa using hnone),
        List.filter_eq_nil_iff.mpr (by simpa using hnone'), if_neg (by omega)]
      rfl

omit [DecidableEq τ] in
theorem ticksAdd_unsynch {s : Timers τ π} {xs : List τ} (h : Armed s xs) :
    ticksAdd s.timerTickUnsynch 1 = s.timerTickUnsynch + 1 := by
  have := h.unsynch_le
  rw [ticksAdd, Nat.mod_eq_of_lt]
  simp only [ticksMod, osTimerUnsynchMax] at *
  omega

omit [DecidableEq τ] in
theorem Armed.pending {s : Timers τ π} {xs : List τ} (h : Armed s xs) : Pending s.counted xs := by
  have hu : s.counted.timerTickUnsynch = s.timerTickUnsynch + 1 := ticksAdd_unsynch h
  refine ⟨h.ring, h.sorted, by omega, fun t ht => ?_, h.rem_lt, h.reload_lt, h.mem_of_rem, h.magic⟩
  rw [hu]
  exact h.above t ht

/-- `os_tick` looks at the head of the list to decide whether to start a pass. -/
theorem osTickTimers_cons {s : Timers τ π} {x : τ} {xs : List τ} (h : Armed s (x :: xs))
    (clbck : τ → Timers τ π → Outcome (Timers τ π)) (n : ℕ) :
    osTickTimers clbck n s =
      if s.rem x ≤ s.timerTickUnsynch + 1 ∨ osTimerUnsynchMax < s.timerTickUnsynch + 1 then
        timerTrigger clbck n s.counted
      else .ok s.counted := by
  have hnext : s.links.next .timerList = .timer x := h.ring.next_head
  have hpeek : listPeekfirst .timerList s.links = some (.timer x) := by
    rw [listPeekfirst, hnext, if_neg (by simp)]
  simp only [osTickTimers, HasTimers.timers, HasTimers.setTimers, Timers.record, hpeek,
    Timers.rem, ticksAdd_unsynch h]
  have hc : s.counted = { s with
      ticksCnt := ticksAdd s.ticksCnt 1
      timerTickUnsynch := s.timerTickUnsynch + 1
      history := .tick :: s.history } := by
    simp only [Timers.counted, ticksAdd_unsynch h]
  rw [hc]
  rfl

theorem osTickTimers_nil {s : Timers τ π} (h : Armed s [])
    (clbck : τ → Timers τ π → Outcome (Timers τ π)) (n : ℕ) :
    osTickTimers clbck n s = .ok s.countedIdle := by
  have hnext : s.links.next .timerList = .timerList := h.ring.next_head
  have hpeek : listPeekfirst .timerList s.links = none := by simp [listPeekfirst, hnext]
  simp only [osTickTimers, HasTimers.timers, HasTimers.setTimers, Timers.record, hpeek]
  rfl

omit [DecidableEq τ] in
/-- A tick that does not start a pass: nothing is due. -/
theorem Armed.counted {s : Timers τ π} {x : τ} {xs : List τ} (h : Armed s (x :: xs))
    (hq : ¬(s.rem x ≤ s.timerTickUnsynch + 1 ∨ osTimerUnsynchMax < s.timerTickUnsynch + 1)) :
    Armed s.counted (x :: xs) := by
  have hu : s.counted.timerTickUnsynch = s.timerTickUnsynch + 1 := ticksAdd_unsynch h
  rw [not_or] at hq
  refine ⟨h.ring, h.sorted, fun t ht => ?_, h.rem_lt, h.reload_lt, h.mem_of_rem, h.magic, ?_,
    fun e => by simp at e⟩
  · have hx : s.rem x ≤ s.rem t := by
      rcases List.mem_cons.mp ht with rfl | ht
      · exact le_rfl
      · exact (List.pairwise_cons.mp h.sorted).1 t ht
    rw [hu]
    have : s.counted.rem t = s.rem t := rfl
    omega
  · rw [hu]
    omega

theorem firings_harmless {due : τ → Bool} {q : List τ}
    (h : q.Pairwise fun a b => due b = true → due a = true) :
    firings (fun _ => []) due q = q.filter due := by
  induction q with
  | nil => simp [firings]
  | cons t p ih =>
    obtain ⟨ht, hp⟩ := List.pairwise_cons.mp h
    by_cases hd : due t = true
    · rw [firings_cons hd, List.filter_cons_of_pos hd, without_nil, ih hp]
    · have hd' : due t = false := by simpa using hd
      rw [firings_cons_neg hd', List.filter_cons_of_neg hd, eq_comm, List.filter_eq_nil_iff]
      exact fun x hx e => hd (ht x hx e)

theorem stoppedBy_harmless (due : τ → Bool) (q : List τ) :
    stoppedBy (fun _ => []) due q = [] := by
  simp [stoppedBy]

theorem survivors_harmless (due : τ → Bool) (q : List τ) :
    survivors (fun _ => []) due q = q.filter fun t => !due t := by
  rw [survivors, stoppedBy_harmless, without_nil]

theorem sparesNext_harmless (due : τ → Bool) (q : List τ) : SparesNext (fun _ => []) due q := by
  induction q with
  | nil => simp [SparesNext]
  | cons t p ih =>
    rw [SparesNext, without_nil]
    exact fun _ => ⟨by simp, ih⟩

/-- The effect of a tick whose callbacks leave the timers alone. -/
structure Ticked (s s' : Timers τ π) (xs ys : List τ) : Prop where
  armed : Armed s' ys
  order : ∀ d, 0 < d → ys.filter (fun t => s'.left t = d) =
    xs.filter (fun t => s.left t = d + 1) ++
      (xs.filter fun t => s.left t = 1).filter fun t => 0 < s.reload t ∧ s.reload t = d
  reload : ∀ t, s'.reload t = s.reload t
  magic : ∀ t, (s'.timers t).magic = (s.timers t).magic
  history : s'.history =
    ((xs.filter fun t => s.left t = 1).map .fire).reverse ++ .tick :: s.history

omit [DecidableEq τ] in
theorem Armed.ticked_quick {s : Timers τ π} {x : τ} {xs : List τ} (h : Armed s (x :: xs))
    (hq : ¬(s.rem x ≤ s.timerTickUnsynch + 1 ∨ osTimerUnsynchMax < s.timerTickUnsynch + 1)) :
    Ticked s s.counted (x :: xs) (x :: xs) := by
  have ha := h.counted hq
  have hu : s.counted.timerTickUnsynch = s.timerTickUnsynch + 1 := ticksAdd_unsynch h
  have hleft : ∀ t ∈ x :: xs, s.left t = s.counted.left t + 1 := by
    intro t ht
    have h₁ := ha.above t ht
    have h₂ : s.counted.rem t = s.rem t := rfl
    simp only [Timers.left]
    omega
  have hnone : (x :: xs).filter (fun t => s.left t = 1) = [] := by
    rw [List.filter_eq_nil_iff]
    intro t ht
    have h₁ := ha.left_pos ht
    have h₂ := hleft t ht
    simp only [decide_eq_true_eq]
    omega
  refine ⟨ha, fun d hd => ?_, fun _ => rfl, fun _ => rfl, ?_⟩
  · rw [hnone]
    simp only [List.filter_nil, List.append_nil]
    apply List.filter_congr
    intro t ht
    have := hleft t ht
    simp only [decide_eq_decide]
    omega
  · rw [hnone]
    rfl

theorem Armed.ticked_served {s s' : Timers τ π} {xs : List τ} (h : Armed s xs)
    (sv : Served (fun _ => []) s.counted s' xs) :
    Ticked s s' xs (servedList (fun _ => []) s.counted s' xs) := by
  have hp := h.pending
  have hu : s.counted.timerTickUnsynch = s.timerTickUnsynch + 1 := ticksAdd_unsynch h
  have hrem : ∀ t, s.counted.rem t = s.rem t := fun _ => rfl
  have hstop := stoppedBy_harmless s.counted.due xs
  have harm : Armed s' (servedList (fun _ => []) s.counted s' xs) :=
    sv.armed hp (by simp) (by intro t _; rw [hstop]; simp)
  have hdue : ∀ t ∈ xs, (s.counted.due t = true ↔ s.left t = 1) := by
    intro t ht
    have := h.above t ht
    simp only [Timers.due, Timers.left, hu, hrem, decide_eq_true_eq]
    omega
  have hfire : firings (fun _ => []) s.counted.due xs = xs.filter fun t => s.left t = 1 := by
    rw [firings_harmless hp.due_first]
    apply List.filter_congr
    intro t ht
    have := hdue t ht
    cases hb : s.counted.due t <;> simp [hb] at this ⊢ <;> exact this
  have hleft' : ∀ t, s'.left t = s'.rem t := fun t => by simp [Timers.left, sv.unsynch]
  refine ⟨harm, fun d hd => ?_, fun t => ?_, fun t => ?_, ?_⟩
  · have hsort : (survivors (fun _ => []) s.counted.due xs).Pairwise
        fun a b => s'.rem a ≤ s'.rem b := by
      have hsub : (survivors (fun _ => []) s.counted.due xs).Sublist xs :=
        List.Sublist.trans List.filter_sublist List.filter_sublist
      refine (h.sorted.sublist hsub).imp_of_mem fun {a b} ha hb hab => ?_
      rw [sv.rem_survivor a ha, sv.rem_survivor b hb, hrem, hrem]
      omega
    have e₀ : (servedList (fun _ => []) s.counted s' xs).filter (fun t => s'.left t = d) =
        (servedList (fun _ => []) s.counted s' xs).filter fun t => s'.rem t = d :=
      List.filter_congr fun t _ => by rw [hleft' t]
    rw [e₀, servedList, filter_insertTimers hsort]
    congr 1
    · rw [survivors_harmless, List.filter_filter]
      apply List.filter_congr
      intro t ht
      have hd' := hdue t ht
      have ha := h.above t ht
      by_cases hdt : s.counted.due t = true
      · have := hd'.mp hdt
        simp only [hdt, Bool.not_true, Bool.and_false]
        rw [eq_comm, decide_eq_false_iff_not]
        omega
      · have hf : s.counted.due t = false := by simpa using hdt
        have hsv : t ∈ survivors (fun _ => []) s.counted.due xs := by
          rw [survivors_harmless]
          simp [ht, hf]
        rw [sv.rem_survivor t hsv, hu, hrem]
        have hiff : s.rem t - (s.timerTickUnsynch + 1) = d ↔
            s.rem t - s.timerTickUnsynch = d + 1 := by
          have hlt : ¬ s.left t = 1 := fun he => hdt (hd'.mpr he)
          simp only [Timers.left] at hlt
          omega
        rw [Bool.eq_iff_iff]
        simp only [hf, Bool.not_false, Bool.and_true, decide_eq_true_iff, hiff, Timers.left]
        exact decide_eq_true_iff.symm
    · rw [rearmed, hfire, List.filter_filter]
      apply List.filter_congr
      intro t ht
      have hx : t ∈ xs := (List.mem_filter.mp ht).1
      have hreload : s.counted.reload t = s.reload t := rfl
      by_cases hpos : 0 < s.reload t
      · have hre : t ∈ rearmed (fun _ => []) s.counted xs := by
          rw [rearmed, hfire]
          exact List.mem_filter.mpr ⟨ht, decide_eq_true hpos⟩
        rw [sv.rem_rearmed t hre, hreload]
        simp [hpos]
      · simp [hpos, hreload]
  · rw [sv.reload t, hstop]
    simp
    rfl
  · rw [sv.magic t, hstop]
    simp
    rfl
  · rw [sv.history, hfire]
    have hmap : (xs.filter fun t => s.left t = 1).flatMap
        (fun t => TimerEvent.fire t :: ([] : List τ).map .destroy) =
        (xs.filter fun t => s.left t = 1).map .fire :=
      List.map_eq_flatMap.symm
    rw [hmap]
    rfl

/-- `os_tick` returns and lowers every timer by one tick. -/
theorem Armed.tick {s : Timers τ π} {xs : List τ} (h : Armed s xs) :
    ∃ s' ys, Settles (fun n => osTickTimers (fun _ => .ok) n s) (.ok s') ∧ Ticked s s' xs ys := by
  cases xs with
  | nil =>
    refine ⟨s.countedIdle, [], ?_, ?_⟩
    · simp only [osTickTimers_nil h]
      exact settles_const _
    · exact ⟨⟨h.ring, by simp, by simp, by simp, by simp, h.mem_of_rem, by simp, h.unsynch_le,
        h.unsynch_nil⟩, by simp, fun _ => rfl, fun _ => rfl, rfl⟩
  | cons x xs =>
    by_cases hq : s.rem x ≤ s.timerTickUnsynch + 1 ∨ osTimerUnsynchMax < s.timerTickUnsynch + 1
    · obtain ⟨s', hset, sv⟩ := timerTrigger_settles (D := fun _ => []) h.pending (by simp)
        (sparesNext_harmless _ _)
      refine ⟨s', _, hset.congr fun n => ?_, h.ticked_served sv⟩
      rw [osTickTimers_cons h, if_pos hq]
      rfl
    · refine ⟨s.counted, x :: xs, ?_, h.ticked_quick hq⟩
      simp only [osTickTimers_cons h, if_neg hq]
      exact settles_const _

end RadOs
