import RadOs.Timer.Stopping

/-! # Creating a timer in a callback

While `timer_trigger` runs, the timers in front of its position have been
lowered and those behind it have not, and the counter still holds the old
value. A timer created now gets the counter added to its timeout, so it is on
time only if the loop still comes to it, or if destroying it first has emptied
the list and reset the counter.
-/

namespace RadOs
open LinkedRing Budget Runs

variable {τ π : Type} [DecidableEq τ]

/-- The state after the timers `as` at the front of the list have fired. -/
def fireAll (as : List τ) (s : Timers τ π) : Timers τ π :=
  as.foldl (fun s t => requeue t (expire t s)) s

/-- The loop on expired timers at the front of the list whose callbacks do nothing. -/
structure FiredAll (s s' : Timers τ π) (as q rs : List τ) : Prop where
  linked : Linked s' q (rs ++ as.filter fun t => 0 < s.reload t)
  other : ∀ t, t ∉ as → s'.timers t = s.timers t
  rem : ∀ t ∈ as, s'.rem t = 0
  reload : ∀ t, s'.reload t = s.reload t
  magic : ∀ t, (s'.timers t).magic = (s.timers t).magic
  unsynch : s'.timerTickUnsynch = s.timerTickUnsynch
  history : s'.history = (as.map TimerEvent.fire).reverse ++ s.history

theorem firedAll {s : Timers τ π} {as q rs : List τ} (h : Linked s (as ++ q) rs) :
    FiredAll s (fireAll as s) as q rs := by
  induction as generalizing s rs with
  | nil =>
    exact ⟨by simpa [fireAll] using h, by simp [fireAll], by simp, fun _ => rfl, fun _ => rfl, rfl,
      rfl⟩
  | cons t as ih =>
    have hnd := List.nodup_cons.mp h.rings.nodup
    have htr : t ∉ rs := h.rings.disjoint t (by simp)
    have h₁ := h.expire.requeue hnd.1 htr
    rw [expire_reload] at h₁
    have f := ih h₁
    have hta : t ∉ as := fun e => hnd.1 (by simp [e])
    have hrel : ∀ x, (requeue t (expire t s)).reload x = s.reload x := fun x => by
      have := expire_reload t x s
      simpa [Timers.reload] using this
    have hcons : fireAll (t :: as) s = fireAll as (requeue t (expire t s)) := rfl
    rw [hcons]
    refine ⟨?_, fun x hx => ?_, fun x hx => ?_, fun x => ?_, fun x => ?_, ?_, ?_⟩
    · have hl := f.linked
      simp only [hrel, List.append_assoc] at hl
      by_cases hp : 0 < s.reload t
      · rw [List.filter_cons_of_pos (by simpa using hp)]
        simpa [hp] using hl
      · rw [List.filter_cons_of_neg (by simpa using hp)]
        simpa [hp] using hl
    · simp only [List.mem_cons, not_or] at hx
      exact (f.other x hx.2).trans (by rw [requeue_timers, expire_timers_of_ne s hx.1])
    · by_cases hxa : x ∈ as
      · exact f.rem x hxa
      · have hxt : x = t := by simpa [hxa] using hx
        have hz : (requeue t (expire t s)).rem t = 0 := by
          have := expire_rem_self t s
          simpa [Timers.rem] using this
        have ho : (fireAll as (requeue t (expire t s))).rem x = (requeue t (expire t s)).rem x := by
          simp only [Timers.rem, f.other x hxa]
        rw [hxt] at ho ⊢
        exact ho.trans hz
    · exact (f.reload x).trans (hrel x)
    · exact (f.magic x).trans (by rw [requeue_timers, expire_magic])
    · exact f.unsynch.trans (requeue_unsynch t _)
    · have hh := f.history
      rw [requeue_history] at hh
      rw [hh]
      simp [expire, Timers.record, Timers.setLinks, Timers.setRem, Timers.setTimer]

theorem triggerLoop_fireAll {clbck : τ → Timers τ π → Outcome (Timers τ π)} {s : Timers τ π}
    {as q rs : List τ} (h : Linked s (as ++ q) rs)
    (hz : ∀ t ∈ as, ticksSub (s.rem t) s.timerTickUnsynch = 0)
    (hc : ∀ t ∈ as, ∀ x, clbck t x = .ok x) (n : ℕ) :
    triggerLoop clbck (n + as.length) (firstNode ((as ++ q).map .timer) .timerList) s =
      triggerLoop clbck n (firstNode (q.map .timer) .timerList) (fireAll as s) := by
  induction as generalizing s rs with
  | nil => rfl
  | cons t as ih =>
    have hnd := List.nodup_cons.mp h.rings.nodup
    have htr : t ∉ rs := h.rings.disjoint t (by simp)
    have h₁ := h.expire.requeue hnd.1 htr
    have hrest := ih h₁ (fun x hx => by
      have hxt : x ≠ t := fun e => hnd.1 (by simp [← e, hx])
      have hrem : (requeue t (expire t s)).rem x = s.rem x := by
        simp only [Timers.rem, requeue_timers, expire_timers_of_ne s hxt]
      rw [hrem, requeue_unsynch]
      exact hz x (by simp [hx])) fun x hx => hc x (by simp [hx])
    have hstep := triggerLoop_expired clbck h.rings
      (hz t (by simp)) (hc t (by simp) _) (n + as.length)
    have hcons : fireAll (t :: as) s = fireAll as (requeue t (expire t s)) := rfl
    rw [hcons, ← hrest]
    refine hstep.trans ?_
    rw [requeue]
    split <;> rfl

/-- The callback of `x` creates the timer `t`, after destroying it if `first` is set. The other
callbacks do nothing. -/
def createClbck (x t : τ) (proc : π) (timeout reload : ℕ) (first : Bool) (n : ℕ) (y : τ)
    (s : Timers τ π) : Outcome (Timers τ π) :=
  if y = x then do
    let s ← if first then osTimerDestroy t s else .ok s
    osTimerCreate n t proc timeout reload s
  else .ok s

/-- The counter that `os_timer_create` adds inside the callback. -/
def addedTicks (first : Bool) (p : List τ) (u : ℕ) : ℕ := if first = true ∧ p = [] then 0 else u

/-- The timers of a list without `t`. -/
def besides (t : τ) (p : List τ) : List τ := p.filter (· ≠ t)

theorem mem_besides {t y : τ} {p : List τ} : y ∈ besides t p ↔ y ∈ p ∧ y ≠ t := by
  simp [besides]

theorem besides_subset {t : τ} {p : List τ} : besides t p ⊆ p := fun _ h => (mem_besides.mp h).1

theorem besides_of_notMem {t : τ} {p : List τ} (h : t ∉ p) : besides t p = p :=
  List.filter_eq_self.mpr fun _ hy => decide_eq_true fun e => h (e ▸ hy)

theorem besides_cons {t y : τ} {p : List τ} (h : y ≠ t) : besides t (y :: p) = y :: besides t p :=
  List.filter_cons_of_pos (by simpa using h)

/-- The next timer stays where it is. -/
theorem head?_besides {t : τ} {p : List τ} (h : t ∉ p.head?) : (besides t p).head? = p.head? := by
  cases p with
  | nil => rfl
  | cons y p => rw [besides_cons fun e => h (by simp [e])]; rfl

theorem besides_eq_nil {t : τ} {p : List τ} (h : t ∉ p.head?) : besides t p = [] ↔ p = [] := by
  rw [← List.head?_eq_none_iff, head?_besides h, List.head?_eq_none_iff]

theorem firstNode_besides {t : τ} {p : List τ} (h : t ∉ p.head?) (b : TimerNode τ) :
    firstNode ((besides t p).map .timer) b = firstNode (p.map .timer) b := by
  cases p with
  | nil => rfl
  | cons y p => rw [besides_cons fun e => h (by simp [e])]; rfl

theorem addedTicks_besides {t : τ} {p : List τ} (h : t ∉ p.head?) (first : Bool) (u : ℕ) :
    addedTicks first (besides t p) u = addedTicks first p u := by
  simp only [addedTicks, besides_eq_nil h]

/-- The effect of the callback on the lists `p` and `rs`. -/
structure Created (s s' : Timers τ π) (t : τ) (timeout reload added : ℕ) (first : Bool)
    (p rs : List τ) : Prop where
  linked : Linked s' (insertTimer s'.rem t p) rs
  rem : s'.rem t = timeout + added
  reload_self : s'.reload t = reload
  magic : (s'.timers t).magic = .magic1
  other : ∀ x, x ≠ t → s'.timers x = s.timers x
  unsynch : s'.timerTickUnsynch = added
  history : s'.history = .create t timeout reload ::
    ((if first then [.destroy t] else []) ++ s.history)

theorem Linked.created {s : Timers τ π} {p rs : List τ} (h : Linked s p rs) {t : τ} (proc : π)
    {timeout : ℕ} (reload : ℕ) (h₁ : 0 < timeout) (h₂ : timeout < osTimerTicksremMax) (htp : t ∉ p)
    (htr : t ∉ rs) (hm : (s.timers t).magic ≠ .magic1)
    (hu : s.timerTickUnsynch ≤ osTimerUnsynchMax + 1) :
    ∃ s', Settles (fun n => osTimerCreate n t proc timeout reload s) (.ok s') ∧
      Created s s' t timeout reload s.timerTickUnsynch false p rs := by
  let s₁ : Timers τ π := s.record (.create t timeout reload)
  let s₂ : Timers τ π := (s₁.setLinks (listInit (.timer t) s₁.links)).setTimer t
    { ticksRem := ticksAdd timeout s.timerTickUnsynch, ticksReload := reload, proc := proc,
      magic := .magic1 }
  have hrem : ticksAdd timeout s.timerTickUnsynch = timeout + s.timerTickUnsynch := by
    rw [ticksAdd, Nat.mod_eq_of_lt]
    simp only [ticksMod, osTimerTicksremMax, osTicksMax, osTimerUnsynchMax] at *
    omega
  have hremt : s₂.rem t = timeout + s.timerTickUnsynch := by
    simp [s₂, Timers.rem, Timers.setTimer, hrem]
  have hsame : ∀ x, x ≠ t → s₂.timers x = s.timers x := by
    intro x hx
    simp [s₂, s₁, Timers.setTimer, Timers.setLinks, Timers.record, hx]
  have r₂ : Rings s₂.links p rs := h.rings.initNode htp htr
  obtain ⟨l, hset, hl⟩ := timerAdd_settles r₂ htp htr
  refine ⟨s₂.setLinks l, ?_, ⟨hl, fun x hx hpos => ?_, fun x hx => ?_, fun x hx => ?_⟩, hremt, ?_,
    ?_, hsame, rfl, rfl⟩
  · refine hset.congr fun n => ?_
    rw [osTimerCreate, osAssert_pos h₁, osAssert_pos h₂, osAssert_pos hm]
    rfl
  · rw [mem_insertTimer]
    by_cases hxt : x = t
    · exact .inl hxt
    · have hx' : s.Made x := by simpa [Timers.Made, Timers.setLinks, hsame x hxt] using hx
      have hp' : 0 < s.rem x := by simpa [Timers.rem, Timers.setLinks, hsame x hxt] using hpos
      exact .inr (h.mem_of_rem x hx' hp')
  · by_cases hxt : x = t
    · subst hxt
      simp [Timers.Made, s₂, Timers.setLinks, Timers.setTimer]
    · have hxp : x ∈ p := by simpa [hxt] using mem_insertTimer.mp hx
      simpa [Timers.Made, Timers.setLinks, hsame x hxt] using h.made x hxp
  · by_cases hxt : x = t
    · subst hxt
      exact hremt ▸ Nat.add_pos_left h₁ _
    · have hxp : x ∈ p := by simpa [hxt] using mem_insertTimer.mp hx
      simpa [Timers.rem, Timers.setLinks, hsame x hxt] using h.rem_pos x hxp
  · simp [s₂, Timers.reload, Timers.setTimer, Timers.setLinks]
  · simp [s₂, Timers.setTimer, Timers.setLinks]

theorem createClbck_settles {s : Timers τ π} {p rs : List τ} (h : Linked s p rs) {t : τ} (proc : π)
    {timeout : ℕ} (reload : ℕ) {first : Bool} (h₁ : 0 < timeout) (h₂ : timeout < osTimerTicksremMax)
    (htp : first = false → t ∉ p) (htr : t ∉ rs)
    (hm : if first then s.Made t else (s.timers t).magic ≠ .magic1)
    (hu : s.timerTickUnsynch ≤ osTimerUnsynchMax + 1) (x : τ) :
    ∃ s', Settles (fun n => createClbck x t proc timeout reload first n x s) (.ok s') ∧
      Created s s' t timeout reload (addedTicks first (besides t p) s.timerTickUnsynch) first
        (besides t p) rs := by
  have htq : t ∉ besides t p := fun e => (mem_besides.mp e).2 rfl
  cases first with
  | false =>
    obtain ⟨s', hset, hc⟩ := h.created proc reload h₁ h₂ (htp rfl) htr hm hu
    rw [besides_of_notMem (htp rfl)]
    refine ⟨s', hset.congr fun n => ?_, by simpa [addedTicks] using hc⟩
    simp only [createClbck, if_true, Bool.false_eq_true, if_false]
    rfl
  | true =>
    have hmade : s.Made t := hm
    have hd : Linked (destroyed t s) (besides t p) rs := h.destroyed hmade
    have hun : (destroyed t s).timerTickUnsynch =
        addedTicks true (besides t p) s.timerTickUnsynch := by
      rw [destroyed_unsynch, addedTicks]
      by_cases hq : besides t p = []
      · rw [if_pos ((listIsEmpty_iff hd.rings.active).mpr (by simp [hq])), if_pos ⟨rfl, hq⟩]
      · rw [if_neg fun e => hq (by simpa using (listIsEmpty_iff hd.rings.active).mp e),
          if_neg fun e => hq e.2]
    obtain ⟨s', hset, hc⟩ := hd.created proc reload h₁ h₂ htq htr
      (by rw [(destroyed_timers_self t s).2]; decide) (by
        rw [hun, addedTicks]
        split
        · exact Nat.zero_le _
        · exact hu)
    refine ⟨s', hset.congr fun n => ?_, hc.linked, ?_, hc.reload_self, hc.magic, fun y hy => ?_,
      ?_, ?_⟩
    · simp only [createClbck, if_true, osTimerDestroy_eq hmade]
      rfl
    · rw [hc.rem, hun]
    · rw [hc.other y hy, destroyed_timers_of_ne s hy]
    · rw [hc.unsynch, hun]
    · rw [hc.history, destroyed_history]
      rfl

omit [DecidableEq τ] in
/-- The timers with the fewest ticks left stand in front. -/
theorem split_at_least {f : τ → ℕ} {u : ℕ} {p : List τ} (hs : p.Pairwise fun a b => f a ≤ f b)
    (hu : ∀ x ∈ p, u ≤ f x) : p = (p.filter fun x => f x = u) ++ p.filter fun x => u < f x := by
  induction p with
  | nil => rfl
  | cons x p ih =>
    obtain ⟨hx, hp⟩ := List.pairwise_cons.mp hs
    have hux := hu x (by simp)
    by_cases he : f x = u
    · rw [List.filter_cons_of_pos (by simpa using he),
        List.filter_cons_of_neg (by simp [he]), List.cons_append,
        ← ih hp fun y hy => hu y (by simp [hy])]
    · have hnil : (x :: p).filter (fun x => f x = u) = [] := by
        refine List.filter_eq_nil_iff.mpr fun y hy => ?_
        have : f x ≤ f y := by
          rcases List.mem_cons.mp hy with rfl | hy
          · exact le_rfl
          · exact hx y hy
        simp only [decide_eq_true_eq]
        omega
      have hall : (x :: p).filter (fun x => u < f x) = x :: p := by
        refine List.filter_eq_self.mpr fun y hy => ?_
        have : f x ≤ f y := by
          rcases List.mem_cons.mp hy with rfl | hy
          · exact le_rfl
          · exact hx y hy
        simp only [decide_eq_true_eq]
        omega
      rw [hnil, hall, List.nil_append]

omit [DecidableEq τ] in
theorem insertTimer_append {f : τ → ℕ} {t : τ} {as bs : List τ} (h : ∀ x ∈ as, f x ≤ f t) :
    insertTimer f t (as ++ bs) = as ++ insertTimer f t bs := by
  induction as with
  | nil => rfl
  | cons x as ih =>
    have hx := h x (by simp)
    rw [List.cons_append, insertTimer, if_neg (by omega), ih fun y hy => h y (by simp [hy])]
    rfl

/-- The loop, standing in front of `p`, still comes to a timer put among them. -/
def Met (rem : τ → ℕ) (t : τ) (p : List τ) : Prop := ∃ y ∈ p.head?, rem y ≤ rem t

/-- The state after the first loop has gone through `p`, where `t` was put into the list while the
loop stood in front of `p`. -/
structure Finished (s s' : Timers τ π) (t : τ) (u : ℕ) (p rs : List τ) : Prop where
  rings : Rings s'.links (insertTimer s.rem t (p.filter fun x => u < s.rem x))
    (rs ++ (p.filter fun x => s.rem x = u).filter fun x => 0 < s.reload x)
  rem : ∀ x ∈ p, s'.rem x = s.rem x - u
  rem_met : Met s.rem t p → s'.rem t = s.rem t - u
  rem_missed : ¬Met s.rem t p → s'.rem t = s.rem t
  other : ∀ x, x ∉ p → x ≠ t → s'.timers x = s.timers x
  reload : ∀ x, s'.reload x = s.reload x
  magic : ∀ x, (s'.timers x).magic = (s.timers x).magic
  history : s'.history =
    ((p.filter fun x => s.rem x = u).map TimerEvent.fire).reverse ++ s.history

theorem Timers.reduce_timers_of_notMem {s : Timers τ π} {p : List τ} {u : ℕ} {x : τ} (h : x ∉ p) :
    (s.reduce p u).timers x = s.timers x := by
  simp [Timers.reduce, h]

theorem Timers.reduce_rem {s : Timers τ π} {p : List τ} {u : ℕ} {x : τ} (h : x ∈ p) :
    (s.reduce p u).rem x = s.rem x - u := by
  simp [Timers.reduce, Timers.rem, h]

@[simp] theorem Timers.reduce_reload (s : Timers τ π) (p : List τ) (u : ℕ) (x : τ) :
    (s.reduce p u).reload x = s.reload x := by
  by_cases h : x ∈ p <;> simp [Timers.reduce, Timers.reload, h]

@[simp] theorem Timers.reduce_magic (s : Timers τ π) (p : List τ) (u : ℕ) (x : τ) :
    ((s.reduce p u).timers x).magic = (s.timers x).magic := by
  by_cases h : x ∈ p <;> simp [Timers.reduce, h]

/-- The new timer stands in front of the position of the loop, which therefore misses it. -/
theorem finished_missed {clbck : ℕ → τ → Timers τ π → Outcome (Timers τ π)} {s : Timers τ π} {t : τ}
    {u : ℕ} {p rs : List τ} (h : Linked s (insertTimer s.rem t p) rs) (htp : t ∉ p)
    (hsort : p.Pairwise fun a b => s.rem a ≤ s.rem b) (hu : p ≠ [] → s.timerTickUnsynch = u)
    (hbound : ∀ x ∈ p, s.rem x < ticksMod) (ht : p ≠ [] → u < s.rem t) (hm : ¬Met s.rem t p) :
    ∃ s', Settles (fun n => triggerLoop (clbck n) n (firstNode (p.map .timer) .timerList) s)
      (.ok s') ∧ Finished s s' t u p rs := by
  have hlt : ∀ x ∈ p, s.rem t < s.rem x := by
    intro x hx
    cases p with
    | nil => simp at hx
    | cons y p =>
      have hy : s.rem t < s.rem y := by
        by_contra hle
        exact hm ⟨y, by simp, by omega⟩
      rcases List.mem_cons.mp hx with rfl | hx
      · exact hy
      · exact Nat.lt_of_lt_of_le hy ((List.pairwise_cons.mp hsort).1 x hx)
  have hgt : ∀ x ∈ p, u < s.rem x := by
    intro x hx
    have hne : p ≠ [] := fun e => by simp [e] at hx
    exact (ht hne).trans (hlt x hx)
  have hins : insertTimer s.rem t p = t :: p := by
    cases p with
    | nil => rfl
    | cons y p => rw [insertTimer, if_pos (hlt y (by simp))]
  have hall : p.filter (fun x => u < s.rem x) = p :=
    List.filter_eq_self.mpr fun x hx => decide_eq_true (hgt x hx)
  have hnone : p.filter (fun x => s.rem x = u) = [] :=
    List.filter_eq_nil_iff.mpr fun x hx => by
      have := hgt x hx
      simp only [decide_eq_true_eq]
      omega
  have hr : Rings s.links ([t] ++ p) rs := by
    rw [List.singleton_append, ← hins]
    exact h.rings
  refine ⟨s.reduce p u, ?_, ?_, fun x hx => Timers.reduce_rem hx, fun e => absurd e hm,
    fun _ => ?_, fun x hx _ => Timers.reduce_timers_of_notMem hx, by simp, by simp, ?_⟩
  · exact settles_of_add fun n =>
      triggerLoop_unexpired (clbck _) hr u hu (fun x hx => ⟨hgt x hx, hbound x hx⟩) n
  · rw [hall, hnone, hins, List.filter_nil, List.append_nil]
    exact hr
  · simp only [Timers.rem, Timers.reduce_timers_of_notMem htp]
  · rw [hnone]
    rfl

/-- The new timer stands behind the position of the loop, which comes to it. -/
theorem finished_met {clbck : ℕ → τ → Timers τ π → Outcome (Timers τ π)} {s : Timers τ π} {t : τ}
    {u : ℕ} {p rs : List τ} (h : Linked s (insertTimer s.rem t p) rs) (htp : t ∉ p)
    (hsort : p.Pairwise fun a b => s.rem a ≤ s.rem b) (hu : s.timerTickUnsynch = u)
    (hbound : ∀ x ∈ p, u ≤ s.rem x ∧ s.rem x < ticksMod) (ht : u < s.rem t)
    (htm : s.rem t < ticksMod) (hc : ∀ n, ∀ x ∈ p, ∀ z, clbck n x z = .ok z)
    (hm : Met s.rem t p) :
    ∃ s', Settles (fun n => triggerLoop (clbck n) n (firstNode (p.map .timer) .timerList) s)
      (.ok s') ∧ Finished s s' t u p rs := by
  let E := p.filter fun x => s.rem x = u
  let Q := p.filter fun x => u < s.rem x
  have hp : p = E ++ Q := split_at_least hsort fun x hx => (hbound x hx).1
  have hE : ∀ x ∈ E, x ∈ p ∧ s.rem x = u := fun x hx => by simpa [E] using hx
  have hQ : ∀ x ∈ Q, x ∈ p ∧ u < s.rem x := fun x hx => by simpa [Q] using hx
  have hins : insertTimer s.rem t p = E ++ insertTimer s.rem t Q := by
    rw [hp]
    exact insertTimer_append fun x hx => by rw [(hE x hx).2]; omega
  have hfirst : firstNode (p.map TimerNode.timer) .timerList =
      firstNode ((insertTimer s.rem t p).map TimerNode.timer) .timerList := by
    obtain ⟨y, hy, hle⟩ := hm
    cases p with
    | nil => simp at hy
    | cons z p =>
      simp only [List.head?_cons, Option.mem_def, Option.some.injEq] at hy
      rw [insertTimer, if_neg (by rw [hy]; omega)]
      rfl
  rw [hins] at h hfirst
  have hL : ∀ x ∈ insertTimer s.rem t Q, x = t ∨ x ∈ Q := fun x hx => mem_insertTimer.mp hx
  have hdisj : ∀ x ∈ insertTimer s.rem t Q, x ∉ E := by
    intro x hx he
    have hnd := List.nodup_append.mp h.rings.nodup
    exact hnd.2.2 x he x hx rfl
  have f := firedAll h
  have hsame : ∀ x ∈ insertTimer s.rem t Q, (fireAll E s).rem x = s.rem x := fun x hx => by
    simp only [Timers.rem, f.other x (hdisj x hx)]
  have htE : t ∉ E := fun e => htp (hE t e).1
  refine ⟨(fireAll E s).reduce (insertTimer s.rem t Q) u,
    settles_of_add (k := (insertTimer s.rem t Q).length + 1 + E.length) fun n => ?_, ?_,
    fun x hx => ?_, fun _ => ?_, fun e => absurd hm e, fun x hx hxt => ?_, fun x => ?_, fun x => ?_,
    ?_⟩
  · rw [hfirst, ← Nat.add_assoc, triggerLoop_fireAll h
      (fun x hx => by rw [(hE x hx).2, hu, ticksSub_of_le le_rfl (by omega), Nat.sub_self])
      (fun x hx => hc _ x (hE x hx).1)]
    refine triggerLoop_unexpired (a := []) _ f.linked.rings u (fun _ => f.unsynch.trans hu)
      (fun x hx => ?_) n
    rw [hsame x hx]
    rcases hL x hx with rfl | hxQ
    · exact ⟨ht, htm⟩
    · exact ⟨(hQ x hxQ).2, (hbound x (hQ x hxQ).1).2⟩
  · exact f.linked.rings
  · rcases List.mem_append.mp (hp ▸ hx) with he | hq
    · have hnot : x ∉ insertTimer s.rem t Q := fun e => hdisj x e he
      have hz := f.rem x he
      simp only [Timers.rem, Timers.reduce_timers_of_notMem hnot] at hz ⊢
      have := (hE x he).2
      simp only [Timers.rem] at this
      omega
    · have hmem : x ∈ insertTimer s.rem t Q := mem_insertTimer.mpr (.inr hq)
      rw [Timers.reduce_rem hmem, hsame x hmem]
  · have hmem : t ∈ insertTimer s.rem t Q := mem_insertTimer.mpr (.inl rfl)
    rw [Timers.reduce_rem hmem, hsame t hmem]
  · have hnot : x ∉ insertTimer s.rem t Q := fun e =>
      (hL x e).elim hxt fun hq => hx (hQ x hq).1
    rw [Timers.reduce_timers_of_notMem hnot, f.other x fun e => hx (hE x e).1]
  · rw [Timers.reduce_reload, f.reload]
  · rw [Timers.reduce_magic, f.magic]
  · exact f.history

/-- In the tick that starts in `s` the callback of `x` may create the timer `t`, `as` being the
timers in front of `x` and `p` those behind it. If it destroys `t` before, `t` is neither the timer
that is next on the list nor an auto-reload timer that has expired in this tick. -/
structure CreateRequest (s : Timers τ π) (as p : List τ) (x t : τ) (timeout reload : ℕ)
    (first : Bool) : Prop where
  fires : s.left x = 1
  next : t ∉ p.head?
  expired : t ∈ as → s.reload t = 0
  magic : if first then s.Made t else (s.timers t).magic ≠ .magic1
  timeout_pos : 0 < timeout
  timeout_lt : timeout < osTimerTicksremMax
  reload_lt : reload < ticksMod

structure CallbackCreate (s : Timers τ π) (as p : List τ) (x t : τ) (timeout reload : ℕ)
    (first : Bool) : Prop extends CreateRequest s as p x t timeout reload first where
  armed : Armed s (as ++ x :: p)

/-- The counter added to the timeout is taken off again: by the loop, or because destroying the
timer has reset the counter before. -/
def Compensated (s : Timers τ π) (p : List τ) (timeout : ℕ) (first : Bool) : Prop :=
  (∃ y ∈ p.head?, s.rem y ≤ timeout + (s.timerTickUnsynch + 1)) ∨ first = true ∧ p = []

/-- What happens up to the end of the callback, latest first. -/
def createEvents (as : List τ) (x t : τ) (timeout reload : ℕ) (first : Bool) :
    List (TimerEvent τ) :=
  .create t timeout reload ::
    ((if first then [.destroy t] else []) ++ .fire x :: (as.map .fire).reverse)

/-- What the tick leaves behind, with `L` the timers still waiting and `R` those armed again. -/
structure CreateTicked (s s' : Timers τ π) (as p : List τ) (x t : τ) (timeout reload : ℕ)
    (first : Bool) (L R : List τ) : Prop where
  ring : Ring s'.links .timerList ((insertTimers s'.rem R L).map .timer)
  mem_kept : ∀ y, y ∈ L ↔ y = t ∨ y ∈ besides t p ∧ s.timerTickUnsynch + 1 < s.rem y
  mem_rearmed : ∀ y, y ∈ R ↔
    (y ∈ as ∨ y = x ∧ t ≠ x ∨ y ∈ besides t p ∧ s.rem y = s.timerTickUnsynch + 1) ∧ 0 < s.reload y
  sorted : Compensated s p timeout first → L.Pairwise fun a b => s'.rem a ≤ s'.rem b
  rem_new : Compensated s p timeout first → s'.rem t = timeout
  rem_late : ¬Compensated s p timeout first → s'.rem t = timeout + (s.timerTickUnsynch + 1)
  rem_kept : ∀ y ∈ besides t p, s.timerTickUnsynch + 1 < s.rem y →
    s'.rem y = s.rem y - (s.timerTickUnsynch + 1)
  rem_rearmed : ∀ y ∈ R, s'.rem y = s.reload y
  rem_gone : ∀ y, y ∉ L → y ∉ R → y ∈ as ++ x :: p → s'.rem y = 0
  rem_other : ∀ y, y ≠ t → y ∉ as ++ x :: p → s'.rem y = s.rem y
  reload_new : s'.reload t = reload
  magic_new : (s'.timers t).magic = .magic1
  reload_other : ∀ y, y ≠ t → s'.reload y = s.reload y
  magic_other : ∀ y, y ≠ t → (s'.timers y).magic = (s.timers y).magic
  unsynch : s'.timerTickUnsynch = 0
  history : s'.history =
    (((besides t p).filter fun y => s.rem y = s.timerTickUnsynch + 1).map
      TimerEvent.fire).reverse ++
        (createEvents as x t timeout reload first ++ .tick :: s.history)

/-- What the callback leaves behind, with `rs` the timers on the temporary list after the test of
`ticks_reload`. -/
structure CalledBack (s s' : Timers τ π) (as p : List τ) (x t : τ) (timeout reload : ℕ)
    (first : Bool) (rs : List τ) : Prop where
  linked : Linked (requeue x s') (insertTimer s'.rem t (besides t p)) rs
  mem_rearmed : ∀ y, y ∈ rs ↔ (y ∈ as ∨ y = x ∧ t ≠ x) ∧ 0 < s.reload y
  rem_new : s'.rem t = timeout + addedTicks first p (s.timerTickUnsynch + 1)
  reload_new : s'.reload t = reload
  magic_new : (s'.timers t).magic = .magic1
  other : ∀ y, y ≠ t → y ∉ as → y ≠ x → s'.timers y = s.timers y
  reload_other : ∀ y, y ≠ t → s'.reload y = s.reload y
  magic_other : ∀ y, y ≠ t → (s'.timers y).magic = (s.timers y).magic
  rem_fired : ∀ y, y ≠ t → y ∈ as ∨ y = x → s'.rem y = 0
  unsynch : s'.timerTickUnsynch = addedTicks first p (s.timerTickUnsynch + 1)
  history : s'.history = createEvents as x t timeout reload first ++ .tick :: s.history

/-- The state in which the first loop of `timer_trigger` starts. -/
def Timers.passStart (s : Timers τ π) : Timers τ π :=
  s.counted.setLinks (listInit .listAutoreload s.counted.links)

namespace CallbackCreate
variable {s : Timers τ π} {as p : List τ} {x t : τ} {timeout reload : ℕ} {first : Bool}

omit [DecidableEq τ] in
theorem rem_fires (c : CallbackCreate s as p x t timeout reload first) :
    s.rem x = s.timerTickUnsynch + 1 := by
  have := c.fires
  have := c.armed.above x (by simp)
  simp only [Timers.left] at *
  omega

omit [DecidableEq τ] in
theorem rem_before (c : CallbackCreate s as p x t timeout reload first) {y : τ} (hy : y ∈ as) :
    s.rem y = s.timerTickUnsynch + 1 := by
  have hle : s.rem y ≤ s.rem x := (List.pairwise_append.mp c.armed.sorted).2.2 y hy x (by simp)
  have := c.armed.above y (by simp [hy])
  have := c.rem_fires
  omega

omit [DecidableEq τ] in
theorem notMem_x (c : CallbackCreate s as p x t timeout reload first) : x ∉ p ∧ x ∉ as := by
  have hnd := List.nodup_append.mp c.armed.nodup
  exact ⟨(List.nodup_cons.mp hnd.2.1).1, fun h => hnd.2.2 x h x (by simp) rfl⟩

omit [DecidableEq τ] in
theorem notMem_before (c : CallbackCreate s as p x t timeout reload first) {y : τ} (hy : y ∈ as) :
    y ∉ p := by
  have hnd := List.nodup_append.mp c.armed.nodup
  exact fun h => hnd.2.2 y hy y (by simp [h]) rfl

omit [DecidableEq τ] in
/-- A timer that is not destroyed first is on no list. -/
theorem notMem_of_not_first (c : CallbackCreate s as p x t timeout reload first)
    (hf : first = false) : t ∉ p := by
  have hm := c.magic
  rw [hf, if_neg Bool.false_ne_true] at hm
  exact fun h => hm (c.armed.magic t (by simp [h]))

theorem sorted_besides (c : CallbackCreate s as p x t timeout reload first) :
    (besides t p).Pairwise fun a b => s.rem a ≤ s.rem b :=
  (List.pairwise_cons.mp (List.pairwise_append.mp c.armed.sorted).2.1).2.filter _

/-- The state right before the callback of `x`, seen from the start of the tick. -/
theorem before_callback (c : CallbackCreate s as p x t timeout reload first) :
    FiredAll s.passStart (fireAll as s.passStart) as (x :: p) [] ∧
      Linked (fireAll as s.passStart) (x :: p) (as.filter fun y => 0 < s.reload y) ∧
      s.passStart.timerTickUnsynch = s.timerTickUnsynch + 1 := by
  have hl : Linked s.passStart (as ++ x :: p) [] := c.armed.pending.linked
  have f := firedAll hl
  exact ⟨f, f.linked, ticksAdd_unsynch c.armed⟩

theorem sub_before (c : CallbackCreate s as p x t timeout reload first) {y : τ} (hy : y ∈ as) :
    ticksSub (s.passStart.rem y) s.passStart.timerTickUnsynch = 0 := by
  have hr : s.passStart.rem y = s.timerTickUnsynch + 1 := c.rem_before hy
  have hlt : s.timerTickUnsynch + 1 < ticksMod := by
    rw [← c.rem_before hy]
    exact c.armed.rem_lt y (by simp [hy])
  rw [hr, c.before_callback.2.2, ticksSub_of_le le_rfl hlt, Nat.sub_self]

theorem sub_fires (c : CallbackCreate s as p x t timeout reload first) :
    ticksSub ((fireAll as s.passStart).rem x) (fireAll as s.passStart).timerTickUnsynch = 0 := by
  obtain ⟨f, -, hu₀⟩ := c.before_callback
  have hr : (fireAll as s.passStart).rem x = s.timerTickUnsynch + 1 := by
    simp only [Timers.rem, f.other x c.notMem_x.2]
    exact c.rem_fires
  have hlt : s.timerTickUnsynch + 1 < ticksMod := by
    rw [← c.rem_fires]
    exact c.armed.rem_lt x (by simp)
  rw [hr, f.unsynch, hu₀, ticksSub_of_le le_rfl hlt, Nat.sub_self]

/-- The loop up to the callback of `x`. -/
theorem loop_to_callback (c : CallbackCreate s as p x t timeout reload first) (proc : π) {k : ℕ}
    {s₂ : Timers τ π} (hc : createClbck x t proc timeout reload first k x
      (expire x (fireAll as s.passStart)) = .ok s₂) (m : ℕ) :
    triggerLoop (createClbck x t proc timeout reload first k) (m + 1 + as.length)
        (firstNode ((as ++ x :: p).map .timer) .timerList) s.passStart =
      triggerLoop (createClbck x t proc timeout reload first k) m
        (firstNode (p.map .timer) .timerList) (requeue x s₂) := by
  obtain ⟨-, hl₁, -⟩ := c.before_callback
  have hl₀ : Linked s.passStart (as ++ x :: p) [] := c.armed.pending.linked
  have hquiet : ∀ y ∈ as, ∀ z, createClbck x t proc timeout reload first k y z = .ok z :=
    fun y hy z => by
      have hyx : y ≠ x := fun e => c.notMem_x.2 (e ▸ hy)
      simp only [createClbck, if_neg hyx]
  rw [triggerLoop_fireAll hl₀ (fun y hy => c.sub_before hy) hquiet]
  refine (triggerLoop_expired _ hl₁.rings c.sub_fires hc m).trans ?_
  rw [requeue]
  split <;> rfl

/-- The effect of the callback alone. -/
theorem created (c : CallbackCreate s as p x t timeout reload first) (proc : π) :
    ∃ s₂, Settles (fun n => createClbck x t proc timeout reload first n x
        (expire x (fireAll as s.passStart))) (.ok s₂) ∧
      Created (expire x (fireAll as s.passStart)) s₂ t timeout reload
        (addedTicks first p (s.timerTickUnsynch + 1)) first (besides t p)
        (as.filter fun y => 0 < s.reload y) := by
  obtain ⟨f, hl, hu₀⟩ := c.before_callback
  have hu₁ : (expire x (fireAll as s.passStart)).timerTickUnsynch = s.timerTickUnsynch + 1 :=
    f.unsynch.trans hu₀
  have hmagic : ∀ y, ((expire x (fireAll as s.passStart)).timers y).magic =
      (s.timers y).magic := fun y => by
    rw [expire_magic, f.magic]
    rfl
  have htr : t ∉ as.filter fun y => 0 < s.reload y := by
    intro h
    obtain ⟨ha, hp⟩ := List.mem_filter.mp h
    have := c.expired ha
    simp [this] at hp
  have hm : if first then (expire x (fireAll as s.passStart)).Made t
      else ((expire x (fireAll as s.passStart)).timers t).magic ≠ .magic1 := by
    have hm := c.magic
    cases first
    · simp only [Bool.false_eq_true, if_false] at hm ⊢
      rwa [hmagic]
    · simp only [if_true, Timers.Made] at hm ⊢
      rwa [hmagic]
  have hle : (expire x (fireAll as s.passStart)).timerTickUnsynch ≤ osTimerUnsynchMax + 1 := by
    have := c.armed.unsynch_le
    omega
  have hset := createClbck_settles hl.expire proc reload c.timeout_pos c.timeout_lt
    c.notMem_of_not_first htr hm hle x
  rwa [hu₁, addedTicks_besides c.next] at hset

/-- The callback and the test of `ticks_reload` after it. -/
theorem callback (c : CallbackCreate s as p x t timeout reload first) (proc : π)
    (hself : t = x → reload = 0) :
    ∃ s₂ rs, Settles (fun n => createClbck x t proc timeout reload first n x
        (expire x (fireAll as s.passStart))) (.ok s₂) ∧
      CalledBack s s₂ as p x t timeout reload first rs := by
  obtain ⟨f, -, -⟩ := c.before_callback
  obtain ⟨s₂, hset, cr⟩ := c.created proc
  have hmagic : ∀ y, ((expire x (fireAll as s.passStart)).timers y).magic =
      (s.timers y).magic := fun y => by
    rw [expire_magic, f.magic]
    rfl
  have hrel₁ : ∀ y, (expire x (fireAll as s.passStart)).reload y = s.reload y := fun y => by
    rw [expire_reload, f.reload]
    rfl
  have hother : ∀ y, y ≠ t → y ∉ as → y ≠ x → s₂.timers y = s.timers y := fun y h₁ h₂ h₃ => by
    rw [cr.other y h₁, expire_timers_of_ne _ h₃, f.other y h₂]
    rfl
  have hrel₂ : ∀ y, y ≠ t → s₂.reload y = s.reload y := fun y h => by
    rw [← hrel₁ y]
    simp only [Timers.reload, cr.other y h]
  have hmagic₂ : ∀ y, y ≠ t → (s₂.timers y).magic = (s.timers y).magic := fun y h => by
    rw [cr.other y h, hmagic]
  have hzero : ∀ y, y ≠ t → y ∈ as ∨ y = x → s₂.rem y = 0 := fun y h hy => by
    have he : s₂.rem y = (expire x (fireAll as s.passStart)).rem y := by
      simp only [Timers.rem, cr.other y h]
    rw [he]
    by_cases hyx : y = x
    · rw [hyx, expire_rem_self]
    · have ha : y ∈ as := hy.resolve_right hyx
      have := f.rem y ha
      simpa only [Timers.rem, expire_timers_of_ne _ hyx] using this
  have hhist : s₂.history = createEvents as x t timeout reload first ++ .tick :: s.history := by
    have hx : (expire x (fireAll as s.passStart)).history =
        .fire x :: ((as.map TimerEvent.fire).reverse ++ .tick :: s.history) :=
      congrArg (TimerEvent.fire x :: ·) f.history
    rw [cr.history, hx]
    simp [createEvents]
  by_cases htx : t = x
  · have hre : requeue x s₂ = s₂ := by
      rw [requeue, if_neg]
      rw [← htx, cr.reload_self, hself htx]
      exact Nat.lt_irrefl 0
    refine ⟨s₂, as.filter fun y => 0 < s.reload y, hset, ?_, fun y => ?_, cr.rem, cr.reload_self,
      cr.magic, hother, hrel₂, hmagic₂, hzero, cr.unsynch, hhist⟩
    · rw [hre]
      exact cr.linked
    · simp [htx]
  · have hxr : x ∉ as.filter fun y => 0 < s.reload y := fun h =>
      c.notMem_x.2 (List.mem_filter.mp h).1
    have hxl : x ∉ insertTimer s₂.rem t (besides t p) := fun h =>
      (mem_insertTimer.mp h).elim (fun e => htx e.symm) fun h => c.notMem_x.1 (besides_subset h)
    refine ⟨s₂, _, hset, cr.linked.requeue hxl hxr, fun y => ?_, cr.rem, cr.reload_self,
      cr.magic, hother, hrel₂, hmagic₂, hzero, cr.unsynch, hhist⟩
    rw [hrel₂ x (Ne.symm htx)]
    by_cases hp : 0 < s.reload x
    · simp only [if_pos hp, List.mem_append, List.mem_filter, decide_eq_true_eq,
        List.mem_singleton]
      constructor
      · rintro (⟨ha, hy⟩ | rfl)
        · exact ⟨.inl ha, hy⟩
        · exact ⟨.inr ⟨rfl, htx⟩, hp⟩
      · rintro ⟨ha | ⟨rfl, -⟩, hy⟩
        · exact .inl ⟨ha, hy⟩
        · exact .inr rfl
    · simp only [if_neg hp, List.append_nil, List.mem_filter, decide_eq_true_eq]
      constructor
      · rintro ⟨ha, hy⟩
        exact ⟨.inl ha, hy⟩
      · rintro ⟨ha | ⟨rfl, -⟩, hy⟩
        · exact ⟨ha, hy⟩
        · exact absurd hy hp

/-- The timers behind the position of the loop. -/
theorem behind (c : CallbackCreate s as p x t timeout reload first) {s₂ : Timers τ π} {rs : List τ}
    (cb : CalledBack s s₂ as p x t timeout reload first rs) {y : τ} (hy : y ∈ besides t p) :
    (requeue x s₂).rem y = s.rem y ∧ (requeue x s₂).reload y = s.reload y := by
  obtain ⟨hyp, hyt⟩ := mem_besides.mp hy
  have h := cb.other y hyt (fun e => c.notMem_before e hyp) fun e => c.notMem_x.1 (e ▸ hyp)
  simp only [Timers.rem, Timers.reload, requeue_timers, h, and_self]

theorem met_iff {f : τ → ℕ} (hnext : t ∉ p.head?)
    (ht : f t = timeout + addedTicks first p (s.timerTickUnsynch + 1))
    (hp : ∀ y ∈ besides t p, f y = s.rem y) :
    Met f t (besides t p) ↔ ∃ y ∈ p.head?, s.rem y ≤ timeout + (s.timerTickUnsynch + 1) := by
  have hadd : ∀ y ∈ p.head?, f t = timeout + (s.timerTickUnsynch + 1) ∧ f y = s.rem y := by
    intro y hy
    have hyp : y ∈ besides t p := List.mem_of_mem_head? (head?_besides hnext ▸ hy)
    have hne : p ≠ [] := fun e => by simp [e] at hy
    exact ⟨by rw [ht, addedTicks, if_neg fun e => hne e.2], hp y hyp⟩
  rw [Met, head?_besides hnext]
  constructor
  · rintro ⟨y, hy, hle⟩
    obtain ⟨h₁, h₂⟩ := hadd y hy
    exact ⟨y, hy, by omega⟩
  · rintro ⟨y, hy, hle⟩
    obtain ⟨h₁, h₂⟩ := hadd y hy
    exact ⟨y, hy, by omega⟩

/-- The first loop of `timer_trigger` when the callback of `x` creates `t`. -/
theorem loop (c : CallbackCreate s as p x t timeout reload first) (proc : π)
    (hself : t = x → reload = 0) :
    ∃ s₂ s₄ rs, Settles (fun n => triggerLoop (createClbck x t proc timeout reload first n) n
        (firstNode ((as ++ x :: p).map .timer) .timerList) s.passStart) (.ok s₄) ∧
      CalledBack s s₂ as p x t timeout reload first rs ∧
      Finished (requeue x s₂) s₄ t (s.timerTickUnsynch + 1) (besides t p) rs := by
  obtain ⟨s₂, rs, hset, cb⟩ := c.callback proc hself
  have hrem₂ : ∀ y, (requeue x s₂).rem y = s₂.rem y := fun y => by
    simp only [Timers.rem, requeue_timers]
  have hp : ∀ y ∈ besides t p, (requeue x s₂).rem y = s.rem y := fun y hy => (c.behind cb hy).1
  have hnil : besides t p ≠ [] → p ≠ [] := fun hne e => hne ((besides_eq_nil c.next).mpr e)
  have hun₂ : besides t p ≠ [] → (requeue x s₂).timerTickUnsynch = s.timerTickUnsynch + 1 :=
    fun hne => by rw [requeue_unsynch, cb.unsynch, addedTicks, if_neg fun e => hnil hne e.2]
  have hadd : besides t p ≠ [] → (requeue x s₂).rem t = timeout + (s.timerTickUnsynch + 1) :=
    fun hne => by rw [hrem₂, cb.rem_new, addedTicks, if_neg fun e => hnil hne e.2]
  have hsort : (besides t p).Pairwise fun a b => (requeue x s₂).rem a ≤ (requeue x s₂).rem b := by
    refine c.sorted_besides.imp_of_mem fun {a b} ha hb hab => ?_
    rwa [hp a ha, hp b hb]
  have hbound : ∀ y ∈ besides t p, s.timerTickUnsynch + 1 ≤ (requeue x s₂).rem y ∧
      (requeue x s₂).rem y < ticksMod := fun y hy => by
    rw [hp y hy]
    have hyp := besides_subset hy
    exact ⟨c.armed.above y (by simp [hyp]), c.armed.rem_lt y (by simp [hyp])⟩
  have hfun : (requeue x s₂).rem = s₂.rem := funext hrem₂
  have hl' : Linked (requeue x s₂) (insertTimer (requeue x s₂).rem t (besides t p)) rs :=
    hfun ▸ cb.linked
  have htq : t ∉ besides t p := fun e => (mem_besides.mp e).2 rfl
  have htu : besides t p ≠ [] → s.timerTickUnsynch + 1 < (requeue x s₂).rem t := fun hne => by
    rw [hadd hne]
    have := c.timeout_pos
    omega
  -- the budget of the callback runs ahead of that of the loop by the timers already fired
  let clbck := fun m => createClbck x t proc timeout reload first (m + 1 + as.length)
  have hquiet : ∀ n, ∀ y ∈ besides t p, ∀ z, clbck n y z = .ok z := fun n y hy z => by
    have hyx : y ≠ x := fun e => c.notMem_x.1 (e ▸ besides_subset hy)
    simp only [clbck, createClbck, if_neg hyx]
  obtain ⟨s₄, hloop, fin⟩ : ∃ s₄, Settles (fun n => triggerLoop (clbck n) n
      (firstNode ((besides t p).map .timer) .timerList) (requeue x s₂)) (.ok s₄) ∧
      Finished (requeue x s₂) s₄ t (s.timerTickUnsynch + 1) (besides t p) rs := by
    by_cases hm : Met (requeue x s₂).rem t (besides t p)
    · have hne : besides t p ≠ [] := by
        obtain ⟨y, hy, -⟩ := hm
        exact fun e => by simp [e] at hy
      refine finished_met hl' htq hsort (hun₂ hne) hbound (htu hne) ?_ hquiet hm
      rw [hadd hne]
      have h₁ := c.timeout_lt
      have h₂ := c.armed.unsynch_le
      simp only [ticksMod, osTimerTicksremMax, osTicksMax, osTimerUnsynchMax] at *
      omega
    · exact finished_missed hl' htq hsort hun₂ (fun y hy => (hbound y hy).2) htu hm
  rw [firstNode_besides c.next] at hloop
  refine ⟨s₂, s₄, rs, ?_, cb, fin⟩
  obtain ⟨N₁, hN₁⟩ := hset
  obtain ⟨N₂, hN₂⟩ := hloop
  refine ⟨max N₁ (N₂ + 1 + as.length), fun n hn => ?_⟩
  obtain ⟨m, rfl⟩ : ∃ m, n = m + 1 + as.length := ⟨n - 1 - as.length, by omega⟩
  simp only
  rw [c.loop_to_callback proc (hN₁ _ (by omega)) m]
  exact hN₂ m (by omega)

/-- The tick starts a pass, which is the first loop followed by the second. -/
theorem tick_eq (c : CallbackCreate s as p x t timeout reload first)
    (clbck : τ → Timers τ π → Outcome (Timers τ π)) (n : ℕ) :
    osTickTimers clbck n s = (triggerLoop clbck n
      (firstNode ((as ++ x :: p).map .timer) .timerList) s.passStart >>= fun z =>
        rearmLoop n { z with timerTickUnsynch := 0 } >>= fun y => .ok y) := by
  obtain ⟨y₀, ys, hxs, hy₀⟩ :
      ∃ y₀ ys, as ++ x :: p = y₀ :: ys ∧ s.rem y₀ = s.timerTickUnsynch + 1 := by
    cases has : as with
    | nil => exact ⟨x, p, rfl, c.rem_fires⟩
    | cons a as' => exact ⟨a, as' ++ x :: p, rfl, c.rem_before (by simp [has])⟩
  have ha : Armed s (y₀ :: ys) := hxs ▸ c.armed
  have hl₀ : Linked s.passStart (as ++ x :: p) [] := c.armed.pending.linked
  rw [← hl₀.rings.next_head, osTickTimers_cons ha, if_pos (.inl (Nat.le_of_eq hy₀))]
  rfl

/-- The whole tick, unless the timer that fires creates itself as an auto-reload timer. -/
theorem tick (c : CallbackCreate s as p x t timeout reload first) (proc : π)
    (hself : t = x → reload = 0) :
    ∃ s' L R, Settles (fun n => osTickTimers (createClbck x t proc timeout reload first n) n s)
        (.ok s') ∧ CreateTicked s s' as p x t timeout reload first L R := by
  obtain ⟨s₂, s₄, rs, hloop, cb, fin⟩ := c.loop proc hself
  obtain ⟨s', hset, hrings, hs'⟩ :=
    rearmLoop_settles (s := { s₄ with timerTickUnsynch := 0 }) fin.rings
  have hq : ∀ y, (requeue x s₂).rem y = s₂.rem y ∧ (requeue x s₂).reload y = s₂.reload y :=
    fun y => by simp only [Timers.rem, Timers.reload, requeue_timers, and_self]
  have hp : ∀ y ∈ besides t p, (requeue x s₂).rem y = s.rem y ∧
      (requeue x s₂).reload y = s.reload y := fun y hy => c.behind cb hy
  have hnew : (requeue x s₂).rem t = timeout + addedTicks first p (s.timerTickUnsynch + 1) :=
    (hq t).1.trans cb.rem_new
  have hmet := met_iff (f := (requeue x s₂).rem) c.next hnew fun y hy => (hp y hy).1
  set u := s.timerTickUnsynch + 1 with hu
  set L := insertTimer (requeue x s₂).rem t
    ((besides t p).filter fun y => u < (requeue x s₂).rem y) with hL
  set R := rs ++ ((besides t p).filter fun y => (requeue x s₂).rem y = u).filter
    fun y => 0 < (requeue x s₂).reload y with hR
  have hmemL : ∀ y, y ∈ L ↔ y = t ∨ y ∈ besides t p ∧ u < s.rem y := by
    intro y
    simp only [hL, mem_insertTimer, List.mem_filter, decide_eq_true_eq]
    exact or_congr_right (and_congr_right fun hy => by rw [(hp y hy).1])
  have hmemR : ∀ y, y ∈ R ↔
      (y ∈ as ∨ y = x ∧ t ≠ x ∨ y ∈ besides t p ∧ s.rem y = u) ∧ 0 < s.reload y := by
    intro y
    simp only [hR, List.mem_append, cb.mem_rearmed, List.mem_filter, decide_eq_true_eq]
    constructor
    · rintro (⟨h, hpos⟩ | ⟨⟨hy, he⟩, hpos⟩)
      · exact ⟨h.elim .inl fun h => .inr (.inl h), hpos⟩
      · rw [(hp y hy).1] at he
        rw [(hp y hy).2] at hpos
        exact ⟨.inr (.inr ⟨hy, he⟩), hpos⟩
    · rintro ⟨h | h | ⟨hy, he⟩, hpos⟩
      · exact .inl ⟨.inl h, hpos⟩
      · exact .inl ⟨.inr h, hpos⟩
      · exact .inr ⟨⟨hy, by rw [(hp y hy).1, he]⟩, by rwa [(hp y hy).2]⟩
  have hdis : ∀ y ∈ L, y ∉ R := fin.rings.disjoint
  have htL : t ∈ L := (hmemL t).mpr (.inl rfl)
  have hrem' : ∀ y, s'.rem y = if y ∈ R then s₄.reload y else s₄.rem y := fun y => by
    rw [hs']
    rfl
  have hfun : Timers.reloaded R { s₄ with timerTickUnsynch := 0 } = s'.rem := by
    funext y
    rw [hrem']
    rfl
  have hreload : ∀ y, s'.reload y = s₂.reload y := fun y => by
    have h₄ : s'.reload y = s₄.reload y := by
      rw [hs']
      rfl
    rw [h₄, fin.reload, (hq y).2]
  have hmagic : ∀ y, (s'.timers y).magic = (s₂.timers y).magic := fun y => by
    have h₄ : (s'.timers y).magic = (s₄.timers y).magic := by rw [hs']
    rw [h₄, fin.magic, requeue_timers]
  have hremL : ∀ y ∈ L, s'.rem y = s₄.rem y := fun y hy => by rw [hrem', if_neg (hdis y hy)]
  have hmissed : ¬Met (requeue x s₂).rem t (besides t p) →
      s'.rem t = timeout + addedTicks first p u := fun hm => by
    rw [hremL t htL, fin.rem_missed hm, hnew]
  have hmetrem : Met (requeue x s₂).rem t (besides t p) → s'.rem t = timeout := fun hm => by
    have hne : p ≠ [] := by
      obtain ⟨y, hy, -⟩ := hmet.mp hm
      exact fun e => by simp [e] at hy
    rw [hremL t htL, fin.rem_met hm, hnew, addedTicks, if_neg fun e => hne e.2]
    omega
  refine ⟨s', L, R, ?_, ?_, hmemL, hmemR, fun hc => ?_, fun hc => ?_, fun hc => ?_,
    fun y hy hlt => ?_, fun y hy => ?_, fun y h₁ h₂ hy => ?_, fun y hyt hy => ?_,
    (hreload t).trans cb.reload_new, (hmagic t).trans cb.magic_new,
    fun y hy => (hreload y).trans (cb.reload_other y hy),
    fun y hy => (hmagic y).trans (cb.magic_other y hy), ?_, ?_⟩
  · have hall := hloop.bind (g := fun n z => rearmLoop n { z with timerTickUnsynch := 0 } >>=
      fun y => .ok y) (hset.bind (settles_const (Except.ok s' : Outcome (Timers τ π))))
    exact hall.congr fun n => c.tick_eq _ n
  · rw [← hfun]
    exact hrings.active
  · by_cases hm : Met (requeue x s₂).rem t (besides t p)
    · have hall : ∀ y ∈ L, s'.rem y = (requeue x s₂).rem y - u := fun y hy => by
        rw [hremL y hy]
        rcases (hmemL y).mp hy with rfl | ⟨hyp, -⟩
        · exact fin.rem_met hm
        · exact fin.rem y hyp
      have hsp : (besides t p).Pairwise fun a b =>
          (requeue x s₂).rem a ≤ (requeue x s₂).rem b := by
        refine c.sorted_besides.imp_of_mem fun {a b} ha hb hab => ?_
        rwa [(hp a ha).1, (hp b hb).1]
      have hsL := insertTimer_sorted (t := t)
        (hsp.sublist (List.filter_sublist (p := fun y => u < (requeue x s₂).rem y)))
      refine hsL.imp_of_mem fun {a b} ha hb hab => ?_
      rw [hall a ha, hall b hb]
      omega
    · have hnil : p = [] := (hc.resolve_left fun h => hm (hmet.mpr h)).2
      rw [hL, hnil]
      exact List.pairwise_singleton _ _
  · by_cases hm : Met (requeue x s₂).rem t (besides t p)
    · exact hmetrem hm
    · rw [hmissed hm, addedTicks, if_pos (hc.resolve_left fun h => hm (hmet.mpr h)), Nat.add_zero]
  · rw [Compensated, not_or] at hc
    rw [hmissed fun h => hc.1 (hmet.mp h), addedTicks, if_neg hc.2]
  · have hyL : y ∈ L := (hmemL y).mpr (.inr ⟨hy, hlt⟩)
    rw [hremL y hyL, fin.rem y hy, (hp y hy).1]
  · have hyt : y ≠ t := by
      rintro rfl
      exact hdis y htL hy
    rw [hrem', if_pos hy, fin.reload, (hq y).2, cb.reload_other y hyt]
  · have hyt : y ≠ t := by
      rintro rfl
      exact h₁ htL
    rw [hrem', if_neg h₂]
    by_cases hyp : y ∈ besides t p
    · have hle : ¬u < s.rem y := fun h => h₁ ((hmemL y).mpr (.inr ⟨hyp, h⟩))
      rw [fin.rem y hyp, (hp y hyp).1]
      omega
    · have hnp : y ∉ p := fun h => hyp (mem_besides.mpr ⟨h, hyt⟩)
      have hya : y ∈ as ∨ y = x := by simpa [hnp] using hy
      have : s₄.rem y = (requeue x s₂).rem y := by simp only [Timers.rem, fin.other y hyp hyt]
      rw [this, (hq y).1]
      exact cb.rem_fired y hyt hya
  · simp only [List.mem_append, List.mem_cons, not_or] at hy
    have hyR : y ∉ R := fun h => by
      rcases ((hmemR y).mp h).1 with h | h | h
      · exact hy.1 h
      · exact hy.2.1 h.1
      · exact hy.2.2 (besides_subset h.1)
    rw [hrem', if_neg hyR]
    have hyp : y ∉ besides t p := fun h => hy.2.2 (besides_subset h)
    simp only [Timers.rem, fin.other y hyp hyt, requeue_timers, cb.other y hyt hy.1 hy.2.1]
  · rw [hs']
  · have hdue : ((besides t p).filter fun y => (requeue x s₂).rem y = u) =
        (besides t p).filter fun y => s.rem y = u :=
      List.filter_congr fun y hy => by rw [(hp y hy).1]
    have h₄ : s'.history = s₄.history := by rw [hs']
    rw [h₄, fin.history, hdue, requeue_history, cb.history]

end CallbackCreate

end RadOs
