import RadOs.Timer.Sweep

/-! # A whole `os_tick` on the timer list

`Armed s xs` is the joint invariant of the lazily flushed timer list: sorted,
every remaining time above the common counter, the counter bounded and zero on
the empty list. Creating, destroying and ticking keep it.
-/

namespace RadOs
open LinkedRing Budget

variable {τ π : Type} [DecidableEq τ]

omit [DecidableEq τ] in
theorem insertTimer_congr {f g : τ → ℕ} {t : τ} {xs : List τ} (ht : f t = g t)
    (h : ∀ x ∈ xs, f x = g x) : insertTimer f t xs = insertTimer g t xs := by
  induction xs with
  | nil => rfl
  | cons x xs ih =>
    simp only [insertTimer]
    rw [ht, h x (by simp), ih fun y hy => h y (by simp [hy])]

omit [DecidableEq τ] in
theorem insertTimer_sorted {f : τ → ℕ} {t : τ} {xs : List τ}
    (h : xs.Pairwise fun a b => f a ≤ f b) :
    (insertTimer f t xs).Pairwise fun a b => f a ≤ f b := by
  induction xs with
  | nil => simp [insertTimer]
  | cons x xs ih =>
    obtain ⟨hx, hxs⟩ := List.pairwise_cons.mp h
    unfold insertTimer
    split
    · rename_i hlt
      refine List.pairwise_cons.mpr ⟨fun y hy => ?_, h⟩
      rcases List.mem_cons.mp hy with rfl | hy
      · exact Nat.le_of_lt hlt
      · exact Nat.le_trans (Nat.le_of_lt hlt) (hx y hy)
    · rename_i hge
      refine List.pairwise_cons.mpr ⟨fun y hy => ?_, ih hxs⟩
      rcases mem_insertTimer.mp hy with rfl | hy
      · exact Nat.le_of_not_lt hge
      · exact hx y hy

omit [DecidableEq τ] in
/-- Among timers with equal remaining time the new one is last. -/
theorem filter_insertTimer {f : τ → ℕ} {t : τ} {xs : List τ}
    (h : xs.Pairwise fun a b => f a ≤ f b) (k : ℕ) :
    (insertTimer f t xs).filter (fun x => f x = k) =
      xs.filter (fun x => f x = k) ++ if f t = k then [t] else [] := by
  induction xs with
  | nil => by_cases hk : f t = k <;> simp [insertTimer, hk]
  | cons x xs ih =>
    obtain ⟨hx, hxs⟩ := List.pairwise_cons.mp h
    unfold insertTimer
    split
    · rename_i hlt
      by_cases hk : f t = k
      · have hnone : (x :: xs).filter (fun y => f y = k) = [] := by
          rw [List.filter_eq_nil_iff]
          intro y hy
          rcases List.mem_cons.mp hy with rfl | hy
          · simp; omega
          · have := hx y hy
            simp; omega
        rw [List.filter_cons_of_pos (by simpa using hk), hnone]
        simp [hk]
      · rw [List.filter_cons_of_neg (by simpa using hk)]
        simp [hk]
    · by_cases hk : f x = k
      · rw [List.filter_cons_of_pos (by simpa using hk), List.filter_cons_of_pos (by simpa using hk),
          ih hxs]
        rfl
      · rw [List.filter_cons_of_neg (by simpa using hk), List.filter_cons_of_neg (by simpa using hk),
          ih hxs]

/-- Putting the timers of the temporary list back, one after the other. -/
def insertTimers (f : τ → ℕ) (rs xs : List τ) : List τ := rs.foldl (fun ys t => insertTimer f t ys) xs

omit [DecidableEq τ] in
theorem mem_insertTimers {f : τ → ℕ} {rs xs : List τ} {u : τ} :
    u ∈ insertTimers f rs xs ↔ u ∈ rs ∨ u ∈ xs := by
  induction rs generalizing xs with
  | nil => simp [insertTimers]
  | cons t rs ih =>
    have : insertTimers f (t :: rs) xs = insertTimers f rs (insertTimer f t xs) := rfl
    rw [this, ih, mem_insertTimer, List.mem_cons]
    tauto

omit [DecidableEq τ] in
theorem insertTimers_sorted {f : τ → ℕ} {rs xs : List τ} (h : xs.Pairwise fun a b => f a ≤ f b) :
    (insertTimers f rs xs).Pairwise fun a b => f a ≤ f b := by
  induction rs generalizing xs with
  | nil => exact h
  | cons t rs ih => exact ih (insertTimer_sorted h)

omit [DecidableEq τ] in
theorem filter_insertTimers {f : τ → ℕ} {rs xs : List τ} (h : xs.Pairwise fun a b => f a ≤ f b)
    (k : ℕ) : (insertTimers f rs xs).filter (fun x => f x = k) =
      xs.filter (fun x => f x = k) ++ rs.filter fun x => f x = k := by
  induction rs generalizing xs with
  | nil => simp [insertTimers]
  | cons t rs ih =>
    have : insertTimers f (t :: rs) xs = insertTimers f rs (insertTimer f t xs) := rfl
    rw [this, ih (insertTimer_sorted h), filter_insertTimer h, List.append_assoc]
    by_cases hk : f t = k <;> simp [hk]

/-- The remaining times once the timers `rs` have been loaded again. -/
def Timers.reloaded (rs : List τ) (s : Timers τ π) (t : τ) : ℕ :=
  if t ∈ rs then s.reload t else s.rem t

/-- The second loop of `timer_trigger`. -/
theorem rearmLoop_settles {s : Timers τ π} {xs rs : List τ} (r : Rings s.links xs rs) :
    ∃ s', Settles (fun n => rearmLoop n s) (.ok s') ∧
      Rings s'.links (insertTimers (s.reloaded rs) rs xs) [] ∧
      s' = { s with links := s'.links, timers := fun t =>
        { s.timers t with ticksRem := s.reloaded rs t } } := by
  induction rs generalizing s xs with
  | nil =>
    have hd := listDetachfirst_nil (h := TimerNode.listAutoreload) r.reload
    refine ⟨s, (settles_const _).of_succ fun n => by simp [rearmLoop, hd], r, ?_⟩
    simp [Timers.reloaded, Timers.rem]
  | cons t rs ih =>
    obtain ⟨hdet, r₁⟩ := r.detach
    obtain ⟨htr, hnd⟩ := List.nodup_cons.mp r.nodup_reload
    have htx : t ∉ xs := fun e => r.disjoint t e (by simp)
    let s₁ := (s.setLinks (listUnlink (.timer t) s.links)).setRem t (s.reload t)
    have r₁' : Rings s₁.links xs rs := r₁
    obtain ⟨l, hadd, r₂⟩ := timerAdd_settles r₁' htx htr
    obtain ⟨s', hset, hr, hs'⟩ := ih (s := s₁.setLinks l) r₂
    have hfun : (s₁.setLinks l).reloaded rs = s.reloaded (t :: rs) := by
      funext x
      by_cases hx : x = t
      · subst hx
        simp [Timers.reloaded, htr, s₁, Timers.setLinks, Timers.setRem, Timers.setTimer, Timers.rem]
      · by_cases hxr : x ∈ rs <;>
          simp [Timers.reloaded, hx, hxr, s₁, Timers.setLinks, Timers.setRem, Timers.setTimer,
            Timers.rem, Timers.reload]
    have hins : insertTimer s₁.rem t xs = insertTimer (s.reloaded (t :: rs)) t xs := by
      apply insertTimer_congr
      · simp [Timers.reloaded, s₁, Timers.setLinks, Timers.setRem, Timers.setTimer, Timers.rem]
      · intro x hx
        have hxt : x ≠ t := fun e => htx (e ▸ hx)
        have hxr : x ∉ rs := fun e => r.disjoint x hx (by simp [e])
        simp [Timers.reloaded, hxt, hxr, s₁, Timers.setLinks, Timers.setRem, Timers.setTimer,
          Timers.rem]
    refine ⟨s', ?_, ?_, ?_⟩
    · have hstep := hadd.bind (g := fun n x => rearmLoop n x) hset
      exact hstep.of_succ fun n => by simp [rearmLoop, hdet, s₁, Timers.reload, Timers.setLinks]
    · rw [hfun, hins] at hr
      exact hr
    · rw [hs', hfun]
      simp only [s₁, Timers.setLinks, Timers.setRem, Timers.setTimer]
      congr 1
      funext x
      by_cases hx : x = t
      · subst hx; simp
      · simp [hx]

/-- The joint invariant of the timer module between two calls. -/
structure Armed (s : Timers τ π) (xs : List τ) : Prop where
  ring : Ring s.links .timerList (xs.map .timer)
  sorted : xs.Pairwise fun a b => s.rem a ≤ s.rem b
  above : ∀ t ∈ xs, s.timerTickUnsynch < s.rem t
  rem_lt : ∀ t ∈ xs, s.rem t < ticksMod
  reload_lt : ∀ t ∈ xs, s.reload t < ticksMod
  mem_of_rem : ∀ t, s.Made t → 0 < s.rem t → t ∈ xs
  magic : ∀ t ∈ xs, (s.timers t).magic = .magic1
  unsynch_le : s.timerTickUnsynch ≤ osTimerUnsynchMax
  unsynch_nil : xs = [] → s.timerTickUnsynch = 0

omit [DecidableEq τ] in
theorem Armed.made {s : Timers τ π} {xs : List τ} (h : Armed s xs) {t : τ} (ht : t ∈ xs) :
    s.Made t := by
  simp [Timers.Made, h.magic t ht]

omit [DecidableEq τ] in
theorem Armed.nodup {s : Timers τ π} {xs : List τ} (h : Armed s xs) : xs.Nodup :=
  map_timer_nodup h.ring

/-- The state in which `os_tick` enters `timer_trigger`: the counter has caught up with the head. -/
structure Pending (s : Timers τ π) (xs : List τ) : Prop where
  ring : Ring s.links .timerList (xs.map .timer)
  sorted : xs.Pairwise fun a b => s.rem a ≤ s.rem b
  unsynch_pos : 0 < s.timerTickUnsynch
  reach : ∀ t ∈ xs, s.timerTickUnsynch ≤ s.rem t
  rem_lt : ∀ t ∈ xs, s.rem t < ticksMod
  reload_lt : ∀ t ∈ xs, s.reload t < ticksMod
  mem_of_rem : ∀ t, s.Made t → 0 < s.rem t → t ∈ xs
  magic : ∀ t ∈ xs, (s.timers t).magic = .magic1

/-- The timer burns off in the pass that starts in `s`. -/
def Timers.due (s : Timers τ π) (t : τ) : Bool := s.rem t = s.timerTickUnsynch

omit [DecidableEq τ] in
theorem Pending.linked [DecidableEq τ] {s : Timers τ π} {xs : List τ} (h : Pending s xs) :
    Linked (s.setLinks (listInit .listAutoreload s.links)) xs [] := by
  refine ⟨⟨?_, listInit_ring _ _, by simp⟩, h.mem_of_rem, fun t ht => ?_, fun t ht => ?_⟩
  · refine h.ring.frame (fun u hu => listInit_next_of_ne _ ?_) fun u hu => listInit_prev_of_ne _ ?_
    · rintro rfl; simp at hu
    · rintro rfl; simp at hu
  · simp [Timers.Made, Timers.setLinks, h.magic t ht]
  · exact Nat.lt_of_lt_of_le h.unsynch_pos (h.reach t ht)

omit [DecidableEq τ] in
theorem Pending.due_first {s : Timers τ π} {xs : List τ} (h : Pending s xs) :
    xs.Pairwise fun a b => s.due b = true → s.due a = true := by
  refine h.sorted.imp_of_mem fun {a b} ha _ hab hb => ?_
  have := h.reach a ha
  simp only [Timers.due, decide_eq_true_eq] at hb ⊢
  omega

theorem Pending.sweeping {D : τ → List τ} {s : Timers τ π} {xs : List τ} (h : Pending s xs)
    (hm : ∀ t ∈ xs, ∀ d ∈ D t, s.Made d) :
    Sweeping D s.due s.timerTickUnsynch (s.setLinks (listInit .listAutoreload s.links)) xs [] where
  linked := h.linked
  made := hm
  unsynch _ := rfl
  bound t ht := ⟨h.reach t ht, h.rem_lt t ht⟩
  due_iff _ _ := decide_eq_true_iff
  due_first := h.due_first

/-- The timers put back by the second loop. -/
def rearmed (D : τ → List τ) (s : Timers τ π) (xs : List τ) : List τ :=
  (firings D s.due xs).filter fun t => 0 < s.reload t

/-- What `timer_trigger` leaves behind. -/
structure Served (D : τ → List τ) (s s' : Timers τ π) (xs : List τ) : Prop where
  ring : Ring s'.links .timerList
    ((insertTimers s'.rem (rearmed D s xs) (survivors D s.due xs)).map .timer)
  rem_survivor : ∀ t ∈ survivors D s.due xs, s'.rem t = s.rem t - s.timerTickUnsynch
  rem_rearmed : ∀ t ∈ rearmed D s xs, s'.rem t = s.reload t
  rem_gone : ∀ t ∈ xs, t ∉ survivors D s.due xs → t ∉ rearmed D s xs → s'.rem t = 0
  rem_other : ∀ t, t ∉ xs → s'.rem t = s.rem t
  reload : ∀ t, s'.reload t =
    if t ∈ xs ∧ t ∉ firings D s.due xs ∧ t ∈ stoppedBy D s.due xs then 0 else s.reload t
  magic : ∀ t, (s'.timers t).magic =
    if t ∈ stoppedBy D s.due xs then .magic2 else (s.timers t).magic
  history : s'.history = ((firings D s.due xs).flatMap fun t =>
    .fire t :: (D t).map .destroy).reverse ++ s.history
  ticksCnt : s'.ticksCnt = s.ticksCnt
  unsynch : s'.timerTickUnsynch = 0

theorem rearmed_subset {D : τ → List τ} {s : Timers τ π} {xs : List τ} {t : τ}
    (h : t ∈ rearmed D s xs) : t ∈ xs ∧ s.due t = true ∧ 0 < s.reload t := by
  obtain ⟨hf, hr⟩ := List.mem_filter.mp h
  obtain ⟨hx, hd⟩ := firings_subset D s.due xs t hf
  exact ⟨hx, hd, by simpa using hr⟩

/-- `timer_trigger` returns, provided no callback stops the timer that is next on the list. -/
theorem timerTrigger_settles {D : τ → List τ} {s : Timers τ π} {xs : List τ} (h : Pending s xs)
    (hm : ∀ t ∈ xs, ∀ d ∈ D t, s.Made d) (hspare : SparesNext D s.due xs) :
    ∃ s', Settles (fun n => timerTrigger (fun t => destroyAll (D t)) n s) (.ok s') ∧
      Served D s s' xs := by
  let s₀ := s.setLinks (listInit .listAutoreload s.links)
  have hl : Linked s₀ xs [] := h.linked
  obtain ⟨s₁, hset₁, sw⟩ := sweep (h.sweeping hm) hspare
  have hrs : [] ++ (firings D s.due xs).filter (fun t => 0 < s₀.reload t) = rearmed D s xs := rfl
  have hrings := sw.rings
  rw [hrs] at hrings
  obtain ⟨s₂, hset₂, r₂, hs₂⟩ := rearmLoop_settles
    (s := { s₁ with timerTickUnsynch := 0 }) hrings
  have hrem : ∀ t, s₂.rem t = if t ∈ rearmed D s xs then s₁.reload t else s₁.rem t := by
    intro t
    rw [hs₂]
    simp [Timers.rem, Timers.reloaded, Timers.reload]
  have hfun : Timers.reloaded (rearmed D s xs) { s₁ with timerTickUnsynch := 0 } = s₂.rem := by
    funext t
    rw [hrem t]
    simp [Timers.reloaded, Timers.rem, Timers.reload]
  have hreload : ∀ t, s₂.reload t = s₁.reload t := by
    intro t
    rw [hs₂]
    rfl
  refine ⟨s₂, ?_, ?_⟩
  · have hfirst : s₀.links.next .timerList = firstNode (xs.map .timer) .timerList :=
      hl.rings.next_head
    rw [← hfirst] at hset₁
    have hset := hset₁.bind (g := fun n x => rearmLoop n { x with timerTickUnsynch := 0 } >>=
      fun y => .ok y) (hset₂.bind (settles_const (Except.ok s₂ : Outcome (Timers τ π))))
    exact hset
  · have hdis : ∀ t ∈ survivors D s.due xs, t ∉ rearmed D s xs := hrings.disjoint
    constructor
    · rw [← hfun]; exact r₂.active
    · intro t ht
      rw [hrem t, if_neg (hdis t ht), sw.rem_survivor t ht]
      rfl
    · intro t ht
      have hfired : t ∈ firings D s.due xs := (List.mem_filter.mp ht).1
      rw [hrem t, if_pos ht, sw.reload t, if_neg (fun e => e.2.1 hfired)]
      rfl
    · intro t hx hs hr
      rw [hrem t, if_neg hr]
      exact sw.rem_gone t hx hs
    · intro t hx
      rw [hrem t, if_neg (fun e => hx (rearmed_subset e).1), sw.rem_other t hx]
      rfl
    · intro t
      rw [hreload t, sw.reload t]
      rfl
    · intro t
      rw [hs₂]
      exact sw.magic t
    · rw [hs₂]
      exact sw.history
    · rw [hs₂]
      exact sw.ticksCnt
    · rw [hs₂]

/-- No callback stops an auto-reload timer whose own callback has run in this pass. -/
def SparesReloaded (D : τ → List τ) (s : Timers τ π) (xs : List τ) : Prop :=
  ∀ t ∈ rearmed D s xs, t ∉ stoppedBy D s.due xs

/-- The list after the pass. -/
def servedList (D : τ → List τ) (s s' : Timers τ π) (xs : List τ) : List τ :=
  insertTimers s'.rem (rearmed D s xs) (survivors D s.due xs)

theorem mem_servedList {D : τ → List τ} {s s' : Timers τ π} {xs : List τ} {t : τ} :
    t ∈ servedList D s s' xs ↔ t ∈ rearmed D s xs ∨ t ∈ survivors D s.due xs :=
  mem_insertTimers

theorem Served.armed {D : τ → List τ} {s s' : Timers τ π} {xs : List τ} (h : Pending s xs)
    (hm : ∀ t ∈ xs, ∀ d ∈ D t, s.Made d) (sv : Served D s s' xs) (hr : SparesReloaded D s xs) :
    Armed s' (servedList D s s' xs) := by
  have hsurv : ∀ t ∈ survivors D s.due xs, t ∈ xs ∧ s.timerTickUnsynch < s.rem t := by
    intro t ht
    obtain ⟨hx, hd, -⟩ := mem_survivors.mp ht
    have := h.reach t hx
    simp only [Timers.due, decide_eq_false_iff_not] at hd
    exact ⟨hx, by omega⟩
  have hmade : ∀ t, s'.Made t → s.Made t := by
    intro t ht
    simp only [Timers.Made, sv.magic t] at ht ⊢
    split at ht
    · rename_i hst
      obtain ⟨x, hx, hd⟩ := List.mem_flatMap.mp hst
      exact hm x (firings_subset D s.due xs x hx).1 t hd
    · exact ht
  constructor
  · exact sv.ring
  · apply insertTimers_sorted
    have hsub : (survivors D s.due xs).Sublist xs :=
      List.Sublist.trans List.filter_sublist List.filter_sublist
    refine (h.sorted.sublist hsub).imp_of_mem fun {a b} ha hb hab => ?_
    rw [sv.rem_survivor a ha, sv.rem_survivor b hb]
    omega
  · intro t ht
    rw [sv.unsynch]
    rcases mem_servedList.mp ht with ht | ht
    · rw [sv.rem_rearmed t ht]
      exact (rearmed_subset ht).2.2
    · rw [sv.rem_survivor t ht]
      have := (hsurv t ht).2
      omega
  · intro t ht
    rcases mem_servedList.mp ht with ht | ht
    · rw [sv.rem_rearmed t ht]
      exact h.reload_lt t (rearmed_subset ht).1
    · rw [sv.rem_survivor t ht]
      have := h.rem_lt t (hsurv t ht).1
      omega
  · intro t ht
    have hx : t ∈ xs := (mem_servedList.mp ht).elim (fun e => (rearmed_subset e).1)
      fun e => (hsurv t e).1
    rw [sv.reload t]
    split
    · exact Nat.lt_of_le_of_lt (Nat.zero_le _) (h.reload_lt t hx)
    · exact h.reload_lt t hx
  · intro t ht hpos
    rw [mem_servedList]
    by_contra hc
    rw [not_or] at hc
    by_cases hx : t ∈ xs
    · rw [sv.rem_gone t hx hc.2 hc.1] at hpos
      exact absurd hpos (Nat.lt_irrefl 0)
    · rw [sv.rem_other t hx] at hpos
      exact hx (h.mem_of_rem t (hmade t ht) hpos)
  · intro t ht
    have hx : t ∈ xs := (mem_servedList.mp ht).elim (fun e => (rearmed_subset e).1)
      fun e => (hsurv t e).1
    have hns : t ∉ stoppedBy D s.due xs := (mem_servedList.mp ht).elim (hr t)
      fun e => (mem_survivors.mp e).2.2
    rw [sv.magic t, if_neg hns, h.magic t hx]
  · rw [sv.unsynch]
    exact Nat.zero_le _
  · exact fun _ => sv.unsynch

end RadOs
