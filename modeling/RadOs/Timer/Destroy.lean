import RadOs.Timer.Rings

/-! # Destroying timers

`os_timer_destroy` unlinks a timer only while it has ticks left. On a state in
which exactly the linked timers have ticks left this removes the timer from the
timer list and touches nothing else; a timer that waits on the temporary list
of `timer_trigger` is left there. Callbacks that stop timers are finite
sequences of such calls.
-/

namespace RadOs
open LinkedRing Budget

variable {τ π : Type} [DecidableEq τ]

/-- The effect of `os_timer_destroy` once its assertion has passed. -/
def destroyed (t : τ) (s : Timers τ π) : Timers τ π :=
  let s := s.record (.destroy t)
  let s := if 0 < s.rem t then
      (s.setLinks (listUnlink (.timer t) s.links)).setTimer t
        { s.timers t with ticksRem := 0, ticksReload := 0 }
    else s
  let s := s.setTimer t { s.timers t with magic := .magic2 }
  if listIsEmpty .timerList s.links then { s with timerTickUnsynch := 0 } else s

/-- The timer was passed to `os_timer_create` at some time. -/
def Timers.Made (s : Timers τ π) (t : τ) : Prop := (s.timers t).magic ≠ .other

instance Timers.Made.decidable (s : Timers τ π) (t : τ) : Decidable (s.Made t) :=
  inferInstanceAs (Decidable (_ ≠ _))

theorem osTimerDestroy_eq {s : Timers τ π} {t : τ} (h : s.Made t) :
    osTimerDestroy t s = .ok (destroyed t s) := by
  have hm : (s.timers t).magic = .magic1 ∨ (s.timers t).magic = .magic2 := by
    cases hm : (s.timers t).magic with
    | other => exact absurd hm h
    | magic1 => exact .inl rfl
    | magic2 => exact .inr rfl
  unfold osTimerDestroy
  rw [osAssert_pos hm]
  rfl

theorem osTimerDestroy_made {s s' : Timers τ π} {t : τ} (h : osTimerDestroy t s = .ok s') :
    s.Made t := by
  unfold osTimerDestroy at h
  obtain ⟨u, hu, -⟩ := Outcome.bind_ok h
  rw [osAssert_eq_ok] at hu
  intro hm
  simp [hm] at hu

theorem destroyed_links (t : τ) (s : Timers τ π) :
    (destroyed t s).links = if 0 < s.rem t then listUnlink (.timer t) s.links else s.links := by
  by_cases h : 0 < s.rem t
  · simp only [destroyed, Timers.record, Timers.rem, Timers.setLinks, Timers.setTimer] at *
    simp only [h, if_true]
    split <;> rfl
  · simp only [destroyed, Timers.record, Timers.rem, Timers.setLinks, Timers.setTimer] at *
    simp only [h, if_false]
    split <;> rfl

theorem destroyed_timers (t : τ) (s : Timers τ π) :
    (destroyed t s).timers = Function.update s.timers t
      { s.timers t with
        ticksRem := 0, ticksReload := if 0 < s.rem t then 0 else s.reload t,
        magic := .magic2 } := by
  by_cases h : 0 < s.rem t
  · simp only [destroyed, Timers.record, Timers.rem, Timers.reload, Timers.setLinks,
      Timers.setTimer] at *
    simp only [h, if_true]
    split <;> simp
  · have h0 : (s.timers t).ticksRem = 0 := by simpa [Timers.rem] using h
    simp only [destroyed, Timers.record, Timers.rem, Timers.reload, Timers.setLinks,
      Timers.setTimer] at *
    simp only [h, if_false]
    split <;> simp [h0]

@[simp] theorem destroyed_history (t : τ) (s : Timers τ π) :
    (destroyed t s).history = .destroy t :: s.history := by
  unfold destroyed
  dsimp only
  split <;> split <;> rfl

@[simp] theorem destroyed_ticksCnt (t : τ) (s : Timers τ π) :
    (destroyed t s).ticksCnt = s.ticksCnt := by
  unfold destroyed
  dsimp only
  split <;> split <;> rfl

theorem destroyed_unsynch (t : τ) (s : Timers τ π) :
    (destroyed t s).timerTickUnsynch =
      if listIsEmpty .timerList (destroyed t s).links then 0 else s.timerTickUnsynch := by
  rw [destroyed_links]
  by_cases h : 0 < s.rem t
  · simp only [destroyed, Timers.record, Timers.rem, Timers.setLinks, Timers.setTimer] at *
    simp only [h, if_true]
    split <;> rfl
  · simp only [destroyed, Timers.record, Timers.rem, Timers.setLinks, Timers.setTimer] at *
    simp only [h, if_false]
    split <;> rfl

theorem destroyed_timers_self (t : τ) (s : Timers τ π) :
    (destroyed t s).rem t = 0 ∧ ((destroyed t s).timers t).magic = .magic2 := by
  simp [Timers.rem, destroyed_timers]

theorem destroyed_timers_of_ne {t u : τ} (s : Timers τ π) (h : u ≠ t) :
    (destroyed t s).timers u = s.timers u := by
  simp [destroyed_timers, h]

/-- `list_unlink` ran before if it would run now, so a second call changes no field. -/
theorem destroyed_twice (t : τ) (s : Timers τ π) :
    { destroyed t (destroyed t s) with history := s.history } =
      { destroyed t s with history := s.history } := by
  have hrem := (destroyed_timers_self t s).1
  have hl : (destroyed t (destroyed t s)).links = (destroyed t s).links := by
    rw [destroyed_links, hrem]
    rfl
  have ht : (destroyed t (destroyed t s)).timers = (destroyed t s).timers := by
    rw [destroyed_timers, hrem]
    simp [destroyed_timers, Timers.reload]
  have hu : (destroyed t (destroyed t s)).timerTickUnsynch = (destroyed t s).timerTickUnsynch := by
    rw [destroyed_unsynch, hl]
    split
    · rw [destroyed_unsynch, if_pos (by assumption)]
    · rfl
  simp [hl, ht, hu]

/-- Exactly the linked timers have ticks left, as far as they were created at all. -/
structure Linked (s : Timers τ π) (xs rs : List τ) : Prop where
  rings : Rings s.links xs rs
  mem_of_rem : ∀ t, s.Made t → 0 < s.rem t → t ∈ xs
  made : ∀ t ∈ xs, s.Made t
  rem_pos : ∀ t ∈ xs, 0 < s.rem t

omit [DecidableEq τ] in
theorem Linked.rem_pos_iff {s : Timers τ π} {xs rs : List τ} (h : Linked s xs rs) {t : τ}
    (ht : s.Made t) : 0 < s.rem t ↔ t ∈ xs :=
  ⟨h.mem_of_rem t ht, h.rem_pos t⟩

theorem filter_ne_append {xs : List τ} {t : τ} (hnd : xs.Nodup) (ht : t ∈ xs) :
    ∃ as bs, xs = as ++ t :: bs ∧ xs.filter (· ≠ t) = as ++ bs := by
  obtain ⟨as, bs, rfl⟩ := List.append_of_mem ht
  refine ⟨as, bs, rfl, ?_⟩
  have ha : as.filter (· ≠ t) = as := by
    rw [List.filter_eq_self]
    intro a ha
    simp only [decide_eq_true_eq]
    rintro rfl
    simp [List.nodup_append] at hnd
    exact hnd.2.2 a ha |>.1 rfl
  have hb : bs.filter (· ≠ t) = bs := by
    rw [List.filter_eq_self]
    intro b hb
    simp only [decide_eq_true_eq]
    rintro rfl
    simp [List.nodup_append] at hnd
    exact hnd.2.1.1 hb
  rw [List.filter_append, List.filter_cons_of_neg (by simp), ha, hb]

/-- Destroying a timer removes it from the timer list and leaves the temporary list alone. -/
theorem Linked.destroyed {s : Timers τ π} {xs rs : List τ} (h : Linked s xs rs) {t : τ}
    (ht : s.Made t) : Linked (RadOs.destroyed t s) (xs.filter (· ≠ t)) rs := by
  have hmade : ∀ u, (RadOs.destroyed t s).Made u ↔ s.Made u := by
    intro u
    by_cases hu : u = t
    · subst hu
      simp [Timers.Made, (destroyed_timers_self u s).2] at ht ⊢
      exact ht
    · simp [Timers.Made, destroyed_timers_of_ne s hu]
  have hrem : ∀ u, u ≠ t → (RadOs.destroyed t s).rem u = s.rem u := by
    intro u hu
    simp [Timers.rem, destroyed_timers_of_ne s hu]
  refine ⟨?_, ?_, ?_, ?_⟩
  · rw [destroyed_links]
    split
    · obtain ⟨as, bs, rfl, hf⟩ := filter_ne_append h.rings.nodup (h.mem_of_rem t ht (by assumption))
      rw [hf]
      exact h.rings.unlink
    · rename_i hr
      have : xs.filter (· ≠ t) = xs := by
        rw [List.filter_eq_self]
        intro a ha
        simp only [decide_eq_true_eq]
        rintro rfl
        exact hr (h.rem_pos a ha)
      rw [this]
      exact h.rings
  · intro u hu hr
    have hne : u ≠ t := by
      rintro rfl
      rw [(destroyed_timers_self u s).1] at hr
      exact absurd hr (lt_irrefl 0)
    rw [hrem u hne] at hr
    simp [hne, h.mem_of_rem u ((hmade u).mp hu) hr]
  · intro u hu
    exact (hmade u).mpr (h.made u (List.mem_filter.mp hu).1)
  · intro u hu
    obtain ⟨hx, hne⟩ := List.mem_filter.mp hu
    rw [hrem u (by simpa using hne)]
    exact h.rem_pos u hx

/-- The timers of `xs` that are not among the stopped ones. -/
def without (ds xs : List τ) : List τ := xs.filter (· ∉ ds)

@[simp] theorem mem_without {ds xs : List τ} {t : τ} : t ∈ without ds xs ↔ t ∈ xs ∧ t ∉ ds := by
  simp [without]

theorem length_without_le (ds xs : List τ) : (without ds xs).length ≤ xs.length :=
  List.length_filter_le _ xs

@[simp] theorem without_nil (xs : List τ) : without [] xs = xs := by simp [without]

theorem without_without (ds es xs : List τ) :
    without ds (without es xs) = without (es ++ ds) xs := by
  simp only [without, List.filter_filter]
  congr 1
  funext a
  simp [Bool.and_comm]

/-- A callback that stops the timers `ds`, one after the other. -/
def destroyAll : List τ → Timers τ π → Outcome (Timers τ π)
  | [], s => .ok s
  | t :: ds, s => do destroyAll ds (← osTimerDestroy t s)

/-- What is left after a callback has stopped the timers `ds`. -/
structure Stopped (s s' : Timers τ π) (ds xs rs : List τ) : Prop where
  linked : Linked s' (without ds xs) rs
  other : ∀ u, u ∉ ds → s'.timers u = s.timers u
  reload : ∀ u, s'.reload u = if u ∈ ds ∧ u ∈ xs then 0 else s.reload u
  rem : ∀ u ∈ ds, s'.rem u = 0
  magic : ∀ u ∈ ds, (s'.timers u).magic = .magic2
  made : ∀ u, s'.Made u ↔ s.Made u
  unsynch : without ds xs ≠ [] → s'.timerTickUnsynch = s.timerTickUnsynch
  unsynch_le : s'.timerTickUnsynch ≤ s.timerTickUnsynch
  history : s'.history = (ds.map TimerEvent.destroy).reverse ++ s.history
  ticksCnt : s'.ticksCnt = s.ticksCnt

theorem destroyAll_stopped (ds : List τ) {xs rs : List τ} {s : Timers τ π} (h : Linked s xs rs)
    (hm : ∀ t ∈ ds, s.Made t) : ∃ s', destroyAll ds s = .ok s' ∧ Stopped s s' ds xs rs := by
  induction ds generalizing s xs with
  | nil =>
    refine ⟨s, rfl, ⟨by simpa using h, fun _ _ => rfl, by simp, by simp, by simp,
      fun _ => Iff.rfl, fun _ => rfl, le_rfl, rfl, rfl⟩⟩
  | cons d ds ih =>
    have hd : s.Made d := hm d (by simp)
    have hmade : ∀ u, (destroyed d s).Made u ↔ s.Made u := by
      intro u
      by_cases hu : u = d
      · subst hu
        simp [Timers.Made, (destroyed_timers_self u s).2] at hd ⊢
        exact hd
      · simp [Timers.Made, destroyed_timers_of_ne s hu]
    obtain ⟨s', hs', st⟩ := ih (h.destroyed hd) fun t ht => (hmade t).mpr (hm t (by simp [ht]))
    have hfil : without ds (xs.filter (· ≠ d)) = without (d :: ds) xs := by
      simp only [without, List.filter_filter]
      congr 1
      funext a
      simp [Bool.and_comm]
    refine ⟨s', by rw [destroyAll, osTimerDestroy_eq hd]; exact hs', ?_, ?_, ?_, ?_, ?_, ?_, ?_,
      ?_, ?_, ?_⟩
    · rw [← hfil]; exact st.linked
    · intro u hu
      simp only [List.mem_cons, not_or] at hu
      rw [st.other u hu.2, destroyed_timers_of_ne s hu.1]
    · intro u
      rw [st.reload u]
      by_cases hu : u = d
      · subst hu
        have hr : (destroyed u s).reload u = if u ∈ xs then 0 else s.reload u := by
          simp only [Timers.reload, destroyed_timers, Function.update_self, h.rem_pos_iff hd]
        simp [hr]
      · simp [hu, Timers.reload, destroyed_timers_of_ne s hu]
    · intro u hu
      by_cases hds : u ∈ ds
      · exact st.rem u hds
      · have hud : u = d := by simpa [hds] using hu
        subst hud
        simp only [Timers.rem, st.other u hds]
        exact (destroyed_timers_self u s).1
    · intro u hu
      by_cases hds : u ∈ ds
      · exact st.magic u hds
      · have hud : u = d := by simpa [hds] using hu
        subst hud
        rw [st.other u hds]
        exact (destroyed_timers_self u s).2
    · exact fun u => (st.made u).trans (hmade u)
    · intro hne
      rw [← hfil] at hne
      rw [st.unsynch hne, destroyed_unsynch, if_neg]
      intro he
      have := (listIsEmpty_iff (h.destroyed hd).rings.active).mp he
      simp only [List.map_eq_nil_iff] at this
      rw [this] at hne
      exact hne rfl
    · refine Nat.le_trans st.unsynch_le ?_
      rw [destroyed_unsynch]
      split
      · exact Nat.zero_le _
      · exact le_rfl
    · rw [st.history, destroyed_history]
      simp
    · rw [st.ticksCnt, destroyed_ticksCnt]

end RadOs
