import RadOs.Timer.Refinement

/-! # Callbacks that stop timers

The first loop of `timer_trigger` reads the successor of a timer before it runs
the callback. When the callback stops that successor, `list_unlink` leaves its
node pointing at itself and the loop never leaves it again. A callback that
stops an auto-reload timer which has already expired in the same pass does not
keep the timer from being armed again. Without these two kinds of calls a pass
does what it should.
-/

namespace RadOs
open LinkedRing Budget Runs

variable {τ π : Type} [DecidableEq τ] {D : τ → List τ}

/-- The position of the loop is a node outside both lists that points at itself. -/
structure Adrift (s : Timers τ π) (y : τ) (xs rs : List τ) : Prop where
  rings : Rings s.links xs rs
  alone : Ring s.links (.timer y) []
  notMem : y ∉ xs
  notMem_reload : y ∉ rs
  reload : s.reload y = 0
  mem_of_rem : ∀ t, s.Made t → 0 < s.rem t → t ∈ xs ∨ t = y

omit [DecidableEq τ] in
theorem selfLinked_of_ring {l : Links (TimerNode τ)} {h : TimerNode τ} (r : Ring l h []) :
    SelfLinked l h :=
  ⟨r.next_head, r.prev_head⟩

theorem Made_destroyed {s : Timers τ π} {t : τ} (ht : s.Made t) (u : τ) :
    (destroyed t s).Made u ↔ s.Made u := by
  by_cases hu : u = t
  · subst hu
    simp only [Timers.Made, (destroyed_timers_self u s).2]
    exact ⟨fun _ => ht, fun _ => by simp⟩
  · simp only [Timers.Made, destroyed_timers_of_ne s hu]

theorem Adrift.destroyed {s : Timers τ π} {y : τ} {xs rs : List τ} (h : Adrift s y xs rs) {t : τ}
    (ht : s.Made t) : ∃ ys, (∀ x ∈ ys, x ∈ xs) ∧ Adrift (RadOs.destroyed t s) y ys rs := by
  have hreload : (RadOs.destroyed t s).reload y = 0 := by
    by_cases hy : y = t
    · subst hy
      simp only [Timers.reload, destroyed_timers, Function.update_self]
      split
      · rfl
      · exact h.reload
    · simpa only [Timers.reload, destroyed_timers_of_ne s hy] using h.reload
  have hmem : ∀ u, (RadOs.destroyed t s).Made u → 0 < (RadOs.destroyed t s).rem u →
      u ≠ t ∧ (u ∈ xs ∨ u = y) := by
    intro u hu hr
    have hne : u ≠ t := by
      rintro rfl
      rw [(destroyed_timers_self u s).1] at hr
      exact absurd hr (Nat.lt_irrefl 0)
    simp only [Timers.rem, destroyed_timers_of_ne s hne] at hr
    exact ⟨hne, h.mem_of_rem u ((Made_destroyed ht u).mp hu) hr⟩
  by_cases hr : 0 < s.rem t
  · rcases h.mem_of_rem t ht hr with hx | rfl
    · obtain ⟨as, bs, hxs, hf⟩ := filter_ne_append h.rings.nodup hx
      have hsub : ∀ x ∈ as ++ bs, x ∈ xs := fun x hx' => by
        rw [← hf] at hx'
        exact (List.mem_filter.mp hx').1
      have hlinks : (RadOs.destroyed t s).links = listUnlink (.timer t) s.links := by
        rw [destroyed_links, if_pos hr]
      have hrings := h.rings
      rw [hxs] at hrings
      refine ⟨as ++ bs, hsub, ?_, ?_, fun e => h.notMem (hsub y e), h.notMem_reload, hreload,
        fun u hu hpos => ?_⟩
      · rw [hlinks]
        exact hrings.unlink
      · have hact : Ring s.links .timerList (as.map .timer ++ .timer t :: bs.map .timer) := by
          simpa using hrings.active
        rw [hlinks]
        refine listUnlink_ring_other hact h.alone fun u hu => ?_
        rw [List.mem_singleton.mp hu]
        simpa [hxs] using h.notMem
      · obtain ⟨hne, hu⟩ := hmem u hu hpos
        refine hu.imp_left fun hux => ?_
        rw [← hf]
        simpa using ⟨hux, hne⟩
    · refine ⟨xs, fun _ hx => hx, ?_, ?_, h.notMem, h.notMem_reload, hreload,
        fun u hu hpos => (hmem u hu hpos).2⟩
      · rw [destroyed_links, if_pos hr, listUnlink_of_selfLinked (selfLinked_of_ring h.alone)]
        exact h.rings
      · rw [destroyed_links, if_pos hr, listUnlink_of_selfLinked (selfLinked_of_ring h.alone)]
        exact h.alone
  · refine ⟨xs, fun _ hx => hx, ?_, ?_, h.notMem, h.notMem_reload, hreload,
      fun u hu hpos => (hmem u hu hpos).2⟩
    · rw [destroyed_links, if_neg hr]
      exact h.rings
    · rw [destroyed_links, if_neg hr]
      exact h.alone

theorem Adrift.destroyAll {ds : List τ} {s s' : Timers τ π} {y : τ} {xs rs : List τ}
    (h : Adrift s y xs rs) (hs : destroyAll ds s = .ok s') :
    ∃ ys, (∀ x ∈ ys, x ∈ xs) ∧ Adrift s' y ys rs := by
  induction ds generalizing s xs with
  | nil =>
    rw [RadOs.destroyAll, Except.ok.injEq] at hs
    exact ⟨xs, fun _ hx => hx, hs ▸ h⟩
  | cons d ds ih =>
    obtain ⟨s₁, hd, hs⟩ := Outcome.bind_ok hs
    have hmade := osTimerDestroy_made hd
    rw [osTimerDestroy_eq hmade, Except.ok.injEq] at hd
    subst hd
    obtain ⟨ys, hsub, h₁⟩ := h.destroyed hmade
    obtain ⟨zs, hsub', h₂⟩ := ih h₁ hs
    exact ⟨zs, fun x hx => hsub x (hsub' x hx), h₂⟩

/-- A loop that stands on such a node does not return, whatever the budget. -/
theorem Adrift.triggerLoop_ne_ok {s : Timers τ π} {y : τ} {xs rs : List τ} (h : Adrift s y xs rs)
    (n : ℕ) (s' : Timers τ π) :
    triggerLoop (fun t => RadOs.destroyAll (D t)) n (.timer y) s ≠ .ok s' := by
  induction n generalizing s xs with
  | zero => simp [triggerLoop]
  | succ n ih =>
    have hself := selfLinked_of_ring h.alone
    have hset : ∀ k, Adrift (s.setRem y k) y xs rs := by
      intro k
      refine ⟨h.rings, h.alone, h.notMem, h.notMem_reload, ?_, fun t ht hpos => ?_⟩
      · simpa [Timers.reload, Timers.setRem, Timers.setTimer] using h.reload
      · by_cases hty : t = y
        · exact .inr hty
        · simp only [Timers.Made, Timers.rem, Timers.setRem, Timers.setTimer,
            Function.update_of_ne hty] at ht hpos
          exact h.mem_of_rem t ht hpos
    simp only [triggerLoop, HasTimers.timers, HasTimers.setTimers, hself.1]
    split
    · exact ih (hset _)
    · intro hok
      obtain ⟨s₁, hc, hok⟩ := Outcome.bind_ok hok
      have hunlink : ∀ x : Timers τ π, x.links = s.links →
          x.setLinks (listUnlink (.timer y) x.links) = x := by
        intro x hx
        rw [Timers.setLinks, hx, listUnlink_of_selfLinked hself, ← hx]
      rw [hunlink (s.setRem y (ticksSub (s.rem y) s.timerTickUnsynch)) rfl] at hc
      have h₀ := hset (ticksSub (s.rem y) s.timerTickUnsynch)
      have h₁ : Adrift ((s.setRem y (ticksSub (s.rem y) s.timerTickUnsynch)).record (.fire y))
          y xs rs := ⟨h₀.rings, h₀.alone, h₀.notMem, h₀.notMem_reload, h₀.reload, h₀.mem_of_rem⟩
      obtain ⟨ys, -, h₂⟩ := h₁.destroyAll hc
      rw [if_neg (by rw [h₂.reload]; exact Nat.lt_irrefl 0)] at hok
      exact ih h₂ hok

/-- A callback that stops a timer on the list leaves the node of that timer adrift. -/
theorem Linked.adrift {ds : List τ} {s s' : Timers τ π} {y : τ} {xs rs : List τ}
    (h : Linked s xs rs) (hx : y ∈ xs) (hy : y ∈ ds) (hs : destroyAll ds s = .ok s') :
    ∃ ys, (∀ x ∈ ys, x ∈ xs) ∧ Adrift s' y ys rs := by
  induction ds generalizing s xs with
  | nil => simp at hy
  | cons d ds ih =>
    obtain ⟨s₁, hd, hs⟩ := Outcome.bind_ok hs
    have hmade := osTimerDestroy_made hd
    rw [osTimerDestroy_eq hmade, Except.ok.injEq] at hd
    subst hd
    have h₁ := h.destroyed hmade
    have hsub : ∀ x ∈ xs.filter (· ≠ d), x ∈ xs := fun x hx => (List.mem_filter.mp hx).1
    by_cases hyd : y = d
    · subst hyd
      have hpos := h.rem_pos y hx
      have h₂ : Adrift (RadOs.destroyed y s) y (xs.filter (· ≠ y)) rs := by
        refine ⟨h₁.rings, ?_, by simp, h.rings.disjoint y hx, ?_, fun t ht hr => ?_⟩
        · rw [destroyed_links, if_pos hpos]
          exact listInit_ring _ _
        · simp only [Timers.reload, destroyed_timers, Function.update_self, if_pos hpos]
        · exact .inl (h₁.mem_of_rem t ht hr)
      obtain ⟨zs, hsub', h₃⟩ := h₂.destroyAll hs
      exact ⟨zs, fun x hx => hsub x (hsub' x hx), h₃⟩
    · have hy' : y ∈ ds := by simpa [hyd] using hy
      obtain ⟨zs, hsub', h₃⟩ := ih h₁ (by simpa using ⟨hx, hyd⟩) hy' hs
      exact ⟨zs, fun x hx => hsub x (hsub' x hx), h₃⟩

theorem Adrift.requeue {s : Timers τ π} {y t : τ} {xs rs : List τ} (h : Adrift s y xs rs)
    (hyt : y ≠ t) (hx : t ∉ xs) (hr : t ∉ rs) :
    ∃ rs', Adrift (RadOs.requeue t s) y xs rs' := by
  by_cases hpos : 0 < s.reload t
  · have he : RadOs.requeue t s =
        s.setLinks (listAppend .listAutoreload (.timer t) s.links) := if_pos hpos
    have rr : Ring s.links .listAutoreload (rs.map .timer ++ []) := by simpa using h.rings.reload
    have ha : listAppend .listAutoreload (.timer t) s.links =
        listPutInBetween (.timer t) (lastNode .listAutoreload (rs.map .timer))
          (firstNode [] .listAutoreload) s.links := listPutBefore_eq rr (.timer t)
    refine ⟨rs ++ [t], ?_⟩
    rw [he]
    refine ⟨h.rings.append hx hr, ?_, h.notMem, ?_, h.reload, h.mem_of_rem⟩
    · rw [Timers.setLinks, ha]
      refine listPutInBetween_ring_other h.alone (by simpa using Ne.symm hyt) fun u hu => ?_
      rw [List.mem_singleton.mp hu]
      simpa using h.notMem_reload
    · simpa [hyt] using h.notMem_reload
  · have he : RadOs.requeue t s = s := if_neg hpos
    exact ⟨rs, by rwa [he]⟩

/-- The first loop of `timer_trigger` does not return when a callback stops the next timer. -/
theorem Sweeping.triggerLoop_ne_ok {due : τ → Bool} {u : ℕ} {s : Timers τ π} {q rs : List τ}
    (h : Sweeping D due u s q rs) (hspare : ¬SparesNext D due q) (n : ℕ) (s' : Timers τ π) :
    triggerLoop (fun t => destroyAll (D t)) n (firstNode (q.map .timer) .timerList) s ≠ .ok s' := by
  induction q using firings.induct D due generalizing s rs n with
  | case1 =>
    exact absurd (by rw [SparesNext]; trivial) hspare
  | case3 t p hdt =>
    exact absurd (by rw [SparesNext]; exact fun e => absurd e hdt) hspare
  | case2 t p hdt ih =>
    cases n with
    | zero => simp [triggerLoop]
    | succ n =>
      have htp : t ∉ p := (List.nodup_cons.mp h.linked.rings.nodup).1
      have htr : t ∉ rs := h.linked.rings.disjoint t (by simp)
      by_cases hy : ∀ y ∈ p.head?, y ∉ D t
      · obtain ⟨s₁, st, hl, hstep⟩ :=
          sweep_step h.linked (h.made t (by simp)) (h.expired hdt) hy
        have hrest : ¬SparesNext D due (without (D t) p) := by
          intro hrest
          rw [SparesNext] at hspare
          exact hspare fun _ => ⟨hy, hrest⟩
        rw [List.map_cons, firstNode_cons, hstep n]
        exact ih (h.step st hl) hrest n
      · -- the saved position is `y`, which the callback has unlinked
        obtain ⟨y, hhead, hyD⟩ : ∃ y, y ∈ p.head? ∧ y ∈ D t := by
          simpa only [not_forall, not_not, exists_prop] using hy
        obtain ⟨p', rfl⟩ : ∃ p', p = y :: p' := by
          cases p with
          | nil => simp at hhead
          | cons z p' =>
            simp only [List.head?_cons, Option.mem_def, Option.some.injEq] at hhead
            exact ⟨p', by rw [hhead]⟩
        obtain ⟨s₁, hs₁, st⟩ := destroyAll_stopped (D t) h.linked.expire
          fun d hd => by simpa [Timers.Made] using h.made t (by simp) d hd
        obtain ⟨ys, hsub, ha⟩ := h.linked.expire.adrift (by simp) hyD hs₁
        have hyt : y ≠ t := fun e => htp (by simp [e])
        obtain ⟨rs', ha'⟩ := ha.requeue hyt (fun e => htp (hsub t e)) htr
        have hstep := triggerLoop_expired (fun t => destroyAll (D t)) h.linked.rings
          (h.expired hdt) hs₁ n
        have hgo : triggerLoop (fun t => destroyAll (D t)) (n + 1) (.timer t) s =
            triggerLoop (fun t => destroyAll (D t)) n (.timer y) (requeue t s₁) := by
          rw [hstep, requeue]
          split <;> rfl
        rw [List.map_cons, firstNode_cons, hgo]
        exact ha'.triggerLoop_ne_ok n s'

section History

/-- The last call on the timer was `os_timer_destroy`. -/
def retired (t : τ) : List (TimerEvent τ) → Bool
  | [] => false
  | .create x _ _ :: h => if x = t then false else retired t h
  | .destroy x :: h => if x = t then true else retired t h
  | _ :: h => retired t h

/-- No callback runs between the destruction of its timer and the next creation. -/
def Final (h : List (TimerEvent τ)) : Prop :=
  ∀ t h₁ h₂, h = h₂ ++ .destroy t :: h₁ → (∀ a b, .create t a b ∉ h₂) → .fire t ∉ h₂

variable {h : List (TimerEvent τ)} {t : τ}

theorem retired_append_of_notMem {g : List (TimerEvent τ)} (hc : ∀ a b, .create t a b ∉ g)
    (hd : .destroy t ∉ g) : retired t (g ++ h) = retired t h := by
  induction g with
  | nil => rfl
  | cons e g ih =>
    have hrest := ih (fun a b hm => hc a b (List.mem_cons_of_mem e hm))
      fun hm => hd (List.mem_cons_of_mem e hm)
    cases e with
    | tick => exact hrest
    | fire x => exact hrest
    | create x a b =>
      have hx : x ≠ t := fun e => hc a b (by simp [e])
      rw [List.cons_append, retired, if_neg hx, hrest]
    | destroy x =>
      have hx : x ≠ t := fun e => hd (by simp [e])
      rw [List.cons_append, retired, if_neg hx, hrest]

theorem retired_of_destroy {g : List (TimerEvent τ)} (hc : ∀ a b, .create t a b ∉ g)
    (hd : .destroy t ∈ g ∨ retired t h = true) : retired t (g ++ h) = true := by
  induction g with
  | nil => simpa using hd
  | cons e g ih =>
    have hc' : ∀ a b, .create t a b ∉ g := fun a b hm => hc a b (List.mem_cons_of_mem e hm)
    cases e with
    | tick => exact ih hc' (by simpa using hd)
    | fire x => exact ih hc' (by simpa using hd)
    | create x a b =>
      have hx : x ≠ t := fun e => hc a b (by simp [e])
      rw [List.cons_append, retired, if_neg hx]
      exact ih hc' (by simpa using hd)
    | destroy x =>
      rw [List.cons_append, retired]
      split
      · rfl
      · rename_i hx
        exact ih hc' (by simpa [Ne.symm hx] using hd)

/-- It is enough to look at the past of every call of a callback. -/
theorem final_of_suffix (hs : ∀ t h₁, .fire t :: h₁ <:+ h → retired t h₁ = false) : Final h := by
  rintro t h₁ h₂ rfl hc hf
  obtain ⟨a, b, rfl⟩ := List.append_of_mem hf
  have hsuf : .fire t :: (b ++ .destroy t :: h₁) <:+ (a ++ .fire t :: b) ++ .destroy t :: h₁ :=
    ⟨a, by simp⟩
  have hret : retired t (b ++ .destroy t :: h₁) = true :=
    retired_of_destroy (fun x y hm => hc x y (by simp [hm])) (.inr (by simp [retired]))
  rw [hs t _ hsuf] at hret
  exact Bool.false_ne_true hret

/-- The events of a pass over the timers `q`, latest first. -/
def passEvents (D : τ → List τ) (due : τ → Bool) (q : List τ) : List (TimerEvent τ) :=
  ((firings D due q).flatMap fun t => .fire t :: (D t).map .destroy).reverse

theorem fire_mem_passEvents {due : τ → Bool} {q : List τ} :
    .fire t ∈ passEvents D due q ↔ t ∈ firings D due q := by
  simp [passEvents]

theorem destroy_mem_passEvents {due : τ → Bool} {q : List τ} :
    .destroy t ∈ passEvents D due q ↔ t ∈ stoppedBy D due q := by
  simp [passEvents, stoppedBy]

theorem create_notMem_passEvents {due : τ → Bool} {q : List τ} (a b : ℕ) :
    .create t a b ∉ passEvents D due q := by
  simp [passEvents]

/-- In a pass no timer fires that was stopped before. -/
theorem passEvents_suffix {due : τ → Bool} {q : List τ} (hq : q.Nodup)
    (hr : ∀ t ∈ q, retired t h = false)
    (hs : ∀ t h₁, .fire t :: h₁ <:+ h → retired t h₁ = false) :
    ∀ t h₁, .fire t :: h₁ <:+ passEvents D due q ++ h → retired t h₁ = false := by
  induction q using firings.induct D due generalizing h with
  | case1 => simpa [passEvents, firings] using hs
  | case3 t p hdt => simpa [passEvents, firings_cons_neg (Bool.eq_false_of_not_eq_true hdt)] using hs
  | case2 t p hdt ih =>
    obtain ⟨htp, hp⟩ := List.nodup_cons.mp hq
    have hsplit : passEvents D due (t :: p) ++ h = passEvents D due (without (D t) p) ++
        (((D t).map TimerEvent.destroy).reverse ++ .fire t :: h) := by
      simp [passEvents, firings_cons hdt]
    rw [hsplit]
    refine ih (hp.filter _) (fun x hx => ?_) fun x h₁ hsuf => ?_
    · obtain ⟨hxp, hxD⟩ := mem_without.mp hx
      rw [retired_append_of_notMem (by simp) (by simpa using hxD)]
      exact hr x (by simp [hxp])
    · obtain ⟨g, hg⟩ := hsuf
      rcases List.append_eq_append_iff.mp hg with ⟨g', hg', hrest⟩ | ⟨g', hg', hrest⟩
      · -- the call is not among the destroy events
        cases g' with
        | nil =>
          obtain ⟨rfl, rfl⟩ : t = x ∧ h = h₁ := by simpa using hrest.symm
          exact hr t (by simp)
        | cons e g' =>
          have he : e = .fire x := by simpa using (List.cons.inj hrest).1.symm
          have hmem : (.fire x : TimerEvent τ) ∈ ((D t).map TimerEvent.destroy).reverse := by
            rw [hg', he]
            simp
          simp at hmem
      · cases g' with
        | nil =>
          obtain ⟨rfl, rfl⟩ : t = x ∧ h = h₁ := by simpa using hrest
          exact hr t (by simp)
        | cons e g' =>
          have hrest' := (List.cons.inj hrest).2
          exact hs x h₁ ⟨g', hrest'.symm⟩

end History

/-- `os_tick` starts a pass over the timer list. -/
def Timers.Passes (s : Timers τ π) : Prop :=
  ∃ x, s.links.next .timerList = .timer x ∧
    (s.rem x ≤ s.timerTickUnsynch + 1 ∨ osTimerUnsynchMax < s.timerTickUnsynch + 1)

/-- What a tick that returns leaves behind when the callbacks stop the timers `D`. -/
structure StopTicked (D : τ → List τ) (s s' : Timers τ π) (xs ys : List τ) : Prop where
  ring : Ring s'.links .timerList (ys.map .timer)
  mem : ∀ t, t ∈ ys ↔ t ∈ rearmed D s.counted xs ∨ t ∈ survivors D s.counted.due xs
  rem_pass : s.Passes → ∀ t ∈ survivors D s.counted.due xs,
    s'.rem t = s.rem t - (s.timerTickUnsynch + 1)
  rem_quick : ¬s.Passes → ∀ t ∈ survivors D s.counted.due xs, s'.rem t = s.rem t
  magic : ∀ t, (s'.timers t).magic =
    if t ∈ stoppedBy D s.counted.due xs then .magic2 else (s.timers t).magic
  history : s'.history = passEvents D s.counted.due xs ++ .tick :: s.history
  armed : SparesReloaded D s.counted xs → Armed s' ys

theorem firings_eq_nil {due : τ → Bool} {q : List τ} (h : ∀ t ∈ q, due t = false) :
    firings D due q = [] := by
  cases q with
  | nil => simp [firings]
  | cons t p => exact firings_cons_neg (h t (by simp))

theorem stopTicked_of_not_due {s s' : Timers τ π} {xs : List τ}
    (hdue : ∀ t ∈ xs, s.counted.due t = false) (ha : Armed s' xs) (ht : s'.timers = s.timers)
    (hp : ¬s.Passes) (hh : s'.history = .tick :: s.history) : StopTicked D s s' xs xs := by
  have hf : firings D s.counted.due xs = [] := firings_eq_nil hdue
  have hstop : stoppedBy D s.counted.due xs = [] := by simp [stoppedBy, hf]
  have hsurv : survivors D s.counted.due xs = xs := by
    rw [survivors, hstop, without_nil, List.filter_eq_self]
    exact fun t ht => by simp [hdue t ht]
  refine ⟨ha.ring, fun t => ?_, fun h => absurd h hp, fun _ t _ => ?_, fun t => ?_, ?_, fun _ => ha⟩
  · simp [rearmed, hf, hsurv]
  · simp only [Timers.rem, ht]
  · simp [hstop, ht]
  · simp [passEvents, hf, hh]

/-- With callbacks that spare the next timer, `os_tick` returns. -/
theorem Armed.tick_stopping {s : Timers τ π} {xs : List τ} (h : Armed s xs)
    (hm : ∀ t ∈ xs, ∀ d ∈ D t, s.Made d) (hspare : SparesNext D s.counted.due xs) :
    ∃ s' ys, Settles (fun n => osTickTimers (fun t => destroyAll (D t)) n s) (.ok s') ∧
      StopTicked D s s' xs ys := by
  cases xs with
  | nil =>
    have hq : ¬s.Passes := by
      rintro ⟨x, hx, -⟩
      have := h.ring.next_head
      simp [hx] at this
    refine ⟨s.countedIdle, [], ?_, stopTicked_of_not_due (by simp) ?_ rfl hq rfl⟩
    · simp only [osTickTimers_nil h]
      exact settles_const _
    · exact ⟨h.ring, by simp, by simp, by simp, by simp, h.mem_of_rem, by simp, h.unsynch_le,
        h.unsynch_nil⟩
  | cons x xs =>
    have hnext : s.links.next .timerList = .timer x := h.ring.next_head
    by_cases hq : s.rem x ≤ s.timerTickUnsynch + 1 ∨ osTimerUnsynchMax < s.timerTickUnsynch + 1
    · have hu : s.counted.timerTickUnsynch = s.timerTickUnsynch + 1 := ticksAdd_unsynch h
      obtain ⟨s', hset, sv⟩ := timerTrigger_settles (D := D) h.pending hm hspare
      refine ⟨s', servedList D s.counted s' (x :: xs), hset.congr fun n => ?_, sv.ring,
        fun t => mem_servedList, fun _ t ht => ?_, fun hp => absurd ⟨x, hnext, hq⟩ hp, sv.magic,
        sv.history, fun hr => sv.armed h.pending hm hr⟩
      · rw [osTickTimers_cons h, if_pos hq]
      · rw [sv.rem_survivor t ht, hu]
        rfl
    · have hp : ¬s.Passes := by
        rintro ⟨y, hy, hpass⟩
        rw [hnext, TimerNode.timer.injEq] at hy
        exact hq (hy ▸ hpass)
      have hdue : ∀ t ∈ x :: xs, s.counted.due t = false := by
        intro t ht
        have := (h.counted hq).above t ht
        simp only [Timers.due, decide_eq_false_iff_not]
        omega
      refine ⟨s.counted, x :: xs, ?_, stopTicked_of_not_due hdue (h.counted hq) rfl hp rfl⟩
      simp only [osTickTimers_cons h, if_neg hq]
      exact settles_const _

/-- With a callback that stops the next timer, it does not. -/
theorem Armed.tick_ne_ok {s : Timers τ π} {xs : List τ} (h : Armed s xs)
    (hm : ∀ t ∈ xs, ∀ d ∈ D t, s.Made d) (hspare : ¬SparesNext D s.counted.due xs) (n : ℕ)
    (s' : Timers τ π) : osTickTimers (fun t => destroyAll (D t)) n s ≠ .ok s' := by
  cases xs with
  | nil => exact absurd (by rw [SparesNext]; trivial) hspare
  | cons x xs =>
    have hdx : s.counted.due x = true := by
      by_contra hd
      exact hspare (by rw [SparesNext]; exact fun e => absurd e hd)
    have hu : s.counted.timerTickUnsynch = s.timerTickUnsynch + 1 := ticksAdd_unsynch h
    have hq : s.rem x ≤ s.timerTickUnsynch + 1 := by
      have hx : s.rem x = s.counted.timerTickUnsynch := of_decide_eq_true hdx
      omega
    rw [osTickTimers_cons h, if_pos (.inl hq)]
    intro hok
    obtain ⟨s₁, hloop, -⟩ := Outcome.bind_ok hok
    have hfirst : (s.counted.setLinks (listInit .listAutoreload s.counted.links)).links.next
        .timerList = firstNode ((x :: xs).map .timer) .timerList :=
      h.pending.linked.rings.next_head
    simp only [HasTimers.timers, HasTimers.setTimers, hfirst] at hloop
    exact (h.pending.sweeping hm).triggerLoop_ne_ok hspare n s₁ hloop

end RadOs
