import RadOs.Timer.Basic

/-! # The two timer lists as sequences

`Rings l xs rs` says that the heap holds the timer list `xs` and the temporary
list `rs` of `timer_trigger`, with no timer on both. Each list operation of the
module is described once on these sequences.
-/

namespace RadOs
open LinkedRing Budget

variable {τ π : Type} [DecidableEq τ]

structure Rings (l : Links (TimerNode τ)) (xs rs : List τ) : Prop where
  active : Ring l .timerList (xs.map .timer)
  reload : Ring l .listAutoreload (rs.map .timer)
  disjoint : ∀ t ∈ xs, t ∉ rs

omit [DecidableEq τ] in
theorem map_timer_nodup {h : TimerNode τ} {l : Links (TimerNode τ)} {xs : List τ}
    (r : Ring l h (xs.map .timer)) : xs.Nodup :=
  List.Nodup.of_map _ r.elems_nodup

omit [DecidableEq τ] in
/-- A ring determines its timers. -/
theorem timers_eq_of_ring {h : TimerNode τ} {l : Links (TimerNode τ)} {xs ys : List τ}
    (r : Ring l h (xs.map .timer)) (r' : Ring l h (ys.map .timer)) : xs = ys :=
  (List.map_injective_iff.mpr fun a b e => by simpa using e) (r.unique r')

omit [DecidableEq τ] in
theorem Rings.nodup {l : Links (TimerNode τ)} {xs rs : List τ} (r : Rings l xs rs) : xs.Nodup :=
  map_timer_nodup r.active

omit [DecidableEq τ] in
theorem Rings.nodup_reload {l : Links (TimerNode τ)} {xs rs : List τ} (r : Rings l xs rs) :
    rs.Nodup :=
  map_timer_nodup r.reload

theorem Rings.unlink {l : Links (TimerNode τ)} {a b rs : List τ} {t : τ}
    (r : Rings l (a ++ t :: b) rs) : Rings (listUnlink (.timer t) l) (a ++ b) rs := by
  have ra : Ring l .timerList (a.map .timer ++ .timer t :: b.map .timer) := by
    simpa using r.active
  refine ⟨?_, ?_, fun x hx => r.disjoint x (by grind)⟩
  · simpa using listUnlink_ring ra
  · apply listUnlink_ring_other ra r.reload
    intro u hu hm
    have := r.disjoint
    grind

theorem Rings.initNode {l : Links (TimerNode τ)} {xs rs : List τ} {t : τ} (r : Rings l xs rs)
    (hx : t ∉ xs) (hr : t ∉ rs) : Rings (listInit (.timer t) l) xs rs := by
  have hne : ∀ (h : TimerNode τ) (ys : List τ), h ≠ .timer t → t ∉ ys →
      ∀ u ∈ h :: ys.map TimerNode.timer, u ≠ .timer t := by
    rintro h ys hh hy u hu rfl
    simp only [List.mem_cons, List.mem_map, TimerNode.timer.injEq, exists_eq_right] at hu
    exact hu.elim (fun e => hh e.symm) hy
  refine ⟨r.active.frame (fun u hu => ?_) (fun u hu => ?_),
    r.reload.frame (fun u hu => ?_) (fun u hu => ?_), r.disjoint⟩
  · exact listInit_next_of_ne l (hne _ _ (by simp) hx u hu)
  · exact listInit_prev_of_ne l (hne _ _ (by simp) hx u hu)
  · exact listInit_next_of_ne l (hne _ _ (by simp) hr u hu)
  · exact listInit_prev_of_ne l (hne _ _ (by simp) hr u hu)

theorem Rings.append {l : Links (TimerNode τ)} {xs rs : List τ} {t : τ} (r : Rings l xs rs)
    (hx : t ∉ xs) (hr : t ∉ rs) :
    Rings (listAppend .listAutoreload (.timer t) l) xs (rs ++ [t]) := by
  have rr : Ring l .listAutoreload (rs.map .timer ++ []) := by simpa using r.reload
  have he : listAppend .listAutoreload (.timer t) l =
      listPutInBetween (.timer t) (lastNode .listAutoreload (rs.map .timer))
        (firstNode [] .listAutoreload) l :=
    listPutBefore_eq rr (.timer t)
  refine ⟨?_, ?_, ?_⟩
  · rw [he]
    apply listPutInBetween_ring_other r.active
    · simpa using hx
    · intro u hu hm
      have := r.disjoint
      grind
  · simpa using listAppend_ring r.reload (by simpa using hr)
  · intro x hxs
    have := r.disjoint x hxs
    grind

theorem Rings.putBefore {l : Links (TimerNode τ)} {as bs rs : List τ} {t : τ}
    (r : Rings l (as ++ bs) rs) (hx : t ∉ as ++ bs) (hr : t ∉ rs) :
    Rings (listPutBefore (firstNode (bs.map .timer) .timerList) (.timer t) l)
      (as ++ t :: bs) rs := by
  have ra : Ring l .timerList (as.map .timer ++ bs.map .timer) := by simpa using r.active
  refine ⟨?_, ?_, ?_⟩
  · have hn : TimerNode.timer t ∉ TimerNode.timerList :: (as.map .timer ++ bs.map .timer) := by
      simpa using hx
    simpa using listPutBefore_ring ra hn
  · rw [listPutBefore_eq ra]
    apply listPutInBetween_ring_other r.reload
    · simpa using hr
    · intro u hu hm
      have := r.disjoint
      grind
  · intro x hxs
    have := r.disjoint x
    grind

theorem Rings.detach {l : Links (TimerNode τ)} {xs rs : List τ} {t : τ}
    (r : Rings l xs (t :: rs)) :
    listDetachfirst .listAutoreload l = some (.timer t, listUnlink (.timer t) l) ∧
      Rings (listUnlink (.timer t) l) xs rs := by
  have rr : Ring l .listAutoreload ([] ++ TimerNode.timer t :: rs.map .timer) := by
    simpa using r.reload
  refine ⟨listDetachfirst_cons (by simpa using r.reload), ?_, ?_, ?_⟩
  · apply listUnlink_ring_other rr r.active
    intro u hu hm
    have := r.disjoint
    grind
  · simpa using listUnlink_ring rr
  · intro x hx
    have := r.disjoint x hx
    grind

omit [DecidableEq τ] in
theorem Rings.next_head {l : Links (TimerNode τ)} {xs rs : List τ} (r : Rings l xs rs) :
    l.next .timerList = firstNode (xs.map .timer) .timerList :=
  r.active.next_head

omit [DecidableEq τ] in
theorem Rings.next_mid {l : Links (TimerNode τ)} {a b rs : List τ} {t : τ}
    (r : Rings l (a ++ t :: b) rs) :
    l.next (.timer t) = firstNode (b.map .timer) .timerList := by
  have ra := r.active
  rw [List.map_append, List.map_cons] at ra
  exact ra.next_mid

/-- Where `timer_add` puts a timer: in front of the first one that burns off strictly later. -/
def insertTimer (rem : τ → ℕ) (t : τ) : List τ → List τ
  | [] => [t]
  | x :: xs => if rem t < rem x then t :: x :: xs else x :: insertTimer rem t xs

omit [DecidableEq τ] in
theorem mem_insertTimer {rem : τ → ℕ} {t u : τ} {xs : List τ} :
    u ∈ insertTimer rem t xs ↔ u = t ∨ u ∈ xs := by
  induction xs with
  | nil => simp [insertTimer]
  | cons x xs ih =>
    unfold insertTimer
    split
    · simp
    · simp only [List.mem_cons, ih]
      tauto

omit [DecidableEq τ] in
theorem next_mid_timer {l : Links (TimerNode τ)} {as bs : List τ} {t : τ}
    (r : Ring l .timerList ((as ++ t :: bs).map .timer)) :
    l.next (.timer t) = firstNode (bs.map .timer) .timerList := by
  rw [List.map_append, List.map_cons] at r
  exact r.next_mid

omit [DecidableEq τ] in
/-- The place is a cut of the list: everything before it burns off no later. -/
theorem timerAddLoop_settles {s : Timers τ π} {a bs : List τ}
    (r : Ring s.links .timerList ((a ++ bs).map .timer)) (t : τ) :
    ∃ cs ds, bs = cs ++ ds ∧ insertTimer s.rem t bs = cs ++ t :: ds ∧
      Settles (fun n => timerAddLoop s (s.rem t) n (firstNode (bs.map .timer) .timerList))
        (.ok (firstNode (ds.map .timer) .timerList)) := by
  induction bs generalizing a with
  | nil =>
    refine ⟨[], [], rfl, rfl, (settles_const _).of_succ fun n => ?_⟩
    rfl
  | cons b bs ih =>
    by_cases hb : s.rem t < s.rem b
    · refine ⟨[], b :: bs, rfl, by simp [insertTimer, hb], (settles_const _).of_succ fun n => ?_⟩
      simp [timerAddLoop, hb]
    · obtain ⟨cs, ds, rfl, hins, hset⟩ := ih (a := a ++ [b]) (by simpa using r)
      refine ⟨b :: cs, ds, rfl, by simp [insertTimer, hb, hins], hset.of_succ fun n => ?_⟩
      simp [timerAddLoop, hb, next_mid_timer r]

theorem timerAdd_cut {s : Timers τ π} {xs : List τ} (r : Ring s.links .timerList (xs.map .timer))
    (t : τ) : ∃ as bs, xs = as ++ bs ∧ insertTimer s.rem t xs = as ++ t :: bs ∧
      Settles (fun n => timerAdd n t s) (.ok (s.setLinks
        (listPutBefore (firstNode (bs.map .timer) .timerList) (.timer t) s.links))) := by
  obtain ⟨as, bs, hxs, hins, hset⟩ := timerAddLoop_settles (a := []) r t
  refine ⟨as, bs, hxs, hins, ?_⟩
  unfold timerAdd
  rw [r.next_head]
  exact hset.bind (settles_const _)

/-- `timer_add` on the timer list alone. -/
theorem timerAdd_ring {s : Timers τ π} {xs : List τ} {t : τ}
    (r : Ring s.links .timerList (xs.map .timer)) (hx : t ∉ xs) :
    ∃ l, Settles (fun n => timerAdd n t s) (.ok (s.setLinks l)) ∧
      Ring l .timerList ((insertTimer s.rem t xs).map .timer) := by
  obtain ⟨as, bs, rfl, hins, hset⟩ := timerAdd_cut r t
  refine ⟨_, hset, ?_⟩
  rw [hins]
  rw [List.map_append] at r
  have hn : TimerNode.timer t ∉ TimerNode.timerList :: (as.map .timer ++ bs.map .timer) := by
    simpa using hx
  simpa using listPutBefore_ring r hn

/-- `timer_add` while the temporary list is in use. -/
theorem timerAdd_settles {s : Timers τ π} {xs rs : List τ} {t : τ} (r : Rings s.links xs rs)
    (hx : t ∉ xs) (hr : t ∉ rs) :
    ∃ l, Settles (fun n => timerAdd n t s) (.ok (s.setLinks l)) ∧
      Rings l (insertTimer s.rem t xs) rs := by
  obtain ⟨as, bs, rfl, hins, hset⟩ := timerAdd_cut r.active t
  exact ⟨_, hset, hins ▸ r.putBefore hx hr⟩

end RadOs
