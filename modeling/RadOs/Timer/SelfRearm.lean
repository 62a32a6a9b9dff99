import RadOs.Timer.Rearming

/-! # A timer that creates itself with a reload value

When the callback of a timer destroys and creates this same timer with a reload
value, `timer_trigger` finds the value after the callback and appends the timer
to its temporary list although it is on the timer list. From then on the timer
list leads into the temporary one. Either the first loop runs into the head of
the temporary list, or the second loop puts timers back in front of the one it
will never get past.
-/

namespace RadOs
open LinkedRing Budget Runs

variable {τ π : Type} [DecidableEq τ]

/-- Following `next` through the timers `q` leads to the node `b`. -/
def Chain (l : Links (TimerNode τ)) : List τ → TimerNode τ → Prop
  | [], _ => True
  | t :: q, b => l.next (.timer t) = firstNode (q.map .timer) b ∧ Chain l q b

omit [DecidableEq τ] in
theorem Chain.frame {l l' : Links (TimerNode τ)} {q : List τ} {b : TimerNode τ} (h : Chain l q b)
    (hn : ∀ t ∈ q, l'.next (.timer t) = l.next (.timer t)) : Chain l' q b := by
  induction q with
  | nil => trivial
  | cons t q ih =>
    exact ⟨(hn t (by simp)).trans h.1, ih h.2 fun x hx => hn x (List.mem_cons_of_mem t hx)⟩

omit [DecidableEq τ] in
theorem chain_append {l : Links (TimerNode τ)} {q r : List τ} {b : TimerNode τ} :
    Chain l (q ++ r) b ↔ Chain l q (firstNode (r.map .timer) b) ∧ Chain l r b := by
  induction q with
  | nil => simp [Chain]
  | cons t q ih =>
    have hf : firstNode ((q ++ r).map TimerNode.timer) b =
        firstNode (q.map .timer) (firstNode (r.map .timer) b) := by
      cases q <;> rfl
    simp only [List.cons_append, Chain, ih, hf, and_assoc]

omit [DecidableEq τ] in
theorem Ring.chain {l : Links (TimerNode τ)} {h : TimerNode τ} {a q : List τ}
    (r : Ring l h ((a ++ q).map .timer)) : Chain l q h := by
  induction q generalizing a with
  | nil => trivial
  | cons t q ih =>
    refine ⟨?_, ih (a := a ++ [t]) (by simpa using r)⟩
    rw [List.map_append, List.map_cons] at r
    exact r.next_mid

/-- The first loop on timers that do not expire only follows the chain. -/
theorem triggerLoop_chain {clbck : τ → Timers τ π → Outcome (Timers τ π)} {s s' : Timers τ π}
    {q : List τ} {b : TimerNode τ} (hc : Chain s.links q b) (hq : q.Nodup)
    (hp : ∀ t ∈ q, 0 < ticksSub (s.rem t) s.timerTickUnsynch) {n : ℕ}
    (h : triggerLoop clbck n (firstNode (q.map .timer) b) s = .ok s') :
    ∃ m s₁, s₁.links = s.links ∧ triggerLoop clbck m b s₁ = .ok s' := by
  induction q generalizing s n with
  | nil => exact ⟨n, s, rfl, h⟩
  | cons t q ih =>
    cases n with
    | zero => simp [triggerLoop] at h
    | succ n =>
      obtain ⟨htq, hq⟩ := List.nodup_cons.mp hq
      simp only [List.map_cons, firstNode_cons, triggerLoop, HasTimers.timers,
        HasTimers.setTimers] at h
      rw [if_pos (hp t (by simp)), hc.1] at h
      refine ih (s := s.setRem t (ticksSub (s.rem t) s.timerTickUnsynch)) hc.2 hq (fun x hx => ?_) h
      have hxt : x ≠ t := fun e => htq (e ▸ hx)
      have hr : (s.setRem t (ticksSub (s.rem t) s.timerTickUnsynch)).rem x = s.rem x := by
        simp [Timers.setRem, Timers.setTimer, Timers.rem, hxt]
      rw [hr]
      exact hp x (by simp [hx])

theorem triggerLoop_listAutoreload {clbck : τ → Timers τ π → Outcome (Timers τ π)}
    {s s' : Timers τ π} (n : ℕ) : triggerLoop clbck n .listAutoreload s ≠ .ok s' := by
  cases n <;> simp [triggerLoop]

/-- The timer list leads from the timers `q` to `x` and on into the temporary list. -/
structure Astray (s : Timers τ π) (u : ℕ) (q : List τ) (x : τ) (zs : List τ) : Prop where
  chain : Chain s.links (q ++ x :: zs) .listAutoreload
  prev_first : ∀ c ∈ q.head?, s.links.prev (.timer c) = .timerList
  prev_last : s.links.prev .listAutoreload = lastNode (.timer x) (zs.map .timer)
  nodup : (q ++ x :: zs).Nodup
  unsynch : s.timerTickUnsynch = u
  unsynch_pos : 0 < u
  bound : ∀ c ∈ q, u ≤ s.rem c ∧ s.rem c < ticksMod
  sorted : q.Pairwise fun a b => s.rem a ≤ s.rem b
  rem_self : u < s.rem x ∧ s.rem x < ticksMod
  rem_zero : ∀ z ∈ zs, s.rem z = 0

theorem ticksSub_pos {a u : ℕ} (hu : 0 < u) (hm : u < ticksMod)
    (ha : a = 0 ∨ u < a ∧ a < ticksMod) : 0 < ticksSub a u := by
  rcases ha with rfl | ⟨h₁, h₂⟩
  · rw [ticksSub, Nat.mod_eq_of_lt (by omega)]
    omega
  · rw [ticksSub_of_le (Nat.le_of_lt h₁) h₂]
    omega

theorem triggerLoop_fire (clbck : τ → Timers τ π → Outcome (Timers τ π)) {s s' : Timers τ π} {t : τ}
    (hz : ticksSub (s.rem t) s.timerTickUnsynch = 0) (hc : clbck t (expire t s) = .ok s') (n : ℕ) :
    triggerLoop clbck (n + 1) (.timer t) s =
      triggerLoop clbck n (s.links.next (.timer t)) (requeue t s') := by
  simp only [triggerLoop, HasTimers.timers, HasTimers.setTimers]
  rw [hz, if_neg (lt_irrefl 0)]
  have he : ((s.setRem t 0).setLinks (listUnlink (.timer t) (s.setRem t 0).links)).record (.fire t)
      = expire t s := rfl
  rw [he, hc, requeue]
  simp only [Outcome.ok_bind]
  split <;> rfl

theorem listUnlink_prev_next {ν : Type} [DecidableEq ν] {l : Links ν} {a : ν} (h : l.next a ≠ a) :
    (listUnlink a l).prev (l.next a) = l.prev a := by
  simp [listUnlink, listInit, listConnectTogether, setNext, setPrev, h]

omit [DecidableEq τ] in
theorem lastNode_mem_map (x : τ) (zs : List τ) :
    ∃ w ∈ x :: zs, lastNode (TimerNode.timer x) (zs.map .timer) = .timer w := by
  induction zs generalizing x with
  | nil => exact ⟨x, by simp, rfl⟩
  | cons z zs ih =>
    obtain ⟨w, hw, he⟩ := ih z
    exact ⟨w, List.mem_cons_of_mem x hw, he⟩

omit [DecidableEq τ] in
/-- A chain whose last timer is redirected to one more timer. -/
theorem Chain.concat {l l' : Links (TimerNode τ)} {x c : τ} {zs : List τ} {b : TimerNode τ}
    (h : Chain l (x :: zs) b) (hnd : (x :: zs).Nodup)
    (hn : ∀ t ∈ x :: zs, TimerNode.timer t ≠ lastNode (.timer x) (zs.map .timer) →
      l'.next (.timer t) = l.next (.timer t))
    (hl : l'.next (lastNode (.timer x) (zs.map .timer)) = .timer c) (hc : l'.next (.timer c) = b) :
    Chain l' (x :: (zs ++ [c])) b := by
  induction zs generalizing x with
  | nil => exact ⟨hl, hc, trivial⟩
  | cons z zs ih =>
    have hx : TimerNode.timer x ≠ lastNode (.timer x) ((z :: zs).map .timer) := by
      obtain ⟨w, hw, he⟩ := lastNode_mem_map z zs
      intro hxw
      have : x = w := by simpa [he] using hxw
      exact (List.nodup_cons.mp hnd).1 (this ▸ hw)
    refine ⟨(hn x (by simp) hx).trans h.1, ih h.2 (List.nodup_cons.mp hnd).2 (fun t ht hne => ?_) hl⟩
    exact hn t (List.mem_cons_of_mem x ht) hne

/-- One more expired timer leaves the way into the temporary list as it is. -/
theorem Astray.step {s : Timers τ π} {u : ℕ} {c x : τ} {q zs : List τ}
    (h : Astray s u (c :: q) x zs) : ∃ zs', Astray (requeue c (expire c s)) u q x zs' := by
  obtain ⟨hcq, hnd⟩ := List.nodup_cons.mp h.nodup
  have hcne : ∀ t ∈ q ++ x :: zs, t ≠ c := fun t ht e => hcq (e ▸ ht)
  have hprev : s.links.prev (.timer c) = .timerList := h.prev_first c (by simp)
  have hnext : s.links.next (.timer c) = firstNode ((q ++ x :: zs).map .timer) .listAutoreload :=
    h.chain.1
  obtain ⟨f, ft, hfirst, hfe⟩ : ∃ f ft, q ++ x :: zs = f :: ft ∧
      firstNode ((q ++ x :: zs).map TimerNode.timer) .listAutoreload = .timer f := by
    cases q with
    | nil => exact ⟨x, zs, rfl, rfl⟩
    | cons d q => exact ⟨d, q ++ x :: zs, rfl, rfl⟩
  rw [hfe] at hnext
  have hfc : f ≠ c := hcne f (by simp [hfirst])
  have hl₁ : (expire c s).links = listUnlink (.timer c) s.links := rfl
  have hchain₁ : Chain (expire c s).links (q ++ x :: zs) .listAutoreload := by
    refine h.chain.2.frame fun t ht => listUnlink_next _ (by simpa using hcne t ht) ?_
    rw [hprev]
    simp
  have hprev₁ : (expire c s).links.prev .listAutoreload =
      lastNode (.timer x) (zs.map .timer) := by
    rw [hl₁, listUnlink_prev _ (by simp) (by rw [hnext]; simp), h.prev_last]
  have hfirst₁ : ∀ d ∈ q.head?, (expire c s).links.prev (.timer d) = .timerList := by
    intro d hd
    have hdf : d = f := by
      cases q with
      | nil => simp at hd
      | cons e q =>
        have : e = f := (List.cons.inj hfirst).1
        simpa [this] using hd.symm
    have hun := listUnlink_prev_next (l := s.links) (a := .timer c) (by rw [hnext]; simpa using hfc)
    rw [hnext] at hun
    rw [hl₁, hdf, hun, hprev]
  have hrem : ∀ t ∈ q ++ x :: zs, (requeue c (expire c s)).rem t = s.rem t := fun t ht => by
    simp only [Timers.rem, requeue_timers, expire_timers_of_ne s (hcne t ht)]
  have hun : (requeue c (expire c s)).timerTickUnsynch = u := by
    rw [requeue_unsynch]
    exact h.unsynch
  have hbound : ∀ d ∈ q, u ≤ (requeue c (expire c s)).rem d ∧
      (requeue c (expire c s)).rem d < ticksMod := fun d hd => by
    rw [hrem d (by simp [hd])]
    exact h.bound d (by simp [hd])
  have hsort : q.Pairwise fun a b =>
      (requeue c (expire c s)).rem a ≤ (requeue c (expire c s)).rem b :=
    (List.pairwise_cons.mp h.sorted).2.imp_of_mem fun {a b} ha hb hab => by
      rwa [hrem a (by simp [ha]), hrem b (by simp [hb])]
  have hself : u < (requeue c (expire c s)).rem x ∧ (requeue c (expire c s)).rem x < ticksMod := by
    rw [hrem x (by simp)]
    exact h.rem_self
  have hzero : ∀ z ∈ zs, (requeue c (expire c s)).rem z = 0 := fun z hz => by
    rw [hrem z (by simp [hz])]
    exact h.rem_zero z hz
  by_cases hpos : 0 < (expire c s).reload c
  · have hre : (requeue c (expire c s)).links =
        listPutInBetween (.timer c) (lastNode (.timer x) (zs.map .timer)) .listAutoreload
          (expire c s).links := by
      rw [requeue, if_pos hpos, ← hprev₁]
      rfl
    obtain ⟨w, hw, hlast⟩ := lastNode_mem_map x zs
    obtain ⟨hcq₁, hcz⟩ := chain_append.mp hchain₁
    have hndq := List.nodup_append.mp hnd
    have hnext' : ∀ t ∈ q ++ x :: zs, TimerNode.timer t ≠ lastNode (.timer x) (zs.map .timer) →
        (requeue c (expire c s)).links.next (.timer t) = (expire c s).links.next (.timer t) :=
      fun t ht hne => by
        rw [hre]
        exact listPutInBetween_next _ (by simpa using hcne t ht) hne
    refine ⟨zs ++ [c], ?_, fun d hd => ?_, ?_, ?_, hun, h.unsynch_pos, hbound, hsort, hself,
      fun z hz => ?_⟩
    · refine chain_append.mpr ⟨?_, ?_⟩
      · refine hcq₁.frame fun t ht => hnext' t (by simp [ht]) fun e => ?_
        rw [hlast, TimerNode.timer.injEq] at e
        exact hndq.2.2 t ht w hw e
      · refine Chain.concat hcz hndq.2.1 (fun t ht => hnext' t (List.mem_append_right q ht)) ?_ ?_
        · rw [hre]
          simp [listPutInBetween, setNext, setPrev]
        · rw [hre]
          have hcw : TimerNode.timer c ≠ lastNode (.timer x) (zs.map .timer) := by
            rw [hlast]
            simpa using (hcne w (List.mem_append_right q hw)).symm
          simp [listPutInBetween, setNext, setPrev, hcw]
    · have hdq : d ∈ q := List.mem_of_mem_head? hd
      rw [hre, listPutInBetween_prev _ (by simpa using hcne d (by simp [hdq])) (by simp)]
      exact hfirst₁ d hd
    · rw [hre, List.map_append, List.map_singleton, lastNode_concat]
      simp [listPutInBetween, setNext, setPrev]
    · have hperm : (q ++ x :: (zs ++ [c])).Perm (c :: (q ++ x :: zs)) := by
        have := List.perm_append_singleton c (q ++ x :: zs)
        simpa using this
      exact hperm.nodup_iff.mpr h.nodup
    · rcases List.mem_append.mp hz with hz | hz
      · exact hzero z hz
      · rw [List.mem_singleton.mp hz]
        have := expire_rem_self c s
        simpa only [Timers.rem, requeue_timers] using this
  · have hre : (requeue c (expire c s)).links = (expire c s).links := by rw [requeue, if_neg hpos]
    exact ⟨zs, by rwa [hre], by rwa [hre], by rw [hre, hprev₁], hnd, hun, h.unsynch_pos, hbound,
      hsort, hself, hzero⟩

/-- The first loop runs into the head of the temporary list. -/
theorem Astray.triggerLoop_ne_ok {clbck : τ → Timers τ π → Outcome (Timers τ π)} {s : Timers τ π}
    {u : ℕ} {q zs : List τ} {x : τ} (h : Astray s u q x zs)
    (hc : ∀ c ∈ q, ∀ z, clbck c z = .ok z) (n : ℕ) (s' : Timers τ π) :
    triggerLoop clbck n (firstNode ((q ++ x :: zs).map .timer) .listAutoreload) s ≠ .ok s' := by
  induction q generalizing s zs n with
  | nil =>
    intro hok
    have hpos : ∀ t ∈ [] ++ x :: zs, 0 < ticksSub (s.rem t) s.timerTickUnsynch := by
      intro t ht
      have hu : u < ticksMod := h.rem_self.1.trans h.rem_self.2
      rw [h.unsynch]
      rcases List.mem_cons.mp ht with rfl | hz
      · exact ticksSub_pos h.unsynch_pos hu (.inr h.rem_self)
      · exact ticksSub_pos h.unsynch_pos hu (.inl (h.rem_zero t hz))
    obtain ⟨m, s₁, -, hm⟩ := triggerLoop_chain h.chain h.nodup hpos hok
    exact triggerLoop_listAutoreload m hm
  | cons c q ih =>
    have hu : u < ticksMod := h.rem_self.1.trans h.rem_self.2
    by_cases hdue : s.rem c = u
    · cases n with
      | zero => simp [triggerLoop]
      | succ n =>
        have hz : ticksSub (s.rem c) s.timerTickUnsynch = 0 := by
          rw [hdue, h.unsynch, ticksSub_of_le le_rfl hu, Nat.sub_self]
        obtain ⟨zs', h'⟩ := h.step
        have hgo := triggerLoop_fire clbck hz (hc c (by simp) _) n
        have hnext : s.links.next (.timer c) =
            firstNode ((q ++ x :: zs').map .timer) .listAutoreload := by
          rw [h.chain.1]
          cases q <;> rfl
        rw [List.cons_append, List.map_cons, firstNode_cons, hgo, hnext]
        exact ih h' (fun d hd => hc d (by simp [hd])) n
    · intro hok
      have hpos : ∀ t ∈ (c :: q) ++ x :: zs, 0 < ticksSub (s.rem t) s.timerTickUnsynch := by
        intro t ht
        rw [h.unsynch]
        have hgt : ∀ d ∈ c :: q, u < s.rem d := by
          intro d hd
          have hc' := (h.bound c (by simp)).1
          have hcd : s.rem c ≤ s.rem d := by
            rcases List.mem_cons.mp hd with rfl | hd
            · exact le_rfl
            · exact (List.pairwise_cons.mp h.sorted).1 d hd
          omega
        rcases List.mem_append.mp ht with ht | ht
        · exact ticksSub_pos h.unsynch_pos hu (.inr ⟨hgt t ht, (h.bound t ht).2⟩)
        · rcases List.mem_cons.mp ht with rfl | hz
          · exact ticksSub_pos h.unsynch_pos hu (.inr h.rem_self)
          · exact ticksSub_pos h.unsynch_pos hu (.inl (h.rem_zero t hz))
      obtain ⟨m, s₁, -, hm⟩ := triggerLoop_chain h.chain h.nodup hpos hok
      exact triggerLoop_listAutoreload m hm

omit [DecidableEq τ] in
theorem timerAddLoop_stuck {s : Timers τ π} {x : τ} {k : ℕ} (hx : s.links.next (.timer x) = .timer x)
    (hk : ¬k < s.rem x) (n : ℕ) (b : TimerNode τ) : timerAddLoop s k n (.timer x) ≠ .ok b := by
  induction n with
  | zero => simp [timerAddLoop]
  | succ n ih =>
    rw [timerAddLoop, if_neg hk, hx]
    exact ih

/-- The second loop never gets past a timer that is first on the timer list and last on the
temporary one. -/
theorem rearmLoop_stuck {s : Timers τ π} {x : τ} {q : List τ}
    (hr : Ring s.links .listAutoreload ((q ++ [x]).map .timer))
    (hn : s.links.next .timerList = .timer x) (n : ℕ) (s' : Timers τ π) :
    rearmLoop n s ≠ .ok s' := by
  induction n generalizing s q with
  | zero => simp [rearmLoop]
  | succ n ih =>
    intro hok
    have hnd : (q ++ [x]).Nodup := map_timer_nodup hr
    cases q with
    | nil =>
      have hx : Ring s.links .listAutoreload [.timer x] := by simpa using hr
      have hprev : s.links.prev (.timer x) = .listAutoreload :=
        Ring.prev_mid (p := []) (q := []) hx
      rw [rearmLoop, listDetachfirst_cons hx] at hok
      obtain ⟨s₁, hadd, -⟩ := Outcome.bind_ok hok
      obtain ⟨b, hloop, -⟩ := Outcome.bind_ok hadd
      have hhead : (listUnlink (TimerNode.timer x) s.links).next .timerList = .timer x := by
        rw [listUnlink_next _ (by simp) (by rw [hprev]; simp), hn]
      have hself : (listUnlink (TimerNode.timer x) s.links).next (.timer x) = .timer x :=
        (listUnlink_selfLinked _ _).1
      have hlinks : ∀ k, ((s.setLinks (listUnlink (.timer x) s.links)).setRem x k).links =
          listUnlink (.timer x) s.links := fun _ => rfl
      rw [hlinks, hhead] at hloop
      exact timerAddLoop_stuck hself (Nat.lt_irrefl _) n b hloop
    | cons z q =>
      have hz : Ring s.links .listAutoreload (.timer z :: (q ++ [x]).map .timer) := by
        simpa using hr
      have hxz : x ≠ z := by
        rintro rfl
        simp at hnd
      have hprev : s.links.prev (.timer z) = .listAutoreload := Ring.prev_mid (p := []) hz
      have hring : Ring (listUnlink (.timer z) s.links) .listAutoreload ((q ++ [x]).map .timer) :=
        listUnlink_ring (p := []) hz
      rw [rearmLoop, listDetachfirst_cons hz] at hok
      obtain ⟨s₁, hadd, hok⟩ := Outcome.bind_ok hok
      obtain ⟨b, hloop, hb⟩ := Outcome.bind_ok hadd
      have hhead : (listUnlink (TimerNode.timer z) s.links).next .timerList = .timer x := by
        rw [listUnlink_next _ (by simp) (by rw [hprev]; simp), hn]
      have hlinks : ∀ k, ((s.setLinks (listUnlink (.timer z) s.links)).setRem z k).links =
          listUnlink (.timer z) s.links := fun _ => rfl
      rw [hlinks, hhead] at hloop
      have hcut : Ring (listUnlink (.timer z) s.links) .listAutoreload
          (q.map .timer ++ [.timer x]) := by simpa using hring
      cases n with
      | zero => simp [timerAddLoop] at hloop
      | succ n =>
        rw [timerAddLoop] at hloop
        split at hloop
        · -- the timer goes in front of `x`, which is a place on the temporary list
          rw [Except.ok.injEq] at hloop
          subst hloop
          have hzx : TimerNode.timer z ∉
              TimerNode.listAutoreload :: (q.map .timer ++ [.timer x]) := by
            have hzn : z ∉ q ++ [x] := (List.nodup_cons.mp hnd).1
            simpa using hzn
          have hput := listPutBefore_ring hcut hzx
          have hs₁ : s₁.links = listPutBefore (.timer x) (.timer z)
              (listUnlink (.timer z) s.links) := by
            have := Except.ok.inj hb
            rw [← this]
            rfl
          refine ih (s := s₁) (q := q ++ [z]) ?_ ?_ hok
          · rw [hs₁]
            simpa using hput
          · have hpx := hcut.prev_mid
            have hne : TimerNode.timerList ≠ lastNode .listAutoreload (q.map .timer) := by
              cases q with
              | nil => simp
              | cons y ys =>
                obtain ⟨w, -, he⟩ := lastNode_mem_map y ys
                simp [he]
            rw [hs₁, listPutBefore, listPutInBetween_next _ (by simp) (by rw [hpx]; exact hne)]
            exact hhead
        · have hnx := hcut.next_mid
          rw [hlinks, hnx] at hloop
          cases n <;> simp [timerAddLoop] at hloop

omit [DecidableEq τ] in
theorem insertTimer_cut (f : τ → ℕ) (t : τ) (p : List τ) :
    ∃ cs ds, p = cs ++ ds ∧ insertTimer f t p = cs ++ t :: ds ∧ ∀ d ∈ ds.head?, f t < f d := by
  induction p with
  | nil => exact ⟨[], [], rfl, rfl, by simp⟩
  | cons y p ih =>
    by_cases hy : f t < f y
    · exact ⟨[], y :: p, rfl, by simp [insertTimer, hy], by simpa using hy⟩
    · obtain ⟨cs, ds, rfl, hins, hd⟩ := ih
      exact ⟨y :: cs, ds, rfl, by simp [insertTimer, hy, hins], hd⟩

namespace CallbackCreate
variable {s : Timers τ π} {as p : List τ} {x : τ} {timeout reload : ℕ} {first : Bool}

/-- A timer whose callback creates this same timer with a reload value: the tick does not return. -/
theorem tick_not_settles (c : CallbackCreate s as p x x timeout reload first) (proc : π)
    (hpos : 0 < reload) (s' : Timers τ π) :
    ¬Settles (fun n => osTickTimers (createClbck x x proc timeout reload first n) n s)
      (.ok s') := by
  rintro ⟨N, hN⟩
  obtain ⟨s₂, ⟨N₂, hN₂⟩, cr⟩ := c.created proc
  rw [besides_of_notMem c.notMem_x.1] at cr
  obtain ⟨f, -, -⟩ := c.before_callback
  let m := max N N₂
  have hok := hN (m + 1 + as.length) (by omega)
  simp only [c.tick_eq] at hok
  obtain ⟨s₄, hloop, hok⟩ := Outcome.bind_ok hok
  obtain ⟨s₅, hrearm, -⟩ := Outcome.bind_ok hok
  rw [c.loop_to_callback proc (hN₂ _ (by omega)) m] at hloop
  -- the timer is appended to the temporary list although it is on the timer list
  set rs := as.filter fun y => 0 < s.reload y with hrs
  obtain ⟨cs, ds, hp, hins, hhead⟩ := insertTimer_cut s₂.rem x p
  have hr : Rings s₂.links (cs ++ x :: ds) rs := by
    rw [← hins]
    exact cr.linked.rings
  have hra : Ring s₂.links .timerList (cs.map .timer ++ .timer x :: ds.map .timer) := by
    simpa using hr.active
  have hxrs : x ∉ rs := hr.disjoint x (by simp)
  have hrel : 0 < s₂.reload x := by rw [cr.reload_self]; exact hpos
  have hre : requeue x s₂ = s₂.setLinks (listAppend .listAutoreload (.timer x) s₂.links) :=
    if_pos hrel
  have hauto : Ring s₂.links .listAutoreload (rs.map .timer ++ []) := by simpa using hr.reload
  have hl₃ : (requeue x s₂).links = listPutInBetween (.timer x)
      (lastNode .listAutoreload (rs.map .timer)) .listAutoreload s₂.links := by
    rw [hre]
    exact listPutBefore_eq hauto (.timer x)
  have hlast : ∀ v : TimerNode τ, v = .timerList ∨ (∃ y ∈ cs ++ x :: ds, v = .timer y) →
      v ≠ lastNode .listAutoreload (rs.map .timer) := by
    intro v hv e
    cases hrs' : rs with
    | nil =>
      rw [hrs'] at e
      rcases hv with hv | ⟨y, -, hv⟩ <;> simp [hv] at e
    | cons z zs =>
      rw [hrs'] at e
      obtain ⟨w, hw, he⟩ := lastNode_mem_map z zs
      have e' : v = .timer w := e.trans he
      rcases hv with hv | ⟨y, hy, hv⟩
      · simp [hv] at e'
      · have hyw : y = w := by simpa [hv] using e'
        exact hr.disjoint y hy (by rw [hrs', hyw]; exact hw)
  have hnext₃ : ∀ y ∈ cs ++ ds, (requeue x s₂).links.next (.timer y) = s₂.links.next (.timer y) := by
    intro y hy
    have hyx : y ≠ x := by
      rintro rfl
      exact c.notMem_x.1 (hp ▸ hy)
    rw [hl₃]
    refine listPutInBetween_next _ (by simpa using hyx) (hlast _ (.inr ⟨y, ?_, rfl⟩))
    rcases List.mem_append.mp hy with h | h <;> simp [h]
  have hremp : ∀ y ∈ p, s₂.rem y = s.rem y := by
    intro y hy
    have hyx : y ≠ x := fun e => c.notMem_x.1 (e ▸ hy)
    have hya : y ∉ as := fun e => c.notMem_before e hy
    have hfields : s₂.timers y = s.timers y := by
      rw [cr.other y hyx, expire_timers_of_ne _ hyx, f.other y hya]
      rfl
    simp only [Timers.rem, hfields]
  have hsort : p.Pairwise fun a b => s₂.rem a ≤ s₂.rem b := by
    have hsx := (List.pairwise_append.mp c.armed.sorted).2.1
    refine (List.pairwise_cons.mp hsx).2.imp_of_mem fun {a b} ha hb hab => ?_
    rwa [hremp a ha, hremp b hb]
  have hbound : ∀ y ∈ p, s.timerTickUnsynch + 1 ≤ s₂.rem y ∧ s₂.rem y < ticksMod := fun y hy => by
    rw [hremp y hy]
    exact ⟨c.armed.above y (by simp [hy]), c.armed.rem_lt y (by simp [hy])⟩
  have hrem₃ : ∀ y, (requeue x s₂).rem y = s₂.rem y := fun y => by
    simp only [Timers.rem, requeue_timers]
  have hun : p ≠ [] → (requeue x s₂).timerTickUnsynch = s.timerTickUnsynch + 1 := fun hne => by
    rw [requeue_unsynch, cr.unsynch, addedTicks, if_neg fun e => hne e.2]
  have hself : p ≠ [] → s.timerTickUnsynch + 1 < s₂.rem x ∧ s₂.rem x < ticksMod := fun hne => by
    rw [cr.rem, addedTicks, if_neg fun e => hne e.2]
    have h₀ := c.timeout_pos
    have h₁ := c.timeout_lt
    have h₂ := c.armed.unsynch_le
    simp only [ticksMod, osTimerTicksremMax, osTicksMax, osTimerUnsynchMax] at *
    omega
  have hnd : (cs ++ x :: ds).Nodup := hr.nodup
  cases cs with
  | nil =>
    have hpd : p = ds := hp
    have hpos' : ∀ y ∈ p, 0 < ticksSub ((requeue x s₂).rem y)
        (requeue x s₂).timerTickUnsynch := by
      intro y hy
      have hne : p ≠ [] := fun e => by simp [e] at hy
      have hlt : s₂.rem x < s₂.rem y := by
        rw [hpd] at hy hsort
        cases ds with
        | nil => simp at hy
        | cons d ds =>
          have hd : s₂.rem x < s₂.rem d := hhead d (by simp)
          rcases List.mem_cons.mp hy with rfl | hy
          · exact hd
          · exact Nat.lt_of_lt_of_le hd ((List.pairwise_cons.mp hsort).1 y hy)
      have h₁ := hself hne
      have h₂ := hbound y hy
      rw [hrem₃, hun hne]
      exact ticksSub_pos (Nat.succ_pos _) (by omega) (.inr ⟨by omega, h₂.2⟩)
    have hchain : Chain (requeue x s₂).links p .timerList := by
      have hch : Chain s₂.links ds .timerList := by
        have hact := hr.active
        exact Ring.chain (a := [x]) hact
      rw [hpd]
      exact hch.frame fun y hy => hnext₃ y hy
    have hndp : p.Nodup := by
      rw [hpd]
      exact (List.nodup_cons.mp hnd).2
    obtain ⟨k, s₃, hlinks, hend⟩ := triggerLoop_chain hchain hndp hpos' hloop
    have hs₄ : s₄ = s₃ := by
      cases k with
      | zero => simp [triggerLoop] at hend
      | succ k => simpa [triggerLoop] using hend.symm
    have hringx : Ring (requeue x s₂).links .listAutoreload ((rs ++ [x]).map .timer) := by
      have happ := listAppend_ring hr.reload (e := TimerNode.timer x) (by simpa using hxrs)
      rw [hre, List.map_append]
      exact happ
    have hfirst : (requeue x s₂).links.next .timerList = .timer x := by
      rw [hl₃, listPutInBetween_next _ (by simp) (hlast _ (.inl rfl))]
      exact hra.next_head
    refine rearmLoop_stuck (s := { s₄ with timerTickUnsynch := 0 }) (x := x) (q := rs) ?_ ?_ _ _
      hrearm
    · simp only [hs₄, hlinks]
      exact hringx
    · simp only [hs₄, hlinks]
      exact hfirst
  | cons e cs =>
    have hne : p ≠ [] := by simp [hp]
    have hstray : Astray (requeue x s₂) (s.timerTickUnsynch + 1) (e :: cs) x [] := by
      have hsub : ∀ y ∈ e :: cs, y ∈ p := fun y hy => by
        rw [hp]
        exact List.mem_append_left ds hy
      refine ⟨chain_append.mpr ⟨?_, ?_, trivial⟩, fun d hd => ?_, ?_, ?_, hun hne,
        Nat.succ_pos _, fun y hy => ?_, ?_, ?_, by simp⟩
      · have hact := hr.active
        have hch : Chain s₂.links (e :: cs ++ x :: ds) .timerList := Ring.chain (a := []) hact
        exact (chain_append.mp hch).1.frame fun y hy => hnext₃ y (List.mem_append_left ds hy)
      · have hxl := hlast (.timer x) (.inr ⟨x, by simp, rfl⟩)
        rw [hl₃]
        simp [listPutInBetween, setNext, setPrev, hxl]
      · have hde : d = e := by simpa using hd.symm
        have hex : e ≠ x := fun h => c.notMem_x.1 (h ▸ hsub e (by simp))
        have hprev : s₂.links.prev (.timer e) = .timerList := Ring.prev_mid (p := []) hra
        rw [hl₃, hde, listPutInBetween_prev _ (by simpa using hex) (by simp), hprev]
      · rw [hl₃]
        simp [listPutInBetween, setNext, setPrev]
      · have hsubl : (e :: cs ++ [x]).Sublist (e :: cs ++ x :: ds) :=
          List.Sublist.append_left (by simp) _
        exact hnd.sublist hsubl
      · rw [hrem₃]
        exact hbound y (hsub y hy)
      · have hsubl : (e :: cs).Sublist p := by
          rw [hp]
          exact List.sublist_append_left _ _
        simpa only [hrem₃] using hsort.sublist hsubl
      · rw [hrem₃]
        exact hself hne
    have hquiet : ∀ y ∈ e :: cs, ∀ z,
        createClbck x x proc timeout reload first (m + 1 + as.length) y z = .ok z := by
      intro y hy z
      have hyx : y ≠ x := fun h => c.notMem_x.1 (h ▸ hp ▸ List.mem_append_left ds hy)
      simp only [createClbck, if_neg hyx]
    refine hstray.triggerLoop_ne_ok hquiet m s₄ ?_
    rw [← hloop, hp]
    rfl

end CallbackCreate

end RadOs
