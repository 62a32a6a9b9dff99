import RadOs.Kernel.Timeouts
import RadOs.Kernel.Ordering

/-! # A wakeup takes the first tasks of a wait queue

`os_waitqueue_wakeup_sync` counts in eight bits and takes 255 for all. It takes
as many tasks as it is asked to, less one if it finds the interrupted task on its
way to the queue, and it takes them from the front.
-/

namespace RadOs
open Bucketed Runs Budget

/-- The tasks `w` have left the front of the queue `Q` and are ready, their guard timers stopped. -/
structure Woke (Q : QueueId) (w : List TaskId) (k k' : Kernel) : Prop where
  order : k.order Q = w ++ k'.order Q
  ready : ∀ p, (k'.queues .ready).tasks.bucket p =
    (k.queues .ready).tasks.bucket p ++ w.filter fun t => k.prio t = p
  queues : ∀ Q', Q' ≠ Q → Q' ≠ .ready → k'.queues Q' = k.queues Q'
  woken : ∀ t ∈ w, k'.tasks t = { k.tasks t with
    timer := none, retValue := RetCode.ok.toInt, state := .ready, taskQueue := some .ready }
  others : ∀ t, t ∉ w → k'.tasks t = k.tasks t
  timers : ∀ t ∈ w, ¬ k'.timers.Listed (.block t)
  frame : WakeFrame k k'

section Loop
variable {k k₁ k₂ k' : Kernel} {q : WaitqueueId} {Q : QueueId} {t : TaskId} {l w : List TaskId}
  {xs : List TimerId} {n cnt : ℕ}

theorem Guarded.destroy_total (hg : Guarded k xs) (ht : (k₁.tasks t).timer = (k.tasks t).timer)
    (hx : k₁.timers = k.timers) :
    ∃ k₂, osBlocktimerDestroy t k₁ = .ok k₂ ∧ k₂.queues = k₁.queues ∧
      ∀ u, (k₂.tasks u).prioCurrent = (k₁.tasks u).prioCurrent := by
  cases htm : (k₁.tasks t).timer with
  | none => exact ⟨k₁, by simp only [osBlocktimerDestroy, htm], rfl, fun _ => rfl⟩
  | some x =>
    have hd : osTimerDestroy x k₁.timers = .ok (destroyed x k₁.timers) :=
      osTimerDestroy_eq (hx ▸ (hg.own t x (ht ▸ htm)).2.1)
    refine ⟨{ k₁ with timers := destroyed x k₁.timers }.setTask t { k₁.tasks t with timer := none },
      ?_, rfl, fun u => ?_⟩
    · simp only [osBlocktimerDestroy, htm, hd, Outcome.ok_bind]
      rfl
    · by_cases hu : u = t
      · subst hu
        simp
      · simp [hu]

theorem wakeup_enqueues {c : RetCode} (hl : (k.queues .ready).linked = true) :
    ∃ k', wakeup t c k = .ok k' ∧
      (∀ p, (k'.queues .ready).tasks.bucket p =
        (k.queues .ready).tasks.bucket p ++ if k.prio t = p then [t] else []) ∧
      ∀ Q, Q ≠ .ready → k'.queues Q = k.queues Q := by
  let K := k.setTask t { k.tasks t with retValue := c.toInt }
  obtain ⟨k', hk'⟩ := osTaskqueueEnqueue_total
    (k := K.setTask t { K.tasks t with state := .ready }) hl t
  obtain ⟨-, hb, hq⟩ := osTaskMakeready_bucket (k := K) hk'
  have hfr : QueueFrame k K := .setTask rfl
  rw [hfr.prio] at hb
  exact ⟨k', hk', hb, hq⟩

theorem Woke.of_move (hp : Placed k) (hg : Guarded k xs)
    (hm : Move (.wake t Q .ok) k k') (hQ : ∀ m, Q ≠ .mtx m) (ho : k.order Q = t :: k'.order Q)
    (hb : ∀ p, (k'.queues .ready).tasks.bucket p =
      (k.queues .ready).tasks.bucket p ++ if k.prio t = p then [t] else [])
    (hq : ∀ Q', Q' ≠ Q → Q' ≠ .ready → k'.queues Q' = k.queues Q') : Woke Q [t] k k' := by
  obtain ⟨ys, hg', -, -⟩ := hg.wake hp (by simp) hm
  have htasks : k'.tasks = Function.update k.tasks t { k.tasks t with
      timer := none, retValue := RetCode.ok.toInt, state := .ready, taskQueue := some .ready } := by
    cases hm with
    | wake hQ' hr hu ht hre =>
      obtain ⟨q, rfl, -, -⟩ := hre
      obtain rfl := (ht.resolve_left (by simp)).resolve_left fun ⟨m, he⟩ => hQ m he
      rfl
  have htm : (k'.tasks t).timer = none := by rw [htasks, Function.update_self]
  refine ⟨ho, fun p => ?_, hq, fun u hu => ?_, fun u hu => ?_, fun u hu => ?_, hm.wakeFrame⟩
  · rw [hb]
    by_cases hp : k.prio t = p <;> simp [hp]
  · rw [List.mem_singleton.mp hu, htasks, Function.update_self]
  · rw [htasks, Function.update_of_ne (by simpa using hu)]
  · rw [List.mem_singleton.mp hu, hg'.armed.listed_iff]
    exact hg'.notMem htm

/-- One turn of the loop. -/
theorem Placed.wakeup_turn (hp : Placed k) (hl : k.Linked) (hg : Guarded k xs)
    (ho : k.order (.waitqueue q) = t :: l) :
    ∃ k₁ k₂ k₃, osTaskqueueDequeue (.waitqueue q) k = .ok (some t, k₁) ∧
      osBlocktimerDestroy t k₁ = .ok k₂ ∧ wakeup t .ok k₂ = .ok k₃ ∧
      Move (.wake t (.waitqueue q) .ok) k k₃ ∧ Woke (.waitqueue q) [t] k k₃ := by
  obtain ⟨k₁, hd, hrest, hsame⟩ := hp.filed.dequeue_cons ho
  obtain ⟨h, -⟩ | ⟨u, hu, hfirst, hre⟩ := hp.filed.dequeue hd
  · cases h
  obtain rfl : t = u := Option.some.inj hu
  have hk₁ : k₁ = { k.setTask t { k.tasks t with taskQueue := none } with queues := k₁.queues } ∧
      (k₁.queues .ready).linked = (k.queues .ready).linked := by
    obtain ⟨q, rfl, -, hlink⟩ := hre
    exact ⟨rfl, hlink .ready⟩
  have hprio : ∀ u, (k₁.tasks u).prioCurrent = (k.tasks u).prioCurrent := by
    intro u
    rw [hk₁.1]
    by_cases hu : u = t
    · subst hu
      simp
    · simp [hu]
  have htm : (k₁.tasks t).timer = (k.tasks t).timer := by
    rw [hk₁.1]
    simp
  obtain ⟨k₂, hdes, hq₂, hprio₂⟩ := hg.destroy_total htm (by rw [hk₁.1]; rfl)
  obtain ⟨k₃, hw, hb, hqs⟩ := wakeup_enqueues (k := k₂) (t := t) (c := .ok)
    (by rw [hq₂, hk₁.2, hl.ready])
  have hm := wake_untimed (hp.filed.first hfirst).1 (by simp) hre hdes hw
  refine ⟨k₁, k₂, k₃, hd, hdes, hw, hm, .of_move hp hg hm (by simp) ?_ (fun p => ?_)
    fun Q' hQ hr => ?_⟩
  · have hord : k₃.order (.waitqueue q) = k₁.order (.waitqueue q) := by
      rw [Kernel.order, hqs _ (by simp), Kernel.order, ← hq₂]
    rw [ho, hord, hrest]
  · have hpt : k₂.prio t = k.prio t := (hprio₂ t).trans (hprio t)
    rw [hb p, hpt, hq₂, hsame _ (by simp)]
  · rw [hqs Q' hr, hq₂, hsame Q' hQ]

theorem Woke.refl : Woke Q [] k k := by
  refine ⟨rfl, fun p => by simp, fun _ _ _ => rfl, by simp, fun _ _ => rfl, by simp, ?_⟩
  constructor <;> intros <;> rfl

theorem Woke.cons (h : Woke Q [t] k k₁) (h' : Woke Q w k₁ k') (hf : Filed k)
    (hg : Guarded k' xs) : Woke Q (t :: w) k k' := by
  have ho : k.order Q = t :: (w ++ k'.order Q) := by rw [h.order, h'.order]; rfl
  have ht : t ∉ w := by
    have hn := hf.order_nodup (Q := Q)
    rw [ho, List.nodup_cons, List.mem_append, not_or] at hn
    exact hn.1.1
  have hwoken : ∀ u ∈ t :: w, k'.tasks u = { k.tasks u with
      timer := none, retValue := RetCode.ok.toInt, state := .ready, taskQueue := some .ready } := by
    intro u hu
    obtain rfl | hu := List.mem_cons.mp hu
    · rw [h'.others u ht, h.woken u List.mem_cons_self]
    · rw [h'.woken u hu, h.others u (by simpa using fun he : u = t => ht (he ▸ hu))]
  have hfr : WakeFrame k k' := by
    have h₁ := h.frame
    have h₂ := h'.frame
    constructor <;> intros <;> grind [WakeFrame]
  refine ⟨ho, fun p => ?_, fun Q' hQ hr => (h'.queues Q' hQ hr).trans (h.queues Q' hQ hr), hwoken,
    fun u hu => ?_, fun u hu => ?_, hfr⟩
  · have hprio : k₁.prio = k.prio := funext h.frame.prioCurrent
    rw [h'.ready, h.ready, hprio, List.append_assoc, ← List.filter_append]
    rfl
  · rw [List.mem_cons, not_or] at hu
    rw [h'.others u hu.2, h.others u (by simpa using hu.1)]
  · rw [hg.armed.listed_iff]
    exact hg.notMem (by rw [hwoken u hu])

/-- The loop takes the first tasks, and all of them for 255. -/
theorem Placed.wakeupLoop_order (hp : Placed k) (hl : k.Linked) (hg : Guarded k xs)
    (hn : (k.order (.waitqueue q)).length < n) (hc : cnt ≤ osWaitqueueAll) (b : Bool)
    (hw : w = if cnt = osWaitqueueAll then k.order (.waitqueue q)
      else (k.order (.waitqueue q)).take cnt) :
    ∃ k', RadOs.wakeupLoop q n cnt b k = .ok (k', b || !w.isEmpty) ∧
      Woke (.waitqueue q) w k k' ∧ Placed k' ∧ k'.Linked ∧ ∃ ys, Guarded k' ys := by
  induction n generalizing k xs cnt b w with
  | zero => omega
  | succ n ih =>
    unfold RadOs.wakeupLoop
    by_cases h0 : cnt = 0
    · subst h0
      rw [if_neg (by simp [osWaitqueueAll]), List.take_zero] at hw
      subst hw
      exact ⟨k, by rw [if_neg (by simp [osWaitqueueAll])]; simp, .refl, hp, hl, xs, hg⟩
    · rw [if_pos (Or.inr (Nat.pos_of_ne_zero h0))]
      cases ho : k.order (.waitqueue q) with
      | nil =>
        obtain rfl : w = [] := by simp [hw, ho]
        exact ⟨k, by simp [hp.filed.dequeue_nil ho], .refl, hp, hl, xs, hg⟩
      | cons t l =>
        obtain ⟨k₁, k₂, k₃, hd, hdes, hwake, hm, hwoke⟩ := hp.wakeup_turn hl hg ho
        obtain ⟨ys, hg₃, -, -⟩ := hg.wake hp (by simp) hm
        have hp₃ := hm.placed hp
        have hl₃ := hm.linked hp.toStanding (by simp) hl
        have hl' : k₃.order (.waitqueue q) = l := by
          have := hwoke.order
          rw [ho] at this
          exact (List.cons.inj this).2.symm
        -- the counter reaches the mark for all tasks from nowhere else
        let cnt' := if cnt = osWaitqueueAll then cnt else cnt - 1
        have hcnt : cnt' = osWaitqueueAll ↔ cnt = osWaitqueueAll := by
          simp only [cnt']
          split
          · rfl
          · omega
        have hle : cnt' ≤ osWaitqueueAll := by
          simp only [cnt']
          split <;> omega
        let w' := if cnt' = osWaitqueueAll then k₃.order (.waitqueue q)
          else (k₃.order (.waitqueue q)).take cnt'
        have hww : w = t :: w' := by
          simp only [hw, w', hcnt, ho, hl']
          split
          · rfl
          · obtain ⟨m, rfl⟩ := Nat.exists_eq_succ_of_ne_zero h0
            simp [cnt', *]
        have hn' : (k₃.order (.waitqueue q)).length < n := by
          rw [ho, List.length_cons] at hn
          rw [hl']
          omega
        obtain ⟨k', hloop, hwoke', hp', hlk', zs, hg'⟩ := ih (w := w') hp₃ hl₃ hg₃ hn' hle true rfl
        refine ⟨k', ?_, hww ▸ hwoke.cons hwoke' hp.filed hg', hp', hlk', zs, hg'⟩
        simp only [hd, hdes, hwake, Outcome.ok_bind, hww]
        simpa [cnt'] using hloop

end Loop

section Wakeup
variable [Port] {k : Kernel} {q : WaitqueueId} {cnt : ℕ} {sync : Bool}

/-- A wakeup takes the first tasks of the wait queue, counting the interrupted task if that is
prepared to wait there, and makes them ready before it chooses the task to run. -/
theorem wakeup_takes_first_tasks (h : timedSystem.Reachable k)
    (he : Enabled k (.call (.waitqueueWakeup q cnt sync))) (hc : 0 < cnt)
    (hc' : cnt ≤ osWaitqueueAll) (hw : 0 < k.isrNesting ∨ k.waitqueueCurrent = none)
    (hs : k.isrNesting = 0 ∨ sync = false) :
    let m := if 0 < k.isrNesting ∧ k.waitqueueCurrent = some q then 1 else 0
    let l := k.order (.waitqueue q)
    let w := if cnt = osWaitqueueAll then l else l.take (cnt - m)
    (∀ t, t ∈ l ↔ (k.tasks t).taskQueue = some (.waitqueue q)) ∧ l.Nodup ∧
    (l.Pairwise fun t u => k.prio u ≤ k.prio t) ∧
    (∀ p, (k.queues (.waitqueue q)).tasks.bucket p = l.filter fun t => k.prio t = p) ∧
    w.length = (if cnt = osWaitqueueAll then l.length else min (cnt - m) l.length) ∧
    ∃ k₁ k',
      Woke (.waitqueue q) w { k with
        waitqueueCurrent := if m = 1 then none else k.waitqueueCurrent } k₁ ∧
      (if sync = false ∧ w ≠ [] then osSchedule 1 .schedule k₁ = .ok k' else k' = k₁) ∧
      ∀ r k'', timedSystem.step k (.call (.waitqueueWakeup q cnt sync), r) k'' ↔
        r = none ∧ k'' = k' := by
  intro m l w
  have ht := timely_of_reachable h
  have hp := ht.sound.placed
  have hrep := hp.filed.represents (.waitqueue q)
  refine ⟨fun t => hp.filed.mem_order, hp.filed.order_nodup, hrep.sorted, hrep.bucket, ?_, ?_⟩
  · simp only [w]
    split
    · rfl
    · rw [List.length_take]
  let k₀ : Kernel := { k with waitqueueCurrent := if m = 1 then none else k.waitqueueCurrent }
  have hm : Move .scalars k k₀ := .scalars rfl
  have hp₀ := hm.placed hp
  have hl₀ := hm.linked hp.toStanding (by simp) ht.sound.linked
  obtain ⟨xs, hg⟩ := ht.guarded
  have hg₀ : Guarded k₀ xs := hg.congr rfl (fun _ => Or.inr rfl) (fun _ _ => rfl)
    (fun _ _ => ⟨rfl, rfl⟩) fun _ _ _ h _ => h
  -- the count that is left for the loop
  let c := if (0 < k.isrNesting ∧ k.waitqueueCurrent = some q) ∧ cnt ≠ osWaitqueueAll then cnt - 1
    else cnt
  have hcm : cnt ≠ osWaitqueueAll → c = cnt - m := by
    intro hne
    simp only [c, m, hne, ne_eq, not_false_eq_true, and_true]
    split <;> rfl
  have hcall : c = osWaitqueueAll ↔ cnt = osWaitqueueAll := by
    by_cases hall : cnt = osWaitqueueAll
    · simp [c, hall]
    · rw [hcm hall]
      omega
  have hcw : w = if c = osWaitqueueAll then k₀.order (.waitqueue q)
      else (k₀.order (.waitqueue q)).take c := by
    simp only [w, hcall]
    split
    · rfl
    next hall => rw [hcm hall]; rfl
  have hcle : c ≤ osWaitqueueAll := by
    by_cases hall : cnt = osWaitqueueAll
    · exact (hcall.mpr hall).le
    · rw [hcm hall]
      omega
  obtain ⟨k₁, hloop, hwoke, hp₁, hl₁, -⟩ := hp₀.wakeupLoop_order hl₀ hg₀ (Nat.lt_succ_self _) hcle
    false hcw
  obtain ⟨k₂, hk₂⟩ := hp₁.schedule_total hl₁ 1 .schedule
  let k' := if sync = false ∧ w ≠ [] then k₂ else k₁
  have hk₀ : (if 0 < k.isrNesting ∧ k.waitqueueCurrent = some q then
      { k with waitqueueCurrent := none } else k) = k₀ := by
    simp only [k₀, m]
    split <;> simp
  have hexec : exec ((k₀.order (.waitqueue q)).length + 1)
      (.call (.waitqueueWakeup q cnt sync)) k = .ok (k', none) := by
    change quiet (osWaitqueueWakeupSync _ q cnt sync k) = _
    unfold osWaitqueueWakeupSync
    rw [osAssert_pos hw, osAssert_pos hs, osAssert_pos hc]
    simp only [Outcome.ok_bind, hk₀]
    change quiet (RadOs.wakeupLoop q _ c false k₀ >>= fun x =>
      if sync = false ∧ x.2 then osSchedule 1 .schedule x.1 else return x.1) = _
    rw [hloop]
    simp only [Outcome.ok_bind, Bool.false_or, Bool.not_eq_true', List.isEmpty_eq_false_iff, k']
    split
    · rw [hk₂]
      rfl
    · rfl
  have hset := (steady_exec (.call (.waitqueueWakeup q cnt sync)) k).settles hexec
  refine ⟨k₁, k', hwoke, ?_, fun r k'' => ⟨fun hst => ?_, ?_⟩⟩
  · simp only [k']
    split
    · exact hk₂
    · rfl
  · have := hst.2.2.unique hset
    simp only [Except.ok.injEq, Prod.mk.injEq] at this
    exact ⟨this.2, this.1⟩
  · rintro ⟨rfl, rfl⟩
    exact ⟨⟨trivial, trivial⟩, he, hset⟩

end Wakeup

/-- The tasks 2 and 3 wait in the wait queue 0 and the task 1 is prepared to, when an interrupt
comes. -/
def rousingRun : List Action :=
  [.call (.taskCreate 1 1), .call (.taskCreate 2 2), .call (.waitqueueCreate 0), .call .start,
    .resume, .call (.waitqueuePrepare 0), .resume, .call (.waitqueueWait osTimeoutInfinite),
    .call (.taskCreate 3 3), .call (.waitqueuePrepare 0), .resume, .call (.waitqueueWait 5), .resume,
    .call (.waitqueuePrepare 0), .resume, .isrEnter]

/-- A wakeup of two tasks reaches the task 1 and the more urgent of the others. -/
theorem wakeup_takes_first_tasks_prepared : ∃ k k₁ k', timedSystem.Reachable k ∧
    k.order (.waitqueue 0) = [3, 2] ∧ k.waitqueueCurrent = some 0 ∧
    timedSystem.step k (.call (.waitqueueWakeup 0 2 false), none) k' ∧
    osSchedule 1 .schedule k₁ = .ok k' ∧ k₁.waitqueueCurrent = none ∧
    k₁.order (.waitqueue 0) = [2] ∧ (k₁.tasks 3).taskQueue = some .ready ∧
    ¬ k₁.timers.Listed (.block 3) := by
  obtain ⟨k, hk, hx⟩ := Outcome.exists_of_holds
    (x := play timedCheck 20 rousingRun (osInit coldKernel))
    (p := fun k => decide (k.isrNesting = 1 ∧ k.waitqueueCurrent = some 0 ∧
      k.order (.waitqueue 0) = [3, 2])) (by decide +kernel)
  obtain ⟨hi, hq, ho⟩ := of_decide_eq_true hx
  have hr : timedSystem.Reachable k := reachable_of_play (P := fun k i => Sane k i.1 ∧ Typed i.1)
    (fun _ _ h => h.1) (fun _ _ _ hs h => timed_of_check hs h) (.start rfl) hk
  have he : Enabled k (.call (.waitqueueWakeup 0 2 false)) := by simp [Enabled, hi, Call.exits]
  obtain ⟨-, -, -, -, -, k₁, k', hwoke, hsch, hst⟩ := wakeup_takes_first_tasks hr he (by decide)
    (by decide) (Or.inl (by omega)) (Or.inr rfl)
  simp only [hi, hq, ho, Nat.zero_lt_one, and_self, if_true, osWaitqueueAll,
    show (2 : ℕ) ≠ 255 by decide, if_false] at hwoke hsch
  have hord : [3, 2] = [3] ++ k₁.order (.waitqueue 0) := ho.symm.trans hwoke.order
  refine ⟨k, k₁, k', hr, ho, hq, (hst _ _).mpr ⟨rfl, rfl⟩, by simpa using hsch,
    hwoke.frame.waitqueueCurrent, (List.cons.inj hord).2.symm, ?_, hwoke.timers 3 (by simp)⟩
  rw [hwoke.woken 3 (by simp)]

end RadOs
