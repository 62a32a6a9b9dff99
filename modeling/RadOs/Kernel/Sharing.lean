import RadOs.Kernel.Timeouts
import RadOs.Kernel.Ordering

/-! # Tasks of equal priority take turns

`os_yield` and `os_tick` let the next task of the running priority run and put
the running one behind all others, the one by a switch of the context and the
other by a change of `task_current` in the handler. So the tasks of the highest
priority in use form a ring that every yield and every tick turns by one.
-/

namespace RadOs
open Bucketed Runs Budget

/-- The running task has the priority `p` and no ready task has a higher one. -/
structure OnTop (p : ℕ) (k : Kernel) : Prop where
  prio : k.prio k.taskCurrent = p
  higher : ∀ q, p < q → (k.queues .ready).tasks.bucket q = []
  schedLock : k.schedLock = 0

/-- The running task and the ready ones of the priority `p`, in the order in which they run. -/
def Kernel.ring (k : Kernel) (p : ℕ) : List TaskId :=
  k.taskCurrent :: (k.queues .ready).tasks.bucket p

/-- The ring of the priority `p` is turned, and nothing else in the queues changes. -/
structure Turned (p m : ℕ) (k k' : Kernel) : Prop where
  ring : k'.ring p = (k.ring p).rotate m
  bucket : ∀ Q q, ¬ (Q = .ready ∧ q = p) →
    (k'.queues Q).tasks.bucket q = (k.queues Q).tasks.bucket q
  prio : ∀ t, k'.prio t = k.prio t
  schedLock : k'.schedLock = k.schedLock

section Turns
variable {k k₁ k' : Kernel} {p m m' n : ℕ} {c : Ctx} {t : TaskId} {r : Option Ret}

theorem Turned.trans (h : Turned p m k k₁) (h' : Turned p m' k₁ k') : Turned p (m + m') k k' where
  ring := by rw [h'.ring, h.ring, List.rotate_rotate]
  bucket Q q hq := (h'.bucket Q q hq).trans (h.bucket Q q hq)
  prio t := (h'.prio t).trans (h.prio t)
  schedLock := h'.schedLock.trans h.schedLock

/-- Steps that the buckets do not see. -/
theorem Turned.still (h : QueueFrame k k')
    (hq : ∀ Q q, (k'.queues Q).tasks.bucket q = (k.queues Q).tasks.bucket q) : Turned p 0 k k' :=
  ⟨by rw [Kernel.ring, Kernel.ring, hq, h.taskCurrent, List.rotate_zero], fun Q q _ => hq Q q,
    h.prio, h.schedLock⟩

theorem Turned.onTop (h : Turned p m k k') (ht : OnTop p k) (hf : Filed k) : OnTop p k' := by
  refine ⟨?_, fun q hq => ?_, h.schedLock.trans ht.schedLock⟩
  · have hmem : k'.taskCurrent ∈ k.ring p := by
      rw [← List.mem_rotate (n := m), ← h.ring]
      exact List.mem_cons_self
    rw [h.prio]
    obtain he | hb := List.mem_cons.mp hmem
    · rw [he]
      exact ht.prio
    · exact (hf.mem.mp hb).2
  · rw [h.bucket _ _ (by omega)]
    exact ht.higher q hq

/-- A call of `os_schedule` for tasks of higher priority only. -/
theorem OnTop.schedule_stays (h : OnTop p k) (hf : Filed k) (hk : osSchedule 1 c k = .ok k') :
    k' = k := by
  unfold osSchedule at hk
  split at hk
  · have htop : (k.queues .ready).tasks.top ≤ p + 1 := hf.top_le fun q hq => h.higher q hq
    have hprio : k.current.prioCurrent = p := h.prio
    have hnone : osTaskqueueDequeuePrio .ready (k.current.prioCurrent + 1) k = .ok (none, k) := by
      unfold osTaskqueueDequeuePrio
      split
      · rfl
      · rw [if_pos (by omega)]
    rw [hnone] at hk
    cases hk
    rfl
  · cases hk
    rfl

/-- A call of `os_schedule` for tasks of the same priority, too. -/
theorem OnTop.schedule_turns (h : OnTop p k) (hp : Placed k) (hi : k.isrNesting ≤ 1)
    (hk : osSchedule 0 c k = .ok k') : Turned p 1 k k' := by
  have hprio : k.current.prioCurrent = p := h.prio
  rw [osSchedule, if_pos ⟨hi, h.schedLock⟩, hprio, Nat.add_zero] at hk
  obtain ⟨⟨o, k₀⟩, hd, hk⟩ := Outcome.bind_ok hk
  cases hb : (k.queues .ready).tasks.bucket p with
  | nil =>
    have htop : (k.queues .ready).tasks.top ≤ p := hp.filed.top_le fun q hq => by
      obtain hlt | rfl := hq.lt_or_eq
      · exact h.higher q hlt
      · exact hb
    have hnone : osTaskqueueDequeuePrio .ready p k = .ok (none, k) := by
      unfold osTaskqueueDequeuePrio
      split
      · rfl
      · rw [if_pos (by omega)]
    rw [hnone] at hd
    cases hd
    cases hk
    exact ⟨by rw [Kernel.ring, hb, List.rotate_singleton], fun _ _ _ => rfl, fun _ => rfl, rfl⟩
  | cons t b =>
    have htop : (k.queues .ready).tasks.top = p + 1 := hp.filed.top_eq h.higher (by simp [hb])
    rw [osTaskqueueDequeuePrio, htop] at hd
    simp only [lt_irrefl, if_false] at hd
    obtain ⟨⟨u, k₁⟩, hint, hd⟩ := Outcome.bind_ok hd
    cases hd
    obtain ⟨b', hb', hb₁, hq₁⟩ := osTaskqueueIntdequeue_bucket hint
    obtain ⟨rfl, rfl⟩ := List.cons.inj (hb'.symm.trans hb)
    have hs₁ := osTaskqueueIntdequeue_frame hint
    obtain ⟨k₂, hm, hk⟩ := Outcome.bind_ok hk
    simp only at hm hk
    obtain ⟨hs₂, hb₂, hq₂⟩ := osTaskMakeready_bucket hm
    have hs := hs₁.trans hs₂
    have hcur : k₁.prio k₁.taskCurrent = p := by
      rw [hs₁.prio, hs₁.taskCurrent]
      exact h.prio
    -- the queues are the same on both sides of the switch
    have hend : k'.queues = k₂.queues ∧ k'.taskCurrent = u ∧ (∀ v, k'.prio v = k₂.prio v) ∧
        k'.schedLock = k₂.schedLock := by
      split at hk
      · cases hk
        have hfr : QueueFrame k₂ (k₂.setCtx c) := .setTask rfl
        exact ⟨rfl, rfl, hfr.prio, rfl⟩
      · cases hk
        have hfr : QueueFrame { k₂ with taskCurrent := u } { k₂ with taskCurrent := u }.running :=
          .setTask rfl
        exact ⟨rfl, rfl, hfr.prio, rfl⟩
    obtain ⟨hqueues, htc, hpr, hlock⟩ := hend
    refine ⟨?_, fun Q q hne => ?_, fun v => (hpr v).trans (hs.prio v), hlock.trans hs.schedLock⟩
    · rw [Kernel.ring, Kernel.ring, hqueues, htc, hb, hb₂, hcur, if_pos rfl, hs₁.taskCurrent]
      rw [hb₁, List.rotate_cons_succ, List.rotate_zero, List.cons_append]
    · rw [hqueues]
      by_cases hQ : Q = .ready
      · subst hQ
        have hqp : q ≠ p := fun he => hne ⟨rfl, he⟩
        rw [hb₂, hcur, if_neg (Ne.symm hqp), List.append_nil]
        exact hq₁ _ _ hne
      · rw [hq₂ Q hQ]
        exact hq₁ _ _ hne

/-! ## The steps between -/

theorem destroyLoop_nobody {timed : Bool} {Q : QueueId} (hf : Filed k)
    (hn : ∀ t, (k.tasks t).taskQueue ≠ some Q) (h : destroyLoop timed Q n k = .ok k') : k' = k := by
  have ho : k.order Q = [] := List.eq_nil_iff_forall_not_mem.mpr fun t ht => hn t (hf.mem_order.mp ht)
  cases n with
  | zero => cases h
  | succ n =>
    rw [destroyLoop, hf.dequeue_nil ho] at h
    cases h
    rfl

theorem blockedReturn_frame {d : RetCode} (h : blockedReturn k = .ok (k', d)) :
    QueueFrame k k' ∧ k'.queues = k.queues := by
  obtain ⟨x, -, rfl, -⟩ := blockedReturn_ok h
  have hfr : QueueFrame k (k.setTask k.taskCurrent
    { k.current with state := .running, timer := none }) := .setTask rfl
  exact ⟨⟨hfr.prio, rfl, rfl, rfl⟩, rfl⟩

theorem joinFinish_frame {v : Ret} (h : joinFinish t k = .ok (k', v)) :
    QueueFrame k k' ∧ k'.queues = k.queues := by
  obtain ⟨-, h⟩ := Outcome.assert_ok h
  cases h
  exact ⟨.setTask rfl, rfl⟩

/-- The end of `os_task_join` in the task that has joined. -/
theorem OnTop.joinDestroyed (h : OnTop p k) (hp : Placed k) {d : RetCode} {v : Option Ret}
    (hk : RadOs.joinDestroyed n t d k = .ok (k', v)) : Turned p 0 k k' := by
  obtain ⟨-, hk⟩ := Outcome.assert_ok hk
  obtain ⟨k₁, hd, hk⟩ := Outcome.bind_ok hk
  obtain ⟨-, hd⟩ := Outcome.assert_ok hd
  obtain ⟨-, hd⟩ := Outcome.assert_ok hd
  obtain ⟨k₂, hloop, hd⟩ := Outcome.bind_ok hd
  obtain rfl := destroyLoop_nobody hp.filed hp.no_joiner hloop
  let K := (k₂.setQueue (.sem (.join k₂.taskCurrent)) .zero).setSem (.join k₂.taskCurrent) 0
  have hq : ∀ Q q, (K.queues Q).tasks.bucket q = (k₂.queues Q).tasks.bucket q := by
    intro Q q
    by_cases hQ : Q = .sem (.join k₂.taskCurrent)
    · subst hQ
      have hnil : (k₂.queues (.sem (.join k₂.taskCurrent))).tasks.bucket q = [] :=
        List.eq_nil_iff_forall_not_mem.mpr fun u hu =>
          hp.no_joiner u (hp.filed.mem.mp hu).1
      rw [hnil]
      simp [K, Kernel.setSem, Kernel.setQueue, TaskQueue.zero, Buckets.empty]
    · simp [K, Kernel.setSem, Kernel.setQueue, hQ]
  have hK : Turned p 0 k₂ K := .still ⟨fun _ => rfl, rfl, rfl, rfl⟩ hq
  have hmove : Move (.queue (.sem (.join k₂.taskCurrent))) k₂
    (k₂.setQueue (.sem (.join k₂.taskCurrent)) .zero) := .queue hp.no_joiner rfl
  have hpK : Filed K := (Move.sem rfl).filed (hmove.filed hp.filed)
  obtain rfl : k₁ = K := (hK.onTop h hp.filed).schedule_stays hpK hd
  rw [if_pos (show K.taskCurrent = k₂.taskCurrent from rfl)] at hk
  obtain ⟨⟨k₃, w⟩, hf, hk⟩ := Outcome.bind_ok hk
  cases hk
  obtain ⟨hfr, hqs⟩ := joinFinish_frame hf
  have hend : QueueFrame k₃ (k₃.setCtx .user) := .setTask rfl
  refine hK.trans (.still (hfr.trans hend) fun Q q => ?_)
  exact congrArg (fun f => (f Q).tasks.bucket q) hqs

/-- The running task goes on inside a function. -/
theorem OnTop.resume (h : OnTop p k) (hp : Placed k) (hb : k.current.ctx ≠ .brk)
    (hs : k.current.ctx ≠ .start) (hk : RadOs.resume n k = .ok (k', r)) : Turned p 0 k k' := by
  have hset : ∀ {K K' : Kernel} (c : Ctx), QueueFrame K K' → K'.queues = K.queues →
      Turned p 0 K (K'.setCtx c) := by
    intro K K' c hfr hq
    exact .still (hfr.trans (.setTask rfl)) fun Q q => by
      rw [Kernel.setCtx, Kernel.setTask_queues, hq]
  have hrun : QueueFrame k k.running := .setTask rfl
  unfold RadOs.resume at hk
  split at hk
  · cases hk
  · cases hk
  · cases hk
  · cases (quiet_ok hk).1
    exact hset (K := k) _ ⟨fun _ => rfl, rfl, rfl, rfl⟩ rfl
  · exact absurd ‹_› hb
  · have hk := (quiet_ok hk).1
    have ht : Turned p 0 k (k.setCtx .user) := hset _ ⟨fun _ => rfl, rfl, rfl, rfl⟩ rfl
    obtain rfl := (ht.onTop h hp.filed).schedule_stays (hp.filed.setTask rfl fun _ => rfl) hk
    exact ht
  · exact absurd ‹_› hs
  · cases (quiet_ok hk).1
    exact hset _ hrun rfl
  · obtain ⟨⟨k₁, d⟩, hret, hk⟩ := Outcome.bind_ok hk
    cases hk
    obtain ⟨hfr, hq⟩ := blockedReturn_frame hret
    exact hset _ hfr hq
  · obtain ⟨⟨k₁, d⟩, hret, hk⟩ := Outcome.bind_ok hk
    cases hk
    obtain ⟨hfr, hq⟩ := blockedReturn_frame hret
    exact hset _ hfr hq
  · cases hk
    exact hset _ hrun rfl
  · obtain ⟨⟨k₁, d⟩, hret, hk⟩ := Outcome.bind_ok hk
    obtain ⟨hfr, hq⟩ := blockedReturn_frame hret
    have ht : Turned p 0 k k₁ := .still hfr fun Q q => by rw [hq]
    exact ht.trans ((ht.onTop h hp.filed).joinDestroyed ((blockedReturn_path hret).1.placed hp) hk)
  · obtain ⟨⟨k₁, d⟩, hf, hk⟩ := Outcome.bind_ok hk
    cases hk
    obtain ⟨hfr, hq⟩ := joinFinish_frame hf
    exact hset _ (hrun.trans hfr) hq

theorem OnTop.timers (h : OnTop p k) (y : Timers TimerId TimerProc) :
    OnTop p { k with timers := y } := ⟨h.prio, h.higher, h.schedLock⟩

/-- A tick on which no timer expires. -/
theorem OnTop.tick (h : OnTop p k) (ht : Timely k) (hi : k.isrNesting = 1)
    (hh : k'.timers.history = .tick :: k.timers.history) (hk : osTick n k = .ok k') :
    Turned p 1 k k' := by
  have hp := ht.sound.placed
  obtain ⟨-, hk⟩ := Outcome.assert_ok hk
  obtain ⟨k₁, htick, hk⟩ := Outcome.bind_ok hk
  have hp₁ := (hp.tickTimers htick).placed hp
  have hkeep : k'.timers = k₁.timers := by
    obtain ⟨rfl, -⟩ | hm := hp₁.schedule hk (Or.inl rfl)
    · rfl
    · exact hm.timers_eq (by simp) (by simp)
  obtain ⟨xs, hg⟩ := ht.guarded
  obtain ⟨y, ys, hy, -, hset⟩ := Armed.tick_lift (s := k) hg.armed runProc_aside
  have hk₁ := ((steady_osTickTimers _ _).settles htick).unique (timerClbck_eq ▸ hset)
  change Except.ok k₁ = (callbacks runProc k.timers.proc
    (xs.filter fun x => k.timers.left x = 1) k).map (HasTimers.setTimers y) at hk₁
  -- no callback has been called
  have hnone : (xs.filter fun x => k.timers.left x = 1) = [] := by
    have htimers : k₁.timers = y := by
      cases hc : callbacks runProc k.timers.proc (xs.filter fun x => k.timers.left x = 1) k with
      | error e =>
        rw [hc] at hk₁
        cases hk₁
      | ok k₂ =>
        rw [hc] at hk₁
        cases hk₁
        rfl
    have hhist := hy.history
    rw [← htimers, ← hkeep, hh] at hhist
    exact List.map_eq_nil_iff.mp (List.reverse_eq_nil_iff.mp (List.self_eq_append_left.mp hhist))
  rw [hnone] at hk₁
  cases hk₁
  have hturn := (h.timers y).schedule_turns hp₁ hi.le hk
  exact ⟨hturn.ring, hturn.bucket, hturn.prio, hturn.schedLock⟩

end Turns

/-! ## Runs -/

/-- The running task yields, or an interrupt handler of the first level counts a tick on which no
timer expires. Between these, interrupts begin and end, and tasks go on in the calls in which they
were switched away; two of these calls would not leave the scheduler as it is. -/
def Shares (x : KernelStep) : Prop :=
  match x.label.1 with
  | .call .yield => True
  | .call .tick => x.pre.isrNesting = 1 ∧ x.post.timers.history = .tick :: x.pre.timers.history
  | .resume => x.pre.current.ctx ≠ .brk ∧ x.pre.current.ctx ≠ .start
  | .isrEnter | .isrExit => True
  | _ => False

def Action.turns : Action → Bool
  | .call .yield | .call .tick => true
  | _ => false

/-- The number of yields and ticks. -/
def turns (tr : List KernelStep) : ℕ := tr.countP fun x => x.label.1.turns

section Runs
variable [Port] {k k₀ k' : Kernel} {p : ℕ} {i : Action} {r : Option Ret} {tr : List KernelStep}

/-- The step lemma. -/
theorem OnTop.step (h : OnTop p k) (ht : Timely k) (hst : timedSystem.step k (i, r) k')
    (hs : Shares ⟨k, (i, r), k'⟩) : Turned p (if i.turns then 1 else 0) k k' := by
  obtain ⟨-, -, hset⟩ := hst
  obtain ⟨n, hn⟩ := hset.exists_eq
  have hp := ht.sound.placed
  cases i with
  | resume => exact h.resume hp hs.1 hs.2 hn
  | isrEnter =>
    cases hn
    exact ⟨(List.rotate_zero _).symm, fun _ _ _ => rfl, fun _ => rfl, rfl⟩
  | isrExit =>
    cases hn
    exact ⟨(List.rotate_zero _).symm, fun _ _ _ => rfl, fun _ => rfl, rfl⟩
  | call c =>
    cases c with
    | yield =>
      obtain ⟨hi, hk⟩ := Outcome.assert_ok (quiet_ok hn).1
      obtain ⟨-, hk⟩ := Outcome.assert_ok hk
      obtain ⟨-, hk⟩ := Outcome.assert_ok hk
      exact h.schedule_turns hp (by omega) hk
    | tick => exact h.tick ht hs.1 hs.2 (quiet_ok hn).1
    | _ => exact hs.elim

theorem turned_of_run (h₀ : timedSystem.Reachable k₀) (h : OnTop p k₀)
    (hrun : (timedSystem.startAt k₀).Run tr k) (hs : ∀ x ∈ tr, Shares x) :
    Turned p (turns tr) k₀ k := by
  induction hrun with
  | start hk =>
    cases hk
    exact ⟨(List.rotate_zero _).symm, fun _ _ _ => rfl, fun _ => rfl, rfl⟩
  | @step tr k k' i hrun hst ih =>
    obtain ⟨i, r⟩ := i
    have hturned := ih fun x hx => hs x (List.mem_cons_of_mem _ hx)
    have ht := timely_of_reachable (h₀.run hrun)
    have ht₀ := timely_of_reachable h₀
    have hstep := (hturned.onTop h ht₀.sound.placed.filed).step ht hst (hs _ List.mem_cons_self)
    have hcount : turns (⟨k, (i, r), k'⟩ :: tr) = turns tr + if i.turns then 1 else 0 := by
      simp only [turns, List.countP_cons]
    rw [hcount]
    exact hturned.trans hstep

/-- The tasks of the highest priority run in turn. After `j` yields and ticks the running task is
the element `j` of the ring, and the others wait behind it in the order of the ring. -/
theorem equal_tasks_take_turns (h₀ : timedSystem.Reachable k₀) (hl : k₀.schedLock = 0)
    (hh : ∀ q, k₀.current.prioCurrent < q → (k₀.queues .ready).tasks.bucket q = [])
    (hrun : (timedSystem.startAt k₀).Run tr k) (hs : ∀ x ∈ tr, Shares x) :
    let p := k₀.current.prioCurrent
    let ring := k₀.taskCurrent :: (k₀.queues .ready).tasks.bucket p
    ring[turns tr % ring.length]? = some k.taskCurrent ∧
    k.taskCurrent :: (k.queues .ready).tasks.bucket p = ring.rotate (turns tr) ∧
    (∀ Q q, ¬ (Q = .ready ∧ q = p) →
      (k.queues Q).tasks.bucket q = (k₀.queues Q).tasks.bucket q) ∧
    ∀ t, (k.tasks t).prioCurrent = (k₀.tasks t).prioCurrent := by
  intro p ring
  have hturned := turned_of_run h₀ (p := p) ⟨rfl, hh, hl⟩ hrun hs
  have hring : k.taskCurrent :: (k.queues .ready).tasks.bucket p = ring.rotate (turns tr) :=
    hturned.ring
  refine ⟨?_, hring, hturned.bucket, hturned.prio⟩
  have hhead : (ring.rotate (turns tr))[0]? = some k.taskCurrent := by rw [← hring]; rfl
  rw [List.getElem?_rotate (by simp [ring]), Nat.zero_add] at hhead
  exact hhead

end Runs

/-- Three tasks of one priority. -/
def sharingRun : List Action :=
  [.call (.taskCreate 1 1), .call (.taskCreate 2 1), .call (.taskCreate 3 1), .call .start, .resume]

/-- A yield, a tick and a yield bring the first of three tasks back. -/
theorem equal_tasks_take_turns_three : ∃ k₀ tr k, timedSystem.Reachable k₀ ∧
    k₀.taskCurrent :: (k₀.queues .ready).tasks.bucket 1 = [1, 2, 3] ∧
    (timedSystem.startAt k₀).Run tr k ∧ turns tr = 3 ∧
    k.taskCurrent :: (k.queues .ready).tasks.bucket 1 = [1, 2, 3] := by
  obtain ⟨k₀, hk₀, hx₀⟩ := Outcome.exists_of_holds
    (x := play timedCheck 10 sharingRun (osInit coldKernel))
    (p := fun k₀ => decide (k₀.schedLock = 0 ∧ k₀.current.prioCurrent = 1 ∧
        k₀.taskCurrent :: (k₀.queues .ready).tasks.bucket 1 = [1, 2, 3] ∧
        (k₀.queues .ready).tasks.top = 2) &&
      (playRun timedCheck 10 [.call .yield, .isrEnter, .call .tick, .isrExit, .call .yield, .resume]
        [] k₀).holds fun (tr, _) => decide (turns tr = 3 ∧ ∀ x ∈ tr,
          x.label.1 = .call .yield ∨ x.label.1 = .isrEnter ∨ x.label.1 = .isrExit ∨
          (x.label.1 = .resume ∧ x.pre.current.ctx = .schedule) ∨
          (x.label.1 = .call .tick ∧ x.pre.isrNesting = 1 ∧
            x.post.timers.history = .tick :: x.pre.timers.history))) (by decide +kernel)
  rw [Bool.and_eq_true] at hx₀
  obtain ⟨hl, hp, hring, htop⟩ := of_decide_eq_true hx₀.1
  obtain ⟨⟨tr, k⟩, hk, hx⟩ := Outcome.exists_of_holds hx₀.2
  obtain ⟨hturns, hin⟩ := of_decide_eq_true hx
  have hr : timedSystem.Reachable k₀ := reachable_of_play (P := fun k i => Sane k i.1 ∧ Typed i.1)
    (fun _ _ h => h.1) (fun _ _ _ hs h => timed_of_check hs h) (.start rfl) hk₀
  have hrun : (timedSystem.startAt k₀).Run tr k :=
    run_startAt_of_playRun (P := fun k i => Sane k i.1 ∧ Typed i.1) (fun _ _ h => h.1)
      (fun _ _ _ hs h => timed_of_check hs h) hr (.start rfl) hk
  have hhigh : ∀ q, k₀.current.prioCurrent < q → (k₀.queues .ready).tasks.bucket q = [] := by
    intro q hq
    have hf := (timely_of_reachable hr).sound.placed.filed
    by_contra hne
    obtain ⟨t, ht⟩ := List.exists_mem_of_ne_nil _ hne
    have := (hf .ready).le_of_key htop (((hf .ready).mem t q).mp ht)
    omega
  obtain ⟨-, hrot, -⟩ := equal_tasks_take_turns hr hl hhigh hrun fun x hx => by
    obtain h | h | h | ⟨h, hc⟩ | ⟨h, hi, hh⟩ := hin x hx
    · simp [Shares, h]
    · simp [Shares, h]
    · simp [Shares, h]
    · simp [Shares, h, hc]
    · simp [Shares, h, hi, hh]
  rw [hp, hring, hturns] at hrot
  exact ⟨k₀, tr, k, hr, hring, hrun, hturns, hrot⟩

end RadOs
