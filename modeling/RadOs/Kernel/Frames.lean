import RadOs.Kernel.Moves

/-! # What a move leaves unchanged

One lemma for each component of the state: which kinds of moves touch it.
-/

namespace RadOs

namespace Move
variable {k k' : Kernel} {a : Kind} {u : TaskId}

theorem mtxs_eq {m : MtxId} (h : Move a k k') (ha : a ≠ .owner m) : k'.mtxs m = k.mtxs m := by
  cases h
  case owner m' t y l h =>
    have hm : m ≠ m' := fun e => ha (by rw [e])
    subst h
    simp [Kernel.setTask, Kernel.setMtx, hm]
  all_goals first
    | (obtain ⟨q, rfl, -, -⟩ := ‹Realizes _ _›; rfl)
    | (subst_vars; rfl)

theorem sems_eq {s : SemId} (h : Move a k k') (ha : a ≠ .sem s) : k'.sems s = k.sems s := by
  cases h
  case sem s' v h =>
    have hs : s ≠ s' := fun e => ha (by rw [e])
    subst h
    simp [Kernel.setSem, hs]
  all_goals first
    | (obtain ⟨q, rfl, -, -⟩ := ‹Realizes _ _›; rfl)
    | (subst_vars; rfl)

theorem scalars_eq (h : Move a k k') (ha : a ≠ .scalars) :
    k'.isrNesting = k.isrNesting ∧ k'.schedLock = k.schedLock ∧
      k'.waitqueueCurrent = k.waitqueueCurrent ∧ k'.started = k.started := by
  cases h
  case scalars => exact absurd rfl ha
  all_goals first
    | (obtain ⟨q, rfl, -, -⟩ := ‹Realizes _ _›; exact ⟨rfl, rfl, rfl, rfl⟩)
    | (subst_vars; exact ⟨rfl, rfl, rfl, rfl⟩)

theorem linked_eq {Q : QueueId} (h : Move a k k') (ha : a ≠ .queue Q) :
    (k'.queues Q).linked = (k.queues Q).linked := by
  cases h
  case queue Q' b hQ h =>
    have hne : Q ≠ Q' := fun e => ha (by rw [e])
    subst h
    simp [Kernel.setQueue, hne]
  all_goals first
    | (obtain ⟨q, rfl, -, hl⟩ := ‹Realizes _ _›; exact hl Q)
    | (subst_vars; rfl)

theorem taskCurrent_eq (h : Move a k k') (hs : a ≠ .switch) (hb : ∀ Q, a ≠ .block Q)
    (hx : a ≠ .exit) : k'.taskCurrent = k.taskCurrent := by
  cases h
  case switch => exact absurd rfl hs
  case switchIsr => exact absurd rfl hs
  case block => exact absurd rfl (hb _)
  case exit => exact absurd rfl hx
  all_goals first
    | (obtain ⟨q, rfl, -, -⟩ := ‹Realizes _ _›; rfl)
    | (subst_vars; rfl)

theorem timers_eq (h : Move a k k') (ht : a ≠ .timers) (hw : ∀ t Q c, a ≠ .wake t Q c) :
    k'.timers = k.timers := by
  cases h
  case timers => exact absurd rfl ht
  case wake => exact absurd rfl (hw _ _ _)
  all_goals first
    | (obtain ⟨q, rfl, -, -⟩ := ‹Realizes _ _›; rfl)
    | (subst_vars; rfl)

end Move

/-- What a move of a given kind makes of the task `u`. -/
inductive TaskMove (k : Kernel) (u : TaskId) : Kind → Task → Prop
  | same {a : Kind} (hw : ∀ Q c, a ≠ .wake u Q c) (hc : a ≠ .create u)
      (hb : u = k.taskCurrent → a ≠ .switch ∧ a ≠ .exit ∧ ∀ Q, a ≠ .block Q) :
      TaskMove k u a (k.tasks u)
  | wake {Q : QueueId} {c : RetCode} {tm : Option TimerId}
      (hQ : (k.tasks u).taskQueue = some Q) (hr : Q ≠ .ready) :
      TaskMove k u (.wake u Q c) { k.tasks u with
        timer := tm, retValue := c.toInt, state := .ready, taskQueue := some .ready }
  | leave {c : Ctx} (hu : u = k.taskCurrent)
      (hc : (k.isrNesting = 0 ∧ (c = .schedule ∨ ∃ t, c = .joinDestroy t)) ∨ c = (k.tasks u).ctx) :
      TaskMove k u .switch { k.tasks u with state := .ready, taskQueue := some .ready, ctx := c }
  | run {a : Kind} {st : TaskState} (hQ : (k.tasks u).taskQueue = some .ready)
      (ha : a = .switch ∨ (∃ Q, a = .block Q) ∨ a = .exit)
      (hs : st = (k.tasks u).state ∨ st = .running) :
      TaskMove k u a { k.tasks u with taskQueue := none, state := st }
  | block {Q : QueueId} {c : Ctx} (hu : u = k.taskCurrent) (hr : Q ≠ .ready) (hc : Awaits u c Q) :
      TaskMove k u (.block Q) { k.tasks u with
        state := .wait, blockType := Q.blockType, taskQueue := some Q, ctx := c }
  | exit {v : ℤ} (hu : u = k.taskCurrent) : TaskMove k u .exit
      { k.tasks u with retValue := v, state := .destroyed, ctx := .exit }
  | create {p : ℕ} (hl : ¬ k.Live u) :
      TaskMove k u (.create u) { osTaskInit p with taskQueue := some .ready }
  | reprio {p : ℕ} : TaskMove k u (.reprio u) { k.tasks u with prioCurrent := p }
  | ctx {c : Ctx} {st : TaskState} (hu : u = k.taskCurrent)
      (hs : st = .running ∨ st = (k.tasks u).state) :
      TaskMove k u (.ctx (k.tasks u).ctx c) { k.tasks u with ctx := c, state := st }
  | join {j : Option SemId} {st : TaskState}
      (hs : st = (k.tasks u).state ∨ ((k.tasks u).state = .destroyed ∧ st = .invalid)) :
      TaskMove k u (.join u) { k.tasks u with joinSem := j, state := st }
  | timers {tm : Option TimerId} (hu : u = k.taskCurrent) :
      TaskMove k u .timers { k.tasks u with timer := tm }
  | owner {m : MtxId} {l : List MtxId} : TaskMove k u (.owner m) { k.tasks u with mtxList := l }

namespace Move
variable {k k' : Kernel} {a : Kind} {u : TaskId}

theorem task (h : Move a k k') (u : TaskId) :
    TaskMove k u a (k'.tasks u) := by
  cases h with
  | @wake _ _ t Q c tm x hQ hr hu htm h =>
    obtain ⟨q, rfl, -, -⟩ := h
    by_cases ht : u = t
    · subst ht
      simpa [Kernel.woken] using TaskMove.wake hQ hr
    · simpa [Kernel.woken, ht] using TaskMove.same (by simp [Ne.symm ht]) (by simp) (by simp)
  | @switch _ _ p t c hi hl hn hp' hc h =>
    obtain ⟨q, rfl, -, -⟩ := h
    by_cases hu : u = k.taskCurrent
    · subst hu
      simpa [Kernel.switched, Kernel.current] using
        TaskMove.leave rfl (Or.inl ⟨hi, hc⟩)
    · by_cases ht : u = t
      · subst ht
        simpa [Kernel.switched, hu] using TaskMove.run hn.1 (Or.inl rfl) (Or.inl rfl)
      · simpa [Kernel.switched, hu, ht] using TaskMove.same (by simp) (by simp) (by simp [hu])
  | @switchIsr _ _ p t hi hl hn hp' h =>
    obtain ⟨q, rfl, -, -⟩ := h
    by_cases hu : u = k.taskCurrent
    · subst hu
      simpa [Kernel.switchedIsr, Kernel.current] using
        TaskMove.leave (k := k) rfl (Or.inr rfl)
    · by_cases ht : u = t
      · subst ht
        simpa [Kernel.switchedIsr, hu] using TaskMove.run hn.1 (Or.inl rfl) (Or.inr rfl)
      · simpa [Kernel.switchedIsr, hu, ht] using TaskMove.same (by simp) (by simp) (by simp [hu])
  | @block _ _ Q c t hi hd hr hn hc hm hq h =>
    obtain ⟨q, rfl, -, -⟩ := h
    by_cases hu : u = k.taskCurrent
    · subst hu
      simpa [Kernel.blocked, Kernel.current] using TaskMove.block rfl hr hc
    · by_cases ht : u = t
      · subst ht
        simpa [Kernel.blocked, hu] using TaskMove.run hn.1 (Or.inr (Or.inl ⟨Q, rfl⟩)) (Or.inl rfl)
      · simpa [Kernel.blocked, hu, ht] using TaskMove.same (by simp) (by simp) (by simp [hu])
  | @exit _ _ v t hn hd h =>
    obtain ⟨q, rfl, -, -⟩ := h
    by_cases hu : u = k.taskCurrent
    · subst hu
      simpa [Kernel.exited, Kernel.current] using TaskMove.exit (k := k) rfl
    · by_cases ht : u = t
      · subst ht
        simpa [Kernel.exited, hu] using TaskMove.run hn.1 (Or.inr (Or.inr rfl)) (Or.inl rfl)
      · simpa [Kernel.exited, hu, ht] using TaskMove.same (by simp) (by simp) (by simp [hu])
  | @create _ _ t p hp' hl h =>
    obtain ⟨q, rfl, -, -⟩ := h
    by_cases ht : u = t
    · subst ht
      simpa using TaskMove.create hl
    · simpa [ht] using TaskMove.same (by simp) (by simp [Ne.symm ht]) (by simp)
  | @reprio _ _ t p h =>
    obtain ⟨q, rfl, -, -⟩ := h
    by_cases ht : u = t
    · subst ht
      simpa using TaskMove.reprio
    · simpa [ht] using TaskMove.same (by simp) (by simp) (by simp)
  | ctx hs h =>
    subst h
    by_cases hu : u = k.taskCurrent
    · subst hu
      simpa [Kernel.current] using TaskMove.ctx (k := k) rfl hs
    · simpa [hu] using TaskMove.same (by simp) (by simp) (by simp)
  | @join _ _ t j st hj hs h =>
    subst h
    by_cases ht : u = t
    · subst ht
      simpa using TaskMove.join hs
    · simpa [ht] using TaskMove.same (by simp) (by simp) (by simp)
  | timers h =>
    subst h
    by_cases hu : u = k.taskCurrent
    · subst hu
      simpa [Kernel.current] using TaskMove.timers (k := k) rfl
    · simpa [hu] using TaskMove.same (by simp) (by simp) (by simp)
  | @owner _ _ m t y l h =>
    subst h
    by_cases ht : u = t
    · subst ht
      simpa using TaskMove.owner
    · simpa [ht, Kernel.setMtx] using TaskMove.same (by simp) (by simp) (by simp)
  | sem h => subst h; exact .same (by simp) (by simp) (by simp)
  | queue hQ' h => subst h; exact .same (by simp) (by simp) (by simp)
  | scalars h => subst h; exact .same (by simp) (by simp) (by simp)

end Move

namespace TaskMove
variable {k : Kernel} {a : Kind} {u : TaskId} {x : Task}

/-- Which tasks wait in a queue of a synchronization object. -/
theorem waiting_iff (h : TaskMove k u a x) (hp : Standing k.tasks k.taskCurrent) {Q : QueueId}
    (hQ : Q ≠ .ready) : x.taskQueue = some Q ↔
      ((k.tasks u).taskQueue = some Q ∧ ∀ c, a ≠ .wake u Q c) ∨
        (u = k.taskCurrent ∧ a = .block Q) := by
  have hcur := hp.current
  have hli := hp.live u
  cases h with
  | wake hQ' hr => simp [hQ', Ne.symm hQ]
  | _ => grind [Kernel.Live]

/-- The code of a task is written by whoever wakes it. -/
theorem blockCode_cases (h : TaskMove k u a x) :
    x.blockCode = (k.tasks u).blockCode ∨
      (∃ Q, (k.tasks u).taskQueue = some Q ∧ Q ≠ .ready ∧ a = .wake u Q x.blockCode) ∨
      (a = .create u ∧ ¬ k.Live u) ∨ (a = .exit ∧ u = k.taskCurrent) := by
  cases h <;> simp_all [Task.blockCode]

/-- The place of a task in its code changes when it runs, and when it is created. -/
theorem ctx_cases (h : TaskMove k u a x) :
    x.ctx = (k.tasks u).ctx ∨ (a = .create u ∧ ¬ k.Live u ∧ x.ctx = .user) ∨
      (u = k.taskCurrent ∧ (a = .ctx (k.tasks u).ctx x.ctx ∨
        (a = .switch ∧ (x.ctx = .schedule ∨ ∃ t, x.ctx = .joinDestroy t)) ∨
        (∃ Q, a = .block Q ∧ Awaits u x.ctx Q) ∨ (a = .exit ∧ x.ctx = .exit))) := by
  cases h <;> simp_all [osTaskInit]
  tauto

theorem prioCurrent_eq (h : TaskMove k u a x) (ha : a ≠ .reprio u) (hc : a ≠ .create u) :
    x.prioCurrent = (k.tasks u).prioCurrent := by
  cases h <;> simp_all

theorem prioBase_eq (h : TaskMove k u a x) (hc : a ≠ .create u) :
    x.prioBase = (k.tasks u).prioBase := by
  cases h <;> simp_all

theorem mtxList_eq (h : TaskMove k u a x) (ha : ∀ m, a ≠ .owner m) (hc : a ≠ .create u) :
    x.mtxList = (k.tasks u).mtxList := by
  cases h <;> simp_all

theorem live_iff (h : TaskMove k u a x) (hp : Standing k.tasks k.taskCurrent) :
    x.state.live = true ↔ (k.Live u ∧ ¬ (a = .exit ∧ u = k.taskCurrent)) ∨ a = .create u := by
  have hcur := hp.current
  have hli := hp.live u
  have hcl := hp.currentLive
  cases h <;> grind [Kernel.Live, TaskState.live, osTaskInit]

end TaskMove

end RadOs
