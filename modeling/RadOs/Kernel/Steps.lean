import RadOs.Kernel.Specs

/-! # Which moves a step consists of

`Does k a` lists the kinds of moves the action `a` can make in the state `k`.
Every invariant of the kernel is then a statement about moves.
-/

namespace RadOs
open Bucketed Runs Budget
variable [Port]

def Does (k : Kernel) : Action → Kind → Prop
  | .call .start, a => a = .scalars ∨ a = .ctx k.current.ctx .start
  | .call (.taskCreate t _), a => a = .create t ∨ a = .switch
  | .call (.taskExit _), a => a = .exit ∨
      ∃ s, k.current.joinSem = some s ∧ (a = .sem s ∨ ∃ t, a = .wake t (.sem s) .ok)
  | .call (.taskJoin t), a => a = .join t ∨ a = .queue (.sem (.join k.taskCurrent)) ∨
      a = .sem (.join k.taskCurrent) ∨ a = .block (.sem (.join k.taskCurrent))
  | .call .yield, a => a = .switch
  | .call .schedulerLock, a => a = .scalars
  | .call (.schedulerUnlock _), a =>
      a = .scalars ∨ a = .ctx k.current.ctx .unlocked ∨ a = .ctx k.current.ctx .user
  | .call (.semCreate n _), a => a = .queue (.sem (.obj n)) ∨ a = .sem (.obj n)
  | .call (.semDestroy n), a => (∃ t, a = .wake t (.sem (.obj n)) .destroyed) ∨
      a = .queue (.sem (.obj n)) ∨ a = .sem (.obj n) ∨ a = .switch
  | .call (.semDown n _), a => a = .sem (.obj n) ∨ a = .timers ∨ a = .block (.sem (.obj n))
  | .call (.semUp n _), a =>
      a = .sem (.obj n) ∨ (∃ t, a = .wake t (.sem (.obj n)) .ok) ∨ a = .switch
  | .call (.mtxCreate m), a => a = .queue (.mtx m) ∨ a = .owner m
  | .call (.mtxDestroy m), a => a = .owner m ∨ a = .reprio k.taskCurrent ∨
      (∃ t, a = .wake t (.mtx m) .destroyed) ∨ a = .queue (.mtx m) ∨ a = .switch
  | .call (.mtxLock m), a => a = .owner m ∨ (∃ t, a = .reprio t) ∨ a = .block (.mtx m)
  | .call (.mtxUnlock m), a => a = .owner m ∨ a = .reprio k.taskCurrent ∨
      (∃ t, a = .wake t (.mtx m) .ok) ∨ a = .switch
  | .call (.waitqueueCreate q), a => a = .queue (.waitqueue q)
  | .call (.waitqueueDestroy q), a => (∃ t, a = .wake t (.waitqueue q) .destroyed) ∨
      a = .queue (.waitqueue q) ∨ a = .switch
  | .call (.waitqueuePrepare q), a => a = .scalars ∨ a = .ctx k.current.ctx (.prepare q)
  | .call .waitqueueBreak, a => a = .scalars ∨ a = .ctx k.current.ctx .brk
  | .call (.waitqueueWait _), a => a = .scalars ∨ a = .ctx k.current.ctx .user ∨ a = .timers ∨
      ∃ q, k.waitqueueCurrent = some q ∧ a = .block (.waitqueue q)
  | .call (.waitqueueWakeup q _ _), a =>
      a = .scalars ∨ (∃ t, a = .wake t (.waitqueue q) .ok) ∨ a = .switch
  | .call (.timerCreate _ _ _), a => a = .timers
  | .call (.timerDestroy _), a => a = .timers
  | .call .tick, a => a = .timers ∨ (∃ t Q, a = .wake t Q .timeout) ∨ a = .switch
  | .resume, a => a = .scalars ∨ a = .switch ∨
      (a = .timers ∧ ((∃ s, k.current.ctx = .semDown s) ∨ (∃ q, k.current.ctx = .waitqueueWait q) ∨
        ∃ t, k.current.ctx = .joinDown t)) ∨
      (∃ c, a = .ctx k.current.ctx c ∧ (c = k.current.ctx ∨ c.interruptible = true)) ∨
      (∃ t, k.current.ctx = .joinDestroy t ∧ a = .join t) ∨
      ∃ t, k.current.ctx = .joinDown t ∧ Placed.JoinEnd k.taskCurrent t a
  | .isrEnter, a => a = .scalars
  | .isrExit, a => a = .scalars

/-- Objects are not created anew while they are in use, and the idle task does not exit. -/
def Sane (k : Kernel) : Action → Prop
  | .call (.taskCreate t _) => ¬ k.Live t
  | .call (.taskExit _) => k.taskCurrent ≠ taskIdle
  | .call (.semCreate n _) => ∀ t, (k.tasks t).taskQueue ≠ some (.sem (.obj n))
  | .call (.mtxCreate m) => (k.mtxs m).owner = none ∧ ∀ t, (k.tasks t).taskQueue ≠ some (.mtx m)
  | .call (.waitqueueCreate q) => ∀ t, (k.tasks t).taskQueue ≠ some (.waitqueue q)
  | _ => True

/-- Tasks wait only for mutexes that somebody owns. -/
def Owned (k : Kernel) : Prop :=
  ∀ t m, (k.tasks t).taskQueue = some (.mtx m) → (k.mtxs m).owner ≠ none

section Exec
variable {k k' : Kernel} {n : ℕ} {r : Option Ret}

omit [Port] in
theorem quiet_ok {x : Outcome Kernel} (h : quiet x = .ok (k', r)) : x = .ok k' ∧ r = none := by
  obtain ⟨k₁, hx, h⟩ := Outcome.bind_ok h
  cases h
  exact ⟨hx, rfl⟩

omit [Port] in
theorem coded_ok {x : Outcome (Kernel × Option RetCode)} (h : coded x = .ok (k', r)) :
    ∃ c, x = .ok (k', c) ∧ r = c.map .code := by
  obtain ⟨⟨k₁, c⟩, hx, h⟩ := Outcome.bind_ok h
  cases h
  exact ⟨c, hx, rfl⟩

omit [Port] in
theorem setCtx_move (k : Kernel) (c : Ctx) : Move (.ctx k.current.ctx c) k (k.setCtx c) :=
  .ctx (Or.inr rfl) rfl

omit [Port] in
theorem running_move (k : Kernel) : Move (.ctx k.current.ctx k.current.ctx) k k.running :=
  .ctx (Or.inl rfl) rfl

omit [Port] in
theorem schedulerUnlock_path {sync : Bool} (h : osSchedulerUnlock sync k = .ok k') :
    Path (fun a => a = .scalars ∨ a = .ctx k.current.ctx .unlocked ∨ a = .ctx k.current.ctx .user)
      k k' := by
  obtain ⟨-, h⟩ := Outcome.assert_ok h
  obtain ⟨-, h⟩ := Outcome.assert_ok h
  have hs : Move .scalars k { k with schedLock := k.schedLock - 1 } := .scalars rfl
  have hm := fun c => setCtx_move { k with schedLock := k.schedLock - 1 } c
  simp only at h
  split at h
  · cases h
    exact (Path.single (by simp) hs).tail (by right; left; rfl) (hm .unlocked)
  · cases h
    exact (Path.single (by simp) hs).tail (by right; right; rfl) (hm .user)

/-- The moves of a call. -/
theorem Call.exec_parts {c : Call} (hp : Placed k) (ho : Owned k) (hs : Sane k (.call c))
    (h : c.exec n k = .ok (k', r)) : Parts (Does k (.call c)) k k' := by
  cases c with
  | start =>
    obtain ⟨h, -⟩ := quiet_ok h
    obtain ⟨-, h⟩ := Outcome.assert_ok h
    obtain ⟨-, h⟩ := Outcome.assert_ok h
    cases h
    exact .stay (Path.tail (.single ⟨Or.inl rfl, rfl⟩ (.scalars rfl)) ⟨Or.inr rfl, rfl⟩
      (setCtx_move { k with schedLock := 0, started := true } .start))
  | taskCreate t p =>
    obtain ⟨h, -⟩ := quiet_ok h
    obtain ⟨-, -, h0, k₁, hr, hsch⟩ := hp.taskCreate h hs
    exact .scheduled (.single ⟨Or.inl rfl, rfl⟩ (.create h0 hs hr)) (Or.inr rfl) hsch
  | taskExit v =>
    obtain ⟨h, -⟩ := quiet_ok h
    obtain ⟨k₁, hk, -, -, hx, -⟩ := hp.taskExit h hs
    refine .last ?_ (Or.inl rfl) rfl hx
    obtain ⟨-, rfl⟩ | ⟨s, hj, ⟨-, rfl⟩ | ⟨t, hm⟩⟩ := hk
    · exact .refl _
    · exact .single ⟨Or.inr ⟨s, hj, Or.inl rfl⟩, rfl⟩ (.sem rfl)
    · exact .single ⟨Or.inr ⟨s, hj, Or.inr ⟨t, rfl⟩⟩, rfl⟩ hm
  | taskJoin t =>
    obtain hm | ⟨-, -, k₁, k₂, hk₁, hk₂, hb⟩ := hp.taskJoin h
    · exact .stay (.single ⟨Or.inl rfl, rfl⟩ hm)
    · refine .last (Path.tail (Path.tail (.single ?_ (.queue hp.no_joiner rfl)) ?_
        (.sem hk₁)) ?_ (.join (by simp) (Or.inl rfl) hk₂)) ?_ rfl hb
      all_goals simp [Does, Kind.still]
  | yield =>
    obtain ⟨h, -⟩ := quiet_ok h
    obtain ⟨-, h⟩ := Outcome.assert_ok h
    obtain ⟨-, h⟩ := Outcome.assert_ok h
    obtain ⟨-, h⟩ := Outcome.assert_ok h
    exact .scheduled (.refl _) rfl (hp.schedule h (Or.inl rfl))
  | schedulerLock =>
    obtain ⟨h, -⟩ := quiet_ok h
    obtain ⟨-, h⟩ := Outcome.assert_ok h
    obtain ⟨-, h⟩ := Outcome.assert_ok h
    cases h
    exact .stay (.single ⟨rfl, rfl⟩ (.scalars rfl))
  | schedulerUnlock sync =>
    obtain ⟨h, -⟩ := quiet_ok h
    refine .stay ((schedulerUnlock_path h).mono ?_)
    rintro a (rfl | rfl | rfl)
    all_goals simp [Does, Kind.still]
  | semCreate s v =>
    obtain ⟨h, -⟩ := quiet_ok h
    obtain ⟨-, rfl⟩ := Placed.semCreate h
    exact .stay ((Path.single ⟨Or.inl rfl, rfl⟩ (.queue hs rfl)).tail ⟨Or.inr rfl, rfl⟩ (.sem rfl))
  | semDestroy s =>
    obtain ⟨h, -⟩ := quiet_ok h
    obtain ⟨k₁, hpath, hn, hsch⟩ := hp.semDestroy h (Or.inl rfl)
    refine .scheduled ?_ (by simp [Does]) hsch
    refine Path.tail (Path.tail (hpath.mono ?_) ?_ (.queue hn rfl)) ?_ (.sem rfl)
    · rintro a ⟨t, rfl⟩
      simp [Does, Kind.still]
    · simp [Does, Kind.still]
    · simp [Does, Kind.still]
  | semDown s timeoutTicks =>
    obtain ⟨c, h, -⟩ := coded_ok h
    obtain ⟨-, ⟨-, -, rfl⟩ | ⟨-, -, -, rfl⟩ | ⟨-, -, k₁, ht, hb⟩⟩ := hp.semDown h ⟨rfl, by simp⟩
    · exact .stay (.single ⟨Or.inl rfl, rfl⟩ (.sem rfl))
    · exact .stay (.refl _)
    · exact .last (Path.single (by simp [Does, Kind.still]) ht.move) (by simp [Does]) rfl hb
  | semUp s sync =>
    obtain ⟨h, -⟩ := quiet_ok h
    obtain ⟨-, ⟨-, rfl⟩ | ⟨t, k₁, -, hm, hk⟩⟩ := hp.semUp h (Or.inr rfl)
    · exact .stay (.single ⟨Or.inl rfl, rfl⟩ (.sem rfl))
    · have h₁ : Path (fun a => Does k (.call (.semUp s sync)) a ∧ a.still = true) k k₁ :=
        .single (by simp [Does, Kind.still]) hm
      obtain ⟨-, rfl⟩ | hsch := hk
      · exact .stay h₁
      · exact .scheduled h₁ (by simp [Does]) hsch
  | mtxCreate m =>
    obtain ⟨h, -⟩ := quiet_ok h
    obtain ⟨-, h⟩ := Outcome.assert_ok h
    obtain ⟨-, h⟩ := Outcome.assert_ok h
    cases h
    exact .stay ((Path.single ⟨Or.inl rfl, rfl⟩ (.queue hs.2 rfl)).tail ⟨Or.inr rfl, rfl⟩
      (.setMtx _ m _))
  | mtxDestroy m =>
    obtain ⟨h, -⟩ := quiet_ok h
    obtain ⟨-, -, k₁, hk, hn, hsch⟩ := hp.mtxDestroy h fun h t ht => ho t m ht h
    have h₁ : Path (fun a => Does k (.call (.mtxDestroy m)) a ∧ a.still = true) k k₁ := by
      obtain ⟨-, rfl⟩ | ⟨-, k₂, hrel, hpath⟩ := hk
      · exact .refl _
      · refine ((hrel.path hp).mono ?_).trans (hpath.mono ?_)
        · rintro a (rfl | rfl) <;> simp [Does, Kind.still]
        · rintro a ⟨t, rfl⟩
          simp [Does, Kind.still]
    exact .scheduled ((h₁.tail (by simp [Does, Kind.still]) (.queue hn rfl)).tail
      (by simp [Does, Kind.still]) (.setMtx _ m _)) (by simp [Does]) hsch
  | mtxLock m =>
    obtain ⟨c, h, -⟩ := coded_ok h
    obtain ⟨-, -, -, ⟨-, -, rfl⟩ | ⟨-, -, rfl⟩ | ⟨o, k₁, -, -, -, -, hpath, hb⟩⟩ := hp.mtxLock h
    · exact .stay (.single ⟨Or.inl rfl, rfl⟩ (.setOwner k m _))
    · exact .stay (.single ⟨Or.inl rfl, rfl⟩ (.setMtx k m _))
    · refine .last (hpath.mono ?_) (by simp [Does]) rfl hb
      rintro a ⟨t, rfl⟩
      simp [Does, Kind.still]
  | mtxUnlock m =>
    obtain ⟨h, -⟩ := quiet_ok h
    obtain ⟨-, -, -, k₁, hk₁, hcase⟩ := hp.mtxUnlock h
    have hm : Move (.owner m) k k₁ := by
      rw [hk₁]
      exact .setMtx k m _
    have h₁ : Path (fun a => Does k (.call (.mtxUnlock m)) a ∧ a.still = true) k k₁ :=
      .single ⟨Or.inl rfl, rfl⟩ hm
    have hp₁ := hm.placed hp
    have hc : k₁.taskCurrent = k.taskCurrent := by rw [hk₁]; rfl
    obtain ⟨-, rfl⟩ | ⟨-, k₂, hrel, hcase⟩ := hcase
    · exact .stay h₁
    · have h₂ := h₁.trans ((hrel.path hp₁).mono
        (E := fun a => Does k (.call (.mtxUnlock m)) a ∧ a.still = true) (by
          rw [hc]
          rintro a (rfl | rfl) <;> simp [Does, Kind.still]))
      obtain ⟨-, rfl⟩ | ⟨t, k₃, -, hw, hsch⟩ := hcase
      · exact .stay h₂
      · exact .scheduled ((h₂.tail ⟨Or.inl rfl, rfl⟩ (.setOwner k₂ m t)).tail
          (by simp [Does, Kind.still]) hw) (by simp [Does]) hsch
  | waitqueueCreate q =>
    obtain ⟨h, -⟩ := quiet_ok h
    obtain ⟨-, h⟩ := Outcome.assert_ok h
    cases h
    exact .stay (.single ⟨rfl, rfl⟩ (.queue hs rfl))
  | waitqueueDestroy q =>
    obtain ⟨h, -⟩ := quiet_ok h
    obtain ⟨-, k₁, hpath, hn, hsch⟩ := hp.waitqueueDestroy h
    refine .scheduled (Path.tail (hpath.mono ?_) ?_ (.queue hn rfl)) (by simp [Does]) hsch
    · rintro a ⟨t, rfl⟩
      simp [Does, Kind.still]
    · simp [Does, Kind.still]
  | waitqueuePrepare q =>
    obtain ⟨h, -⟩ := quiet_ok h
    obtain ⟨-, -, -, -, rfl⟩ := Placed.waitqueuePrepare h
    exact .stay ((Path.single ⟨Or.inl rfl, rfl⟩ (.scalars rfl)).tail ⟨Or.inr rfl, rfl⟩
      (setCtx_move { k with schedLock := k.schedLock + 1 } (.prepare q)))
  | waitqueueBreak =>
    obtain ⟨h, -⟩ := quiet_ok h
    obtain ⟨-, h⟩ := Outcome.assert_ok h
    cases h
    exact .stay ((Path.single ⟨Or.inl rfl, rfl⟩ (.scalars rfl)).tail ⟨Or.inr rfl, rfl⟩
      (setCtx_move { k with waitqueueCurrent := none } .brk))
  | waitqueueWait timeoutTicks =>
    obtain ⟨c, h, -⟩ := coded_ok h
    have hsc : Path (fun a => Does k (.call (.waitqueueWait timeoutTicks)) a ∧ a.still = true) k
        { k with schedLock := k.schedLock - 1 } := .single ⟨Or.inl rfl, rfl⟩ (.scalars rfl)
    obtain ⟨-, -, -, ⟨-, -, rfl⟩ | ⟨q, k₁, hw, -, ht, hb⟩⟩ := hp.waitqueueWait h
    · exact .stay (hsc.tail ⟨Or.inr (Or.inl rfl), rfl⟩
        (setCtx_move { k with schedLock := k.schedLock - 1 } .user))
    · refine .last ((hsc.tail (by simp [Does, Kind.still]) ht.move).tail ⟨Or.inl rfl, rfl⟩
        (.scalars rfl)) ?_ rfl hb
      simp [Does, hw]
  | waitqueueWakeup q cnt sync =>
    obtain ⟨h, -⟩ := quiet_ok h
    obtain ⟨-, -, k₁, hpath, -, hk⟩ := hp.waitqueueWakeup h
    have h₁ : Path (fun a => Does k (.call (.waitqueueWakeup q cnt sync)) a ∧ a.still = true)
        k k₁ := by
      refine (Path.single ⟨Or.inl rfl, rfl⟩ (Placed.caught_move q k)).trans (hpath.mono ?_)
      rintro a ⟨t, rfl⟩
      simp [Does, Kind.still]
    obtain rfl | hsch := hk
    · exact .stay h₁
    · exact .scheduled h₁ (by simp [Does]) hsch
  | timerCreate x timeoutTicks reloadTicks =>
    obtain ⟨h, -⟩ := quiet_ok h
    obtain ⟨y, -, h⟩ := Outcome.bind_ok h
    cases h
    exact .stay (.single ⟨rfl, rfl⟩ (Placed.setTimers_move y k))
  | timerDestroy x =>
    obtain ⟨h, -⟩ := quiet_ok h
    obtain ⟨y, -, h⟩ := Outcome.bind_ok h
    cases h
    exact .stay (.single ⟨rfl, rfl⟩ (Placed.setTimers_move y k))
  | tick =>
    obtain ⟨h, -⟩ := quiet_ok h
    obtain ⟨-, k₁, -, hpath, hsch⟩ := hp.tick h
    refine .scheduled (hpath.mono ?_) (by simp [Does]) hsch
    rintro a (rfl | ⟨t, Q, rfl⟩) <;> simp [Does, Kind.still]

omit [Port] in
/-- The return from a blocking call up to the read of the code. -/
theorem blockedReturn_ok {c : RetCode} (h : blockedReturn k = .ok (k', c)) :
    ∃ x, k.running.Untimed k.taskCurrent none x ∧
      k' = { k.setTask k.taskCurrent { k.current with state := .running, timer := none } with
        timers := x } ∧
      c = k.current.blockCode := by
  obtain ⟨k₁, hd, h⟩ := Outcome.bind_ok h
  cases h
  obtain ⟨x, hu, rfl⟩ := Placed.blocktimerDestroy (k := k.running) hd
  refine ⟨x, hu, ?_, ?_⟩
  · simp [Kernel.current, Kernel.running, Kernel.setTask]
  · simp [Kernel.current, Kernel.running, Kernel.setTask, Task.blockCode]

omit [Port] in
theorem blockedReturn_path {c : RetCode} (h : blockedReturn k = .ok (k', c)) :
    Path (fun a => a = .timers ∨ a = .ctx k.current.ctx k.current.ctx) k k' ∧
      k'.taskCurrent = k.taskCurrent ∧ k'.current.ctx = k.current.ctx := by
  obtain ⟨x, -, rfl, -⟩ := blockedReturn_ok h
  refine ⟨(Path.single (Or.inr rfl) (running_move k)).tail (Or.inl rfl)
    (@Move.timers _ _ x none ?_), rfl, ?_⟩
  · simp [Kernel.current, Kernel.running, Kernel.setTask]
  · simp [Kernel.current, Kernel.setTask]

omit [Port] in
theorem resume_parts (hp : Placed k) (h : resume n k = .ok (k', r)) :
    Parts (Does k .resume) k k' := by
  have hout : ∀ c : Ctx, c.interruptible = true → Does k .resume (.ctx k.current.ctx c) := by
    intro c hc
    simp [Does, hc]
  have hrun : Path (fun a => Does k .resume a ∧ a.still = true) k k.running :=
    .single (by simp [Does, Kind.still]) (running_move k)
  have hend : ∀ (k₁ : Kernel) (c : Ctx), c.interruptible = true → k₁.current.ctx = k.current.ctx →
      Path (fun a => Does k .resume a ∧ a.still = true) k k₁ →
        Parts (Does k .resume) k (k₁.setCtx c) := by
    intro k₁ c hi he h
    exact .stay (h.tail ⟨hout c hi, rfl⟩ (he ▸ setCtx_move k₁ c))
  have hrc : k.running.current.ctx = k.current.ctx := by
    simp [Kernel.running, Kernel.current]
  unfold resume at h
  split at h
  case h_1 | h_2 | h_3 => all_goals cases h
  case h_4 q hc =>
    obtain ⟨h, -⟩ := quiet_ok h
    cases h
    exact hend { k with waitqueueCurrent := some q } _ rfl rfl
      (.single (by simp [Does, Kind.still]) (.scalars rfl))
  case h_5 hc =>
    obtain ⟨h, -⟩ := quiet_ok h
    refine .stay ((schedulerUnlock_path h).mono ?_)
    rintro a (rfl | rfl | rfl)
    · simp [Does, Kind.still]
    · exact ⟨hout _ rfl, rfl⟩
    · exact ⟨hout _ rfl, rfl⟩
  case h_6 | h_7 =>
    all_goals
      obtain ⟨h, -⟩ := quiet_ok h
      have hm := setCtx_move k .user
      exact .scheduled (.single ⟨hout _ rfl, rfl⟩ hm) (by simp [Does])
        ((hm.placed hp).schedule h (Or.inl rfl))
  case h_8 hc =>
    obtain ⟨h, -⟩ := quiet_ok h
    cases h
    exact hend _ _ rfl hrc hrun
  case h_9 x hc | h_10 x hc =>
    all_goals
      obtain ⟨⟨k₁, c⟩, hb, h⟩ := Outcome.bind_ok h
      cases h
      obtain ⟨hpath, -, hctx⟩ := blockedReturn_path hb
      refine hend _ _ rfl hctx (hpath.mono ?_)
      rintro a (rfl | rfl)
      · simp [Does, Kind.still, hc]
      · simp [Does, Kind.still]
  case h_11 m hc =>
    cases h
    exact hend _ _ rfl hrc hrun
  case h_12 t hc =>
    obtain ⟨⟨k₁, c⟩, hb, h⟩ := Outcome.bind_ok h
    obtain ⟨hpath, hcur, hctx⟩ := blockedReturn_path hb
    have h₁ : Path (fun a => Does k .resume a ∧ a.still = true) k k₁ := by
      refine hpath.mono ?_
      rintro a (rfl | rfl)
      · simp [Does, Kind.still, hc]
      · simp [Does, Kind.still]
    refine .trans h₁ (((hpath.placed hp).joinDestroyed (hctx.trans hc) h).mono fun a ha => ?_)
    simp only [Does]
    exact Or.inr (Or.inr (Or.inr (Or.inr (Or.inr ⟨t, hc, hcur ▸ ha⟩))))
  case h_13 t hc =>
    obtain ⟨⟨k₁, v⟩, hj, h⟩ := Outcome.bind_ok h
    cases h
    refine hend _ _ rfl ?_ (hrun.tail ⟨?_, rfl⟩ (Placed.joinFinish hj))
    · obtain ⟨-, hj⟩ := Outcome.assert_ok hj
      cases hj
      by_cases ht : k.taskCurrent = t
      · subst ht
        simp [Kernel.running, Kernel.current]
      · simp [Kernel.running, Kernel.current, ht]
    · simp only [Does]
      exact Or.inr (Or.inr (Or.inr (Or.inr (Or.inl ⟨t, hc, rfl⟩))))

/-- The moves of a step. -/
theorem exec_parts {i : Action} (hp : Placed k) (ho : Owned k) (hs : Sane k i)
    (h : exec n i k = .ok (k', r)) : Parts (Does k i) k k' := by
  cases i with
  | call c => exact Call.exec_parts hp ho hs h
  | resume => exact resume_parts hp h
  | isrEnter =>
    cases h
    exact .stay (.single ⟨rfl, rfl⟩ (.scalars rfl))
  | isrExit =>
    cases h
    exact .stay (.single ⟨rfl, rfl⟩ (.scalars rfl))

/-- What a step does. -/
theorem exec_path {i : Action} (hp : Placed k) (ho : Owned k) (hs : Sane k i)
    (h : exec n i k = .ok (k', r)) : Path (Does k i) k k' :=
  (exec_parts hp ho hs h).path

/-- A function that returns a result returns to the task that is running. -/
theorem exec_returns {i : Action} {v : Ret} (hp : Placed k) (he : Enabled k i)
    (h : exec n i k = .ok (k', some v)) :
    k'.taskCurrent = k.taskCurrent ∧ k.isrNesting = 0 ∧ k'.current.ctx.outside = true := by
  cases i with
  | isrEnter => cases h
  | isrExit => cases h
  | call c =>
    have hout : k.isrNesting = 0 → (k.tasks k.taskCurrent).ctx.outside = true := by
      intro hi
      rwa [Enabled, if_pos hi] at he
    cases c with
    | taskJoin t =>
      have hi : k.isrNesting = 0 := (Outcome.assert_ok h).1
      obtain hm | ⟨hv, -⟩ := hp.taskJoin h
      · have hc := hm.taskCurrent_eq (by simp) (by simp) (by simp)
        refine ⟨hc, hi, ?_⟩
        have hx := hm.task k.taskCurrent
        rw [Kernel.current, hc]
        generalize k'.tasks k.taskCurrent = x at hx ⊢
        cases hx <;> exact hout hi
      · cases hv
    | semDown s T =>
      obtain ⟨c, hx, hc⟩ := coded_ok h
      have hi : k.isrNesting = 0 := (Outcome.assert_ok hx).1
      obtain ⟨-, ⟨-, -, rfl⟩ | ⟨-, -, -, rfl⟩ | ⟨-, rfl, -⟩⟩ := hp.semDown hx ⟨rfl, by simp⟩
      · exact ⟨rfl, hi, hout hi⟩
      · exact ⟨rfl, hi, hout hi⟩
      · cases hc
    | mtxLock m =>
      obtain ⟨c, hx, hc⟩ := coded_ok h
      obtain ⟨hi, -, -, ⟨-, -, rfl⟩ | ⟨-, -, rfl⟩ | ⟨o, k₁, -, -, rfl, -⟩⟩ := hp.mtxLock hx
      · exact ⟨rfl, hi, by simpa [Kernel.current, osMtxSetOwner, Kernel.setMtx] using hout hi⟩
      · exact ⟨rfl, hi, hout hi⟩
      · cases hc
    | waitqueueWait T =>
      obtain ⟨c, hx, hc⟩ := coded_ok h
      obtain ⟨hi, -, -, ⟨-, -, rfl⟩ | ⟨q, k₁, -, rfl, -⟩⟩ := hp.waitqueueWait hx
      · exact ⟨rfl, hi, by simp [Kernel.current, Kernel.setCtx, Kernel.setTask, Ctx.outside]⟩
      · cases hc
    | _ =>
      obtain ⟨-, hr⟩ := quiet_ok h
      cases hr
  | resume =>
    have hset : ∀ k₁ : Kernel, k₁.taskCurrent = k.taskCurrent →
        (k₁.setCtx .user).taskCurrent = k.taskCurrent ∧ k.isrNesting = 0 ∧
          (k₁.setCtx .user).current.ctx.outside = true := by
      intro k₁ hc
      exact ⟨hc, he.1, by simp [Kernel.current, Kernel.setCtx, Kernel.setTask, Ctx.outside]⟩
    have hfin : ∀ {k₁ k₂ : Kernel} {t : TaskId} {w : Ret}, joinFinish t k₁ = .ok (k₂, w) →
        k₂.taskCurrent = k₁.taskCurrent := by
      intro k₁ k₂ t w hj
      exact (Placed.joinFinish hj).taskCurrent_eq (by simp) (by simp) (by simp)
    change resume n k = .ok (k', some v) at h
    unfold resume at h
    split at h
    case h_9 | h_10 =>
      all_goals
        obtain ⟨⟨k₁, c⟩, hb, h⟩ := Outcome.bind_ok h
        cases h
        exact hset k₁ (blockedReturn_path hb).2.1
    case h_11 =>
      cases h
      exact hset k.running rfl
    case h_12 t hc =>
      obtain ⟨⟨k₁, c⟩, hb, h⟩ := Outcome.bind_ok h
      obtain ⟨-, h⟩ := Outcome.assert_ok h
      obtain ⟨k₂, -, h⟩ := Outcome.bind_ok h
      simp only at h
      split at h
      · rename_i hcur
        obtain ⟨⟨k₃, w⟩, hj, h⟩ := Outcome.bind_ok h
        cases h
        exact hset k₃ ((hfin hj).trans (hcur.trans (blockedReturn_path hb).2.1))
      · cases h
    case h_13 t hc =>
      obtain ⟨⟨k₁, w⟩, hj, h⟩ := Outcome.bind_ok h
      cases h
      have hc₁ : k₁.taskCurrent = k.running.taskCurrent := hfin hj
      exact hset k₁ hc₁
    all_goals
      first
      | cases h
      | obtain ⟨-, hr⟩ := quiet_ok h; cases hr

end Exec

end RadOs
