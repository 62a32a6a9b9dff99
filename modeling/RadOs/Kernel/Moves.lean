import RadOs.Kernel.Queues

/-! # The moves of the kernel

Whatever an interface function does, it does by a few kinds of moves: a waiting
task is woken, the context is switched, the running task blocks or exits, a task
is created, a priority changes, and changes of data that no queue depends on.
`Move` lists them with the conditions under which the code makes them.
-/

namespace RadOs
open Bucketed

/-- What a move is about. -/
inductive Kind where
  | wake (t : TaskId) (Q : QueueId) (c : RetCode)
  | switch
  | block (Q : QueueId)
  | exit
  | create (t : TaskId)
  | reprio (t : TaskId)
  | ctx (c c' : Ctx)
  | join (t : TaskId)
  | timers
  | owner (m : MtxId)
  | sem (s : SemId)
  | queue (Q : QueueId)
  | scalars

/-- Created and not yet exited. -/
def Kernel.Live (k : Kernel) (t : TaskId) : Prop := (k.tasks t).state.live = true

instance (k : Kernel) (t : TaskId) : Decidable (k.Live t) := inferInstanceAs (Decidable (_ = _))

/-- The place of the code at which a task waits in a queue. -/
def Awaits (t : TaskId) : Ctx → QueueId → Prop
  | .semDown s, Q => Q = .sem s ∧ ∀ u, s ≠ .join u
  | .mtxLock m, Q => Q = .mtx m
  | .waitqueueWait q, Q => Q = .waitqueue q
  | .joinDown _, Q => Q = .sem (.join t)
  | _, _ => False

/-- The block type that goes with a queue. -/
def QueueId.blockType : QueueId → TaskBlock
  | .ready => .invalid
  | .sem _ => .sem
  | .mtx _ => .mtx
  | .waitqueue _ => .waitqueue

namespace Kernel
variable (k : Kernel)

def woken (t : TaskId) (c : RetCode) (tm : Option TimerId) (x : Timers TimerId TimerProc) : Kernel :=
  { k.setTask t { k.tasks t with
      timer := tm, retValue := c.toInt, state := .ready, taskQueue := some .ready } with timers := x }

/-- The running task goes to the ready queue and continues at `c`. -/
def switched (newTask : TaskId) (c : Ctx) : Kernel :=
  { (k.setTask newTask { k.tasks newTask with taskQueue := none }).setTask k.taskCurrent
      { k.current with state := .ready, taskQueue := some .ready, ctx := c } with
    taskCurrent := newTask }

/-- The same at the end of an interrupt handler. -/
def switchedIsr (newTask : TaskId) : Kernel :=
  { (k.setTask newTask { k.tasks newTask with taskQueue := none, state := .running }).setTask
      k.taskCurrent { k.current with state := .ready, taskQueue := some .ready } with
    taskCurrent := newTask }

def blocked (Q : QueueId) (c : Ctx) (newTask : TaskId) : Kernel :=
  { (k.setTask newTask { k.tasks newTask with taskQueue := none }).setTask k.taskCurrent
      { k.current with state := .wait, blockType := Q.blockType, taskQueue := some Q, ctx := c } with
    taskCurrent := newTask }

def exited (v : ℤ) (newTask : TaskId) : Kernel :=
  { (k.setTask newTask { k.tasks newTask with taskQueue := none }).setTask k.taskCurrent
      { k.current with retValue := v, state := .destroyed, ctx := .exit } with
    taskCurrent := newTask }

end Kernel

/-- `newTask` is the ready task to run next. -/
def Kernel.Next (k : Kernel) (newTask : TaskId) : Prop :=
  (k.tasks newTask).taskQueue = some .ready ∧
    ∀ u, (k.tasks u).taskQueue = some .ready →
      (k.tasks u).prioCurrent ≤ (k.tasks newTask).prioCurrent

/-- The timer of a task that is being woken: left alone by the callback of the timer itself and by
mutexes, stopped by everything else. -/
def Kernel.Untimed (k : Kernel) (t : TaskId) (tm : Option TimerId)
    (x : Timers TimerId TimerProc) : Prop :=
  (tm = (k.tasks t).timer ∧ x = k.timers) ∨
    ∃ y, (k.tasks t).timer = some y ∧ osTimerDestroy y k.timers = .ok x ∧ tm = none

inductive Move : Kind → Kernel → Kernel → Prop
  | wake {k k' : Kernel} {t : TaskId} {Q : QueueId} {c : RetCode} {tm : Option TimerId}
      {x : Timers TimerId TimerProc} (hQ : (k.tasks t).taskQueue = some Q) (hr : Q ≠ .ready)
      (hu : k.Untimed t tm x) (ht : c = .timeout ∨ (∃ m, Q = .mtx m) ∨ tm = none)
      (h : Realizes (k.woken t c tm x) k') : Move (.wake t Q c) k k'
  | switch {k k' : Kernel} {p : ℕ} {newTask : TaskId} {c : Ctx} (hi : k.isrNesting = 0)
      (hl : k.schedLock = 0) (hn : k.Next newTask)
      (hp : k.current.prioCurrent + p ≤ (k.tasks newTask).prioCurrent)
      (hc : c = .schedule ∨ ∃ t, c = .joinDestroy t)
      (h : Realizes (k.switched newTask c) k') : Move .switch k k'
  | switchIsr {k k' : Kernel} {p : ℕ} {newTask : TaskId} (hi : k.isrNesting = 1)
      (hl : k.schedLock = 0) (hn : k.Next newTask)
      (hp : k.current.prioCurrent + p ≤ (k.tasks newTask).prioCurrent)
      (h : Realizes (k.switchedIsr newTask) k') : Move .switch k k'
  | block {k k' : Kernel} {Q : QueueId} {c : Ctx} {newTask : TaskId} (hi : k.isrNesting = 0)
      (hd : k.taskCurrent ≠ taskIdle) (hr : Q ≠ .ready) (hn : k.Next newTask)
      (hc : Awaits k.taskCurrent c Q) (hm : ∀ m, Q = .mtx m → (k.mtxs m).owner ≠ none)
      (hq : (k.queues Q).linked = true) (h : Realizes (k.blocked Q c newTask) k') :
      Move (.block Q) k k'
  | exit {k k' : Kernel} {v : ℤ} {newTask : TaskId} (hn : k.Next newTask)
      (hd : k.taskCurrent ≠ taskIdle) (h : Realizes (k.exited v newTask) k') : Move .exit k k'
  | create {k k' : Kernel} {t : TaskId} {p : ℕ} (hp : 0 < p) (hl : ¬ k.Live t)
      (h : Realizes (k.setTask t { osTaskInit p with taskQueue := some .ready }) k') :
      Move (.create t) k k'
  | reprio {k k' : Kernel} {t : TaskId} {p : ℕ}
      (h : Realizes (k.setTask t { k.tasks t with prioCurrent := p }) k') : Move (.reprio t) k k'
  | ctx {k k' : Kernel} {c : Ctx} {st : TaskState} (hs : st = .running ∨ st = k.current.state)
      (h : k' = k.setTask k.taskCurrent { k.current with ctx := c, state := st }) :
      Move (.ctx k.current.ctx c) k k'
  | join {k k' : Kernel} {t : TaskId} {j : Option SemId} {st : TaskState}
      (hj : ∀ s, j = some s → ∃ u, s = .join u)
      (hs : st = (k.tasks t).state ∨ ((k.tasks t).state = .destroyed ∧ st = .invalid))
      (h : k' = k.setTask t { k.tasks t with joinSem := j, state := st }) : Move (.join t) k k'
  | timers {k k' : Kernel} {x : Timers TimerId TimerProc} {tm : Option TimerId}
      (h : k' = { k.setTask k.taskCurrent { k.current with timer := tm } with timers := x }) :
      Move .timers k k'
  | owner {k k' : Kernel} {m : MtxId} {t : TaskId} {y : Mtx} {l : List MtxId}
      (h : k' = (k.setMtx m y).setTask t { k.tasks t with mtxList := l }) : Move (.owner m) k k'
  | sem {k k' : Kernel} {s : SemId} {v : ℕ} (h : k' = k.setSem s v) : Move (.sem s) k k'
  | queue {k k' : Kernel} {Q : QueueId} {b : Bool}
      (hQ : ∀ t, (k.tasks t).taskQueue ≠ some Q) (h : k' = k.setQueue Q ⟨.empty, b⟩) :
      Move (.queue Q) k k'
  | scalars {k k' : Kernel} {i : ℕ} {l : ℤ} {w : Option WaitqueueId} {b : Bool}
      (h : k' = { k with isrNesting := i, schedLock := l, waitqueueCurrent := w, started := b }) :
      Move .scalars k k'

/-- A sequence of moves of the kinds `D`. -/
inductive Path (D : Kind → Prop) : Kernel → Kernel → Prop
  | refl (k : Kernel) : Path D k k
  | tail {k k₁ k' : Kernel} {a : Kind} (h : Path D k k₁) (ha : D a) (hm : Move a k₁ k') : Path D k k'

namespace Path
variable {D E : Kind → Prop} {k k₁ k' : Kernel} {a : Kind}

theorem single (ha : D a) (h : Move a k k') : Path D k k' := (Path.refl k).tail ha h

theorem trans (h : Path D k k₁) (h' : Path D k₁ k') : Path D k k' := by
  induction h' with
  | refl => exact h
  | tail _ ha hm ih => exact ih.tail ha hm

theorem mono (hD : ∀ a, D a → E a) (h : Path D k k') : Path E k k' := by
  induction h with
  | refl => exact Path.refl _
  | tail _ ha hm ih => exact ih.tail (hD _ ha) hm

/-- What every move keeps holds at the end of a path. -/
theorem invariant {I : Kernel → Prop} (hI : ∀ a k k', D a → I k → Move a k k' → I k')
    (h : Path D k k') (hk : I k) : I k' := by
  induction h with
  | refl => exact hk
  | tail _ ha hm ih => exact hI _ _ _ ha ih hm

end Path

/-- Waking tasks changes nothing but their places, codes and timers. -/
structure WakeFrame (k k' : Kernel) : Prop where
  taskCurrent : k'.taskCurrent = k.taskCurrent
  isrNesting : k'.isrNesting = k.isrNesting
  schedLock : k'.schedLock = k.schedLock
  waitqueueCurrent : k'.waitqueueCurrent = k.waitqueueCurrent
  started : k'.started = k.started
  mtxs : k'.mtxs = k.mtxs
  sems : k'.sems = k.sems
  linked : ∀ Q, (k'.queues Q).linked = (k.queues Q).linked
  ctx : ∀ t, (k'.tasks t).ctx = (k.tasks t).ctx
  prioCurrent : ∀ t, (k'.tasks t).prioCurrent = (k.tasks t).prioCurrent
  prioBase : ∀ t, (k'.tasks t).prioBase = (k.tasks t).prioBase
  mtxList : ∀ t, (k'.tasks t).mtxList = (k.tasks t).mtxList

theorem Move.wakeFrame {k k' : Kernel} {t : TaskId} {Q : QueueId} {c : RetCode}
    (h : Move (.wake t Q c) k k') : WakeFrame k k' := by
  cases h with
  | wake hQ hr hu ht h =>
    obtain ⟨q, rfl, -, hl⟩ := h
    refine ⟨rfl, rfl, rfl, rfl, rfl, rfl, rfl, hl, ?_, ?_, ?_, ?_⟩ <;> intro u <;>
      by_cases hu : u = t <;> simp [Kernel.woken, hu]

theorem Path.wakeFrame {D : Kind → Prop} {k k' : Kernel}
    (hD : ∀ a, D a → ∃ t Q c, a = .wake t Q c) (h : Path D k k') : WakeFrame k k' := by
  induction h with
  | refl => constructor <;> intros <;> rfl
  | tail _ ha hm ih =>
    obtain ⟨t, Q, c, rfl⟩ := hD _ ha
    have h₁ := hm.wakeFrame
    constructor <;> intros <;> grind [WakeFrame]

/-! ## No task is lost -/

/-- Every task is in its place: the running task `cur` in no queue, every other live task in one,
as its state and its place in the code say. -/
structure Standing (tasks : TaskId → Task) (cur : TaskId) : Prop where
  current : (tasks cur).taskQueue = none
  currentLive : (tasks cur).state.live = true
  elsewhere : ∀ t, (tasks t).state.live = true → t ≠ cur → (tasks t).taskQueue ≠ none
  live : ∀ t, (tasks t).taskQueue ≠ none → (tasks t).state.live = true
  ready : ∀ t, (tasks t).taskQueue = some .ready → (tasks t).state = .ready
  wait : ∀ t Q, (tasks t).taskQueue = some Q → Q ≠ .ready → (tasks t).state = .wait ∧
    Awaits t (tasks t).ctx Q ∧ (tasks t).blockType = Q.blockType
  waiting : ∀ t, (tasks t).state = .wait → (tasks t).taskQueue ≠ none
  idle : (tasks taskIdle).state.live = true ∧ (tasks taskIdle).state ≠ .wait
  joins : ∀ t s, (tasks t).joinSem = some s → ∃ u, s = .join u

structure Placed (k : Kernel) : Prop extends Standing k.tasks k.taskCurrent where
  filed : Filed k

section Moves
variable {k k' : Kernel} {a : Kind}

theorem Realizes.filed {K : Kernel} (h : Realizes K k) : Filed k := by
  obtain ⟨q, -, hf, -⟩ := h
  exact hf

theorem Filed.setQueue_empty (h : Filed k) {Q : QueueId} {b : Bool}
    (hQ : ∀ t, (k.tasks t).taskQueue ≠ some Q) : Filed (k.setQueue Q ⟨.empty, b⟩) := by
  intro Q'
  by_cases he : Q' = Q
  · subst he
    have : (k.setQueue Q' ⟨.empty, b⟩).queues Q' = ⟨.empty, b⟩ := by simp [Kernel.setQueue]
    rw [this]
    exact Files.empty fun t => by simp [Kernel.key, Kernel.setQueue, hQ t]
  · have : (k.setQueue Q ⟨.empty, b⟩).queues Q' = k.queues Q' := by simp [Kernel.setQueue, he]
    rw [this]
    exact h Q'

theorem Move.filed (h : Move a k k') (hf : Filed k) : Filed k' := by
  cases h with
  | wake hQ hr hu ht h => exact h.filed
  | switch hi hl hn hp hc h => exact h.filed
  | switchIsr hi hl hn hp h => exact h.filed
  | block hi hd hr hn hc hm hq h => exact h.filed
  | exit hn hd h => exact h.filed
  | create hp hl h => exact h.filed
  | reprio h => exact h.filed
  | ctx hs h => subst h; exact hf.setTask rfl fun _ => rfl
  | join hj hs h => subst h; exact hf.setTask rfl fun _ => rfl
  | timers h =>
    subst h
    exact hf.setTask (t := k.taskCurrent) (x := { k.current with timer := _ }) rfl fun _ => rfl
  | owner h =>
    subst h
    exact (show Filed (k.setMtx _ _) from hf).setTask rfl fun _ => rfl
  | sem h => subst h; exact hf
  | queue hQ h => subst h; exact hf.setQueue_empty hQ
  | scalars h => subst h; exact hf

/-- What a record of a task says about its place, for the task `t`. -/
structure Consistent (t : TaskId) (x : Task) : Prop where
  live : x.taskQueue ≠ none → x.state.live = true
  ready : x.taskQueue = some .ready → x.state = .ready
  wait : ∀ Q, x.taskQueue = some Q → Q ≠ .ready → x.state = .wait ∧ Awaits t x.ctx Q ∧
    x.blockType = Q.blockType
  waiting : x.state = .wait → x.taskQueue ≠ none
  joins : ∀ s, x.joinSem = some s → ∃ u, s = .join u

theorem Consistent.of_ready {t : TaskId} {x : Task} (hq : x.taskQueue = some .ready)
    (hs : x.state = .ready) (hj : ∀ s, x.joinSem = some s → ∃ u, s = .join u) : Consistent t x := by
  refine ⟨fun _ => by simp [hs, TaskState.live], fun _ => hs, fun Q hQ hr => ?_, fun h => ?_, hj⟩
  · rw [hq] at hQ
    exact absurd (Option.some.inj hQ).symm hr
  · rw [hs] at h
    cases h

section Standing
variable {tasks : TaskId → Task} {cur newTask t : TaskId} {x y : Task}

theorem Standing.consistent (h : Standing tasks cur) (t : TaskId) : Consistent t (tasks t) :=
  ⟨h.live t, h.ready t, h.wait t, h.waiting t, h.joins t⟩

/-- One record changes. -/
theorem Standing.set (h : Standing tasks cur) (hx : Consistent t x)
    (hc : t = cur → x.taskQueue = none ∧ x.state.live = true)
    (he : t ≠ cur → x.state.live = true → x.taskQueue ≠ none)
    (hi : t = taskIdle → x.state.live = true ∧ x.state ≠ .wait) :
    Standing (Function.update tasks t x) cur := by
  obtain ⟨hcur, hcl, hel, hli, hre, hwa, hwi, hid, hjo⟩ := h
  obtain ⟨hl, hr, hw, hw', hj⟩ := hx
  constructor <;> grind [Function.update_apply]

/-- One record changes where it says nothing about the place. -/
theorem Standing.same (h : Standing tasks cur) (hq : x.taskQueue = (tasks t).taskQueue)
    (hs : x.state = (tasks t).state) (hc : x.ctx = (tasks t).ctx)
    (hb : x.blockType = (tasks t).blockType) (hj : x.joinSem = (tasks t).joinSem) :
    Standing (Function.update tasks t x) cur := by
  have hx := h.consistent t
  have hcur := h.current
  have hcl := h.currentLive
  refine h.set ⟨hq ▸ hs ▸ hx.live, hq ▸ hs ▸ hx.ready, ?_, hq ▸ hs ▸ hx.waiting, hj ▸ hx.joins⟩
    (fun he => ?_) (fun he hl => ?_) fun he => ?_
  · rw [hq, hs, hc, hb]
    exact hx.wait
  · subst he
    rw [hq, hs]
    exact ⟨hcur, hcl⟩
  · rw [hs] at hl
    rw [hq]
    exact h.elsewhere t hl he
  · subst he
    rw [hs]
    exact h.idle

/-- The running task is filed, and another one takes its place. -/
theorem Standing.pass (h : Standing tasks cur) (hn : (tasks newTask).taskQueue = some .ready)
    (hy : y.taskQueue = none) (hyl : y.state.live = true) (hyw : y.state ≠ .wait)
    (hyj : y.joinSem = (tasks newTask).joinSem) (hx : Consistent cur x)
    (he : x.state.live = true → x.taskQueue ≠ none)
    (hi : cur = taskIdle → x.state.live = true ∧ x.state ≠ .wait) :
    Standing (Function.update (Function.update tasks newTask y) cur x) newTask := by
  have hne : newTask ≠ cur := by
    rintro rfl
    rw [h.current] at hn
    cases hn
  have hyp : Consistent newTask y := by
    refine ⟨fun h => absurd hy h, fun h => ?_, fun Q h => ?_, fun h => absurd h hyw, fun s hs => ?_⟩
    · rw [hy] at h
      cases h
    · rw [hy] at h
      cases h
    · exact h.joins newTask s (hyj ▸ hs)
  obtain ⟨hcur, hcl, hel, hli, hre, hwa, hwi, hid, hjo⟩ := h
  obtain ⟨hl, hr, hw, hw', hj⟩ := hx
  obtain ⟨hl₁, hr₁, hw₁, hw₁', hj₁⟩ := hyp
  constructor <;> grind [Function.update_apply]

end Standing

theorem Move.standing (h : Move a k k') (hp : Standing k.tasks k.taskCurrent) :
    Standing k'.tasks k'.taskCurrent := by
  have hcur := hp.current
  have hcl := hp.currentLive
  have hx := hp.consistent
  cases h with
  | @wake _ _ t Q c tm y hQ hr hu ht h =>
    obtain ⟨q, rfl, -, -⟩ := h
    exact hp.set (.of_ready rfl rfl (hx t).joins) (fun he => by grind) (fun _ _ => nofun)
      fun _ => ⟨rfl, nofun⟩
  | @switch _ _ p newTask c hi hl hn hp' hc h =>
    obtain ⟨q, rfl, -, -⟩ := h
    exact hp.pass hn.1 rfl ((hx newTask).live (by simp [hn.1])) (by simp [(hx newTask).ready hn.1])
      rfl (.of_ready rfl rfl (hx k.taskCurrent).joins) (fun _ => nofun) fun _ => ⟨rfl, nofun⟩
  | @switchIsr _ _ p newTask hi hl hn hp' h =>
    obtain ⟨q, rfl, -, -⟩ := h
    exact hp.pass hn.1 rfl rfl nofun rfl (.of_ready rfl rfl (hx k.taskCurrent).joins) (fun _ => nofun)
      fun _ => ⟨rfl, nofun⟩
  | @block _ _ Q c newTask hi hd hr hn hc hm hq h =>
    obtain ⟨q, rfl, -, -⟩ := h
    refine hp.pass hn.1 rfl ((hx newTask).live (by simp [hn.1])) (by simp [(hx newTask).ready hn.1])
      rfl ⟨fun _ => rfl, fun h => absurd (Option.some.inj h) hr, fun Q' h _ => ?_, fun _ => nofun,
      (hx k.taskCurrent).joins⟩ (fun _ => nofun) fun he => absurd he hd
    obtain rfl := Option.some.inj h
    exact ⟨rfl, hc, rfl⟩
  | @exit _ _ v newTask hn hd h =>
    obtain ⟨q, rfl, -, -⟩ := h
    have hq : k.current.taskQueue = none := hcur
    refine hp.pass hn.1 rfl ((hx newTask).live (by simp [hn.1])) (by simp [(hx newTask).ready hn.1])
      rfl ⟨fun h => absurd hq h, fun h => ?_, fun Q h => ?_, nofun, (hx k.taskCurrent).joins⟩ nofun
      fun he => absurd he hd
    · cases hq.symm.trans h
    · cases hq.symm.trans h
  | @create _ _ t p hp' hl h =>
    obtain ⟨q, rfl, -, -⟩ := h
    refine hp.set (.of_ready rfl rfl nofun) (fun he => ?_) (fun _ _ => nofun) fun _ => ⟨rfl, nofun⟩
    subst he
    exact absurd hcl hl
  | @reprio _ _ t p h =>
    obtain ⟨q, rfl, -, -⟩ := h
    exact hp.same rfl rfl rfl rfl rfl
  | @ctx _ _ c st hs h =>
    subst h
    have hq : k.current.taskQueue = none := hcur
    have hl : st.live = true := by
      rcases hs with rfl | rfl
      · rfl
      · exact hcl
    refine hp.set ⟨fun h => absurd hq h, fun h => ?_, fun Q h => ?_, fun h => ?_,
      (hx k.taskCurrent).joins⟩ (fun _ => ⟨hq, hl⟩) (fun he => absurd rfl he)
      fun he => ⟨hl, fun h => ?_⟩
    · cases hq.symm.trans h
    · cases hq.symm.trans h
    · rcases hs with rfl | rfl
      · cases h
      · exact absurd hcur ((hx k.taskCurrent).waiting h)
    · rcases hs with rfl | rfl
      · cases h
      · exact absurd hcur ((hx k.taskCurrent).waiting h)
  | @join _ _ t j st hj hs h =>
    subst h
    rcases hs with rfl | ⟨hd, rfl⟩
    · exact hp.set ⟨(hx t).live, (hx t).ready, (hx t).wait, (hx t).waiting, hj⟩
        (fun he => he ▸ ⟨hcur, hcl⟩) (fun he hl => hp.elsewhere t hl he) fun he => he ▸ hp.idle
    · have hq : (k.tasks t).taskQueue = none := by
        by_contra hq
        have := (hx t).live hq
        rw [hd] at this
        cases this
      refine hp.set ⟨fun h => absurd hq h, fun h => ?_, fun Q h => ?_, nofun, hj⟩
        (fun he => ?_) (fun _ => nofun) fun he => ?_
      · cases hq.symm.trans h
      · cases hq.symm.trans h
      · rw [← he, hd] at hcl
        cases hcl
      · have := hp.idle.1
        rw [← he, hd] at this
        cases this
  | timers h =>
    subst h
    exact hp.same rfl rfl rfl rfl rfl
  | owner h =>
    subst h
    exact hp.same rfl rfl rfl rfl rfl
  | sem h => subst h; exact hp
  | queue hQ h => subst h; exact hp
  | scalars h => subst h; exact hp

theorem Move.placed (h : Move a k k') (hp : Placed k) : Placed k' :=
  ⟨h.standing hp.toStanding, h.filed hp.filed⟩

theorem Path.placed {D : Kind → Prop} (h : Path D k k') (hp : Placed k) : Placed k' :=
  h.invariant (fun _ _ _ _ hp hm => hm.placed hp) hp

/-- The idle task is always there to run. -/
theorem Placed.idle_ready (hp : Placed k) (hc : k.taskCurrent ≠ taskIdle) :
    (k.tasks taskIdle).taskQueue = some .ready := by
  obtain ⟨Q, hQ⟩ := Option.ne_none_iff_exists'.mp (hp.elsewhere _ hp.idle.1 hc.symm)
  by_cases hr : Q = .ready
  · rw [hQ, hr]
  · exact absurd (hp.wait _ Q hQ hr).1 hp.idle.2

end Moves

end RadOs
