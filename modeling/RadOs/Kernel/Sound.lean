import Mathlib.Data.Set.Finite.Lattice
import RadOs.Kernel.Steps

/-! # The invariant of the whole kernel

`Placed`, and `Owned` because `os_mtx_destroy` clears a mutex without an owner
and its task queue with it. The queues in use are set up, and only finitely many
tasks are live.
-/

namespace RadOs
open Bucketed Runs Budget
variable [Port]

section Owners
variable {k k' : Kernel} {m : MtxId} {a : Kind} {n : ℕ} {r : Option Ret}

/-- `Owned` for one mutex. -/
def OwnedAt (m : MtxId) (k : Kernel) : Prop :=
  ∀ t, (k.tasks t).taskQueue = some (.mtx m) → (k.mtxs m).owner ≠ none

omit [Port] in
theorem OwnedAt.of_none (h : ∀ t, (k.tasks t).taskQueue ≠ some (.mtx m)) : OwnedAt m k :=
  fun t ht => absurd ht (h t)

omit [Port] in
/-- Only a change of the owner itself can leave waiting tasks without an owner. -/
theorem Move.ownedAt (h : Move a k k') (hp : Standing k.tasks k.taskCurrent) (ha : a ≠ .owner m)
    (ho : OwnedAt m k) : OwnedAt m k' := by
  intro t ht
  rw [h.mtxs_eq ha]
  obtain ⟨hq, -⟩ | ⟨-, rfl⟩ := ((h.task t).waiting_iff hp (by simp)).mp ht
  · exact ho t hq
  · cases h with
    | block hi hd hr hn hc hm hq h => exact hm m rfl

omit [Port] in
theorem Path.ownedAt {D : Kind → Prop} (h : Path D k k') (hp : Placed k)
    (hD : ∀ a, D a → a ≠ .owner m) (ho : OwnedAt m k) : OwnedAt m k' := by
  refine (h.invariant (I := fun k => Placed k ∧ OwnedAt m k) ?_ ⟨hp, ho⟩).2
  intro a k k' ha ⟨hp, ho⟩ hm
  exact ⟨hm.placed hp, hm.ownedAt hp.toStanding (hD a ha) ho⟩

omit [Port] in
theorem Scheduled.ownedAt {p : ℕ} (h : Scheduled p k k') (hp : Placed k) (ho : OwnedAt m k) :
    OwnedAt m k' :=
  (h.path (D := fun a => a = .switch) rfl).ownedAt hp (by simp) ho

omit [Port] in
theorem ownedAt_mtxDestroy (hp : Placed k) (ho : OwnedAt m k) (h : osMtxDestroy n m k = .ok k') :
    OwnedAt m k' := by
  obtain ⟨-, -, k₁, hk, hn, hsch⟩ := hp.mtxDestroy h fun h t ht => ho t ht h
  have hp₁ : Placed k₁ := by
    obtain ⟨-, rfl⟩ | ⟨-, k₂, hrel, hpath⟩ := hk
    · exact hp
    · exact hpath.placed ((hrel.path hp).placed hp)
  have hq : Move (.queue (.mtx m)) k₁ (k₁.setQueue (.mtx m) .zero) := .queue hn rfl
  exact hsch.ownedAt ((Move.setMtx _ m .zero).placed (hq.placed hp₁)) (.of_none hn)

omit [Port] in
theorem ownedAt_mtxLock (hp : Placed k) (ho : OwnedAt m k) {c : Option RetCode}
    (h : osMtxLock n m k = .ok (k', c)) : OwnedAt m k' := by
  obtain ⟨-, -, -, ⟨-, -, rfl⟩ | ⟨hw, -, rfl⟩ | ⟨o, k₁, -, -, -, -, hpath, hb⟩⟩ := hp.mtxLock h
  · intro t ht
    simp [osMtxSetOwner, Kernel.setMtx]
  · intro t ht
    simp [Kernel.setMtx, hw]
  · have hp₁ := hpath.placed hp
    exact hb.ownedAt hp₁.toStanding (by simp) (hpath.ownedAt hp (by rintro a ⟨u, rfl⟩; simp) ho)

omit [Port] in
theorem ownedAt_mtxUnlock (hp : Placed k) (h : osMtxUnlock m k = .ok k') : OwnedAt m k' := by
  obtain ⟨-, how, -, k₁, hk₁, hcase⟩ := hp.mtxUnlock h
  have hp₁ : Placed k₁ := hk₁ ▸ (Move.setMtx k m _).placed hp
  obtain ⟨-, rfl⟩ | ⟨-, k₂, hrel, ⟨hn, rfl⟩ | ⟨t, k₃, -, hw, hsch⟩⟩ := hcase
  · intro t ht
    simp [hk₁, Kernel.setMtx, how]
  · exact .of_none hn
  · have hp₂ := (Move.setOwner k₂ m t).placed ((hrel.path hp₁).placed hp₁)
    refine hsch.ownedAt (hw.placed hp₂) (hw.ownedAt hp₂.toStanding (by simp) ?_)
    intro u hu
    simp [osMtxSetOwner, Kernel.setMtx]

omit [Port] in
theorem does_owner {i : Action} (h : Does k i (.owner m)) :
    i = .call (.mtxCreate m) ∨ i = .call (.mtxDestroy m) ∨ i = .call (.mtxLock m) ∨
      i = .call (.mtxUnlock m) := by
  revert h
  cases i with
  | call c => cases c <;> simp +contextual [Does]
  | resume => simp [Does, Placed.JoinEnd]
  | isrEnter => simp [Does]
  | isrExit => simp [Does]

theorem ownedAt_exec {i : Action} (hp : Placed k) (ho : Owned k) (hs : Sane k i)
    (h : exec n i k = .ok (k', r)) (m : MtxId) : OwnedAt m k' := by
  have hm : OwnedAt m k := fun t ht => ho t m ht
  by_cases hi : i = .call (.mtxCreate m) ∨ i = .call (.mtxDestroy m) ∨ i = .call (.mtxLock m) ∨
      i = .call (.mtxUnlock m)
  · obtain rfl | rfl | rfl | rfl := hi
    · obtain ⟨h, -⟩ := quiet_ok h
      obtain ⟨-, h⟩ := Outcome.assert_ok h
      obtain ⟨-, h⟩ := Outcome.assert_ok h
      cases h
      exact .of_none hs.2
    · exact ownedAt_mtxDestroy hp hm (quiet_ok h).1
    · obtain ⟨c, h, -⟩ := coded_ok h
      exact ownedAt_mtxLock hp hm h
    · exact ownedAt_mtxUnlock hp (quiet_ok h).1
  · refine (exec_path hp ho hs h).ownedAt hp (fun a ha => ?_) hm
    rintro rfl
    exact hi (does_owner ha)

end Owners

section Bounds
variable {k k' : Kernel} {a : Kind} {D : Kind → Prop}

/-- Every queue that holds a task is set up, and so is the ready queue. -/
structure Kernel.Linked (k : Kernel) : Prop where
  ready : (k.queues .ready).linked = true
  queue : ∀ t Q, (k.tasks t).taskQueue = some Q → (k.queues Q).linked = true

omit [Port] in
theorem Move.linked (h : Move a k k') (hp : Standing k.tasks k.taskCurrent)
    (ha : a ≠ .queue .ready) (hl : k.Linked) : k'.Linked := by
  have hr : (k'.queues .ready).linked = true := by
    rw [h.linked_eq ha]
    exact hl.ready
  refine ⟨hr, fun t Q ht => ?_⟩
  by_cases hQ : Q = .ready
  · rwa [hQ]
  · obtain ⟨hq, -⟩ | ⟨-, rfl⟩ := ((h.task t).waiting_iff hp hQ).mp ht
    · by_cases he : a = .queue Q
      · subst he
        cases h with
        | queue hn h => exact absurd hq (hn t)
      · rw [h.linked_eq he]
        exact hl.queue t Q hq
    · rw [h.linked_eq (by simp)]
      cases h with
      | block hi hd hr hn hc hm hq h => exact hq

omit [Port] in
theorem Path.linked (h : Path D k k') (hp : Placed k) (hD : ¬ D (.queue .ready)) (hl : k.Linked) :
    k'.Linked := by
  refine (h.invariant (I := fun k => Placed k ∧ k.Linked) ?_ ⟨hp, hl⟩).2
  intro a k k' ha ⟨hp, hl⟩ hm
  refine ⟨hm.placed hp, hm.linked hp.toStanding ?_ hl⟩
  rintro rfl
  exact hD ha

omit [Port] in
/-- The ready queue is set up once and for all. -/
theorem not_does_queue_ready (i : Action) : ¬ Does k i (.queue .ready) := by
  cases i with
  | call c => cases c <;> simp [Does]
  | resume => simp [Does, Placed.JoinEnd]
  | isrEnter => simp [Does]
  | isrExit => simp [Does]

omit [Port] in
/-- Tasks become live one at a time. -/
theorem Path.finite_live (h : Path D k k') (hp : Placed k) (hl : {t | k.Live t}.Finite) :
    {t | k'.Live t}.Finite := by
  refine (h.invariant (I := fun k => Placed k ∧ {t | k.Live t}.Finite) ?_ ⟨hp, hl⟩).2
  intro a k k' ha ⟨hp, hl⟩ hm
  have hc : {t | a = .create t}.Subsingleton := by
    intro t ht u hu
    cases ht
    cases hu
    rfl
  refine ⟨hm.placed hp, (hl.union hc.finite).subset fun t ht => ?_⟩
  exact (((hm.task t).live_iff hp.toStanding).mp ht).imp_left And.left

omit [Port] in
theorem osTaskqueueEnqueue_total {Q : QueueId} (hl : (k.queues Q).linked = true) (t : TaskId) :
    ∃ k', osTaskqueueEnqueue Q t k = .ok k' := by
  rw [osTaskqueueEnqueue, if_pos hl]
  exact ⟨_, rfl⟩

omit [Port] in
/-- A task in front of a queue can be taken out of it. -/
theorem Filed.intdequeue_total (hf : Filed k) {Q : QueueId} {p : ℕ}
    (h : (k.queues Q).tasks.top = p + 1) : ∃ t k', osTaskqueueIntdequeue Q p k = .ok (t, k') ∧
      ∀ Q', (k'.queues Q').linked = (k.queues Q').linked := by
  cases hb : (k.queues Q).tasks.bucket p with
  | nil => exact absurd hb ((hf Q).bucket_ne_nil h)
  | cons t l =>
    refine ⟨t, _, by simp only [osTaskqueueIntdequeue, hb]; rfl, fun Q' => ?_⟩
    by_cases hQ : Q' = Q
    · subst hQ
      simp [Kernel.setQueue]
    · simp [Kernel.setQueue, hQ]

omit [Port] in
theorem Placed.schedule_total (hp : Placed k) (hl : k.Linked) (p : ℕ) (c : Ctx) :
    ∃ k', osSchedule p c k = .ok k' := by
  unfold osSchedule
  split
  · obtain ⟨x, hx, hlink⟩ : ∃ x, osTaskqueueDequeuePrio .ready (k.current.prioCurrent + p) k =
        .ok x ∧ (x.2.queues .ready).linked = true := by
      unfold osTaskqueueDequeuePrio
      cases ht : (k.queues .ready).tasks.top with
      | zero => exact ⟨_, rfl, hl.ready⟩
      | succ q =>
        simp only
        split
        · exact ⟨_, rfl, hl.ready⟩
        · obtain ⟨t, k₁, hd, hk₁⟩ := hp.filed.intdequeue_total ht
          exact ⟨(some t, k₁), by rw [hd]; rfl, (hk₁ _).trans hl.ready⟩
    obtain ⟨_ | t, k₁⟩ := x
    · exact ⟨k₁, by rw [hx]; rfl⟩
    · obtain ⟨k₂, hk₂⟩ := osTaskqueueEnqueue_total (k := k₁.setTask k₁.taskCurrent
        { k₁.tasks k₁.taskCurrent with state := .ready }) hlink k₁.taskCurrent
      have hk₂ : osTaskMakeready k₁.taskCurrent k₁ = .ok k₂ := hk₂
      by_cases hi : k₂.isrNesting = 0
      · exact ⟨archContextSwitch t c k₂, by simp [hx, hk₂, hi]⟩
      · exact ⟨{ k₂ with taskCurrent := t }.running, by simp [hx, hk₂, hi]⟩
  · exact ⟨k, rfl⟩

end Bounds

/-- The invariant of the whole kernel. -/
structure Sound (k : Kernel) : Prop where
  placed : Placed k
  owned : Owned k
  linked : k.Linked
  finite : {t | k.Live t}.Finite

section Runs
variable {k k' : Kernel} {P : Kernel → Action × Option Ret → Prop}

omit [Port] in
theorem sound_init : Sound (osInit coldKernel) := by
  have hidle : ∀ t, t ≠ taskIdle → ((osInit coldKernel).tasks t) =
      { osTaskInit 0 with state := .none } := by
    intro t ht
    simp [osInit, coldKernel, Kernel.setTask, Kernel.setQueue, ht]
  have h₀ : (osInit coldKernel).tasks taskIdle = { osTaskInit 0 with state := .running } := by
    simp [osInit, Kernel.setTask]
  have hq : ∀ t, ((osInit coldKernel).tasks t).taskQueue = none := by
    intro t
    by_cases ht : t = taskIdle
    · rw [ht, h₀]; rfl
    · rw [hidle t ht]; rfl
  refine ⟨⟨⟨hq _, by rw [show (osInit coldKernel).taskCurrent = taskIdle from rfl, h₀]; rfl,
    fun t hl ht => ?_, fun t ht => absurd (hq t) ht, fun t ht => by simp [hq] at ht,
    fun t Q ht => by simp [hq] at ht, fun t ht => ?_, by rw [h₀]; simp [TaskState.live],
    fun t s hs => ?_⟩, fun Q => ?_⟩, fun t m ht => by simp [hq] at ht,
    ⟨rfl, fun t Q ht => by simp [hq] at ht⟩, ?_⟩
  · rw [hidle t ht] at hl
    simp [TaskState.live] at hl
  · by_cases hti : t = taskIdle
    · rw [hti, h₀] at ht
      cases ht
    · rw [hidle t hti] at ht
      cases ht
  · by_cases hti : t = taskIdle
    · rw [hti, h₀] at hs
      cases hs
    · rw [hidle t hti] at hs
      cases hs
  · have he : ((osInit coldKernel).queues Q).tasks = .empty := by
      by_cases hQ : Q = .ready
      · simp [osInit, Kernel.setTask, Kernel.setQueue, hQ, osTaskqueueInit]
      · simp [osInit, Kernel.setTask, Kernel.setQueue, hQ, coldKernel, TaskQueue.zero]
    rw [he]
    exact Files.empty fun t => by simp [Kernel.key, hq t]
  · refine (Set.finite_singleton taskIdle).subset fun t ht => ?_
    by_contra hti
    rw [Set.mem_ofPred_eq, Kernel.Live, hidle t hti] at ht
    cases ht

theorem Sound.exec (hs : Sound k) {i : Action} {n : ℕ} {r : Option Ret} (hsane : Sane k i)
    (h : exec n i k = .ok (k', r)) : Sound k' := by
  have hpath := exec_path hs.placed hs.owned hsane h
  exact ⟨hpath.placed hs.placed, fun t m => ownedAt_exec hs.placed hs.owned hsane h m t,
    hpath.linked hs.placed (not_does_queue_ready i) hs.linked,
    hpath.finite_live hs.placed hs.finite⟩

/-- Every run that keeps to `Sane` stays sound, whatever else it keeps to. -/
theorem sound_of_reachable (hP : ∀ k i, P k i → Sane k i.1)
    (h : (kernelSystem.restrict P).Reachable k) : Sound k := by
  refine h.invariant ?_ ?_
  · rintro k rfl
    exact sound_init
  · rintro k ⟨i, r⟩ k' hs ⟨hi, -, hst⟩
    obtain ⟨n, hn⟩ := hst.exists_eq
    exact hs.exec (hP k _ hi) hn

end Runs

end RadOs
