import RadOs.Kernel.Boost
import RadOs.Kernel.Grants
import RadOs.Kernel.Lockless
import RadOs.Kernel.Ranking
import RadOs.Lib.Inheritance

/-! # Priority inheritance is exact

A lock gives its priority to the whole chain of owners, an unlock computes the
priority of its caller anew from the first tasks of the queues of its other
mutexes, and a mutex that is handed over needs nothing of this. That this is
enough rests on the chains being without cycles, on tasks that own a mutex
sleeping nowhere else, and on no ready owner being more urgent than the running
task.
-/

namespace RadOs
open Bucketed Runs Budget Chains Relation Inheritance

def Kernel.base (k : Kernel) (t : TaskId) : ℕ := (k.tasks t).prioBase

def Kernel.Exact (k : Kernel) : Prop := Inheritance.Exact k.WaitsFor k.base k.prio

/-- The owner of the mutex that a task waits for. -/
def Kernel.blocker (k : Kernel) (t : TaskId) : Option TaskId :=
  match (k.tasks t).taskQueue with
  | some (.mtx m) => (k.mtxs m).owner
  | _ => none

theorem Kernel.waitsFor_iff {k : Kernel} {t o : TaskId} :
    k.WaitsFor t o ↔ k.blocker t = some o := by
  simp only [Kernel.WaitsFor, Kernel.blocker]
  cases (k.tasks t).taskQueue with
  | none => simp
  | some Q => cases Q <;> simp

/-! ## The new priority of a task that releases a mutex -/

section Reset
variable {k k' : Kernel} {Q : QueueId} {m : MtxId}

theorem Filed.peek (h : Filed k) {x : Option TaskId} (hk : osTaskqueuePeek Q k = .ok x) :
    (x = none ∧ ∀ t, (k.tasks t).taskQueue ≠ some Q) ∨ ∃ t, x = some t ∧ k.IsFirst Q t := by
  unfold osTaskqueuePeek at hk
  split at hk
  · rename_i htop
    cases hk
    exact Or.inl ⟨rfl, h.none_of_top htop⟩
  · rename_i p hp
    split at hk
    · cases hk
    · rename_i t l hb
      cases hk
      have hpt := (h.mem.mp (show t ∈ (k.queues Q).tasks.bucket p by simp [hb])).2
      refine Or.inr ⟨t, rfl, ?_, ?_⟩
      · rw [hp, hpt]
      · rw [hpt, hb]
        rfl

/-- The loop over the mutexes of a task finds the greatest priority of those that wait for one. -/
theorem Filed.reset (h : Filed k) {l : List MtxId} {p p' : ℕ}
    (hk : l.foldlM (prioResetStep k) p = .ok p') :
    IsGreatest (insert p
      {q | ∃ t, ∃ m ∈ l, (k.tasks t).taskQueue = some (.mtx m) ∧ k.prio t = q}) p' := by
  induction l generalizing p with
  | nil =>
    cases hk
    simp
  | cons m l ih =>
    rw [List.foldlM_cons] at hk
    obtain ⟨p₁, hstep, hk⟩ := Outcome.bind_ok hk
    obtain ⟨hm, hu⟩ := ih hk
    obtain ⟨x, hx, hstep⟩ := Outcome.bind_ok hstep
    have hp₁ : p ≤ p₁ ∧ (∀ t, (k.tasks t).taskQueue = some (.mtx m) → k.prio t ≤ p₁) ∧
        (p₁ = p ∨ ∃ t, (k.tasks t).taskQueue = some (.mtx m) ∧ k.prio t = p₁) := by
      obtain ⟨rfl, hn⟩ | ⟨t, rfl, hf⟩ := h.peek hx
      · cases hstep
        exact ⟨le_rfl, fun t ht => absurd ht (hn t), Or.inl rfl⟩
      · cases hstep
        obtain ⟨hQ, hle⟩ := h.first hf
        refine ⟨le_max_left _ _, fun u hu => (hle u hu).trans (le_max_right _ _), ?_⟩
        obtain hle | hle := le_total (k.tasks t).prioCurrent p
        · exact Or.inl (max_eq_left hle)
        · exact Or.inr ⟨t, hQ, (max_eq_right hle).symm⟩
    obtain ⟨hle, hwait, hmem⟩ := hp₁
    have hge : p₁ ≤ p' := hu (Or.inl rfl)
    refine ⟨?_, ?_⟩
    · obtain rfl | ⟨t, m', hm', ht⟩ := hm
      · refine hmem.imp_right ?_
        rintro ⟨t, ht⟩
        exact ⟨t, m, by simp, ht⟩
      · exact Or.inr ⟨t, m', by simp [hm'], ht⟩
    · rintro q (rfl | ⟨t, m', hm', hq, rfl⟩)
      · exact hle.trans hge
      · obtain rfl | hm' := List.mem_cons.mp hm'
        · exact (hwait t hq).trans hge
        · exact hu (Or.inr ⟨t, m', hm', hq, rfl⟩)

/-- The priority that `os_mtx_unlock_prio_reset` sets, if the base priority is in force where it is
the current one. -/
theorem Filed.prioReset (h : Filed k) (hk : osMtxUnlockPrioReset k = .ok k')
    (hb : k.current.prioCurrent = k.current.prioBase →
      ∀ t, ∀ m ∈ k.current.mtxList, (k.tasks t).taskQueue = some (.mtx m) →
        k.prio t ≤ k.current.prioBase) :
    ∃ p, k' = k.setTask k.taskCurrent { k.current with prioCurrent := p } ∧
      IsGreatest (insert k.current.prioBase
        {q | ∃ t, ∃ m ∈ k.current.mtxList, (k.tasks t).taskQueue = some (.mtx m) ∧
          k.prio t = q}) p := by
  unfold osMtxUnlockPrioReset at hk
  split at hk
  · obtain ⟨p, hp, hk⟩ := Outcome.bind_ok hk
    cases hk
    exact ⟨p, rfl, h.reset hp⟩
  · rename_i he
    cases hk
    have he : k.current.prioCurrent = k.current.prioBase := by simpa using he
    refine ⟨k.current.prioCurrent, by simp [Kernel.setTask, Kernel.current], Or.inl he, ?_⟩
    rintro q (rfl | ⟨t, m, hm, hq, rfl⟩)
    · exact he.ge
    · exact (hb he t m hm hq).trans he.ge

end Reset

/-! ## Steps that have to do with mutexes -/

section Mutexes
variable {k k' k₁ : Kernel} {m : MtxId} {t : TaskId} {n : ℕ}

theorem Kernel.exact_congr (hw : k'.WaitsFor = k.WaitsFor) (hb : k'.base = k.base)
    (hp : k'.prio = k.prio) : k'.Exact ↔ k.Exact := by
  rw [Kernel.Exact, Kernel.Exact, hw, hb, hp]

/-- A switch changes nothing here. -/
theorem Scheduled.exact_iff {p : ℕ} (h : Scheduled p k k') (hp : Placed k) :
    k'.Exact ↔ k.Exact := by
  have hpath := h.path (D := fun a => a = .switch) rfl
  refine Kernel.exact_congr ?_ (funext fun t => ?_) (funext fun t => ?_)
  · funext t o
    have hm : ∀ m, (k'.mtxs m).owner = (k.mtxs m).owner :=
      fun m => congrFun (congrArg Deeds.owner h.deeds_eq) m
    simp [Kernel.WaitsFor, h.waiting_iff hp, hm]
  · exact hpath.invariant (I := fun k' => k'.base t = k.base t)
      (fun a k₁ k₂ ha hk hm => ((hm.task t).prioBase_eq (by simp [ha])).trans hk) rfl
  · exact hpath.invariant (I := fun k' => k'.prio t = k.prio t)
      (fun a k₁ k₂ ha hk hm =>
        ((hm.task t).prioCurrent_eq (by simp [ha]) (by simp [ha])).trans hk) rfl

theorem Placed.waitsFor_current (hp : Placed k) (o : TaskId) : ¬ k.WaitsFor k.taskCurrent o := by
  rintro ⟨m, hm, -⟩
  rw [hp.current] at hm
  cases hm

/-- The task that releases a mutex falls to what its other mutexes justify. -/
theorem Placed.MtxReleased.exact (h : Placed.MtxReleased m k k') (hp : Placed k) (hx : k.Exact)
    (ha : k.deeds.Agree) (ho : (k.mtxs m).owner = some k.taskCurrent) :
    k'.Exact ∧ ((∀ u, (k.tasks u).taskQueue ≠ some (.mtx m)) → k'.prio = k.prio) := by
  obtain ⟨hd, hc, -, hoth, -⟩ := h.frame
  have hq := h.queue_eq
  have ha' : k'.deeds.Agree := hd ▸ ha.release ho
  have howner : ∀ m', (k'.mtxs m').owner = if m' = m then none else (k.mtxs m').owner := by
    intro m'
    change k'.deeds.owner m' = _
    rw [hd]
    by_cases hm : m' = m <;> simp [Deeds.release, hm]
  have hp' := (h.path hp).placed hp
  obtain ⟨K, -, hK, hr⟩ := h
  have hfK : Filed K := by
    subst hK
    exact (show Filed (k.setMtx m _) from hp.filed).setTask rfl fun _ => rfl
  have hcK : K.current = { k.current with mtxList := k.current.mtxList.erase m } := by
    subst hK
    simp [Kernel.current, Kernel.setMtx]
  have hqK : ∀ u, (K.tasks u).taskQueue = (k.tasks u).taskQueue ∧ K.prio u = k.prio u := by
    intro u
    subst hK
    by_cases hu : u = k.taskCurrent <;>
      simp [Kernel.prio, Kernel.setMtx, Kernel.current, hu]
  have hcur : K.taskCurrent = k.taskCurrent := by rw [hK]; rfl
  -- the mutexes that the task still owns were its own before
  have hstill : ∀ m', m' ∈ k.current.mtxList.erase m →
      (k.mtxs m').owner = some k.taskCurrent := fun m' hm' =>
    (ha.owner_iff m' k.taskCurrent).mpr (List.mem_of_mem_erase hm')
  obtain ⟨p, hk', hg⟩ := hfK.prioReset hr (by
    rw [hcK]
    intro he u m' hm' hw
    rw [(hqK u).1] at hw
    rw [(hqK u).2, ← show k.current.prioCurrent = k.current.prioBase from he]
    exact hx.le ⟨m', hw, hstill m' hm'⟩)
  rw [hcK] at hg hk'
  have hpcur : k'.prio k.taskCurrent = p := by
    rw [hk', hcur]
    simp [Kernel.prio]
  have hbase : k'.base = k.base := by
    funext u
    by_cases hu : u = k.taskCurrent
    · rw [hk', hcur, hu]
      simp [Kernel.base, Kernel.current]
    · rw [Kernel.base, hoth u hu, Kernel.base]
  have hmemb : ∀ w, k'.WaitsFor w k.taskCurrent ↔
      ∃ m' ∈ k.current.mtxList.erase m, (K.tasks w).taskQueue = some (.mtx m') := by
    intro w
    have hlist : (k'.tasks k.taskCurrent).mtxList = k.current.mtxList.erase m := by
      rw [hk', hcur]
      simp
    constructor
    · rintro ⟨m', hw, hm'⟩
      rw [hq w] at hw
      exact ⟨m', hlist ▸ (ha'.owner_iff m' k.taskCurrent).mp hm', (hqK w).1.trans hw⟩
    · rintro ⟨m', hm', hw⟩
      rw [(hqK w).1, ← hq w] at hw
      refine ⟨m', hw, (ha'.owner_iff m' k.taskCurrent).mpr ?_⟩
      rwa [Kernel.deeds_held, hlist]
  have hclaims : IsGreatest (claims k'.WaitsFor k.base k.prio k.taskCurrent) p := by
    convert hg using 1
    refine congrArg (insert _) (Set.ext fun q => ?_)
    simp only [hmemb, Set.mem_ofPred_eq, (hqK _).2]
    constructor
    · rintro ⟨w, ⟨m', hm', hw⟩, he⟩
      exact ⟨w, m', hm', hw, he⟩
    · rintro ⟨w, m', hm', hw, he⟩
      exact ⟨w, ⟨m', hm', hw⟩, he⟩
  constructor
  · rw [Kernel.Exact, hbase]
    refine hx.change (c := k.taskCurrent) (fun w u hu => ?_) (hc ▸ hp'.waitsFor_current)
      (fun u hu => ?_) (hpcur ▸ hclaims)
    · simp only [Kernel.WaitsFor, hq, howner]
      refine exists_congr fun m' => and_congr_right fun _ => ?_
      by_cases hm : m' = m
      · simp [hm, ho, Ne.symm hu]
      · simp [hm]
    · rw [Kernel.prio, hoth u hu, Kernel.prio]
  · intro hn
    have hwf : k'.WaitsFor = k.WaitsFor := by
      funext w u
      simp only [Kernel.WaitsFor, hq, howner]
      refine propext (exists_congr fun m' => and_congr_right fun hw => ?_)
      have hm : m' ≠ m := by
        rintro rfl
        exact hn w hw
      simp [hm]
    rw [hwf] at hclaims
    funext u
    by_cases hu : u = k.taskCurrent
    · rw [hu, hpcur]
      exact hclaims.unique (hx k.taskCurrent)
    · rw [Kernel.prio, hoth u hu, Kernel.prio]

/-- A mutex that is handed over brings its waiting tasks with it, the first of which has got it. -/
theorem exact_handed (hp : Placed k) (hx : k.Exact) (hn : (k.mtxs m).owner = none)
    (hf : k.IsFirst (.mtx m) t) (hw : Move (.wake t (.mtx m) .ok) (osMtxSetOwner m t k) k') :
    k'.Exact := by
  obtain ⟨hQ, hle⟩ := hp.filed.first hf
  have hps := (Move.setOwner k m t).placed hp
  have hfr := hw.wakeFrame
  have hset : ∀ u, ((osMtxSetOwner m t k).tasks u).taskQueue = (k.tasks u).taskQueue ∧
      ((osMtxSetOwner m t k).tasks u).prioCurrent = k.prio u ∧
      ((osMtxSetOwner m t k).tasks u).prioBase = k.base u := by
    intro u
    by_cases hu : u = t <;> simp [osMtxSetOwner, Kernel.setMtx, Kernel.prio, Kernel.base, hu]
  have hq : ∀ u m', (k'.tasks u).taskQueue = some (.mtx m') ↔
      (k.tasks u).taskQueue = some (.mtx m') ∧ (m' = m → u ≠ t) := by
    intro u m'
    have hne : (∀ c, Kind.wake t (.mtx m) .ok ≠ .wake u (.mtx m') c) ↔ (m' = m → u ≠ t) := by
      constructor
      · rintro h rfl rfl
        exact h _ rfl
      · rintro h c ⟨⟩
        exact h rfl rfl
    rw [(hw.task u).waiting_iff hps.toStanding (by simp), (hset u).1, hne]
    simp
  have ho : ∀ m', (k'.mtxs m').owner = if m' = m then some t else (k.mtxs m').owner := by
    intro m'
    rw [hfr.mtxs]
    by_cases hm : m' = m <;> simp [osMtxSetOwner, Kernel.setMtx, hm]
  have hb : k'.base = k.base := funext fun u => (hfr.prioBase u).trans (hset u).2.2
  have hpr : k'.prio = k.prio := funext fun u => (hfr.prioCurrent u).trans (hset u).2.1
  rw [Kernel.Exact, hb, hpr]
  refine hx.grow (fun w u hwu => ?_) (fun w u hwu => ?_)
  · obtain ⟨m', hm', hu⟩ := hwu
    have hne : m' ≠ m := by
      rintro rfl
      rw [hn] at hu
      cases hu
    exact ⟨m', (hq w m').mpr ⟨hm', fun he => absurd he hne⟩, by rw [ho, if_neg hne, hu]⟩
  · obtain ⟨m', hm', hu⟩ := hwu
    obtain ⟨hwm, -⟩ := (hq w m').mp hm'
    rw [ho] at hu
    split at hu
    · rename_i he
      cases hu
      rw [he] at hwm
      exact hle w hwm
    · exact hx.le ⟨m', hwm, hu⟩

/-- Nothing is inherited through a mutex that nobody waits for. -/
theorem exact_setMtx {y : Mtx} (hn : ∀ u, (k.tasks u).taskQueue ≠ some (.mtx m)) :
    (k.setMtx m y).Exact ↔ k.Exact := by
  refine Kernel.exact_congr ?_ rfl rfl
  funext w u
  refine propext (exists_congr fun m' => and_congr_right fun hw => ?_)
  have hm : m' ≠ m := by
    rintro rfl
    exact hn w hw
  simp [Kernel.setMtx, hm]

theorem exact_setRecur {y : Mtx} (hy : y.owner = (k.mtxs m).owner) :
    (k.setMtx m y).Exact ↔ k.Exact := by
  refine Kernel.exact_congr ?_ rfl rfl
  have hm : ∀ m', ((k.setMtx m y).mtxs m').owner = (k.mtxs m').owner :=
    fun m' => congrFun (congrArg Deeds.owner (deeds_setMtx hy)) m'
  funext w u
  simp only [Kernel.WaitsFor, hm]
  rfl

/-- The tasks that sleep elsewhere than on a mutex own none. -/
def Unladen (k : Kernel) : Prop :=
  ∀ t Q, (k.tasks t).taskQueue = some Q → Q ≠ .ready → (∀ m, Q ≠ .mtx m) → (k.tasks t).mtxList = []

/-- The last task of a chain of owners can run. -/
theorem Titled.end_runs (h : Titled k) (hl : Unladen k) (hp : Placed k) (hown : Owned k)
    (ho : (k.mtxs m).owner = some t) (hend : ∀ c, ¬ k.WaitsFor t c) :
    t = k.taskCurrent ∨ (k.tasks t).taskQueue = some .ready := by
  have hlist : (k.tasks t).mtxList ≠ [] := List.ne_nil_of_mem ((h.agree.owner_iff m t).mp ho)
  have hlive : k.Live t := by
    by_contra hn
    exact hlist (h.dead t hn)
  refine or_iff_not_imp_left.mpr fun hne => ?_
  obtain ⟨Q, hQ⟩ := Option.ne_none_iff_exists'.mp (hp.elsewhere t hlive hne)
  by_cases hr : Q = .ready
  · exact hr ▸ hQ
  · by_cases hmx : ∃ m, Q = .mtx m
    · obtain ⟨m', rfl⟩ := hmx
      obtain ⟨o, ho⟩ := Option.ne_none_iff_exists'.mp (hown t m' hQ)
      exact absurd ⟨m', hQ, ho⟩ (hend o)
    · exact absurd (hl t Q hQ hr fun m hm => hmx ⟨m, hm⟩) hlist

/-- What the running task may rely on in a call of a function of mutexes. -/
structure Contract (k : Kernel) : Prop extends Titled k where
  exact : k.Exact
  sleepers : ∀ t Q, (k.tasks t).taskQueue = some Q → Q ≠ .ready → (∀ m, Q ≠ .mtx m) →
    (k.tasks t).mtxList = []
  urgent : ∀ t, (k.tasks t).taskQueue = some .ready → (k.tasks t).mtxList ≠ [] →
    k.prio t ≤ k.prio k.taskCurrent
  idle : (k.tasks taskIdle).mtxList = []

/-- The order of the ready tasks is the one from before. -/
structure Calm (k k' : Kernel) : Prop where
  prio : k'.prio = k.prio
  queue : ∀ t, (k'.tasks t).taskQueue = (k.tasks t).taskQueue
  taskCurrent : k'.taskCurrent = k.taskCurrent

theorem Calm.ranked (h : Calm k k') (hr : Ranked k) : Ranked k' := by
  intro t ht
  have hle := hr t (h.queue t ▸ ht)
  change k'.prio t ≤ k'.prio k'.taskCurrent
  rw [h.prio, h.taskCurrent]
  exact hle

theorem Calm.scheduled {p : ℕ} (h : Calm k k₁) (hs : Scheduled p k₁ k') :
    Calm k k' ∨ Ranked k' := by
  obtain ⟨rfl, -⟩ | hm := hs
  · exact Or.inl h
  · exact Or.inr (hm.ranked rfl)

def Kernel.Acyclic (k : Kernel) : Prop := ∀ t, ¬ TransGen k.WaitsFor t t

/-- Whoever stands between a mutex and its release is no more urgent than the running task, if
something at the end of the chain has to run first. -/
theorem Contract.chain_le (h : Contract k) (hp : Placed k) (hown : Owned k) {o : TaskId}
    (ho : (k.mtxs m).owner = some o) (hcur : ¬ k.Chain o k.taskCurrent)
    (he : Chains.Ends k.WaitsFor o) {u : TaskId} (hu : k.Chain o u) :
    k.prio u ≤ k.prio k.taskCurrent := by
  obtain ⟨e, hue, hend⟩ :=
    ends_of_reflTransGen (r := k.WaitsFor) (fun _ _ _ => Kernel.waitsFor_unique) hu he
  refine (h.exact.le_of_chain hue).trans ?_
  have hoe : k.Chain o e := ReflTransGen.trans hu hue
  -- the last task of the chain owns a mutex
  obtain ⟨m', hm'⟩ : ∃ m', (k.mtxs m').owner = some e := by
    obtain rfl | ⟨w, -, m', -, hm'⟩ := hoe.cases_tail
    · exact ⟨m, ho⟩
    · exact ⟨m', hm'⟩
  obtain rfl | hr := h.end_runs h.sleepers hp hown hm' hend
  · exact absurd hoe hcur
  · exact h.urgent e hr (List.ne_nil_of_mem ((h.agree.owner_iff m' e).mp hm'))

/-- The task that blocks on a mutex waits for its owner from then on. -/
theorem waitsFor_blocked {k₁ : Kernel} {o : TaskId} (hp : Placed k₁)
    (hb : Move (.block (.mtx m)) k₁ k') (ho : (k₁.mtxs m).owner = some o) (w u : TaskId) :
    k'.WaitsFor w u ↔ k₁.WaitsFor w u ∨ (w = k₁.taskCurrent ∧ u = o) := by
  have hm : ∀ m', k'.mtxs m' = k₁.mtxs m' := fun m' => hb.mtxs_eq (by simp)
  have hq : ∀ m', (k'.tasks w).taskQueue = some (.mtx m') ↔
      (k₁.tasks w).taskQueue = some (.mtx m') ∨ (w = k₁.taskCurrent ∧ m' = m) := by
    intro m'
    rw [(hb.task w).waiting_iff hp.toStanding (by simp)]
    simp [eq_comm]
  simp only [Kernel.WaitsFor, hq, hm]
  constructor
  · rintro ⟨m', hw | ⟨hw, rfl⟩, hu⟩
    · exact Or.inl ⟨m', hw, hu⟩
    · rw [ho] at hu
      exact Or.inr ⟨hw, (Option.some.inj hu).symm⟩
  · rintro (⟨m', hw, hu⟩ | ⟨hw, rfl⟩)
    · exact ⟨m', Or.inl hw, hu⟩
    · exact ⟨m, Or.inr ⟨hw, rfl⟩, ho⟩

theorem calm_setOwner (k : Kernel) (m : MtxId) (t : TaskId) : Calm k (osMtxSetOwner m t k) := by
  refine ⟨funext fun u => ?_, fun u => ?_, rfl⟩
  · by_cases hu : u = t <;> simp [osMtxSetOwner, Kernel.setMtx, Kernel.prio, hu]
  · by_cases hu : u = t <;> simp [osMtxSetOwner, Kernel.setMtx, hu]

theorem Contract.exact_mtxLock (h : Contract k) (hp : Placed k) (hown : Owned k)
    {r : Option RetCode} (hk : osMtxLock n m k = .ok (k', r)) (hac : k'.Acyclic) :
    k'.Exact ∧ (Calm k k' ∨ Ranked k') := by
  obtain ⟨-, -, -, ⟨ho, -, rfl⟩ | ⟨ho, -, rfl⟩ | ⟨o, k₁, ho, hne, -, hb, hpath, hblk⟩⟩ :=
    hp.mtxLock hk
  · have hn : ∀ u, (k.tasks u).taskQueue ≠ some (.mtx m) := fun u hu => hown u m hu ho
    have hcalm := calm_setOwner k m k.taskCurrent
    have hbase : (osMtxSetOwner m k.taskCurrent k).base = k.base := by
      funext u
      by_cases hu : u = k.taskCurrent <;> simp [osMtxSetOwner, Kernel.setMtx, Kernel.base, hu]
    refine ⟨(Kernel.exact_congr (k := k.setMtx m ⟨some k.taskCurrent, 1⟩) ?_ hbase
      hcalm.prio).mpr ((exact_setMtx hn).mpr h.exact), Or.inl hcalm⟩
    funext w u
    simp only [Kernel.WaitsFor, hcalm.queue]
    rfl
  · exact ⟨(exact_setRecur (by simp [ho])).mpr h.exact, Or.inl ⟨rfl, fun _ => rfl, rfl⟩⟩
  · obtain ⟨hcur, -, hmx, p, q, hk₁⟩ := hpath.reprio_frame
    have hp₁ := hpath.placed hp
    have hw₁ : k₁.WaitsFor = k.WaitsFor :=
      Kernel.waitsFor_congr (fun u => by rw [hk₁]) hmx
    have hw := waitsFor_blocked hp₁ hblk (hmx ▸ ho)
    rw [hw₁, hcur] at hw
    have hprio : ∀ u, k'.prio u = k₁.prio u :=
      fun u => (hblk.task u).prioCurrent_eq (by simp) (by simp)
    have hbase : k'.base = k.base := by
      funext u
      have hu : k'.base u = k₁.base u := (hblk.task u).prioBase_eq (by simp)
      rw [hu, hk₁]
      rfl
    -- the caller is not on the chain, since the chains have no cycles afterwards either
    have hchain : ¬ k.Chain o k.taskCurrent := by
      intro hc
      refine hac k.taskCurrent (TransGen.head' ((hw _ _).mpr (Or.inr ⟨rfl, rfl⟩)) ?_)
      exact ReflTransGen.mono (fun a b hab => (hw a b).mpr (Or.inl hab)) _ _ hc
    refine ⟨?_, Or.inr (hblk.ranked rfl)⟩
    rw [Kernel.Exact, hbase]
    by_cases hlt : (k.tasks o).prioCurrent < k.current.prioCurrent
    · simp only [osMtxLockPrioBoost, ho, if_pos hlt] at hb
      obtain ⟨hend, hin, hout⟩ := prioBoostLoop_spec hp rfl hb
      refine h.exact.wait hchain hw (fun u hu => ?_) fun u hu => (hprio u).trans (hout u hu)
      have hle := h.chain_le hp hown ho hchain hend hu
      exact (hprio u).trans ((hin u hu).trans (max_eq_right hle).symm)
    · simp only [osMtxLockPrioBoost, ho, if_neg hlt] at hb
      cases hb
      refine h.exact.wait hchain hw (fun u hu => ?_) fun u _ => hprio u
      have hle : k.prio k.taskCurrent ≤ k.prio u :=
        (not_lt.mp hlt).trans (h.exact.le_of_chain hu)
      rw [hprio, max_eq_left hle]

/-- The task that unlocks keeps its priority if nobody waits for the mutex. -/
theorem Contract.exact_mtxUnlock (h : Contract k) (hp : Placed k) (hl : k.schedLock = 0)
    (hk : osMtxUnlock m k = .ok k') : k'.Exact ∧ (Calm k k' ∨ Ranked k') := by
  obtain ⟨hi, ho, -, k₁, hk₁, hcase⟩ := hp.mtxUnlock hk
  have hp₁ : Placed k₁ := hk₁ ▸ (Move.setMtx k m _).placed hp
  have hd₁ : k₁.deeds = k.deeds := by
    rw [hk₁]
    exact deeds_setMtx rfl
  have hx₁ : k₁.Exact := by
    rw [hk₁]
    refine (exact_setRecur ?_).mpr h.exact
    rfl
  have ho₁ : (k₁.mtxs m).owner = some k₁.taskCurrent := by
    rw [hk₁]
    simpa [Kernel.setMtx] using ho
  have hc₁ : Calm k k₁ := by
    rw [hk₁]
    exact ⟨rfl, fun _ => rfl, rfl⟩
  obtain ⟨-, rfl⟩ | ⟨-, k₂, hrel, hcase⟩ := hcase
  · exact ⟨hx₁, Or.inl hc₁⟩
  · have hp₂ := (hrel.path hp₁).placed hp₁
    obtain ⟨hx₂, hsame⟩ := hrel.exact hp₁ hx₁ (hd₁.symm ▸ h.agree) ho₁
    obtain ⟨hn, rfl⟩ | ⟨t, k₃, hf, hw, hsch⟩ := hcase
    · refine ⟨hx₂, Or.inl ⟨(hsame fun u => ?_).trans hc₁.prio,
        fun u => (hrel.queue_eq u).trans (hc₁.queue u), hrel.frame.2.1.trans hc₁.taskCurrent⟩⟩
      rw [← hrel.queue_eq u]
      exact hn u
    · have hno : (k₂.mtxs m).owner = none := by
        change k₂.deeds.owner m = none
        rw [hrel.frame.1]
        simp [Deeds.release]
      have hp₃ := hw.placed ((Move.setOwner k₂ m t).placed hp₂)
      obtain ⟨hi₂, hl₂, -⟩ := (hrel.path hp₁).scalars_eq (by simp)
      have hfr := hw.wakeFrame
      have hi₃ : k₃.isrNesting = 0 := hfr.isrNesting.trans (hi₂.trans (by rw [hk₁]; exact hi))
      have hl₃ : k₃.schedLock = 0 := hfr.schedLock.trans (hl₂.trans (by rw [hk₁]; exact hl))
      exact ⟨(hsch.exact_iff hp₃).mpr (exact_handed hp₂ hx₂ hno hf hw),
        Or.inr (hsch.ranked le_rfl (by omega) hl₃)⟩

/-- The tasks that wait for a mutex without owner inherit nothing to anybody. -/
theorem exact_woken {c : RetCode} (hx : k.Exact) (hn : (k.mtxs m).owner = none)
    (h : Path (fun a => ∃ t, a = .wake t (.mtx m) c) k k') : k'.Exact := by
  have hfr := h.wakeFrame (by rintro a ⟨u, hu⟩; exact ⟨u, _, _, hu⟩)
  refine (Kernel.exact_congr ?_ (funext hfr.prioBase) (funext hfr.prioCurrent)).mpr hx
  funext w u
  simp only [Kernel.WaitsFor, hfr.mtxs]
  refine propext (exists_congr fun m' => and_congr_left fun hu => ?_)
  obtain he | ⟨h₁, h₂⟩ := h.woken_queue w
  · rw [he]
  · have hm : m' ≠ m := by
      rintro rfl
      rw [hn] at hu
      cases hu
    simp [h₁, h₂, Ne.symm hm]

theorem Contract.exact_mtxDestroy (h : Contract k) (hp : Placed k) (hown : Owned k)
    (hl : (k.mtxs m).owner = some k.taskCurrent → k.schedLock = 0)
    (hk : osMtxDestroy n m k = .ok k') : k'.Exact ∧ (Calm k k' ∨ Ranked k') := by
  obtain ⟨hi, -, k₁, hcase, hn, hcall⟩ := hp.mtxDestroy_calls hk fun h t ht => hown t m ht h
  have hsch := hcall.scheduled (Or.inl rfl)
  have hend : k₁.Exact → k'.Exact := fun hx₁ =>
    (hsch.exact_iff hcall.1).mpr ((exact_setMtx (k := k₁.setQueue (.mtx m) .zero) hn).mpr hx₁)
  obtain ⟨-, rfl⟩ | ⟨ho, k₂, hrel, hpath⟩ := hcase
  · have hc : Calm k₁ ((k₁.setQueue (.mtx m) .zero).setMtx m .zero) := ⟨rfl, fun _ => rfl, rfl⟩
    exact ⟨hend h.exact, hc.scheduled hsch⟩
  · have hno : (k₂.mtxs m).owner = none := by
      change k₂.deeds.owner m = none
      rw [hrel.frame.1]
      simp [Deeds.release]
    obtain ⟨hx₂, -⟩ := hrel.exact hp h.exact h.agree ho
    obtain ⟨hi₂, hl₂, -⟩ := (hrel.path hp).scalars_eq (by simp)
    have hfr := hpath.wakeFrame (by rintro a ⟨u, hu⟩; exact ⟨u, _, _, hu⟩)
    refine ⟨hend (exact_woken hx₂ hno hpath), Or.inr (hsch.ranked le_rfl ?_ ?_)⟩
    · exact (hfr.isrNesting.trans (hi₂.trans hi)).le.trans zero_le_one
    · exact hfr.schedLock.trans (hl₂.trans (hl ho))

end Mutexes

/-! ## All other steps -/

def Action.contends : Action → Bool
  | .call (.mtxLock _) | .call (.mtxUnlock _) | .call (.mtxDestroy _) => true
  | _ => false

section Steps
variable [Port] {k k' : Kernel} {i : Action} {n : ℕ} {r : Option Ret} {t : TaskId}

theorem Titled.deeds_eq (h : Titled k) (hs : Sound k) (hsane : Sane k i)
    (hi : i.contends = false) (hx : exec n i k = .ok (k', r)) : k'.deeds = k.deeds := by
  cases h.deeds_step hs hsane hx with
  | same h => exact h
  | taken hi' => rw [hi'] at hi; cases hi
  | released hi' => obtain rfl | rfl := hi' <;> cases hi
  | handed hi' => rw [hi'] at hi; cases hi

/-- Tasks begin and end their waits for mutexes in no other step. -/
theorem mtx_waiting_iff (ht : Timely k) (hst : timedSystem.step k (i, r) k')
    (hi : i.contends = false) (m : MtxId) :
    (k'.tasks t).taskQueue = some (.mtx m) ↔ (k.tasks t).taskQueue = some (.mtx m) := by
  obtain ⟨n, hn⟩ := hst.2.2.exists_eq
  constructor
  · intro hq
    obtain hq | ⟨-, hb⟩ := waiting_of_step ht.sound hst.1.1 hn (Q := .mtx m) (by simp) hq
    · exact hq
    · have hb : i = .call (.mtxLock m) := does_block_mtx hb
      subst hb
      cases hi
  · intro hq
    have hlive := ht.sound.placed.live t (by simp [hq])
    have ha : ¬ ActsIn t k := fun ha => ht.sound.placed.not_current (by simp [hq]) ha.2
    obtain hu | ⟨Q, c, hw⟩ := (beside ht.sound ht.awake hst.2.1 hst.1.1 hn hlive ha).woken
    · exact (hu.queue _ (by simp)).mpr hq
    · obtain rfl : Q = .mtx m := Option.some.inj (hw.waited.symm.trans hq)
      obtain ⟨rfl, -⟩ | ⟨rfl, -⟩ | ⟨rfl, -⟩ := does_wake_mtx hw.does
      · cases hi
      · cases hi
      · exact tick_keeps_mtx ht hst hq

theorem prio_step (hs : Sound k) (hsane : Sane k i) (hi : i.contends = false)
    (hx : exec n i k = .ok (k', r)) (t : TaskId) :
    (k'.prio t = k.prio t ∧ k'.base t = k.base t) ∨ (k'.prio t = k'.base t ∧ ¬ k.Live t) := by
  refine (exec_path hs.placed hs.owned hsane hx).invariant
    (I := fun k' => (k'.prio t = k.prio t ∧ k'.base t = k.base t) ∨
      (k'.prio t = k'.base t ∧ ¬ k.Live t)) ?_ (Or.inl ⟨rfl, rfl⟩)
  intro a k₁ k₂ ha hk hm
  by_cases hc : a = .create t
  · subst hc
    obtain ⟨p, rfl⟩ := does_create ha
    cases hm with
    | create hp hl hr =>
      obtain ⟨q, rfl, -, -⟩ := hr
      exact Or.inr ⟨by simp [Kernel.prio, Kernel.base, osTaskInit], hsane⟩
  · have hre : a ≠ .reprio t := by
      rintro rfl
      cases i with
      | call c => cases c <;> simp_all [Does, Action.contends]
      | resume => simp [Does, Placed.JoinEnd] at ha
      | isrEnter => simp [Does] at ha
      | isrExit => simp [Does] at ha
    have hp : k₂.prio t = k₁.prio t := (hm.task t).prioCurrent_eq hre hc
    have hb : k₂.base t = k₁.base t := (hm.task t).prioBase_eq hc
    rw [hp, hb]
    exact hk

theorem exact_step_other (ht : Timely k) (htl : Titled k) (hst : timedSystem.step k (i, r) k')
    (hi : i.contends = false) (hx : k.Exact) : k'.Exact := by
  obtain ⟨n, hn⟩ := hst.2.2.exists_eq
  have hd := htl.deeds_eq ht.sound hst.1.1 hi hn
  have hw : k'.WaitsFor = k.WaitsFor := by
    have ho : ∀ m, (k'.mtxs m).owner = (k.mtxs m).owner :=
      fun m => congrFun (congrArg Deeds.owner hd) m
    funext w u
    simp only [Kernel.WaitsFor, mtx_waiting_iff ht hst hi, ho]
  rw [Kernel.Exact, hw]
  refine hx.renew fun t => (prio_step ht.sound hst.1.1 hi hn t).imp_right ?_
  rintro ⟨hp, hl⟩
  refine ⟨hp, fun u => ⟨?_, ?_⟩⟩
  · rintro ⟨m, -, ho⟩
    have := (htl.agree.owner_iff m t).mp ho
    rw [Kernel.deeds_held, htl.dead t hl] at this
    cases this
  · rintro ⟨m, hq, -⟩
    exact hl (ht.sound.placed.live t (by simp [hq]))

omit [Port] in
/-- Where a task has come from that is ready. -/
theorem Path.ready_cases {D : Kind → Prop} (h : Path (fun a => D a ∧ a.still = true) k k')
    (hp : Placed k) (ht : (k'.tasks t).taskQueue = some .ready) :
    (k.tasks t).taskQueue = some .ready ∨
      (∃ Q c, Q ≠ .ready ∧ (k.tasks t).taskQueue = some Q ∧ D (.wake t Q c)) ∨ D (.create t) := by
  refine (h.invariant (I := fun k' => Placed k' ∧
    (∀ Q, Q ≠ .ready → (k'.tasks t).taskQueue = some Q → (k.tasks t).taskQueue = some Q) ∧
    ((k'.tasks t).taskQueue = some .ready → (k.tasks t).taskQueue = some .ready ∨
      (∃ Q c, Q ≠ .ready ∧ (k.tasks t).taskQueue = some Q ∧ D (.wake t Q c)) ∨ D (.create t)))
    ?_ ⟨hp, fun _ _ h => h, Or.inl⟩).2.2 ht
  rintro a k₁ k₂ ⟨ha, hst⟩ ⟨hp, hw, hr⟩ hm
  refine ⟨hm.placed hp, fun Q hQ hq => ?_, fun hq => ?_⟩
  · obtain ⟨hq, -⟩ | ⟨-, rfl⟩ := ((hm.task t).waiting_iff hp.toStanding hQ).mp hq
    · exact hw Q hQ hq
    · cases hst
  · have hx := hm.task t
    generalize k₂.tasks t = x at hx hq
    cases hx with
    | wake hQ hQr => exact Or.inr (Or.inl ⟨_, _, hQr, hw _ hQr hQ, ha⟩)
    | create => exact Or.inr (Or.inr ha)
    | leave => cases hst
    | run => cases hq
    | block => cases hst
    | exit => cases hst
    | _ => exact hr hq

/-- A task that goes to sleep elsewhere than on a mutex owns none. -/
theorem mtxList_of_block (hp : Placed k) (hx : exec n i k = .ok (k', r)) {Q : QueueId}
    (hb : Does k i (.block Q)) (hm : ∀ m, Q ≠ .mtx m)
    (hq : (k'.tasks k.taskCurrent).taskQueue = some Q) : k.current.mtxList = [] := by
  cases i with
  | call c =>
    cases c with
    | taskJoin t =>
      obtain hmv | ⟨-, h, -⟩ := hp.taskJoin hx
      · rw [((hmv.task k.taskCurrent).waiting_iff hp.toStanding (by rintro rfl; simp [Does] at hb)),
          hp.current] at hq
        simp at hq
      · exact h
    | semDown s T =>
      obtain ⟨c, hx, -⟩ := coded_ok hx
      exact (hp.semDown hx ⟨rfl, by simp⟩).1
    | mtxLock m => simp [Does, hm] at hb
    | waitqueueWait T =>
      obtain ⟨c, hx, -⟩ := coded_ok hx
      exact (hp.waitqueueWait hx).2.2.1
    | _ => simp [Does] at hb
  | resume => simp [Does, Placed.JoinEnd] at hb
  | isrEnter => simp [Does] at hb
  | isrExit => simp [Does] at hb

omit [Port] in
/-- A task in the ready queue, or asleep elsewhere, gets no mutex. -/
theorem DeedStep.mtxList_of_queue (hd : DeedStep k i k') (hp : Placed k) {Q : QueueId}
    (hq : (k.tasks t).taskQueue = some Q) (hm : ∀ m, Q ≠ .mtx m) :
    (k'.tasks t).mtxList = (k.tasks t).mtxList := by
  apply hd.mtxList_eq (hp.not_current (by simp [hq]))
  intro m hf
  have := (hp.filed.first hf).1
  rw [hq] at this
  exact hm m (Option.some.inj this)

theorem Unladen.step (h : Unladen k) (hs : Sound k) (hsane : Sane k i)
    (hx : exec n i k = .ok (k', r)) (hd : DeedStep k i k') : Unladen k' := by
  intro t Q hq hr hm
  obtain hq₀ | ⟨rfl, hb⟩ := waiting_of_step hs hsane hx hr hq
  · exact (hd.mtxList_of_queue hs.placed hq₀ hm).trans (h t Q hq₀ hr hm)
  · have hl := mtxList_of_block hs.placed hx hb hm hq
    cases hd with
    | same hd => exact (congrArg (fun d => Deeds.held d k.taskCurrent) hd).trans hl
    | taken hi => rw [hi] at hb; simp [Does, hm] at hb
    | released hi => obtain rfl | rfl := hi <;> simp [Does] at hb
    | handed hi => rw [hi] at hb; simp [Does] at hb

theorem Contract.idle_step (h : Contract k) (hp : Placed k) (hx : exec n i k = .ok (k', r))
    (hd : DeedStep k i k') : (k'.tasks taskIdle).mtxList = [] := by
  have hnone : ∀ m, (k.mtxs m).owner ≠ some taskIdle := by
    intro m ho
    have := (h.agree.owner_iff m taskIdle).mp ho
    rw [Kernel.deeds_held, h.idle] at this
    cases this
  by_cases hc : taskIdle = k.taskCurrent
  · cases hd with
    | same hd => exact (congrArg (fun d => Deeds.held d taskIdle) hd).trans h.idle
    | taken hi =>
      subst hi
      obtain ⟨c, hx, -⟩ := coded_ok hx
      exact absurd hc.symm (hp.mtxLock hx).2.1
    | released hi hn ho => exact absurd (hc ▸ ho) (hnone _)
    | handed hi hn ho => exact absurd (hc ▸ ho) (hnone _)
  · rw [hd.mtxList_eq hc, h.idle]
    intro m hf
    exact hp.idle.2 (hp.wait _ _ (hp.filed.first hf).1 (by simp)).1

/-- No owner of a mutex has become more urgent than the running task. -/
theorem Contract.urgent_step (h : Contract k) (ht : Timely k)
    (hst : timedSystem.step k (i, r) k') (hi : i.contends = false)
    (hq : (k'.tasks t).taskQueue = some .ready) (hl : (k'.tasks t).mtxList ≠ []) :
    k'.prio t ≤ k'.prio k'.taskCurrent := by
  obtain ⟨n, hn⟩ := hst.2.2.exists_eq
  have hs := ht.sound
  have hlist : (k'.tasks t).mtxList = (k.tasks t).mtxList :=
    congrArg (fun d => Deeds.held d t) (h.toTitled.deeds_eq hs hst.1.1 hi hn)
  rw [hlist] at hl
  have hprio : ∀ u, k.Live u → k'.prio u = k.prio u := fun u hu =>
    ((prio_step hs hst.1.1 hi hn u).resolve_right fun hd => hd.2 hu).1
  obtain ⟨k₁, hpath, hlast⟩ := exec_parts hs.placed hs.owned hst.1.1 hn
  obtain rfl | ⟨a, -, hsw, hm⟩ := hlast
  · obtain hq₀ | ⟨Q, c, hQ, hq₀, hw⟩ | hc := hpath.ready_cases hs.placed hq
    · rw [hprio t (hs.placed.live t (by simp [hq₀])), hpath.ctx_cases.1,
        hprio _ hs.placed.currentLive]
      exact h.urgent t hq₀ hl
    · by_cases hmx : ∃ m, Q = .mtx m
      · obtain ⟨m, rfl⟩ := hmx
        rw [(mtx_waiting_iff ht hst hi m).mpr hq₀] at hq
        cases hq
      · exact absurd (h.sleepers t Q hq₀ hQ fun m hm => hmx ⟨m, hm⟩) hl
    · obtain ⟨p, hc⟩ := does_create hc
      have hc : i = .call (.taskCreate t p) := hc
      subst hc
      exact absurd (h.dead t hst.1.1) hl
  · exact hm.ranked hsw t hq

end Steps

/-! ## Whole runs -/

section General
variable [Port]

section Runs
variable {k k' : Kernel} {i : Action} {r : Option Ret} {tr : List KernelStep}

/-- The rules for programs that lock the scheduler only by waiting in wait queues, and in which no
task exits while it owns a mutex. -/
def Inheriting (k : Kernel) (i : Action) : Prop :=
  Orderly k i ∧ Unburdened k i ∧ i.locks = false

instance (k : Kernel) (i : Action) : Decidable (Inheriting k i) :=
  inferInstanceAs (Decidable (_ ∧ _ ∧ _))

def inheritanceSystem : System Kernel (Action × Option Ret) :=
  kernelSystem.restrict fun k i => (Sane k i.1 ∧ Typed i.1) ∧ Inheriting k i.1

theorem inheritanceSystem_orderly {i : Action × Option Ret} (h : inheritanceSystem.step k i k') :
    orderlySystem.step k i k' := ⟨⟨h.1.1, h.1.2.1⟩, h.2⟩

/-- A step that has to do with owners keeps the priorities exact, and either leaves the ready tasks
alone or ends with the most urgent one running. -/
theorem Contract.contended (h : Contract k) (hlk : Lockless k) (ht : Timely k)
    (hst : inheritanceSystem.step k (i, r) k') (hi : i.contends = true) (hac : k'.Acyclic) :
    k'.Exact ∧ (Calm k k' ∨ Ranked k') := by
  obtain ⟨⟨-, hord, -, -⟩, -, hset⟩ := hst
  obtain ⟨n, hn⟩ := hset.exists_eq
  have hp := ht.sound.placed
  have howner : ∀ m, (k.mtxs m).owner = some k.taskCurrent → k.taskCurrent ≠ taskIdle := by
    intro m ho he
    have := (h.agree.owner_iff m _).mp ho
    rw [Kernel.deeds_held, he, h.idle] at this
    cases this
  have hlock : ∀ c m, i = .call c → c.decides = false → k.isrNesting = 0 →
      (k.mtxs m).owner = some k.taskCurrent → k.schedLock = 0 := by
    rintro c m rfl hc h0 ho
    refine hlk.lock_zero ?_ (howner m ho)
    by_contra hpr
    rw [((hord h0).1).mpr (by simpa using hpr)] at hc
    cases hc
  cases i with
  | call c =>
    cases c with
    | mtxLock m =>
      obtain ⟨c, hx, -⟩ := coded_ok hn
      exact h.exact_mtxLock hp ht.sound.owned hx hac
    | mtxUnlock m =>
      obtain ⟨hx, -⟩ := quiet_ok hn
      obtain ⟨h0, ho, -⟩ := hp.mtxUnlock hx
      exact h.exact_mtxUnlock hp (hlock _ m rfl rfl h0 ho) hx
    | mtxDestroy m =>
      obtain ⟨hx, -⟩ := quiet_ok hn
      have h0 := (hp.mtxDestroy hx fun h t ht' => ht.sound.owned t m ht' h).1
      exact h.exact_mtxDestroy hp ht.sound.owned (hlock _ m rfl rfl h0) hx
    | _ => cases hi
  | _ => cases hi

theorem Contract.step (h : Contract k) (hlk : Lockless k) (ht : Timely k)
    (hst : inheritanceSystem.step k (i, r) k') (hac : k'.Acyclic) : Contract k' := by
  have hstt := orderlySystem_timed (inheritanceSystem_orderly hst)
  have hst' := hst
  obtain ⟨⟨⟨hsane, -⟩, -, hunb, -⟩, -, hset⟩ := hst'
  obtain ⟨n, hn⟩ := hset.exists_eq
  have hs := ht.sound
  have hd := h.toTitled.deeds_step hs hsane hn
  refine ⟨h.toTitled.step hs hsane hunb hn, ?_, fun t Q hq hr hm => ?_, fun t hq hl => ?_, ?_⟩
  · cases hi : i.contends with
    | true => exact (h.contended hlk ht hst hi hac).1
    | false => exact exact_step_other ht h.toTitled hstt hi h.exact
  · exact Unladen.step h.sleepers hs hsane hn hd t Q hq hr hm
  · cases hi : i.contends with
    | false => exact h.urgent_step ht hstt hi hq hl
    | true =>
      obtain hc | hr := (h.contended hlk ht hst hi hac).2
      · have hq₀ : (k.tasks t).taskQueue = some .ready := hc.queue t ▸ hq
        rw [hd.mtxList_of_queue hs.placed hq₀ (by simp)] at hl
        rw [hc.prio, hc.taskCurrent]
        exact h.urgent t hq₀ hl
      · exact hr t hq
  · exact h.idle_step hs.placed hn hd

omit [Port] in
theorem contract_init : Contract (osInit coldKernel) := by
  have ht : ∀ t, ((osInit coldKernel).tasks t).taskQueue = none ∧
      ((osInit coldKernel).tasks t).mtxList = [] ∧
      (osInit coldKernel).prio t = (osInit coldKernel).base t := by
    intro t
    by_cases ht : t = taskIdle <;>
      simp [osInit, coldKernel, Kernel.setTask, Kernel.setQueue, osTaskInit, Kernel.prio,
        Kernel.base, ht]
  refine ⟨titled_init, fun t => isGreatest_claims_iff.mpr ?_, fun t Q hQ => ?_, fun t hQ => ?_,
    (ht _).2.1⟩
  · refine ⟨(ht t).2.2.ge, ?_, Or.inl (ht t).2.2⟩
    rintro w ⟨m, hm, -⟩
    rw [(ht w).1] at hm
    cases hm
  · rw [(ht t).1] at hQ
    cases hQ
  · rw [(ht t).1] at hQ
    cases hQ

theorem inheritanceSystem_run (h : inheritanceSystem.Run tr k) : orderlySystem.Run tr k :=
  h.mono (fun _ h => h) fun _ _ _ => inheritanceSystem_orderly

theorem inheritanceSystem_timed (h : inheritanceSystem.Run tr k) : timedSystem.Run tr k :=
  (inheritanceSystem_run h).mono (fun _ h => h) fun _ _ _ => orderlySystem_timed

theorem lockless_of_run (h : inheritanceSystem.Run tr k) : Lockless k := by
  refine h.invariant (I := fun _ k => Lockless k) ?_ ?_
  · rintro k rfl
    exact lockless_init
  · rintro tr k ⟨i, r⟩ k' hrun hl hst
    obtain ⟨hr, htd⟩ := tidy_of_reachable ⟨tr, inheritanceSystem_run hrun⟩
    obtain ⟨n, hn⟩ := hst.2.2.exists_eq
    exact hl.step htd (timely_of_reachable hr) hst.1.2.1 hst.2.1 hst.1.1.1 hst.1.2.2.2 hn

theorem contract_of_run (h : inheritanceSystem.Run tr k) (hac : ∀ x ∈ tr, x.post.Acyclic) :
    Contract k := by
  refine h.invariant (I := fun tr k => (∀ x ∈ tr, x.post.Acyclic) → Contract k) ?_ ?_ hac
  · rintro k rfl -
    exact contract_init
  · rintro tr k ⟨i, r⟩ k' hrun ih hst hac
    have ht := timely_of_reachable (tidy_of_reachable ⟨tr, inheritanceSystem_run hrun⟩).1
    exact (ih fun x hx => hac x (List.mem_cons_of_mem _ hx)).step (lockless_of_run hrun) ht hst
      (hac _ List.mem_cons_self)

/-- The current priority of a task is the greatest among its base priority and the current
priorities of the tasks that wait for a mutex it owns. -/
theorem priority_inheritance_exact (h : inheritanceSystem.Run tr k)
    (hac : ∀ x ∈ tr, x.post.Acyclic) : ∀ t, k.Live t →
    IsGreatest (insert (k.tasks t).prioBase {p | ∃ w m, (k.mtxs m).owner = some t ∧
      (k.tasks w).taskQueue = some (.mtx m) ∧ (k.tasks w).prioCurrent = p})
      (k.tasks t).prioCurrent := by
  intro t _
  obtain ⟨hb, hw, he⟩ := isGreatest_claims_iff.mp ((contract_of_run h hac).exact t)
  refine ⟨he.imp_right ?_, ?_⟩
  · rintro ⟨w, ⟨m, hq, ho⟩, hp⟩
    exact ⟨w, m, ho, hq, hp⟩
  · rintro p (rfl | ⟨w, m, ho, hq, rfl⟩)
    · exact hb
    · exact hw w ⟨m, hq, ho⟩

def inheritingCheck (k : Kernel) (i : Action) : Bool := timedCheck k i && decide (Inheriting k i)

omit [Port] in
theorem inheriting_of_check (hs : Sound k) {i : Action} (h : inheritingCheck k i = true) :
    (Sane k i ∧ Typed i) ∧ Inheriting k i := by
  rw [inheritingCheck, Bool.and_eq_true, decide_eq_true_eq] at h
  exact ⟨timed_of_check hs h.1, h.2⟩

/-- The tasks `L` wait for owners with smaller numbers only. -/
def Kernel.Downward (L : List TaskId) (k : Kernel) : Prop :=
  ∀ w ∈ L, ∀ o ∈ k.blocker w, o < w

instance (L : List TaskId) (k : Kernel) : Decidable (k.Downward L) :=
  inferInstanceAs (Decidable (∀ w ∈ L, ∀ o ∈ k.blocker w, o < w))

omit [Port] in
theorem acyclic_of_downward {L : List TaskId} (h : k.Downward L)
    (hL : ∀ t m, (k.tasks t).taskQueue = some (.mtx m) → t ∈ L) : k.Acyclic := by
  have hlt : ∀ t u, TransGen k.WaitsFor t u → u < t := by
    intro t u hu
    have hone : ∀ w o, k.WaitsFor w o → o < w := by
      intro w o hw
      obtain ⟨m, hm, -⟩ := id hw
      exact h w (hL w m hm) o (Kernel.waitsFor_iff.mp hw)
    induction hu with
    | single hw => exact hone _ _ hw
    | tail _ hw ih => exact (hone _ _ hw).trans ih
  exact fun t ht => (hlt t t ht).false

/-- Tasks that are not created do not live. -/
theorem live_of_run {L : List TaskId} (h : timedSystem.Run tr k)
    (hL : ∀ x ∈ tr, ∀ t p, x.label.1 = .call (.taskCreate t p) → t ∈ L) :
    ∀ t, k.Live t → t = taskIdle ∨ t ∈ L := by
  refine h.invariant (I := fun tr k =>
    (∀ x ∈ tr, ∀ t p, x.label.1 = .call (.taskCreate t p) → t ∈ L) →
      ∀ t, k.Live t → t = taskIdle ∨ t ∈ L) ?_ ?_ hL
  · rintro k rfl - t ht
    by_contra hne
    simp only [not_or] at hne
    simp [Kernel.Live, osInit, coldKernel, Kernel.setTask, Kernel.setQueue, hne.1, osTaskInit,
      TaskState.live] at ht
  · rintro tr k ⟨i, r⟩ k' hrun ih hst hL t ht
    obtain ⟨n, hn⟩ := hst.2.2.exists_eq
    have hs := (timely_of_reachable ⟨tr, hrun⟩).sound
    by_cases hl : k.Live t
    · exact ih (fun x hx => hL x (List.mem_cons_of_mem _ hx)) t hl
    · obtain ⟨p, hp⟩ := created_of_live hs hst.1.1 hn hl ht
      exact Or.inr (hL _ List.mem_cons_self t p hp)

omit [Port] in
theorem acyclic_of_live {L : List TaskId} (hs : Sound k) (h : k.Downward L)
    (hL : ∀ t, k.Live t → t = taskIdle ∨ t ∈ L) : k.Acyclic := by
  refine acyclic_of_downward h fun t m hq => ?_
  obtain rfl | ht := hL t (hs.placed.live t (by simp [hq]))
  · exact absurd (hs.placed.wait _ _ hq (by simp)).1 hs.placed.idle.2
  · exact ht

/-- A test for runs. -/
theorem acyclic_of_run {L : List TaskId} (h : timedSystem.Run tr k)
    (hL : ∀ x ∈ tr, (∀ t p, x.label.1 = .call (.taskCreate t p) → t ∈ L) ∧ x.post.Downward L) :
    ∀ x ∈ tr, x.post.Acyclic := by
  induction h with
  | start h => simp
  | @step tr k k' i hrun hst ih =>
    intro x hx
    obtain rfl | hx := List.mem_cons.mp hx
    · have hr := hrun.step hst
      have hs := (timely_of_reachable ⟨_, hr⟩).sound
      exact acyclic_of_live hs (hL _ List.mem_cons_self).2
        (live_of_run hr fun x hx => (hL x hx).1)
    · exact ih (fun x hx => hL x (List.mem_cons_of_mem _ hx)) x hx

end Runs

end General

/-- The tasks that an action creates. -/
def Action.created : Action → List TaskId
  | .call (.taskCreate t _) => [t]
  | _ => []

/-- The task 3 waits for the task 2, which waits for the task 1. -/
def chainedRun : List Action :=
  preemptedRun ++ [.call (.mtxLock 1)]

theorem priority_inheritance_exact_chained : ∃ tr k, inheritanceSystem.Run tr k ∧
    (∀ x ∈ tr, x.post.Acyclic) ∧ k.Live 1 ∧ (k.tasks 1).prioBase = 1 ∧
    IsGreatest (insert 1 {p | ∃ w m, (k.mtxs m).owner = some 1 ∧
      (k.tasks w).taskQueue = some (.mtx m) ∧ (k.tasks w).prioCurrent = p}) 3 := by
  obtain ⟨⟨tr, k⟩, hk, hx⟩ := Outcome.exists_of_holds
    (x := playRun inheritingCheck 10 chainedRun [] (osInit coldKernel))
    (p := fun (tr, k) => decide (k.Live 1 ∧ (k.tasks 1).prioBase = 1 ∧
      (k.tasks 1).prioCurrent = 3 ∧
      ∀ x ∈ tr, x.label.1.created ⊆ [1, 2, 3] ∧ x.post.Downward [1, 2, 3])) (by decide +kernel)
  obtain ⟨hl, hb, hp, hx⟩ := of_decide_eq_true hx
  have hr : inheritanceSystem.Run tr k := run_of_playRun
    (P := fun k i => (Sane k i.1 ∧ Typed i.1) ∧ Inheriting k i.1) (fun _ _ h => h.1.1)
    (fun _ _ _ hs h => inheriting_of_check hs h) (.start rfl) hk
  have hac : ∀ x ∈ tr, x.post.Acyclic := by
    refine acyclic_of_run (inheritanceSystem_timed hr) fun x hxt =>
      ⟨fun t p hi => (hx x hxt).1 ?_, (hx x hxt).2⟩
    rw [hi]
    simp [Action.created]
  have hg := priority_inheritance_exact hr hac 1 hl
  rw [hb, hp] at hg
  exact ⟨tr, k, hr, hac, hl, hb, hg⟩

end RadOs
