import Mathlib.Data.Set.Card
import RadOs.Kernel.TimedWaits
import RadOs.Kernel.Waits

/-! # The account of a semaphore

A signal is either counted in the value of the semaphore or handed to the first
task that waits for it, which has it from then on, though it will return from
`os_sem_down` only when it runs again.
-/

namespace RadOs
open Bucketed Runs Budget

def Action.ups (s : ℕ) : Action → Bool
  | .call (.semUp n _) => n = s
  | _ => false

def Action.downs (s : ℕ) : Action → Bool
  | .call (.semDown n _) => n = s
  | _ => false

/-- The task `t` has called `os_sem_down` for `s` in one of the steps. -/
def Entered (s : ℕ) (tr : List KernelStep) (t : TaskId) : Prop :=
  ∃ x ∈ tr, x.label.1.downs s = true ∧ x.pre.taskCurrent = t

instance (s : ℕ) (tr : List KernelStep) (t : TaskId) : Decidable (Entered s tr t) :=
  inferInstanceAs (Decidable (∃ x ∈ tr, _ ∧ _))

/-- The step returns `OS_OK` from `os_sem_down` for `s`, called then or in one of the steps `tr`. -/
def Obtains (s : ℕ) (tr : List KernelStep) (x : KernelStep) : Prop :=
  x.label.2 = some (.code .ok) ∧ (x.label.1.downs s = true ∨ (x.label.1 = .resume ∧
    x.pre.current.ctx = .semDown (.obj s) ∧ Entered s tr x.pre.taskCurrent))

instance (s : ℕ) (tr : List KernelStep) (x : KernelStep) : Decidable (Obtains s tr x) :=
  inferInstanceAs (Decidable (_ ∧ (_ ∨ (_ ∧ _ ∧ _))))

/-- The signals given. -/
def ups (s : ℕ) (tr : List KernelStep) : ℕ := tr.countP fun x => x.label.1.ups s

/-- The signals taken. -/
def obtained (s : ℕ) : List KernelStep → ℕ
  | [] => 0
  | x :: tr => obtained s tr + if Obtains s tr x then 1 else 0

/-- The tasks that have got a signal and have not run since. -/
def granted (s : ℕ) (tr : List KernelStep) (k : Kernel) : Set TaskId :=
  {t | Entered s tr t ∧ Roused t (.semDown (.obj s)) .ok k}

/-- The account of the semaphore `s`, created with the value `v` before the steps `tr`. -/
structure Balance [Port] (s v : ℕ) (tr : List KernelStep) (k : Kernel) : Prop where
  sum : v + ups s tr = k.sems (.obj s) + (obtained s tr + (granted s tr k).ncard)
  lt : k.sems (.obj s) < Port.atomicMax
  idle : 0 < k.sems (.obj s) → ∀ t, (k.tasks t).taskQueue ≠ some (.sem (.obj s))
  entered : ∀ t, (k.tasks t).taskQueue = some (.sem (.obj s)) → Entered s tr t

section Steps
variable [Port] {k k' : Kernel} {i : Action} {n : ℕ} {r : Option Ret} {t : TaskId} {s v : ℕ}
  {tr : List KernelStep}

omit [Port] in
theorem Action.ups_iff : i.ups s = true ↔ ∃ sync, i = .call (.semUp s sync) := by
  cases i with
  | call c => cases c <;> simp [Action.ups]
  | _ => simp [Action.ups]

omit [Port] in
theorem Action.downs_iff : i.downs s = true ↔ ∃ T, i = .call (.semDown s T) := by
  cases i with
  | call c => cases c <;> simp [Action.downs]
  | _ => simp [Action.downs]

omit [Port] in
theorem granted_finite (hs : Sound k) : (granted s tr k).Finite :=
  hs.finite.subset fun _ h => h.2.live

omit [Port] in
theorem Placed.ctx_of_sem (hp : Placed k) (hq : (k.tasks t).taskQueue = some (.sem (.obj s))) :
    (k.tasks t).ctx = .semDown (.obj s) := by
  have := (hp.wait t _ hq (by simp)).2.1
  generalize (k.tasks t).ctx = c at this
  cases c <;> simp_all [Awaits]

/-- The value of a semaphore changes in its own functions only. -/
theorem sems_step (hs : Sound k) (hsane : Sane k i) (h : exec n i k = .ok (k', r))
    (hd : ∀ T, i ≠ .call (.semDown s T)) (hu : ∀ sync, i ≠ .call (.semUp s sync))
    (hc : ∀ w, i ≠ .call (.semCreate s w)) (hx : i ≠ .call (.semDestroy s)) :
    k'.sems (.obj s) = k.sems (.obj s) := by
  refine (exec_path hs.placed hs.owned hsane h).invariant
    (I := fun k' => k'.sems (.obj s) = k.sems (.obj s)) ?_ rfl
  intro a k₁ k₂ ha hk hm
  refine (hm.sems_eq ?_).trans hk
  rintro rfl
  cases i with
  | call c =>
    cases c with
    | taskExit v =>
      simp only [Does, reduceCtorEq, Kind.sem.injEq, exists_false, or_false, false_or] at ha
      obtain ⟨s', hs', rfl⟩ := ha
      obtain ⟨u, hu⟩ := hs.placed.joins _ _ hs'
      cases hu
    | _ => simp_all [Does]
  | resume => simp [Does, Placed.JoinEnd] at ha
  | isrEnter => simp [Does] at ha
  | isrExit => simp [Does] at ha

omit [Port] in
theorem does_block_sem (h : Does k i (.block (.sem (.obj s)))) : i.downs s = true := by
  revert h
  cases i with
  | call c => cases c <;> simp +contextual [Does, Action.downs]
  | resume => simp [Does, Placed.JoinEnd]
  | isrEnter => simp [Does]
  | isrExit => simp [Does]

omit [Port] in
theorem entered_cons {x : KernelStep} : Entered s (x :: tr) t ↔
    (x.label.1.downs s = true ∧ x.pre.taskCurrent = t) ∨ Entered s tr t := by
  simp [Entered]

theorem downs_acts (hst : timedSystem.step k (i, r) k') (hd : i.downs s = true) :
    k.isrNesting = 0 := by
  obtain ⟨T, rfl⟩ := Action.downs_iff.mp hd
  obtain ⟨-, -, hset⟩ := hst
  obtain ⟨n, hn⟩ := hset.exists_eq
  obtain ⟨c, hx, -⟩ := coded_ok hn
  exact (Outcome.assert_ok hx).1

/-- The running task keeps no signal that it has got while it did not run. -/
theorem not_granted_of_acts (ht : Timely k) (hst : timedSystem.step k (i, r) k')
    (ha : ActsIn t k) : t ∉ granted s tr k' := fun h => Roused.not_acts rfl ht hst ha h.2

theorem granted_step (ht : Timely k) (hb : Balance s v tr k) (hst : timedSystem.step k (i, r) k')
    (ha : ¬ ActsIn t k) : t ∈ granted s (⟨k, (i, r), k'⟩ :: tr) k' ↔
      t ∈ granted s tr k ∨ (i.ups s = true ∧ k.IsFirst (.sem (.obj s)) t) := by
  have hp := ht.sound.placed
  have hent : Entered s (⟨k, (i, r), k'⟩ :: tr) t ↔ Entered s tr t := by
    rw [entered_cons, or_iff_right]
    rintro ⟨hd, hc⟩
    exact ha ⟨downs_acts hst hd, hc.symm⟩
  simp only [granted, Set.mem_ofPred_eq, hent, roused_iff (d := .semDown (.obj s)) rfl ht hst ha,
    and_or_left]
  refine or_congr_right ⟨?_, ?_⟩
  · rintro ⟨-, hctx, Q, hw⟩
    have hwait := (hp.wait t Q hw.waited hw.ne_ready).2.1
    rw [hctx] at hwait
    obtain rfl : Q = .sem (.obj s) := hwait.1
    obtain ⟨⟨sync, rfl⟩, -⟩ | ⟨-, hc⟩ | ⟨-, hc⟩ := does_wake_sem hp hw.does
    · refine ⟨by simp [Action.ups], by_contra fun hf => ?_⟩
      obtain ⟨-, -, hset⟩ := hst
      obtain ⟨n, hn⟩ := hset.exists_eq
      exact hw.gone _ (by simp)
        ((hp.semUp_waiting (quiet_ok hn).1 (Or.inr rfl) hw.waited).mpr hf)
    · cases hc
    · cases hc
  · rintro ⟨hu, hf⟩
    obtain ⟨sync, rfl⟩ := Action.ups_iff.mp hu
    have hq := (hp.filed.first hf).1
    refine ⟨hb.entered t hq, hp.ctx_of_sem hq, ?_⟩
    obtain ⟨⟨hsane, -⟩, he, hset⟩ := hst
    obtain ⟨n, hn⟩ := hset.exists_eq
    have hq' := mt (hp.semUp_waiting (quiet_ok hn).1 (Or.inr rfl) hq).mp (not_not.mpr hf)
    obtain hu | ⟨Q, c, hw⟩ :=
      (beside ht.sound ht.awake he hsane hn (hp.live t (by simp [hq])) ha).woken
    · exact absurd ((hu.queue _ (by simp)).mpr hq) hq'
    · obtain rfl : Q = .sem (.obj s) := Option.some.inj (hw.waited.symm.trans hq)
      obtain ⟨-, rfl⟩ | ⟨h, -⟩ | ⟨h, -⟩ := does_wake_sem hp hw.does
      · exact ⟨_, hw⟩
      · cases h
      · cases h

/-- The running task returns with the signal it has got while it did not run. -/
theorem obtains_iff (ht : Timely k) (hst : timedSystem.step k (i, r) k')
    (hd : i.downs s = false) : Obtains s tr ⟨k, (i, r), k'⟩ ↔
      ∃ t, ActsIn t k ∧ t ∈ granted s tr k := by
  have hp := ht.sound.placed
  constructor
  · rintro ⟨hr, h | ⟨hi, hc, hent⟩⟩
    · rw [hd] at h
      cases h
    · have hi : i = .resume := hi
      subst hi
      have hn : k.isrNesting = 0 := hst.2.1.1
      have hc : k.current.ctx = .semDown (.obj s) := hc
      have hro := hp.roused
      rw [hc] at hro
      obtain ⟨-, hret, -⟩ := hro.returns rfl (by simp) ⟨hn, rfl⟩ hst
      have hret : r = some (.code k.current.blockCode) := hret
      have hr : r = some (.code .ok) := hr
      rw [hret] at hr
      have hok : k.current.blockCode = .ok := by simpa using hr
      exact ⟨k.taskCurrent, ⟨hn, rfl⟩, hent, hok ▸ hro⟩
  · rintro ⟨t, ha, hent, hro⟩
    obtain ⟨hi, hr, -⟩ := hro.returns rfl (by simp) ha hst
    obtain ⟨-, rfl⟩ := ha
    exact ⟨hr, Or.inr ⟨hi, hro.ctx, hent⟩⟩

/-- Steps other than signals hand out no signal. -/
theorem ncard_granted_step (ht : Timely k) (hb : Balance s v tr k)
    (hst : timedSystem.step k (i, r) k') (hu : i.ups s = false) (hd : i.downs s = false) :
    (granted s tr k).ncard = (granted s (⟨k, (i, r), k'⟩ :: tr) k').ncard +
      if Obtains s tr ⟨k, (i, r), k'⟩ then 1 else 0 := by
  have hmem : ∀ {t}, ¬ ActsIn t k →
      (t ∈ granted s (⟨k, (i, r), k'⟩ :: tr) k' ↔ t ∈ granted s tr k) := by
    intro t ha
    rw [granted_step ht hb hst ha, hu]
    simp
  by_cases hx : ∃ t, ActsIn t k ∧ t ∈ granted s tr k
  · rw [if_pos ((obtains_iff ht hst hd).mpr hx)]
    obtain ⟨t, ha, hg⟩ := hx
    have hset : granted s (⟨k, (i, r), k'⟩ :: tr) k' = granted s tr k \ {t} := by
      ext u
      rw [Set.mem_sdiff, Set.mem_singleton_iff]
      by_cases hau : ActsIn u k
      · exact iff_of_false (not_granted_of_acts ht hst hau) fun h => h.2 (hau.2.trans ha.2.symm)
      · rw [hmem hau, and_iff_left]
        rintro rfl
        exact hau ha
    rw [hset, Set.ncard_sdiff_singleton_add_one hg (granted_finite ht.sound)]
  · rw [if_neg (mt (obtains_iff ht hst hd).mp hx), add_zero]
    congr 1
    ext u
    by_cases hau : ActsIn u k
    · exact iff_of_false (fun h => hx ⟨u, hau, h⟩) (not_granted_of_acts ht hst hau)
    · exact (hmem hau).symm

/-- A task that calls a function of the kernel has not just been woken. -/
theorem not_granted_of_call {c : Call} (hst : timedSystem.step k (.call c, r) k')
    (ha : ActsIn t k) : t ∉ granted s tr k := by
  intro h
  obtain ⟨hi, -⟩ := h.2.returns rfl (by simp) ha hst
  cases hi

theorem granted_down {T : ℕ} (ht : Timely k) (hb : Balance s v tr k)
    (hst : timedSystem.step k (.call (.semDown s T), r) k') :
    granted s (⟨k, (.call (.semDown s T), r), k'⟩ :: tr) k' = granted s tr k := by
  ext u
  by_cases hau : ActsIn u k
  · exact iff_of_false (not_granted_of_acts ht hst hau) (not_granted_of_call hst hau)
  · rw [granted_step ht hb hst hau]
    simp [Action.ups]

theorem granted_up {sync : Bool} (ht : Timely k) (hb : Balance s v tr k)
    (hst : timedSystem.step k (.call (.semUp s sync), r) k') :
    granted s (⟨k, (.call (.semUp s sync), r), k'⟩ :: tr) k' =
      granted s tr k ∪ {t | k.IsFirst (.sem (.obj s)) t} := by
  ext u
  by_cases hau : ActsIn u k
  · refine iff_of_false (not_granted_of_acts ht hst hau) ?_
    rintro (h | h)
    · exact not_granted_of_call hst hau h
    · have hp := ht.sound.placed
      have hne := hp.not_current (t := u) (by simp [(hp.filed.first h).1])
      exact hne hau.2
  · rw [granted_step ht hb hst hau]
    simp [Action.ups]

theorem Balance.up {sync : Bool} (ht : Timely k) (hb : Balance s v tr k)
    (hst : timedSystem.step k (.call (.semUp s sync), r) k') :
    Balance s v (⟨k, (.call (.semUp s sync), r), k'⟩ :: tr) k' := by
  have hp := ht.sound.placed
  have hset := granted_up ht hb hst
  have hups : ups s (⟨k, (.call (.semUp s sync), r), k'⟩ :: tr) = ups s tr + 1 := by
    simp [ups, Action.ups]
  have hob : obtained s (⟨k, (.call (.semUp s sync), r), k'⟩ :: tr) = obtained s tr := by
    simp [obtained, Obtains, Action.downs]
  have hent : ∀ t, Entered s tr t → Entered s (⟨k, (.call (.semUp s sync), r), k'⟩ :: tr) t :=
    fun t h => entered_cons.mpr (Or.inr h)
  obtain ⟨-, -, hx⟩ := hst
  obtain ⟨n, hn⟩ := hx.exists_eq
  obtain ⟨hlt, ⟨hno, rfl⟩ | ⟨t, k₁, hf, hm, hk⟩⟩ := hp.semUp (quiet_ok hn).1 (Or.inr rfl)
  · have hempty : {t | k.IsFirst (.sem (.obj s)) t} = ∅ := by
      rw [Set.eq_empty_iff_forall_notMem]
      exact fun t hf => hno t (hp.filed.first hf).1
    rw [hempty, Set.union_empty] at hset
    have hv : (k.setSem (.obj s) (k.sems (.obj s) + 1)).sems (.obj s) = k.sems (.obj s) + 1 := by
      simp [Kernel.setSem]
    refine ⟨?_, ?_, fun _ => hno, fun t hq => absurd hq (hno t)⟩
    · rw [hups, hob, hset, hv]
      have := hb.sum
      omega
    · rw [hv]
      omega
  · have hone : {t | k.IsFirst (.sem (.obj s)) t} = {t} := by
      ext u
      rw [Set.mem_singleton_iff]
      exact ⟨fun h => Kernel.IsFirst.unique h hf, fun h => h ▸ hf⟩
    have hq := (hp.filed.first hf).1
    have hnot : t ∉ granted s tr k := fun h => h.2.queue _ (by simp) hq
    have hp₁ := hm.placed hp
    have hv : k'.sems (.obj s) = k.sems (.obj s) := by
      rw [← hm.sems_eq (s := .obj s) (by simp)]
      obtain ⟨-, rfl⟩ | ⟨rfl, -⟩ | h := hk
      · rfl
      · rfl
      · exact h.sems_eq (by simp)
    have hzero : k.sems (.obj s) = 0 := by
      by_contra h
      exact hb.idle (Nat.pos_of_ne_zero h) t hq
    refine ⟨?_, hv ▸ hb.lt, fun h => ?_, fun u hu => ?_⟩
    · rw [hups, hob, hset, hone, Set.union_singleton,
        Set.ncard_insert_of_notMem hnot (granted_finite ht.sound), hv]
      have := hb.sum
      omega
    · omega
    · apply hent
      apply hb.entered
      by_cases hut : u = t
      · exact hut ▸ hq
      · have hu₁ : (k₁.tasks u).taskQueue = some (.sem (.obj s)) := by
          obtain ⟨-, rfl⟩ | hsch := hk
          · exact hu
          · exact (hsch.waiting_iff hp₁ (by simp)).mp hu
        rwa [hm.waiting_of_ne hut] at hu₁

theorem Balance.down {T : ℕ} (ht : Timely k) (hb : Balance s v tr k)
    (hst : timedSystem.step k (.call (.semDown s T), r) k') :
    Balance s v (⟨k, (.call (.semDown s T), r), k'⟩ :: tr) k' := by
  have hp := ht.sound.placed
  have hset := granted_down ht hb hst
  have hups : ups s (⟨k, (.call (.semDown s T), r), k'⟩ :: tr) = ups s tr := by
    simp [ups, Action.ups]
  have hob : obtained s (⟨k, (.call (.semDown s T), r), k'⟩ :: tr) =
      obtained s tr + if r = some (.code .ok) then 1 else 0 := by
    simp [obtained, Obtains, Action.downs]
  have hent : ∀ t, (k'.tasks t).taskQueue = some (.sem (.obj s)) →
      Entered s (⟨k, (.call (.semDown s T), r), k'⟩ :: tr) t := by
    intro t hq
    obtain ⟨⟨hsane, -⟩, -, hx⟩ := hst
    obtain ⟨n, hn⟩ := hx.exists_eq
    rw [entered_cons]
    obtain hq | ⟨hc, -⟩ := waiting_of_step ht.sound hsane hn (by simp) hq
    · exact Or.inr (hb.entered t hq)
    · exact Or.inl ⟨by simp [Action.downs], hc.symm⟩
  obtain ⟨-, -, hx⟩ := hst
  obtain ⟨n, hn⟩ := hx.exists_eq
  obtain ⟨c, hdown, rfl⟩ := coded_ok hn
  have hsum := hb.sum
  obtain ⟨-, ⟨hpos, rfl, rfl⟩ | ⟨-, -, rfl, rfl⟩ | ⟨hz, rfl, k₁, htm, hm⟩⟩ :=
    hp.semDown hdown ⟨rfl, by simp⟩
  · have hv : (k.setSem (.obj s) (k.sems (.obj s) - 1)).sems (.obj s) = k.sems (.obj s) - 1 := by
      simp [Kernel.setSem]
    refine ⟨?_, ?_, fun _ => hb.idle hpos, hent⟩
    · rw [hups, hob, hset, hv, Option.map_some, if_pos rfl]
      omega
    · have := hb.lt
      rw [hv]
      omega
  · refine ⟨?_, hb.lt, hb.idle, hent⟩
    rw [hups, hob, hset, if_neg (by simp)]
    omega
  · have hv : k'.sems (.obj s) = k.sems (.obj s) := by
      rw [hm.sems_eq (by simp), htm.move.sems_eq (by simp)]
    refine ⟨?_, hv ▸ hb.lt, fun h => by omega, hent⟩
    rw [hups, hob, hset, hv, if_neg (by simp)]
    omega

theorem Balance.step (ht : Timely k) (hb : Balance s v tr k) (hst : timedSystem.step k (i, r) k')
    (hc : ∀ w, i ≠ .call (.semCreate s w)) (hx : i ≠ .call (.semDestroy s)) :
    Balance s v (⟨k, (i, r), k'⟩ :: tr) k' := by
  by_cases hu : i.ups s = true
  · obtain ⟨sync, rfl⟩ := Action.ups_iff.mp hu
    exact hb.up ht hst
  by_cases hd : i.downs s = true
  · obtain ⟨T, rfl⟩ := Action.downs_iff.mp hd
    exact hb.down ht hst
  have hcard := ncard_granted_step ht hb hst (by simpa using hu) (by simpa using hd)
  have hsum := hb.sum
  obtain ⟨⟨hsane, -⟩, -, hset⟩ := hst
  obtain ⟨n, hn⟩ := hset.exists_eq
  have hv : k'.sems (.obj s) = k.sems (.obj s) := by
    refine sems_step ht.sound hsane hn (fun T h => hd ?_) (fun sync h => hu ?_) hc hx
    · exact Action.downs_iff.mpr ⟨T, h⟩
    · exact Action.ups_iff.mpr ⟨sync, h⟩
  have hwait : ∀ t, (k'.tasks t).taskQueue = some (.sem (.obj s)) →
      (k.tasks t).taskQueue = some (.sem (.obj s)) := by
    intro t hq
    refine (waiting_of_step ht.sound hsane hn (by simp) hq).resolve_right ?_
    rintro ⟨-, h⟩
    exact hd (does_block_sem h)
  refine ⟨?_, hv ▸ hb.lt, fun h t hq => hb.idle (hv ▸ h) t (hwait t hq), fun t hq => ?_⟩
  · have hups : ups s (⟨k, (i, r), k'⟩ :: tr) = ups s tr := by simp [ups, hu]
    rw [hups, hv, obtained]
    omega
  · exact entered_cons.mpr (Or.inr (hb.entered t (hwait t hq)))

end Steps

section Runs
variable [Port] {k k₀ k₁ : Kernel} {r : Option Ret} {s v : ℕ} {tr : List KernelStep}

/-- From the creation of a semaphore up to its destruction, no signal is lost or doubled, whatever
the tasks and the interrupt handlers do. -/
theorem sem_signals_conserved (h₀ : timedSystem.Reachable k₀)
    (hcr : timedSystem.step k₀ (.call (.semCreate s v), r) k₁)
    (h : (timedSystem.startAt k₁).Run tr k)
    (hx : ∀ x ∈ tr, x.label.1 ≠ .call (.semDestroy s) ∧ ∀ w, x.label.1 ≠ .call (.semCreate s w)) :
    v + ups s tr = k.sems (.obj s) + (obtained s tr + (granted s tr k).ncard) ∧
      (granted s tr k).Finite ∧ k.sems (.obj s) < Port.atomicMax ∧
      (0 < k.sems (.obj s) → ∀ t, (k.tasks t).taskQueue ≠ some (.sem (.obj s))) := by
  have hr := h₀.step hcr
  have hb : Balance s v tr k := by
    induction h with
    | start h =>
      cases h
      obtain ⟨⟨hsane, -⟩, -, hset⟩ := hcr
      obtain ⟨n, hn⟩ := hset.exists_eq
      obtain ⟨hv, rfl⟩ := Placed.semCreate (quiet_ok hn).1
      have hg :
          granted s [] ((k₀.setQueue (.sem (.obj s)) osTaskqueueInit).setSem (.obj s) v) = ∅ := by
        simp [granted, Entered]
      refine ⟨?_, ?_, fun _ => hsane, fun t hq => absurd hq (hsane t)⟩
      · rw [hg]
        simp [ups, obtained, Kernel.setSem]
      · simpa [Kernel.setSem] using hv
    | @step tr k k' i hrun hst ih =>
      obtain ⟨i, r⟩ := i
      obtain ⟨h₁, h₂⟩ := hx ⟨k, (i, r), k'⟩ (by simp)
      exact (ih fun x hx' => hx x (by simp [hx'])).step (timely_of_reachable (hr.run hrun)) hst h₂ h₁
  exact ⟨hb.sum, granted_finite (timely_of_reachable (hr.run h)).sound, hb.lt, hb.idle⟩

end Runs

/-- Of the two signals one has been taken, and one handed to the task 2, which has not run yet. -/
theorem sem_signals_conserved_handed : ∃ k₀ r k₁ tr k, timedSystem.Reachable k₀ ∧
    timedSystem.step k₀ (.call (.semCreate 0 1), r) k₁ ∧ (timedSystem.startAt k₁).Run tr k ∧
    k.sems (.obj 0) = 0 ∧ ups 0 tr = 1 ∧ obtained 0 tr = 1 ∧ (granted 0 tr k).ncard = 1 := by
  obtain ⟨⟨k₀, k₁, r⟩, hk₀, hx₀⟩ := Outcome.exists_of_holds
    (x := playStep timedCheck 10 [.call (.taskCreate 1 1), .call (.taskCreate 2 2), .call .start,
      .resume] (.call (.semCreate 0 1)))
    (p := fun (_, k₁, _) => (playRun timedCheck 10 [.call (.semDown 0 5), .call (.semDown 0 5),
        .call (.semUp 0 false)] [] k₁).holds
      fun (tr, k) => decide (k.sems (.obj 0) = 0 ∧ ups 0 tr = 1 ∧ obtained 0 tr = 1 ∧
        ∀ x ∈ tr, x.label.1 = .call (.semDown 0 5) ∨ x.label.1 = .call (.semUp 0 false)))
    (by decide +kernel)
  obtain ⟨⟨tr, k⟩, hk, hx⟩ := Outcome.exists_of_holds hx₀
  obtain ⟨hz, hup, hob, hin⟩ := of_decide_eq_true hx
  obtain ⟨hr, hP, hst⟩ := step_of_playStep (P := fun k i => Sane k i.1 ∧ Typed i.1)
    (fun _ _ h => h.1) (fun _ _ _ hs h => timed_of_check hs h) hk₀
  have hr : timedSystem.Reachable k₀ := hr
  have hst : timedSystem.step k₀ (.call (.semCreate 0 1), r) k₁ := ⟨hP, hst⟩
  have hrun : (timedSystem.startAt k₁).Run tr k :=
    run_startAt_of_playRun (P := fun k i => Sane k i.1 ∧ Typed i.1) (fun _ _ h => h.1)
      (fun _ _ _ hs h => timed_of_check hs h) (hr.step hst) (.start rfl) hk
  have hsum := (sem_signals_conserved hr hst hrun fun x hx => by
    obtain h | h := hin x hx <;> simp [h]).1
  exact ⟨k₀, r, k₁, tr, k, hr, hst, hrun, hz, hup, hob, by omega⟩

end RadOs
