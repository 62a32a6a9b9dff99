import RadOs.Kernel.JoinExit

/-! # All the tasks inside `os_task_join`

If no task joins itself, and the memory of a task is left alone as long as
somebody joins it, then every task inside `os_task_join` is in one of the phases
of `JoinPhase`, however many of them there are.
-/

namespace RadOs
open Bucketed Runs Budget

def Joinable (k : Kernel) : Action → Prop
  | .call (.taskJoin t) => t ≠ k.taskCurrent
  | .call (.taskCreate t _) => (k.tasks t).joinSem = none
  | _ => True

/-- How the tasks inside `os_task_join` stand to the tasks they join. -/
def Joining (k : Kernel) : Prop :=
  ∀ u t, Joins u t k → u ≠ t ∧ (k.tasks t).joinSem = some (.join u) ∧ ∃ o, JoinPhase u t k o

section Steps
variable [Port] {k k' : Kernel} {i : Action} {n : ℕ} {r : Option Ret} {j t u : TaskId}
  {o : Option ℤ}

omit [Port] in
/-- A task that somebody joins cannot be joined. -/
theorem Joining.not_joins (h : Joining k) (ht : (k.tasks t).joinSem = none) (u : TaskId) :
    ¬ Joins u t k := by
  intro hj
  rw [(h u t hj).2.1] at ht
  cases ht

/-- The step begins a call of `os_task_join`. -/
theorem Joining.enters (h : Joining k) (ht : Timely k)
    (hst : timedSystem.step k (.call (.taskJoin t), r) k') (hne : t ≠ k.taskCurrent)
    (hj : Joins k.taskCurrent t k') :
    (k'.tasks t).joinSem = some (.join k.taskCurrent) ∧
      JoinPhase k.taskCurrent t k' none := by
  have hp := ht.sound.placed
  obtain ⟨n, hn⟩ := hst.2.2.exists_eq
  obtain ⟨hi, hs, ⟨-, -, rfl⟩ | ⟨hl, -, -, -⟩⟩ := hp.taskJoin_ok hn
  · -- the task had exited, and the caller has not left its place
    have hout := hst.2.1
    rw [Enabled, if_pos hi] at hout
    obtain hc | hc := hj <;> simp [Ne.symm hne] at hc <;>
      simp [Kernel.current, hc, Ctx.outside] at hout
  · have hph := JoinPhase.joins hl (h.not_joins hs) ht hne.symm hst rfl
    refine ⟨?_, hph⟩
    cases hph with
    | before hl' hs' hno => exact absurd hj (hno _)
    | waiting hl' hs' => exact hs'

/-- A task inside `os_task_join` stays there or returns. -/
theorem JoinPhase.stays (h : JoinPhase u t k o) (hj : Joins u t k) (hne : u ≠ t) (ht : Timely k)
    (hm : Matched k) (hs : (k.tasks t).joinSem = some (.join u))
    (hst : timedSystem.step k (i, r) k') (hi : Joinable k i) (hj' : Joins u t k') :
    (k'.tasks t).joinSem = some (.join u) ∧ ∃ o', JoinPhase u t k' o' := by
  have hp := ht.sound.placed
  obtain ⟨n, hn⟩ := hst.2.2.exists_eq
  have hcreate : ∀ p, i ≠ .call (.taskCreate t p) := by
    rintro p rfl
    have : (k.tasks t).joinSem = none := hi
    rw [this] at hs
    cases hs
  have hjoin : i ≠ .call (.taskJoin t) := by
    rintro rfl
    rw [(hp.taskJoin_ok hn).2.1] at hs
    cases hs
  have hret : ∀ v, ¬ JoinReturns u t v ⟨k, (i, r), k'⟩ := by
    rintro v ⟨⟨-, rfl⟩, hv, -⟩
    have hv : r = some (.value v) := hv
    subst hv
    obtain ⟨hc, -, hout⟩ := exec_returns hp hst.2.1 hn
    rw [Kernel.current, hc] at hout
    obtain hc | hc := hj' <;> rw [hc] at hout <;> cases hout
  constructor
  · by_cases hd : Does k i (.join t)
    · obtain ⟨rfl, hcur⟩ := (does_join hd).resolve_left hjoin
      obtain rfl := h.only hcur
      obtain ⟨-, -, k₁, -, -, hother, -, hmv⟩ | ⟨-, hv, -⟩ := hcur.resume_ok hp hst.2.1.1 hn
      · rw [(hmv.task t).joinSem_eq (by simp) (by simp), hother t hne.symm, hs]
      · exact absurd ⟨⟨hst.2.1.1, rfl⟩, hv, Or.inr hcur⟩ (hret _)
    · rw [joinSem_step ht.sound hst.1.1 hn hd hcreate, hs]
  · by_cases hx : ∃ v, Exits t v ⟨k, (i, r), k'⟩
    · obtain ⟨v, ha, hi⟩ := hx
      have hi : i = .call (.taskExit v) := hi
      subst hi
      exact ⟨some v, (h.exits ht hne hst ha).2.1⟩
    · exact ⟨o, h.step ht hm hne hst ⟨fun h => absurd h hjoin, hcreate⟩ (not_exists.mp hx) hret⟩

theorem Joining.step (h : Joining k) (ht : Timely k) (hm : Matched k)
    (hst : timedSystem.step k (i, r) k') (hi : Joinable k i) : Joining k' := by
  intro u t hj
  obtain ⟨n, hn⟩ := hst.2.2.exists_eq
  obtain hj₀ | ⟨⟨-, rfl⟩, rfl⟩ := hj.of_step ht hst.2.1 hst.1.1 hn
  · obtain ⟨hne, hs, o, hph⟩ := h u t hj₀
    exact ⟨hne, hph.stays hj₀ hne ht hm hs hst hi hj⟩
  · have hne : t ≠ k.taskCurrent := hi
    obtain ⟨hs, hph⟩ := h.enters ht hst hne hj
    exact ⟨hne.symm, hs, none, hph⟩

omit [Port] in
/-- The phase of a live task, whether it is joined or not. -/
theorem Joining.phase (h : Joining k) (hm : Matched k) (hl : k.Live t) :
    ∃ u o, JoinPhase u t k o := by
  by_cases hj : ∃ u, Joins u t k
  · obtain ⟨u, hj⟩ := hj
    exact ⟨u, (h u t hj).2.2⟩
  · refine ⟨t, none, .before hl ?_ (not_exists.mp hj)⟩
    by_contra hs
    obtain ⟨s, hs⟩ := Option.ne_none_iff_exists'.mp hs
    obtain ⟨u, -, -, hju⟩ := hm t s hs
    exact hj ⟨u, hju⟩

end Steps

end RadOs
