import Mathlib.Logic.Relation
import Mathlib.Order.Bounds.Basic
import Mathlib.Order.MinMax

/-! # Priority inheritance

`r w t` says that `w` waits for `t`. Priorities are inherited exactly if every
`t` has the greatest among its own base priority and the priorities of those
that wait for it. The lemmas say which changes of `r` need which changes of the
priorities.
-/

namespace Inheritance
open Relation

variable {T P : Type*} [LinearOrder P] {r r' : T → T → Prop} {base prio prio' : T → P} {c o t w : T}

/-- The priorities that `t` inherits, and its own. -/
def claims (r : T → T → Prop) (base prio : T → P) (t : T) : Set P :=
  insert (base t) {p | ∃ w, r w t ∧ prio w = p}

def Exact (r : T → T → Prop) (base prio : T → P) : Prop :=
  ∀ t, IsGreatest (claims r base prio t) (prio t)

theorem isGreatest_claims_iff {p : P} : IsGreatest (claims r base prio t) p ↔
    base t ≤ p ∧ (∀ w, r w t → prio w ≤ p) ∧ (p = base t ∨ ∃ w, r w t ∧ prio w = p) := by
  constructor
  · rintro ⟨hm, hu⟩
    exact ⟨hu (Or.inl rfl), fun w hw => hu (Or.inr ⟨w, hw, rfl⟩), hm⟩
  · rintro ⟨hb, hw, hm⟩
    refine ⟨hm, ?_⟩
    rintro q (rfl | ⟨w, h, rfl⟩)
    · exact hb
    · exact hw w h

theorem Exact.le (h : Exact r base prio) (hw : r w t) : prio w ≤ prio t :=
  (isGreatest_claims_iff.mp (h t)).2.1 w hw

/-- Along a chain of tasks that wait for one another the priorities do not fall. -/
theorem Exact.le_of_chain (h : Exact r base prio) (hw : ReflTransGen r w t) : prio w ≤ prio t := by
  induction hw with
  | refl => exact le_rfl
  | tail _ hr ih => exact ih.trans (h.le hr)

/-- New waits for somebody who is as urgent change nothing. -/
theorem Exact.grow (h : Exact r base prio) (hr : ∀ w t, r w t → r' w t)
    (hle : ∀ w t, r' w t → prio w ≤ prio t) : Exact r' base prio := by
  intro t
  obtain ⟨hb, -, he⟩ := isGreatest_claims_iff.mp (h t)
  refine isGreatest_claims_iff.mpr ⟨hb, fun w => hle w t, he.imp_right ?_⟩
  rintro ⟨w, hw, hp⟩
  exact ⟨w, hr w t hw, hp⟩

/-- Some that nobody waits for, and that wait for nobody, begin anew. -/
theorem Exact.renew {base' : T → P} (h : Exact r base prio)
    (hn : ∀ t, (prio' t = prio t ∧ base' t = base t) ∨
      (prio' t = base' t ∧ ∀ u, ¬ r u t ∧ ¬ r t u)) : Exact r base' prio' := by
  have hwait : ∀ w t, r w t → prio' w = prio w := by
    intro w t hw
    obtain ⟨hp, -⟩ | ⟨-, hno⟩ := hn w
    · exact hp
    · exact absurd hw (hno t).2
  intro t
  obtain ⟨hp, hb⟩ | ⟨hp, hno⟩ := hn t
  · obtain ⟨h₁, h₂, h₃⟩ := isGreatest_claims_iff.mp (h t)
    rw [hp]
    refine isGreatest_claims_iff.mpr ⟨hb ▸ h₁, fun w hw => hwait w t hw ▸ h₂ w hw, ?_⟩
    refine h₃.imp (fun he => he.trans hb.symm) ?_
    rintro ⟨w, hw, he⟩
    exact ⟨w, hw, (hwait w t hw).trans he⟩
  · exact isGreatest_claims_iff.mpr ⟨hp.ge, fun w hw => absurd hw (hno w).1, Or.inl hp⟩

/-- Nobody is concerned but `c`, who waits for nobody. -/
theorem Exact.change (h : Exact r base prio) (hr : ∀ w t, t ≠ c → (r' w t ↔ r w t))
    (hc : ∀ t, ¬ r' c t) (hp : ∀ t, t ≠ c → prio' t = prio t)
    (hg : IsGreatest (claims r' base prio c) (prio' c)) : Exact r' base prio' := by
  have hwait : ∀ w t, r' w t → prio' w = prio w := by
    intro w t hw
    apply hp
    rintro rfl
    exact hc t hw
  intro t
  have hclaims : claims r' base prio' t = claims r' base prio t := by
    ext p
    refine or_congr Iff.rfl ⟨?_, ?_⟩
    · rintro ⟨w, hw, rfl⟩
      exact ⟨w, hw, (hwait w t hw).symm⟩
    · rintro ⟨w, hw, rfl⟩
      exact ⟨w, hw, hwait w t hw⟩
  rw [hclaims]
  by_cases ht : t = c
  · rwa [ht]
  · have hsame : claims r' base prio t = claims r base prio t := by
      simp only [claims, hr _ t ht]
    rw [hsame, hp t ht]
    exact h t

/-- `c` begins to wait for `o`, and everybody on the chain from `o` on becomes as urgent as `c`. -/
theorem Exact.wait (h : Exact r base prio) (hc : ¬ ReflTransGen r o c)
    (hr : ∀ w t, r' w t ↔ r w t ∨ (w = c ∧ t = o))
    (hin : ∀ t, ReflTransGen r o t → prio' t = max (prio t) (prio c))
    (hout : ∀ t, ¬ ReflTransGen r o t → prio' t = prio t) : Exact r' base prio' := by
  have hle : ∀ t, prio t ≤ prio' t := by
    intro t
    by_cases ht : ReflTransGen r o t
    · exact hin t ht ▸ le_max_left _ _
    · exact (hout t ht).ge
  have hpc : prio' c = prio c := hout c hc
  intro t
  obtain ⟨hb, hw, he⟩ := isGreatest_claims_iff.mp (h t)
  by_cases ht : ReflTransGen r o t
  · refine isGreatest_claims_iff.mpr ⟨hb.trans (hle t), fun w hrw => ?_, ?_⟩
    · rw [hin t ht]
      obtain hrw | ⟨rfl, -⟩ := (hr w t).mp hrw
      · by_cases hwo : ReflTransGen r o w
        · exact hin w hwo ▸ max_le_max (hw w hrw) le_rfl
        · exact hout w hwo ▸ (hw w hrw).trans (le_max_left _ _)
      · exact hpc ▸ le_max_right _ _
    · obtain hlt | hge := lt_or_ge (prio t) (prio c)
      · -- the priority comes from the predecessor on the chain
        have hpt : prio' t = prio c := (hin t ht).trans (max_eq_right hlt.le)
        refine Or.inr ?_
        obtain rfl | ⟨w, how, hrw⟩ := ht.cases_tail
        · exact ⟨c, (hr c t).mpr (Or.inr ⟨rfl, rfl⟩), hpc.trans hpt.symm⟩
        · refine ⟨w, (hr w t).mpr (Or.inl hrw), ?_⟩
          rw [hpt, hin w how, max_eq_right ((hw w hrw).trans hlt.le)]
      · have hpt : prio' t = prio t := (hin t ht).trans (max_eq_left hge)
        rw [hpt]
        refine he.imp_right ?_
        rintro ⟨w, hrw, hp⟩
        refine ⟨w, (hr w t).mpr (Or.inl hrw), ?_⟩
        by_cases hwo : ReflTransGen r o w
        · rw [hin w hwo, hp, max_eq_left hge]
        · rw [hout w hwo, hp]
  · have hto : t ≠ o := by
      rintro rfl
      exact ht .refl
    have hiff : ∀ w, r' w t ↔ r w t := fun w => by simp [hr, hto]
    have hpw : ∀ w, r w t → prio' w = prio w := by
      intro w hrw
      exact hout w fun hwo => ht (hwo.tail hrw)
    rw [hout t ht]
    refine isGreatest_claims_iff.mpr ⟨hb, fun w hrw => ?_, he.imp_right ?_⟩
    · rw [hiff] at hrw
      exact hpw w hrw ▸ hw w hrw
    · rintro ⟨w, hrw, hp⟩
      exact ⟨w, (hiff w).mpr hrw, (hpw w hrw).trans hp⟩

end Inheritance
