import Mathlib.Data.List.Nodup
import Mathlib.Logic.Function.Basic

/-! # Ownership recorded twice

Every thing knows its owner, and every owner keeps a list of what it owns. The
two records agree as long as things are taken when nobody owns them, and are
released by their owners.
-/

/-- The owners of the things `M`, and the lists of the owners `T`. -/
@[ext]
structure Deeds (M T : Type*) where
  owner : M → Option T
  held : T → List M

namespace Deeds
variable {M T : Type*} [DecidableEq M] [DecidableEq T] {d : Deeds M T} {m m' : M} {t u : T}

def take (d : Deeds M T) (m : M) (t : T) : Deeds M T where
  owner := Function.update d.owner m (some t)
  held := Function.update d.held t (d.held t ++ [m])

def release (d : Deeds M T) (m : M) (t : T) : Deeds M T where
  owner := Function.update d.owner m none
  held := Function.update d.held t ((d.held t).erase m)

/-- The two records agree. -/
structure Agree (d : Deeds M T) : Prop where
  owner_iff : ∀ m t, d.owner m = some t ↔ m ∈ d.held t
  nodup : ∀ t, (d.held t).Nodup

theorem Agree.take (h : d.Agree) (hm : d.owner m = none) (t : T) : (d.take m t).Agree := by
  have hout : ∀ u, m ∉ d.held u := fun u hu => by simp [(h.owner_iff m u).mpr hu] at hm
  refine ⟨fun m' u => ?_, fun u => ?_⟩
  · by_cases hu : u = t
    · subst hu
      by_cases hm' : m' = m
      · simp [Deeds.take, hm']
      · simp [Deeds.take, hm', h.owner_iff]
    · by_cases hm' : m' = m
      · subst hm'
        simp [Deeds.take, hu, hout, Ne.symm hu]
      · simp [Deeds.take, hm', hu, h.owner_iff]
  · by_cases hu : u = t
    · subst hu
      have hdis : ∀ a ∈ d.held u, a ≠ m := fun a ha he => hout u (he ▸ ha)
      simpa [Deeds.take, List.nodup_append] using ⟨h.nodup u, hdis⟩
    · simpa [Deeds.take, hu] using h.nodup u

theorem Agree.release (h : d.Agree) (hm : d.owner m = some t) : (d.release m t).Agree := by
  refine ⟨fun m' u => ?_, fun u => ?_⟩
  · by_cases hu : u = t
    · subst hu
      by_cases hm' : m' = m
      · simp [Deeds.release, hm', (h.nodup u).not_mem_erase]
      · simp [Deeds.release, hm', h.owner_iff, List.mem_erase_of_ne hm']
    · by_cases hm' : m' = m
      · subst hm'
        have hno : m' ∉ d.held u := by
          intro hx
          rw [← h.owner_iff, hm] at hx
          exact hu (Option.some.inj hx).symm
        simp [Deeds.release, hu, hno]
      · simp [Deeds.release, hm', hu, h.owner_iff]
  · by_cases hu : u = t
    · subst hu
      simpa [Deeds.release] using (h.nodup u).erase m
    · simpa [Deeds.release, hu] using h.nodup u

omit [DecidableEq T] in
/-- A thing is in the list of its owner once, and in no other. -/
theorem Agree.owner_iff_count (h : d.Agree) :
    d.owner m = some t ↔ (d.held t).count m = 1 ∧ ∀ u, u ≠ t → m ∉ d.held u := by
  constructor
  · intro hm
    have hmem := (h.owner_iff m t).mp hm
    refine ⟨List.count_eq_one_of_mem (h.nodup t) hmem, fun u hu hmu => ?_⟩
    rw [← h.owner_iff, hm] at hmu
    exact hu (Option.some.inj hmu).symm
  · rintro ⟨hc, -⟩
    rw [h.owner_iff, ← List.count_pos_iff, hc]
    exact Nat.one_pos

end Deeds
