import Mathlib.Data.Finite.Defs
import Mathlib.Data.Fintype.EquivFin
import Mathlib.Data.Set.Finite.Basic
import Mathlib.Logic.Relation
import Mathlib.Order.WellFounded
import Mathlib.Order.RelClasses

/-! # Chains of a relation in which everything has at most one successor

Following such a relation from a point either ends or runs into a cycle, if
only finitely many points have a successor.
-/

namespace Chains
open Relation
variable {α : Type*} {r : α → α → Prop} {a b : α}

/-- The chain from `a` on comes to a point without a successor. -/
def Ends (r : α → α → Prop) (a : α) : Prop := ∃ b, ReflTransGen r a b ∧ ∀ c, ¬ r b c

/-- The chain from `a` on comes to a point that follows itself. -/
def Cyclic (r : α → α → Prop) (a : α) : Prop := ∃ b, ReflTransGen r a b ∧ TransGen r b b

theorem ends_of_succ (h : r a b) (hb : Ends r b) : Ends r a := by
  obtain ⟨c, hc, hn⟩ := hb
  exact ⟨c, hc.head h, hn⟩

theorem Cyclic.succ (h : Cyclic r a) : ∃ b, r a b := by
  obtain ⟨b, hab, hb⟩ := h
  obtain rfl | ⟨c, hc, -⟩ := hab.cases_head
  · obtain ⟨c, hc, -⟩ := TransGen.head'_iff.mp hb
    exact ⟨c, hc⟩
  · exact ⟨c, hc⟩

/-- A chain that runs into a cycle goes on doing so if the links of such chains are kept. -/
theorem Cyclic.mono {r' : α → α → Prop} (h : ∀ x y, Cyclic r x → Cyclic r y → r x y → r' x y)
    (ha : Cyclic r a) : Cyclic r' a := by
  obtain ⟨b, hab, hb⟩ := ha
  have hcyc : ∀ x, ReflTransGen r x b → Cyclic r x := fun x hx => ⟨b, hx, hb⟩
  have hpath : ∀ x, ReflTransGen r x b → ReflTransGen r' x b := by
    intro x hx
    induction hx using ReflTransGen.head_induction_on with
    | refl => exact .refl
    | head hxy hy ih => exact ih.head (h _ _ (hcyc _ (hy.head hxy)) (hcyc _ hy) hxy)
  obtain ⟨c, hbc, hcb⟩ := TransGen.head'_iff.mp hb
  exact ⟨b, hpath a hab,
    TransGen.head' (h _ _ (hcyc b .refl) (hcyc c hcb) hbc) (hpath c hcb)⟩

section Functional
variable (hf : ∀ a b c, r a b → r a c → b = c)
include hf

theorem ends_succ (h : r a b) (ha : Ends r a) : Ends r b := by
  obtain ⟨c, hc, hn⟩ := ha
  obtain rfl | ⟨d, hd, hdc⟩ := hc.cases_head
  · exact absurd h (hn b)
  · rw [hf a b d h hd]
    exact ⟨c, hdc, hn⟩

theorem ends_of_reflTransGen (h : ReflTransGen r a b) (ha : Ends r a) : Ends r b := by
  induction h with
  | refl => exact ha
  | tail _ hr ih => exact ends_succ hf hr ih

/-- The chain from a point of a cycle stays on it. -/
theorem cycle_of_reflTransGen (h : TransGen r a a) (hab : ReflTransGen r a b) :
    TransGen r b b := by
  induction hab with
  | refl => exact h
  | tail _ hr ih =>
    obtain ⟨d, hd, hdb⟩ := TransGen.head'_iff.mp ih
    rw [hf _ _ _ hr hd]
    exact TransGen.tail' hdb hd

theorem Cyclic.next (h : r a b) (ha : Cyclic r a) : Cyclic r b := by
  obtain ⟨c, hac, hc⟩ := ha
  obtain rfl | ⟨d, had, hdc⟩ := hac.cases_head
  · exact ⟨b, .refl, cycle_of_reflTransGen hf hc (.single h)⟩
  · rw [hf a b d h had]
    exact ⟨c, hdc, hc⟩

theorem not_ends_of_cyclic (h : Cyclic r a) : ¬ Ends r a := by
  obtain ⟨b, hab, hb⟩ := h
  intro ha
  obtain ⟨c, hbc, hn⟩ := ends_of_reflTransGen hf hab ha
  obtain ⟨d, hd, -⟩ := TransGen.head'_iff.mp (cycle_of_reflTransGen hf hb hbc)
  exact hn d hd

end Functional

theorem ends_of_not_cyclic (hfin : {x | ∃ y, r x y}.Finite) (h : ¬ Cyclic r a) : Ends r a := by
  by_cases ha : ∃ y, r a y
  · let T := {x // (∃ y, r x y) ∧ ReflTransGen r a x}
    have : Finite T := (hfin.subset fun x hx => hx.1).to_subtype
    let R : T → T → Prop := fun x y => TransGen r y.1 x.1
    have : IsTrans T R := ⟨fun _ _ _ hxy hyz => hyz.trans hxy⟩
    have : Std.Irrefl R := ⟨fun x hx => h ⟨x.1, x.2.2, hx⟩⟩
    -- the last point of the chain that has a successor
    obtain ⟨x, -, hx⟩ := (Finite.wellFounded_of_trans_of_irrefl R).has_min Set.univ
      ⟨⟨a, ha, .refl⟩, trivial⟩
    obtain ⟨y, hy⟩ := x.2.1
    refine ⟨y, x.2.2.tail hy, fun c hc => ?_⟩
    exact hx ⟨y, ⟨c, hc⟩, x.2.2.tail hy⟩ trivial (TransGen.single hy)
  · exact ⟨a, .refl, fun c hc => ha ⟨c, hc⟩⟩

end Chains
