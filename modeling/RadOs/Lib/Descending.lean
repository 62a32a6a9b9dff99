import Mathlib.Algebra.Group.Nat.Defs
import Mathlib.Data.List.Nodup
import Mathlib.Logic.Function.Basic
import Mathlib.Tactic.Basic

/-! # Descending stacks

A stack pointer points to the next free cell, a push stores and counts down, a
pop counts up and loads. `store` is what a sequence of pushes makes of the
memory, and `Above` says which values a sequence of pops will load.
-/

namespace Descending

variable {w : ℕ} {β : Type*} {mem mem' : BitVec w → β} {p q a : BitVec w} {xs ys : List β}

/-- The memory after the values have been pushed, the first one at `p`. -/
def store (mem : BitVec w → β) (p : BitVec w) : List β → BitVec w → β
  | [] => mem
  | x :: xs => store (Function.update mem p x) (p - 1) xs

/-- The values above `q`, upwards. -/
def Above (mem : BitVec w → β) (q : BitVec w) : List β → Prop
  | [] => True
  | x :: xs => mem (q + 1) = x ∧ Above mem (q + 1) xs

theorem ofNat_succ (n : ℕ) : BitVec.ofNat w (n + 1) = 1 + BitVec.ofNat w n := by
  rw [BitVec.ofNat_add, BitVec.add_comm]
  rfl

theorem store_append : store mem p (xs ++ ys) =
    store (store mem p xs) (p - BitVec.ofNat w xs.length) ys := by
  induction xs generalizing mem p with
  | nil => simp [store]
  | cons x xs ih =>
    simp only [List.cons_append, store, ih, List.length_cons, ofNat_succ]
    congr 1
    rw [BitVec.sub_sub]

theorem above_append : Above mem q (xs ++ ys) ↔
    Above mem q xs ∧ Above mem (q + BitVec.ofNat w xs.length) ys := by
  induction xs generalizing q with
  | nil => simp [Above]
  | cons x xs ih =>
    simp only [List.cons_append, Above, ih, List.length_cons, ofNat_succ, and_assoc,
      BitVec.add_assoc]

theorem toNat_sub_one (h : 0 < p.toNat) : (p - 1).toNat = p.toNat - 1 := by
  have hw : 1 < 2 ^ w := by omega
  have h1 : (1 : BitVec w).toNat = 1 := by simp [Nat.mod_eq_of_lt hw]
  rw [BitVec.toNat_sub_of_le (by rw [BitVec.le_def, h1]; exact h), h1]

theorem toNat_add_one (h : q.toNat + 1 < 2 ^ w) : (q + 1).toNat = q.toNat + 1 := by
  have h1 : (1 : BitVec w).toNat = 1 := by simp [Nat.mod_eq_of_lt (show 1 < 2 ^ w by omega)]
  rw [BitVec.toNat_add_of_lt (by rw [h1]; exact h), h1]

/-- Pushes write nothing but the cells they fill. -/
theorem store_outside (hp : xs.length ≤ p.toNat)
    (ha : a.toNat + xs.length ≤ p.toNat ∨ p.toNat < a.toNat) : store mem p xs a = mem a := by
  induction xs generalizing mem p with
  | nil => rfl
  | cons x xs ih =>
    rw [List.length_cons] at hp ha
    have h1 := toNat_sub_one (p := p) (by omega)
    have hne : a ≠ p := by
      rintro rfl
      omega
    rw [store, ih (by omega) (by omega), Function.update_of_ne hne]

/-- What has been pushed last is loaded first. -/
theorem above_store (mem : BitVec w → β) (hp : xs.length ≤ p.toNat) :
    Above (store mem p xs) (p - BitVec.ofNat w xs.length) xs.reverse := by
  induction xs generalizing mem p with
  | nil => trivial
  | cons x xs ih =>
    rw [List.length_cons] at hp
    have h1 := toNat_sub_one (p := p) (by omega)
    have hq : p - BitVec.ofNat w (xs.length + 1) = p - 1 - BitVec.ofNat w xs.length := by
      rw [ofNat_succ, BitVec.sub_sub]
    rw [List.reverse_cons, List.length_cons, hq, store, above_append]
    refine ⟨ih _ (by omega), ?_, trivial⟩
    rw [List.length_reverse, BitVec.sub_add_cancel, BitVec.sub_add_cancel,
      store_outside (by omega) (Or.inr (by omega)), Function.update_self]

theorem Above.congr (h : Above mem q xs) (hq : q.toNat + xs.length < 2 ^ w)
    (hm : ∀ a, q.toNat < a.toNat → a.toNat ≤ q.toNat + xs.length → mem' a = mem a) :
    Above mem' q xs := by
  induction xs generalizing q with
  | nil => trivial
  | cons x xs ih =>
    rw [List.length_cons] at hq hm
    have h1 := toNat_add_one (q := q) (by omega)
    refine ⟨(hm _ (by omega) (by omega)).trans h.1, ih h.2 (by omega) fun a ha hb => ?_⟩
    exact hm a (by omega) (by omega)

/-- Whatever the memory holds can be read as the values of a function on a list of names. -/
theorem exists_above {α : Type*} [DecidableEq α] (mem : BitVec w → β) (g : α → β) {l : List α}
    (hl : l.Nodup) (q : BitVec w) :
    ∃ f, (∀ x, x ∉ l → f x = g x) ∧ Above mem q (l.map f) := by
  induction l generalizing q with
  | nil => exact ⟨g, fun _ _ => rfl, trivial⟩
  | cons y l ih =>
    obtain ⟨hy, hl⟩ := List.nodup_cons.mp hl
    obtain ⟨f, hf, hm⟩ := ih hl (q + 1)
    refine ⟨Function.update f y (mem (q + 1)), fun x hx => ?_, ?_, ?_⟩
    · rw [List.mem_cons, not_or] at hx
      rw [Function.update_of_ne hx.1]
      exact hf x hx.2
    · simp
    · have hmap : l.map (Function.update f y (mem (q + 1))) = l.map f :=
        List.map_congr_left fun x hx => Function.update_of_ne (fun e => hy (by rwa [← e])) _ _
      rwa [hmap]

end Descending
