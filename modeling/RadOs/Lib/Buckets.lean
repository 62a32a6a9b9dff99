import Mathlib.Data.Finset.Lattice.Fold
import Mathlib.Order.Lattice.Nat
import Mathlib.Tactic.Basic

/-! # Priority queues made of buckets

One first-in first-out list for each priority and a set of the priorities whose
list is not empty. `Files b key` says that the queue holds exactly the elements
with a key, each once and in the bucket of its key.
-/

namespace Bucketed

structure Buckets (α : Type*) where
  bucket : ℕ → List α
  mask : Finset ℕ

variable {α : Type*} [DecidableEq α]

namespace Buckets

def empty : Buckets α where
  bucket _ := []
  mask := ∅

/-- Put a list into a bucket and clear the mask bit if it is empty. -/
def setBucket (p : ℕ) (l : List α) (b : Buckets α) : Buckets α where
  bucket := Function.update b.bucket p l
  mask := if l = [] then b.mask.erase p else b.mask

def push (p : ℕ) (a : α) (b : Buckets α) : Buckets α where
  bucket := Function.update b.bucket p (b.bucket p ++ [a])
  mask := insert p b.mask

def remove (p : ℕ) (a : α) (b : Buckets α) : Buckets α := b.setBucket p ((b.bucket p).erase a)

/-- One more than the highest priority in use, zero if there is none. -/
def top (b : Buckets α) : ℕ := b.mask.sup Nat.succ

end Buckets

structure Files (b : Buckets α) (key : α → Option ℕ) : Prop where
  mem : ∀ a p, a ∈ b.bucket p ↔ key a = some p
  nodup : ∀ p, (b.bucket p).Nodup
  mask : ∀ p, p ∈ b.mask ↔ b.bucket p ≠ []

namespace Files
variable {b : Buckets α} {key : α → Option ℕ} {a : α} {p m : ℕ}

omit [DecidableEq α] in
theorem empty {key : α → Option ℕ} (h : ∀ a, key a = none) : Files Buckets.empty key where
  mem a p := by simp [Buckets.empty, h a]
  nodup p := by simp [Buckets.empty]
  mask p := by simp [Buckets.empty]

theorem push (h : Files b key) (ha : key a = none) (p : ℕ) :
    Files (b.push p a) (Function.update key a (some p)) where
  mem x q := by
    by_cases hx : x = a
    · subst hx
      by_cases hq : q = p
      · simp [Buckets.push, hq]
      · simp [Buckets.push, hq, h.mem, ha, Ne.symm hq]
    · by_cases hq : q = p
      · subst hq
        simp [Buckets.push, hx, h.mem]
      · simp [Buckets.push, hx, hq, h.mem]
  nodup q := by
    by_cases hq : q = p
    · subst hq
      have : a ∉ b.bucket q := by simp [h.mem, ha]
      simp [Buckets.push, List.nodup_append, h.nodup]
      grind
    · simp [Buckets.push, hq, h.nodup]
  mask q := by
    by_cases hq : q = p
    · simp [Buckets.push, hq]
    · simp [Buckets.push, hq, h.mask]

/-- Taking one element out of its bucket, wherever it stands there. -/
theorem setBucket (h : Files b key) {l : List α} (ha : key a = some p) (hl : l.Nodup)
    (hm : ∀ x, x ∈ l ↔ x ≠ a ∧ x ∈ b.bucket p) :
    Files (b.setBucket p l) (Function.update key a none) where
  mem x q := by
    by_cases hx : x = a
    · subst hx
      by_cases hq : q = p
      · subst hq
        simp [Buckets.setBucket, hm]
      · simp [Buckets.setBucket, hq, h.mem, ha, Ne.symm hq]
    · by_cases hq : q = p
      · subst hq
        simp [Buckets.setBucket, hm, hx, h.mem]
      · simp [Buckets.setBucket, hq, hx, h.mem]
  nodup q := by
    by_cases hq : q = p
    · subst hq
      simpa [Buckets.setBucket] using hl
    · simp [Buckets.setBucket, hq, h.nodup]
  mask q := by
    by_cases hq : q = p
    · subst hq
      have hp : q ∈ b.mask := (h.mask q).mpr (List.ne_nil_of_mem ((h.mem a q).mpr ha))
      by_cases hl' : l = []
      · simp [Buckets.setBucket, hl']
      · simp [Buckets.setBucket, hl', hp]
    · by_cases hl' : l = []
      · simp [Buckets.setBucket, hq, hl', h.mask]
      · simp [Buckets.setBucket, hq, hl', h.mask]

theorem remove (h : Files b key) (ha : key a = some p) :
    Files (b.remove p a) (Function.update key a none) :=
  h.setBucket ha ((h.nodup p).erase a) fun _ => (h.nodup p).mem_erase_iff

theorem pop (h : Files b key) {l : List α} (hb : b.bucket p = a :: l) :
    Files (b.setBucket p l) (Function.update key a none) := by
  have hn : (a :: l).Nodup := by rw [← hb]; exact h.nodup p
  refine h.setBucket ((h.mem a p).mp (by simp [hb])) (List.nodup_cons.mp hn).2 fun x => ?_
  rw [hb, List.mem_cons]
  constructor
  · intro hx
    exact ⟨fun e => (List.nodup_cons.mp hn).1 (e ▸ hx), Or.inr hx⟩
  · rintro ⟨hne, rfl | hx⟩
    · exact absurd rfl hne
    · exact hx

omit [DecidableEq α] in
theorem le_of_key (h : Files b key) (hm : b.top = m + 1) (ha : key a = some p) : p ≤ m := by
  have hp : p ∈ b.mask := (h.mask p).mpr (List.ne_nil_of_mem ((h.mem a p).mpr ha))
  have : Nat.succ p ≤ b.top := Finset.le_sup (f := Nat.succ) hp
  omega

omit [DecidableEq α] in
/-- The bucket found through the mask is never empty. -/
theorem bucket_ne_nil (h : Files b key) (hm : b.top = m + 1) : b.bucket m ≠ [] := by
  rw [← h.mask]
  have hne : b.mask.Nonempty := by
    rw [Finset.nonempty_iff_ne_empty]
    intro he
    simp [Buckets.top, he] at hm
  obtain ⟨q, hq, he⟩ := Finset.exists_mem_eq_sup b.mask hne Nat.succ
  rw [Buckets.top, he] at hm
  rwa [← Nat.succ_injective hm]

omit [DecidableEq α] in
theorem top_eq_zero (h : Files b key) : b.top = 0 ↔ ∀ a, key a = none := by
  constructor
  · intro ht a
    cases ha : key a with
    | none => rfl
    | some p =>
      have hp : p ∈ b.mask := (h.mask p).mpr (List.ne_nil_of_mem ((h.mem a p).mpr ha))
      have : Nat.succ p ≤ b.top := Finset.le_sup (f := Nat.succ) hp
      omega
  · intro hk
    cases hm : b.top with
    | zero => rfl
    | succ m =>
      obtain ⟨a, ha⟩ := List.exists_mem_of_ne_nil _ (h.bucket_ne_nil hm)
      rw [h.mem, hk] at ha
      exact absurd ha (by simp)

end Files

end Bucketed
