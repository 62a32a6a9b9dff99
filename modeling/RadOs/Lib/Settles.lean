import Mathlib.Data.Nat.Basic
import Mathlib.Tactic.Basic

/-! # Computations indexed by an iteration budget

A loop whose termination is part of the question is a function of a budget. It
settles on a value if every large enough budget gives that value. Sequencing in
`Except` is the only combinator such loops need.
-/

namespace Budget
universe u v

/-- Every large enough budget gives the result `a`. -/
def Settles {α : Type*} (f : ℕ → α) (a : α) : Prop := ∃ N, ∀ n, N ≤ n → f n = a

variable {α β : Type u} {ε : Type v}

theorem settles_const (a : α) : Settles (fun _ => a) a := ⟨0, fun _ _ => rfl⟩

theorem settles_of_add {f : ℕ → α} {a : α} {k : ℕ} (h : ∀ n, f (n + k) = a) : Settles f a := by
  refine ⟨k, fun n hn => ?_⟩
  obtain ⟨m, rfl⟩ := Nat.exists_eq_add_of_le' hn
  exact h m

theorem Settles.unique {f : ℕ → α} {a b : α} (ha : Settles f a) (hb : Settles f b) : a = b := by
  obtain ⟨N, hN⟩ := ha
  obtain ⟨M, hM⟩ := hb
  rw [← hN (max N M) (le_max_left N M), hM (max N M) (le_max_right N M)]

theorem Settles.exists_eq {f : ℕ → α} {a : α} (h : Settles f a) : ∃ n, f n = a := by
  obtain ⟨N, hN⟩ := h
  exact ⟨N, hN N le_rfl⟩

theorem Settles.congr {f g : ℕ → α} {a : α} (h : Settles f a) (e : ∀ n, g n = f n) :
    Settles g a := by
  obtain ⟨N, hN⟩ := h
  exact ⟨N, fun n hn => (e n).trans (hN n hn)⟩

/-- One more iteration in front of a settled loop. -/
theorem Settles.of_succ {f g : ℕ → α} {a : α} (h : Settles g a) (e : ∀ n, f (n + 1) = g n) :
    Settles f a := by
  obtain ⟨N, hN⟩ := h
  refine ⟨N + 1, fun n hn => ?_⟩
  obtain ⟨m, rfl⟩ : ∃ m, n = m + 1 := ⟨n - 1, by omega⟩
  rw [e m, hN m (by omega)]

theorem Settles.bind {f : ℕ → Except ε α} {g : ℕ → α → Except ε β} {a : α} {r : Except ε β}
    (hf : Settles f (.ok a)) (hg : Settles (fun n => g n a) r) :
    Settles (fun n => f n >>= g n) r := by
  obtain ⟨N, hN⟩ := hf
  obtain ⟨M, hM⟩ := hg
  refine ⟨max N M, fun n hn => ?_⟩
  change (f n >>= g n) = r
  rw [hN n (by omega)]
  exact hM n (by omega)

/-- A sequence of two steps succeeds only if both do. -/
theorem bind_eq_ok {x : Except ε α} {f : α → Except ε β} {b : β} :
    (x >>= f) = .ok b ↔ ∃ a, x = .ok a ∧ f a = .ok b := by
  cases x with
  | error e => constructor <;> intro h <;> simp_all [Bind.bind, Except.bind]
  | ok a => simp [Bind.bind, Except.bind]

/-- A larger budget does not change a result. -/
def Steady (f : ℕ → Except ε α) : Prop := ∀ n m a, n ≤ m → f n = .ok a → f m = .ok a

theorem Steady.settles {f : ℕ → Except ε α} (hf : Steady f) {n : ℕ} {a : α} (h : f n = .ok a) :
    Settles f (.ok a) := ⟨n, fun _ hm => hf n _ a hm h⟩

theorem steady_const (x : Except ε α) : Steady fun _ => x := fun _ _ _ _ h => h

theorem Steady.bind {f : ℕ → Except ε α} {g : ℕ → α → Except ε β} (hf : Steady f)
    (hg : ∀ a, Steady fun n => g n a) : Steady fun n => f n >>= g n := by
  intro n m b hnm h
  obtain ⟨a, ha, hb⟩ := bind_eq_ok.mp h
  exact bind_eq_ok.mpr ⟨a, hf n m a hnm ha, hg a n m b hnm hb⟩

theorem Steady.ite {p : Prop} [Decidable p] {f g : ℕ → Except ε α} (hf : Steady f)
    (hg : Steady g) : Steady fun n => if p then f n else g n := by
  by_cases h : p
  · simpa [h] using hf
  · simpa [h] using hg

/-- A loop is steady if one more turn in front of a steady rest is. -/
theorem steady_of_succ {σ : Type*} {f : ℕ → σ → Except ε α} (h0 : ∀ s a, f 0 s ≠ .ok a)
    (hs : ∀ n s a, (∀ s a, f n s = .ok a → f (n + 1) s = .ok a) →
      f (n + 1) s = .ok a → f (n + 2) s = .ok a) (s : σ) : Steady fun n => f n s := by
  have h1 : ∀ n s a, f n s = .ok a → f (n + 1) s = .ok a := by
    intro n
    induction n with
    | zero => intro s a h; exact absurd h (h0 s a)
    | succ n ih => intro s a h; exact hs n s a ih h
  intro n m a hnm h
  induction hnm with
  | refl => exact h
  | step _ ih => exact h1 _ _ _ ih

end Budget
