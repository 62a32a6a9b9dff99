import RadOs.Lib.Descending

/-! # Tasks that take turns

Every task has a stack of its own, and its context lies there in a frame while
it waits for the CPU. The code of interrupts runs on the stack in use, one frame
below the other. A write to one stack harms no frame on another, and a write
below the innermost frame harms none at all.
-/

namespace Turns
open Descending

variable {w : ℕ} {β C T : Type*}

/-- How a context is kept on a stack. -/
structure Layout (w : ℕ) (β C : Type*) where
  size : ℕ
  /-- what is saved, upwards -/
  frame : C → List β
  length_frame : ∀ c, (frame c).length = size
  /-- the next free cell of the stack that the context uses -/
  free : C → BitVec w

/-- A task has the stack above `bottom`, up to `top`. -/
structure Stacks (T : Type*) (w : ℕ) where
  bottom : T → BitVec w
  top : T → BitVec w
  disjoint : ∀ t t', t ≠ t' →
    (top t).toNat ≤ (bottom t').toNat ∨ (top t').toNat ≤ (bottom t).toNat

/-- The cell belongs to the stack of the task. -/
def Stacks.Owns (L : Stacks T w) (t : T) (a : BitVec w) : Prop :=
  (L.bottom t).toNat < a.toNat ∧ a.toNat ≤ (L.top t).toNat

theorem Stacks.not_owns {L : Stacks T w} {t t' : T} {a : BitVec w} (hne : t ≠ t')
    (ha : L.Owns t' a) : ¬ L.Owns t a := by
  rintro ⟨h₁, h₂⟩
  obtain ⟨h₃, h₄⟩ := ha
  have := L.disjoint t t' hne
  omega

namespace Layout
variable (F : Layout w β C) {mem mem' : BitVec w → β} {q a : BitVec w} {c : C}

/-- The stack is free from here on downwards once the context is saved. -/
def base (c : C) : BitVec w := F.free c - BitVec.ofNat w F.size

/-- The cells of the frame above `q`. -/
def Inside (q a : BitVec w) : Prop := q.toNat < a.toNat ∧ a.toNat ≤ q.toNat + F.size

/-- The context is saved above `q`. -/
structure Framed (mem : BitVec w → β) (q : BitVec w) (c : C) : Prop where
  above : Above mem q (F.frame c)
  free : F.free c = q + BitVec.ofNat w F.size

variable {F}

theorem toNat_size (h : F.size < 2 ^ w) : (BitVec.ofNat w F.size).toNat = F.size := by
  rw [BitVec.toNat_ofNat, Nat.mod_eq_of_lt h]

theorem toNat_base (h : F.size ≤ (F.free c).toNat) :
    (F.base c).toNat = (F.free c).toNat - F.size := by
  have hs := toNat_size (Nat.lt_of_le_of_lt h (F.free c).isLt)
  rw [base, BitVec.toNat_sub_of_le (by rwa [BitVec.le_def, hs]), hs]

theorem Framed.toNat_free (h : F.Framed mem q c) (hq : q.toNat + F.size < 2 ^ w) :
    (F.free c).toNat = q.toNat + F.size := by
  have hs := toNat_size (F := F) (w := w) (by omega)
  rw [h.free, BitVec.toNat_add_of_lt (by omega), hs]

theorem Framed.congr (h : F.Framed mem q c) (hq : q.toNat + F.size < 2 ^ w)
    (hm : ∀ a, F.Inside q a → mem' a = mem a) : F.Framed mem' q c := by
  refine ⟨h.above.congr (by rwa [F.length_frame]) fun a h₁ h₂ => ?_, h.free⟩
  rw [F.length_frame] at h₂
  exact hm a ⟨h₁, h₂⟩

/-- A context that is pushed lies in a frame. -/
theorem framed_store (mem : BitVec w → β) (h : F.size ≤ (F.free c).toNat) :
    F.Framed (store mem (F.free c) (F.frame c).reverse) (F.base c) c := by
  have hl : (F.frame c).reverse.length = F.size := by rw [List.length_reverse, F.length_frame]
  have hp : (F.frame c).reverse.length ≤ (F.free c).toNat := by rwa [hl]
  have ha := above_store mem hp
  rw [List.reverse_reverse, hl] at ha
  exact ⟨ha, (BitVec.sub_add_cancel _ _).symm⟩

end Layout

variable {F : Layout w β C} {L : Stacks T w} {mem mem' : BitVec w → β} {free : T → BitVec w}
  {σ : T → Option C} {t : T} {q a : BitVec w} {c : C} {l : List C} {bottom top : ℕ}

/-! ## The tasks that wait -/

/-- Every task that waits has its frame on its stack. -/
def Saved (F : Layout w β C) (L : Stacks T w) (mem : BitVec w → β) (free : T → BitVec w)
    (σ : T → Option C) : Prop :=
  ∀ t c, σ t = some c → (L.bottom t).toNat ≤ (free t).toNat ∧
    (free t).toNat + F.size ≤ (L.top t).toNat ∧ F.Framed mem (free t) c

theorem Saved.congr (h : Saved F L mem free σ)
    (hm : ∀ t, σ t ≠ none → ∀ a, F.Inside (free t) a → mem' a = mem a) :
    Saved F L mem' free σ := by
  intro t c hc
  obtain ⟨hb, ht, hf⟩ := h t c hc
  have hne : σ t ≠ none := by simp [hc]
  exact ⟨hb, ht, hf.congr (Nat.lt_of_le_of_lt ht (L.top t).isLt) (hm t hne)⟩

theorem Saved.owns (h : Saved F L mem free σ) (ht : σ t = some c) (ha : F.Inside (free t) a) :
    L.Owns t a := by
  obtain ⟨hb, htop, -⟩ := h t c ht
  exact ⟨Nat.lt_of_le_of_lt hb ha.1, Nat.le_trans ha.2 htop⟩

variable [DecidableEq T]

/-- A task is put aside. Nothing was written but to its own stack. -/
theorem Saved.put (h : Saved F L mem free σ) (hm : ∀ a, ¬ L.Owns t a → mem' a = mem a)
    (hb : (L.bottom t).toNat ≤ q.toNat) (ht : q.toNat + F.size ≤ (L.top t).toNat)
    (hc : F.Framed mem' q c) :
    Saved F L mem' (Function.update free t q) (Function.update σ t (some c)) := by
  intro t' c' hc'
  by_cases he : t' = t
  · subst he
    rw [Function.update_self] at hc' ⊢
    cases hc'
    exact ⟨hb, ht, hc⟩
  · rw [Function.update_of_ne he] at hc' ⊢
    obtain ⟨hb', ht', hf⟩ := h t' c' hc'
    have hq := Nat.lt_of_le_of_lt ht' (L.top t').isLt
    exact ⟨hb', ht', hf.congr hq fun a ha => hm a (L.not_owns (Ne.symm he) (h.owns hc' ha))⟩

/-- A task is taken up again. Nothing was written but to its own stack. -/
theorem Saved.take (h : Saved F L mem free σ) (hm : ∀ a, ¬ L.Owns t a → mem' a = mem a) :
    Saved F L mem' free (Function.update σ t none) := by
  intro t' c' hc'
  by_cases he : t' = t
  · subst he
    rw [Function.update_self] at hc'
    cases hc'
  · rw [Function.update_of_ne he] at hc'
    obtain ⟨hb', ht', hf⟩ := h t' c' hc'
    have hq := Nat.lt_of_le_of_lt ht' (L.top t').isLt
    exact ⟨hb', ht', hf.congr hq fun a ha => hm a (L.not_owns (Ne.symm he) (h.owns hc' ha))⟩

/-- The saved stack pointer of a task that does not wait says nothing. -/
theorem Saved.unused (h : Saved F L mem free σ) (ht : σ t = none) :
    Saved F L mem (Function.update free t q) σ := by
  intro t' c' hc'
  have hne : t' ≠ t := by
    rintro rfl
    rw [ht] at hc'
    cases hc'
  rw [Function.update_of_ne hne]
  exact h t' c' hc'

/-! ## The frames on the stack in use -/

omit [DecidableEq T]

/-- How far the stack in use may be emptied. -/
def roof (F : Layout w β C) (top : ℕ) : List C → ℕ
  | [] => top
  | c :: _ => (F.base c).toNat

/-- The frames lie one below the other, the innermost first. -/
def Layered (F : Layout w β C) (mem : BitVec w → β) (bottom top : ℕ) : List C → Prop
  | [] => True
  | c :: l => bottom + F.size ≤ (F.free c).toNat ∧ (F.free c).toNat ≤ roof F top l ∧
      F.Framed mem (F.base c) c ∧ Layered F mem bottom top l

theorem Layered.roof_le (h : Layered F mem bottom top l) : roof F top l ≤ top := by
  induction l with
  | nil => exact Nat.le_refl _
  | cons c l ih =>
    obtain ⟨hb, ht, -, hl⟩ := h
    have hq := Layout.toNat_base (F := F) (c := c) (by omega)
    have := ih hl
    rw [roof]
    omega

/-- Each frame lies above the innermost one and below the top. -/
theorem Layered.bounds (h : Layered F mem bottom top l) (hc : c ∈ l) :
    roof F top l ≤ (F.base c).toNat ∧ bottom ≤ (F.base c).toNat ∧
      (F.base c).toNat + F.size ≤ top := by
  induction l with
  | nil => cases hc
  | cons c' l ih =>
    obtain ⟨hb, ht, -, hl⟩ := h
    have hq := Layout.toNat_base (F := F) (c := c') (by omega)
    have hr := hl.roof_le
    rw [roof]
    rcases List.mem_cons.mp hc with rfl | hc
    · omega
    · have := ih hl hc
      omega

theorem Layered.congr (h : Layered F mem bottom top l) (ht : top < 2 ^ w)
    (hm : ∀ c ∈ l, ∀ a, F.Inside (F.base c) a → mem' a = mem a) :
    Layered F mem' bottom top l := by
  induction l with
  | nil => trivial
  | cons c l ih =>
    have hb := h.bounds (List.mem_cons_self ..)
    obtain ⟨hlow, hroof, hc, hl⟩ := h
    refine ⟨hlow, hroof, hc.congr (Nat.lt_of_le_of_lt hb.2.2 ht) ?_, ih hl fun c' hc' => ?_⟩
    · exact hm c (List.mem_cons_self ..)
    · exact hm c' (List.mem_cons_of_mem _ hc')

/-- A stack has room for so many frames only. -/
theorem Layered.size_mul_length_le (h : Layered F mem bottom top l) :
    roof F top l + F.size * l.length ≤ top := by
  induction l with
  | nil => exact Nat.le_refl _
  | cons c l ih =>
    obtain ⟨hlow, hroof, -, hl⟩ := h
    have hq := Layout.toNat_base (F := F) (c := c) (by omega)
    have := ih hl
    rw [List.length_cons, Nat.mul_add, Nat.mul_one, roof]
    omega

end Turns
