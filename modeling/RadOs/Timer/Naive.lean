import RadOs.Timer.Basic
import RadOs.Lib.Run
import Mathlib.Order.Bounds.Basic

/-! # The naive timer model

What the timer module is for: every armed timer has an absolute deadline, a tick
runs the callbacks of the timers whose deadline has come, in the order in which
they were armed, and arms the auto-reload timers among them again. The
observable history of a run tells when each timer was created and on which ticks
it fired.
-/

namespace RadOs
open Runs

/-- One armed timer with the tick it is due on. -/
structure Deadline (τ : Type) where
  timer : τ
  due : ℕ
  reload : ℕ

/-- `armed` is kept in the order of arming. -/
structure NaiveTimers (τ : Type) where
  now : ℕ
  armed : List (Deadline τ)
  history : List (TimerEvent τ)

/-- A call of the timer interface from outside `timer_trigger`. The callbacks that run in a tick
destroy the timers `stops t` when `t` fires. -/
inductive TimerCall (τ π : Type) where
  | create (timer : τ) (proc : π) (timeout reload : ℕ)
  | destroy (timer : τ)
  | tick (stops : τ → List τ)

variable {τ π : Type} [DecidableEq τ]

namespace NaiveTimers

def init : NaiveTimers τ := ⟨0, [], []⟩

def create (t : τ) (timeout reload : ℕ) (n : NaiveTimers τ) : NaiveTimers τ :=
  { n with
    armed := n.armed ++ [⟨t, n.now + timeout, reload⟩]
    history := .create t timeout reload :: n.history }

def destroy (t : τ) (n : NaiveTimers τ) : NaiveTimers τ :=
  { n with
    armed := n.armed.filter fun e => e.timer ≠ t
    history := .destroy t :: n.history }

/-- The timers due on the next tick. -/
def expiring (n : NaiveTimers τ) : List (Deadline τ) := n.armed.filter fun e => e.due = n.now + 1

def tick (n : NaiveTimers τ) : NaiveTimers τ where
  now := n.now + 1
  armed := (n.armed.filter fun e => e.due ≠ n.now + 1) ++
    (n.expiring.filter fun e => 0 < e.reload).map fun e =>
      { e with due := n.now + 1 + e.reload }
  history := ((n.expiring.map Deadline.timer).map .fire).reverse ++ .tick :: n.history

/-- A step of the naive model. Only a timer that is not armed is created. -/
inductive Step (n : NaiveTimers τ) : TimerCall τ π → NaiveTimers τ → Prop
  | create {t : τ} (proc : π) {timeout reload : ℕ} (h : 0 < timeout)
      (ht : ∀ e ∈ n.armed, e.timer ≠ t) :
      Step n (.create t proc timeout reload) (n.create t timeout reload)
  | destroy {t : τ} : Step n (.destroy t) (n.destroy t)
  | tick : Step n (.tick fun _ => []) n.tick

end NaiveTimers

/-- The naive timer model as a transition system. -/
def naiveTimers (τ π : Type) [DecidableEq τ] : System (NaiveTimers τ) (TimerCall τ π) where
  start n := n = .init
  step := NaiveTimers.Step

section History

/-- The tick `m` is one on which a timer created at tick `k` with `timeout` and `reload` fires. -/
def OnSchedule (k timeout reload m : ℕ) : Prop :=
  m = k + timeout ∨ 0 < reload ∧ ∃ j, 1 ≤ j ∧ m = k + timeout + j * reload

/-- The tick, timeout and reload value of the creation of `t`, unless it was destroyed since. -/
def lastCreate (t : τ) : List (TimerEvent τ) → Option (ℕ × ℕ × ℕ)
  | [] => none
  | .create x timeout reload :: h =>
    if x = t then some (h.count .tick, timeout, reload) else lastCreate t h
  | .destroy x :: h => if x = t then none else lastCreate t h
  | _ :: h => lastCreate t h

/-- The timers that fired on tick `m`, in the order in which they did. -/
def firedOn (m : ℕ) : List (TimerEvent τ) → List τ
  | [] => []
  | .fire t :: h => if h.count .tick = m then firedOn m h ++ [t] else firedOn m h
  | _ :: h => firedOn m h

/-- The history before tick `m`. -/
def beforeTick (m : ℕ) : List (TimerEvent τ) → List (TimerEvent τ)
  | [] => []
  | e :: h => if (e :: h).count .tick < m then e :: h else beforeTick m h

/-- The moment at which `t` was last armed, by its creation or by firing. -/
def armedAt (t : τ) : List (TimerEvent τ) → ℕ
  | [] => 0
  | .create x _ _ :: h => if x = t then h.length + 1 else armedAt t h
  | .fire x :: h => if x = t then h.length + 1 else armedAt t h
  | _ :: h => armedAt t h

instance (k timeout reload m : ℕ) : Decidable (OnSchedule k timeout reload m) :=
  decidable_of_iff
    (m = k + timeout ∨ 0 < reload ∧ k + timeout < m ∧ (m - (k + timeout)) % reload = 0) <| by
    refine or_congr_right (and_congr_right fun hr => ⟨fun ⟨hlt, hmod⟩ => ?_, ?_⟩)
    · obtain ⟨j, hj⟩ := Nat.dvd_of_mod_eq_zero hmod
      have hj0 : j ≠ 0 := by
        rintro rfl
        omega
      exact ⟨j, by omega, by rw [Nat.mul_comm]; omega⟩
    · rintro ⟨j, hj, rfl⟩
      have : 0 < j * reload := Nat.mul_pos hj hr
      exact ⟨by omega, by rw [Nat.add_sub_cancel_left]; exact Nat.mul_mod_left j reload⟩

theorem onSchedule_first {k timeout reload : ℕ} (h : 0 < timeout) :
    IsLeast {m | k < m ∧ OnSchedule k timeout reload m} (k + timeout) := by
  refine ⟨⟨by omega, .inl rfl⟩, fun m hm => ?_⟩
  rcases hm.2 with rfl | ⟨_, j, _, rfl⟩
  · exact le_rfl
  · exact Nat.le_add_right _ _

/-- An auto-reload timer is due again one reload time after it fired. -/
theorem onSchedule_next {k timeout reload a : ℕ} (ha : OnSchedule k timeout reload a)
    (hr : 0 < reload) : IsLeast {m | a < m ∧ OnSchedule k timeout reload m} (a + reload) := by
  obtain ⟨i, rfl⟩ : ∃ i, a = k + timeout + i * reload := by
    rcases ha with rfl | ⟨_, j, _, rfl⟩
    · exact ⟨0, by simp⟩
    · exact ⟨j, rfl⟩
  refine ⟨⟨by omega, .inr ⟨hr, i + 1, by omega, by rw [Nat.succ_mul]; omega⟩⟩, fun m hm => ?_⟩
  rcases hm with ⟨hlt, rfl | ⟨_, j, _, rfl⟩⟩
  · omega
  · have hij : i < j := by
      by_contra hle
      have := Nat.mul_le_mul_right reload (Nat.le_of_not_lt hle)
      omega
    have := Nat.mul_le_mul_right reload hij
    rw [Nat.succ_mul] at this
    omega

theorem onSchedule_last {k timeout a m : ℕ} (ha : OnSchedule k timeout 0 a)
    (hm : OnSchedule k timeout 0 m) : m = a := by
  simp only [OnSchedule, Nat.lt_irrefl, false_and, or_false] at ha hm
  rw [ha, hm]

theorem isLeast_after_succ {p : ℕ → Prop} {a d : ℕ} (h : ¬p (a + 1)) :
    IsLeast {m | a + 1 < m ∧ p m} d ↔ IsLeast {m | a < m ∧ p m} d := by
  have hset : {m | a + 1 < m ∧ p m} = {m | a < m ∧ p m} := by
    ext m
    simp only [Set.mem_ofPred_eq]
    constructor
    · exact fun hm => ⟨by omega, hm.2⟩
    · refine fun hm => ⟨?_, hm.2⟩
      by_contra hle
      have : m = a + 1 := by omega
      exact h (this ▸ hm.2)
  rw [hset]

variable {h : List (TimerEvent τ)} {L : List τ} {t : τ} {m : ℕ}

theorem count_tick_fires : ((L.map TimerEvent.fire).reverse ++ h).count .tick = h.count .tick := by
  induction L generalizing h with
  | nil => rfl
  | cons x L ih =>
    simp only [List.map_cons, List.reverse_cons, List.append_assoc, List.singleton_append, ih]
    rw [List.count_cons_of_ne (by simp)]

theorem lastCreate_fires :
    lastCreate t ((L.map TimerEvent.fire).reverse ++ h) = lastCreate t h := by
  induction L generalizing h with
  | nil => rfl
  | cons x L ih =>
    simp only [List.map_cons, List.reverse_cons, List.append_assoc, List.singleton_append, ih]
    rfl

theorem firedOn_fires : firedOn m ((L.map TimerEvent.fire).reverse ++ h) =
    if h.count .tick = m then firedOn m h ++ L else firedOn m h := by
  induction L generalizing h with
  | nil => simp
  | cons x L ih =>
    simp only [List.map_cons, List.reverse_cons, List.append_assoc, List.singleton_append, ih]
    rw [List.count_cons_of_ne (by simp), firedOn]
    split <;> simp

theorem firedOn_of_lt (hm : h.count .tick < m) : firedOn m h = [] := by
  induction h with
  | nil => rfl
  | cons e h ih =>
    have hle : h.count .tick ≤ (e :: h).count .tick := List.count_le_count_cons
    have hrest := ih (by omega)
    cases e with
    | fire x =>
      rw [firedOn, if_neg (by omega)]
      exact hrest
    | tick => exact hrest
    | create x a b => exact hrest
    | destroy x => exact hrest

theorem beforeTick_of_lt (hm : h.count .tick < m) : beforeTick m h = h := by
  cases h with
  | nil => rfl
  | cons e h => rw [beforeTick, if_pos hm]

theorem beforeTick_cons_of_le {e : TimerEvent τ} (hm : m ≤ (e :: h).count .tick) :
    beforeTick m (e :: h) = beforeTick m h := by
  rw [beforeTick, if_neg (by omega)]

theorem beforeTick_fires (hm : m ≤ h.count .tick) :
    beforeTick m ((L.map TimerEvent.fire).reverse ++ h) = beforeTick m h := by
  induction L generalizing h with
  | nil => rfl
  | cons x L ih =>
    have hx : m ≤ (TimerEvent.fire x :: h).count .tick := by
      rwa [List.count_cons_of_ne (by simp)]
    simp only [List.map_cons, List.reverse_cons, List.append_assoc, List.singleton_append]
    rw [ih hx, beforeTick_cons_of_le hx]

theorem armedAt_le (t : τ) (h : List (TimerEvent τ)) : armedAt t h ≤ h.length := by
  induction h with
  | nil => exact le_rfl
  | cons e h ih =>
    cases e with
    | tick => exact Nat.le_succ_of_le ih
    | destroy x => exact Nat.le_succ_of_le ih
    | fire x =>
      rw [armedAt]
      split
      · exact le_rfl
      · exact Nat.le_succ_of_le ih
    | create x a b =>
      rw [armedAt]
      split
      · exact le_rfl
      · exact Nat.le_succ_of_le ih

theorem armedAt_fires_of_notMem (ht : t ∉ L) :
    armedAt t ((L.map TimerEvent.fire).reverse ++ h) = armedAt t h := by
  induction L generalizing h with
  | nil => rfl
  | cons x L ih =>
    have hx : x ≠ t := fun e => ht (by simp [e])
    simp only [List.map_cons, List.reverse_cons, List.append_assoc, List.singleton_append]
    rw [ih fun e => ht (List.mem_cons_of_mem x e), armedAt, if_neg hx]

/-- Timers that fire one after another are armed in that order, later than everything before. -/
theorem armedAt_fires (hL : L.Nodup) :
    (∀ a ∈ L, h.length < armedAt a ((L.map TimerEvent.fire).reverse ++ h)) ∧
      L.Pairwise fun a b => armedAt a ((L.map TimerEvent.fire).reverse ++ h) <
        armedAt b ((L.map TimerEvent.fire).reverse ++ h) := by
  induction L generalizing h with
  | nil => simp
  | cons x L ih =>
    obtain ⟨hx, hL⟩ := List.nodup_cons.mp hL
    obtain ⟨habove, hpair⟩ := ih (h := .fire x :: h) hL
    have hself : armedAt x ((L.map TimerEvent.fire).reverse ++ .fire x :: h) = h.length + 1 := by
      rw [armedAt_fires_of_notMem hx, armedAt, if_pos rfl]
    simp only [List.map_cons, List.reverse_cons, List.append_assoc, List.singleton_append]
    refine ⟨fun a ha => ?_, List.pairwise_cons.mpr ⟨fun a ha => ?_, hpair⟩⟩
    · rcases List.mem_cons.mp ha with rfl | ha
      · omega
      · have := habove a ha
        simp only [List.length_cons] at this
        omega
    · rw [hself]
      exact habove a ha

omit [DecidableEq τ] in
theorem suffix_fires {h₁ : List (TimerEvent τ)}
    (hs : .fire t :: h₁ <:+ (L.map TimerEvent.fire).reverse ++ h) :
    (t ∈ L ∧ ∃ L₁ : List τ, h₁ = (L₁.map TimerEvent.fire).reverse ++ h) ∨ .fire t :: h₁ <:+ h := by
  induction L generalizing h with
  | nil => exact .inr (by simpa using hs)
  | cons x L ih =>
    simp only [List.map_cons, List.reverse_cons, List.append_assoc, List.singleton_append] at hs
    rcases ih hs with ⟨ht, L₁, rfl⟩ | hs
    · exact .inl ⟨List.mem_cons_of_mem x ht, x :: L₁, by simp⟩
    · rcases List.suffix_cons_iff.mp hs with he | hs
      · simp only [List.cons.injEq, TimerEvent.fire.injEq] at he
        exact .inl ⟨by simp [he.1], [], by simp [he.2]⟩
      · exact .inr hs

end History

end RadOs
