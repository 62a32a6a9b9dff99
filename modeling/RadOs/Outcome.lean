import RadOs.Lib.Settles

/-! # Outcomes of kernel code

`OS_ASSERT` stops the machine in `os_halt`, so a failed assertion is an outcome
without a successor state. The other two outcomes are the use of memory that
does not hold the object the code expects there, and an iteration budget that
is used up before the loop is left.
-/

namespace RadOs
open Budget

inductive Fault where
  | halt
  | wild
  | spin
  deriving DecidableEq, Repr

abbrev Outcome := Except Fault

/-- `OS_ASSERT` and `OS_SELFCHECK_ASSERT`, both enabled in `os_config.h`. -/
def osAssert (p : Prop) [Decidable p] : Outcome Unit := if p then .ok () else .error .halt

@[simp] theorem osAssert_eq_ok {p : Prop} [Decidable p] {u : Unit} :
    osAssert p = .ok u ↔ p := by
  unfold osAssert
  split <;> simp_all

theorem osAssert_pos {p : Prop} [Decidable p] (h : p) : osAssert p = .ok () := if_pos h

@[simp] theorem Outcome.pure_eq {α : Type} (a : α) : (pure a : Outcome α) = .ok a := rfl

@[simp] theorem Outcome.ok_bind {α β : Type} (a : α) (f : α → Outcome β) :
    ((Except.ok a : Outcome α) >>= f) = f a := rfl

@[simp] theorem Outcome.error_bind {α β : Type} (e : Fault) (f : α → Outcome β) :
    ((Except.error e : Outcome α) >>= f) = .error e := rfl

/-- Peel the first step off a successful sequence. -/
theorem Outcome.bind_ok {α β : Type} {x : Outcome α} {f : α → Outcome β} {b : β}
    (h : (x >>= f) = .ok b) : ∃ a, x = .ok a ∧ f a = .ok b :=
  bind_eq_ok.mp h

/-- Behind an assertion its condition holds. -/
theorem Outcome.assert_ok {β : Type} {p : Prop} [Decidable p] {f : Unit → Outcome β} {b : β}
    (h : (osAssert p >>= f) = .ok b) : p ∧ f () = .ok b := by
  obtain ⟨⟨⟩, hp, hf⟩ := bind_ok h
  exact ⟨osAssert_eq_ok.mp hp, hf⟩

/-- A test of the result of a successful computation. -/
def Outcome.holds {α : Type} (x : Outcome α) (p : α → Bool) : Bool :=
  match x with
  | .ok a => p a
  | .error _ => false

theorem Outcome.exists_of_holds {α : Type} {x : Outcome α} {p : α → Bool}
    (h : x.holds p = true) : ∃ a, x = .ok a ∧ p a = true := by
  cases x with
  | ok a => exact ⟨a, rfl, h⟩
  | error e => cases h

end RadOs
