import RadOs.Kernel.Play
import RadOs.Kernel.Timeouts

/-! # Elapsed time

`os_tick` counts in a variable of the type `arch_ticks_t`, which has 16 bits in
two ports and 64 in the third, while `os_ticks_diff` corrects an overflow by the
constant `OS_TICKS_MAX`, which is the same in all of them.
-/

namespace RadOs
open Bucketed Runs Budget

/-- The ports of the kernel. -/
inductive Arch where
  | avr
  | msp430
  | linux
  deriving DecidableEq, Repr

/-- The width of `arch_ticks_t`: `uint16_t`, and `uint_fast16_t` on Linux. -/
def Arch.ticksWidth : Arch → ℕ
  | .avr | .msp430 => 16
  | .linux => 64

/-- `(arch_ticks_t)UINT16_MAX` -/
def archTicksMax (w : ℕ) : BitVec w := .ofNat w osTicksMax

def osTicksDiff {w : ℕ} (ticksStart ticksEnd : BitVec w) : BitVec w :=
  if ticksEnd < ticksStart then archTicksMax w - ticksStart + 1 + ticksEnd
  else ticksEnd - ticksStart

section Width
variable {w : ℕ}

/-- An overflow is corrected if the counter has `OS_TICKS_MAX + 1` values. -/
theorem osTicksDiff_add_iff (hw : 16 ≤ w) (a : BitVec w) {n : ℕ} (hn : n < osTicksMax) :
    (osTicksDiff a (a + .ofNat w n)).toNat = n ↔ w = 16 ∨ a.toNat + n < 2 ^ w := by
  have hpow : 2 ^ 16 ≤ 2 ^ w := Nat.pow_le_pow_right (by decide) hw
  have hmax : osTicksMax + 1 = 2 ^ 16 := by decide
  have hnw : (BitVec.ofNat w n).toNat = n := by
    rw [BitVec.toNat_ofNat, Nat.mod_eq_of_lt (by omega)]
  have ha := a.isLt
  by_cases hover : a.toNat + n < 2 ^ w
  · refine iff_of_true ?_ (Or.inr hover)
    have hle : ¬ a + .ofNat w n < a := by
      rw [BitVec.lt_def, BitVec.toNat_add, hnw, Nat.mod_eq_of_lt hover]
      omega
    have hsub : a + .ofNat w n - a = .ofNat w n := by grind
    rw [osTicksDiff, if_neg hle, hsub, hnw]
  · have hlt : a + .ofNat w n < a := by
      rw [BitVec.lt_def, BitVec.toNat_add, hnw, Nat.mod_eq_sub_mod (by omega),
        Nat.mod_eq_of_lt (by omega)]
      omega
    have hdiff : osTicksDiff a (a + .ofNat w n) = .ofNat w (2 ^ 16 + n) := by
      rw [osTicksDiff, if_pos hlt, archTicksMax]
      have hsum : BitVec.ofNat w (2 ^ 16 + n) = .ofNat w osTicksMax + 1 + .ofNat w n := by
        rw [← hmax, BitVec.ofNat_add, BitVec.ofNat_add]
        rfl
      rw [hsum]
      grind
    rw [hdiff, BitVec.toNat_ofNat]
    constructor
    · intro h
      refine Or.inl (le_antisymm ?_ hw)
      by_contra hgt
      have hbig : 2 ^ 17 ≤ 2 ^ w := Nat.pow_le_pow_right (by decide) (by omega)
      rw [Nat.mod_eq_of_lt (by omega)] at h
      omega
    · rintro (rfl | h)
      · omega
      · exact absurd h hover

end Width

/-! ## The counter of the kernel -/

section Timers
variable {τ π : Type} [DecidableEq τ] {s s' : Timers τ π} {t : τ}

theorem osTimerCreate_ticksCnt {n timeout reload : ℕ} {proc : π}
    (h : osTimerCreate n t proc timeout reload s = .ok s') : s'.ticksCnt = s.ticksCnt := by
  obtain ⟨-, h⟩ := Outcome.assert_ok h
  obtain ⟨-, h⟩ := Outcome.assert_ok h
  obtain ⟨-, h⟩ := Outcome.assert_ok h
  have hadd := timerAdd_ticksCnt h
  exact hadd

theorem osTimerDestroy_ticksCnt (h : osTimerDestroy t s = .ok s') : s'.ticksCnt = s.ticksCnt := by
  obtain ⟨hm, hd⟩ := Outcome.assert_ok h
  have hmade : s.Made t := by
    rintro ho
    simp [ho] at hm
  rw [osTimerDestroy_eq hmade, Except.ok.injEq] at h
  rw [← h, destroyed_ticksCnt]

end Timers

section Steps
variable [Port] {k k₁ k' : Kernel} {i : Action} {r : Option Ret} {n : ℕ} {a : Kind}

def Kernel.ticksCnt (k : Kernel) : ℕ := k.timers.ticksCnt

omit [Port] in
theorem Move.ticksCnt_eq (h : Move a k k') (ha : a ≠ .timers) : k'.ticksCnt = k.ticksCnt := by
  by_cases hw : ∃ t Q c, a = .wake t Q c
  · obtain ⟨t, Q, c, rfl⟩ := hw
    cases h with
    | wake hQ hr hu ht h =>
      obtain ⟨q, rfl, -, -⟩ := h
      obtain ⟨-, rfl⟩ | ⟨y, -, hd, -⟩ := hu
      · rfl
      · exact osTimerDestroy_ticksCnt hd
  · exact congrArg Timers.ticksCnt (h.timers_eq ha fun t Q c he => hw ⟨t, Q, c, he⟩)

omit [Port] in
theorem Path.ticksCnt_eq {D : Kind → Prop} (h : Path D k k') (hD : ¬ D .timers) :
    k'.ticksCnt = k.ticksCnt := by
  refine h.invariant (I := fun k' => k'.ticksCnt = k.ticksCnt) (fun a k₁ k₂ ha hk hm => ?_) rfl
  refine (hm.ticksCnt_eq ?_).trans hk
  rintro rfl
  exact hD ha

omit [Port] in
theorem Placed.Timed.ticksCnt_eq {proc : TimerProc} {T : ℕ} (h : Placed.Timed n proc T k k') :
    k'.ticksCnt = k.ticksCnt := by
  obtain ⟨-, rfl⟩ | ⟨x, -, -, hx, rfl⟩ := h
  · rfl
  · exact osTimerCreate_ticksCnt hx

omit [Port] in
theorem blockedReturn_ticksCnt {c : RetCode} (h : blockedReturn k = .ok (k', c)) :
    k'.ticksCnt = k.ticksCnt := by
  obtain ⟨x, hu, rfl, -⟩ := blockedReturn_ok h
  obtain ⟨-, rfl⟩ | ⟨y, -, hd, -⟩ := hu
  · rfl
  · exact osTimerDestroy_ticksCnt hd

omit [Port] in
theorem resume_ticksCnt (hp : Placed k) (hi : Action.timing k .resume = true)
    (h : resume n k = .ok (k', r)) : k'.ticksCnt = k.ticksCnt := by
  unfold resume at h
  split at h
  case h_9 s hc | h_10 q hc =>
    all_goals
      obtain ⟨⟨k₁, c⟩, hb, h⟩ := Outcome.bind_ok h
      cases h
      have hbr := blockedReturn_ticksCnt hb
      exact hbr
  case h_12 t hc =>
    obtain ⟨⟨k₁, c⟩, hb, h⟩ := Outcome.bind_ok h
    obtain ⟨hpath, -, hctx⟩ := blockedReturn_path hb
    have hend := ((hpath.placed hp).joinDestroyed (hctx.trans hc) h).path.ticksCnt_eq
      (by simp [Placed.JoinEnd])
    exact hend.trans (blockedReturn_ticksCnt hb)
  all_goals simp_all [Action.timing]

omit [Port] in
theorem osTick_ticksCnt (hp : Placed k) (h : osTick n k = .ok k') :
    k'.ticksCnt = ticksAdd k.ticksCnt 1 := by
  obtain ⟨-, k₁, ht, -, hsch⟩ := hp.tick h
  have hsw := (hsch.path (D := fun a => a = .switch) rfl).ticksCnt_eq (by simp)
  have hcnt := osTickTimers_counted
    (P := fun k' => Placed k' ∧ k'.ticksCnt = ticksAdd k.ticksCnt 1)
    (fun x s hx ⟨hs, hc⟩ => ⟨(Placed.setTimers_move x s).placed hs, hx.trans hc⟩)
    (fun t s s' ⟨hs, hc⟩ hr => ?_) ht fun x hx => ⟨(Placed.setTimers_move x k).placed hp, hx⟩
  · exact hsw.trans hcnt.2
  · obtain ⟨rfl, -⟩ | ⟨u, Q, hm, -⟩ := hs.timerClbck hr
    · exact ⟨hs, hc⟩
    · exact ⟨hm.placed hs, (hm.ticksCnt_eq (by simp)).trans hc⟩

/-- The step lemma. -/
theorem ticksCnt_step (hs : Sound k) (hsane : Sane k i) (h : exec n i k = .ok (k', r)) :
    k'.ticksCnt = if i = .call .tick then ticksAdd k.ticksCnt 1 else k.ticksCnt := by
  by_cases hi : i.timing k = false
  · rw [if_neg (by rintro rfl; cases hi)]
    exact (exec_path hs.placed hs.owned hsane h).ticksCnt_eq
      fun hd => (does_untimed hi _ hd).1 rfl
  · cases i with
    | resume => exact resume_ticksCnt hs.placed (by simpa using hi) h
    | isrEnter => simp [Action.timing] at hi
    | isrExit => simp [Action.timing] at hi
    | call c =>
      cases c with
      | semDown s T =>
        obtain ⟨c, hx, -⟩ := coded_ok h
        obtain ⟨-, ⟨-, -, rfl⟩ | ⟨-, -, -, rfl⟩ | ⟨-, -, k₁, ht, hb⟩⟩ :=
          hs.placed.semDown hx ⟨rfl, by simp⟩
        · rfl
        · rfl
        · exact (hb.ticksCnt_eq (by simp)).trans ht.ticksCnt_eq
      | waitqueueWait T =>
        obtain ⟨c, hx, -⟩ := coded_ok h
        obtain ⟨-, -, -, ⟨-, -, rfl⟩ | ⟨q, k₁, -, -, ht, hb⟩⟩ := hs.placed.waitqueueWait hx
        · rfl
        · exact (hb.ticksCnt_eq (by simp)).trans ht.ticksCnt_eq
      | timerCreate m T R =>
        obtain ⟨y, hy, hx⟩ := Outcome.bind_ok (quiet_ok h).1
        cases hx
        exact osTimerCreate_ticksCnt hy
      | timerDestroy m =>
        obtain ⟨y, hy, hx⟩ := Outcome.bind_ok (quiet_ok h).1
        cases hx
        exact osTimerDestroy_ticksCnt hy
      | tick => exact osTick_ticksCnt hs.placed (quiet_ok h).1
      | _ => simp [Action.timing] at hi

end Steps

/-! ## Every port -/

/-- The kernel with the tick counter of a port with ticks of `w` bits. -/
structure Clocked (w : ℕ) where
  kernel : Kernel
  ticksCnt : BitVec w

def osTicksNow {w : ℕ} (s : Clocked w) : BitVec w := s.ticksCnt

/-- The number of calls of `os_tick`. -/
def ticksIn (is : List Action) : ℕ := is.count (.call .tick)

def actionsOf {σ : Type} (tr : List (Taken σ (Action × Option Ret))) : List Action :=
  tr.map fun x => x.label.1

theorem ticksIn_cons {σ : Type} (x : Taken σ (Action × Option Ret))
    (tr : List (Taken σ (Action × Option Ret))) : ticksIn (actionsOf (x :: tr)) =
      ticksIn (actionsOf tr) + if x.label.1 = .call .tick then 1 else 0 := by
  simp [ticksIn, actionsOf, List.count_cons]

section Runs
variable [Port] {w : ℕ}

/-- The counter may start anywhere. -/
def clockSystem (w : ℕ) : System (Clocked w) (Action × Option Ret) where
  start s := kernelSystem.start s.kernel
  step s i s' := kernelSystem.step s.kernel i s'.kernel ∧
    s'.ticksCnt = if i.1 = .call .tick then s.ticksCnt + 1 else s.ticksCnt

theorem ticksCnt_of_run {s₀ s : Clocked w} {tr : List (Taken (Clocked w) (Action × Option Ret))}
    (h : ((clockSystem w).startAt s₀).Run tr s) :
    s.ticksCnt = s₀.ticksCnt + .ofNat w (ticksIn (actionsOf tr)) := by
  induction h with
  | start h =>
    cases h
    simp [ticksIn, actionsOf]
  | @step tr s s' i _ hst ih =>
    rw [hst.2, ih, ticksIn_cons]
    split
    · rw [BitVec.ofNat_add]
      grind
    · rfl

/-- The difference of two readings is the number of ticks in between if and only if the type has 16
bits or the counter does not overflow in between. -/
theorem ticks_diff_eq_iff (arch : Arch) {s₀ s : Clocked arch.ticksWidth}
    {tr : List (Taken (Clocked arch.ticksWidth) (Action × Option Ret))}
    (h : ((clockSystem arch.ticksWidth).startAt s₀).Run tr s)
    (hn : ticksIn (actionsOf tr) < osTicksMax) :
    (osTicksDiff (osTicksNow s₀) (osTicksNow s)).toNat = ticksIn (actionsOf tr) ↔
      arch.ticksWidth = 16 ∨
        (osTicksNow s₀).toNat + ticksIn (actionsOf tr) < 2 ^ arch.ticksWidth := by
  have hw : 16 ≤ arch.ticksWidth := by cases arch <;> decide
  rw [osTicksNow, osTicksNow, ticksCnt_of_run h]
  exact osTicksDiff_add_iff hw s₀.ticksCnt hn

/-- Every run of the kernel is one with the counter. -/
theorem clocked_of_run {P : Kernel → Action × Option Ret → Prop} {k₀ k : Kernel}
    {tr : List KernelStep} (h : ((kernelSystem.restrict P).startAt k₀).Run tr k) (c : BitVec w) :
    ∃ tr' c', ((clockSystem w).startAt ⟨k₀, c⟩).Run tr' ⟨k, c'⟩ ∧
      actionsOf tr' = actionsOf tr := by
  induction h with
  | start h =>
    cases h
    exact ⟨[], c, .start rfl, rfl⟩
  | @step tr k k' i _ hst ih =>
    obtain ⟨tr', c', hr, he⟩ := ih
    have hstep : ((clockSystem w).startAt ⟨k₀, c⟩).step ⟨k, c'⟩ i
        ⟨k', if i.1 = .call .tick then c' + 1 else c'⟩ := ⟨hst.2, rfl⟩
    exact ⟨_, _, hr.step hstep, congrArg (i.1 :: ·) he⟩

/-- The counter of the 16-bit ports is the one of the kernel. -/
theorem ticksCnt_agrees {s₀ s : Clocked 16} {tr : List (Taken (Clocked 16) (Action × Option Ret))}
    (h₀ : (kernelSystem.restrict fun k i => Sane k i.1).Reachable s₀.kernel)
    (he : s₀.ticksCnt.toNat = s₀.kernel.ticksCnt)
    (h : (((clockSystem 16).restrict fun s i => Sane s.kernel i.1).startAt s₀).Run tr s) :
    s.ticksCnt.toNat = s.kernel.ticksCnt := by
  refine (h.invariant (I := fun _ s => (kernelSystem.restrict fun k i => Sane k i.1).Reachable
    s.kernel ∧ s.ticksCnt.toNat = s.kernel.ticksCnt) ?_ ?_).2
  · rintro s rfl
    exact ⟨h₀, he⟩
  · rintro tr s ⟨i, r⟩ s' - ⟨hr, he⟩ ⟨hsane, hst, hc⟩
    refine ⟨hr.step ⟨hsane, hst⟩, ?_⟩
    obtain ⟨n, hn⟩ := hst.2.exists_eq
    rw [hc, ticksCnt_step (sound_of_reachable (fun _ _ h => h) hr) hsane hn, ← he]
    split
    · rw [BitVec.toNat_add]
      rfl
    · rfl

end Runs

/-- The counter has its last value, and overflows in the next tick. -/
theorem ticks_overflow_run (w : ℕ) :
    ∃ (s : Clocked w) (tr : List (Taken (Clocked w) (Action × Option Ret))),
      ((clockSystem w).startAt ⟨osInit coldKernel, .allOnes w⟩).Run tr s ∧
        ticksIn (actionsOf tr) = 1 := by
  obtain ⟨⟨tr, k⟩, hk, hx⟩ := Outcome.exists_of_holds
    (x := playRun saneCheck 10 [.call .start, .isrEnter, .call .tick] [] (osInit coldKernel))
    (p := fun (tr, _) => decide (ticksIn (actionsOf tr) = 1)) (by decide +kernel)
  have hr := run_startAt_of_playRun (P := fun k i => Sane k i.1) (fun _ _ h => h)
    (fun _ _ _ hs h => sane_of_check hs h) (.start rfl) (.start rfl) hk
  obtain ⟨tr', c, hr', he⟩ := clocked_of_run hr (.allOnes w)
  exact ⟨_, tr', hr', by rw [he]; exact of_decide_eq_true hx⟩

theorem ticks_diff_eq_iff_avr : ∃ (s₀ s : Clocked 16)
    (tr : List (Taken (Clocked 16) (Action × Option Ret))),
    ((clockSystem 16).startAt s₀).Run tr s ∧ (osTicksNow s₀).toNat = 65535 ∧
      (osTicksNow s).toNat = 0 ∧ (osTicksDiff (osTicksNow s₀) (osTicksNow s)).toNat = 1 := by
  obtain ⟨s, tr, hr, hn⟩ := ticks_overflow_run 16
  refine ⟨_, s, tr, hr, rfl, ?_, ?_⟩
  · rw [osTicksNow, ticksCnt_of_run hr, hn]
    rfl
  · exact ((ticks_diff_eq_iff .avr hr (hn ▸ by decide)).mpr (Or.inl rfl)).trans hn

/-- With 64 bits the first tick after the last value takes 65537 ticks. -/
theorem ticks_diff_overflow : ¬ ∀ (arch : Arch) (s₀ s : Clocked arch.ticksWidth)
    (tr : List (Taken (Clocked arch.ticksWidth) (Action × Option Ret))),
    ((clockSystem arch.ticksWidth).startAt s₀).Run tr s →
      ticksIn (actionsOf tr) < osTicksMax →
      (osTicksDiff (osTicksNow s₀) (osTicksNow s)).toNat = ticksIn (actionsOf tr) := by
  intro h
  obtain ⟨s, tr, hr, hn⟩ := ticks_overflow_run 64
  have hd := (h .linux _ s tr hr (hn ▸ by decide)).trans hn
  change (osTicksDiff (BitVec.allOnes 64) s.ticksCnt).toNat = 1 at hd
  rw [ticksCnt_of_run hr, hn] at hd
  exact absurd hd (by decide)

end RadOs
