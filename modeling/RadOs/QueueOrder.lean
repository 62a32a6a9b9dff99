import RadOs.TaskQueue

/-! # A task queue is an ordered list

The lists of the buckets, the mask, the priorities and the back pointers of the
tasks are four views of one queue. Every function keeps them together, so a bit
of the mask is never stale, and the queue behaves like one list in the order of
priorities and of the times at which tasks came in.
-/

namespace RadOs
open LinkedRing Bucketed

section Holding
variable {κ α : Type} {h : TaskHeap κ α} {s : PrioQueues κ α} {Q : κ} {t : α} {l : List α} {p : ℕ}

/-- The tasks of a priority in the order of the queue. -/
def ofPrio (prio : α → ℕ) (p : ℕ) (l : List α) : List α := l.filter fun t => prio t = p

theorem mem_ofPrio {prio : α → ℕ} : t ∈ ofPrio prio p l ↔ t ∈ l ∧ prio t = p := by
  rw [ofPrio, List.mem_filter, decide_eq_true_eq]

theorem ofPrio_congr {prio prio' : α → ℕ} (hp : ∀ c ∈ l, prio' c = prio c) :
    ofPrio prio' p l = ofPrio prio p l :=
  List.filter_congr fun c hc => by rw [hp c hc]

theorem ofPrio_erase [DecidableEq α] {prio : α → ℕ} (hp : prio t ≠ p) :
    ofPrio prio p (l.erase t) = ofPrio prio p l := by
  rw [ofPrio, ofPrio, ← List.erase_filter, List.erase_of_not_mem]
  simp [hp]

variable [Port]

/-- The lists in the heap. -/
def familyOf (s : PrioQueues κ α) : Family (QueueNode κ α)
  | .bucket Q p => if p < Port.priocnt then
      (s.queue Q).map fun l => (ofPrio s.prio p l).map .task
    else none
  | .task _ => none

/-- The four views of the queues agree with the ordered lists. -/
structure TaskHeap.Holds (h : TaskHeap κ α) (s : PrioQueues κ α) : Prop where
  ordered : s.Ordered
  bound : ∀ t, s.prio t < Port.priocnt
  prio : h.prioCurrent = s.prio
  lists : Lists h.links (familyOf s)
  mask : ∀ Q l, s.queue Q = some l → ∀ p, p ∈ bits (h.mask Q) ↔ ofPrio s.prio p l ≠ []
  inside : ∀ Q l t, s.queue Q = some l → t ∈ l → h.taskQueue t = some Q
  outside : ∀ t, s.stale t = false → s.Free t → h.taskQueue t = none

theorem family_bucket (hp : p < Port.priocnt) :
    familyOf s (.bucket Q p) = (s.queue Q).map fun l => (ofPrio s.prio p l).map .task := if_pos hp

theorem family_eq_some {n : QueueNode κ α} {xs : List (QueueNode κ α)} :
    familyOf s n = some xs ↔ ∃ Q p l, n = .bucket Q p ∧ p < Port.priocnt ∧ s.queue Q = some l ∧
      xs = (ofPrio s.prio p l).map .task := by
  cases n with
  | task t => simp [familyOf]
  | bucket Q p =>
    by_cases hp : p < Port.priocnt
    · rw [family_bucket hp, Option.map_eq_some_iff]
      constructor
      · rintro ⟨l, hl, rfl⟩
        exact ⟨Q, p, l, rfl, hp, hl, rfl⟩
      · rintro ⟨_, _, l, ⟨⟩, -, hl, rfl⟩
        exact ⟨l, hl, rfl⟩
    · simp only [familyOf, if_neg hp, reduceCtorEq, false_iff]
      rintro ⟨_, _, l, ⟨⟩, hp', -⟩
      exact hp hp'

/-- A task that is in no queue has a node that is on no list. -/
theorem loose_of_free (hf : s.Free t) : (familyOf s).Loose (.task t) := by
  intro n xs hn hm
  obtain ⟨Q, p, l, rfl, -, hl, rfl⟩ := family_eq_some.mp hn
  obtain h | h := List.mem_cons.mp hm
  · cases h
  · obtain ⟨u, hu, ⟨⟩⟩ := List.mem_map.mp h
    exact hf Q l hl (mem_ofPrio.mp hu).1

namespace TaskHeap.Holds
variable (H : h.Holds s)
include H

/-- The queue as buckets. -/
theorem represents (hl : s.queue Q = some l) :
    Represents ⟨fun p => ofPrio s.prio p l, bits (h.mask Q)⟩ s.prio l where
  bucket _ := rfl
  mask := H.mask Q l hl
  sorted := PrioQueues.sorted_of_before (H.ordered.order Q l hl)

theorem fls_nil (hl : s.queue Q = some []) : archBitmaskFls (h.mask Q) = 0 := by
  rw [archBitmaskFls_eq]
  exact (H.represents hl).top_nil

theorem fls_cons (hl : s.queue Q = some (t :: l)) :
    archBitmaskFls (h.mask Q) = s.prio t + 1 := by
  rw [archBitmaskFls_eq]
  exact (H.represents hl).top_cons

theorem ring (hl : s.queue Q = some l) (hp : p < Port.priocnt) :
    Ring h.links (.bucket Q p) ((ofPrio s.prio p l).map .task) :=
  H.lists.ring _ _ (by rw [family_bucket hp, hl]; rfl)

/-- The first task is the first one in its bucket. -/
theorem ring_cons (hl : s.queue Q = some (t :: l)) :
    Ring h.links (.bucket Q (s.prio t)) (.task t :: (ofPrio s.prio (s.prio t) l).map .task) := by
  have hr := H.ring hl (H.bound t)
  rwa [ofPrio, List.filter_cons_of_pos (by simp)] at hr

variable [DecidableEq κ] [DecidableEq α]

theorem enqueue (hP : Port.priocnt ≤ 8) (hQ : (s.queue Q).isSome) (hf : s.Free t) :
    (h.osTaskqueueEnqueue Q t).Holds (s.put Q t) := by
  obtain ⟨l, hl⟩ := Option.isSome_iff_exists.mp hQ
  have hp := H.bound t
  have hrep := (H.represents hl).push t
  have hbucket : ∀ p, ofPrio s.prio p (enqueued s.prio t l) =
      if s.prio t = p then ofPrio s.prio p l ++ [t] else ofPrio s.prio p l :=
    fun p => filter_enqueued (H.represents hl).sorted
  have hfam : familyOf (s.put Q t) =
      (ListOp.append (.bucket Q (s.prio t)) (.task t)).apply (familyOf s) := by
    funext n
    cases n with
    | task u => simp [ListOp.apply, familyOf]
    | bucket Q' p =>
      by_cases hQ : Q' = Q
      · subst hQ
        by_cases hpt : p = s.prio t
        · subst hpt
          rw [ListOp.apply, Function.update_self, family_bucket hp, family_bucket hp]
          simp [hl, PrioQueues.put, hbucket]
        · rw [ListOp.apply, Function.update_of_ne (by simp [hpt])]
          simp [familyOf, hl, PrioQueues.put, hbucket, Ne.symm hpt]
      · rw [ListOp.apply, Function.update_of_ne (by simp [hQ])]
        simp [familyOf, PrioQueues.put, hQ]
  refine ⟨H.ordered.put hf Q, H.bound, H.prio, ?_, fun Q' l' hl' p => ?_,
    fun Q' l' u hl' hu => ?_, fun u hu hfu => ?_⟩
  · rw [hfam, osTaskqueueEnqueue, H.prio]
    have ha : (ListOp.append (.bucket Q (s.prio t)) (.task t)).Allowed (familyOf s) :=
      ⟨by simp [family_bucket hp, hl], loose_of_free hf⟩
    exact H.lists.exec ha
  · obtain ⟨m, hm, rfl⟩ := PrioQueues.put_cases hl'
    by_cases hQ : Q' = Q
    · subst hQ
      obtain rfl : m = l := Option.some.inj (hm.symm.trans hl)
      have hbits : bits ((h.osTaskqueueEnqueue Q' t).mask Q') =
          insert (s.prio t) (bits (h.mask Q')) := by
        rw [← H.prio, ← bits_set (h.mask Q') (by rw [H.prio]; omega)]
        exact congrArg bits (Function.update_self _ _ _)
      rw [if_pos rfl, hbits]
      exact (hrep.mask p).trans (by rw [hrep.bucket]; rfl)
    · have hsame : (h.osTaskqueueEnqueue Q t).mask Q' = h.mask Q' := Function.update_of_ne hQ _ _
      rw [if_neg hQ, hsame]
      exact H.mask Q' m hm p
  · obtain ⟨m, hm, rfl⟩ := PrioQueues.put_cases hl'
    change Function.update h.taskQueue t (some Q) u = some Q'
    by_cases hut : u = t
    · subst hut
      have hQ : Q' = Q := by
        by_contra hQ
        rw [if_neg hQ] at hu
        exact hf Q' m hm hu
      rw [Function.update_self, hQ]
    · rw [Function.update_of_ne hut]
      refine H.inside Q' m u hm ?_
      split at hu
      · exact (mem_enqueued.mp hu).resolve_left hut
      · exact hu
  · have hut : u ≠ t := by
      rintro rfl
      refine hfu Q (enqueued s.prio u l) ?_ (mem_enqueued.mpr (Or.inl rfl))
      rw [PrioQueues.put_queue, Function.update_self, hl]
      rfl
    change Function.update h.taskQueue t (some Q) u = none
    rw [Function.update_of_ne hut]
    refine H.outside u ((Function.update_of_ne hut _ _).symm.trans hu) fun Q' m hm hum => ?_
    by_cases hQ : Q' = Q
    · subst hQ
      refine hfu Q' (enqueued s.prio t m) ?_ (mem_enqueued.mpr (Or.inr hum))
      rw [PrioQueues.put_queue, Function.update_self, hm]
      rfl
    · exact hfu Q' m ((Function.update_of_ne hQ _ _).trans hm) hum

/-! ### Removal -/

omit [DecidableEq κ] in
theorem mem_take {u : α} {l' : List α} (hl' : (s.take t).queue Q = some l') (hu : u ∈ l') :
    ∃ l, s.queue Q = some l ∧ u ∈ l ∧ u ≠ t := by
  obtain ⟨l, hl, rfl⟩ := Option.map_eq_some_iff.mp hl'
  have hm := (H.ordered.nodup hl).mem_erase_iff.mp hu
  exact ⟨l, hl, hm.2, hm.1⟩

theorem unlinked (hl : s.queue Q = some l) (ht : t ∈ l) :
    Lists (listUnlink (.task t) h.links) (familyOf (s.take t)) := by
  have hfam : familyOf (s.take t) = (ListOp.unlink (.task t)).apply (familyOf s) := by
    funext n
    cases n with
    | task u => rfl
    | bucket Q' p =>
      by_cases hp : p < Port.priocnt
      · have hinj : Function.Injective (QueueNode.task : α → QueueNode κ α) := fun _ _ he => by
          injection he
        change familyOf (s.take t) (.bucket Q' p) =
          (familyOf s (.bucket Q' p)).map (·.erase (.task t))
        rw [family_bucket hp, family_bucket hp, PrioQueues.take, Option.map_map, Option.map_map]
        congr 1
        funext m
        simp only [Function.comp_apply, ofPrio, ← List.erase_filter, List.map_erase hinj]
      · simp [ListOp.apply, familyOf, hp]
  rw [hfam]
  have ha : (ListOp.unlink (.task t)).Allowed (familyOf s) := by
    refine ⟨.bucket Q (s.prio t), _, family_eq_some.mpr ⟨Q, s.prio t, l, rfl, H.bound t, hl, rfl⟩, ?_⟩
    exact List.mem_map_of_mem (mem_ofPrio.mpr ⟨ht, rfl⟩)
  exact H.lists.exec ha

/-- The bit of the bucket is cleared if the task was the last one in it. -/
theorem leave (hP : Port.priocnt ≤ 8) (hl : s.queue Q = some l) (ht : t ∈ l) :
    (({ h with links := listUnlink (.task t) h.links }.clearIfEmpty Q (s.prio t)).setTaskQueue t
      none).Holds (s.take t) := by
  have hlists := H.unlinked hl ht
  have hq : (s.take t).queue Q = some (l.erase t) := congrArg (Option.map _) hl
  have hring := hlists.ring (.bucket Q (s.prio t)) _
    (family_eq_some.mpr ⟨Q, s.prio t, _, rfl, H.bound t, hq, rfl⟩)
  have hempty : listIsEmpty (.bucket Q (s.prio t)) (listUnlink (.task t) h.links) = true ↔
      ofPrio s.prio (s.prio t) (l.erase t) = [] := by
    rw [listIsEmpty_iff hring, List.map_eq_nil_iff]
    rfl
  refine ⟨H.ordered.take t, H.bound, ?_, ?_, fun Q' l' hl' p => ?_, fun Q' l' u hl' hu => ?_,
    fun u hu hfu => ?_⟩
  · exact clearIfEmpty_prioCurrent.trans H.prio
  · rw [setTaskQueue, clearIfEmpty_links]
    exact hlists
  · obtain ⟨m, hm, rfl⟩ := Option.map_eq_some_iff.mp hl'
    by_cases hQ : Q' = Q
    · subst hQ
      obtain rfl : m = l := Option.some.inj (hm.symm.trans hl)
      have hold := H.mask Q' m hl p
      rw [setTaskQueue, clearIfEmpty_mask]
      change _ ↔ ofPrio s.prio p (m.erase t) ≠ []
      by_cases hpt : p = s.prio t
      · subst hpt
        split
        next he =>
          rw [bits_clear _ ((H.bound t).trans_le hP), hempty.mp he]
          simp
        next he =>
          rw [hold]
          exact iff_of_true (List.ne_nil_of_mem (mem_ofPrio.mpr ⟨ht, rfl⟩)) (mt hempty.mpr he)
      · rw [ofPrio_erase (Ne.symm hpt), ← hold]
        split
        · rw [bits_clear _ ((H.bound t).trans_le hP), Finset.mem_erase, and_iff_right hpt]
        · rfl
    · have hnot : t ∉ m := H.ordered.apart Q Q' l m hl hm (Ne.symm hQ) t ht
      rw [setTaskQueue, clearIfEmpty_mask_of_ne hQ, List.erase_of_not_mem hnot]
      exact H.mask Q' m hm p
  · obtain ⟨m, hm, hum, hut⟩ := H.mem_take hl' hu
    rw [setTaskQueue, clearIfEmpty_taskQueue]
    exact (Function.update_of_ne hut _ _).trans (H.inside Q' m u hm hum)
  · rw [setTaskQueue, clearIfEmpty_taskQueue]
    change Function.update h.taskQueue t none u = none
    by_cases hut : u = t
    · rw [hut, Function.update_self]
    · rw [Function.update_of_ne hut]
      refine H.outside u hu fun Q' m hm hum => hfu Q' (m.erase t) (congrArg (Option.map _) hm) ?_
      exact (List.mem_erase_of_ne hut).mpr hum

theorem unlink (hP : Port.priocnt ≤ 8) (ht : ¬ s.Free t) :
    ∃ h', h.osTaskqueueUnlink t = .ok h' ∧ h'.Holds (s.take t) := by
  simp only [PrioQueues.Free, not_forall, not_not] at ht
  obtain ⟨Q, l, hl, ht⟩ := ht
  refine ⟨_, ?_, H.leave hP hl ht⟩
  simp only [osTaskqueueUnlink, H.inside Q l t hl ht, H.prio]

/-- On a queue with tasks the bucket with the highest bit is not empty. -/
theorem intdequeue (hP : Port.priocnt ≤ 8) (hl : s.queue Q = some (t :: l)) :
    ∃ h', h.osTaskqueueIntdequeue Q (s.prio t) = .ok (t, h') ∧ h'.Holds (s.pop Q) := by
  refine ⟨_, ?_, H.ordered.pop_eq_take hl ▸ H.leave hP hl List.mem_cons_self⟩
  rw [osTaskqueueIntdequeue, listDetachfirst_cons (H.ring_cons hl)]

theorem dequeue (hP : Port.priocnt ≤ 8) (hQ : (s.queue Q).isSome) :
    ∃ h', h.osTaskqueueDequeue Q = .ok (s.first Q, h') ∧ h'.Holds (s.pop Q) := by
  obtain ⟨l, hl⟩ := Option.isSome_iff_exists.mp hQ
  cases l with
  | nil =>
    refine ⟨h, ?_, (PrioQueues.pop_nil hl).symm ▸ H⟩
    rw [osTaskqueueDequeue, H.fls_nil hl, PrioQueues.first, hl]
    rfl
  | cons t l =>
    obtain ⟨h', hint, hH⟩ := H.intdequeue hP hl
    refine ⟨h', ?_, hH⟩
    rw [osTaskqueueDequeue, H.fls_cons hl, PrioQueues.first, hl]
    simp only [hint]
    rfl

theorem dequeuePrio (hP : Port.priocnt ≤ 8) (hQ : (s.queue Q).isSome) (p : ℕ) :
    ∃ h', h.osTaskqueueDequeuePrio Q p = .ok (((QueueOp.dequeuePrio Q p).apply s).1, h') ∧
      h'.Holds ((QueueOp.dequeuePrio Q p).apply s).2 := by
  obtain ⟨l, hl⟩ := Option.isSome_iff_exists.mp hQ
  cases l with
  | nil =>
    refine ⟨h, ?_, ?_⟩
    · rw [osTaskqueueDequeuePrio, H.fls_nil hl]
      simp [QueueOp.apply, PrioQueues.first, hl]
    · simpa [QueueOp.apply, PrioQueues.first, hl] using H
  | cons t l =>
    by_cases hp : p ≤ s.prio t
    · obtain ⟨h', hint, hH⟩ := H.intdequeue hP hl
      refine ⟨h', ?_, ?_⟩
      · rw [osTaskqueueDequeuePrio, H.fls_cons hl]
        simp [QueueOp.apply, PrioQueues.first, hl, hp, hint]
      · simpa [QueueOp.apply, PrioQueues.first, hl, hp] using hH
    · refine ⟨h, ?_, ?_⟩
      · rw [osTaskqueueDequeuePrio, H.fls_cons hl]
        simp [QueueOp.apply, PrioQueues.first, hl, hp]
      · simpa [QueueOp.apply, PrioQueues.first, hl, hp] using H

theorem peek (hQ : (s.queue Q).isSome) : h.osTaskqueuePeek Q = .ok (s.first Q) := by
  obtain ⟨l, hl⟩ := Option.isSome_iff_exists.mp hQ
  cases l with
  | nil =>
    rw [osTaskqueuePeek, H.fls_nil hl, PrioQueues.first, hl]
    rfl
  | cons t l =>
    have hnext := (H.ring_cons hl).next_head
    have hpeek : listPeekfirst (.bucket Q (s.prio t)) h.links = some (.task t) := by
      rw [listPeekfirst, hnext, if_neg (by simp [firstNode])]
      rfl
    simp only [osTaskqueuePeek, H.fls_cons hl, hpeek]
    rw [PrioQueues.first, hl]
    rfl

/-! ### Priorities -/

omit [DecidableEq κ] in
theorem setPrio {s' : PrioQueues κ α} (hf : s.Free t) (hp : p < Port.priocnt) (ho : s'.Ordered)
    (hq : s'.queue = s.queue) (hprio : s'.prio = Function.update s.prio t p)
    (hst : s'.stale = s.stale) : (h.setPrio t p).Holds s' := by
  have hsame : ∀ {Q l q}, s.queue Q = some l → ofPrio s'.prio q l = ofPrio s.prio q l := by
    intro Q l q hl
    refine ofPrio_congr fun c hc => ?_
    have hct : c ≠ t := by
      rintro rfl
      exact hf Q l hl hc
    rw [hprio, Function.update_of_ne hct]
  refine ⟨ho, fun c => ?_, ?_, ?_, fun Q l hl q => ?_, fun Q l c hl => ?_, fun c hc hfc => ?_⟩
  · rw [hprio]
    by_cases hct : c = t
    · rw [hct, Function.update_self]
      exact hp
    · rw [Function.update_of_ne hct]
      exact H.bound c
  · rw [hprio, ← H.prio]
    rfl
  · refine Lists.mono H.lists fun n xs hn => ?_
    obtain ⟨Q, q, l, rfl, hq', hl, rfl⟩ := family_eq_some.mp hn
    rw [hq] at hl
    rw [hsame hl]
    exact family_eq_some.mpr ⟨Q, q, l, rfl, hq', hl, rfl⟩
  · rw [hq] at hl
    rw [hsame hl]
    exact H.mask Q l hl q
  · rw [hq] at hl
    exact H.inside Q l c hl
  · refine H.outside c (hst ▸ hc) fun Q l hl => hfc Q l ?_
    rw [hq]
    exact hl

theorem reprio (hP : Port.priocnt ≤ 8) (hp : p < Port.priocnt) (hst : s.stale t = false) :
    ∃ h', h.osTaskqueueReprio t p = .ok h' ∧ h'.Holds (s.reprio t p) := by
  by_cases he : s.prio t = p
  · refine ⟨h, ?_, ?_⟩
    · simp [osTaskqueueReprio, H.prio, he]
    · rw [PrioQueues.reprio, if_pos he]
      exact H
  have hord := H.ordered.reprio t p
  by_cases hf : s.Free t
  · have hq : (s.reprio t p).queue = s.queue := by
      rw [PrioQueues.reprio, if_neg he]
      funext Q
      cases hl : s.queue Q with
      | none => simp [hl]
      | some l => simp [hl, hf Q l hl]
    refine ⟨h.setPrio t p, ?_, H.setPrio hf hp hord hq ?_ ?_⟩
    · simp [osTaskqueueReprio, H.prio, he, H.outside t hst hf]
    · rw [PrioQueues.reprio, if_neg he]
    · rw [PrioQueues.reprio, if_neg he]
  · -- The task is unlinked under its old priority and enqueued again under the new one.
    obtain ⟨h₁, hun, H₁⟩ := H.unlink hP hf
    simp only [PrioQueues.Free, not_forall, not_not] at hf
    obtain ⟨Q, l, hl, ht⟩ := hf
    have hfree : (s.take t).Free t := fun Q' l' hl' hm => (H.mem_take hl' hm).elim
      fun _ hm => hm.2.2 rfl
    let s₁ : PrioQueues κ α := { s.take t with prio := Function.update s.prio t p }
    have H₂ : (h₁.setPrio t p).Holds s₁ := H₁.setPrio hfree hp
      (H₁.ordered.relabel hfree rfl (fun c hc => Function.update_of_ne hc _ _) (fun _ _ => rfl)
        le_rfl) rfl rfl rfl
    have H₃ := H₂.enqueue hP (Q := Q) (t := t) (by simp [s₁, PrioQueues.take, hl]) hfree
    have heq : s₁.put Q t = s.reprio t p := by
      have hqueue : (s₁.put Q t).queue = (s.reprio t p).queue := by
        rw [PrioQueues.reprio, if_neg he]
        funext Q'
        by_cases hQ : Q' = Q
        · subst hQ
          simp [s₁, PrioQueues.take, hl, ht]
        · cases hl' : s.queue Q' with
          | none => simp [s₁, PrioQueues.take, hQ, hl']
          | some l' =>
            have hn := H.ordered.apart Q Q' l l' hl hl' (Ne.symm hQ) t ht
            simp [s₁, PrioQueues.take, hQ, hl', hn, List.erase_of_not_mem hn]
      have hstale : Function.update s.stale t false = s.stale := by
        rw [← hst, Function.update_eq_self]
      rw [PrioQueues.reprio, if_neg he] at hqueue ⊢
      rw [PrioQueues.put] at hqueue ⊢
      simp only [PrioQueues.mk.injEq]
      exact ⟨hqueue, rfl, rfl, hstale, rfl⟩
    refine ⟨_, ?_, heq ▸ H₃⟩
    simp [osTaskqueueReprio, H.prio, he, H.inside Q l t hl ht, hun]

/-! ### A new queue -/

theorem init (Q : κ) : (h.osTaskqueueInit Q).Holds (s.init Q) := by
  refine ⟨H.ordered.init Q, H.bound, H.prio, ?_, fun Q' l hl p => ?_, fun Q' l t hl ht => ?_,
    fun t hst hf => ?_⟩
  · have hfam : familyOf (s.init Q) = fun n =>
        if n ∈ (List.range Port.priocnt).map (QueueNode.bucket Q) then some [] else familyOf s n := by
      funext n
      cases n with
      | task t => simp [familyOf]
      | bucket Q' p =>
        by_cases hQ : Q' = Q
        · subst hQ
          by_cases hp : p < Port.priocnt <;> simp [familyOf, hp, ofPrio]
        · have hprio : (s.init Q).prio = s.prio := rfl
          simp [familyOf, hQ, Ne.symm hQ, hprio]
    have hall := H.lists.initAll
      fun u (hu : u ∈ (List.range Port.priocnt).map (QueueNode.bucket Q)) n xs hn hm => by
        obtain ⟨i, -, rfl⟩ := List.mem_map.mp hu
        obtain ⟨_, _, _, -, -, -, rfl⟩ := family_eq_some.mp hn
        simp at hm
    rw [hfam]
    rwa [List.foldl_map] at hall
  · by_cases hQ : Q' = Q
    · subst hQ
      rw [PrioQueues.init_queue, Function.update_self, Option.some.injEq] at hl
      subst hl
      change p ∈ bits (Function.update h.mask Q' 0 Q') ↔ _
      simp [mem_bits, ofPrio]
    · rw [PrioQueues.init_queue, Function.update_of_ne hQ] at hl
      change p ∈ bits (Function.update h.mask Q 0 Q') ↔ _
      rw [Function.update_of_ne hQ]
      exact H.mask Q' l hl p
  · by_cases hQ : Q' = Q
    · rw [PrioQueues.init_queue, hQ, Function.update_self, Option.some.injEq] at hl
      simp [← hl] at ht
    · rw [PrioQueues.init_queue, Function.update_of_ne hQ] at hl
      exact H.inside Q' l t hl ht
  · have hst' : s.stale t = false ∧ t ∉ (s.queue Q).getD [] := by simpa [PrioQueues.init] using hst
    refine H.outside t hst'.1 fun Q' l hl ht => ?_
    by_cases hQ : Q' = Q
    · subst hQ
      exact hst'.2 (by rwa [hl])
    · exact hf Q' l ((Function.update_of_ne hQ _ _).trans hl) ht

/-! ## Runs -/

/-- The step lemma. -/
theorem exec (hP : Port.priocnt ≤ 8) {op : QueueOp κ α} (hfit : op.Fits s) (hint : op.Intact s) :
    ∃ h', op.exec h = .ok ((op.apply s).1, h') ∧ h'.Holds (op.apply s).2 := by
  cases op with
  | init Q => exact ⟨_, rfl, H.init Q⟩
  | enqueue Q t => exact ⟨_, rfl, H.enqueue hP hfit.1 hfit.2⟩
  | unlink t =>
    obtain ⟨h', hun, H'⟩ := H.unlink hP hfit
    exact ⟨h', by rw [QueueOp.exec, hun]; rfl, H'⟩
  | reprio t p =>
    obtain ⟨h', hre, H'⟩ := H.reprio hP hfit hint
    exact ⟨h', by rw [QueueOp.exec, hre]; rfl, H'⟩
  | dequeue Q => exact H.dequeue hP hfit
  | dequeuePrio Q p => exact H.dequeuePrio hP hfit p
  | peek Q => exact ⟨h, by rw [QueueOp.exec, H.peek hfit]; rfl, H⟩

theorem run (hP : Port.priocnt ≤ 8) {ops : List (QueueOp κ α)}
    (hops : QueueOp.Along (fun s op => op.Fits s ∧ op.Intact s) ops s) :
    ∃ h', QueueOp.run ops h = .ok ((QueueOp.runQueues ops s).1, h') ∧
      h'.Holds (QueueOp.runQueues ops s).2 := by
  induction ops generalizing h s with
  | nil => exact ⟨h, rfl, H⟩
  | cons op ops ih =>
    obtain ⟨⟨hfit, hint⟩, hrest⟩ := hops
    obtain ⟨h₁, hop, H₁⟩ := H.exec hP hfit hint
    obtain ⟨h₂, hrun, H₂⟩ := ih H₁ hrest
    refine ⟨h₂, ?_, H₂⟩
    simp only [QueueOp.run, hop, QueueOp.runQueues]
    simp [hrun]

/-- A bit of the mask is set exactly when its bucket is not empty. -/
theorem mask_iff (hl : s.queue Q = some l) : (h.mask Q).getLsbD p = true ↔
    p < Port.priocnt ∧ listIsEmpty (.bucket Q p) h.links = false := by
  rw [← mem_bits, H.mask Q l hl p]
  by_cases hp : p < Port.priocnt
  · rw [and_iff_right hp, ← Bool.not_eq_true, listIsEmpty_iff (H.ring hl hp), Ne,
      List.map_eq_nil_iff]
  · refine iff_of_false (fun hne => ?_) fun hb => hp hb.1
    obtain ⟨t, ht⟩ := List.exists_mem_of_ne_nil _ hne
    exact hp ((mem_ofPrio.mp ht).2 ▸ H.bound t)

end TaskHeap.Holds

theorem TaskHeap.Fresh.holds (H : h.Fresh) : h.Holds h.noQueues where
  ordered := by
    refine ⟨fun Q l hl => ?_, fun Q l hl => ?_, fun Q Q' l l' hl => ?_⟩ <;> cases hl
  bound := H.prioCurrent
  prio := rfl
  lists := by
    have hnone : ∀ n, familyOf h.noQueues n = none := by
      intro n
      cases n <;> simp [familyOf, noQueues]
    refine ⟨fun n xs hn => ?_, fun n m xs ys hn => ?_⟩
    · rw [hnone] at hn
      cases hn
    · rw [hnone] at hn
      cases hn
  mask Q l hl := by cases hl
  inside Q l t hl := by cases hl
  outside t _ _ := H.taskQueue t

variable [DecidableEq κ] [DecidableEq α]

/-- From new tasks on, every sequence of calls has the results of the ordered lists, and leaves the
four views of the queues together. -/
theorem taskqueue_functions_on_ordered_lists (hP : Port.priocnt ≤ 8) (hfresh : h.Fresh)
    (ops : List (QueueOp κ α))
    (hops : QueueOp.Along (fun s op => op.Fits s ∧ op.Intact s) ops h.noQueues) :
    ∃ h', QueueOp.run ops h = .ok ((QueueOp.runQueues ops h.noQueues).1, h') ∧
      let s := (QueueOp.runQueues ops h.noQueues).2
      h'.prioCurrent = s.prio ∧
      ∀ Q l, s.queue Q = some l →
        l.Pairwise s.Before ∧
        (∀ p < Port.priocnt, Ring h'.links (.bucket Q p) ((ofPrio s.prio p l).map .task)) ∧
        (∀ p, (h'.mask Q).getLsbD p = true ↔
          p < Port.priocnt ∧ listIsEmpty (.bucket Q p) h'.links = false) ∧
        ∀ t, t ∈ l ↔ h'.taskQueue t = some Q ∧ ¬ s.Free t := by
  obtain ⟨h', hrun, H⟩ := hfresh.holds.run hP hops
  refine ⟨h', hrun, H.prio, fun Q l hl => ⟨H.ordered.order Q l hl, fun p => H.ring hl,
    fun p => H.mask_iff hl, fun t => ⟨fun ht => ⟨H.inside Q l t hl ht, fun hf => hf Q l hl ht⟩, ?_⟩⟩⟩
  rintro ⟨htq, hf⟩
  simp only [PrioQueues.Free, not_forall, not_not] at hf
  obtain ⟨Q', l', hl', ht⟩ := hf
  obtain rfl : Q = Q' := Option.some.inj (htq.symm.trans (H.inside Q' l' t hl' ht))
  obtain rfl : l' = l := Option.some.inj (hl'.symm.trans hl)
  exact ht

end Holding

/-- Two tasks of one queue, the second one raised over the first. -/
theorem taskqueue_functions_on_ordered_lists_raised :
    letI : Port := ⟨255, 5⟩
    let h : TaskHeap Unit Bool := ⟨⟨id, id⟩, fun _ => 0, fun _ => 1, fun _ => none⟩
    let ops : List (QueueOp Unit Bool) :=
      [.init (), .enqueue () false, .enqueue () true, .reprio true 2, .dequeue ()]
    (QueueOp.run ops h).map Prod.fst = .ok [none, none, none, none, some true] := by
  let P : Port := ⟨255, 5⟩
  intro h ops
  obtain ⟨h', hrun, -⟩ := taskqueue_functions_on_ordered_lists (h := h)
    (by decide : 5 ≤ 8) ⟨fun _ => rfl, fun _ => (by decide : 1 < 5)⟩ ops (by
      simp [ops, QueueOp.Along, QueueOp.Fits, QueueOp.Intact, QueueOp.apply, PrioQueues.Free,
        PrioQueues.init, PrioQueues.put, TaskHeap.noQueues, enqueued, h]
      decide)
  rw [hrun]
  rfl

/-- A queue that is set up again forgets its tasks, but they do not forget the queue: a new
priority brings such a task back into it. -/
theorem queue_set_up_again :
    letI : Port := ⟨255, 5⟩
    ∃ (h : TaskHeap Unit Unit) (ops : List (QueueOp Unit Unit)),
    h.Fresh ∧ QueueOp.Along (fun s op => op.Fits s) ops h.noQueues ∧
    (QueueOp.run ops h).map Prod.fst ≠ .ok (QueueOp.runQueues ops h.noQueues).1 := by
  let P : Port := ⟨255, 5⟩
  refine ⟨⟨⟨id, id⟩, fun _ => 0, fun _ => 1, fun _ => none⟩,
    [.init (), .enqueue () (), .init (), .reprio () 2, .dequeue ()],
    ⟨fun _ => rfl, fun _ => (by decide : 1 < 5)⟩, ?_, ?_⟩
  · simp [QueueOp.Along, QueueOp.Fits, QueueOp.apply, PrioQueues.Free, PrioQueues.init,
      PrioQueues.put, PrioQueues.reprio, TaskHeap.noQueues]
  · decide

end RadOs
