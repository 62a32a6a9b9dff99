import Mathlib.Data.List.Sort
import RadOs.Lib.Buckets

/-! # Priority queues as ordered lists

A queue is a list in the order in which its elements leave it: the higher
priority first, and the longer wait first among equal ones. `Represents b prio l`
says that the buckets `b` hold the queue `l`.
-/

namespace Bucketed

variable {α : Type*} {b : Buckets α} {prio prio' : α → ℕ} {l l' : List α} {a c : α} {p : ℕ}

/-- The place of an element that comes in: behind all that are at least as urgent. -/
def enqueued (prio : α → ℕ) (a : α) (l : List α) : List α :=
  l.orderedInsert (fun a c => prio c < prio a) a

/-- The elements of all buckets, the highest one first. -/
def Buckets.toList (b : Buckets α) : List α := (List.range b.top).reverse.flatMap b.bucket

structure Represents (b : Buckets α) (prio : α → ℕ) (l : List α) : Prop where
  bucket : ∀ p, b.bucket p = l.filter fun a => prio a = p
  mask : ∀ p, p ∈ b.mask ↔ b.bucket p ≠ []
  sorted : l.Pairwise fun a c => prio c ≤ prio a

theorem enqueued_cons_of_lt (h : prio c < prio a) : enqueued prio a (c :: l) = a :: c :: l := by
  simp [enqueued, h]

theorem enqueued_cons_of_le (h : prio a ≤ prio c) :
    enqueued prio a (c :: l) = c :: enqueued prio a l := by
  simp [enqueued, not_lt.mpr h]

theorem mem_enqueued : c ∈ enqueued prio a l ↔ c = a ∨ c ∈ l := List.mem_orderedInsert _

/-- An element that comes in is the last one of its priority. -/
theorem filter_enqueued (h : l.Pairwise fun a c => prio c ≤ prio a) :
    (enqueued prio a l).filter (fun c => prio c = p) =
      if prio a = p then l.filter (fun c => prio c = p) ++ [a] else l.filter fun c => prio c = p := by
  induction l with
  | nil => by_cases hp : prio a = p <;> simp [enqueued, hp]
  | cons c l ih =>
    obtain ⟨hc, hl⟩ := List.pairwise_cons.mp h
    obtain hlt | hle := lt_or_ge (prio c) (prio a)
    · rw [enqueued_cons_of_lt hlt]
      by_cases hp : prio a = p
      · have hnil : (c :: l).filter (fun x => prio x = p) = [] := by
          rw [List.filter_eq_nil_iff]
          intro x hx
          obtain rfl | hx := List.mem_cons.mp hx
          · simpa using by omega
          · have := hc x hx
            simpa using by omega
        rw [if_pos hp, hnil, List.filter_cons_of_pos (by simpa using hp), hnil]
        rfl
      · rw [if_neg hp, List.filter_cons_of_neg (by simpa using hp)]
    · rw [enqueued_cons_of_le hle]
      by_cases hcp : prio c = p
      · rw [List.filter_cons_of_pos (by simpa using hcp), ih hl,
          List.filter_cons_of_pos (by simpa using hcp)]
        split <;> simp
      · rw [List.filter_cons_of_neg (by simpa using hcp), ih hl,
          List.filter_cons_of_neg (by simpa using hcp)]

/-- What holds for an element and those in front of it and behind it, in a list with an element
that comes in. -/
theorem pairwise_enqueued {R : α → α → Prop} (h : l.Pairwise R)
    (hs : l.Pairwise fun a c => prio c ≤ prio a) (hlt : ∀ c ∈ l, prio c < prio a → R a c)
    (hle : ∀ c ∈ l, prio a ≤ prio c → R c a) : (enqueued prio a l).Pairwise R := by
  induction l with
  | nil => simp [enqueued]
  | cons c l ih =>
    obtain ⟨hc, hl⟩ := List.pairwise_cons.mp h
    obtain ⟨hcs, hls⟩ := List.pairwise_cons.mp hs
    obtain hp | hp := lt_or_ge (prio c) (prio a)
    · rw [enqueued_cons_of_lt hp]
      refine List.pairwise_cons.mpr ⟨fun x hx => hlt x hx ?_, h⟩
      obtain rfl | hx := List.mem_cons.mp hx
      · exact hp
      · exact (hcs x hx).trans_lt hp
    · rw [enqueued_cons_of_le hp]
      refine List.pairwise_cons.mpr ⟨fun x hx => ?_, ih hl hls
        (fun x hx => hlt x (List.mem_cons_of_mem c hx))
        fun x hx => hle x (List.mem_cons_of_mem c hx)⟩
      obtain rfl | hx := mem_enqueued.mp hx
      · exact hle c List.mem_cons_self hp
      · exact hc x hx

theorem sorted_enqueued (h : l.Pairwise fun a c => prio c ≤ prio a) :
    (enqueued prio a l).Pairwise fun a c => prio c ≤ prio a :=
  pairwise_enqueued h h (fun _ _ => le_of_lt) fun _ _ hle => hle

/-- An order is known by its parts of equal priority. -/
theorem eq_of_filter_eq (h : l.Pairwise fun a c => prio c ≤ prio a)
    (h' : l'.Pairwise fun a c => prio c ≤ prio a)
    (hf : ∀ p, (l.filter fun a => prio a = p) = l'.filter fun a => prio a = p) : l = l' := by
  have hmem : ∀ a, a ∈ l ↔ a ∈ l' := by
    intro a
    have hm : a ∈ l.filter (fun c => prio c = prio a) ↔ a ∈ l'.filter fun c => prio c = prio a := by
      rw [hf]
    simpa using hm
  induction l generalizing l' with
  | nil =>
    cases l' with
    | nil => rfl
    | cons a l' => exact absurd ((hmem a).mpr List.mem_cons_self) (List.not_mem_nil)
  | cons a l ih =>
    cases l' with
    | nil => exact absurd ((hmem a).mp List.mem_cons_self) (List.not_mem_nil)
    | cons c l' =>
      obtain ⟨ha, hl⟩ := List.pairwise_cons.mp h
      obtain ⟨hc, hl'⟩ := List.pairwise_cons.mp h'
      have hac : prio a = prio c := by
        refine le_antisymm ?_ ?_
        · obtain rfl | hm := List.mem_cons.mp ((hmem a).mp List.mem_cons_self)
          · exact le_rfl
          · exact hc a hm
        · obtain rfl | hm := List.mem_cons.mp ((hmem c).mpr List.mem_cons_self)
          · exact le_rfl
          · exact ha c hm
      have hhead := hf (prio a)
      rw [List.filter_cons_of_pos (by simp), List.filter_cons_of_pos (by simp [hac])] at hhead
      obtain ⟨rfl, -⟩ := List.cons.inj hhead
      have htail : ∀ p, (l.filter fun x => prio x = p) = l'.filter fun x => prio x = p := by
        intro p
        have hp := hf p
        by_cases hap : prio a = p
        · rw [List.filter_cons_of_pos (by simpa using hap),
            List.filter_cons_of_pos (by simpa using hap)] at hp
          exact (List.cons.inj hp).2
        · rwa [List.filter_cons_of_neg (by simpa using hap),
            List.filter_cons_of_neg (by simpa using hap)] at hp
      refine congrArg _ (ih hl hl' htail fun x => ?_)
      have hm : x ∈ l.filter (fun y => prio y = prio x) ↔ x ∈ l'.filter fun y => prio y = prio x := by
        rw [htail]
      simpa using hm

theorem filter_toList (hb : ∀ q, ∀ a ∈ b.bucket q, prio a = q)
    (hm : ∀ q, q ∈ b.mask ↔ b.bucket q ≠ []) :
    (b.toList.filter fun a => prio a = p) = b.bucket p := by
  have hpart : ∀ q, ((b.bucket q).filter fun a => prio a = p) = if q = p then b.bucket p else [] := by
    intro q
    split
    next hqp =>
      subst hqp
      exact List.filter_eq_self.mpr fun a ha => by simpa using hb q a ha
    next hqp =>
      exact List.filter_eq_nil_iff.mpr fun a ha => by simpa [hb q a ha] using hqp
  have hflat : ∀ n, ((List.range n).reverse.flatMap fun q =>
      if q = p then b.bucket p else []) = if p < n then b.bucket p else [] := by
    intro n
    induction n with
    | zero => rfl
    | succ n ih =>
      rw [List.range_succ, List.reverse_append, List.reverse_singleton, List.singleton_append,
        List.flatMap_cons, ih]
      by_cases hn : n = p
      · simp [hn]
      · have hiff : p < n + 1 ↔ p < n := by omega
        simp [hn, hiff]
  rw [Buckets.toList, List.filter_flatMap, List.flatMap_congr fun q _ => hpart q, hflat]
  split
  · rfl
  next hp =>
    have hmask : p ∉ b.mask := fun hin => hp (Finset.le_sup (f := Nat.succ) hin)
    rw [hm, not_not] at hmask
    exact hmask.symm

theorem sorted_toList (hb : ∀ q, ∀ a ∈ b.bucket q, prio a = q) :
    b.toList.Pairwise fun a c => prio c ≤ prio a := by
  rw [Buckets.toList, List.pairwise_flatMap]
  refine ⟨fun q _ => List.pairwise_of_forall_mem_list fun a ha c hc => ?_, ?_⟩
  · rw [hb q a ha, hb q c hc]
  · rw [List.pairwise_reverse]
    refine List.pairwise_lt_range.imp fun {q r} hlt a ha c hc => ?_
    rw [hb r a ha, hb q c hc]
    exact hlt.le

/-- Buckets that are filed hold the list of their elements. -/
theorem Files.represents [DecidableEq α] {key : α → Option ℕ} (h : Files b key)
    (hk : ∀ a p, key a = some p → prio a = p) : Represents b prio b.toList :=
  have hb : ∀ q, ∀ a ∈ b.bucket q, prio a = q := fun q a ha => hk a q ((h.mem a q).mp ha)
  ⟨fun _ => (filter_toList hb h.mask).symm, h.mask, sorted_toList hb⟩

namespace Represents

theorem toList_eq (h : Represents b prio l) : b.toList = l := by
  have hb : ∀ q, ∀ a ∈ b.bucket q, prio a = q := by
    intro q a ha
    rw [h.bucket, List.mem_filter, decide_eq_true_eq] at ha
    exact ha.2
  refine eq_of_filter_eq (sorted_toList hb) h.sorted fun p => ?_
  rw [filter_toList hb h.mask, h.bucket]

theorem empty : Represents .empty prio [] := by
  constructor <;> simp [Buckets.empty]

theorem mem_bucket (h : Represents b prio l) : a ∈ b.bucket p ↔ a ∈ l ∧ prio a = p := by
  rw [h.bucket, List.mem_filter, decide_eq_true_eq]

theorem top_nil (h : Represents b prio []) : b.top = 0 := by
  have hm : b.mask = ∅ := by
    ext p
    simp [h.mask, h.bucket]
  rw [Buckets.top, hm]
  rfl

/-- The first element has the highest priority in use. -/
theorem top_cons (h : Represents b prio (a :: l)) : b.top = prio a + 1 := by
  refine le_antisymm (Finset.sup_le fun p hp => ?_) ?_
  · obtain ⟨c, hb⟩ := List.exists_mem_of_ne_nil _ ((h.mask p).mp hp)
    obtain ⟨hc, rfl⟩ := h.mem_bucket.mp hb
    obtain rfl | hm := List.mem_cons.mp hc
    · exact le_rfl
    · exact Nat.succ_le_succ ((List.pairwise_cons.mp h.sorted).1 c hm)
  · refine Finset.le_sup (f := Nat.succ) ((h.mask _).mpr ?_)
    exact List.ne_nil_of_mem (h.mem_bucket.mpr ⟨List.mem_cons_self, rfl⟩)

theorem bucket_cons (h : Represents b prio (a :: l)) :
    b.bucket (prio a) = a :: l.filter fun c => prio c = prio a := by
  rw [h.bucket, List.filter_cons_of_pos (by simp)]

theorem push (h : Represents b prio l) (a : α) :
    Represents (b.push (prio a) a) prio (enqueued prio a l) where
  bucket p := by
    rw [filter_enqueued h.sorted]
    by_cases hp : prio a = p
    · subst hp
      simp [Buckets.push, h.bucket]
    · simp [Buckets.push, h.bucket, hp, Ne.symm hp]
  mask p := by
    by_cases hp : p = prio a
    · subst hp
      simp [Buckets.push]
    · simp [Buckets.push, hp, h.mask]
  sorted := sorted_enqueued h.sorted

variable [DecidableEq α]

/-- An element is removed wherever it stands. -/
theorem remove (h : Represents b prio l) (ha : a ∈ l) :
    Represents (b.remove (prio a) a) prio (l.erase a) where
  bucket p := by
    by_cases hp : p = prio a
    · subst hp
      simp [Buckets.remove, Buckets.setBucket, h.bucket, List.erase_filter]
    · have hb : (b.remove (prio a) a).bucket p = b.bucket p := Function.update_of_ne hp _ _
      rw [hb, h.bucket, ← List.erase_filter, List.erase_of_not_mem]
      simp [Ne.symm hp]
  mask p := by
    have hin : prio a ∈ b.mask := (h.mask _).mpr
      (List.ne_nil_of_mem (h.mem_bucket.mpr ⟨ha, rfl⟩))
    by_cases hp : p = prio a
    · subst hp
      by_cases hn : (b.bucket (prio a)).erase a = [] <;>
        simp [Buckets.remove, Buckets.setBucket, hn, hin]
    · by_cases hn : (b.bucket (prio a)).erase a = [] <;>
        simp [Buckets.remove, Buckets.setBucket, hn, hp, h.mask]
  sorted := h.sorted.sublist List.erase_sublist

/-- The first element leaves. -/
theorem pop (h : Represents b prio (a :: l)) :
    Represents (b.setBucket (prio a) (l.filter fun c => prio c = prio a)) prio l := by
  have hr := h.remove List.mem_cons_self
  rwa [List.erase_cons_head, Buckets.remove, h.bucket_cons, List.erase_cons_head] at hr

end Represents

/-! ## Many queues -/

/-- Queues over time. `since` is the time when an element came in or last changed its priority; a
queue that is not set up is `none`; `stale` are the elements of queues that were set up again. -/
structure PrioQueues (κ α : Type*) where
  queue : κ → Option (List α)
  prio : α → ℕ
  since : α → ℕ
  stale : α → Bool
  now : ℕ

namespace PrioQueues
variable {κ : Type*} {s s' : PrioQueues κ α} {Q : κ} {t : α}

/-- The order of a queue. -/
def Before (s : PrioQueues κ α) (a c : α) : Prop :=
  s.prio c < s.prio a ∨ (s.prio a = s.prio c ∧ s.since a < s.since c)

/-- No queue holds the element. -/
def Free (s : PrioQueues κ α) (t : α) : Prop := ∀ Q l, s.queue Q = some l → t ∉ l

/-- The queues are in order, and no element is in two of them. -/
structure Ordered (s : PrioQueues κ α) : Prop where
  order : ∀ Q l, s.queue Q = some l → l.Pairwise s.Before
  past : ∀ Q l, s.queue Q = some l → ∀ t ∈ l, s.since t < s.now
  apart : ∀ Q Q' l l', s.queue Q = some l → s.queue Q' = some l' → Q ≠ Q' → ∀ t ∈ l, t ∉ l'

theorem before_irrefl (s : PrioQueues κ α) (a : α) : ¬ s.Before a a := by
  simp [Before]

theorem sorted_of_before (h : l.Pairwise s.Before) : l.Pairwise fun a c => s.prio c ≤ s.prio a :=
  h.imp fun hb => hb.elim le_of_lt fun he => he.1.ge

theorem Ordered.nodup (h : s.Ordered) (hl : s.queue Q = some l) : l.Nodup :=
  (h.order Q l hl).imp fun {a c} (hb : s.Before a c) (he : a = c) => s.before_irrefl c (he ▸ hb)

/-- Queues that lose elements stay in order. -/
theorem Ordered.shrink (h : s.Ordered) (hp : s'.prio = s.prio) (hs : s'.since = s.since)
    (hn : s'.now = s.now) (hq : ∀ Q l', s'.queue Q = some l' → l' = [] ∨
      ∃ l, s.queue Q = some l ∧ l'.Sublist l) : s'.Ordered := by
  refine ⟨fun Q l' hl' => ?_, fun Q l' hl' t ht => ?_, fun Q Q' l l' hl hl' hne t ht ht' => ?_⟩
  · obtain rfl | ⟨l, hl, hsub⟩ := hq Q l' hl'
    · exact List.Pairwise.nil
    · refine ((h.order Q l hl).sublist hsub).imp fun hb => ?_
      rwa [Before, hp, hs]
  · obtain rfl | ⟨l, hl, hsub⟩ := hq Q l' hl'
    · cases ht
    · rw [hs, hn]
      exact h.past Q l hl t (hsub.subset ht)
  · obtain rfl | ⟨m, hm, hsub⟩ := hq Q l hl
    · cases ht
    · obtain rfl | ⟨m', hm', hsub'⟩ := hq Q' l' hl'
      · cases ht'
      · exact h.apart Q Q' m m' hm hm' hne t (hsub.subset ht) (hsub'.subset ht')

/-- What is known of an element that is in no queue does not matter. -/
theorem Ordered.relabel (h : s.Ordered) (hf : s.Free t) (hq : s'.queue = s.queue)
    (hp : ∀ c, c ≠ t → s'.prio c = s.prio c) (hs : ∀ c, c ≠ t → s'.since c = s.since c)
    (hn : s.now ≤ s'.now) : s'.Ordered := by
  have hne : ∀ {Q l c}, s.queue Q = some l → c ∈ l → c ≠ t := by
    rintro Q l c hl hc rfl
    exact hf Q l hl hc
  refine ⟨fun Q l hl => ?_, fun Q l hl c hc => ?_, fun Q Q' l l' hl hl' => ?_⟩
  · rw [hq] at hl
    refine (h.order Q l hl).imp_of_mem fun {a c} ha hc hb => ?_
    rwa [Before, hp a (hne hl ha), hp c (hne hl hc), hs a (hne hl ha), hs c (hne hl hc)]
  · rw [hq] at hl
    rw [hs c (hne hl hc)]
    exact (h.past Q l hl c hc).trans_le hn
  · rw [hq] at hl hl'
    exact h.apart Q Q' l l' hl hl'

variable [DecidableEq α]

/-- The element `t` takes a new place in a queue. -/
theorem pairwise_enter (h : l.Pairwise s.Before) (hpast : ∀ c ∈ l, s.since c < s.now) (ht : t ∉ l)
    (hp : ∀ c, c ≠ t → s'.prio c = s.prio c) (hs : s'.since = Function.update s.since t s.now) :
    (enqueued s'.prio t l).Pairwise s'.Before := by
  have hne : ∀ c ∈ l, c ≠ t := by
    rintro c hc rfl
    exact ht hc
  have hold : l.Pairwise s'.Before := by
    refine h.imp_of_mem fun {a c} ha hc hb => ?_
    rwa [Before, hp a (hne a ha), hp c (hne c hc), hs, Function.update_of_ne (hne a ha),
      Function.update_of_ne (hne c hc)]
  refine pairwise_enqueued hold (sorted_of_before hold) (fun c _ hlt => Or.inl hlt)
    fun c hc hle => ?_
  obtain hlt | he := hle.lt_or_eq
  · exact Or.inl hlt
  · refine Or.inr ⟨he.symm, ?_⟩
    rw [hs, Function.update_self, Function.update_of_ne (hne c hc)]
    exact hpast c hc

variable [DecidableEq κ]

def init (Q : κ) (s : PrioQueues κ α) : PrioQueues κ α :=
  { s with
    queue := Function.update s.queue Q (some [])
    stale := fun t => s.stale t || decide (t ∈ (s.queue Q).getD []) }

/-- The element comes in now. -/
def put (Q : κ) (t : α) (s : PrioQueues κ α) : PrioQueues κ α where
  queue := Function.update s.queue Q ((s.queue Q).map (enqueued s.prio t))
  prio := s.prio
  since := Function.update s.since t s.now
  stale := Function.update s.stale t false
  now := s.now + 1

omit [DecidableEq κ] in
/-- The element leaves its queue. -/
def take (t : α) (s : PrioQueues κ α) : PrioQueues κ α :=
  { s with queue := fun Q => (s.queue Q).map (·.erase t) }

/-- A new priority. An element keeps its place if it is the old one. -/
def reprio (t : α) (p : ℕ) (s : PrioQueues κ α) : PrioQueues κ α :=
  if s.prio t = p then s
  else
    let prio := Function.update s.prio t p
    { s with
      queue := fun Q => (s.queue Q).map fun l => if t ∈ l then enqueued prio t (l.erase t) else l
      prio := prio
      since := Function.update s.since t s.now
      now := s.now + 1 }

def first (Q : κ) (s : PrioQueues κ α) : Option α := (s.queue Q).bind List.head?

/-- The first element leaves its queue. -/
def pop (Q : κ) (s : PrioQueues κ α) : PrioQueues κ α :=
  { s with queue := Function.update s.queue Q ((s.queue Q).map List.tail) }

@[simp] theorem init_queue : (s.init Q).queue = Function.update s.queue Q (some []) := rfl

@[simp] theorem put_queue :
    (s.put Q t).queue = Function.update s.queue Q ((s.queue Q).map (enqueued s.prio t)) := rfl

omit [DecidableEq α] in
@[simp] theorem pop_queue :
    (s.pop Q).queue = Function.update s.queue Q ((s.queue Q).map List.tail) := rfl

theorem Ordered.init (h : s.Ordered) (Q : κ) : (s.init Q).Ordered := by
  refine h.shrink rfl rfl rfl fun Q' l' hl' => ?_
  by_cases hQ : Q' = Q
  · rw [init_queue, hQ, Function.update_self, Option.some.injEq] at hl'
    exact Or.inl hl'.symm
  · rw [init_queue, Function.update_of_ne hQ] at hl'
    exact Or.inr ⟨l', hl', List.Sublist.refl l'⟩

omit [DecidableEq κ] in
theorem Ordered.take (h : s.Ordered) (t : α) : (s.take t).Ordered := by
  refine h.shrink rfl rfl rfl fun Q l' hl' => ?_
  obtain ⟨l, hl, rfl⟩ := Option.map_eq_some_iff.mp hl'
  exact Or.inr ⟨l, hl, List.erase_sublist⟩

omit [DecidableEq α] in
omit [DecidableEq α] in
theorem pop_nil (hl : s.queue Q = some []) : s.pop Q = s := by
  have hq : Function.update s.queue Q ((s.queue Q).map List.tail) = s.queue := by
    rw [hl, Option.map_some, List.tail_nil, ← hl, Function.update_eq_self]
  exact congrArg (fun q => { s with queue := q }) hq

theorem Ordered.pop_eq_take (h : s.Ordered) (hl : s.queue Q = some (t :: l)) :
    s.pop Q = s.take t := by
  have hq : (s.pop Q).queue = (s.take t).queue := by
    funext Q'
    by_cases hQ : Q' = Q
    · subst hQ
      simp [PrioQueues.take, hl]
    · rw [pop_queue, Function.update_of_ne hQ]
      cases hl' : s.queue Q' with
      | none => simp [PrioQueues.take, hl']
      | some l' =>
        have hn := h.apart Q Q' _ l' hl hl' (Ne.symm hQ) t List.mem_cons_self
        simp [PrioQueues.take, hl', List.erase_of_not_mem hn]
  exact congrArg (fun q => { s with queue := q }) hq

theorem put_cases {Q' : κ} {l' : List α} (hl : (s.put Q t).queue Q' = some l') :
    ∃ l, s.queue Q' = some l ∧ l' = if Q' = Q then enqueued s.prio t l else l := by
  by_cases hQ : Q' = Q
  · rw [put_queue, hQ, Function.update_self] at hl
    obtain ⟨l, hm, rfl⟩ := Option.map_eq_some_iff.mp hl
    exact ⟨l, hQ ▸ hm, (if_pos hQ).symm⟩
  · rw [put_queue, Function.update_of_ne hQ] at hl
    exact ⟨l', hl, (if_neg hQ).symm⟩

theorem Ordered.put (h : s.Ordered) (hf : s.Free t) (Q : κ) : (s.put Q t).Ordered := by
  have hmem : ∀ {Q' l l' c}, l' = (if Q' = Q then enqueued s.prio t l else l) → c ∈ l' →
      c ∈ l ∨ (c = t ∧ Q' = Q) := by
    rintro Q' l l' c rfl hc
    split at hc
    · exact (mem_enqueued.mp hc).symm.imp_right fun he => ⟨he, ‹_›⟩
    · exact Or.inl hc
  refine ⟨fun Q' l' hl' => ?_, fun Q' l' hl' c hc => ?_, fun Q₁ Q₂ l₁ l₂ h₁ h₂ hne c hc hc' => ?_⟩
  · obtain ⟨l, hl, rfl⟩ := put_cases hl'
    split
    · exact pairwise_enter (h.order Q' l hl) (h.past Q' l hl) (hf Q' l hl) (fun _ _ => rfl) rfl
    · refine (h.order Q' l hl).imp_of_mem fun {a c} ha hc hb => ?_
      have hat : a ≠ t := fun he => hf Q' l hl (he ▸ ha)
      have hct : c ≠ t := fun he => hf Q' l hl (he ▸ hc)
      simpa [Before, PrioQueues.put, hat, hct] using hb
  · obtain ⟨l, hl, he⟩ := put_cases hl'
    obtain hc | ⟨rfl, -⟩ := hmem he hc
    · have hct : c ≠ t := fun he => hf Q' l hl (he ▸ hc)
      have := h.past Q' l hl c hc
      simp only [PrioQueues.put, Function.update_of_ne hct]
      omega
    · simp [PrioQueues.put]
  · obtain ⟨m₁, hm₁, he₁⟩ := put_cases h₁
    obtain ⟨m₂, hm₂, he₂⟩ := put_cases h₂
    obtain hc | ⟨rfl, rfl⟩ := hmem he₁ hc
    · obtain hc' | ⟨rfl, rfl⟩ := hmem he₂ hc'
      · exact h.apart Q₁ Q₂ m₁ m₂ hm₁ hm₂ hne c hc hc'
      · exact hf Q₁ m₁ hm₁ hc
    · obtain hc' | ⟨-, rfl⟩ := hmem he₂ hc'
      · exact hf Q₂ m₂ hm₂ hc'
      · exact hne rfl

omit [DecidableEq κ] in
theorem Ordered.reprio (h : s.Ordered) (t : α) (p : ℕ) : (s.reprio t p).Ordered := by
  unfold PrioQueues.reprio
  split
  · exact h
  · have hmem : ∀ {l : List α} {c : α}, c ∈ (if t ∈ l then
        enqueued (Function.update s.prio t p) t (l.erase t) else l) → c ∈ l := by
      intro l c hc
      split at hc
      · obtain rfl | hc := mem_enqueued.mp hc
        · assumption
        · exact List.mem_of_mem_erase hc
      · exact hc
    refine ⟨fun Q l' hl' => ?_, fun Q l' hl' c hc => ?_, fun Q Q' l l' hl hl' hne c hc hc' => ?_⟩
    · obtain ⟨l, hl, rfl⟩ := Option.map_eq_some_iff.mp hl'
      split
      · refine pairwise_enter (s := s) ((h.order Q l hl).sublist List.erase_sublist)
          (fun c hc => h.past Q l hl c (List.mem_of_mem_erase hc)) (h.nodup hl).not_mem_erase
          (fun c hc => Function.update_of_ne hc _ _) rfl
      · rename_i hn
        refine (h.order Q l hl).imp_of_mem fun {a c} ha hc hb => ?_
        have hat : a ≠ t := fun he => hn (he ▸ ha)
        have hct : c ≠ t := fun he => hn (he ▸ hc)
        simpa [Before, hat, hct] using hb
    · obtain ⟨l, hl, rfl⟩ := Option.map_eq_some_iff.mp hl'
      have := h.past Q l hl c (hmem hc)
      by_cases hct : c = t
      · simp [hct]
      · simp only [Function.update_of_ne hct]
        omega
    · obtain ⟨m, hm, rfl⟩ := Option.map_eq_some_iff.mp hl
      obtain ⟨m', hm', rfl⟩ := Option.map_eq_some_iff.mp hl'
      exact h.apart Q Q' m m' hm hm' hne c (hmem hc) (hmem hc')

end PrioQueues

end Bucketed
