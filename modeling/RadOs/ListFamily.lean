import RadOs.LinkList
import RadOs.Lib.Run

/-! # Many lists in one heap

The kernel keeps all its lists in one heap, and elements move from one to
another. A family of lists maps the head of every list to its sequence. Each
function of `list.h` changes the one list it is about, whichever it is, and no
other.
-/

namespace RadOs
open LinkedRing Runs

variable {ν : Type*}

/-- The sequences of lists, by their heads. -/
abbrev Family (ν : Type*) := ν → Option (List ν)

/-- The node is no head and no element. -/
def Family.Loose (L : Family ν) (u : ν) : Prop := ∀ h xs, L h = some xs → u ∉ h :: xs

/-- The heap holds the lists of the family, and they have no node in common. -/
structure Lists (l : Links ν) (L : Family ν) : Prop where
  ring : ∀ h xs, L h = some xs → Ring l h xs
  disjoint : ∀ h k xs ys, L h = some xs → L k = some ys → h ≠ k → ∀ u ∈ h :: xs, u ∉ k :: ys

variable [DecidableEq ν] {l l' : Links ν} {L L' : Family ν} {h e u itr : ν} {xs ys p q : List ν}

/-! ## The functions on sequences -/

/-- `e` before `itr` in the list with the head `h`. -/
def putBeforeSeq (h itr e : ν) (xs : List ν) : List ν :=
  if itr = h then xs ++ [e] else xs.flatMap fun x => if x = itr then [e, x] else [x]

/-- `e` after `itr` in the list with the head `h`. -/
def putAfterSeq (h itr e : ν) (xs : List ν) : List ν :=
  if itr = h then e :: xs else xs.flatMap fun x => if x = itr then [x, e] else [x]

theorem flatMap_of_notMem {f : ν → List ν} (h : itr ∉ xs) :
    (xs.flatMap fun x => if x = itr then f x else [x]) = xs := by
  induction xs with
  | nil => rfl
  | cons x xs ih =>
    have hx : x ≠ itr := fun he => h (by simp [he])
    simp [List.flatMap_cons, hx, ih fun hm => h (by simp [hm])]

theorem flatMap_mid {f : ν → List ν} (hp : itr ∉ p) (hq : itr ∉ q) :
    ((p ++ itr :: q).flatMap fun x => if x = itr then f x else [x]) = p ++ f itr ++ q := by
  simp [List.flatMap_append, List.flatMap_cons, flatMap_of_notMem hp, flatMap_of_notMem hq]

theorem putBeforeSeq_of_notMem (hu : itr ∉ h :: xs) : putBeforeSeq h itr e xs = xs := by
  simp only [List.mem_cons, not_or] at hu
  rw [putBeforeSeq, if_neg hu.1, flatMap_of_notMem hu.2]

theorem putAfterSeq_of_notMem (hu : itr ∉ h :: xs) : putAfterSeq h itr e xs = xs := by
  simp only [List.mem_cons, not_or] at hu
  rw [putAfterSeq, if_neg hu.1, flatMap_of_notMem hu.2]

omit [DecidableEq ν] in
/-- Either a list is not touched, or its head or an element is. -/
theorem split_at (r : (h :: xs).Nodup) (hu : itr ∈ h :: xs) :
    itr = h ∨ (itr ≠ h ∧ ∃ p q, xs = p ++ itr :: q ∧ itr ∉ p ∧ itr ∉ q) := by
  obtain rfl | hm := List.mem_cons.mp hu
  · exact Or.inl rfl
  · obtain ⟨p, q, rfl⟩ := List.append_of_mem hm
    simp only [List.nodup_cons, List.nodup_append, List.mem_append, List.mem_cons] at r
    refine Or.inr ⟨fun he => r.1 (Or.inr (Or.inl he.symm)), p, q, rfl, fun hp => ?_, r.2.2.1.1⟩
    exact r.2.2.2 itr hp itr (Or.inl rfl) rfl

/-! ## The functions on families -/

/-- The functions of `list.h` that change a list. -/
inductive ListOp (ν : Type*) where
  | init (a : ν)
  | append (h elem : ν)
  | prepend (h elem : ν)
  | putBefore (itr elem : ν)
  | putAfter (itr elem : ν)
  | unlink (elem : ν)
  | detachfirst (h : ν)

namespace ListOp

def exec : ListOp ν → Links ν → Links ν
  | init a, l => listInit a l
  | append h e, l => listAppend h e l
  | prepend h e, l => listPrepend h e l
  | putBefore itr e, l => listPutBefore itr e l
  | putAfter itr e, l => listPutAfter itr e l
  | unlink e, l => listUnlink e l
  | detachfirst h, l => ((listDetachfirst h l).map Prod.snd).getD l

/-- What becomes of the sequences. -/
def apply : ListOp ν → Family ν → Family ν
  | init a, L => Function.update L a (some [])
  | append h e, L => Function.update L h ((L h).map (· ++ [e]))
  | prepend h e, L => Function.update L h ((L h).map (e :: ·))
  | putBefore itr e, L => fun h => (L h).map (putBeforeSeq h itr e)
  | putAfter itr e, L => fun h => (L h).map (putAfterSeq h itr e)
  | unlink e, L => fun h => (L h).map (·.erase e)
  | detachfirst h, L => Function.update L h ((L h).map List.tail)

/-- An inserted node is on no list, and a removed one is on a list. -/
def Allowed (L : Family ν) : ListOp ν → Prop
  | init a => ∀ h xs, L h = some xs → a ∉ xs
  | append h e | prepend h e => (L h).isSome ∧ L.Loose e
  | putBefore itr e | putAfter itr e => ¬ L.Loose itr ∧ L.Loose e
  | unlink e => ∃ h xs, L h = some xs ∧ e ∈ xs
  | detachfirst h => (L h).isSome

/-- The node that tells the list which is changed. -/
def place : ListOp ν → ν
  | init a => a
  | append h _ | prepend h _ => h
  | putBefore itr _ | putAfter itr _ => itr
  | unlink e => e
  | detachfirst h => h

/-- The node that is taken off its list. -/
def removed (l : Links ν) : ListOp ν → Option ν
  | unlink e => some e
  | detachfirst h => (listDetachfirst h l).map Prod.fst
  | _ => none

end ListOp

/-! ## One list changes -/

theorem Lists.change (H : Lists l L) (hr : Ring l' h ys)
    (ho : ∀ k zs, k ≠ h → L k = some zs → Ring l' k zs ∧ ∀ u ∈ h :: ys, u ∉ k :: zs) :
    Lists l' (Function.update L h (some ys)) := by
  refine ⟨fun k zs hk => ?_, fun j k zs ws hj hk hne u hu => ?_⟩
  · by_cases he : k = h
    · subst he
      rw [Function.update_self, Option.some.injEq] at hk
      exact hk ▸ hr
    · rw [Function.update_of_ne he] at hk
      exact (ho k zs he hk).1
  · by_cases hjh : j = h
    · subst hjh
      rw [Function.update_self, Option.some.injEq] at hj
      rw [Function.update_of_ne (Ne.symm hne)] at hk
      exact (ho k ws (Ne.symm hne) hk).2 u (hj ▸ hu)
    · rw [Function.update_of_ne hjh] at hj
      by_cases hkh : k = h
      · subst hkh
        rw [Function.update_self, Option.some.injEq] at hk
        intro hm
        exact (ho j zs hjh hj).2 u (hk ▸ hm) hu
      · rw [Function.update_of_ne hkh] at hk
        exact H.disjoint j k zs ws hj hk hne u hu

omit [DecidableEq ν] in
/-- A list whose elements are old or come from nowhere has no node in common with another one. -/
theorem Lists.apart (H : Lists l L) (hL : L h = some xs) (hs : ∀ u ∈ ys, u ∈ xs ∨ L.Loose u)
    {k : ν} {zs : List ν} (hk : k ≠ h) (hz : L k = some zs) : ∀ u ∈ h :: ys, u ∉ k :: zs := by
  intro u hu
  obtain rfl | hm := List.mem_cons.mp hu
  · exact H.disjoint u k xs zs hL hz (Ne.symm hk) u (by simp)
  · obtain hx | hl := hs u hm
    · exact H.disjoint h k xs zs hL hz (Ne.symm hk) u (by simp [hx])
    · exact hl k zs hz

theorem Lists.insert (H : Lists l L) (hL : L h = some (xs ++ ys)) (he : L.Loose e) :
    Lists (listPutInBetween e (lastNode h xs) (firstNode ys h) l)
      (Function.update L h (some (xs ++ e :: ys))) := by
  refine H.change (listPutInBetween_ring (H.ring _ _ hL) (he _ _ hL)) fun k zs hk hz =>
    ⟨?_, H.apart hL (fun u hu => ?_) hk hz⟩
  · exact listPutInBetween_ring_other (H.ring _ _ hz) (he _ _ hz) (H.disjoint _ _ _ _ hz hL hk)
  · obtain rfl | hm : u = e ∨ u ∈ xs ++ ys := by
      simp only [List.mem_append, List.mem_cons] at hu ⊢
      tauto
    · exact Or.inr he
    · exact Or.inl hm

theorem Lists.remove (H : Lists l L) (hL : L h = some (xs ++ e :: ys)) :
    Lists (listUnlink e l) (Function.update L h (some (xs ++ ys))) := by
  refine H.change (listUnlink_ring (H.ring _ _ hL)) fun k zs hk hz =>
    ⟨?_, H.apart hL (fun u hu => Or.inl ?_) hk hz⟩
  · exact listUnlink_ring_other (H.ring _ _ hL) (H.ring _ _ hz) (H.disjoint _ _ _ _ hz hL hk)
  · simp only [List.mem_append, List.mem_cons] at hu ⊢
    tauto

theorem Lists.init (H : Lists l L) (hu : ∀ h xs, L h = some xs → u ∉ xs) :
    Lists (listInit u l) (Function.update L u (some [])) := by
  refine H.change (listInit_ring u l) fun k zs hk hz => ?_
  have hne : ∀ v ∈ k :: zs, v ≠ u := by
    rintro v hv rfl
    obtain he | hm := List.mem_cons.mp hv
    · exact hk he.symm
    · exact hu k zs hz hm
  refine ⟨(H.ring k zs hz).frame (fun v hv => listInit_next_of_ne l (hne v hv))
    fun v hv => listInit_prev_of_ne l (hne v hv), fun v hv hm => ?_⟩
  exact hne v hm (by simpa using hv)

theorem Lists.initAll (H : Lists l L) {us : List ν}
    (hu : ∀ u ∈ us, ∀ h xs, L h = some xs → u ∉ xs) :
    Lists (us.foldl (fun l u => listInit u l) l) fun h => if h ∈ us then some [] else L h := by
  induction us generalizing l L with
  | nil => simpa using H
  | cons u us ih =>
    have hrest := ih (H.init (hu u List.mem_cons_self)) fun v hv h xs hL => by
      by_cases he : h = u
      · rw [he, Function.update_self, Option.some.injEq] at hL
        simp [← hL]
      · rw [Function.update_of_ne he] at hL
        exact hu v (List.mem_cons_of_mem u hv) h xs hL
    refine Eq.mp (congrArg _ (funext fun h => ?_)) hrest
    by_cases he : h = u <;> simp [he]

/-- A change that every list without the node `u` ignores is a change of the list with it. -/
theorem Lists.map_eq_update (H : Lists l L) (hL : L h = some xs) (hu : u ∈ h :: xs)
    {f : ν → List ν → List ν} (hf : ∀ k zs, u ∉ k :: zs → f k zs = zs) :
    (fun k => (L k).map (f k)) = Function.update L h (some (f h xs)) := by
  funext k
  by_cases hk : k = h
  · subst hk
    rw [hL, Function.update_self]
    rfl
  · rw [Function.update_of_ne hk]
    cases hz : L k with
    | none => rfl
    | some zs =>
      rw [Option.map_some, hf k zs fun hm => H.disjoint h k xs zs hL hz (Ne.symm hk) u hu hm]

theorem Lists.putBefore (H : Lists l L) (hL : L h = some xs) (hu : itr ∈ h :: xs)
    (he : L.Loose e) :
    Lists (listPutBefore itr e l) (Function.update L h (some (putBeforeSeq h itr e xs))) := by
  have hr := H.ring _ _ hL
  obtain rfl | ⟨hne, p, q, rfl, hp, hq⟩ := split_at hr.nodup hu
  · have hins := H.insert (show L itr = some (xs ++ []) by simpa using hL) he
    have hr' : Ring l itr (xs ++ []) := by simpa using hr
    have heq : listPutBefore itr e l = listPutInBetween e (lastNode itr xs) (firstNode [] itr) l :=
      listPutBefore_eq hr' e
    rw [heq, putBeforeSeq, if_pos rfl]
    exact hins
  · have heq : listPutBefore itr e l =
        listPutInBetween e (lastNode h p) (firstNode (itr :: q) h) l := listPutBefore_eq hr e
    rw [heq, putBeforeSeq, if_neg hne, flatMap_mid hp hq]
    have hins := H.insert hL he
    simpa using hins

theorem Lists.putAfter (H : Lists l L) (hL : L h = some xs) (hu : itr ∈ h :: xs)
    (he : L.Loose e) :
    Lists (listPutAfter itr e l) (Function.update L h (some (putAfterSeq h itr e xs))) := by
  have hr := H.ring _ _ hL
  obtain rfl | ⟨hne, p, q, rfl, hp, hq⟩ := split_at hr.nodup hu
  · have hins := H.insert (show L itr = some ([] ++ xs) from hL) he
    rw [listPutAfter, hr.next_head, putAfterSeq, if_pos rfl]
    exact hins
  · have hins := H.insert (show L h = some ((p ++ [itr]) ++ q) by simpa using hL) he
    rw [listPutAfter, hr.next_mid, putAfterSeq, if_neg hne, flatMap_mid hp hq]
    simpa using hins

theorem Lists.unlink (H : Lists l L) (hL : L h = some xs) (he : e ∈ xs) :
    Lists (listUnlink e l) (Function.update L h (some (xs.erase e))) := by
  obtain ⟨p, q, rfl⟩ := List.append_of_mem he
  have hp : e ∉ p := by
    have hn := (H.ring _ _ hL).elems_nodup
    rw [List.nodup_append] at hn
    exact fun hm => hn.2.2 e hm e (by simp) rfl
  rw [List.erase_append_right _ hp, List.erase_cons_head]
  exact H.remove hL

/-! ## Every function -/

omit [DecidableEq ν] in
theorem Family.not_loose (hu : ¬ L.Loose u) : ∃ h xs, L h = some xs ∧ u ∈ h :: xs := by
  simp only [Family.Loose, not_forall, not_not] at hu
  obtain ⟨h, xs, hL, hm⟩ := hu
  exact ⟨h, xs, hL, hm⟩

theorem Lists.exec_append (H : Lists l L) (hh : (L h).isSome) (he : L.Loose e) :
    Lists (listAppend h e l) ((ListOp.append h e).apply L) := by
  obtain ⟨xs, hL⟩ := Option.isSome_iff_exists.mp hh
  have hput := H.putBefore hL List.mem_cons_self he
  rw [putBeforeSeq, if_pos rfl] at hput
  rw [ListOp.apply, hL]
  exact hput

theorem Lists.exec_prepend (H : Lists l L) (hh : (L h).isSome) (he : L.Loose e) :
    Lists (listPrepend h e l) ((ListOp.prepend h e).apply L) := by
  obtain ⟨xs, hL⟩ := Option.isSome_iff_exists.mp hh
  have hput := H.putAfter hL List.mem_cons_self he
  rw [putAfterSeq, if_pos rfl] at hput
  rw [ListOp.apply, hL]
  exact hput

theorem Lists.exec_detachfirst (H : Lists l L) (hL : L h = some xs) :
    Lists ((ListOp.detachfirst h).exec l) ((ListOp.detachfirst h).apply L) ∧
      (listDetachfirst h l).map Prod.fst = xs.head? := by
  cases xs with
  | nil =>
    have hsame : Function.update L h (some []) = L := by
      rw [← hL, Function.update_eq_self]
    rw [ListOp.exec, ListOp.apply, listDetachfirst_nil (H.ring _ _ hL), hL]
    exact ⟨hsame.symm ▸ H, rfl⟩
  | cons x xs =>
    rw [ListOp.exec, ListOp.apply, listDetachfirst_cons (H.ring _ _ hL), hL]
    exact ⟨H.remove (show L h = some ([] ++ x :: xs) from hL), rfl⟩

/-- The step lemma. -/
theorem Lists.exec (H : Lists l L) {op : ListOp ν} (ha : op.Allowed L) :
    Lists (op.exec l) (op.apply L) := by
  cases op with
  | init a => exact H.init ha
  | append h e => exact H.exec_append ha.1 ha.2
  | prepend h e => exact H.exec_prepend ha.1 ha.2
  | putBefore itr e =>
    obtain ⟨h, xs, hL, hm⟩ := Family.not_loose ha.1
    rw [ListOp.apply, H.map_eq_update hL hm fun k zs => putBeforeSeq_of_notMem]
    exact H.putBefore hL hm ha.2
  | putAfter itr e =>
    obtain ⟨h, xs, hL, hm⟩ := Family.not_loose ha.1
    rw [ListOp.apply, H.map_eq_update hL hm fun k zs => putAfterSeq_of_notMem]
    exact H.putAfter hL hm ha.2
  | unlink e =>
    obtain ⟨h, xs, hL, hm⟩ := ha
    rw [ListOp.apply, H.map_eq_update hL (List.mem_cons_of_mem h hm) (f := fun _ xs => xs.erase e)
      fun k zs hz => List.erase_of_not_mem fun he => hz (List.mem_cons_of_mem k he)]
    exact H.unlink hL hm
  | detachfirst h =>
    obtain ⟨xs, hL⟩ := Option.isSome_iff_exists.mp ha
    exact (H.exec_detachfirst hL).1

/-- A list that has nothing to do with the place of the change keeps its sequence. -/
theorem ListOp.apply_other {op : ListOp ν} (hL : L h = some xs) (hp : op.place ∉ h :: xs) :
    op.apply L h = some xs := by
  have hne : h ≠ op.place := fun he => hp (he ▸ List.mem_cons_self)
  have hnm : op.place ∉ xs := fun hm => hp (List.mem_cons_of_mem h hm)
  cases op with
  | init a => exact (Function.update_of_ne hne _ _).trans hL
  | append k e => exact (Function.update_of_ne hne _ _).trans hL
  | prepend k e => exact (Function.update_of_ne hne _ _).trans hL
  | putBefore itr e =>
    exact (congrArg (Option.map _) hL).trans (congrArg some (putBeforeSeq_of_notMem hp))
  | putAfter itr e =>
    exact (congrArg (Option.map _) hL).trans (congrArg some (putAfterSeq_of_notMem hp))
  | unlink e => exact (congrArg (Option.map _) hL).trans (congrArg some (List.erase_of_not_mem hnm))
  | detachfirst k => exact (Function.update_of_ne hne _ _).trans hL

theorem Lists.loose_erase (H : Lists l L) (hL : L h = some xs) (he : e ∈ xs) :
    Family.Loose (Function.update L h (some (xs.erase e))) e := by
  have hr := H.ring _ _ hL
  intro k zs hk hm
  by_cases hkh : k = h
  · subst hkh
    rw [Function.update_self, Option.some.injEq] at hk
    subst hk
    obtain rfl | hm := List.mem_cons.mp hm
    · exact hr.head_notMem he
    · exact hr.elems_nodup.not_mem_erase hm
  · rw [Function.update_of_ne hkh] at hk
    exact H.disjoint h k xs zs hL hk (Ne.symm hkh) e (List.mem_cons_of_mem h he) hm

/-- A removed node is unlinked and on no list. -/
theorem Lists.removed (H : Lists l L) {op : ListOp ν} (ha : op.Allowed L)
    (he : op.removed l = some e) : SelfLinked (op.exec l) e ∧ (op.apply L).Loose e := by
  cases op with
  | unlink u =>
    obtain rfl : u = e := Option.some.inj he
    obtain ⟨h, xs, hL, hm⟩ := ha
    rw [ListOp.apply, H.map_eq_update hL (List.mem_cons_of_mem h hm) (f := fun _ xs => xs.erase u)
      fun k zs hz => List.erase_of_not_mem fun he => hz (List.mem_cons_of_mem k he)]
    exact ⟨listUnlink_selfLinked u l, H.loose_erase hL hm⟩
  | detachfirst h =>
    obtain ⟨xs, hL⟩ := Option.isSome_iff_exists.mp ha
    cases xs with
    | nil =>
      rw [ListOp.removed, listDetachfirst_nil (H.ring _ _ hL)] at he
      cases he
    | cons x xs =>
      rw [ListOp.removed, listDetachfirst_cons (H.ring _ _ hL)] at he
      obtain rfl : x = e := Option.some.inj he
      have hl := H.loose_erase hL List.mem_cons_self
      rw [List.erase_cons_head] at hl
      rw [ListOp.exec, ListOp.apply, listDetachfirst_cons (H.ring _ _ hL), hL]
      exact ⟨listUnlink_selfLinked x l, hl⟩
  | _ => cases he

/-- Every function does to the family what it says, and nothing else. -/
theorem list_functions_on_sequences (H : Lists l L) {op : ListOp ν} (ha : op.Allowed L) :
    Lists (op.exec l) (op.apply L) ∧
    (∀ h xs, L h = some xs → op.place ∉ h :: xs → op.apply L h = some xs) ∧
    (∀ e, op.removed l = some e → SelfLinked (op.exec l) e ∧ (op.apply L).Loose e) ∧
    (∀ h xs, L h = some xs → (listDetachfirst h l).map Prod.fst = xs.head?) ∧
    ∀ h xs, L h = some xs → (listIsEmpty h l = true ↔ xs = []) := by
  refine ⟨H.exec ha, fun h xs => ListOp.apply_other, fun e => H.removed ha, fun h xs hL => ?_,
    fun h xs hL => listIsEmpty_iff (H.ring h xs hL)⟩
  exact (H.exec_detachfirst hL).2

/-- The elements 2 and 3 in the list with the head 0, and 4 in the list with the head 1. -/
def twoLinks : Links ℕ := ⟨fun u => [2, 4, 3, 0, 1].getD u u, fun u => [3, 4, 0, 2, 1].getD u u⟩

def twoLists : Family ℕ := fun h => if h = 0 then some [2, 3] else if h = 1 then some [4] else none

theorem twoLists_some {h : ℕ} {xs : List ℕ} (hL : twoLists h = some xs) :
    h = 0 ∧ xs = [2, 3] ∨ h = 1 ∧ xs = [4] := by
  unfold twoLists at hL
  split_ifs at hL with h₀ h₁
  · exact .inl ⟨h₀, (Option.some.inj hL).symm⟩
  · exact .inr ⟨h₁, (Option.some.inj hL).symm⟩

theorem lists_two : Lists twoLinks twoLists := by
  refine ⟨fun h xs hL => ?_, fun h k xs ys hh hk hne => ?_⟩
  · obtain ⟨rfl, rfl⟩ | ⟨rfl, rfl⟩ := twoLists_some hL <;> decide
  · obtain ⟨rfl, rfl⟩ | ⟨rfl, rfl⟩ := twoLists_some hh <;>
      obtain ⟨rfl, rfl⟩ | ⟨rfl, rfl⟩ := twoLists_some hk <;> first | exact absurd rfl hne | decide

/-- An element moves from one list to the end of the other. -/
theorem list_functions_on_sequences_moved : ∃ L : Family ℕ,
    Lists (listAppend 1 2 (listUnlink 2 twoLinks)) L ∧ L 0 = some [3] ∧ L 1 = some [4, 2] := by
  have hu : (ListOp.unlink 2).Allowed twoLists := ⟨0, [2, 3], rfl, by simp⟩
  obtain ⟨H, -, hrem, -⟩ := list_functions_on_sequences lists_two hu
  have ha : (ListOp.append 1 2).Allowed ((ListOp.unlink 2).apply twoLists) := ⟨rfl, (hrem 2 rfl).2⟩
  exact ⟨_, (list_functions_on_sequences H ha).1, rfl, rfl⟩

/-! ## Whole runs -/

/-- The lists over time. A head whose list is not used any more may be forgotten. -/
def listSystem (ν : Type*) [DecidableEq ν] : System (Links ν × Family ν) (ListOp ν) where
  start s := Lists s.1 s.2
  step s op s' := op.Allowed s.2 ∧ s'.1 = op.exec s.1 ∧
    ∀ h xs, s'.2 h = some xs → op.apply s.2 h = some xs

omit [DecidableEq ν] in
theorem Lists.mono (H : Lists l L) (hL : ∀ h xs, L' h = some xs → L h = some xs) : Lists l L' :=
  ⟨fun h xs hh => H.ring h xs (hL h xs hh),
    fun h k xs ys hh hk => H.disjoint h k xs ys (hL h xs hh) (hL k ys hk)⟩

omit [DecidableEq ν] in
/-- The links of nodes in no list do not matter. -/
theorem Lists.frame (H : Lists l L) (hl : ∀ h xs, L h = some xs → ∀ u ∈ h :: xs,
    l'.next u = l.next u ∧ l'.prev u = l.prev u) : Lists l' L :=
  ⟨fun h xs hh => (H.ring h xs hh).frame (fun u hu => (hl h xs hh u hu).1)
    fun u hu => (hl h xs hh u hu).2, H.disjoint⟩

theorem lists_of_reachable {s : Links ν × Family ν} (h : (listSystem ν).Reachable s) :
    Lists s.1 s.2 := by
  refine h.invariant (fun s hs => hs) ?_
  rintro s op s' hs ⟨ha, he, hL⟩
  change Lists s'.1 s'.2
  rw [he]
  exact (Lists.exec hs ha).mono hL

end RadOs
