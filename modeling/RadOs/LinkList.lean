import RadOs.Lib.Ring

/-! # The intrusive list of `list.h`

Every function is the sequence of pointer writes of its C counterpart on a heap
of links. A list head and a list element are nodes of the same type, and an
unlinked node points to itself in both directions.
-/

namespace RadOs
open LinkedRing

variable {ν : Type*} [DecidableEq ν]

def setNext (a b : ν) (l : Links ν) : Links ν := { l with next := Function.update l.next a b }

def setPrev (a b : ν) (l : Links ν) : Links ν := { l with prev := Function.update l.prev a b }

/-- `__list_put_in_between`: the four writes in the order of the source. -/
def listPutInBetween (elem left right : ν) (l : Links ν) : Links ν :=
  setNext left elem (setPrev elem left (setNext elem right (setPrev right elem l)))

/-- `__list_connect_together`. -/
def listConnectTogether (left right : ν) (l : Links ν) : Links ν :=
  setNext left right (setPrev right left l)

def listInit (a : ν) (l : Links ν) : Links ν := setPrev a a (setNext a a l)

def listPrepend (h elem : ν) (l : Links ν) : Links ν := listPutInBetween elem h (l.next h) l

def listAppend (h elem : ν) (l : Links ν) : Links ν := listPutInBetween elem (l.prev h) h l

def listPutAfter (itr elem : ν) (l : Links ν) : Links ν :=
  listPutInBetween elem itr (l.next itr) l

def listPutBefore (itr elem : ν) (l : Links ν) : Links ν :=
  listPutInBetween elem (l.prev itr) itr l

def listUnlink (elem : ν) (l : Links ν) : Links ν :=
  listInit elem (listConnectTogether (l.prev elem) (l.next elem) l)

def listIsEmpty (h : ν) (l : Links ν) : Bool := l.next h = h

def listPeekfirst (h : ν) (l : Links ν) : Option ν := if l.next h = h then none else some (l.next h)

/-- The returned element is already unlinked. -/
def listDetachfirst (h : ν) (l : Links ν) : Option (ν × Links ν) :=
  if l.next h = h then none
  else some (l.next h, listInit (l.next h)
    (listConnectTogether (l.prev (l.next h)) (l.next (l.next h)) l))

/-- A node that is on no list. -/
def SelfLinked (l : Links ν) (a : ν) : Prop := l.next a = a ∧ l.prev a = a

theorem listInit_selfLinked (a : ν) (l : Links ν) : SelfLinked (listInit a l) a := by
  simp [SelfLinked, listInit, setNext, setPrev]

theorem listUnlink_selfLinked (a : ν) (l : Links ν) : SelfLinked (listUnlink a l) a :=
  listInit_selfLinked a _

theorem listInit_next_of_ne {a u : ν} (l : Links ν) (h : u ≠ a) :
    (listInit a l).next u = l.next u := by
  simp [listInit, setNext, setPrev, h]

theorem listInit_prev_of_ne {a u : ν} (l : Links ν) (h : u ≠ a) :
    (listInit a l).prev u = l.prev u := by
  simp [listInit, setNext, setPrev, h]

theorem listInit_ring (a : ν) (l : Links ν) : Ring (listInit a l) a [] :=
  ring_nil (listInit_selfLinked a l).1 (listInit_selfLinked a l).2

theorem listPutInBetween_next {elem left right u : ν} (l : Links ν) (h : u ≠ elem)
    (hl : u ≠ left) : (listPutInBetween elem left right l).next u = l.next u := by
  simp [listPutInBetween, setNext, setPrev, h, hl]

theorem listPutInBetween_prev {elem left right u : ν} (l : Links ν) (h : u ≠ elem)
    (hr : u ≠ right) : (listPutInBetween elem left right l).prev u = l.prev u := by
  simp [listPutInBetween, setNext, setPrev, h, hr]

theorem listUnlink_next {a u : ν} (l : Links ν) (h : u ≠ a) (hp : u ≠ l.prev a) :
    (listUnlink a l).next u = l.next u := by
  simp [listUnlink, listInit, listConnectTogether, setNext, setPrev, h, hp]

theorem listUnlink_prev {a u : ν} (l : Links ν) (h : u ≠ a) (hn : u ≠ l.next a) :
    (listUnlink a l).prev u = l.prev u := by
  simp [listUnlink, listInit, listConnectTogether, setNext, setPrev, h, hn]

omit [DecidableEq ν] in
private theorem lastNode_mem' (h : ν) (xs : List ν) : lastNode h xs ∈ h :: xs := by
  induction xs generalizing h with
  | nil => simp
  | cons x xs ih => exact List.mem_cons_of_mem h (ih x)

omit [DecidableEq ν] in
private theorem firstNode_mem' (xs : List ν) (h : ν) : firstNode xs h ∈ h :: xs := by
  cases xs <;> simp

/-- The common core of the four insertions: the new element lands between its two neighbours. -/
theorem listPutInBetween_ring {l : Links ν} {h e : ν} {xs ys : List ν}
    (r : Ring l h (xs ++ ys)) (he : e ∉ h :: (xs ++ ys)) :
    Ring (listPutInBetween e (lastNode h xs) (firstNode ys h) l) h (xs ++ e :: ys) := by
  have hl : lastNode h xs ≠ e := by
    rintro rfl
    exact he (by have := lastNode_mem' h xs; grind)
  have hr : firstNode ys h ≠ e := by
    rintro rfl
    exact he (by have := firstNode_mem' ys h; grind)
  refine r.insert he ?_ ?_ ?_ ?_ (fun u hu hul => listPutInBetween_next l hu hul)
    (fun u hu hur => listPutInBetween_prev l hu hur)
  · simp [listPutInBetween, setNext, setPrev]
  · simp [listPutInBetween, setNext, setPrev, Ne.symm hl]
  · simp [listPutInBetween, setNext, setPrev, hr]
  · simp [listPutInBetween, setNext, setPrev]

/-- A list that shares no node with the one written to keeps its sequence. -/
theorem listPutInBetween_ring_other {l : Links ν} {h k e : ν} {xs ys zs : List ν}
    (r : Ring l k zs) (he : e ∉ k :: zs) (dis : ∀ u ∈ k :: zs, u ∉ h :: (xs ++ ys)) :
    Ring (listPutInBetween e (lastNode h xs) (firstNode ys h) l) k zs := by
  refine r.frame (fun u hu => listPutInBetween_next l ?_ ?_)
    (fun u hu => listPutInBetween_prev l ?_ ?_)
  · rintro rfl; exact he hu
  · rintro rfl
    exact dis _ hu (by have := lastNode_mem' h xs; grind)
  · rintro rfl; exact he hu
  · rintro rfl
    exact dis _ hu (by have := firstNode_mem' ys h; grind)

theorem listPutBefore_eq {l : Links ν} {h : ν} {xs ys : List ν} (r : Ring l h (xs ++ ys))
    (e : ν) : listPutBefore (firstNode ys h) e l =
      listPutInBetween e (lastNode h xs) (firstNode ys h) l := by
  unfold listPutBefore
  cases ys with
  | nil =>
    have hp := r.prev_head
    simp only [List.append_nil] at hp
    rw [firstNode_nil, hp]
  | cons y ys => rw [firstNode_cons, r.prev_mid]

theorem listPutBefore_ring {l : Links ν} {h e : ν} {xs ys : List ν}
    (r : Ring l h (xs ++ ys)) (he : e ∉ h :: (xs ++ ys)) :
    Ring (listPutBefore (firstNode ys h) e l) h (xs ++ e :: ys) := by
  rw [listPutBefore_eq r]
  exact listPutInBetween_ring r he

theorem listAppend_ring {l : Links ν} {h e : ν} {xs : List ν} (r : Ring l h xs)
    (he : e ∉ h :: xs) : Ring (listAppend h e l) h (xs ++ [e]) := by
  have r' : Ring l h (xs ++ []) := by simpa using r
  exact listPutBefore_ring r' (by simpa using he)

theorem listUnlink_ring {l : Links ν} {h e : ν} {p q : List ν}
    (r : Ring l h (p ++ e :: q)) : Ring (listUnlink e l) h (p ++ q) := by
  have nd := r.nodup
  have hl : lastNode h p ≠ e := by
    rintro rfl
    have := lastNode_mem' h p
    grind
  have hr : firstNode q h ≠ e := by
    rintro rfl
    have := firstNode_mem' q h
    grind
  have hpm := r.prev_mid
  have hn := r.next_mid
  refine r.remove ?_ ?_ (fun u hu hul => listUnlink_next l hu (hpm ▸ hul))
    (fun u hu hur => listUnlink_prev l hu (hn ▸ hur))
  · simp [listUnlink, listInit, listConnectTogether, setNext, setPrev, hpm, hn, hl]
  · simp [listUnlink, listInit, listConnectTogether, setNext, setPrev, hpm, hn, hr]

/-- Unlinking needs no knowledge of the list: every other list keeps its sequence. -/
theorem listUnlink_ring_other {l : Links ν} {h k e : ν} {xs ys zs : List ν}
    (r : Ring l h (xs ++ e :: ys)) (r' : Ring l k zs)
    (dis : ∀ u ∈ k :: zs, u ∉ h :: (xs ++ e :: ys)) : Ring (listUnlink e l) k zs := by
  have hl := lastNode_mem' h xs
  have hr := firstNode_mem' ys h
  refine r'.frame (fun u hu => listUnlink_next l ?_ ?_) (fun u hu => listUnlink_prev l ?_ ?_)
  · rintro rfl; exact dis _ hu (by simp)
  · rintro rfl; rw [r.prev_mid] at hu; exact dis _ hu (by grind)
  · rintro rfl; exact dis _ hu (by simp)
  · rintro rfl; rw [r.next_mid] at hu; exact dis _ hu (by grind)

/-- Unlinking a node that is on no list changes nothing. -/
theorem listUnlink_of_selfLinked {l : Links ν} {a : ν} (h : SelfLinked l a) :
    listUnlink a l = l := by
  obtain ⟨hn, hp⟩ := h
  have e₁ : Function.update l.next a a = l.next := by
    nth_rewrite 2 [← hn]; exact Function.update_eq_self a l.next
  have e₂ : Function.update l.prev a a = l.prev := by
    nth_rewrite 2 [← hp]; exact Function.update_eq_self a l.prev
  simp [listUnlink, listInit, listConnectTogether, setNext, setPrev, hn, hp, e₁, e₂]

omit [DecidableEq ν] in
theorem listDetachfirst_nil [DecidableEq ν] {l : Links ν} {h : ν} (r : Ring l h []) :
    listDetachfirst h l = none := by
  simp [listDetachfirst, r.next_head]

theorem listDetachfirst_cons {l : Links ν} {h x : ν} {xs : List ν} (r : Ring l h (x :: xs)) :
    listDetachfirst h l = some (x, listUnlink x l) := by
  have hne : l.next h ≠ h := fun e => by simpa using r.next_head_eq_iff.mp e
  have hx : l.next h = x := r.next_head
  rw [listDetachfirst, if_neg hne, hx]
  rfl

omit [DecidableEq ν] in
theorem listIsEmpty_iff [DecidableEq ν] {l : Links ν} {h : ν} {xs : List ν} (r : Ring l h xs) :
    listIsEmpty h l = true ↔ xs = [] := by
  simpa [listIsEmpty] using r.next_head_eq_iff

end RadOs
