import Mathlib.Data.List.Basic
import Mathlib.Data.List.Nodup
import Mathlib.Logic.Function.Basic

/-! # Circular doubly linked lists over an arbitrary node type

A heap of links gives every node a successor and a predecessor. A ring is a
head node together with the sequence met on the way back to it. Insertion and
removal are stated for any heap that agrees with the old one outside the two
affected neighbours, so the order of the individual writes plays no part.
-/

namespace LinkedRing

/-- The successor and predecessor stored in every node. -/
structure Links (ν : Type*) where
  next : ν → ν
  prev : ν → ν

variable {ν : Type*}

/-- Following `next` from `a` visits `xs` and arrives at `b`; `prev` leads back. -/
def Path (l : Links ν) : ν → List ν → ν → Prop
  | a, [], b => l.next a = b ∧ l.prev b = a
  | a, x :: xs, b => l.next a = x ∧ l.prev x = a ∧ Path l x xs b

/-- The node before the end of a path that starts at `a`. -/
def lastNode : ν → List ν → ν
  | a, [] => a
  | _, x :: xs => lastNode x xs

/-- The node after the start of a path that ends at `b`. -/
def firstNode : List ν → ν → ν
  | [], b => b
  | x :: _, _ => x

@[simp] theorem lastNode_nil (a : ν) : lastNode a [] = a := rfl

@[simp] theorem lastNode_cons (a x : ν) (xs : List ν) : lastNode a (x :: xs) = lastNode x xs := rfl

@[simp] theorem firstNode_nil (b : ν) : firstNode [] b = b := rfl

@[simp] theorem firstNode_cons (x b : ν) (xs : List ν) : firstNode (x :: xs) b = x := rfl

@[simp] theorem lastNode_concat (a x : ν) (xs : List ν) : lastNode a (xs ++ [x]) = x := by
  induction xs generalizing a with
  | nil => rfl
  | cons y ys ih => exact ih y

theorem Path.next_eq {l : Links ν} {a b : ν} {xs : List ν} (h : Path l a xs b) :
    l.next a = firstNode xs b := by
  cases xs with
  | nil => exact h.1
  | cons x xs => exact h.1

theorem Path.prev_eq {l : Links ν} {a b : ν} {xs : List ν} (h : Path l a xs b) :
    l.prev b = lastNode a xs := by
  induction xs generalizing a with
  | nil => exact h.2
  | cons x xs ih => exact ih h.2.2

theorem path_append {l : Links ν} {a b y : ν} {xs ys : List ν} :
    Path l a (xs ++ y :: ys) b ↔ Path l a xs y ∧ Path l y ys b := by
  induction xs generalizing a with
  | nil => simp [Path, and_assoc]
  | cons x xs ih => simp [Path, ih, and_assoc]

/-- A path only reads the successors of its first nodes and the predecessors of its last ones. -/
theorem Path.frame {l l' : Links ν} {a b : ν} {xs : List ν} (h : Path l a xs b)
    (hn : ∀ u ∈ a :: xs, l'.next u = l.next u)
    (hp : ∀ v ∈ xs ++ [b], l'.prev v = l.prev v) : Path l' a xs b := by
  induction xs generalizing a with
  | nil => exact ⟨(hn a (by simp)).trans h.1, (hp b (by simp)).trans h.2⟩
  | cons x xs ih =>
    refine ⟨(hn a (by simp)).trans h.1, (hp x (by simp)).trans h.2.1, ih h.2.2 ?_ ?_⟩
    · exact fun u hu => hn u (List.mem_cons_of_mem a hu)
    · exact fun v hv => hp v (List.mem_cons_of_mem x hv)

/-- The end of a path is its first node that has no place on it. -/
theorem Path.unique {l : Links ν} {a b : ν} {xs ys : List ν} (hx : Path l a xs b)
    (hy : Path l a ys b) (hbx : b ∉ xs) (hby : b ∉ ys) : xs = ys := by
  induction xs generalizing a ys with
  | nil =>
    cases ys with
    | nil => rfl
    | cons y ys => exact absurd (hx.1.symm.trans hy.1) fun e => hby (by simp [e])
  | cons x xs ih =>
    cases ys with
    | nil => exact absurd (hy.1.symm.trans hx.1) fun e => hbx (by simp [e])
    | cons y ys =>
      obtain rfl : x = y := hx.1.symm.trans hy.1
      rw [ih hx.2.2 hy.2.2 (List.not_mem_of_not_mem_cons hbx) (List.not_mem_of_not_mem_cons hby)]

/-- The list with head node `h` represents the sequence `xs`. -/
structure Ring (l : Links ν) (h : ν) (xs : List ν) : Prop where
  nodup : (h :: xs).Nodup
  path : Path l h xs h

instance Path.decidable [DecidableEq ν] (l : Links ν) :
    ∀ (a : ν) (xs : List ν) (b : ν), Decidable (Path l a xs b)
  | _, [], _ => inferInstanceAs (Decidable (_ ∧ _))
  | a, x :: xs, b =>
    have : Decidable (Path l x xs b) := Path.decidable l x xs b
    inferInstanceAs (Decidable (l.next a = x ∧ l.prev x = a ∧ Path l x xs b))

instance Ring.decidable [DecidableEq ν] (l : Links ν) (h : ν) (xs : List ν) :
    Decidable (Ring l h xs) :=
  decidable_of_iff ((h :: xs).Nodup ∧ Path l h xs h)
    ⟨fun r => ⟨r.1, r.2⟩, fun r => ⟨r.nodup, r.path⟩⟩

theorem Ring.head_notMem {l : Links ν} {h : ν} {xs : List ν} (r : Ring l h xs) : h ∉ xs :=
  (List.nodup_cons.mp r.nodup).1

theorem Ring.elems_nodup {l : Links ν} {h : ν} {xs : List ν} (r : Ring l h xs) : xs.Nodup :=
  (List.nodup_cons.mp r.nodup).2

theorem Ring.unique {l : Links ν} {h : ν} {xs ys : List ν} (r : Ring l h xs) (r' : Ring l h ys) :
    xs = ys :=
  r.path.unique r'.path r.head_notMem r'.head_notMem

theorem Ring.next_head {l : Links ν} {h : ν} {xs : List ν} (r : Ring l h xs) :
    l.next h = firstNode xs h :=
  r.path.next_eq

theorem Ring.prev_head {l : Links ν} {h : ν} {xs : List ν} (r : Ring l h xs) :
    l.prev h = lastNode h xs :=
  r.path.prev_eq

theorem Ring.next_mid {l : Links ν} {h e : ν} {xs ys : List ν} (r : Ring l h (xs ++ e :: ys)) :
    l.next e = firstNode ys h :=
  (path_append.mp r.path).2.next_eq

theorem Ring.prev_mid {l : Links ν} {h e : ν} {p q : List ν} (r : Ring l h (p ++ e :: q)) :
    l.prev e = lastNode h p :=
  (path_append.mp r.path).1.prev_eq

/-- The empty sequence is recognised by looking at the head alone. -/
theorem Ring.next_head_eq_iff {l : Links ν} {h : ν} {xs : List ν} (r : Ring l h xs) :
    l.next h = h ↔ xs = [] := by
  rw [r.next_head]
  cases xs with
  | nil => simp
  | cons x xs =>
    have hx : x ≠ h := fun e => r.head_notMem (by simp [e])
    simp [hx]

theorem ring_nil {l : Links ν} {h : ν} (hn : l.next h = h) (hp : l.prev h = h) : Ring l h [] :=
  ⟨by simp, hn, hp⟩

theorem Ring.frame {l l' : Links ν} {h : ν} {xs : List ν} (r : Ring l h xs)
    (hn : ∀ u ∈ h :: xs, l'.next u = l.next u) (hp : ∀ u ∈ h :: xs, l'.prev u = l.prev u) :
    Ring l' h xs := by
  refine ⟨r.nodup, r.path.frame hn fun v hv => hp v ?_⟩
  simpa [or_comm] using hv

private theorem lastNode_mem (a : ν) (xs : List ν) : lastNode a xs ∈ a :: xs := by
  induction xs generalizing a with
  | nil => simp [lastNode]
  | cons x xs ih => exact List.mem_cons_of_mem a (ih x)

private theorem firstNode_mem (b : ν) (ys : List ν) : firstNode ys b ∈ ys ++ [b] := by
  cases ys <;> simp [firstNode]

private theorem Path.insert_left {l l' : Links ν} {a b e : ν} {xs ys : List ν}
    (h : Path l a (xs ++ ys) b) (nd : (a :: xs).Nodup)
    (hne : l'.next (lastNode a xs) = e) (hpe : l'.prev e = lastNode a xs)
    (hn : ∀ u ∈ a :: xs, u ≠ lastNode a xs → l'.next u = l.next u)
    (hp : ∀ v ∈ xs, l'.prev v = l.prev v) : Path l' a xs e := by
  induction xs generalizing a with
  | nil => exact ⟨hne, hpe⟩
  | cons x xs ih =>
    have ha : a ≠ lastNode a (x :: xs) := fun e => by
      have hm := lastNode_mem x xs
      exact (List.nodup_cons.mp nd).1 (e ▸ hm)
    refine ⟨(hn a (by simp) ha).trans h.1, (hp x (by simp)).trans h.2.1,
      ih h.2.2 (List.nodup_cons.mp nd).2 hne hpe ?_ ?_⟩
    · exact fun u hu hl => hn u (List.mem_cons_of_mem a hu) hl
    · exact fun v hv => hp v (List.mem_cons_of_mem x hv)

private theorem Path.insert_right {l l' : Links ν} {a b e : ν} {ys : List ν}
    (h : Path l a ys b) (nd : (ys ++ [b]).Nodup)
    (hne : l'.next e = firstNode ys b) (hpe : l'.prev (firstNode ys b) = e)
    (hn : ∀ u ∈ ys, l'.next u = l.next u)
    (hp : ∀ v ∈ ys ++ [b], v ≠ firstNode ys b → l'.prev v = l.prev v) : Path l' e ys b := by
  cases ys with
  | nil => exact ⟨hne, hpe⟩
  | cons y ys =>
    refine ⟨hne, hpe, h.2.2.frame hn fun v hv => hp v (List.mem_cons_of_mem y hv) ?_⟩
    have hy := (List.nodup_cons.mp nd).1
    exact fun he => hy (by simpa [← show v = y from he] using hv)

/-- Linking `e` in between two neighbours inserts it at that place. -/
theorem Ring.insert {l l' : Links ν} {h e : ν} {xs ys : List ν} (r : Ring l h (xs ++ ys))
    (he : e ∉ h :: (xs ++ ys))
    (n₁ : l'.next (lastNode h xs) = e) (n₂ : l'.next e = firstNode ys h)
    (p₁ : l'.prev (firstNode ys h) = e) (p₂ : l'.prev e = lastNode h xs)
    (hn : ∀ u, u ≠ e → u ≠ lastNode h xs → l'.next u = l.next u)
    (hp : ∀ u, u ≠ e → u ≠ firstNode ys h → l'.prev u = l.prev u) :
    Ring l' h (xs ++ e :: ys) := by
  have nd := r.nodup
  simp only [List.nodup_cons, List.nodup_append, List.mem_append, not_or] at nd
  obtain ⟨⟨hx, hy⟩, ndx, ndy, dis⟩ := nd
  simp only [List.mem_cons, List.mem_append, not_or] at he
  obtain ⟨eh, ex, ey⟩ := he
  have right : firstNode ys h ∈ ys ++ [h] := firstNode_mem h ys
  have left : lastNode h xs ∈ h :: xs := lastNode_mem h xs
  have sep : ∀ v ∈ xs, v ≠ firstNode ys h := by
    intro v hv hvr
    rcases List.mem_append.mp (hvr ▸ right) with hm | hm
    · exact dis v hv v hm rfl
    · exact hx (by simpa [List.mem_singleton.mp hm] using hv)
  have sep' : ∀ u ∈ ys, u ≠ lastNode h xs := by
    intro u hu hul
    rcases List.mem_cons.mp (hul ▸ left) with hm | hm
    · exact hy (hm ▸ hu)
    · exact dis u hm u hu rfl
  refine ⟨?_, path_append.mpr ⟨?_, ?_⟩⟩
  · simp only [List.nodup_cons, List.mem_append, List.mem_cons, not_or, List.nodup_append]
    refine ⟨⟨hx, Ne.symm eh, hy⟩, ndx, ⟨ey, ndy⟩, ?_⟩
    rintro a ha b (rfl | hb) rfl
    · exact ex ha
    · exact dis a ha a hb rfl
  · refine Path.insert_left r.path (by simp [hx, ndx]) n₁ p₂ (fun u hu hl => hn u ?_ hl)
      (fun v hv => hp v ?_ (sep v hv))
    · rintro rfl
      rcases List.mem_cons.mp hu with hu | hu
      · exact eh hu
      · exact ex hu
    · rintro rfl; exact ex hv
  · cases ys with
    | nil => exact ⟨n₂, p₁⟩
    | cons y ys =>
      refine Path.insert_right (a := lastNode h xs) ⟨?_, ?_, (path_append.mp r.path).2⟩
        ?_ n₂ p₁ (fun u hu => hn u ?_ (sep' u hu)) (fun v hv hl => hp v ?_ hl)
      · cases hxs : xs.reverse with
        | nil =>
          have : xs = [] := by simpa using hxs
          subst this
          exact r.path.1
        | cons z zs =>
          have : xs = zs.reverse ++ [z] := by rw [← List.reverse_reverse xs, hxs]; simp
          subst this
          have hp := r.path
          rw [List.append_assoc, List.singleton_append, path_append] at hp
          simpa using hp.2.1
      · exact (path_append.mp r.path).1.prev_eq
      · simp only [List.cons_append, List.nodup_cons, List.mem_append, List.mem_cons,
          List.not_mem_nil, or_false, not_or] at ndy hy ⊢
        refine ⟨⟨ndy.1, Ne.symm hy.1⟩, ?_⟩
        simp only [List.nodup_append, ndy.2, List.nodup_singleton, List.mem_singleton, true_and,
          forall_eq]
        exact fun a ha e => hy.2 (e ▸ ha)
      · rintro rfl; exact ey hu
      · rintro rfl
        rcases List.mem_append.mp hv with hv | hv
        · exact ey hv
        · exact eh (List.mem_singleton.mp hv)

private theorem Path.join {l l' : Links ν} {a e b : ν} {xs ys : List ν}
    (h₁ : Path l a xs e) (h₂ : Path l e ys b) (nd : (a :: xs).Nodup) (ndy : (ys ++ [b]).Nodup)
    (n₁ : l'.next (lastNode a xs) = firstNode ys b) (p₁ : l'.prev (firstNode ys b) = lastNode a xs)
    (hnx : ∀ u ∈ a :: xs, u ≠ lastNode a xs → l'.next u = l.next u)
    (hpx : ∀ v ∈ xs, l'.prev v = l.prev v)
    (hny : ∀ u ∈ ys, l'.next u = l.next u)
    (hpy : ∀ v ∈ ys ++ [b], v ≠ firstNode ys b → l'.prev v = l.prev v) :
    Path l' a (xs ++ ys) b := by
  induction xs generalizing a with
  | nil => exact Path.insert_right h₂ ndy n₁ p₁ hny hpy
  | cons x xs ih =>
    have ha : a ≠ lastNode a (x :: xs) := fun e => by
      have hm := lastNode_mem x xs
      exact (List.nodup_cons.mp nd).1 (e ▸ hm)
    refine ⟨(hnx a (by simp) ha).trans h₁.1, (hpx x (by simp)).trans h₁.2.1,
      ih h₁.2.2 (List.nodup_cons.mp nd).2 n₁ p₁ ?_ ?_⟩
    · exact fun u hu hl => hnx u (List.mem_cons_of_mem a hu) hl
    · exact fun v hv => hpx v (List.mem_cons_of_mem x hv)

/-- Connecting the two neighbours of `e` removes exactly `e`. -/
theorem Ring.remove {l l' : Links ν} {h e : ν} {xs ys : List ν} (r : Ring l h (xs ++ e :: ys))
    (n₁ : l'.next (lastNode h xs) = firstNode ys h) (p₁ : l'.prev (firstNode ys h) = lastNode h xs)
    (hn : ∀ u, u ≠ e → u ≠ lastNode h xs → l'.next u = l.next u)
    (hp : ∀ u, u ≠ e → u ≠ firstNode ys h → l'.prev u = l.prev u) :
    Ring l' h (xs ++ ys) := by
  have nd := r.nodup
  simp only [List.nodup_cons, List.nodup_append, List.mem_append, List.mem_cons, not_or] at nd
  obtain ⟨⟨hx, he, hy⟩, ndx, ⟨ey, ndy⟩, dis⟩ := nd
  have right : firstNode ys h ∈ ys ++ [h] := firstNode_mem h ys
  have left : lastNode h xs ∈ h :: xs := lastNode_mem h xs
  have ex : e ∉ xs := fun hm => dis e hm e (Or.inl rfl) rfl
  have dis' : ∀ a ∈ xs, ∀ b ∈ ys, a ≠ b := fun a ha b hb => dis a ha b (Or.inr hb)
  obtain ⟨path₁, path₂⟩ := path_append.mp r.path
  refine ⟨?_, Path.join path₁ path₂ (by simp [hx, ndx]) ?_ n₁ p₁ (fun u hu hl => hn u ?_ hl)
    (fun v hv => hp v ?_ ?_) (fun u hu => hn u ?_ ?_) (fun v hv hl => hp v ?_ hl)⟩
  · simp only [List.nodup_cons, List.mem_append, not_or, List.nodup_append]
    exact ⟨⟨hx, hy⟩, ndx, ndy, dis'⟩
  · simp only [List.nodup_append, ndy, List.nodup_singleton, List.mem_singleton, true_and]
    rintro a ha b rfl rfl
    exact hy ha
  · rintro rfl
    rcases List.mem_cons.mp hu with hu | hu
    · exact he hu.symm
    · exact ex hu
  · rintro rfl; exact ex hv
  · intro hvr
    rcases List.mem_append.mp (hvr ▸ right) with hm | hm
    · exact dis' v hv v hm rfl
    · exact hx (by simpa [List.mem_singleton.mp hm] using hv)
  · rintro rfl; exact ey hu
  · intro hul
    rcases List.mem_cons.mp (hul ▸ left) with hm | hm
    · exact hy (hm ▸ hu)
    · exact dis' u hm u hu rfl
  · rintro rfl
    rcases List.mem_append.mp hv with hv | hv
    · exact ey hv
    · exact he (List.mem_singleton.mp hv).symm

end LinkedRing
