import Mathlib.Logic.Relation
import Mathlib.Order.Basic

/-! # Lock hierarchies

`request t m` says that `t` waits for the resource `m`, and `owns t m` that it
has got it. If everybody requests only what ranks above all that he owns, nobody
waits for himself, however long the chain of owners between is.
-/

namespace Hierarchy
open Relation

variable {T M P : Type*} [Preorder P] {request owns : T → M → Prop} {rank : M → P} {t u : T}

/-- `t` waits for the owner `o` of what it requests. -/
def WaitsFor (request owns : T → M → Prop) (t o : T) : Prop := ∃ m, request t m ∧ owns o m

/-- Requests go upwards in the hierarchy. -/
def Ascends (rank : M → P) (request owns : T → M → Prop) : Prop :=
  ∀ t m m', request t m → owns t m' → rank m' < rank m

/-- Along a chain the requests go upwards. -/
theorem Ascends.lt_of_chain (h : Ascends rank request owns)
    (hc : TransGen (WaitsFor request owns) t u) {m' : M} (hu : request u m') :
    ∃ m, request t m ∧ rank m < rank m' := by
  induction hc generalizing m' with
  | single hw =>
    obtain ⟨m, hm, ho⟩ := hw
    exact ⟨m, hm, h _ _ _ hu ho⟩
  | tail _ hw ih =>
    obtain ⟨m₁, hm₁, ho⟩ := hw
    obtain ⟨m, hm, hlt⟩ := ih hm₁
    exact ⟨m, hm, hlt.trans (h _ _ _ hu ho)⟩

/-- Where everybody has at most one request, the chains have no cycles. -/
theorem Ascends.acyclic (h : Ascends rank request owns)
    (hr : ∀ t m m', request t m → request t m' → m = m') (t : T) :
    ¬ TransGen (WaitsFor request owns) t t := by
  intro hc
  obtain ⟨u, ⟨m', hm', -⟩, -⟩ := TransGen.head'_iff.mp hc
  obtain ⟨m, hm, hlt⟩ := h.lt_of_chain hc hm'
  rw [hr t m m' hm hm'] at hlt
  exact hlt.false

end Hierarchy
