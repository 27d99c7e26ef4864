import Mathlib.Data.List.Chain

/-!
# What a system said last

A system that says something now and then.  Each thing it says is linked to what
it said before, because its state remembers that much of it: `last s m` says that
`m` may be the last that was said in the state `s`.

## Main definitions

* `Trail last linked s xs` — `xs` ends with the last that was said in `s`.
* `SaidAfter R said` — what was said before each thing that is said.
-/

set_option autoImplicit false

namespace HlOrderbook

variable {S M : Type} {last : S → M → Prop} {linked : M → M → Prop} {s s' : S} {xs ys : List M}

/-- Some of what was said, without a gap, to the end. -/
structure Trail (last : S → M → Prop) (linked : M → M → Prop) (s : S) (xs : List M) : Prop where
  chain : xs.IsChain linked
  last : ∀ m ∈ xs.getLast?, last s m

namespace Trail

theorem nil (s : S) : Trail last linked s [] := ⟨.nil, by simp⟩

/-- What was said less long ago. -/
theorem suffix (h : Trail last linked s xs) (hsuffix : ys <:+ xs) : Trail last linked s ys := by
  refine ⟨h.chain.suffix hsuffix, ?_⟩
  obtain ⟨zs, rfl⟩ := hsuffix
  intro m hm
  apply h.last m
  rw [Option.mem_def] at hm ⊢
  rw [List.getLast?_append, hm, Option.some_or]

/-- Nothing is said, and the state remembers as much. -/
theorem mono (h : Trail last linked s xs) (hlast : ∀ m, last s m → last s' m) :
    Trail last linked s' xs := ⟨h.chain, fun m hm => hlast m (h.last m hm)⟩

/-- Something is said. -/
theorem concat {m : M} (h : Trail last linked s xs) (hlinked : ∀ m', last s m' → linked m' m)
    (hlast : last s' m) : Trail last linked s' (xs ++ [m]) := by
  constructor
  · refine h.chain.append (.singleton m) ?_
    intro m' hm' y hy
    cases hy
    exact hlinked m' (h.last m' hm')
  · intro m' hm'
    rw [List.getLast?_append, List.getLast?_singleton, Option.some_or] at hm'
    cases hm'
    exact hlast

/-- The first two are linked. -/
theorem linked_of_cons {m m' : M} (h : Trail last linked s (m :: m' :: xs)) : linked m m' :=
  (List.isChain_cons_cons.mp h.chain).1

end Trail

/-! ## What was said before -/

/-- Each thing that is said stands in a relation to all that was said before it. -/
def SaidAfter (R : List M → M → Prop) (said : List M) : Prop :=
  ∀ before m after, said = before ++ m :: after → R before m

namespace SaidAfter

variable {R : List M → M → Prop} {said said' : List M}

theorem nil : SaidAfter R [] := fun before m after h => by simp at h

theorem append (h : SaidAfter R said) (h' : SaidAfter (fun before m => R (said ++ before) m) said') :
    SaidAfter R (said ++ said') := by
  intro before m after heq
  rcases List.append_eq_append_iff.mp heq with ⟨more, rfl, hmore⟩ | ⟨more, hsaid, hmore⟩
  · exact h' more m after hmore
  · cases more with
    | nil =>
      rw [List.append_nil] at hsaid
      have hR : R (said ++ []) m := h' [] m after hmore.symm
      rwa [List.append_nil, hsaid] at hR
    | cons x more =>
      obtain ⟨rfl, -⟩ := List.cons_eq_cons.mp hmore
      exact h before m more hsaid

theorem singleton {m : M} (h : R [] m) : SaidAfter R [m] := by
  intro before x after heq
  cases before with
  | nil =>
    obtain ⟨rfl, -⟩ := List.cons_eq_cons.mp heq
    exact h
  | cons y before => simp at heq

/-- Where what was said before does not matter. -/
theorem of_forall (h : ∀ m ∈ said, ∀ before, R before m) : SaidAfter R said := by
  intro before m after heq
  exact h m (heq ▸ List.mem_append_right before List.mem_cons_self) before

end SaidAfter

/-! ## Moments that are spaced -/

/-- Of moments that are spaced, no more lie in a stretch of time than fit in it. -/
theorem length_filter_le_of_spaced {d : ℕ} (hd : 0 < d) {ts : List ℕ}
    (h : ts.Pairwise fun a b => a + d ≤ b) (lo w : ℕ) :
    (ts.filter fun t => lo ≤ t ∧ t ≤ lo + w).length ≤ w / d + 1 := by
  have hinside : ∀ t ∈ ts.filter fun t => lo ≤ t ∧ t ≤ lo + w, lo ≤ t ∧ t ≤ lo + w := by
    intro t ht
    simpa using (List.mem_filter.mp ht).2
  have hspaced := h.filter (fun t => decide (lo ≤ t ∧ t ≤ lo + w))
  generalize (ts.filter fun t => lo ≤ t ∧ t ≤ lo + w) = us at hinside hspaced
  induction us generalizing lo w with
  | nil => simp
  | cons u us ih =>
    rw [List.pairwise_cons] at hspaced
    obtain ⟨hu, hus⟩ := List.forall_mem_cons.mp hinside
    cases us with
    | nil => simp
    | cons u' us =>
      have hu' := hspaced.1 u' List.mem_cons_self
      have hw : d ≤ w := by
        have := hus u' List.mem_cons_self
        omega
      have hrest := ih (lo + d) (w - d) (fun t ht => by
        have := hspaced.1 t ht
        have := hus t ht
        omega) hspaced.2
      rw [List.length_cons, Nat.div_eq_sub_div hd hw]
      omega

end HlOrderbook
