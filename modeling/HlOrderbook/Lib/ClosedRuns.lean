import Mathlib.Data.List.Pairwise
import Mathlib.Order.Closure

/-!
# Grouping a sorted list by a closure

A sorted list is cut into groups by comparing each element with the closure of the first
one of the group it may belong to.  The elements themselves are compared, not their
closures; that it comes to the same is what makes the operator a closure.

## Main definitions

* `closedRuns c key xs` — the groups, each under its closure.
-/

set_option autoImplicit false

namespace HlOrderbook

variable {α β : Type*} [LinearOrder α]

/-- The groups, beginning inside one. -/
def closedRunsFrom (c : α → α) (key : β → α) : α → List β → List β → List (α × List β)
  | k, group, [] => [(k, group)]
  | k, group, x :: rest =>
    if k < key x then (k, group) :: closedRunsFrom c key (c (key x)) [x] rest
    else closedRunsFrom c key k (group ++ [x]) rest

/-- The groups of a list. -/
def closedRuns (c : α → α) (key : β → α) : List β → List (α × List β)
  | [] => []
  | x :: rest => closedRunsFrom c key (c (key x)) [x] rest

/-- The groups are under their closures, in strict order, each with all of its elements. -/
structure GroupsBy (c : α → α) (key : β → α) (xs : List β) (groups : List (α × List β)) : Prop where
  sorted : (groups.map Prod.fst).Pairwise (· < ·)
  mem_keys : ∀ k, k ∈ groups.map Prod.fst ↔ ∃ x ∈ xs, c (key x) = k
  group : ∀ g ∈ groups, g.2 = xs.filter fun x => c (key x) = g.1

section Closure

variable (c : ClosureOperator α) (key : β → α)

/-- An element up to the closure of one before it has the same closure. -/
theorem closure_eq_of_le {a b : α} (hab : a ≤ b) (hb : b ≤ c a) : c b = c a :=
  le_antisymm ((c.monotone hb).trans (c.idempotent a).le) (c.monotone hab)

theorem groupsBy_closedRunsFrom (first : β) (group : List β) {rest : List β}
    (hgroup : ∀ x ∈ group, c (key x) = c (key first))
    (hle : ∀ x ∈ rest, key first ≤ key x) (hfirst : first ∈ group)
    (hsorted : rest.Pairwise fun x y => key x ≤ key y) :
    GroupsBy c key (group ++ rest) (closedRunsFrom c key (c (key first)) group rest) := by
  induction rest generalizing first group with
  | nil =>
    refine ⟨by simp [closedRunsFrom], ?_, ?_⟩
    · intro k
      simp only [closedRunsFrom, List.map_cons, List.map_nil, List.mem_singleton, List.append_nil]
      constructor
      · rintro rfl
        exact ⟨first, hfirst, rfl⟩
      · rintro ⟨x, hx, rfl⟩
        exact hgroup x hx
    · intro g hg
      rw [closedRunsFrom, List.mem_singleton] at hg
      subst hg
      rw [List.append_nil, List.filter_eq_self.mpr]
      intro x hx
      simpa using hgroup x hx
  | cons x rest ih =>
    rw [List.pairwise_cons] at hsorted
    have hfx : key first ≤ key x := hle x List.mem_cons_self
    rw [closedRunsFrom]
    split
    case isTrue hlt =>
      have hrest := ih x [x] (by simp) hsorted.1 (by simp) hsorted.2
      -- every element behind lies beyond the group
      have hbeyond : ∀ y ∈ x :: rest, c (key first) < c (key y) := by
        intro y hy
        have hxy : key x ≤ key y := by
          rcases List.mem_cons.mp hy with rfl | hy
          · exact le_refl _
          · exact hsorted.1 y hy
        exact (hlt.trans_le hxy).trans_le (c.le_closure _)
      refine ⟨?_, ?_, ?_⟩
      · rw [List.map_cons, List.pairwise_cons]
        refine ⟨?_, hrest.sorted⟩
        intro k hk
        obtain ⟨y, hy, rfl⟩ := (hrest.mem_keys k).mp hk
        exact hbeyond y (by simpa using hy)
      · intro k
        rw [List.map_cons, List.mem_cons, hrest.mem_keys]
        constructor
        · rintro (rfl | ⟨y, hy, rfl⟩)
          · exact ⟨first, List.mem_append_left _ hfirst, rfl⟩
          · exact ⟨y, List.mem_append_right _ (by simpa using hy), rfl⟩
        · rintro ⟨y, hy, rfl⟩
          rcases List.mem_append.mp hy with hy | hy
          · exact Or.inl (hgroup y hy)
          · exact Or.inr ⟨y, by simpa using hy, rfl⟩
      · intro g hg
        rcases List.mem_cons.mp hg with rfl | hg
        · rw [List.filter_append, List.filter_eq_self.mpr, List.filter_eq_nil_iff.mpr,
            List.append_nil]
          · intro y hy
            simpa using (hbeyond y hy).ne'
          · intro y hy
            simpa using hgroup y hy
        · have hkey : c (key first) < g.1 := by
            obtain ⟨y, hy, hk⟩ := (hrest.mem_keys g.1).mp (List.mem_map_of_mem hg)
            rw [← hk]
            exact hbeyond y (by simpa using hy)
          have hnone : group.filter (fun y => c (key y) = g.1) = [] := by
            rw [List.filter_eq_nil_iff]
            intro y hy
            simpa [hgroup y hy] using hkey.ne
          rw [hrest.group g hg, List.filter_append group, hnone, List.nil_append,
            List.singleton_append]
    case isFalse hlt =>
      have hx : c (key x) = c (key first) := closure_eq_of_le c hfx (not_lt.mp hlt)
      have hrest := ih first (group ++ [x]) ?_
        (fun y hy => hle y (List.mem_cons_of_mem _ hy)) (List.mem_append_left _ hfirst) hsorted.2
      · rwa [List.append_assoc, List.singleton_append] at hrest
      · intro y hy
        rcases List.mem_append.mp hy with hy | hy
        · exact hgroup y hy
        · rw [List.mem_singleton.mp hy]
          exact hx

/-- **Comparing elements with the closure groups a sorted list by closure.** -/
theorem groupsBy_closedRuns {xs : List β} (hsorted : xs.Pairwise fun x y => key x ≤ key y) :
    GroupsBy c key xs (closedRuns c key xs) := by
  cases xs with
  | nil => exact ⟨by simp [closedRuns], by simp [closedRuns], by simp [closedRuns]⟩
  | cons x rest =>
    rw [List.pairwise_cons] at hsorted
    exact groupsBy_closedRunsFrom c key x [x] (by simp) hsorted.1 (by simp) hsorted.2

end Closure

end HlOrderbook
