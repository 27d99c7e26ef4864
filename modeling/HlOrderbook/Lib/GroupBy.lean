import Mathlib.Data.List.Induction
import Std.Data.ExtTreeMap

/-!
# Grouping a list by a key

The elements of a list under their keys, each group in the order of the list.

## Main definitions

* `groupBy key xs` — the groups.
-/

set_option autoImplicit false
set_option linter.unusedSectionVars false

namespace HlOrderbook

variable {K A : Type} [Ord K] [Std.TransOrd K] [Std.LawfulEqOrd K] [DecidableEq K]

/-- Put an element at the end of the group of its key. -/
def groupStep (key : A → K) (groups : Std.ExtTreeMap K (List A)) (x : A) :
    Std.ExtTreeMap K (List A) :=
  groups.insert (key x) ((groups[key x]?).getD [] ++ [x])

/-- The elements of a list under their keys. -/
def groupBy (key : A → K) (xs : List A) : Std.ExtTreeMap K (List A) :=
  xs.foldl (groupStep key) ∅

/-- The group of a key; a key without elements has none. -/
def groupOf (key : A → K) (xs : List A) (k : K) : Option (List A) :=
  let group := xs.filter fun x => key x = k
  if group = [] then none else some group

theorem groupOf_concat (key : A → K) (xs : List A) (x : A) (k : K) :
    groupOf key (xs ++ [x]) k =
      if key x = k then some ((groupOf key xs k).getD [] ++ [x]) else groupOf key xs k := by
  by_cases hk : key x = k
  · by_cases hg : xs.filter (fun x => key x = k) = []
    · simp [groupOf, List.filter_append, hk, hg]
    · simp [groupOf, List.filter_append, hk, hg]
  · simp [groupOf, List.filter_append, hk]

/-- **The groups are the sublists of equal keys.** -/
theorem getElem?_groupBy (key : A → K) (xs : List A) (k : K) :
    (groupBy key xs)[k]? = groupOf key xs k := by
  induction xs using List.reverseRecOn generalizing k with
  | nil => simp [groupBy, groupOf]
  | append_singleton xs x ih =>
    have hfold : groupBy key (xs ++ [x]) = groupStep key (groupBy key xs) x := by
      simp [groupBy, List.foldl_append]
    rw [hfold, groupStep, Std.ExtTreeMap.getElem?_insert, groupOf_concat, ih, ih]
    by_cases hk : key x = k
    · simp [hk]
    · simp [hk]

/-- No group is empty, so no group is there exactly when there is no element. -/
theorem isEmpty_groupBy (key : A → K) (xs : List A) : (groupBy key xs).isEmpty = xs.isEmpty := by
  cases xs with
  | nil => simp [groupBy]
  | cons x xs =>
    have hx : (groupBy key (x :: xs))[key x]? ≠ none := by
      rw [getElem?_groupBy, groupOf]
      simp
    rw [List.isEmpty_cons, ← Bool.not_eq_true, Std.ExtTreeMap.isEmpty_iff]
    intro h
    simp [h] at hx

end HlOrderbook
