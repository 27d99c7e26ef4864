import Mathlib.Algebra.GroupWithZero.Nat
import Mathlib.Data.List.Basic
import Mathlib.Data.List.Forall2

/-!
# Terminated lines

A sequence is cut after each separator.  What stands behind the last one is a tail
without a separator, to which more may be appended.

## Main definitions

* `Lines.cut` — the terminated lines, and the tail.
* `Lines.cut_append` — what is appended goes on with the tail.
* `Lines.cut_suffix`, `Lines.cut_suffix_rest` — if the beginning of a tail is lost.
-/

set_option autoImplicit false

namespace HlOrderbook

namespace Lines

variable {A : Type} [DecidableEq A] {sep : A} {xs ys : List A}

/-- The lines that a separator ends, and what stands behind the last of them. -/
def cut (sep : A) : List A → List (List A) × List A
  | [] => ([], [])
  | x :: xs =>
    let (lines, tail) := cut sep xs
    if x = sep then ([x] :: lines, tail)
    else match lines with
      | [] => ([], x :: tail)
      | line :: lines => ((x :: line) :: lines, tail)

@[simp] theorem cut_nil : cut sep ([] : List A) = ([], []) := rfl

theorem cut_cons_sep (xs : List A) :
    cut sep (sep :: xs) = ([sep] :: (cut sep xs).1, (cut sep xs).2) := by
  rw [cut]
  exact if_pos rfl

theorem cut_cons_ne {x : A} (hx : x ≠ sep) (xs : List A) :
    cut sep (x :: xs) = match (cut sep xs).1 with
      | [] => ([], x :: (cut sep xs).2)
      | line :: lines => ((x :: line) :: lines, (cut sep xs).2) := by
  rw [cut]
  exact if_neg hx

/-- Nothing is lost. -/
theorem flatten_cut (sep : A) (xs : List A) : (cut sep xs).1.flatten ++ (cut sep xs).2 = xs := by
  induction xs with
  | nil => rfl
  | cons x xs ih =>
    by_cases hx : x = sep
    · rw [hx, cut_cons_sep, List.flatten_cons, List.append_assoc, ih]
      rfl
    · rw [cut_cons_ne hx]
      cases hlines : (cut sep xs).1 with
      | nil =>
        rw [hlines] at ih
        exact congrArg (x :: ·) ih
      | cons line lines =>
        rw [hlines] at ih
        exact congrArg (x :: ·) ih

theorem length_cut (sep : A) (xs : List A) :
    ((cut sep xs).1.map List.length).sum + (cut sep xs).2.length = xs.length := by
  rw [← List.length_flatten, ← List.length_append, flatten_cut]

/-- The tail has no separator. -/
theorem sep_notMem_tail (sep : A) (xs : List A) : sep ∉ (cut sep xs).2 := by
  induction xs with
  | nil => exact List.not_mem_nil
  | cons x xs ih =>
    by_cases hx : x = sep
    · rw [hx, cut_cons_sep]
      exact ih
    · rw [cut_cons_ne hx]
      cases hlines : (cut sep xs).1 with
      | nil =>
        rw [List.mem_cons, not_or]
        exact ⟨Ne.symm hx, ih⟩
      | cons line lines => exact ih

/-- **What is appended** goes on with the tail; the lines there were stay. -/
theorem cut_append (sep : A) (xs ys : List A) :
    cut sep (xs ++ ys) =
      ((cut sep xs).1 ++ (cut sep ((cut sep xs).2 ++ ys)).1, (cut sep ((cut sep xs).2 ++ ys)).2) := by
  induction xs with
  | nil => rfl
  | cons x xs ih =>
    by_cases hx : x = sep
    · subst hx
      rw [List.cons_append, cut_cons_sep, cut_cons_sep, ih]
      rfl
    · rw [List.cons_append, cut_cons_ne hx, cut_cons_ne hx, ih]
      cases hlines : (cut sep xs).1 with
      | nil =>
        have htail : x :: (cut sep xs).2 ++ ys = x :: ((cut sep xs).2 ++ ys) := rfl
        rw [List.nil_append]
        simp only [htail]
        rw [cut_cons_ne hx]
        rfl
      | cons line lines => rfl

/-- A line ends with the separator. -/
theorem getLast?_line {line : List A} (h : line ∈ (cut sep xs).1) : line.getLast? = some sep := by
  induction xs generalizing line with
  | nil => cases h
  | cons x xs ih =>
    by_cases hx : x = sep
    · rw [hx, cut_cons_sep] at h
      rcases List.mem_cons.mp h with rfl | hmem
      · rfl
      · exact ih hmem
    · rw [cut_cons_ne hx] at h
      cases hlines : (cut sep xs).1 with
      | nil =>
        rw [hlines] at h
        cases h
      | cons l lines =>
        rw [hlines] at h
        have hl : l.getLast? = some sep := ih (by rw [hlines]; exact List.mem_cons_self)
        rcases List.mem_cons.mp h with rfl | hmem
        · rw [List.getLast?_cons, hl]
          rfl
        · exact ih (by rw [hlines]; exact List.mem_cons_of_mem _ hmem)

/-- The first line is longer than what has no separator. -/
theorem length_lt_of_head? {line : List A} (htail : sep ∉ xs)
    (hline : line ∈ (cut sep (xs ++ ys)).1.head?) : xs.length < line.length := by
  induction xs generalizing line with
  | nil =>
    have hlast := getLast?_line (List.mem_of_mem_head? hline)
    cases line with
    | nil => cases hlast
    | cons y line => exact Nat.succ_pos _
  | cons x xs ih =>
    rw [List.mem_cons, not_or] at htail
    rw [List.cons_append, cut_cons_ne (Ne.symm htail.1)] at hline
    cases hlines : (cut sep (xs ++ ys)).1 with
    | nil =>
      rw [hlines] at hline
      cases hline
    | cons l lines =>
      rw [hlines, List.head?_cons, Option.mem_some_iff] at hline
      rw [← hline]
      exact Nat.succ_lt_succ (ih htail.2 (by rw [hlines]; rfl))

/-- What has no separator stands before the first line. -/
theorem cut_append_of_notMem (h : sep ∉ xs) (ys : List A) : cut sep (xs ++ ys) =
    match (cut sep ys).1 with
    | [] => ([], xs ++ (cut sep ys).2)
    | line :: lines => ((xs ++ line) :: lines, (cut sep ys).2) := by
  induction xs with
  | nil =>
    cases hlines : (cut sep ys).1 with
    | nil => exact Prod.ext hlines rfl
    | cons line lines => exact Prod.ext hlines rfl
  | cons x xs ih =>
    rw [List.mem_cons, not_or] at h
    rw [List.cons_append, cut_cons_ne (Ne.symm h.1), ih h.2]
    cases (cut sep ys).1 with
    | nil => rfl
    | cons line lines => rfl

/-- **If the beginning of a tail is lost**, so is that of one line at most. -/
theorem cut_suffix {xs' : List A} (h : sep ∉ xs) (hsuffix : xs' <:+ xs) (ys : List A) :
    List.Forall₂ (· <:+ ·) (cut sep (xs' ++ ys)).1 (cut sep (xs ++ ys)).1 ∧
      (cut sep (xs' ++ ys)).2 <:+ (cut sep (xs ++ ys)).2 := by
  obtain ⟨lost, rfl⟩ := hsuffix
  have hlost : sep ∉ lost := fun hmem => h (List.mem_append_left _ hmem)
  have hcut := cut_append_of_notMem hlost (xs' ++ ys)
  rw [← List.append_assoc] at hcut
  rw [hcut]
  cases hlines : (cut sep (xs' ++ ys)).1 with
  | nil => exact ⟨.nil, List.suffix_append _ _⟩
  | cons line lines =>
    refine ⟨.cons (List.suffix_append _ _) ?_, List.suffix_refl _⟩
    exact List.forall₂_same.mpr fun line _ => List.suffix_refl line

/-- **Behind the first line** nothing is lost then. -/
theorem cut_suffix_rest {xs' : List A} (h : sep ∉ xs) (hsuffix : xs' <:+ xs) (ys : List A) :
    (cut sep (xs' ++ ys)).1.tail = (cut sep (xs ++ ys)).1.tail ∧
      ((cut sep (xs ++ ys)).1 = [] ∨ (cut sep (xs' ++ ys)).2 = (cut sep (xs ++ ys)).2) := by
  obtain ⟨lost, rfl⟩ := hsuffix
  have hlost : sep ∉ lost := fun hmem => h (List.mem_append_left _ hmem)
  have hcut := cut_append_of_notMem hlost (xs' ++ ys)
  rw [← List.append_assoc] at hcut
  rw [hcut]
  cases hlines : (cut sep (xs' ++ ys)).1 with
  | nil => exact ⟨rfl, Or.inl rfl⟩
  | cons line lines => exact ⟨rfl, Or.inr rfl⟩

/-- Where no line ends, all is the tail. -/
theorem tail_of_lines_eq_nil (h : (cut sep xs).1 = []) : (cut sep xs).2 = xs := by
  have hall := flatten_cut sep xs
  rwa [h, List.flatten_nil, List.nil_append] at hall

/-- What is cut off has fewer lines. -/
theorem length_lines_take_le (sep : A) (xs : List A) (n : ℕ) :
    (cut sep (xs.take n)).1.length ≤ (cut sep xs).1.length := by
  have happend := cut_append sep (xs.take n) (xs.drop n)
  rw [List.take_append_drop] at happend
  rw [happend, List.length_append]
  omega

/-- The first lines alone are cut into themselves. -/
theorem cut_flatten_take (sep : A) (xs : List A) (n : ℕ) :
    cut sep ((cut sep xs).1.take n).flatten = ((cut sep xs).1.take n, []) := by
  induction xs generalizing n with
  | nil => simp
  | cons x xs ih =>
    cases n with
    | zero => rfl
    | succ n =>
      by_cases hx : x = sep
      · subst hx
        rw [cut_cons_sep, List.take_succ_cons, List.flatten_cons, List.singleton_append,
          cut_cons_sep, ih n]
      · rw [cut_cons_ne hx]
        cases hlines : (cut sep xs).1 with
        | nil => rfl
        | cons line lines =>
          have htake := ih (n + 1)
          rw [hlines, List.take_succ_cons, List.flatten_cons] at htake
          rw [List.take_succ_cons, List.flatten_cons, List.cons_append, cut_cons_ne hx, htake]

/-- A cut at the end of a line leaves the lines before it. -/
theorem cut_take (sep : A) (xs : List A) (n : ℕ) :
    cut sep (xs.take (((cut sep xs).1.take n).map List.length).sum) =
      ((cut sep xs).1.take n, []) := by
  have hfirst : xs.take (((cut sep xs).1.take n).map List.length).sum =
      ((cut sep xs).1.take n).flatten := by
    have hsplit : xs = ((cut sep xs).1.take n).flatten ++
        (((cut sep xs).1.drop n).flatten ++ (cut sep xs).2) := by
      rw [← List.append_assoc, ← List.flatten_append, List.take_append_drop, flatten_cut]
    rw [← List.length_flatten]
    nth_rewrite 2 [hsplit]
    rw [List.take_left]
  rw [hfirst, cut_flatten_take]

end Lines

end HlOrderbook
