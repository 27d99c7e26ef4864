import Mathlib.Data.Finmap
import Mathlib.Data.List.Perm.Basic

/-!
# Reference counts

Guards of some keys are taken out and given back.  A count is kept of them by key: as
machine words, or as a map whose entry is dropped with the last guard.  A count is
right if it is the number of guards that are out; then none ever falls below zero.

## Main definitions

* `Counters`, `Counters.acquire`, `Counters.release` — the count as machine words.
* `Registry`, `Registry.acquire`, `Registry.release` — the count as a map.
* `Counters.Counts`, `Registry.Counts` — the count is that of some guards.
-/

set_option autoImplicit false

namespace HlOrderbook

namespace RefCount

variable {K : Type} [DecidableEq K]

/-- One less, as machine words have it: below zero they wrap. -/
def fetchSub (n : ℕ) : ℕ := if n = 0 then 2 ^ 64 - 1 else n - 1

@[simp] theorem fetchSub_succ (n : ℕ) : fetchSub (n + 1) = n := rfl

/-! ## Machine words -/

/-- A machine word for each key. -/
abbrev Counters (K : Type) := K → ℕ

namespace Counters

variable {c : Counters K} {k : K} {guards guards' ks : List K}

/-- Take a guard. -/
def acquire (c : Counters K) (k : K) : Counters K := Function.update c k (c k + 1)

/-- Give a guard back. -/
def release (c : Counters K) (k : K) : Counters K := Function.update c k (fetchSub (c k))

/-- The count is that of the guards. -/
def Counts (c : Counters K) (guards : List K) : Prop := ∀ k, c k = guards.count k

namespace Counts

theorem zero : Counts (fun _ : K => 0) [] := fun _ => rfl

theorem perm (h : Counts c guards) (hperm : guards.Perm guards') : Counts c guards' :=
  fun k => (h k).trans (hperm.count_eq k)

theorem acquire (h : Counts c guards) (k : K) : Counts (c.acquire k) (k :: guards) := by
  intro k'
  rw [Counters.acquire, Function.update_apply, List.count_cons, h k', h k]
  by_cases hk : k' = k
  · simp [hk]
  · simp [hk, Ne.symm hk]

/-- **A guard that is out** is given back without a wrap. -/
theorem release (h : Counts c (k :: guards)) : Counts (c.release k) guards := by
  intro k'
  have hk' := h k'
  rw [List.count_cons] at hk'
  rw [Counters.release, Function.update_apply]
  by_cases hk : k' = k
  · subst hk
    rw [beq_self_eq_true, if_pos rfl] at hk'
    rw [if_pos rfl, hk', fetchSub_succ]
  · rw [if_neg hk, hk']
    simp [Ne.symm hk]

theorem acquireAll (h : Counts c guards) (ks : List K) :
    Counts (ks.foldl Counters.acquire c) (ks ++ guards) := by
  induction ks generalizing c guards with
  | nil => exact h
  | cons k ks ih => exact (ih (h.acquire k)).perm List.perm_middle

theorem releaseAll (h : Counts c (ks ++ guards)) : Counts (ks.foldl Counters.release c) guards := by
  induction ks generalizing c with
  | nil => exact h
  | cons k ks ih => exact ih h.release

end Counts

end Counters

/-! ## A map -/

/-- A machine word for each key of which a guard is out. -/
abbrev Registry (K : Type) := Finmap fun _ : K => ℕ

namespace Registry

variable {r : Registry K} {k : K} {guards guards' ks : List K}

/-- Take a guard. -/
def acquire (r : Registry K) (k : K) : Registry K := r.insert k ((r.lookup k).getD 0 + 1)

/-- Give a guard back; the entry is dropped with the last one. -/
def release (r : Registry K) (k : K) : Registry K :=
  match r.lookup k with
  | none => r
  | some n => if fetchSub n = 0 then r.erase k else r.insert k (fetchSub n)

/-- The count is that of the guards, and there is no entry for none. -/
def Counts (r : Registry K) (guards : List K) : Prop :=
  ∀ k, r.lookup k = if guards.count k = 0 then none else some (guards.count k)

namespace Counts

theorem empty : Counts (∅ : Registry K) [] := fun k => Finmap.lookup_empty k

theorem perm (h : Counts r guards) (hperm : guards.Perm guards') : Counts r guards' := by
  intro k
  rw [← hperm.count_eq k]
  exact h k

theorem acquire (h : Counts r guards) (k : K) : Counts (r.acquire k) (k :: guards) := by
  have hget : (r.lookup k).getD 0 = guards.count k := by
    rw [h k]
    split
    · rename_i hzero
      exact hzero.symm
    · rfl
  intro k'
  rw [Registry.acquire, hget]
  by_cases hk : k' = k
  · subst hk
    rw [Finmap.lookup_insert, List.count_cons_self, if_neg (Nat.succ_ne_zero _)]
  · rw [Finmap.lookup_insert_of_ne _ hk, h k', List.count_cons_of_ne (Ne.symm hk)]

/-- **A guard that is out** is given back without a wrap. -/
theorem release (h : Counts r (k :: guards)) : Counts (r.release k) guards := by
  have hk : r.lookup k = some (guards.count k + 1) := by
    rw [h k, List.count_cons_self, if_neg (Nat.succ_ne_zero _)]
  have hother : ∀ k', k' ≠ k →
      r.lookup k' = if guards.count k' = 0 then none else some (guards.count k') := by
    intro k' hne
    rw [h k', List.count_cons_of_ne (Ne.symm hne)]
  have hrelease : r.release k =
      if guards.count k = 0 then r.erase k else r.insert k (guards.count k) := by
    rw [Registry.release, hk]
    rfl
  intro k'
  rw [hrelease]
  by_cases hzero : guards.count k = 0
  · rw [if_pos hzero]
    by_cases hk' : k' = k
    · rw [hk', Finmap.lookup_erase, if_pos hzero]
    · rw [Finmap.lookup_erase_ne hk', hother k' hk']
  · rw [if_neg hzero]
    by_cases hk' : k' = k
    · rw [hk', Finmap.lookup_insert, if_neg hzero]
    · rw [Finmap.lookup_insert_of_ne _ hk', hother k' hk']

theorem releaseAll (h : Counts r (ks ++ guards)) : Counts (ks.foldl Registry.release r) guards := by
  induction ks generalizing r with
  | nil => exact h
  | cons k ks ih => exact ih h.release

/-- **The keys of the map** are those of which a guard is out. -/
theorem mem_keys (h : Counts r guards) : k ∈ r.keys ↔ k ∈ guards := by
  rw [Finmap.mem_keys, ← Finmap.lookup_isSome, h k]
  by_cases hzero : guards.count k = 0
  · rw [if_pos hzero]
    simpa using List.count_eq_zero.mp hzero
  · rw [if_neg hzero]
    simpa using fun hnot => hzero (List.count_eq_zero.mpr hnot)

end Counts

end Registry

end RefCount

end HlOrderbook
