import Std.Data.ExtTreeMap

/-!
# Differences of keyed lists

A list of pairs stands for the map it spells out, a later pair overwriting an
earlier one of the same key.  The difference of two lists names what has to be
inserted into the map of the first, and which keys have to go, to get the map of
the second.

## Main definitions

* `mapOf xs` — the map a list spells out.
* `KeyedDiff.between old new`, `KeyedDiff.patch` — the difference, and its use.
-/

set_option autoImplicit false
set_option linter.unusedSectionVars false

namespace HlOrderbook

variable {K V : Type} [Ord K] [Std.TransOrd K] [Std.LawfulEqOrd K] [DecidableEq K]
  [DecidableEq V]

/-- Insert the pairs of a list, one after the other. -/
def insertAll (m : Std.ExtTreeMap K V) (xs : List (K × V)) : Std.ExtTreeMap K V :=
  xs.foldl (fun m x => m.insert x.1 x.2) m

/-- The map a list spells out. -/
def mapOf (xs : List (K × V)) : Std.ExtTreeMap K V := insertAll ∅ xs

/-- The pairs to insert, and the keys to remove. -/
structure KeyedDiff (K V : Type) where
  upd : List (K × V)
  del : List K

namespace KeyedDiff

/-- Go through the pairs of the new list: each claims its key, and is an update
unless the old map holds it already. -/
def claim : List (K × V) → Std.ExtTreeMap K V → Std.ExtTreeMap K V × List (K × V)
  | [], prev => (prev, [])
  | (k, v) :: rest, prev =>
    let (left, upd) := claim rest (prev.erase k)
    (left, if prev[k]? = some v then upd else (k, v) :: upd)

/-- What turns the map of the old list into that of the new one. -/
def between (old new : List (K × V)) : KeyedDiff K V :=
  let (left, upd) := claim new (mapOf old)
  ⟨upd, left.keys⟩

/-- Whether there is nothing to do. -/
def isEmpty (d : KeyedDiff K V) : Bool := d.upd.isEmpty && d.del.isEmpty

/-- Insert the pairs to insert, and remove the keys to remove. -/
def patch (d : KeyedDiff K V) (m : Std.ExtTreeMap K V) : Std.ExtTreeMap K V :=
  d.del.foldl (fun m k => m.erase k) (insertAll m d.upd)

end KeyedDiff

theorem getElem?_insertAll (m : Std.ExtTreeMap K V) (xs : List (K × V)) (k : K) :
    (insertAll m xs)[k]? = if k ∈ xs.map Prod.fst then (mapOf xs)[k]? else m[k]? := by
  induction xs generalizing m with
  | nil => simp [insertAll]
  | cons x xs ih =>
    have hcons : ∀ m : Std.ExtTreeMap K V, insertAll m (x :: xs) = insertAll (m.insert x.1 x.2) xs :=
      fun _ => rfl
    rw [mapOf, hcons, hcons, ih, ih, Std.ExtTreeMap.getElem?_insert,
      Std.ExtTreeMap.getElem?_insert]
    by_cases hk : k ∈ xs.map Prod.fst
    · simp [hk]
    · by_cases hx : x.1 = k
      · simp [hx]
      · have hx' : ¬ k = x.1 := fun h => hx h.symm
        simp [hk, hx, hx']

theorem getElem?_eraseAll (m : Std.ExtTreeMap K V) (ks : List K) (k : K) :
    (ks.foldl (fun m k => m.erase k) m)[k]? = if k ∈ ks then none else m[k]? := by
  induction ks generalizing m with
  | nil => simp
  | cons k' ks ih =>
    rw [List.foldl_cons, ih, Std.ExtTreeMap.getElem?_erase]
    by_cases hk : k ∈ ks
    · simp [hk]
    · by_cases hk' : k' = k
      · simp [hk']
      · have hne : ¬ k = k' := fun h => hk' h.symm
        simp [hk, hk', hne]

/-- A list whose keys are distinct spells out the map with its pairs. -/
theorem getElem?_mapOf_iff {xs : List (K × V)} (h : (xs.map Prod.fst).Nodup) {k : K} {v : V} :
    (mapOf xs)[k]? = some v ↔ (k, v) ∈ xs := by
  induction xs with
  | nil => simp [mapOf, insertAll]
  | cons x xs ih =>
    obtain ⟨k', v'⟩ := x
    rw [List.map_cons, List.nodup_cons] at h
    have hcons : mapOf ((k', v') :: xs) = insertAll ((∅ : Std.ExtTreeMap K V).insert k' v') xs := rfl
    rw [hcons, getElem?_insertAll, Std.ExtTreeMap.getElem?_insert, List.mem_cons, Prod.mk.injEq]
    by_cases hk : k ∈ xs.map Prod.fst
    · have hne : k ≠ k' := fun he => h.1 (he ▸ hk)
      simp [hk, hne, ih h.2]
    · have hnot : (k, v) ∉ xs := fun hx => hk (List.mem_map_of_mem hx)
      rw [if_neg hk]
      by_cases hk' : k' = k
      · simp [hk', hnot, eq_comm]
      · have hne : ¬ k = k' := fun he => hk' he.symm
        simp [hk', hne, hnot]

namespace KeyedDiff

/-- The updates do to the old map what the whole new list does. -/
theorem insertAll_claim (new : List (K × V)) {prev m : Std.ExtTreeMap K V}
    (h : ∀ (k : K) (v : V), prev[k]? = some v → m[k]? = some v) :
    insertAll m (claim new prev).2 = insertAll m new := by
  induction new generalizing prev m with
  | nil => rfl
  | cons x rest ih =>
    obtain ⟨k, v⟩ := x
    have hagree : ∀ (k' : K) (v' : V),
        (prev.erase k)[k']? = some v' → (m.insert k v)[k']? = some v' := by
      intro k' v' hv
      rw [Std.ExtTreeMap.getElem?_erase] at hv
      rw [Std.ExtTreeMap.getElem?_insert]
      by_cases hk : k = k'
      · simp [hk] at hv
      · simp only [Std.compare_eq_iff_eq, hk, if_false] at hv ⊢
        exact h k' v' hv
    have hrest := ih hagree
    change insertAll m (if prev[k]? = some v then (claim rest (prev.erase k)).2
      else (k, v) :: (claim rest (prev.erase k)).2) = insertAll (m.insert k v) rest
    split
    case isTrue hsame =>
      have hm : m.insert k v = m := by
        apply Std.ExtTreeMap.ext_getElem?
        intro k'
        rw [Std.ExtTreeMap.getElem?_insert]
        by_cases hk : k = k'
        · subst hk
          simp [h k v hsame]
        · simp [hk]
      rw [hm] at hrest ⊢
      exact hrest
    case isFalse => exact hrest

/-- What is not claimed is the part of the old map whose keys the new list lacks. -/
theorem getElem?_claim (new : List (K × V)) (prev : Std.ExtTreeMap K V) (k : K) :
    (claim new prev).1[k]? = if k ∈ new.map Prod.fst then none else prev[k]? := by
  induction new generalizing prev with
  | nil => simp [claim]
  | cons x rest ih =>
    obtain ⟨k', v⟩ := x
    change (claim rest (prev.erase k')).1[k]? = _
    rw [ih, Std.ExtTreeMap.getElem?_erase]
    by_cases hk : k ∈ rest.map Prod.fst
    · simp [hk]
    · by_cases hk' : k' = k
      · simp [hk']
      · have hne : ¬ k = k' := fun h => hk' h.symm
        simp [hk, hk', hne]

/-- **The difference turns the old map into the new one.** -/
theorem patch_between (old new : List (K × V)) : (between old new).patch (mapOf old) = mapOf new := by
  have hdel : ∀ k, k ∈ (between old new).del ↔
      k ∉ new.map Prod.fst ∧ (mapOf old)[k]?.isSome = true := by
    intro k
    have hmem : k ∈ (between old new).del ↔ (claim new (mapOf old)).1[k]?.isSome = true :=
      Std.ExtTreeMap.mem_keys.trans Std.ExtTreeMap.mem_iff_isSome_getElem?
    rw [hmem, getElem?_claim]
    by_cases hk : k ∈ new.map Prod.fst <;> simp [hk]
  have hupd : insertAll (mapOf old) (between old new).upd = insertAll (mapOf old) new :=
    insertAll_claim new fun _ _ h => h
  apply Std.ExtTreeMap.ext_getElem?
  intro k
  rw [patch, hupd, getElem?_eraseAll, getElem?_insertAll]
  by_cases hk : k ∈ new.map Prod.fst
  · rw [if_neg (fun h => ((hdel k).mp h).1 hk), if_pos hk]
  · have hnone : (mapOf new)[k]? = none := by
      rw [mapOf, getElem?_insertAll, if_neg hk]
      simp
    rw [if_neg hk, hnone]
    by_cases hold : (mapOf old)[k]?.isSome = true
    · rw [if_pos ((hdel k).mpr ⟨hk, hold⟩)]
    · rw [if_neg (fun h => hold ((hdel k).mp h).2)]
      simpa using hold

/-- A difference with nothing to do leaves a map alone. -/
theorem patch_of_isEmpty {d : KeyedDiff K V} (h : d.isEmpty = true) (m : Std.ExtTreeMap K V) :
    d.patch m = m := by
  obtain ⟨upd, del⟩ := d
  simp only [isEmpty, Bool.and_eq_true, List.isEmpty_iff] at h
  obtain ⟨rfl, rfl⟩ := h
  rfl

end KeyedDiff

end HlOrderbook
