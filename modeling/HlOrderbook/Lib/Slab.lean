import Mathlib.Algebra.Order.BigOperators.Group.List
import Mathlib.Algebra.Order.Ring.Nat
import Std.Data.ExtTreeMap

/-!
# Slabs

A slab hands out small integers for the values it is given and reuses the
integers of removed values.  Which vacant integer the next insertion gets, and
how much memory is reserved for a given number of slots, are decisions of the
slab's implementation; a development that uses a slab may rely on the integer
being vacant and on nothing else, so both are the parameter `SlabPolicy`.

## Main definitions

* `SlabPolicy` — where the next value goes, and how much is reserved.
* `Slab α` — the occupied slots, and the slots given back.
* `Slab.insert`, `Slab.remove`, `Slab.update` — the operations.  The last two
  are partial: an index that is not occupied is a panic.
-/

set_option autoImplicit false

namespace HlOrderbook

/-- The decisions of a slab's implementation. -/
class SlabPolicy where
  /-- The index of the next insertion, from the occupied indices and the ones
  given back, the latest first. -/
  vacant : List ℕ → List ℕ → ℕ
  /-- The number of slots memory is reserved for, from the number asked for at
  creation and the number of slots used so far. -/
  capacity : ℕ → ℕ → ℕ
  /-- An insertion never lands on an occupied slot. -/
  vacant_notMem : ∀ occupied freed, vacant occupied freed ∉ occupied

/-- The usual policy: reuse the index given back last, else extend the slab by
one slot, doubling the reserved memory when it is full. -/
@[reducible] def SlabPolicy.latest : SlabPolicy where
  vacant occupied freed :=
    ((freed ++ [occupied.length]).find? (fun i => i ∉ occupied)).getD (occupied.sum + 1)
  capacity reserved used := max reserved (if used = 0 then 0 else max 4 (2 ^ (used - 1).log2.succ))
  vacant_notMem := by
    intro occupied freed
    cases h : (freed ++ [occupied.length]).find? (fun i => i ∉ occupied) with
    | some i => simpa using List.find?_some h
    | none =>
      intro hm
      have := List.le_sum_of_mem hm
      simp only [Option.getD_none] at this
      omega

/-- A slab: the occupied slots with their values, the indices given back and not
reused, and the number of slots asked for at creation. -/
structure Slab (α : Type) where
  entries : Std.ExtTreeMap ℕ α
  freed : List ℕ
  reserved : ℕ

namespace Slab

variable {α : Type}

/-- A slab with no value and memory reserved for `n`. -/
def withCapacity (n : ℕ) : Slab α := ⟨∅, [], n⟩

/-- A slab with no value and no memory reserved. -/
def new : Slab α := withCapacity 0

/-- The value at an index, if the index is occupied. -/
def get? (s : Slab α) (i : ℕ) : Option α := s.entries[i]?

/-- The number of values. -/
def len (s : Slab α) : ℕ := s.entries.size

/-- The number of slots memory is reserved for. -/
def capacity [SlabPolicy] (s : Slab α) : ℕ :=
  SlabPolicy.capacity s.reserved (s.entries.size + s.freed.length)

/-- The index the next insertion gets. -/
def vacant [SlabPolicy] (s : Slab α) : ℕ := SlabPolicy.vacant s.entries.keys s.freed

/-- Store a value; the answer is its index. -/
def insert [SlabPolicy] (s : Slab α) (a : α) : Slab α × ℕ :=
  (⟨s.entries.insert s.vacant a, s.freed.filter (· ≠ s.vacant), s.reserved⟩, s.vacant)

/-- Take a value out.  An index that is not occupied is a panic. -/
def remove (s : Slab α) (i : ℕ) : Option (Slab α × α) :=
  s.entries[i]?.map fun a => (⟨s.entries.erase i, i :: s.freed, s.reserved⟩, a)

/-- Write through a mutable reference to an occupied slot.  An index that is not
occupied is a panic. -/
def update (s : Slab α) (i : ℕ) (f : α → α) : Option (Slab α) :=
  s.entries[i]?.map fun a => ⟨s.entries.insert i (f a), s.freed, s.reserved⟩

@[simp] theorem get?_withCapacity (n i : ℕ) : (withCapacity n : Slab α).get? i = none := by
  simp [withCapacity, get?]

@[simp] theorem get?_new (i : ℕ) : (new : Slab α).get? i = none := get?_withCapacity 0 i

@[simp] theorem len_withCapacity (n : ℕ) : (withCapacity n : Slab α).len = 0 := by
  simp [withCapacity, len]

/-- **An insertion gets a vacant index.** -/
@[simp] theorem get?_vacant [SlabPolicy] (s : Slab α) : s.get? s.vacant = none := by
  have h := SlabPolicy.vacant_notMem s.entries.keys s.freed
  simpa [get?, vacant, Std.ExtTreeMap.mem_keys] using h

theorem ne_vacant [SlabPolicy] {s : Slab α} {i : ℕ} {a : α} (h : s.get? i = some a) :
    i ≠ s.vacant := by
  rintro rfl
  simp at h

@[simp] theorem insert_snd [SlabPolicy] (s : Slab α) (a : α) : (s.insert a).2 = s.vacant := rfl

theorem get?_insert [SlabPolicy] (s : Slab α) (a : α) (i : ℕ) :
    (s.insert a).1.get? i = if s.vacant = i then some a else s.get? i := by
  simp [insert, get?, Std.ExtTreeMap.getElem?_insert]

theorem len_insert [SlabPolicy] (s : Slab α) (a : α) : (s.insert a).1.len = s.len + 1 := by
  have h : s.vacant ∉ s.entries := by simpa [get?] using s.get?_vacant
  simp [insert, len, Std.ExtTreeMap.size_insert, h]

theorem remove_eq_some {s : Slab α} {i : ℕ} {a : α} (h : s.get? i = some a) :
    ∃ s', s.remove i = some (s', a) ∧ s'.len + 1 = s.len ∧
      ∀ j, s'.get? j = if i = j then none else s.get? j := by
  have hi : s.entries[i]? = some a := h
  refine ⟨⟨s.entries.erase i, i :: s.freed, s.reserved⟩, by simp [remove, hi], ?_, ?_⟩
  · have hm : i ∈ s.entries := by
      simp [Std.ExtTreeMap.mem_iff_isSome_getElem?, hi]
    have hpos : s.entries.size ≠ 0 := by
      intro h0
      rw [Std.ExtTreeMap.eq_empty_iff_size_eq_zero.mpr h0] at hm
      simp at hm
    simp [len, Std.ExtTreeMap.size_erase, hm]
    omega
  · intro j
    simp [get?, Std.ExtTreeMap.getElem?_erase]

theorem update_eq_some {s : Slab α} {i : ℕ} {a : α} (h : s.get? i = some a) (f : α → α) :
    ∃ s', s.update i f = some s' ∧ s'.len = s.len ∧
      ∀ j, s'.get? j = if i = j then some (f a) else s.get? j := by
  have hi : s.entries[i]? = some a := h
  refine ⟨⟨s.entries.insert i (f a), s.freed, s.reserved⟩, by simp [update, hi], ?_, ?_⟩
  · have hm : i ∈ s.entries := by
      simp [Std.ExtTreeMap.mem_iff_isSome_getElem?, hi]
    simp [len, Std.ExtTreeMap.size_insert, hm]
  · intro j
    simp [get?, Std.ExtTreeMap.getElem?_insert]

end Slab

end HlOrderbook
