import HlOrderbook.LinkedList
import HlOrderbook.Types

/-!
# Price levels

One price level: the queue of its orders and the running sum of their sizes.
The loop that matches a taker against the queue is specified by `matchQueue`, the
same loop as a recursion on the queue itself.

## Main definitions

* `PriceLevel O` and its operations, read through `PriceLevel.items`.
* `matchQueue taker items` — what matching does to a queue.
-/

set_option autoImplicit false
set_option linter.unusedSectionVars false

namespace HlOrderbook

/-- A price level: the queue, keyed by order identifier, and the sum of sizes. -/
structure PriceLevel (O : Type) where
  orders : LinkedList ℕ O
  totalSz : ℕ

namespace PriceLevel

variable {O : Type} [InnerOrder O]

open InnerOrder

/-- A level with no order. -/
def new : PriceLevel O := ⟨LinkedList.new, 0⟩

/-- The orders with their keys, in queue order. -/
def items (l : PriceLevel O) : List (ℕ × O) := l.orders.toList

/-- Append an order; the sum grows only when the queue took it. -/
def pushBack [SlabPolicy] (l : PriceLevel O) (oid : ℕ) (order : O) : PriceLevel O × Bool :=
  let (orders, inserted) := l.orders.pushBack oid order
  (⟨orders, if inserted then saturatingAdd l.totalSz (sz order) else l.totalSz⟩, inserted)

/-- Insert an order directly in front of another one; the sum grows only when the
queue took it. -/
def insertBefore [SlabPolicy] (l : PriceLevel O) (before oid : ℕ) (order : O) :
    PriceLevel O × Bool :=
  let (orders, inserted) := l.orders.insertBefore before oid order
  (⟨orders, if inserted then saturatingAdd l.totalSz (sz order) else l.totalSz⟩, inserted)

/-- Whether an order rests at this level. -/
def contains (l : PriceLevel O) (oid : ℕ) : Bool := l.orders.containsKey oid

/-- Remove an order by identifier. -/
def remove (l : PriceLevel O) (oid : ℕ) : PriceLevel O × Option O :=
  let (orders, removed) := l.orders.removeNode oid
  (⟨orders, match removed with
    | some order => l.totalSz - sz order
    | none => l.totalSz⟩, removed)

/-- Change an order's size in place; `false` when it is not at this level. -/
def modifyOrderSz (l : PriceLevel O) (oid : ℕ) (newSz : ℕ) : PriceLevel O × Bool :=
  match l.orders.nodeValue oid with
  | none => (l, false)
  | some order =>
    let old := sz order
    let order := modifySz order newSz
    (⟨l.orders.setNodeValue oid order, saturatingAdd (l.totalSz - old) (sz order)⟩, true)

/-- The matching loop.  The first argument bounds the number of rounds. -/
def matchLoop : ℕ → PriceLevel O → O → List ℕ → PriceLevel O × O × List ℕ
  | 0, l, taker, filledOids => (l, taker, filledOids)
  | fuel + 1, l, taker, filledOids =>
    match l.orders.headValue with
    | none => (l, taker, filledOids)
    | some maker =>
      let before := sz maker
      let (taker, maker, _) := fill taker maker
      let after := sz maker
      let orders := l.orders.setHeadValue maker
      let totalSz := l.totalSz - (before - after)
      let (orders, filledOids) :=
        if sz maker = 0 then (orders.removeFront.1, filledOids ++ [oid maker])
        else (orders, filledOids)
      if sz taker = 0 then (⟨orders, totalSz⟩, taker, filledOids)
      else matchLoop fuel ⟨orders, totalSz⟩ taker filledOids

/-- Match the taker against the queue in order, until the taker is exhausted or
the level is empty; the makers filled are removed and reported.  Every round but
the last removes a maker, so the length of the queue bounds the rounds. -/
def matchAgainst (l : PriceLevel O) (taker : O) (filledOids : List ℕ) :
    PriceLevel O × O × List ℕ :=
  matchLoop (l.orders.len + 1) l taker filledOids

/-- The number of orders. -/
def len (l : PriceLevel O) : ℕ := l.orders.len

/-- Whether no order rests here. -/
def isEmpty (l : PriceLevel O) : Bool := l.orders.isEmpty

/-- The orders in queue order. -/
def toVec (l : PriceLevel O) : List O := l.orders.toVec

/-- Compact the queue. -/
def compact [SlabPolicy] (l : PriceLevel O) : PriceLevel O × Bool :=
  let (orders, compacted) := l.orders.compact
  (⟨orders, l.totalSz⟩, compacted)

/-! ## The operations on the queue -/

@[simp] theorem items_new : (new : PriceLevel O).items = [] := by
  simp [items, new]

theorem nodup_items (l : PriceLevel O) : (l.items.map Prod.fst).Nodup := l.orders.nodup_keys

@[simp] theorem contains_iff (l : PriceLevel O) (oid : ℕ) :
    l.contains oid = true ↔ oid ∈ l.items.map Prod.fst := l.orders.containsKey_iff oid

@[simp] theorem isEmpty_iff (l : PriceLevel O) : l.isEmpty = true ↔ l.items = [] := by
  simp [isEmpty, items]

@[simp] theorem len_eq (l : PriceLevel O) : l.len = l.items.length := l.orders.len_eq

@[simp] theorem toVec_eq (l : PriceLevel O) : l.toVec = l.items.map Prod.snd := rfl

theorem items_pushBack [SlabPolicy] {l : PriceLevel O} {oid : ℕ}
    (h : oid ∉ l.items.map Prod.fst) (order : O) :
    (l.pushBack oid order).1.items = l.items ++ [(oid, order)] :=
  (LinkedList.pushBack_of_notMem h order).1

theorem items_insertBefore [SlabPolicy] {l : PriceLevel O} {before oid : ℕ} {b : O}
    {xs ys : List (ℕ × O)} (hl : l.items = xs ++ (before, b) :: ys)
    (h : oid ∉ l.items.map Prod.fst) (order : O) :
    (l.insertBefore before oid order).1.items = xs ++ (oid, order) :: (before, b) :: ys :=
  (LinkedList.insertBefore_of_split hl h order).1

theorem remove_of_split {l : PriceLevel O} {oid : ℕ} {o : O} {xs ys : List (ℕ × O)}
    (hl : l.items = xs ++ (oid, o) :: ys) :
    (l.remove oid).1.items = xs ++ ys ∧ (l.remove oid).2 = some o :=
  LinkedList.removeNode_of_split hl

theorem modifyOrderSz_of_split {l : PriceLevel O} {oid : ℕ} {o : O} {xs ys : List (ℕ × O)}
    (hl : l.items = xs ++ (oid, o) :: ys) (newSz : ℕ) :
    (l.modifyOrderSz oid newSz).1.items = xs ++ (oid, modifySz o newSz) :: ys ∧
      (l.modifyOrderSz oid newSz).2 = true := by
  have hv := LinkedList.nodeValue_of_split hl
  rw [modifyOrderSz, hv]
  exact ⟨LinkedList.setNodeValue_of_split hl _, rfl⟩

@[simp] theorem items_compact [SlabPolicy] (l : PriceLevel O) : l.compact.1.items = l.items :=
  l.orders.toList_compact

end PriceLevel

/-! ## Matching a queue -/

section MatchQueue

variable {O : Type} [InnerOrder O]

open InnerOrder

/-- The matching loop as a recursion on the queue: what is left of it, what is
left of the taker, and the makers filled. -/
def matchQueue (taker : O) : List (ℕ × O) → List (ℕ × O) × O × List ℕ
  | [] => ([], taker, [])
  | (k, maker) :: rest =>
    let traded := min (sz taker) (sz maker)
    let taker' := modifySz taker (sz taker - traded)
    let maker' := modifySz maker (sz maker - traded)
    if sz maker ≤ sz taker then
      if sz taker = sz maker then (rest, taker', [oid maker])
      else
        let (left, taker, filled) := matchQueue taker' rest
        (left, taker, oid maker :: filled)
    else ((k, maker') :: rest, taker', [])

theorem PriceLevel.matchLoop_eq (fuel : ℕ) (l : PriceLevel O) (taker : O) (filledOids : List ℕ)
    (hf : l.items.length < fuel) :
    (PriceLevel.matchLoop fuel l taker filledOids).1.items = (matchQueue taker l.items).1 ∧
      (PriceLevel.matchLoop fuel l taker filledOids).2.1 = (matchQueue taker l.items).2.1 ∧
      (PriceLevel.matchLoop fuel l taker filledOids).2.2 =
        filledOids ++ (matchQueue taker l.items).2.2 := by
  induction fuel generalizing l taker filledOids with
  | zero => omega
  | succ fuel ih =>
    cases hl : l.items with
    | nil =>
      have hh : l.orders.headValue = none := by
        rw [LinkedList.headValue_eq, ← PriceLevel.items, hl]
        rfl
      simp only [PriceLevel.matchLoop, hh, matchQueue]
      exact ⟨hl, trivial, by simp⟩
    | cons x rest =>
      obtain ⟨k, maker⟩ := x
      have hh : l.orders.headValue = some maker := by
        rw [LinkedList.headValue_eq, ← PriceLevel.items, hl]
        rfl
      set taker' := modifySz taker (sz taker - min (sz taker) (sz maker)) with ht
      set maker' := modifySz maker (sz maker - min (sz taker) (sz maker)) with hm
      have hset : (l.orders.setHeadValue maker').toList = (k, maker') :: rest :=
        LinkedList.toList_setHeadValue hl maker'
      have hszt : sz taker' = sz taker - min (sz taker) (sz maker) := sz_modifySz _ _
      have hszm : sz maker' = sz maker - min (sz taker) (sz maker) := sz_modifySz _ _
      have hoid : oid maker' = oid maker := oid_modifySz _ _
      by_cases hle : sz maker ≤ sz taker
      · have hm0 : sz maker' = 0 := by omega
        have hrf : (l.orders.setHeadValue maker').removeFront.1.toList = rest := by
          rw [LinkedList.toList_removeFront, hset]
          rfl
        by_cases heq : sz taker = sz maker
        · have ht0 : sz taker' = 0 := by omega
          have hq : matchQueue taker ((k, maker) :: rest) = (rest, taker', [oid maker]) := by
            rw [matchQueue, if_pos hle, if_pos heq]
          simp only [PriceLevel.matchLoop, hh, fill_eq, decrementSz_eq, ← ht, ← hm, hm0, ht0,
            if_true, hoid, hq]
          exact ⟨hrf, trivial, trivial⟩
        · have ht0 : sz taker' ≠ 0 := by omega
          have hq : matchQueue taker ((k, maker) :: rest) = ((matchQueue taker' rest).1,
              (matchQueue taker' rest).2.1, oid maker :: (matchQueue taker' rest).2.2) := by
            rw [matchQueue, if_pos hle, if_neg heq]
          have hitems : (⟨(l.orders.setHeadValue maker').removeFront.1, l.totalSz - (sz maker - 0)⟩ :
              PriceLevel O).items = rest := hrf
          have hlen : rest.length < fuel := by simpa [hl] using hf
          obtain ⟨h₁, h₂, h₃⟩ := ih _ taker' (filledOids ++ [oid maker]) (hitems ▸ hlen)
          rw [hitems] at h₁ h₂ h₃
          simp only [PriceLevel.matchLoop, hh, fill_eq, decrementSz_eq, ← ht, ← hm, hm0, ht0,
            if_true, if_false, hoid, hq]
          exact ⟨h₁, h₂, by rw [h₃]; simp⟩
      · have hm0 : sz maker' ≠ 0 := by omega
        have ht0 : sz taker' = 0 := by omega
        have hq : matchQueue taker ((k, maker) :: rest) = ((k, maker') :: rest, taker', []) := by
          rw [matchQueue, if_neg hle]
        simp only [PriceLevel.matchLoop, hh, fill_eq, decrementSz_eq, ← ht, ← hm, hm0, ht0,
          if_true, if_false, hq]
        exact ⟨hset, trivial, by simp⟩

/-- **Matching a level is matching its queue.** -/
theorem PriceLevel.matchAgainst_eq (l : PriceLevel O) (taker : O) (filledOids : List ℕ) :
    (l.matchAgainst taker filledOids).1.items = (matchQueue taker l.items).1 ∧
      (l.matchAgainst taker filledOids).2.1 = (matchQueue taker l.items).2.1 ∧
      (l.matchAgainst taker filledOids).2.2 = filledOids ++ (matchQueue taker l.items).2.2 :=
  PriceLevel.matchLoop_eq _ l taker filledOids (by simp [PriceLevel.items])

/-- What matching a queue leaves behind: the filled makers are a prefix, at most
the next one is reduced, and a taker with something left has emptied the queue. -/
structure QueueMatch (taker : O) (items left : List (ℕ × O)) (taker' : O) (filled : List ℕ) :
    Prop where
  taker_eq : taker' = modifySz taker (sz taker')
  taker_le : sz taker' ≤ sz taker
  split : ∃ gone rest, items = gone ++ rest ∧ filled = gone.map (fun x => oid x.2) ∧
    (left = rest ∨ ∃ k maker tail s, rest = (k, maker) :: tail ∧
      left = (k, modifySz maker s) :: tail ∧ 0 < s ∧ s ≤ sz maker)
  exhausted : sz taker' ≠ 0 → left = []
  idle : items = [] → taker' = taker

theorem matchQueue_spec (taker : O) (items : List (ℕ × O)) :
    QueueMatch taker items (matchQueue taker items).1 (matchQueue taker items).2.1
      (matchQueue taker items).2.2 := by
  induction items generalizing taker with
  | nil =>
    exact ⟨by simp [matchQueue], by simp [matchQueue], ⟨[], [], rfl, rfl, Or.inl rfl⟩,
      fun _ => rfl, fun _ => rfl⟩
  | cons x rest ih =>
    obtain ⟨k, maker⟩ := x
    simp only [matchQueue]
    split
    case isTrue hle =>
      split
      case isTrue heq =>
        exact ⟨by simp, by simp, ⟨[(k, maker)], rest, rfl, rfl, Or.inl rfl⟩, by simp [heq],
          by simp⟩
      case isFalse hne =>
        have h := ih (modifySz taker (sz taker - min (sz taker) (sz maker)))
        obtain ⟨gone, rest', hitems, hfilled, hleft⟩ := h.split
        refine ⟨?_, ?_, ⟨(k, maker) :: gone, rest', ?_, ?_, hleft⟩, h.exhausted,
          by simp⟩
        · simpa using h.taker_eq
        · have := h.taker_le
          simp only [sz_modifySz] at this
          exact this.trans (Nat.sub_le _ _)
        · rw [hitems]
          rfl
        · simp [hfilled]
    case isFalse hlt =>
      have hmin : min (sz taker) (sz maker) = sz taker := by omega
      refine ⟨by simp, by simp, ⟨[], (k, maker) :: rest, rfl, rfl, Or.inr ?_⟩, by simp [hmin],
        by simp⟩
      exact ⟨k, maker, rest, _, rfl, rfl, by omega, by omega⟩

namespace QueueMatch

variable {taker taker' : O} {items left : List (ℕ × O)} {filled : List ℕ}

/-- What is left of a queue is a part of it, with smaller sizes. -/
theorem of_mem_left (h : QueueMatch taker items left taker' filled) {k : ℕ} {o' : O}
    (hmem : (k, o') ∈ left) : ∃ o, (k, o) ∈ items ∧ o' = modifySz o (sz o') ∧ sz o' ≤ sz o ∧
      (0 < sz o → 0 < sz o') := by
  obtain ⟨gone, rest, rfl, -, rfl | ⟨k₁, maker, tail, s, rfl, rfl, hs, hle⟩⟩ := h.split
  · exact ⟨o', by simp [hmem], by simp, le_refl _, id⟩
  · rcases List.mem_cons.mp hmem with heq | hmem
    · obtain ⟨rfl, rfl⟩ := Prod.mk.inj heq
      exact ⟨maker, by simp, by simp, by simpa using hle, fun _ => by simpa using hs⟩
    · exact ⟨o', by simp [hmem], by simp, le_refl _, id⟩

/-- The keys of a queue are those of the makers filled, then those left. -/
theorem keys_eq (h : QueueMatch taker items left taker' filled)
    (hoid : ∀ x ∈ items, oid x.2 = x.1) : items.map Prod.fst = filled ++ left.map Prod.fst := by
  obtain ⟨gone, rest, rfl, rfl, hleft⟩ := h.split
  have hkeys : left.map Prod.fst = rest.map Prod.fst := by
    rcases hleft with rfl | ⟨k₁, maker, tail, s, rfl, rfl, -, -⟩
    · rfl
    · simp
  rw [List.map_append, hkeys]
  congr 1
  refine List.map_congr_left fun x hx => ?_
  exact (hoid x (by simp [hx])).symm

end QueueMatch

end MatchQueue

end HlOrderbook
