import HlOrderbook.BookRefinement
import Mathlib.Data.List.Infix

/-!
# Level aggregates

A price level keeps the sum of its sizes up to date by additions that stop at the
largest `u64` and subtractions that stop at zero.  Here every operation of the book is
run together with the list of these updates, so that each of them can be said to be
exact: nothing saturates on the way, partial fills included, and the sums shown are
those of the orders.

## Main definitions

* `SumUpdate` — one update of a running sum, its result, and when it is exact.
* `PriceLevel.pushBackLogged` and the other twins — an operation with its updates.
* `PriceLevel.Exact`, `RawBook.ExactSums`, `RawBook.SumsFit` — the sums are right; they
  fit in a `u64`.
* `referenceBbo orders` — the best level, folded over a side of a snapshot.
-/

set_option autoImplicit false
set_option linter.unusedSectionVars false

namespace HlOrderbook

variable {O : Type} [InnerOrder O]

open InnerOrder

/-! ## Updates -/

/-- One update of a running sum. -/
inductive SumUpdate where
  | add (total amount : ℕ)
  | sub (total amount : ℕ)

namespace SumUpdate

/-- What the code stores: `saturating_add` and `saturating_sub`. -/
def result : SumUpdate → ℕ
  | add total amount => saturatingAdd total amount
  | sub total amount => total - amount

/-- The update neither saturates nor wraps. -/
def Exact : SumUpdate → Prop
  | add total amount => total + amount ≤ u64Max
  | sub total amount => amount ≤ total

instance : DecidablePred Exact
  | add total amount => inferInstanceAs (Decidable (total + amount ≤ u64Max))
  | sub total amount => inferInstanceAs (Decidable (amount ≤ total))

theorem result_add {total amount : ℕ} (h : total + amount ≤ u64Max) :
    (add total amount).result = total + amount := Nat.min_eq_left h

end SumUpdate

/-! ## The operations with their updates -/

namespace PriceLevel

/-- `pushBack` with its updates. -/
def pushBackLogged [SlabPolicy] (l : PriceLevel O) (oid : ℕ) (order : O) :
    (PriceLevel O × Bool) × List SumUpdate :=
  let (orders, inserted) := l.orders.pushBack oid order
  let update := SumUpdate.add l.totalSz (sz order)
  if inserted then ((⟨orders, update.result⟩, inserted), [update])
  else ((⟨orders, l.totalSz⟩, inserted), [])

/-- `insertBefore` with its updates. -/
def insertBeforeLogged [SlabPolicy] (l : PriceLevel O) (before oid : ℕ) (order : O) :
    (PriceLevel O × Bool) × List SumUpdate :=
  let (orders, inserted) := l.orders.insertBefore before oid order
  let update := SumUpdate.add l.totalSz (sz order)
  if inserted then ((⟨orders, update.result⟩, inserted), [update])
  else ((⟨orders, l.totalSz⟩, inserted), [])

/-- `remove` with its updates. -/
def removeLogged (l : PriceLevel O) (oid : ℕ) : (PriceLevel O × Option O) × List SumUpdate :=
  let (orders, removed) := l.orders.removeNode oid
  match removed with
  | some order =>
    let update := SumUpdate.sub l.totalSz (sz order)
    ((⟨orders, update.result⟩, removed), [update])
  | none => ((⟨orders, l.totalSz⟩, removed), [])

/-- `modifyOrderSz` with its updates. -/
def modifyOrderSzLogged (l : PriceLevel O) (oid newSz : ℕ) :
    (PriceLevel O × Bool) × List SumUpdate :=
  match l.orders.nodeValue oid with
  | none => ((l, false), [])
  | some order =>
    let old := sz order
    let order := modifySz order newSz
    let taken := SumUpdate.sub l.totalSz old
    let given := SumUpdate.add taken.result (sz order)
    ((⟨l.orders.setNodeValue oid order, given.result⟩, true), [taken, given])

/-- `matchLoop` with its updates; the decrement of the maker is one of them. -/
def matchLoopLogged : ℕ → PriceLevel O → O → List ℕ →
    (PriceLevel O × O × List ℕ) × List SumUpdate
  | 0, l, taker, filledOids => ((l, taker, filledOids), [])
  | fuel + 1, l, taker, filledOids =>
    match l.orders.headValue with
    | none => ((l, taker, filledOids), [])
    | some maker =>
      let before := sz maker
      let (taker, maker, _) := fill taker maker
      let after := sz maker
      let orders := l.orders.setHeadValue maker
      let decrement := SumUpdate.sub before after
      let update := SumUpdate.sub l.totalSz decrement.result
      let (orders, filledOids) :=
        if sz maker = 0 then (orders.removeFront.1, filledOids ++ [oid maker])
        else (orders, filledOids)
      if sz taker = 0 then ((⟨orders, update.result⟩, taker, filledOids), [decrement, update])
      else
        let (r, updates) := matchLoopLogged fuel ⟨orders, update.result⟩ taker filledOids
        (r, decrement :: update :: updates)

/-- `matchAgainst` with its updates. -/
def matchAgainstLogged (l : PriceLevel O) (taker : O) (filledOids : List ℕ) :
    (PriceLevel O × O × List ℕ) × List SumUpdate :=
  matchLoopLogged (l.orders.len + 1) l taker filledOids

/-- The debug check at the end of every operation: the sum is the fold over the orders. -/
def debugValidate (l : PriceLevel O) : Bool :=
  l.toVec.foldl (fun acc order => saturatingAdd acc (sz order)) 0 = l.totalSz

@[simp] theorem pushBackLogged_fst [SlabPolicy] (l : PriceLevel O) (oid : ℕ) (order : O) :
    (l.pushBackLogged oid order).1 = l.pushBack oid order := by
  rw [pushBackLogged, pushBack]
  cases h : (l.orders.pushBack oid order).2 <;> simp [h, SumUpdate.result]

@[simp] theorem insertBeforeLogged_fst [SlabPolicy] (l : PriceLevel O) (before oid : ℕ)
    (order : O) : (l.insertBeforeLogged before oid order).1 = l.insertBefore before oid order := by
  rw [insertBeforeLogged, insertBefore]
  cases h : (l.orders.insertBefore before oid order).2 <;> simp [h, SumUpdate.result]

@[simp] theorem removeLogged_fst (l : PriceLevel O) (oid : ℕ) :
    (l.removeLogged oid).1 = l.remove oid := by
  rw [removeLogged, remove]
  cases h : (l.orders.removeNode oid).2 <;> simp [h, SumUpdate.result]

@[simp] theorem modifyOrderSzLogged_fst (l : PriceLevel O) (oid newSz : ℕ) :
    (l.modifyOrderSzLogged oid newSz).1 = l.modifyOrderSz oid newSz := by
  rw [modifyOrderSzLogged, modifyOrderSz]
  cases l.orders.nodeValue oid <;> rfl

theorem matchLoopLogged_fst (fuel : ℕ) (l : PriceLevel O) (taker : O) (filledOids : List ℕ) :
    (matchLoopLogged fuel l taker filledOids).1 = matchLoop fuel l taker filledOids := by
  induction fuel generalizing l taker filledOids with
  | zero => rfl
  | succ fuel ih =>
    rw [matchLoopLogged, matchLoop]
    cases hh : l.orders.headValue with
    | none => rfl
    | some maker =>
      simp only [SumUpdate.result]
      split
      · rfl
      · exact ih _ _ _

@[simp] theorem matchAgainstLogged_fst (l : PriceLevel O) (taker : O) (filledOids : List ℕ) :
    (l.matchAgainstLogged taker filledOids).1 = l.matchAgainst taker filledOids :=
  matchLoopLogged_fst _ _ _ _

end PriceLevel

/-- `matchLevels` with its updates. -/
def matchLevelsLogged (takerSide : Side) (limitPx : ℕ) : List (ℕ × PriceLevel O) → Levels O → O →
    List ℕ → List ℕ → (Levels O × O × List ℕ × List ℕ) × List SumUpdate
  | [], makers, taker, filledOids, keysToRemove => ((makers, taker, filledOids, keysToRemove), [])
  | (px, level) :: rest, makers, taker, filledOids, keysToRemove =>
    if !crosses takerSide limitPx px then ((makers, taker, filledOids, keysToRemove), [])
    else
      let ((level, taker, filledOids), updates) := level.matchAgainstLogged taker filledOids
      let makers := makers.insert px level
      let keysToRemove := if level.isEmpty then keysToRemove ++ [px] else keysToRemove
      if sz taker = 0 then ((makers, taker, filledOids, keysToRemove), updates)
      else
        let (r, more) := matchLevelsLogged takerSide limitPx rest makers taker filledOids keysToRemove
        (r, updates ++ more)

theorem matchLevelsLogged_fst (takerSide : Side) (limitPx : ℕ) (todo : List (ℕ × PriceLevel O))
    (makers : Levels O) (taker : O) (filledOids keysToRemove : List ℕ) :
    (matchLevelsLogged takerSide limitPx todo makers taker filledOids keysToRemove).1 =
      matchLevels takerSide limitPx todo makers taker filledOids keysToRemove := by
  induction todo generalizing makers taker filledOids keysToRemove with
  | nil => rfl
  | cons x rest ih =>
    rw [matchLevelsLogged, matchLevels]
    split
    · rfl
    · simp only [PriceLevel.matchAgainstLogged_fst]
      split
      · rfl
      · exact ih _ _ _ _

/-- `matchOrder` with its updates. -/
def matchOrderLogged (makers : Levels O) (taker : O) :
    (Levels O × O × List ℕ) × List SumUpdate :=
  let ((makers, taker, filledOids, keysToRemove), updates) :=
    matchLevelsLogged (side taker) (limitPx taker) (inPriority (side taker) makers) makers taker
      [] []
  ((keysToRemove.foldl (fun m px => m.erase px) makers, taker, filledOids), updates)

@[simp] theorem matchOrderLogged_fst (makers : Levels O) (taker : O) :
    (matchOrderLogged makers taker).1 = matchOrder makers taker := by
  simp only [matchOrderLogged, matchLevelsLogged_fst, matchOrder]

/-- `addOrderToBook` with its updates. -/
def addOrderToBookLogged [SlabPolicy] (map : Levels O) (order : O) (insertBefore : Option ℕ) :
    (Levels O × Bool) × List SumUpdate :=
  let px := limitPx order
  let level := (map[px]?).getD PriceLevel.new
  match insertBefore with
  | none =>
    let ((level, _), updates) := level.pushBackLogged (oid order) order
    ((map.insert px level, false), updates)
  | some before =>
    if level.contains before then
      let ((level, _), updates) := level.insertBeforeLogged before (oid order) order
      ((map.insert px level, false), updates)
    else
      let ((level, _), updates) := level.pushBackLogged (oid order) order
      ((map.insert px level, true), updates)

@[simp] theorem addOrderToBookLogged_fst [SlabPolicy] (map : Levels O) (order : O)
    (insertBefore : Option ℕ) :
    (addOrderToBookLogged map order insertBefore).1 = addOrderToBook map order insertBefore := by
  cases insertBefore with
  | none => simp only [addOrderToBookLogged, PriceLevel.pushBackLogged_fst, addOrderToBook]
  | some before =>
    simp only [addOrderToBookLogged, PriceLevel.pushBackLogged_fst,
      PriceLevel.insertBeforeLogged_fst, addOrderToBook]
    split <;> rfl

namespace RawBook

/-- `addOrderBefore` with its updates. -/
def addOrderBeforeLogged [SlabPolicy] (b : RawBook O) (order : O) (insertBefore : Option ℕ) :
    (RawBook O × Bool) × List SumUpdate :=
  if b.oidToSidePx.contains (oid order) then ((b, false), [])
  else
    let takerSide := InnerOrder.side order
    let ((makerOrders, order, oids), updates) := matchOrderLogged (b.side takerSide.opposite) order
    let index := oids.foldl (fun m k => m.erase k) b.oidToSidePx
    let b := { b.setSide takerSide.opposite makerOrders with oidToSidePx := index }
    if 0 < sz order then
      let ((restingBook, fellBack), more) :=
        addOrderToBookLogged (b.side takerSide) order insertBefore
      (({ b.setSide takerSide restingBook with
        oidToSidePx := index.insert (oid order) (takerSide, limitPx order) }, fellBack),
        updates ++ more)
    else ((b, false), updates)

/-- `cancelOrder` with its updates. -/
def cancelOrderLogged (b : RawBook O) (oid : ℕ) : (RawBook O × Bool) × List SumUpdate :=
  match b.oidToSidePx[oid]? with
  | none => ((b, false), [])
  | some (s, px) =>
    let b := { b with oidToSidePx := b.oidToSidePx.erase oid }
    match (b.side s)[px]? with
    | none => ((b, false), [])
    | some level =>
      let ((level, removed), updates) := level.removeLogged oid
      let levels := if level.isEmpty then (b.side s).erase px else (b.side s).insert px level
      ((b.setSide s levels, removed.isSome), updates)

/-- `modifySz` with its updates. -/
def modifySzLogged (b : RawBook O) (oid newSz : ℕ) : (RawBook O × Bool) × List SumUpdate :=
  if newSz = 0 then b.cancelOrderLogged oid
  else match b.oidToSidePx[oid]? with
    | none => ((b, false), [])
    | some (s, px) =>
      match (b.side s)[px]? with
      | none => ((b, false), [])
      | some level =>
        let ((level, modified), updates) := level.modifyOrderSzLogged oid newSz
        ((b.setSide s ((b.side s).insert px level), modified), updates)

/-- One operation with its updates; compaction makes none. -/
def stepLogged [SlabPolicy] (b : RawBook O) : BookOp O → RawBook O × List SumUpdate
  | .addOrderBefore order insertBefore =>
    let ((b, _), updates) := b.addOrderBeforeLogged order insertBefore
    (b, updates)
  | .cancelOrder oid =>
    let ((b, _), updates) := b.cancelOrderLogged oid
    (b, updates)
  | .modifySz oid newSz =>
    let ((b, _), updates) := b.modifySzLogged oid newSz
    (b, updates)
  | .compact => (b.compact.1, [])

/-- A run with all its updates. -/
def runLogged [SlabPolicy] (b : RawBook O) : List (BookOp O) → RawBook O × List SumUpdate
  | [] => (b, [])
  | op :: ops =>
    let (b, updates) := b.stepLogged op
    let (b, more) := runLogged b ops
    (b, updates ++ more)

@[simp] theorem addOrderBeforeLogged_fst [SlabPolicy] (b : RawBook O) (order : O)
    (insertBefore : Option ℕ) :
    (b.addOrderBeforeLogged order insertBefore).1 = b.addOrderBefore order insertBefore := by
  simp only [addOrderBeforeLogged, matchOrderLogged_fst, addOrderToBookLogged_fst, addOrderBefore]
  split
  · rfl
  · split <;> rfl

@[simp] theorem cancelOrderLogged_fst (b : RawBook O) (oid : ℕ) :
    (b.cancelOrderLogged oid).1 = b.cancelOrder oid := by
  rw [cancelOrderLogged, cancelOrder]
  cases b.oidToSidePx[oid]? with
  | none => rfl
  | some p =>
    simp only [side_withIndex, PriceLevel.removeLogged_fst]
    cases (b.side p.1)[p.2]? <;> rfl

@[simp] theorem modifySzLogged_fst (b : RawBook O) (oid newSz : ℕ) :
    (b.modifySzLogged oid newSz).1 = b.modifySz oid newSz := by
  rw [modifySzLogged, modifySz]
  split
  · exact b.cancelOrderLogged_fst oid
  · cases b.oidToSidePx[oid]? with
    | none => rfl
    | some p =>
      simp only [PriceLevel.modifyOrderSzLogged_fst]
      cases (b.side p.1)[p.2]? <;> rfl

@[simp] theorem stepLogged_fst [SlabPolicy] (b : RawBook O) (op : BookOp O) :
    (b.stepLogged op).1 = b.step op := by
  cases op <;> simp [stepLogged, step]

/-- **The updates are those of the run**: without them it is the same run. -/
@[simp] theorem runLogged_fst [SlabPolicy] (b : RawBook O) (ops : List (BookOp O)) :
    (b.runLogged ops).1 = b.run ops := by
  induction ops generalizing b with
  | nil => rfl
  | cons op ops ih =>
    rw [runLogged]
    simp only [ih, stepLogged_fst]
    rfl

end RawBook

/-! ## The updates are exact -/

namespace PriceLevel

/-- The sum kept is the sum of the sizes. -/
def Exact (l : PriceLevel O) : Prop := l.totalSz = totalOf l.toVec

theorem Exact.new : (PriceLevel.new : PriceLevel O).Exact := rfl

theorem totalOf_toVec_split {l : PriceLevel O} {k : ℕ} {o : O} {xs ys : List (ℕ × O)}
    (hl : l.items = xs ++ (k, o) :: ys) :
    totalOf l.toVec = totalOf (xs.map Prod.snd ++ ys.map Prod.snd) + sz o := by
  rw [toVec_eq, hl]
  simp
  omega

/-- An operation took a level to another one, whose sum is exact as are the updates. -/
structure Tracks (l' : PriceLevel O) (updates : List SumUpdate) : Prop where
  exact : l'.Exact
  updates_exact : ∀ u ∈ updates, u.Exact

/-- A growth of the sum that the new queue leaves room for. -/
theorem Tracks.grow {l l' : PriceLevel O} (h : l.Exact) {n : ℕ}
    (htotal : totalOf l'.toVec = totalOf l.toVec + n) (hfits : totalOf l'.toVec ≤ u64Max)
    (hsz : l'.totalSz = (SumUpdate.add l.totalSz n).result) :
    Tracks l' [.add l.totalSz n] := by
  have hroom : l.totalSz + n ≤ u64Max := by rw [h]; omega
  refine ⟨?_, by simpa [SumUpdate.Exact] using hroom⟩
  rw [Exact, hsz, SumUpdate.result_add hroom, htotal, h]

theorem tracks_pushBack [SlabPolicy] {l : PriceLevel O} (h : l.Exact) (oid : ℕ) (order : O)
    (hfits : totalOf (l.pushBack oid order).1.toVec ≤ u64Max) :
    Tracks (l.pushBackLogged oid order).1.1 (l.pushBackLogged oid order).2 := by
  by_cases hk : oid ∈ l.orders.toList.map Prod.fst
  · obtain ⟨hitems, hflag⟩ := LinkedList.pushBack_of_mem hk order
    have hlog : l.pushBackLogged oid order = ((⟨(l.orders.pushBack oid order).1, l.totalSz⟩, false),
        []) := by
      simp [pushBackLogged, hflag]
    rw [hlog]
    refine ⟨?_, by simp⟩
    rw [Exact, toVec_eq, items, hitems]
    exact h
  · obtain ⟨hitems, hflag⟩ := LinkedList.pushBack_of_notMem hk order
    have hlog : (l.pushBackLogged oid order).2 = [.add l.totalSz (sz order)] := by
      simp [pushBackLogged, hflag]
    rw [hlog, pushBackLogged_fst]
    refine Tracks.grow h ?_ hfits ?_
    · rw [toVec_eq, items_pushBack hk]
      simp
    · simp [pushBack, hflag, SumUpdate.result]

theorem tracks_insertBefore [SlabPolicy] {l : PriceLevel O} (h : l.Exact) (before oid : ℕ)
    (order : O) (hfits : totalOf (l.insertBefore before oid order).1.toVec ≤ u64Max) :
    Tracks (l.insertBeforeLogged before oid order).1.1
      (l.insertBeforeLogged before oid order).2 := by
  have hrefused : (l.orders.insertBefore before oid order).1.toList = l.orders.toList ∧
      (l.orders.insertBefore before oid order).2 = false →
      Tracks (l.insertBeforeLogged before oid order).1.1
        (l.insertBeforeLogged before oid order).2 := by
    rintro ⟨hitems, hflag⟩
    have hlog : l.insertBeforeLogged before oid order =
        ((⟨(l.orders.insertBefore before oid order).1, l.totalSz⟩, false), []) := by
      simp [insertBeforeLogged, hflag]
    rw [hlog]
    refine ⟨?_, by simp⟩
    rw [Exact, toVec_eq, items, hitems]
    exact h
  by_cases hk : oid ∈ l.orders.toList.map Prod.fst
  · exact hrefused (LinkedList.insertBefore_of_mem before hk order)
  · by_cases hb : before ∈ l.orders.toList.map Prod.fst
    · obtain ⟨xs, b, ys, hl⟩ := LinkedList.exists_split hb
      obtain ⟨hitems, hflag⟩ := LinkedList.insertBefore_of_split hl hk order
      have hlog : (l.insertBeforeLogged before oid order).2 = [.add l.totalSz (sz order)] := by
        simp [insertBeforeLogged, hflag]
      rw [hlog, insertBeforeLogged_fst]
      refine Tracks.grow h ?_ hfits ?_
      · rw [totalOf_toVec_split (items_insertBefore hl hk order), toVec_eq, items, hl]
        simp
      · simp [insertBefore, hflag, SumUpdate.result]
    · exact hrefused (LinkedList.insertBefore_of_missing hb oid order)

theorem tracks_remove {l : PriceLevel O} (h : l.Exact) (oid : ℕ) :
    Tracks (l.removeLogged oid).1.1 (l.removeLogged oid).2 := by
  by_cases hk : oid ∈ l.orders.toList.map Prod.fst
  · obtain ⟨xs, o, ys, hl⟩ := LinkedList.exists_split hk
    obtain ⟨hitems, hremoved⟩ := LinkedList.removeNode_of_split hl
    have htotal : l.totalSz = totalOf (xs.map Prod.snd ++ ys.map Prod.snd) + sz o :=
      h.trans (totalOf_toVec_split hl)
    have hlog : l.removeLogged oid = ((⟨(l.orders.removeNode oid).1, l.totalSz - sz o⟩, some o),
        [.sub l.totalSz (sz o)]) := by
      simp [removeLogged, hremoved, SumUpdate.result]
    rw [hlog]
    refine ⟨?_, ?_⟩
    · rw [Exact, toVec_eq, items, hitems, List.map_append]
      show l.totalSz - sz o = _
      omega
    · simp only [List.mem_singleton, forall_eq, SumUpdate.Exact]
      omega
  · obtain ⟨hitems, hremoved⟩ := LinkedList.removeNode_of_notMem hk
    have hlog : l.removeLogged oid =
        ((⟨(l.orders.removeNode oid).1, l.totalSz⟩, none), []) := by
      simp [removeLogged, hremoved]
    rw [hlog]
    refine ⟨?_, by simp⟩
    rw [Exact, toVec_eq, items, hitems]
    exact h

theorem tracks_modifyOrderSz {l : PriceLevel O} (h : l.Exact) (oid newSz : ℕ)
    (hfits : totalOf (l.modifyOrderSz oid newSz).1.toVec ≤ u64Max) :
    Tracks (l.modifyOrderSzLogged oid newSz).1.1 (l.modifyOrderSzLogged oid newSz).2 := by
  by_cases hk : oid ∈ l.orders.toList.map Prod.fst
  · obtain ⟨xs, o, ys, hl⟩ := LinkedList.exists_split hk
    have hitems : (l.modifyOrderSz oid newSz).1.items = xs ++ (oid, modifySz o newSz) :: ys :=
      (modifyOrderSz_of_split hl newSz).1
    have htotal : l.totalSz = totalOf (xs.map Prod.snd ++ ys.map Prod.snd) + sz o :=
      h.trans (totalOf_toVec_split hl)
    have htotal' : totalOf (l.modifyOrderSz oid newSz).1.toVec =
        totalOf (xs.map Prod.snd ++ ys.map Prod.snd) + newSz := by
      rw [totalOf_toVec_split hitems, sz_modifySz]
    have hlog : (l.modifyOrderSzLogged oid newSz).2 =
        [.sub l.totalSz (sz o), .add (l.totalSz - sz o) newSz] := by
      simp [modifyOrderSzLogged, LinkedList.nodeValue_of_split hl, SumUpdate.result]
    have hsz : (l.modifyOrderSz oid newSz).1.totalSz = saturatingAdd (l.totalSz - sz o) newSz := by
      simp [modifyOrderSz, LinkedList.nodeValue_of_split hl]
    rw [hlog, modifyOrderSzLogged_fst]
    refine ⟨?_, ?_⟩
    · rw [Exact, hsz, htotal', saturatingAdd]
      omega
    · simp only [List.mem_cons, List.not_mem_nil, or_false, forall_eq_or_imp, forall_eq,
        SumUpdate.Exact]
      omega
  · have hlog : l.modifyOrderSzLogged oid newSz = ((l, false), []) := by
      simp [modifyOrderSzLogged, LinkedList.nodeValue_of_notMem hk]
    rw [hlog]
    exact ⟨h, by simp⟩

/-- One round of the matching loop takes from the sum what it takes from the maker. -/
theorem tracks_matchLoop (fuel : ℕ) {l : PriceLevel O} (h : l.Exact) (taker : O)
    (filledOids : List ℕ) :
    Tracks (matchLoopLogged fuel l taker filledOids).1.1
      (matchLoopLogged fuel l taker filledOids).2 := by
  induction fuel generalizing l taker filledOids with
  | zero => exact ⟨h, by simp [matchLoopLogged]⟩
  | succ fuel ih =>
    cases hl : l.items with
    | nil =>
      have hh : l.orders.headValue = none := by
        rw [LinkedList.headValue_eq, ← items, hl]
        rfl
      simp only [matchLoopLogged, hh]
      exact ⟨h, by simp⟩
    | cons x rest =>
      obtain ⟨k, maker⟩ := x
      have hh : l.orders.headValue = some maker := by
        rw [LinkedList.headValue_eq, ← items, hl]
        rfl
      set traded := min (sz taker) (sz maker) with htraded
      set maker' := modifySz maker (sz maker - traded) with hm
      have hszm : sz maker' = sz maker - traded := sz_modifySz _ _
      have htotal : l.totalSz = totalOf (rest.map Prod.snd) + sz maker :=
        h.trans (totalOf_toVec_split (hl.trans (List.nil_append _).symm))
      have hset : (l.orders.setHeadValue maker').toList = (k, maker') :: rest :=
        LinkedList.toList_setHeadValue hl maker'
      set orders := if sz maker' = 0 then (l.orders.setHeadValue maker').removeFront.1
        else l.orders.setHeadValue maker' with horders
      have hround : (⟨orders, l.totalSz - (sz maker - sz maker')⟩ : PriceLevel O).Exact := by
        rw [Exact, toVec_eq, items, horders]
        show l.totalSz - (sz maker - sz maker') = _
        split
        · rw [LinkedList.toList_removeFront, hset, List.tail_cons]
          omega
        · rw [hset, List.map_cons, totalOf_cons]
          show _ = sz maker' + _
          omega
      have hupdates : ∀ u ∈ [SumUpdate.sub (sz maker) (sz maker'),
          SumUpdate.sub l.totalSz (sz maker - sz maker')], u.Exact := by
        simp only [List.mem_cons, List.not_mem_nil, or_false, forall_eq_or_imp, forall_eq,
          SumUpdate.Exact]
        omega
      set taker' := modifySz taker (sz taker - traded) with ht
      set filled := if sz maker' = 0 then filledOids ++ [oid maker'] else filledOids with hfilled
      have hunf : matchLoopLogged (fuel + 1) l taker filledOids =
          if sz taker' = 0 then ((⟨orders, l.totalSz - (sz maker - sz maker')⟩, taker', filled),
            [.sub (sz maker) (sz maker'), .sub l.totalSz (sz maker - sz maker')])
          else
            ((matchLoopLogged fuel ⟨orders, l.totalSz - (sz maker - sz maker')⟩ taker' filled).1,
              .sub (sz maker) (sz maker') :: .sub l.totalSz (sz maker - sz maker') ::
              (matchLoopLogged fuel ⟨orders, l.totalSz - (sz maker - sz maker')⟩ taker' filled).2) := by
        simp only [matchLoopLogged, hh, fill_eq, decrementSz_eq, ← htraded, ← ht, ← hm,
          SumUpdate.result, horders, hfilled]
        by_cases h0 : sz maker' = 0
        · simp only [h0, if_true]
        · simp only [h0, if_false]
      rw [hunf]
      split
      · exact ⟨hround, hupdates⟩
      · have hrest := ih hround taker' filled
        refine ⟨hrest.exact, ?_⟩
        intro u hu
        rcases List.mem_cons.mp hu with rfl | hu
        · exact hupdates _ (by simp)
        · rcases List.mem_cons.mp hu with rfl | hu
          · exact hupdates _ (by simp)
          · exact hrest.updates_exact u hu

/-- The debug check compares with the sum as far as a `u64` holds it. -/
theorem debugValidate_iff (l : PriceLevel O) :
    l.debugValidate = true ↔ l.totalSz = min (totalOf l.toVec) u64Max := by
  have hfold : ∀ (orders : List O) (acc : ℕ), acc ≤ u64Max →
      orders.foldl (fun acc order => saturatingAdd acc (sz order)) acc =
        min (acc + totalOf orders) u64Max := by
    intro orders
    induction orders with
    | nil =>
      intro acc hacc
      exact (Nat.min_eq_left hacc).symm
    | cons o orders ih =>
      intro acc hacc
      rw [List.foldl_cons, ih (saturatingAdd acc (sz o)) (Nat.min_le_right _ _), totalOf_cons,
        saturatingAdd]
      omega
  rw [debugValidate, decide_eq_true_eq, hfold _ 0 (Nat.zero_le _), Nat.zero_add, eq_comm]

theorem Exact.debugValidate {l : PriceLevel O} (h : l.Exact) (hfits : totalOf l.toVec ≤ u64Max) :
    l.debugValidate = true := by
  rw [debugValidate_iff, Nat.min_eq_left hfits]
  exact h

end PriceLevel

/-- Every level of a side has an exact sum. -/
def LevelsExact (m : Levels O) : Prop := ∀ (px : ℕ) (l : PriceLevel O), m[px]? = some l → l.Exact

namespace LevelsExact

variable {m : Levels O}

theorem insert (h : LevelsExact m) (px : ℕ) {l : PriceLevel O} (hl : l.Exact) :
    LevelsExact (m.insert px l) := by
  intro q l' hq
  rw [Std.ExtTreeMap.getElem?_insert] at hq
  split at hq
  · cases hq
    exact hl
  · exact h q l' hq

theorem erase (h : LevelsExact m) (px : ℕ) : LevelsExact (m.erase px) := by
  intro q l' hq
  rw [Std.ExtTreeMap.getElem?_erase] at hq
  split at hq
  · cases hq
  · exact h q l' hq

theorem foldl_erase (h : LevelsExact m) (keys : List ℕ) :
    LevelsExact (keys.foldl (fun m px => m.erase px) m) := by
  induction keys generalizing m with
  | nil => exact h
  | cons px keys ih => exact ih (h.erase px)

theorem getD (h : LevelsExact m) (px : ℕ) : ((m[px]?).getD PriceLevel.new).Exact := by
  cases hl : m[px]? with
  | none => exact PriceLevel.Exact.new
  | some l => exact h px l hl

theorem matchLevels (takerSide : Side) (limitPx : ℕ) (todo : List (ℕ × PriceLevel O))
    (htodo : ∀ x ∈ todo, x.2.Exact) (h : LevelsExact m) (taker : O)
    (filledOids keysToRemove : List ℕ) {r : (Levels O × O × List ℕ × List ℕ) × List SumUpdate}
    (hr : r = matchLevelsLogged takerSide limitPx todo m taker filledOids keysToRemove) :
    LevelsExact r.1.1 ∧ ∀ u ∈ r.2, u.Exact := by
  subst hr
  induction todo generalizing m taker filledOids keysToRemove with
  | nil => exact ⟨h, by simp [matchLevelsLogged]⟩
  | cons x rest ih =>
    have hlevel := PriceLevel.tracks_matchLoop (x.2.orders.len + 1) (htodo x (by simp)) taker
      filledOids
    have hm := h.insert x.1 hlevel.exact
    rw [matchLevelsLogged]
    split
    · exact ⟨h, by simp⟩
    · dsimp only
      split
      · exact ⟨hm, hlevel.updates_exact⟩
      · obtain ⟨hrest, hmore⟩ := ih (fun y hy => htodo y (List.mem_cons_of_mem _ hy)) hm _ _ _
        refine ⟨hrest, ?_⟩
        intro u hu
        rcases List.mem_append.mp hu with hu | hu
        · exact hlevel.updates_exact u hu
        · exact hmore u hu

theorem matchOrder (h : LevelsExact m) (taker : O) :
    LevelsExact (matchOrderLogged m taker).1.1 ∧ ∀ u ∈ (matchOrderLogged m taker).2, u.Exact := by
  obtain ⟨hlevels, hupdates⟩ := h.matchLevels (side taker) (limitPx taker)
    (inPriority (side taker) m) (fun x hx => h x.1 x.2 (mem_inPriority.mp hx)) taker [] []
    rfl
  exact ⟨hlevels.foldl_erase _, hupdates⟩

theorem addOrderToBook [SlabPolicy] (h : LevelsExact m) (order : O) (insertBefore : Option ℕ)
    {r : (Levels O × Bool) × List SumUpdate} (hr : r = addOrderToBookLogged m order insertBefore)
    (hfits : ∀ (px : ℕ) (l : PriceLevel O), r.1.1[px]? = some l → totalOf l.toVec ≤ u64Max) :
    LevelsExact r.1.1 ∧ ∀ u ∈ r.2, u.Exact := by
  have hlevel := h.getD (limitPx order)
  have hback : ∀ b, r = ((m.insert (limitPx order) (((m[limitPx order]?).getD
        PriceLevel.new).pushBackLogged (oid order) order).1.1, b),
      (((m[limitPx order]?).getD PriceLevel.new).pushBackLogged (oid order) order).2) →
      LevelsExact r.1.1 ∧ ∀ u ∈ r.2, u.Exact := by
    rintro b rfl
    have hl := PriceLevel.tracks_pushBack hlevel (oid order) order
      (hfits (limitPx order) _ (by simp))
    exact ⟨h.insert _ hl.exact, hl.updates_exact⟩
  cases insertBefore with
  | none => exact hback false hr
  | some before =>
    rw [addOrderToBookLogged] at hr
    dsimp only at hr
    split at hr
    · subst hr
      have hl := PriceLevel.tracks_insertBefore hlevel before (oid order) order
        (hfits (limitPx order) _ (by simp))
      exact ⟨h.insert _ hl.exact, hl.updates_exact⟩
    · exact hback true hr

end LevelsExact

namespace RawBook

/-- Every level of the book has an exact sum. -/
def ExactSums (b : RawBook O) : Prop := ∀ s, LevelsExact (b.side s)

/-- The exact sum of the sizes at each level fits in a `u64`. -/
def SumsFit (b : RawBook O) : Prop :=
  ∀ s (px : ℕ) (l : PriceLevel O), (b.side s)[px]? = some l → totalOf l.toVec ≤ u64Max

/-- An operation took the book to another one, whose sums are exact as are the updates. -/
structure Tracks (b' : RawBook O) (updates : List SumUpdate) : Prop where
  exact : b'.ExactSums
  updates_exact : ∀ u ∈ updates, u.Exact

variable {b : RawBook O}

theorem ExactSums.new : (RawBook.new : RawBook O).ExactSums := by
  intro s px l hl
  cases s <;> simp [RawBook.new, side] at hl

theorem ExactSums.setSide (h : b.ExactSums) (s : Side) {m : Levels O} (hm : LevelsExact m) :
    (b.setSide s m).ExactSums := by
  intro t
  by_cases ht : t = s
  · rw [ht, side_setSide]
    exact hm
  · rw [side_setSide_of_ne b ht]
    exact h t

theorem ExactSums.withIndex (h : b.ExactSums) (index : Std.ExtTreeMap ℕ (Side × ℕ)) :
    ({ b with oidToSidePx := index } : RawBook O).ExactSums := fun s => by
  rw [side_withIndex]
  exact h s

theorem tracks_addOrderBefore [SlabPolicy] (h : b.ExactSums) (order : O) (insertBefore : Option ℕ)
    (hfits : (b.addOrderBefore order insertBefore).1.SumsFit) :
    Tracks (b.addOrderBeforeLogged order insertBefore).1.1
      (b.addOrderBeforeLogged order insertBefore).2 := by
  rw [← addOrderBeforeLogged_fst] at hfits
  rw [addOrderBeforeLogged] at hfits ⊢
  split at hfits <;> split
  · exact ⟨h, by simp⟩
  · contradiction
  · contradiction
  · obtain ⟨hmakers, hmatched⟩ := (h (InnerOrder.side order).opposite).matchOrder order
    dsimp only at hfits ⊢
    set r := matchOrderLogged (b.side (InnerOrder.side order).opposite) order with hr
    have hb := (h.setSide (InnerOrder.side order).opposite hmakers).withIndex
      (r.1.2.2.foldl (fun m k => m.erase k) b.oidToSidePx)
    split at hfits <;> split
    · obtain ⟨hresting, hmore⟩ := (hb (InnerOrder.side order)).addOrderToBook r.1.2.1 insertBefore
        rfl fun px l hl => hfits (InnerOrder.side order) px l (by simpa using hl)
      refine ⟨(hb.setSide _ hresting).withIndex _, ?_⟩
      intro u hu
      rcases List.mem_append.mp hu with hu | hu
      · exact hmatched u hu
      · exact hmore u hu
    · contradiction
    · contradiction
    · exact ⟨hb, hmatched⟩

theorem tracks_cancelOrder (h : b.ExactSums) (oid : ℕ) :
    Tracks (b.cancelOrderLogged oid).1.1 (b.cancelOrderLogged oid).2 := by
  rw [cancelOrderLogged]
  split
  · exact ⟨h, by simp⟩
  · rename_i s px _
    have hb := h.withIndex (b.oidToSidePx.erase oid)
    dsimp only
    split
    · exact ⟨hb, by simp⟩
    · rename_i level hlevel
      have hl := PriceLevel.tracks_remove (hb s px level hlevel) oid
      refine ⟨hb.setSide s ?_, hl.updates_exact⟩
      split
      · exact (hb s).erase px
      · exact (hb s).insert px hl.exact

theorem tracks_modifySz (h : b.ExactSums) (oid newSz : ℕ)
    (hfits : (b.modifySz oid newSz).1.SumsFit) :
    Tracks (b.modifySzLogged oid newSz).1.1 (b.modifySzLogged oid newSz).2 := by
  rw [modifySz] at hfits
  rw [modifySzLogged]
  split
  · exact tracks_cancelOrder h oid
  · rename_i hsz
    rw [if_neg hsz] at hfits
    cases hindex : b.oidToSidePx[oid]? with
    | none => exact ⟨h, by simp⟩
    | some p =>
      simp only [hindex] at hfits
      dsimp only
      cases hlevel : (b.side p.1)[p.2]? with
      | none => exact ⟨h, by simp⟩
      | some level =>
        simp only [hlevel] at hfits
        have hl := PriceLevel.tracks_modifyOrderSz (h p.1 p.2 level hlevel) oid newSz
          (hfits p.1 p.2 _ (by simp))
        exact ⟨h.setSide p.1 ((h p.1).insert p.2 hl.exact), hl.updates_exact⟩

theorem ExactSums.compact [SlabPolicy] (h : b.ExactSums) : b.compact.1.ExactSums := by
  have hmap : ∀ {m : Levels O}, LevelsExact m →
      LevelsExact (m.map fun _ level => level.compact.1) := by
    intro m hm px l hl
    rw [Std.ExtTreeMap.getElem?_map, Option.map_eq_some_iff] at hl
    obtain ⟨l₀, hl₀, rfl⟩ := hl
    have := hm px l₀ hl₀
    rw [PriceLevel.Exact, PriceLevel.toVec_eq] at this ⊢
    rw [PriceLevel.items_compact, ← this]
    rfl
  intro s
  cases s with
  | ask => exact hmap (h .ask)
  | bid => exact hmap (h .bid)

/-- **One operation keeps the sums exact**, by exact updates. -/
theorem tracks_step [SlabPolicy] (h : b.ExactSums) (op : BookOp O) (hfits : (b.step op).SumsFit) :
    Tracks (b.stepLogged op).1 (b.stepLogged op).2 := by
  cases op with
  | addOrderBefore order insertBefore =>
    exact ⟨(tracks_addOrderBefore h order insertBefore hfits).exact,
      (tracks_addOrderBefore h order insertBefore hfits).updates_exact⟩
  | cancelOrder oid =>
    exact ⟨(tracks_cancelOrder h oid).exact, (tracks_cancelOrder h oid).updates_exact⟩
  | modifySz oid newSz =>
    exact ⟨(tracks_modifySz h oid newSz hfits).exact,
      (tracks_modifySz h oid newSz hfits).updates_exact⟩
  | compact => exact ⟨h.compact, by simp [stepLogged]⟩

theorem tracks_run [SlabPolicy] (h : b.ExactSums) (ops : List (BookOp O))
    (hfits : ∀ done, done <+: ops → (b.run done).SumsFit) :
    Tracks (b.runLogged ops).1 (b.runLogged ops).2 := by
  induction ops generalizing b with
  | nil => exact ⟨h, by simp [runLogged]⟩
  | cons op ops ih =>
    have hstep := tracks_step h op (hfits [op] (by simp))
    have hrun := ih hstep.exact fun done hdone => by
      rw [stepLogged_fst]
      exact hfits (op :: done) (by simpa using hdone)
    refine ⟨hrun.exact, ?_⟩
    intro u hu
    rcases List.mem_append.mp hu with hu | hu
    · exact hstep.updates_exact u hu
    · exact hrun.updates_exact u hu

/-! ## The best prices -/

/-- The full snapshot. -/
def toSnapshot (b : RawBook O) : Snapshot O := b.toSnapshotInBand ⟨none, none⟩

theorem toSnapshot_eq (b : RawBook O) :
    b.toSnapshot = ⟨b.bids.toList.reverse.flatMap fun x => x.2.toVec,
      b.asks.toList.flatMap fun x => x.2.toVec⟩ := by
  have hall : ∀ m : Levels O, (m.toList.filter fun x => PxBand.contains ⟨none, none⟩ x.1) =
      m.toList := fun m => List.filter_eq_self.mpr fun _ _ => rfl
  rw [toSnapshot, toSnapshotInBand_eq_filter, if_neg (by decide), hall, hall]

end RawBook

/-- The best level of one side of a snapshot: the price of its first order, and the sum
and the number of the orders that follow at that price.  The number is a `u32`. -/
def referenceBbo (orders : List O) : Option (ℕ × ℕ × ℕ) :=
  orders.head?.map fun first =>
    let level := orders.takeWhile fun o => limitPx o = limitPx first
    (limitPx first, level.foldl (fun total o => total + sz o) 0,
      level.foldl (fun n _ => min (n + 1) (2 ^ 32 - 1)) 0)

/-- The best level is the first run of orders of one price. -/
theorem referenceBbo_append {px : ℕ} {level others : List O} (hne : level ≠ [])
    (hlevel : ∀ o ∈ level, limitPx o = px) (hothers : ∀ o ∈ others, limitPx o ≠ px) :
    referenceBbo (level ++ others) =
      some (px, totalOf level, min level.length (2 ^ 32 - 1)) := by
  cases level with
  | nil => exact absurd rfl hne
  | cons first rest =>
    have hfirst : limitPx first = px := hlevel first (by simp)
    have htake : (first :: rest ++ others).takeWhile (fun o => limitPx o = limitPx first) =
        first :: rest := by
      rw [List.takeWhile_append_of_pos]
      · cases others with
        | nil => simp
        | cons o others =>
          have := hothers o (by simp)
          simp [hfirst, this]
      · intro o ho
        simp [hfirst, hlevel o ho]
    have hsum : ∀ (orders : List O) (acc : ℕ),
        orders.foldl (fun total o => total + sz o) acc = acc + totalOf orders := by
      intro orders
      induction orders with
      | nil => simp
      | cons o orders ih =>
        intro acc
        rw [List.foldl_cons, ih, totalOf_cons]
        omega
    have hcount : ∀ (orders : List O) (n : ℕ), n ≤ 2 ^ 32 - 1 →
        orders.foldl (fun n _ => min (n + 1) (2 ^ 32 - 1)) n =
          min (n + orders.length) (2 ^ 32 - 1) := by
      intro orders
      induction orders with
      | nil =>
        intro n hn
        exact (Nat.min_eq_left hn).symm
      | cons o orders ih =>
        intro n hn
        rw [List.foldl_cons, ih _ (by omega), List.length_cons]
        omega
    rw [referenceBbo, List.cons_append, List.head?_cons, Option.map_some, ← List.cons_append]
    simp only [htake]
    rw [hsum, hcount _ _ (by omega), hfirst]
    simp

/-- Levels with exact sums, put together best first, show the aggregate of the first. -/
theorem referenceBbo_levels {levels : List (ℕ × PriceLevel O)}
    (hdistinct : (levels.map Prod.fst).Nodup)
    (hlevel : ∀ x ∈ levels, x.2.Exact ∧ x.2.toVec ≠ [] ∧ ∀ o ∈ x.2.toVec, limitPx o = x.1) :
    referenceBbo (levels.flatMap fun x => x.2.toVec) =
      levels.head?.map RawBook.aggregateEntry := by
  cases levels with
  | nil => rfl
  | cons x rest =>
    obtain ⟨hexact, hne, hpx⟩ := hlevel x (by simp)
    rw [List.map_cons, List.nodup_cons] at hdistinct
    rw [List.flatMap_cons, referenceBbo_append hne hpx]
    · rw [List.head?_cons, Option.map_some, RawBook.aggregateEntry, hexact]
      simp
    · intro o ho heq
      obtain ⟨y, hy, ho⟩ := List.mem_flatMap.mp ho
      have := (hlevel y (List.mem_cons_of_mem _ hy)).2.2 o ho
      exact hdistinct.1 (List.mem_map.mpr ⟨y, hy, by rw [← this, heq]⟩)

namespace RawBook

/-- **The best prices are those of the snapshot** where the sums are exact. -/
theorem Represents.getBbo_eq {b : RawBook O} (h : Represents b) (hexact : b.ExactSums) :
    b.getBbo = (referenceBbo b.toSnapshot.bids, referenceBbo b.toSnapshot.asks) := by
  have hlevel : ∀ s, ∀ x ∈ (b.side s).toList,
      x.2.Exact ∧ x.2.toVec ≠ [] ∧ ∀ o ∈ x.2.toVec, limitPx o = x.1 := by
    rintro s ⟨px, l⟩ hl
    rw [Std.ExtTreeMap.mem_toList_iff_getElem?_eq_some] at hl
    refine ⟨hexact s px l hl, ?_, ?_⟩
    · have := h.nonempty s px l hl
      rw [PriceLevel.toVec_eq, ne_eq, List.map_eq_nil_iff]
      rwa [← Bool.not_eq_true, PriceLevel.isEmpty_iff] at this
    · intro o ho
      rw [PriceLevel.toVec_eq] at ho
      obtain ⟨x, hx, rfl⟩ := List.mem_map.mp ho
      exact (h.placed s px l hl x hx).2.2
  have hdistinct : ∀ s, ((b.side s).toList.map Prod.fst).Nodup := fun s => by
    rw [Std.ExtTreeMap.map_fst_toList_eq_keys]
    exact Std.ExtTreeMap.nodup_keys
  rw [toSnapshot_eq]
  refine Prod.ext ?_ ?_
  · rw [referenceBbo_levels]
    · rw [List.head?_reverse]
      rfl
    · rw [List.map_reverse, List.nodup_reverse]
      exact hdistinct .bid
    · intro x hx
      exact hlevel .bid x (List.mem_reverse.mp hx)
  · exact (referenceBbo_levels (hdistinct .ask) (hlevel .ask)).symm

/-- **Level aggregates are exact.**  In a run whose exact sums stay within a `u64` every
update of a sum is exact, every level's sum and number of orders are those of its queue,
and the best prices are those folded over the snapshot. -/
theorem aggregates_exact [SlabPolicy] (ops : List (BookOp O))
    (hfits : ∀ done, done <+: ops → ((new : RawBook O).run done).SumsFit) :
    (((new : RawBook O).runLogged ops).1 = (new : RawBook O).run ops ∧
      ∀ u ∈ ((new : RawBook O).runLogged ops).2, u.Exact) ∧
    (∀ s (px : ℕ) (l : PriceLevel O), (((new : RawBook O).run ops).side s)[px]? = some l →
      l.totalSz = (l.toVec.map sz).sum ∧ l.len = l.toVec.length ∧ l.debugValidate = true) ∧
    ((new : RawBook O).run ops).getBbo =
      (referenceBbo ((new : RawBook O).run ops).toSnapshot.bids,
        referenceBbo ((new : RawBook O).run ops).toSnapshot.asks) := by
  have hrun := tracks_run (ExactSums.new (O := O)) ops hfits
  have hexact : ((new : RawBook O).run ops).ExactSums := runLogged_fst (O := O) _ _ ▸ hrun.exact
  refine ⟨⟨runLogged_fst _ _, hrun.updates_exact⟩, ?_, ?_⟩
  · intro s px l hl
    have hl' := hexact s px l hl
    exact ⟨hl', by simp, hl'.debugValidate (hfits ops (List.prefix_refl _) s px l hl)⟩
  · exact (represents_run .new ops).getBbo_eq hexact

theorem sumsFit_iff (b : RawBook O) :
    b.SumsFit ↔ ∀ x ∈ b.bids.toList ++ b.asks.toList, totalOf x.2.toVec ≤ u64Max := by
  constructor
  · rintro h ⟨px, l⟩ hx
    rw [List.mem_append] at hx
    simp only [Std.ExtTreeMap.mem_toList_iff_getElem?_eq_some] at hx
    rcases hx with hx | hx
    · exact h .bid px l hx
    · exact h .ask px l hx
  · intro h s px l hl
    refine h (px, l) ?_
    rw [List.mem_append]
    simp only [Std.ExtTreeMap.mem_toList_iff_getElem?_eq_some]
    cases s with
    | ask => exact Or.inr hl
    | bid => exact Or.inl hl

end RawBook

end HlOrderbook

namespace HlOrderbook

section Example

attribute [local instance] SlabPolicy.latest

/-- An order of one coin. -/
def orderAt (side : Side) (limitPx sz oid : ℕ) : InnerL4Order :=
  ⟨0, "BTC", side, limitPx, sz, oid, 0, "", false, "0.0", false, false, "Limit", none, none⟩

/-- Two asks and a bid that takes one and a half of them, a new size, a removal. -/
def partialFill : List (BookOp InnerL4Order) :=
  [.addOrderBefore (orderAt .ask 101 5 1) none, .addOrderBefore (orderAt .ask 101 7 2) none,
    .addOrderBefore (orderAt .bid 101 8 3) none, .modifySz 2 (2 ^ 64 - 1), .compact,
    .addOrderBefore (orderAt .bid 100 3 4) none, .addOrderBefore (orderAt .bid 100 2 5) (some 4),
    .cancelOrder 4]

theorem aggregates_partialFill :
    ((RawBook.new : RawBook InnerL4Order).run partialFill).getBbo =
      (some (100, 2, 1), some (101, 2 ^ 64 - 1, 1)) ∧
    ((RawBook.new : RawBook InnerL4Order).runLogged partialFill).2.length = 11 ∧
    ∀ u ∈ ((RawBook.new : RawBook InnerL4Order).runLogged partialFill).2, u.Exact := by
  refine ⟨by decide +kernel, by decide +kernel,
    (RawBook.aggregates_exact partialFill fun done hdone => ?_).1.2⟩
  rw [← List.mem_inits] at hdone
  rw [RawBook.sumsFit_iff]
  revert done
  decide +kernel

end Example

end HlOrderbook
