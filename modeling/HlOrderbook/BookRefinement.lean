import HlOrderbook.RefBook

/-!
# The order book is a reference book

What is left of a book when its index, its sums and its pointers are forgotten is a
reference book, and every operation of the one is that operation of the other: the
makers are taken in the same order, a remainder is put at the same place, and the
answers are the same.

## Main definitions

* `RawBook.toRef` — the reference book of a book.
* `RawBook.ActsAsRef` — what each operation on a book does to its reference book.

## Main results

* `RawBook.Shows.toRef_addOrderBefore` and its companions.
* `RawBook.run_refines_ref`.
-/

set_option autoImplicit false
set_option linter.unusedSectionVars false

namespace HlOrderbook

variable {O : Type} [InnerOrder O]

open InnerOrder

/-! ## Matching -/

/-- The levels, as lists. -/
def asQueues (levels : List (ℕ × PriceLevel O)) : List (ℕ × List O) :=
  levels.map fun x => (x.1, x.2.toVec)

@[simp] theorem asQueues_cons (x : ℕ × PriceLevel O) (levels : List (ℕ × PriceLevel O)) :
    asQueues (x :: levels) = (x.1, x.2.toVec) :: asQueues levels := rfl

/-- **Matching a queue takes the taker's size from it.** -/
theorem matchQueue_consume (taker : O) {items : List (ℕ × O)} (hpos : ∀ x ∈ items, 0 < sz x.2) :
    (matchQueue taker items).1.map Prod.snd = consume (sz taker) (items.map Prod.snd) ∧
      sz (matchQueue taker items).2.1 = sz taker - totalOf (items.map Prod.snd) := by
  induction items generalizing taker with
  | nil => simp [matchQueue]
  | cons x rest ih =>
    obtain ⟨k, maker⟩ := x
    have hrest : ∀ x ∈ rest, 0 < sz x.2 := fun x hx => hpos x (List.mem_cons_of_mem _ hx)
    simp only [List.map_cons, consume, totalOf_cons]
    by_cases hle : sz maker ≤ sz taker
    · have hmin : min (sz taker) (sz maker) = sz maker := by omega
      by_cases heq : sz taker = sz maker
      · have h0 : sz taker - sz maker = 0 := by omega
        rw [matchQueue, if_pos hle, if_pos heq, if_pos hle, h0, consume_zero, hmin]
        · exact ⟨rfl, by rw [sz_modifySz]; omega⟩
        · intro m hm
          obtain ⟨x, hx, rfl⟩ := List.mem_map.mp hm
          exact hrest x hx
      · obtain ⟨h₁, h₂⟩ := ih (InnerOrder.modifySz taker (sz taker - sz maker)) hrest
        rw [matchQueue, if_pos hle, if_neg heq, if_pos hle, hmin]
        rw [sz_modifySz] at h₁ h₂
        exact ⟨h₁, by rw [h₂, Nat.sub_sub]⟩
    · have hmin : min (sz taker) (sz maker) = sz taker := by omega
      rw [matchQueue, if_neg hle, if_neg hle, hmin]
      refine ⟨rfl, ?_⟩
      rw [sz_modifySz]
      omega

/-- **The loop over the levels takes the taker's size from them, level by level.** -/
theorem matchLevels_consume (takerSide : Side) (limitPx : ℕ) (todo : List (ℕ × PriceLevel O))
    (makers : Levels O) (taker : O) (filledOids keysToRemove : List ℕ)
    (hcross : ∀ x ∈ todo, crosses takerSide limitPx x.1 = true)
    (hnd : (todo.map Prod.fst).Nodup) (hin : ∀ x ∈ todo, makers[x.1]? = some x.2)
    (hne : ∀ x ∈ todo, x.2.items ≠ []) (hpos : ∀ x ∈ todo, ∀ y ∈ x.2.items, 0 < sz y.2)
    {r : Levels O × O × List ℕ × List ℕ}
    (hr : r = matchLevels takerSide limitPx todo makers taker filledOids keysToRemove) :
    (∀ x ∈ todo, (queueAt r.1 x.1).map Prod.snd =
      consume (sz taker - RefBook.ahead (asQueues todo) x.1) x.2.toVec) ∧
    sz r.2.1 = sz taker - totalOf ((asQueues todo).flatMap Prod.snd) := by
  induction todo generalizing makers taker filledOids keysToRemove r with
  | nil =>
    subst hr
    exact ⟨by simp, by simp [matchLevels, asQueues]⟩
  | cons x rest ih =>
    obtain ⟨px, level⟩ := x
    have hmem : ∀ x ∈ rest, x ∈ (px, level) :: rest := fun x hx => List.mem_cons_of_mem _ hx
    have hc : crosses takerSide limitPx px = true := hcross (px, level) List.mem_cons_self
    rw [List.map_cons, List.nodup_cons] at hnd
    obtain ⟨h₁, h₂, h₃⟩ := level.matchAgainst_eq taker filledOids
    set level' := (level.matchAgainst taker filledOids).1 with hlevel'
    set taker' := (level.matchAgainst taker filledOids).2.1 with htaker'
    obtain ⟨hleft, hsz⟩ := matchQueue_consume taker (hpos (px, level) List.mem_cons_self)
    rw [← h₁] at hleft
    have hsz : sz taker' = sz taker - totalOf level.toVec := by rw [h₂, hsz]; rfl
    set makers' := makers.insert px level' with hmakers'
    have hhead : queueAt makers' px = level'.items := queueAt_of_some (by simp [hmakers'])
    have hrest : ∀ x ∈ rest, makers'[x.1]? = some x.2 := by
      intro x hx
      have hpx : ¬ px = x.1 := by
        rintro rfl
        exact hnd.1 (List.mem_map.mpr ⟨x, hx, rfl⟩)
      rw [hmakers', Std.ExtTreeMap.getElem?_insert, if_neg (by simpa using hpx)]
      exact hin x (hmem x hx)
    have hahead : ∀ x ∈ rest, RefBook.ahead (asQueues ((px, level) :: rest)) x.1 =
        totalOf level.toVec + RefBook.ahead (asQueues rest) x.1 := by
      intro x hx
      have hpx : px ≠ x.1 := by
        rintro rfl
        exact hnd.1 (List.mem_map.mpr ⟨x, hx, rfl⟩)
      simp [RefBook.ahead, hpx]
    have hahead₀ : RefBook.ahead (asQueues ((px, level) :: rest)) px = 0 := by
      simp [RefBook.ahead]
    rw [matchLevels, hc] at hr
    simp only [Bool.not_true, Bool.false_eq_true, if_false, ← hlevel', ← htaker', ← hmakers'] at hr
    split at hr
    case isTrue h0 =>
      -- the taker is used up, and the levels that follow are not met
      subst hr
      have hle : sz taker ≤ totalOf level.toVec := by omega
      refine ⟨?_, ?_⟩
      · intro x hx
        rcases List.mem_cons.mp hx with rfl | hx
        · simp only [hahead₀, Nat.sub_zero, hhead]
          exact hleft
        · have hzero : sz taker - (totalOf level.toVec + RefBook.ahead (asQueues rest) x.1) = 0 := by
            omega
          rw [hahead x hx, hzero, queueAt_of_some (hrest x hx), consume_zero]
          · rfl
          · intro m hm
            obtain ⟨y, hy, rfl⟩ := List.mem_map.mp hm
            exact hpos x (hmem x hx) y hy
      · simp only [asQueues_cons, List.flatMap_cons, totalOf_append]
        omega
    case isFalse h0 =>
      have H := matchLevels_spec takerSide limitPx rest makers' taker'
        (level.matchAgainst taker filledOids).2.2
        (if level'.isEmpty = true then keysToRemove ++ [px] else keysToRemove)
        (fun y hy => hcross y (hmem y hy)) hnd.2 hrest (fun y hy => hne y (hmem y hy))
      obtain ⟨ih₁, ih₂⟩ := ih makers' taker' _ _ (fun y hy => hcross y (hmem y hy)) hnd.2 hrest
        (fun y hy => hne y (hmem y hy)) (fun y hy => hpos y (hmem y hy)) hr
      rw [← hr] at H
      refine ⟨?_, ?_⟩
      · intro x hx
        rcases List.mem_cons.mp hx with rfl | hx
        · simp only [hahead₀, Nat.sub_zero]
          rw [queueAt_congr (H.frame px hnd.1), hhead]
          exact hleft
        · rw [ih₁ x hx, hahead x hx, hsz, Nat.sub_sub]
      · rw [ih₂, hsz, asQueues_cons, List.flatMap_cons, totalOf_append, Nat.sub_sub]

/-! ## The reference book of a book -/

/-- The reference book of a book: its queues. -/
def RawBook.toRef (b : RawBook O) : RefBook O :=
  ⟨b.bids.map fun _ l => l.toVec, b.asks.map fun _ l => l.toVec⟩

namespace RawBook.Shows

variable {b b' : RawBook O} {g g' : ℕ → Option O}

theorem side_toRef (b : RawBook O) (s : Side) :
    b.toRef.side s = (b.side s).map fun _ l => l.toVec := by
  cases s <;> rfl

theorem toRef_setSide (b : RawBook O) (s : Side) (m : Levels O)
    (index : Std.ExtTreeMap ℕ (Side × ℕ)) :
    ({ b.setSide s m with oidToSidePx := index } : RawBook O).toRef =
      b.toRef.setSide s (m.map fun _ l => l.toVec) := by
  cases s <;> rfl

theorem queue_toRef (b : RawBook O) (s : Side) (px : ℕ) :
    b.toRef.queue s px = (queueAt (b.side s) px).map Prod.snd := by
  rw [RefBook.queue, side_toRef, Std.ExtTreeMap.getElem?_map, queueAt]
  cases (b.side s)[px]? <;> rfl

theorem tidy_toRef (h : Shows b g) : b.toRef.Tidy := by
  intro s px q hq
  rw [side_toRef, Std.ExtTreeMap.getElem?_map, Option.map_eq_some_iff] at hq
  obtain ⟨l, hl, rfl⟩ := hq
  intro he
  exact h.nonempty s px l hl (List.map_eq_nil_iff.mp he)

/-- A book is a reference book when their queues agree. -/
theorem toRef_eq (h : Shows b g) {r : RefBook O} (hr : r.Tidy)
    (hq : ∀ s px, (queueAt (b.side s) px).map Prod.snd = r.queue s px) : b.toRef = r :=
  h.tidy_toRef.ext hr fun s px => (queue_toRef b s px).trans (hq s px)

/-- The search and the index find the same orders. -/
theorem rests_toRef (h : Shows b g) (hv : Valid g) (k : ℕ) : b.toRef.rests k = (g k).isSome := by
  have hside : ∀ s, ((b.side s).toList.flatMap fun x => x.2.toVec) =
      (b.toRef.side s).toList.flatMap Prod.snd := by
    intro s
    rw [side_toRef, Std.ExtTreeMap.toList_map, List.flatMap_map]
  have hmem : ∀ s o, o ∈ (b.toRef.side s).toList.flatMap Prod.snd ↔
      ∃ k, g k = some o ∧ InnerOrder.side o = s := by
    intro s o
    rw [← hside]
    exact h.mem_levels s
  rw [Bool.eq_iff_iff, RefBook.rests, List.any_eq_true, Option.isSome_iff_exists]
  simp only [List.any_eq_true, decide_eq_true_eq]
  constructor
  · rintro ⟨x, hx, o, ho, rfl⟩
    have hs : ∃ s, o ∈ (b.toRef.side s).toList.flatMap Prod.snd := by
      rcases List.mem_append.mp hx with hx | hx
      · exact ⟨.bid, List.mem_flatMap.mpr ⟨x, hx, ho⟩⟩
      · exact ⟨.ask, List.mem_flatMap.mpr ⟨x, hx, ho⟩⟩
    obtain ⟨s, hs⟩ := hs
    obtain ⟨j, hj, -⟩ := (hmem s o).mp hs
    exact ⟨o, hv.oid_eq hj ▸ hj⟩
  · rintro ⟨o, ho⟩
    obtain ⟨x, hx, hox⟩ := List.mem_flatMap.mp ((hmem (InnerOrder.side o) o).mpr ⟨k, ho, rfl⟩)
    refine ⟨x, List.mem_append.mpr ?_, o, hox, hv.oid_eq ho⟩
    cases hs : InnerOrder.side o with
    | ask =>
      rw [hs] at hx
      exact Or.inr hx
    | bid =>
      rw [hs] at hx
      exact Or.inl hx

/-! ## Removing and resizing -/

theorem toVec_oid (h : Shows b g) (hv : Valid g) {s : Side} {px : ℕ} {x : ℕ × O}
    (hx : x ∈ queueAt (b.side s) px) : oid x.2 = x.1 := by
  obtain ⟨k, o⟩ := x
  exact hv.oid_eq ((h.queue s px k o).mp hx).1

/-- An order that does not rest is in no queue. -/
theorem oid_ne_of_none (h : Shows b g) (hv : Valid g) {k : ℕ} (hk : g k = none) {s : Side} {px : ℕ}
    {x : ℕ × O} (hx : x ∈ queueAt (b.side s) px) : oid x.2 ≠ k := by
  rintro rfl
  have hg := ((h.queue s px x.1 x.2).mp hx).1
  rw [h.toVec_oid hv hx] at hk
  rw [hk] at hg
  cases hg

/-- An order rests in the queue of its side and price only. -/
theorem oid_ne_of_place (h : Shows b g) (hv : Valid g) {k : ℕ} {o : O} (hk : g k = some o)
    {s : Side} {px : ℕ} (hplace : ¬ (s = InnerOrder.side o ∧ px = limitPx o)) {x : ℕ × O}
    (hx : x ∈ queueAt (b.side s) px) : oid x.2 ≠ k := by
  rintro rfl
  obtain ⟨hg, hs, hpx⟩ := (h.queue s px x.1 x.2).mp hx
  rw [h.toVec_oid hv hx, hg] at hk
  cases hk
  exact hplace ⟨hs.symm, hpx.symm⟩

/-- In the queue an order rests in, no other order has its identifier. -/
theorem oid_ne_of_split (h : Shows b g) (hv : Valid g) {k : ℕ} {o : O} {s : Side} {px : ℕ}
    {xs ys : List (ℕ × O)} (hq : queueAt (b.side s) px = xs ++ (k, o) :: ys) :
    ∀ x ∈ xs ++ ys, oid x.2 ≠ k := by
  have hnd := nodup_queueAt (b.side s) px
  rw [hq, List.map_append, List.map_cons, List.nodup_middle, List.nodup_cons,
    ← List.map_append] at hnd
  rintro x hx rfl
  have hmem : x ∈ queueAt (b.side s) px := by
    rw [hq]
    simp only [List.mem_append, List.mem_cons] at hx ⊢
    tauto
  apply hnd.1
  rw [h.toVec_oid hv hmem]
  exact List.mem_map.mpr ⟨x, hx, rfl⟩

/-- **Removing an order is removing it from the lists.** -/
theorem toRef_cancelOrder (h : Shows b g) (hv : Valid g) (k : ℕ) :
    (b.cancelOrder k).1.toRef = (b.toRef.cancelOrder k).1 ∧
      (b.cancelOrder k).2 = (b.toRef.cancelOrder k).2 := by
  refine ⟨(h.cancelOrder k).1.toRef_eq (RefBook.tidy_edit _ _) fun s px => ?_, ?_⟩
  · rw [RefBook.cancelOrder, RefBook.queue_edit _ rfl, queue_toRef]
    have hkeep : (∀ x ∈ queueAt (b.side s) px, oid x.2 ≠ k) →
        (queueAt (b.side s) px).map Prod.snd =
          ((queueAt (b.side s) px).map Prod.snd).filter fun o => oid o ≠ k := by
      intro hne
      symm
      rw [List.filter_eq_self]
      intro o ho
      obtain ⟨x, hx, rfl⟩ := List.mem_map.mp ho
      simpa using hne x hx
    cases hk : g k with
    | none =>
      have hidx : b.oidToSidePx[k]? = none := by rw [h.index, hk]; rfl
      rw [RawBook.cancelOrder, hidx]
      exact hkeep fun x hx => h.oid_ne_of_none hv hk hx
    | some o =>
      obtain ⟨levels, l, xs, ys, hl, hxs, hcancel, hframe, hqueue, -⟩ := h.cancelOrder_levels hk
      have hq : queueAt (b.side (InnerOrder.side o)) (limitPx o) = xs ++ (k, o) :: ys :=
        (queueAt_of_some hl).trans hxs
      rw [hcancel, side_withIndex]
      by_cases hplace : s = InnerOrder.side o ∧ px = limitPx o
      · obtain ⟨rfl, rfl⟩ := hplace
        have hne := h.oid_ne_of_split hv hq
        have ho : oid o = k := hv.oid_eq hk
        rw [side_setSide, hqueue, hq]
        have hfilter : ∀ zs : List (ℕ × O), (∀ x ∈ zs, oid x.2 ≠ k) →
            (zs.map Prod.snd).filter (fun o => oid o ≠ k) = zs.map Prod.snd := by
          intro zs hzs
          rw [List.filter_eq_self]
          intro o ho
          obtain ⟨x, hx, rfl⟩ := List.mem_map.mp ho
          simpa using hzs x hx
        rw [List.map_append, List.map_append, List.map_cons, List.filter_append,
          List.filter_cons_of_neg (by simpa using ho),
          hfilter xs fun x hx => hne x (List.mem_append_left _ hx),
          hfilter ys fun x hx => hne x (List.mem_append_right _ hx)]
      · have hsame : queueAt ((b.setSide (InnerOrder.side o) levels).side s) px =
            queueAt (b.side s) px := by
          by_cases hs : s = InnerOrder.side o
          · subst hs
            rw [side_setSide]
            exact queueAt_congr (hframe px fun hpx => hplace ⟨rfl, hpx⟩)
          · rw [side_setSide_of_ne _ hs]
        rw [hsame]
        exact hkeep fun x hx => h.oid_ne_of_place hv hk hplace hx
  · rw [(h.cancelOrder k).2, RefBook.cancelOrder, h.rests_toRef hv]

/-- **Changing an order's size is changing it in its list.** -/
theorem toRef_modifySz (h : Shows b g) (hv : Valid g) (k newSz : ℕ) :
    (b.modifySz k newSz).1.toRef = (b.toRef.modifySz k newSz).1 ∧
      (b.modifySz k newSz).2 = (b.toRef.modifySz k newSz).2 := by
  by_cases h0 : newSz = 0
  · rw [RawBook.modifySz, if_pos h0, RefBook.modifySz, if_pos h0]
    exact h.toRef_cancelOrder hv k
  refine ⟨?_, ?_⟩
  · rw [RefBook.modifySz, if_neg h0]
    refine (h.modifySz k h0).1.toRef_eq (RefBook.tidy_edit _ _) fun s px => ?_
    rw [RefBook.queue_edit _ rfl, queue_toRef]
    set f : O → O := fun o => if oid o = k then InnerOrder.modifySz o newSz else o with hf
    have hkeep : ∀ zs : List (ℕ × O), (∀ x ∈ zs, oid x.2 ≠ k) →
        (zs.map Prod.snd).map f = zs.map Prod.snd := by
      intro zs hzs
      rw [List.map_map]
      refine List.map_congr_left fun x hx => ?_
      rw [Function.comp, hf]
      exact if_neg (hzs x hx)
    cases hk : g k with
    | none =>
      have hidx : b.oidToSidePx[k]? = none := by rw [h.index, hk]; rfl
      rw [RawBook.modifySz, if_neg h0, hidx]
      exact (hkeep _ fun x hx => h.oid_ne_of_none hv hk hx).symm
    | some o =>
      obtain ⟨levels, l, l', xs, ys, hl, hxs, hmod, hframe, hl', hitems⟩ :=
        h.modifySz_levels h0 hk
      have hq : queueAt (b.side (InnerOrder.side o)) (limitPx o) = xs ++ (k, o) :: ys :=
        (queueAt_of_some hl).trans hxs
      rw [hmod]
      by_cases hplace : s = InnerOrder.side o ∧ px = limitPx o
      · obtain ⟨rfl, rfl⟩ := hplace
        have hne := h.oid_ne_of_split hv hq
        have ho : f o = InnerOrder.modifySz o newSz := if_pos (hv.oid_eq hk)
        rw [side_setSide, queueAt_of_some hl', hitems, hq]
        simp only [List.map_append, List.map_cons]
        rw [hkeep xs fun x hx => hne x (List.mem_append_left _ hx),
          hkeep ys fun x hx => hne x (List.mem_append_right _ hx), ho]
      · have hsame : queueAt ((b.setSide (InnerOrder.side o) levels).side s) px =
            queueAt (b.side s) px := by
          by_cases hs : s = InnerOrder.side o
          · subst hs
            rw [side_setSide]
            exact queueAt_congr (hframe px fun hpx => hplace ⟨rfl, hpx⟩)
          · rw [side_setSide_of_ne _ hs]
        rw [hsame]
        exact (hkeep _ fun x hx => h.oid_ne_of_place hv hk hplace hx).symm
  · rw [(h.modifySz k h0).2, RefBook.modifySz, if_neg h0, h.rests_toRef hv]

/-! ## Adding an order -/

theorem crossing_toRef (b : RawBook O) (order : O) : b.toRef.crossing order =
    asQueues (crossingLevels (b.side (InnerOrder.side order).opposite) (InnerOrder.side order)
      (limitPx order)) := by
  rw [RefBook.crossing, side_toRef, Std.ExtTreeMap.toList_map, crossingLevels, asQueues]
  cases InnerOrder.side order with
  | ask => simp only [inPriority, ← List.map_reverse, List.filter_map, Function.comp_def]
  | bid => simp only [inPriority, List.filter_map, Function.comp_def]

/-- The makers met are of positive size. -/
theorem positive_queueAt (h : Shows b g) (hv : Valid g) {s : Side} {px : ℕ} {x : ℕ × O}
    (hx : x ∈ queueAt (b.side s) px) : 0 < sz x.2 := by
  obtain ⟨k, o⟩ := x
  exact hv.positive ((h.queue s px k o).mp hx).1

/-- **Matching is taking from the lists.** -/
theorem toRef_matchOrder (h : Shows b g) (hv : Valid g) (order : O) {m : Levels O}
    (hm : m = b.side (InnerOrder.side order).opposite) :
    ((HlOrderbook.matchOrder m order).1.map fun _ l => l.toVec) = b.toRef.matched order ∧
      sz (HlOrderbook.matchOrder m order).2.1 = b.toRef.remaining order := by
  set s := InnerOrder.side order with hs
  have hne : ∀ (px : ℕ) (l : PriceLevel O), m[px]? = some l → l.items ≠ [] :=
    fun px l hl => h.nonempty s.opposite px l (hm ▸ hl)
  set todo := crossingLevels m s (limitPx order) with htodo
  have hkeys : todo.map Prod.fst = crossingPrices m s (limitPx order) :=
    map_fst_crossingLevels _ _ _
  have hlevels : ∀ x ∈ todo, m[x.1]? = some x.2 ∧ crosses s (limitPx order) x.1 = true :=
    fun x hx => mem_crossingLevels.mp hx
  set r := matchLevels s (limitPx order) todo m order [] [] with hr
  obtain ⟨H, hsnd, hget⟩ := matchOrder_levels m order hne htodo hr
  obtain ⟨hconsume, hsz⟩ := matchLevels_consume s (limitPx order) todo m order [] []
    (fun x hx => (hlevels x hx).2) (hkeys ▸ nodup_crossingPrices _ _ _)
    (fun x hx => (hlevels x hx).1) (fun x hx => hne _ _ (hlevels x hx).1)
    (fun x hx y hy => h.positive_queueAt (s := s.opposite) hv
      (by rwa [← hm, queueAt_of_some (hlevels x hx).1])) hr
  have hcrossing : b.toRef.crossing order = asQueues todo := by
    rw [crossing_toRef, ← hs, ← hm]
  refine ⟨?_, ?_⟩
  · apply Std.ExtTreeMap.ext_getElem?
    intro px
    rw [RefBook.getElem?_matched, side_toRef, Std.ExtTreeMap.getElem?_map,
      Std.ExtTreeMap.getElem?_map, hget, ← hs, ← hm, hcrossing]
    cases hl : m[px]? with
    | none =>
      have hpx : px ∉ todo.map Prod.fst := by
        intro hmem
        obtain ⟨x, hx, rfl⟩ := List.mem_map.mp hmem
        rw [(hlevels x hx).1] at hl
        cases hl
      rw [if_neg fun hx => hpx hx.1, H.frame px hpx, hl]
      rfl
    | some l =>
      by_cases hc : crosses s (limitPx order) px = true
      · have hmem : (px, l) ∈ todo := mem_crossingLevels.mpr ⟨hl, hc⟩
        have hpx : px ∈ todo.map Prod.fst := List.mem_map.mpr ⟨_, hmem, rfl⟩
        obtain ⟨l', hl'⟩ := Option.isSome_iff_exists.mp (H.present px hpx)
        have hleft := hconsume (px, l) hmem
        rw [queueAt_of_some hl'] at hleft
        simp only [Option.map_some, Option.bind_some, hc, if_true, ← hleft, RefBook.nonEmpty,
          queueAt_of_some hl', hl', hpx, true_and, List.isEmpty_iff, List.map_eq_nil_iff]
        split <;> rfl
      · have hpx : px ∉ todo.map Prod.fst := by
          intro hmem
          obtain ⟨x, hx, rfl⟩ := List.mem_map.mp hmem
          exact hc (hlevels x hx).2
        rw [if_neg fun hx => hpx hx.1, H.frame px hpx, hl]
        simp only [Option.map_some, Option.bind_some, hc, Bool.false_eq_true, if_false]
  · rw [hsnd, hsz, RefBook.remaining, RefBook.makers, hcrossing]
    omega

end RawBook.Shows

theorem placeIn_ne_nil (queue : List O) (order : O) (anchor : Option ℕ) :
    (placeIn queue order anchor).1 ≠ [] := by
  cases anchor with
  | none => simp [placeIn]
  | some anchor =>
    rw [placeIn]
    split
    · cases queue with
      | nil => simp [insertInFront]
      | cons o queue =>
        rw [insertInFront]
        split <;> exact List.cons_ne_nil _ _
    · simp

/-- **Resting an order is placing it in its list.** -/
theorem addOrderToBook_place [SlabPolicy] {m : Levels O} {order : O}
    (hfresh : oid order ∉ (queueAt m (limitPx order)).map Prod.fst)
    (hoid : ∀ x ∈ queueAt m (limitPx order), oid x.2 = x.1) (anchor : Option ℕ) :
    (queueAt (addOrderToBook m order anchor).1 (limitPx order)).map Prod.snd =
        (placeIn ((queueAt m (limitPx order)).map Prod.snd) order anchor).1 ∧
      (addOrderToBook m order anchor).2 =
        (placeIn ((queueAt m (limitPx order)).map Prod.snd) order anchor).2 := by
  set level := (m[limitPx order]?).getD PriceLevel.new with hlevel
  have hitems : level.items = queueAt m (limitPx order) := by
    cases h : m[limitPx order]? with
    | none => simp [hlevel, h, queueAt_of_none h]
    | some l => simp [hlevel, h, queueAt_of_some h]
  rw [← hitems] at hfresh hoid ⊢
  have hput : ∀ l : PriceLevel O, queueAt (m.insert (limitPx order) l) (limitPx order) = l.items :=
    fun l => queueAt_of_some (by simp)
  have hback : (level.pushBack (oid order) order).1.items.map Prod.snd =
      level.items.map Prod.snd ++ [order] := by
    rw [PriceLevel.items_pushBack hfresh]
    simp
  cases anchor with
  | none =>
    rw [addOrderToBook, ← hlevel]
    exact ⟨(congrArg _ (hput _)).trans hback, rfl⟩
  | some before =>
    have hkeys : level.contains before = true ↔ before ∈ (level.items.map Prod.snd).map oid := by
      rw [PriceLevel.contains_iff, List.map_map]
      rw [List.map_congr_left fun x hx => (hoid x hx).symm]
      rfl
    rw [addOrderToBook, ← hlevel]
    by_cases hb : level.contains before = true
    · simp only [if_pos hb, placeIn, if_pos (hkeys.mp hb), hput, and_true]
      have hmem := (PriceLevel.contains_iff level before).mp hb
      obtain ⟨xs, v, ys, hxs⟩ := LinkedList.exists_split hmem
      have hxs : level.items = xs ++ (before, v) :: ys := hxs
      have hnd := level.nodup_items
      rw [hxs, List.map_append, List.map_cons, List.nodup_middle, List.nodup_cons,
        ← List.map_append] at hnd
      have hne : ∀ x ∈ xs.map Prod.snd, oid x ≠ before := by
        rintro y hy rfl
        obtain ⟨x, hx, rfl⟩ := List.mem_map.mp hy
        apply hnd.1
        rw [hoid x (by rw [hxs]; exact List.mem_append_left _ hx)]
        exact List.mem_map.mpr ⟨x, List.mem_append_left _ hx, rfl⟩
      have hv : oid v = before := hoid (before, v) (by rw [hxs]; simp)
      rw [PriceLevel.items_insertBefore hxs hfresh, hxs]
      simp only [List.map_append, List.map_cons]
      rw [RefBook.insertInFront_split hne hv]
    · simp only [if_neg hb, placeIn, if_neg fun hx => hb (hkeys.mpr hx), hput, and_true]
      exact hback

namespace RawBook.Shows

variable {b : RawBook O} {g : ℕ → Option O}

/-- **Adding an order is adding it to the lists.** -/
theorem toRef_addOrderBefore [SlabPolicy] (h : Shows b g) (hv : Valid g) (order : O)
    (anchor : Option ℕ) :
    (b.addOrderBefore order anchor).1.toRef = (b.toRef.addOrderBefore order anchor).1 ∧
      (b.addOrderBefore order anchor).2 = (b.toRef.addOrderBefore order anchor).2 := by
  have hrests := h.rests_toRef hv (oid order)
  by_cases hk : (g (oid order)).isSome = true
  · rw [h.addOrderBefore_duplicate hk, RefBook.addOrderBefore, if_pos (by rw [hrests, hk])]
    exact ⟨rfl, rfl⟩
  have hnone : g (oid order) = none := by simpa using hk
  have hc : ¬ b.oidToSidePx.contains (oid order) = true := by
    rw [h.contains_iff]
    exact hk
  have hc' : ¬ b.toRef.rests (oid order) = true := by
    rw [hrests]
    exact hk
  set s := InnerOrder.side order with hs
  obtain ⟨hmatched, hremaining⟩ := h.toRef_matchOrder hv order rfl
  obtain ⟨g', hshows, hmatch⟩ := h.matchOrder hv order
  rw [← hs] at hmatched hremaining hshows hmatch
  set r := HlOrderbook.matchOrder (b.side s.opposite) order with hr
  set b₁ : RawBook O := { b.setSide s.opposite r.1 with
    oidToSidePx := r.2.2.foldl (fun m k => m.erase k) b.oidToSidePx } with hb₁
  have hb₁ref : b₁.toRef = b.toRef.setSide s.opposite (b.toRef.matched order) := by
    rw [← hmatched]
    exact toRef_setSide b s.opposite r.1 _
  have htaker : r.2.1 = InnerOrder.modifySz order (b.toRef.remaining order) := by
    rw [← hremaining]
    exact hmatch.taker_eq
  have hraw : b.addOrderBefore order anchor = if 0 < sz r.2.1 then
      ({ b₁.setSide s (addOrderToBook (b₁.side s) r.2.1 anchor).1 with
        oidToSidePx := b₁.oidToSidePx.insert (oid r.2.1) (s, limitPx r.2.1) },
        (addOrderToBook (b₁.side s) r.2.1 anchor).2) else (b₁, false) := by
    rw [RawBook.addOrderBefore, if_neg hc]
  rw [hraw, RefBook.addOrderBefore, if_neg hc', hremaining]
  simp only [← hs, ← hb₁ref]
  by_cases hpos : 0 < b.toRef.remaining order
  · rw [if_pos hpos, if_pos hpos, ← htaker]
    have hoid : oid r.2.1 = oid order := by rw [htaker, oid_modifySz]
    have hside : InnerOrder.side r.2.1 = s := by rw [htaker, side_modifySz]
    have hlimit : limitPx r.2.1 = limitPx order := by rw [htaker, limitPx_modifySz]
    have hg' : g' (oid r.2.1) = none := hoid ▸ hmatch.none _ hnone
    have hv' : Valid g' := hv.matched hmatch
    have hrest := hshows.rest hg' anchor
    rw [hside] at hrest
    have hfresh : oid r.2.1 ∉ (queueAt (b₁.side s) (limitPx r.2.1)).map Prod.fst := by
      intro hmem
      obtain ⟨x, hx, he⟩ := List.mem_map.mp hmem
      have := ((hshows.queue _ _ x.1 x.2).mp hx).1
      rw [he, hg'] at this
      cases this
    obtain ⟨hplace, hfell⟩ := addOrderToBook_place hfresh
      (fun x hx => hshows.toVec_oid hv' hx) anchor
    obtain ⟨hframe, -⟩ := addOrderToBook_spec hfresh anchor
    rw [← queue_toRef, hlimit] at hplace hfell
    have htidy : b₁.toRef.Tidy := hshows.tidy_toRef
    refine ⟨hrest.toRef_eq ?_ ?_, hfell⟩
    · intro t px q hq
      by_cases ht : t = s
      · subst ht
        rw [RefBook.side_setSide, Std.ExtTreeMap.getElem?_insert] at hq
        split at hq
        · cases hq
          exact placeIn_ne_nil _ _ _
        · exact htidy _ px q hq
      · rw [RefBook.side_setSide_of_ne _ ht] at hq
        exact htidy t px q hq
    · intro t px
      rw [side_withIndex]
      by_cases ht : t = s
      · subst ht
        rw [side_setSide, RefBook.queue_setSide, Std.ExtTreeMap.getElem?_insert]
        by_cases hpx : limitPx order = px
        · subst hpx
          simpa using hplace
        · have hpx' : px ≠ limitPx r.2.1 := by
            rw [hlimit]
            exact fun he => hpx he.symm
          rw [queueAt_congr (hframe px hpx'), if_neg (by simpa using hpx), ← queue_toRef]
          rfl
      · rw [side_setSide_of_ne _ ht, RefBook.queue_setSide_of_ne _ ht, queue_toRef]
  · rw [if_neg hpos, if_neg hpos]
    exact ⟨rfl, rfl⟩

/-- The reference book of a sound book is as runs leave one. -/
theorem proper_toRef (h : Shows b g) (hv : Valid g) : b.toRef.Proper := by
  refine ⟨h.tidy_toRef, ?_, ?_⟩
  · intro s px o ho
    rw [queue_toRef] at ho
    obtain ⟨x, hx, rfl⟩ := List.mem_map.mp ho
    exact h.positive_queueAt hv hx
  · intro s px
    have hkeys : ((queueAt (b.side s) px).map Prod.snd).map oid =
        (queueAt (b.side s) px).map Prod.fst := by
      rw [List.map_map]
      exact List.map_congr_left fun x hx => h.toVec_oid hv hx
    rw [queue_toRef, hkeys]
    exact nodup_queueAt (b.side s) px

theorem toRef_compact [SlabPolicy] (b : RawBook O) : b.compact.1.toRef = b.toRef := by
  have hside : ∀ m : Levels O, ((m.map fun _ l => l.compact.1).map fun _ l => l.toVec) =
      m.map fun _ l => l.toVec := by
    intro m
    apply Std.ExtTreeMap.ext_getElem?
    intro px
    rw [Std.ExtTreeMap.getElem?_map, Std.ExtTreeMap.getElem?_map, Std.ExtTreeMap.getElem?_map]
    cases m[px]? <;> simp
  rw [toRef, toRef, RawBook.compact, hside, hside]

/-- **One operation is that operation on the reference book.** -/
theorem toRef_step [SlabPolicy] (h : Shows b g) (hv : Valid g) (op : BookOp O) :
    (b.step op).toRef = b.toRef.step op := by
  cases op with
  | addOrderBefore order anchor => exact (h.toRef_addOrderBefore hv order anchor).1
  | cancelOrder k => exact (h.toRef_cancelOrder hv k).1
  | modifySz k newSz => exact (h.toRef_modifySz hv k newSz).1
  | compact => exact toRef_compact b

end RawBook.Shows

namespace RawBook

/-- The reference book of a run is the run of the reference book. -/
theorem Sound.toRef_run [SlabPolicy] {b : RawBook O} (h : Sound b) (ops : List (BookOp O)) :
    (b.run ops).toRef = b.toRef.run ops := by
  induction ops generalizing b with
  | nil => rfl
  | cons op ops ih =>
    obtain ⟨g, hg, hv⟩ := h
    refine (ih (Sound.step ⟨g, hg, hv⟩ op)).trans ?_
    rw [hg.toRef_step hv op]
    rfl

theorem Sound.toRef_addOrders [SlabPolicy] {b : RawBook O} (h : Sound b) (orders : List O) :
    (orders.foldl addOrder b).toRef = orders.foldl RefBook.addOrder b.toRef := by
  induction orders generalizing b with
  | nil => rfl
  | cons o orders ih =>
    obtain ⟨g, hg, hv⟩ := h
    refine (ih (Sound.step ⟨g, hg, hv⟩ (.addOrderBefore o none))).trans ?_
    rw [hg.toRef_step hv (.addOrderBefore o none)]
    rfl

theorem toRef_new : (new : RawBook O).toRef = RefBook.new := by
  have hempty : ((∅ : Levels O).map fun _ l => l.toVec) = ∅ := by
    apply Std.ExtTreeMap.ext_getElem?
    intro px
    rw [Std.ExtTreeMap.getElem?_map]
    simp
  rw [toRef, new, hempty, RefBook.new]

theorem toRef_start [SlabPolicy] (s : BookStart O) : (start s).toRef = RefBook.start s := by
  cases s with
  | new => exact toRef_new
  | fromSnapshot snapshot ignoreTriggers =>
    rw [start, fromSnapshot, (Sound.new.addOrders _).toRef_addOrders, Sound.new.toRef_addOrders,
      toRef_new]
    rfl

/-- What each operation on a book does to its reference book.  Adding an order with a
new identifier is `RefBook.Added`, and an identifier that rests already is ignored;
a removal takes out exactly that order and a new size changes exactly that order where
it stands, and both answer whether the order rested. -/
structure ActsAsRef [SlabPolicy] (b : RawBook O) : Prop where
  add : ∀ order anchor,
    (b.addOrderBefore order anchor).1.toRef = (b.toRef.addOrderBefore order anchor).1 ∧
      (b.addOrderBefore order anchor).2 = (b.toRef.addOrderBefore order anchor).2
  added : ∀ order anchor, b.toRef.rests (oid order) = false →
    b.toRef.Added order anchor (b.addOrderBefore order anchor).1.toRef
      (b.addOrderBefore order anchor).2
  duplicate : ∀ order anchor, b.toRef.rests (oid order) = true →
    b.addOrderBefore order anchor = (b, false)
  removed : ∀ k, (b.cancelOrder k).2 = b.toRef.rests k ∧ ∀ s px,
    (b.cancelOrder k).1.toRef.queue s px = (b.toRef.queue s px).filter fun o => oid o ≠ k
  zero : ∀ k, b.modifySz k 0 = b.cancelOrder k
  resized : ∀ k newSz, newSz ≠ 0 → (b.modifySz k newSz).2 = b.toRef.rests k ∧ ∀ s px,
    (b.modifySz k newSz).1.toRef.queue s px = (b.toRef.queue s px).map fun o =>
      if oid o = k then InnerOrder.modifySz o newSz else o

theorem Sound.actsAsRef [SlabPolicy] {b : RawBook O} (h : Sound b) : ActsAsRef b := by
  obtain ⟨g, hg, hv⟩ := h
  refine ⟨fun order anchor => hg.toRef_addOrderBefore hv order anchor, ?_, ?_, ?_, ?_, ?_⟩
  · intro order anchor hfresh
    obtain ⟨h₁, h₂⟩ := hg.toRef_addOrderBefore hv order anchor
    rw [h₁, h₂]
    exact (hg.proper_toRef hv).added hfresh anchor
  · intro order anchor hrests
    rw [hg.rests_toRef hv] at hrests
    exact hg.addOrderBefore_duplicate hrests anchor
  · intro k
    obtain ⟨h₁, h₂⟩ := hg.toRef_cancelOrder hv k
    refine ⟨h₂, fun s px => ?_⟩
    rw [h₁, RefBook.cancelOrder, RefBook.queue_edit _ rfl]
  · intro k
    rw [modifySz, if_pos rfl]
  · intro k newSz h0
    obtain ⟨h₁, h₂⟩ := hg.toRef_modifySz hv k newSz
    rw [RefBook.modifySz, if_neg h0] at h₁ h₂
    refine ⟨h₂, fun s px => ?_⟩
    rw [h₁, RefBook.queue_edit _ rfl]

/-- **Every run of a book is a run of the reference book**, and at its end each
operation does what it does there. -/
theorem run_refines_ref [SlabPolicy] (s : BookStart O) (ops : List (BookOp O)) :
    ((start s).run ops).toRef = (RefBook.start s).run ops ∧ ActsAsRef ((start s).run ops) := by
  refine ⟨?_, ((Sound.start s).run ops).actsAsRef⟩
  rw [(Sound.start s).toRef_run, toRef_start]

/-- Two books that show the same orders have the same queues but for their order. -/
theorem Shows.perm_queue {b b' : RawBook O} {g : ℕ → Option O} (h : Shows b g) (h' : Shows b' g)
    (s : Side) (px : ℕ) : (b.toRef.queue s px).Perm (b'.toRef.queue s px) := by
  rw [Shows.queue_toRef, Shows.queue_toRef]
  apply List.Perm.map
  rw [List.perm_ext_iff_of_nodup (nodup_queueAt _ _).of_map (nodup_queueAt _ _).of_map]
  rintro ⟨k, o⟩
  rw [h.queue, h'.queue]

end RawBook

/-- Adding an order that is used up takes its size from the makers it meets. -/
theorem RefBook.Added.totalOf_lt {r r' : RefBook O} {order : O} {anchor : Option ℕ}
    {fellBack : Bool} (h : r.Added order anchor r' fellBack) (hpos : 0 < sz order)
    (hspent : r.remaining order = 0) :
    totalOf ((r.crossing order).flatMap fun x =>
        r'.queue (InnerOrder.side order).opposite x.1) <
      totalOf (r.makers order) := by
  obtain ⟨gone, rest, left, hmakers, hleft, htotal, hcases⟩ := h.taken
  rw [RefBook.remaining] at hspent
  rw [hleft]
  rw [hmakers, totalOf_append] at hspent ⊢
  rcases hcases with ⟨rfl, rfl | hall⟩ | ⟨m, tail, rfl, hsome, hless, rfl⟩
  · simp only [totalOf_nil] at hspent ⊢
    omega
  · omega
  · simp only [totalOf_cons, InnerOrder.sz_modifySz] at hspent ⊢
    omega

/-- **An order of positive size changes what rests**: it rests, or a maker is taken. -/
theorem OrderBook.addOrderBefore_changes [SlabPolicy] {b : OrderBook O} {order : O}
    (h : b.find? (oid order) = none) (hpos : 0 < sz order) (anchor : Option ℕ) :
    (b.addOrderBefore order anchor).1.find? ≠ b.find? := by
  intro hsame
  have hg := b.shows_find?
  have hfresh : b.raw.toRef.rests (oid order) = false := by
    rw [hg.rests_toRef b.valid, h]
    rfl
  have hadded := (RawBook.Sound.actsAsRef b.sound).added order anchor hfresh
  have hg' : (b.raw.addOrderBefore order anchor).1.Shows b.find? := by
    rw [← hsame]
    exact (b.addOrderBefore order anchor).1.shows_find?
  have hperm := hg.perm_queue hg'
  by_cases hrem : 0 < b.raw.toRef.remaining order
  · -- it rests, in its queue
    have hin : ∃ o ∈ (b.raw.addOrderBefore order anchor).1.toRef.queue (side order)
        (limitPx order), oid o = oid order := by
      by_cases hback : ∀ o ∈ b.raw.toRef.queue (side order) (limitPx order),
          anchor ≠ some (oid o)
      · rw [hadded.back hrem hback]
        exact ⟨_, List.mem_append_right _ (List.mem_singleton_self _), oid_modifySz _ _⟩
      · push Not at hback
        obtain ⟨o, ho, hanchor⟩ := hback
        obtain ⟨xs, ys, hq⟩ := List.append_of_mem ho
        rw [hadded.front xs o ys hrem hanchor hq]
        exact ⟨_, List.mem_append_right _ List.mem_cons_self, oid_modifySz _ _⟩
    obtain ⟨o, ho, hoid⟩ := hin
    rw [← (hperm _ _).mem_iff, RawBook.Shows.queue_toRef] at ho
    obtain ⟨x, hx, rfl⟩ := List.mem_map.mp ho
    exact hg.oid_ne_of_none b.valid h hx hoid
  · have hlt := hadded.totalOf_lt hpos (by omega)
    have heq : totalOf ((b.raw.toRef.crossing order).flatMap fun x =>
        (b.raw.addOrderBefore order anchor).1.toRef.queue (side order).opposite x.1) =
        totalOf (b.raw.toRef.makers order) := by
      have hmakers : b.raw.toRef.makers order = (b.raw.toRef.crossing order).flatMap fun x =>
          b.raw.toRef.queue (side order).opposite x.1 := by
        rw [RefBook.makers]
        refine List.flatMap_congr fun x hx => ?_
        rw [RefBook.queue_of_some (RefBook.mem_crossing.mp hx).1]
      rw [hmakers, totalOf, totalOf]
      apply List.Perm.sum_eq
      apply List.Perm.map
      exact List.Perm.flatMap_left _ fun x _ => (hperm _ _).symm
    omega

/-- The reference book says what rests. -/
theorem RawBook.Shows.eq_some_iff {b : RawBook O} {g : ℕ → Option O} (h : b.Shows g) (hv : Valid g)
    {k : ℕ} {o : O} : g k = some o ↔ oid o = k ∧
      o ∈ b.toRef.queue (InnerOrder.side o) (limitPx o) := by
  rw [queue_toRef]
  constructor
  · intro hk
    refine ⟨hv.oid_eq hk, List.mem_map.mpr ⟨(k, o), ?_, rfl⟩⟩
    exact (h.queue _ _ k o).mpr ⟨hk, rfl, rfl⟩
  · rintro ⟨rfl, ho⟩
    obtain ⟨x, hx, rfl⟩ := List.mem_map.mp ho
    rw [h.toVec_oid hv hx]
    exact ((h.queue _ _ x.1 x.2).mp hx).1

/-- An order of no size changes nothing. -/
theorem OrderBook.addOrderBefore_zero [SlabPolicy] {b : OrderBook O} {order : O}
    (h0 : sz order = 0) (anchor : Option ℕ) :
    (b.addOrderBefore order anchor).1.find? = b.find? := by
  have hsame : (b.addOrderBefore order anchor).1.raw.toRef = b.raw.toRef :=
    (b.shows_find?.toRef_addOrderBefore b.valid order anchor).1.trans
      ((b.shows_find?.proper_toRef b.valid).addOrderBefore_zero h0 anchor)
  funext k
  apply Option.ext
  intro o
  rw [(b.addOrderBefore order anchor).1.shows_find?.eq_some_iff
      (b.addOrderBefore order anchor).1.valid,
    b.shows_find?.eq_some_iff b.valid, hsame]

end HlOrderbook
