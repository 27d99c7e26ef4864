import HlOrderbook.Aggregates

/-!
# Snapshots of a book

A snapshot lists the orders of a book in priority order, and a book is built again by
adding them one after the other, which goes through the stripping of the orders waiting
for their trigger and through the matching.  A snapshot of a book has neither such
orders nor two that trade, so the book built is the same one; but its sums are counted
anew, and so forget what a sum that once stopped at the largest `u64` has lost.

## Main definitions

* `RawBook.RoundTrips b flag` — the book built from the snapshot has the same queues,
  index and best prices.
* `RawBook.BestValid b` — the best levels pass the debug check.
-/

set_option autoImplicit false
set_option linter.unusedSectionVars false

namespace HlOrderbook

variable {O : Type} [InnerOrder O]

open InnerOrder

namespace RawBook

variable {b b' : RawBook O} {g : ℕ → Option O}

/-! ## Adding orders that trade with nothing -/

/-- Every level passes the debug check. -/
def AllValid (b : RawBook O) : Prop :=
  ∀ s (px : ℕ) (l : PriceLevel O), (b.side s)[px]? = some l → l.debugValidate = true

/-- Appending an order keeps the sum what it is as far as a `u64` holds it. -/
theorem debugValidate_pushBack [SlabPolicy] {l : PriceLevel O} (h : l.debugValidate = true)
    {k : ℕ} (hk : k ∉ l.items.map Prod.fst) (order : O) :
    (l.pushBack k order).1.debugValidate = true := by
  rw [PriceLevel.debugValidate_iff] at h ⊢
  have hitems := PriceLevel.items_pushBack hk order
  have hflag := (LinkedList.pushBack_of_notMem hk order).2
  have hsz : (l.pushBack k order).1.totalSz = saturatingAdd l.totalSz (sz order) := by
    simp [PriceLevel.pushBack, hflag]
  rw [hsz, PriceLevel.toVec_eq, hitems, h, saturatingAdd, PriceLevel.toVec_eq]
  simp
  omega

/-- What an order that trades with nothing does: it rests at the back of its level. -/
def restAtBack [SlabPolicy] (b : RawBook O) (order : O) : RawBook O :=
  { b.setSide (InnerOrder.side order) ((b.side (InnerOrder.side order)).insert (limitPx order)
      ((((b.side (InnerOrder.side order))[limitPx order]?).getD PriceLevel.new).pushBack
        (oid order) order).1) with
    oidToSidePx := b.oidToSidePx.insert (oid order) (InnerOrder.side order, limitPx order) }

theorem setSide_side (b : RawBook O) (s : Side) : b.setSide s (b.side s) = b := by
  cases s <;> rfl

theorem getElem?_restAtBack [SlabPolicy] (b : RawBook O) (order : O) (s : Side) (px : ℕ) :
    ((b.restAtBack order).side s)[px]? =
      if s = InnerOrder.side order ∧ px = limitPx order then
        some ((((b.side s)[px]?).getD PriceLevel.new).pushBack (oid order) order).1
      else (b.side s)[px]? := by
  rw [restAtBack, side_withIndex]
  by_cases hs : s = InnerOrder.side order
  · subst hs
    rw [side_setSide, Std.ExtTreeMap.getElem?_insert]
    by_cases hpx : limitPx order = px
    · subst hpx
      simp
    · have hpx' : px ≠ limitPx order := fun h => hpx h.symm
      simp [hpx, hpx']
  · rw [side_setSide_of_ne b hs, if_neg fun h => hs h.1]

namespace Shows

theorem addOrder_unmet [SlabPolicy] (h : Shows b g) {order : O} (hnone : g (oid order) = none)
    (hpos : 0 < sz order) (hunmet : ∀ k o, g k = some o → meets order o = false) :
    b.addOrder order = b.restAtBack order := by
  have hcrossing : crossingLevels (b.side (InnerOrder.side order).opposite)
      (InnerOrder.side order) (limitPx order) = [] := by
    rw [List.eq_nil_iff_forall_not_mem]
    intro x hx
    obtain ⟨hl, hcross⟩ := mem_crossingLevels.mp hx
    obtain ⟨y, hy⟩ := List.exists_mem_of_ne_nil _ (h.nonempty _ _ _ hl)
    obtain ⟨hg, hside, hpx⟩ := (h.queue _ x.1 y.1 y.2).mp (by rwa [queueAt_of_some hl])
    have hmeets : meets order y.2 = true := meets_iff.mpr ⟨hside, hpx ▸ hcross⟩
    rw [hunmet _ _ hg] at hmeets
    cases hmeets
  have hmatch : HlOrderbook.matchOrder (b.side (InnerOrder.side order).opposite) order =
      (b.side (InnerOrder.side order).opposite, order, []) := by
    rw [HlOrderbook.matchOrder, matchLevels_takeWhile, takeWhile_inPriority, hcrossing]
    rfl
  have hfresh : ¬ b.oidToSidePx.contains (oid order) = true := by
    rw [h.contains_iff, hnone]
    simp
  rw [addOrder, RawBook.addOrderBefore, if_neg hfresh]
  simp only [hmatch, if_pos hpos, setSide_side, List.foldl_nil]
  rfl

theorem restAtBack [SlabPolicy] (h : Shows b g) (hv : Valid g) {order : O}
    (hnone : g (oid order) = none) (hpos : 0 < sz order)
    (hunmet : ∀ k o, g k = some o → meets order o = false) :
    Shows (b.restAtBack order) (Function.update g (oid order) (some order)) ∧
      Valid (Function.update g (oid order) (some order)) := by
  obtain ⟨g', taker', hm, hs⟩ := h.addOrderBefore hv hnone none
  obtain ⟨rfl, rfl⟩ := hm.eq_of_unmet hunmet
  rw [if_neg (by omega)] at hs
  rw [← h.addOrder_unmet hnone hpos hunmet]
  exact ⟨hs, hv.rest hm (by omega)⟩

theorem queue_restAtBack [SlabPolicy] (h : Shows b g) {order : O} (hnone : g (oid order) = none)
    (s : Side) (px : ℕ) :
    (b.restAtBack order).toRef.queue s px = b.toRef.queue s px ++
      [order].filter fun o => InnerOrder.side o = s ∧ limitPx o = px := by
  have hfresh : ∀ s px, oid order ∉ (queueAt (b.side s) px).map Prod.fst := by
    intro s px hmem
    obtain ⟨x, hx, hk⟩ := List.mem_map.mp hmem
    have := ((h.queue s px x.1 x.2).mp hx).1
    rw [hk, hnone] at this
    cases this
  rw [queue_toRef, queue_toRef]
  by_cases hp : InnerOrder.side order = s ∧ limitPx order = px
  · obtain ⟨rfl, rfl⟩ := hp
    have hitems : (((b.side (InnerOrder.side order))[limitPx order]?).getD PriceLevel.new).items =
        queueAt (b.side (InnerOrder.side order)) (limitPx order) := by
      cases hl : (b.side (InnerOrder.side order))[limitPx order]? with
      | none => simp [queueAt_of_none hl]
      | some l => simp [queueAt_of_some hl]
    rw [queueAt_of_some ((getElem?_restAtBack b order _ _).trans (if_pos ⟨rfl, rfl⟩)),
      PriceLevel.items_pushBack (by rw [hitems]; exact hfresh _ _), hitems]
    simp
  · have hp' : ¬ (s = InnerOrder.side order ∧ px = limitPx order) := fun h =>
      hp ⟨h.1.symm, h.2.symm⟩
    rw [queueAt_congr ((getElem?_restAtBack b order s px).trans (if_neg hp')),
      List.filter_cons_of_neg (by simpa using hp), List.filter_nil, List.append_nil]

end Shows

theorem AllValid.restAtBack [SlabPolicy] (h : b.AllValid) (hshows : Shows b g) {order : O}
    (hnone : g (oid order) = none) : (b.restAtBack order).AllValid := by
  intro s px l hl
  rw [getElem?_restAtBack] at hl
  split at hl
  · cases hl
    have hlevel : (((b.side s)[px]?).getD PriceLevel.new).debugValidate = true := by
      cases hget : (b.side s)[px]? with
      | none => rfl
      | some l => exact h s px l hget
    refine debugValidate_pushBack hlevel ?_ order
    cases hget : (b.side s)[px]? with
    | none => simp
    | some l =>
      intro hmem
      obtain ⟨x, hx, hk⟩ := List.mem_map.mp hmem
      have := ((hshows.queue s px x.1 x.2).mp (by rwa [queueAt_of_some hget])).1
      rw [hk, hnone] at this
      cases this
  · exact h s px l hl

/-- Orders to add to a book that shows `g`, none of which trades. -/
structure Apart (g : ℕ → Option O) (orders : List O) : Prop where
  positive : ∀ o ∈ orders, 0 < sz o
  fresh : ∀ o ∈ orders, g (oid o) = none
  once : (orders.map oid).Nodup
  unmet : ∀ o ∈ orders, ∀ k o', g k = some o' → meets o o' = false
  apart : orders.Pairwise fun o' o => meets o o' = false

theorem Apart.tail {o : O} {orders : List O} (h : Apart g (o :: orders)) :
    Apart (Function.update g (oid o) (some o)) orders := by
  have honce := h.once
  rw [List.map_cons, List.nodup_cons] at honce
  have hapart := List.pairwise_cons.mp h.apart
  refine ⟨fun o' ho' => h.positive o' (List.mem_cons_of_mem _ ho'), ?_, honce.2, ?_, hapart.2⟩
  · intro o' ho'
    have hne : oid o' ≠ oid o := fun he => honce.1 (List.mem_map.mpr ⟨o', ho', he⟩)
    rw [Function.update_of_ne hne]
    exact h.fresh o' (List.mem_cons_of_mem _ ho')
  · intro o' ho' k o'' hk
    by_cases hko : k = oid o
    · subst hko
      rw [Function.update_self, Option.some.injEq] at hk
      subst hk
      exact hapart.1 o' ho'
    · rw [Function.update_of_ne hko] at hk
      exact h.unmet o' (List.mem_cons_of_mem _ ho') k o'' hk

/-- What the book is once such orders are added. -/
structure AddedAll (b : RawBook O) (g : ℕ → Option O) (orders : List O) (b' : RawBook O)
    (g' : ℕ → Option O) : Prop where
  shows' : Shows b' g'
  valid : Valid g'
  allValid : b'.AllValid
  mem : ∀ k o, g' k = some o ↔ g k = some o ∨ o ∈ orders ∧ oid o = k
  queue : ∀ s px, b'.toRef.queue s px =
    b.toRef.queue s px ++ orders.filter fun o => InnerOrder.side o = s ∧ limitPx o = px

/-- **Adding orders that do not trade appends each to its queue.** -/
theorem Shows.addOrders [SlabPolicy] (h : Shows b g) (hv : Valid g) (hall : b.AllValid)
    {orders : List O} (hapart : Apart g orders) :
    ∃ g', AddedAll b g orders (orders.foldl addOrder b) g' := by
  induction orders generalizing b g with
  | nil => exact ⟨g, h, hv, hall, by simp, by simp⟩
  | cons o orders ih =>
    have hnone := hapart.fresh o List.mem_cons_self
    have hpos := hapart.positive o List.mem_cons_self
    have hunmet := hapart.unmet o List.mem_cons_self
    obtain ⟨h₁, hv₁⟩ := h.restAtBack hv hnone hpos hunmet
    obtain ⟨g', hadded⟩ := ih h₁ hv₁ (hall.restAtBack h hnone) hapart.tail
    rw [List.foldl_cons, h.addOrder_unmet hnone hpos hunmet]
    refine ⟨g', hadded.shows', hadded.valid, hadded.allValid, ?_, ?_⟩
    · intro k o'
      rw [hadded.mem, List.mem_cons]
      by_cases hk : k = oid o
      · subst hk
        rw [Function.update_self, Option.some.injEq, hnone]
        constructor
        · rintro (rfl | ⟨ho', hoid⟩)
          · exact Or.inr ⟨Or.inl rfl, rfl⟩
          · exact Or.inr ⟨Or.inr ho', hoid⟩
        · rintro (hno | ⟨rfl | ho', hoid⟩)
          · cases hno
          · exact Or.inl rfl
          · exact Or.inr ⟨ho', hoid⟩
      · rw [Function.update_of_ne hk]
        constructor
        · rintro (hg | ⟨ho', hoid⟩)
          · exact Or.inl hg
          · exact Or.inr ⟨Or.inr ho', hoid⟩
        · rintro (hg | ⟨rfl | ho', hoid⟩)
          · exact Or.inl hg
          · exact absurd hoid.symm hk
          · exact Or.inr ⟨ho', hoid⟩
    · intro s px
      rw [hadded.queue, h.queue_restAtBack hnone, List.append_assoc, ← List.filter_append]
      rfl

/-! ## The snapshot of a book -/

/-- The orders of one side of the snapshot. -/
theorem Shows.mem_snapshot (h : Shows b g) {o : O} :
    (o ∈ b.toSnapshot.bids ↔ ∃ k, g k = some o ∧ InnerOrder.side o = .bid) ∧
      (o ∈ b.toSnapshot.asks ↔ ∃ k, g k = some o ∧ InnerOrder.side o = .ask) := by
  rw [toSnapshot_eq, ← h.mem_levels .bid, ← h.mem_levels .ask]
  exact ⟨by simp only [List.mem_flatMap, List.mem_reverse]; rfl, Iff.rfl⟩

/-- The orders at one price, among levels that hold orders of their price only. -/
theorem filter_levels {levels : List (ℕ × PriceLevel O)}
    (hplaced : ∀ x ∈ levels, ∀ o ∈ x.2.toVec, limitPx o = x.1) (px : ℕ) :
    ((levels.flatMap fun x => x.2.toVec).filter fun o => limitPx o = px) =
      (levels.filter fun x => x.1 = px).flatMap fun x => x.2.toVec := by
  induction levels with
  | nil => rfl
  | cons x levels ih =>
    rw [List.flatMap_cons, List.filter_append, ih fun y hy => hplaced y (List.mem_cons_of_mem _ hy)]
    have hx := hplaced x List.mem_cons_self
    by_cases hpx : x.1 = px
    · rw [List.filter_cons_of_pos (by simpa using hpx), List.flatMap_cons,
        List.filter_eq_self.mpr]
      intro o ho
      simp [hx o ho, hpx]
    · rw [List.filter_cons_of_neg (by simpa using hpx), List.filter_eq_nil_iff.mpr,
        List.nil_append]
      intro o ho
      simp [hx o ho, hpx]

/-- Among levels of distinct prices one has a given price. -/
private theorem filter_key_eq {levels : List (ℕ × PriceLevel O)}
    (hnodup : (levels.map Prod.fst).Nodup) {px : ℕ} {l : PriceLevel O} (hmem : (px, l) ∈ levels) :
    (levels.filter fun x => x.1 = px) = [(px, l)] := by
  induction levels with
  | nil => cases hmem
  | cons x levels ih =>
    rw [List.map_cons, List.nodup_cons] at hnodup
    rcases List.mem_cons.mp hmem with rfl | hmem
    · rw [List.filter_cons_of_pos (by simp), List.filter_eq_nil_iff.mpr]
      intro y hy hpx
      rw [decide_eq_true_eq] at hpx
      exact hnodup.1 (List.mem_map.mpr ⟨y, hy, hpx⟩)
    · rw [List.filter_cons_of_neg, ih hnodup.2 hmem]
      rw [decide_eq_true_eq]
      rintro rfl
      exact hnodup.1 (List.mem_map.mpr ⟨_, hmem, rfl⟩)

/-- The orders of one queue, among those of the snapshot. -/
theorem Shows.filter_snapshot (h : Shows b g) (s : Side) (px : ℕ) :
    (b.toSnapshot.bids ++ b.toSnapshot.asks).filter
        (fun o => InnerOrder.side o = s ∧ limitPx o = px) = b.toRef.queue s px := by
  have hplaced : ∀ s, ∀ x ∈ (b.side s).toList, ∀ o ∈ x.2.toVec,
      InnerOrder.side o = s ∧ limitPx o = x.1 := by
    rintro s ⟨px, l⟩ hl o ho
    rw [Std.ExtTreeMap.mem_toList_iff_getElem?_eq_some] at hl
    rw [PriceLevel.toVec_eq] at ho
    obtain ⟨x, hx, rfl⟩ := List.mem_map.mp ho
    exact ((h.queue s px x.1 x.2).mp (by rwa [queueAt_of_some hl])).2
  -- one side of the snapshot, its levels in any order
  have hside : ∀ t (levels : List (ℕ × PriceLevel O)), levels.Perm (b.side t).toList →
      (levels.flatMap fun x => x.2.toVec).filter
        (fun o => InnerOrder.side o = s ∧ limitPx o = px) =
        if t = s then b.toRef.queue s px else [] := by
    intro t levels hperm
    have hlevels : ∀ x ∈ levels, ∀ o ∈ x.2.toVec, InnerOrder.side o = t ∧ limitPx o = x.1 :=
      fun x hx => hplaced t x (hperm.mem_iff.mp hx)
    by_cases hts : t = s
    · subst hts
      have hcongr : ∀ o ∈ levels.flatMap fun x => x.2.toVec,
          decide (InnerOrder.side o = t ∧ limitPx o = px) = decide (limitPx o = px) := by
        intro o ho
        obtain ⟨x, hx, hox⟩ := List.mem_flatMap.mp ho
        simp [(hlevels x hx o hox).1]
      rw [List.filter_congr hcongr, filter_levels (fun x hx o ho => (hlevels x hx o ho).2),
        if_pos rfl, queue_toRef]
      have hnodup : (levels.map Prod.fst).Nodup := by
        rw [(hperm.map _).nodup_iff, Std.ExtTreeMap.map_fst_toList_eq_keys]
        exact Std.ExtTreeMap.nodup_keys
      cases hl : (b.side t)[px]? with
      | none =>
        rw [queueAt_of_none hl, List.filter_eq_nil_iff.mpr]
        · rfl
        · intro x hx hpx
          rw [hperm.mem_iff, Std.ExtTreeMap.mem_toList_iff_getElem?_eq_some] at hx
          rw [decide_eq_true_eq] at hpx
          rw [hpx, hl] at hx
          cases hx
      | some l =>
        have hmem : (px, l) ∈ levels := by
          rw [hperm.mem_iff, Std.ExtTreeMap.mem_toList_iff_getElem?_eq_some]
          exact hl
        rw [queueAt_of_some hl, filter_key_eq hnodup hmem]
        simp
    · rw [if_neg hts, List.filter_eq_nil_iff]
      intro o ho
      obtain ⟨x, hx, hox⟩ := List.mem_flatMap.mp ho
      simp [(hlevels x hx o hox).1, hts]
  have hbids := hside .bid b.bids.toList.reverse (List.reverse_perm _)
  have hasks := hside .ask b.asks.toList (List.Perm.refl _)
  rw [toSnapshot_eq, List.filter_append]
  dsimp only
  rw [hbids, hasks]
  cases s <;> simp

/-- **The orders of a snapshot do not trade with one another**, and are new to an empty
book. -/
theorem Shows.apart_snapshot (h : Shows b g) (hv : Valid g) :
    Apart (fun _ => none) (b.toSnapshot.bids ++ b.toSnapshot.asks) := by
  have hshown : ∀ o ∈ b.toSnapshot.bids ++ b.toSnapshot.asks, ∃ k, g k = some o := by
    intro o ho
    rcases List.mem_append.mp ho with ho | ho
    · obtain ⟨k, hk, -⟩ := h.mem_snapshot.1.mp ho
      exact ⟨k, hk⟩
    · obtain ⟨k, hk, -⟩ := h.mem_snapshot.2.mp ho
      exact ⟨k, hk⟩
  refine ⟨?_, fun _ _ => rfl, ?_, by simp, ?_⟩
  · intro o ho
    obtain ⟨k, hk⟩ := hshown o ho
    exact hv.positive hk
  · have hperm : (b.toSnapshot.bids ++ b.toSnapshot.asks).Perm b.restingOrders := by
      rw [toSnapshot_eq, restingOrders, List.flatMap_append]
      exact ((List.reverse_perm _).flatMap_right _).append_right _
    rw [(hperm.map _).nodup_iff]
    exact h.nodup_restingOrders hv
  · refine List.pairwise_of_forall_mem_list fun o ho o' ho' => ?_
    obtain ⟨k, hk⟩ := hshown o ho
    obtain ⟨k', hk'⟩ := hshown o' ho'
    rw [← Bool.not_eq_true, meets_iff]
    rintro ⟨hside, hcross⟩
    cases hs : InnerOrder.side o' with
    | ask =>
      rw [hs] at hside hcross
      have := hv.uncrossed hk hk' hside hs
      simp only [crosses, decide_eq_true_eq] at hcross
      omega
    | bid =>
      rw [hs] at hside hcross
      have := hv.uncrossed hk' hk hs hside
      simp only [crosses, decide_eq_true_eq] at hcross
      omega

/-- **A snapshot of a book holds no order that waits for its trigger.** -/
theorem Shows.removeTriggers_toSnapshot (h : Shows b g) (hv : Valid g) :
    b.toSnapshot.removeTriggers = b.toSnapshot := by
  have hpop : ∀ orders : List O, ((Snapshot.popWhile (fun o =>
      (b.toSnapshot.bids.map oid).contains (oid o) &&
        (b.toSnapshot.asks.map oid).contains (oid o)) orders).1) = orders := by
    intro orders
    have hno : ∀ o : O, ((b.toSnapshot.bids.map oid).contains (oid o) &&
        (b.toSnapshot.asks.map oid).contains (oid o)) = false := by
      intro o
      rw [← Bool.not_eq_true, Bool.and_eq_true, List.contains_iff_mem, List.contains_iff_mem]
      rintro ⟨hbid, hask⟩
      have hnd := (h.apart_snapshot hv).once
      rw [List.map_append, List.nodup_append] at hnd
      exact hnd.2.2 _ hbid _ hask rfl
    simp only [Snapshot.popWhile, hno]
    rw [show orders.reverse.dropWhile (fun _ => false) = orders.reverse by
      cases orders.reverse <;> rfl, List.reverse_reverse]
  simp only [Snapshot.removeTriggers, Snapshot.extractTriggers, hpop]

/-! ## The round trip -/

/-- Two books have the same orders in the same queues, and the same index. -/
structure SameOrders (b b' : RawBook O) : Prop where
  queues : ∀ s (px : ℕ), (b'.side s)[px]?.map PriceLevel.toVec = (b.side s)[px]?.map PriceLevel.toVec
  index : b'.oidToSidePx = b.oidToSidePx

/-- The level at the best bid and the level at the best ask pass the debug check. -/
def BestValid (b : RawBook O) : Prop :=
  (∀ x ∈ b.bids.toList.getLast?, x.2.debugValidate = true) ∧
    ∀ x ∈ b.asks.toList.head?, x.2.debugValidate = true

/-- The book built from the snapshot of a book has its orders, its index and its best
prices, with the orders waiting for their trigger stripped or not; and the snapshot in a
band is the part of the full one inside the band. -/
structure RoundTrips [SlabPolicy] (b : RawBook O) : Prop where
  same : ∀ flag, SameOrders b (fromSnapshot b.toSnapshot flag)
  bbo : ∀ flag, (fromSnapshot b.toSnapshot flag).getBbo = b.getBbo
  band : ∀ band, b.toSnapshotInBand band =
    ⟨b.toSnapshot.bids.filter fun o => band.contains (limitPx o),
      b.toSnapshot.asks.filter fun o => band.contains (limitPx o)⟩

/-- The book built from a snapshot. -/
theorem Shows.fromSnapshot_toSnapshot [SlabPolicy] (h : Shows b g) (hv : Valid g) (flag : Bool) :
    SameOrders b (fromSnapshot b.toSnapshot flag) ∧ (fromSnapshot b.toSnapshot flag).AllValid := by
  have hbuilt : fromSnapshot b.toSnapshot flag =
      (b.toSnapshot.bids ++ b.toSnapshot.asks).foldl addOrder (RawBook.new : RawBook O) := by
    rw [RawBook.fromSnapshot, List.foldl_append, h.removeTriggers_toSnapshot hv, ite_self]
  have hempty : (RawBook.new : RawBook O).AllValid := by
    intro s px l hl
    cases s <;> simp [RawBook.new, side] at hl
  rw [hbuilt]
  obtain ⟨g', hadded⟩ := Shows.new.addOrders Valid.empty hempty (h.apart_snapshot hv)
  have hg : g' = g := by
    funext k
    apply Option.ext
    intro o
    rw [hadded.mem, List.mem_append, h.mem_snapshot.1, h.mem_snapshot.2]
    constructor
    · rintro (hno | ⟨⟨j, hj, -⟩ | ⟨j, hj, -⟩, rfl⟩)
      · cases hno
      · rwa [hv.oid_eq hj]
      · rwa [hv.oid_eq hj]
    · intro hk
      refine Or.inr ⟨?_, hv.oid_eq hk⟩
      cases hs : InnerOrder.side o with
      | ask => exact Or.inr ⟨k, hk, rfl⟩
      | bid => exact Or.inl ⟨k, hk, rfl⟩
  subst hg
  have href : ((b.toSnapshot.bids ++ b.toSnapshot.asks).foldl addOrder
      (RawBook.new : RawBook O)).toRef = b.toRef := by
    refine hadded.shows'.tidy_toRef.ext h.tidy_toRef fun s px => ?_
    rw [hadded.queue, h.filter_snapshot, queue_toRef]
    cases s <;> simp [RawBook.new, side, queueAt]
  refine ⟨⟨?_, ?_⟩, hadded.allValid⟩
  · intro s px
    have := congrArg (fun r => (r.side s)[px]?) href
    simp only [side_toRef, Std.ExtTreeMap.getElem?_map] at this
    exact this
  · refine Std.ExtTreeMap.ext_getElem? fun k => ?_
    rw [hadded.shows'.index, h.index]

/-- Levels with the same orders show the same aggregate when both pass the debug
check. -/
theorem aggregateEntry_eq_iff {x x' : Option (ℕ × PriceLevel O)}
    (h : x'.map (fun y => (y.1, y.2.toVec)) = x.map fun y => (y.1, y.2.toVec))
    (hvalid : ∀ y ∈ x', y.2.debugValidate = true) :
    x'.map aggregateEntry = x.map aggregateEntry ↔ ∀ y ∈ x, y.2.debugValidate = true := by
  cases x' with
  | none =>
    cases x with
    | none => simp
    | some y => simp at h
  | some y' =>
    cases x with
    | none => simp at h
    | some y =>
      simp only [Option.map_some, Option.some.injEq, Prod.mk.injEq] at h
      have hlen : y'.2.len = y.2.len := by
        have := congrArg List.length h.2
        simpa using this
      have hy' := (PriceLevel.debugValidate_iff y'.2).mp (hvalid y' rfl)
      simp only [Option.map_some, Option.some.injEq, aggregateEntry, Prod.mk.injEq, h.1, hlen,
        and_true, true_and, Option.mem_def, forall_eq', PriceLevel.debugValidate_iff, hy', h.2]
      exact eq_comm

theorem SameOrders.getBbo_eq_iff (h : SameOrders b b') (hvalid : b'.AllValid) :
    b'.getBbo = b.getBbo ↔ BestValid b := by
  have hlists : ∀ s, ((b'.side s).toList.map fun y => (y.1, y.2.toVec)) =
      (b.side s).toList.map fun y => (y.1, y.2.toVec) := by
    intro s
    have hmap : (b'.side s).map (fun _ l => l.toVec) = (b.side s).map fun _ l => l.toVec := by
      refine Std.ExtTreeMap.ext_getElem? fun px => ?_
      rw [Std.ExtTreeMap.getElem?_map, Std.ExtTreeMap.getElem?_map]
      exact h.queues s px
    have := congrArg Std.ExtTreeMap.toList hmap
    rwa [Std.ExtTreeMap.toList_map, Std.ExtTreeMap.toList_map] at this
  have hmem : ∀ s, ∀ y ∈ (b'.side s).toList, y.2.debugValidate = true := by
    rintro s ⟨px, l⟩ hl
    rw [Std.ExtTreeMap.mem_toList_iff_getElem?_eq_some] at hl
    exact hvalid s px l hl
  rw [Prod.ext_iff]
  refine and_congr ?_ ?_
  · refine aggregateEntry_eq_iff ?_ fun y hy => hmem .bid y (List.mem_of_getLast? hy)
    have := congrArg List.getLast? (hlists .bid)
    rwa [List.getLast?_map, List.getLast?_map] at this
  · refine aggregateEntry_eq_iff ?_ fun y hy => hmem .ask y (List.mem_of_head? hy)
    have := congrArg List.head? (hlists .ask)
    rwa [List.head?_map, List.head?_map] at this

/-- **The snapshot in a band is the full one filtered**, inverted bands included. -/
theorem Shows.toSnapshotInBand_eq (h : Shows b g) (band : PxBand) :
    b.toSnapshotInBand band =
      ⟨b.toSnapshot.bids.filter fun o => band.contains (limitPx o),
        b.toSnapshot.asks.filter fun o => band.contains (limitPx o)⟩ := by
  have hside : ∀ s (levels : List (ℕ × PriceLevel O)), (∀ x ∈ levels, x ∈ (b.side s).toList) →
      (levels.flatMap fun x => x.2.toVec).filter (fun o => band.contains (limitPx o)) =
        (levels.filter fun x => band.contains x.1).flatMap fun x => x.2.toVec := by
    intro s levels hlevels
    induction levels with
    | nil => rfl
    | cons x levels ih =>
      have hx : ∀ o ∈ x.2.toVec, band.contains (limitPx o) = band.contains x.1 := by
        intro o ho
        have hl := hlevels x List.mem_cons_self
        rw [PriceLevel.toVec_eq] at ho
        obtain ⟨y, hy, rfl⟩ := List.mem_map.mp ho
        rw [Std.ExtTreeMap.mem_toList_iff_getElem?_eq_some] at hl
        rw [((h.queue s x.1 y.1 y.2).mp (by rwa [queueAt_of_some hl])).2.2]
      rw [List.flatMap_cons, List.filter_append, List.filter_congr hx, List.filter_cons,
        ih fun y hy => hlevels y (List.mem_cons_of_mem _ hy)]
      cases hc : band.contains x.1 <;> simp
  have hbids := hside .bid b.bids.toList.reverse fun x hx => List.mem_reverse.mp hx
  have hasks := hside .ask b.asks.toList fun x hx => hx
  rw [toSnapshot_eq]
  dsimp only
  rw [hbids, hasks, List.filter_reverse, toSnapshotInBand_eq_filter]
  split
  · rename_i hinverted
    have hnone : ∀ px, band.contains px = false := by
      intro px
      obtain ⟨lo | lo, hi | hi⟩ := band <;> simp [PxBand.isInverted, PxBand.contains] at hinverted ⊢
      omega
    simp [hnone]
  · rfl

/-- **Book snapshots round-trip exactly where the best levels pass the debug check**,
which they do in every state of a run whose exact sums stay within a `u64`. -/
theorem roundTrips_iff [SlabPolicy] :
    (∀ (s : BookStart O) (ops : List (BookOp O)),
      RoundTrips ((start s).run ops) ↔ BestValid ((start s).run ops)) ∧
    ∀ ops : List (BookOp O), (∀ done, done <+: ops → ((new : RawBook O).run done).SumsFit) →
      ∀ done, done <+: ops → RoundTrips ((new : RawBook O).run done) := by
  have hiff : ∀ (s : BookStart O) (ops : List (BookOp O)),
      RoundTrips ((start s).run ops) ↔ BestValid ((start s).run ops) := by
    intro s ops
    obtain ⟨g, hg, hv⟩ := (Sound.start s).run ops
    have hbuilt := hg.fromSnapshot_toSnapshot hv
    have hbbo : ∀ flag, _ := fun flag => (hbuilt flag).1.getBbo_eq_iff (hbuilt flag).2
    constructor
    · intro h
      exact (hbbo true).mp (h.bbo true)
    · intro h
      exact ⟨fun flag => (hbuilt flag).1, fun flag => (hbbo flag).mpr h, hg.toSnapshotInBand_eq⟩
  refine ⟨hiff, ?_⟩
  intro ops hfits done hdone
  have hrun := tracks_run (ExactSums.new (O := O)) done fun d hd => hfits d (hd.trans hdone)
  have hexact : ((new : RawBook O).run done).ExactSums := runLogged_fst (O := O) _ _ ▸ hrun.exact
  refine (hiff .new done).mpr ⟨?_, ?_⟩
  · rintro ⟨px, l⟩ hl
    have hl' := Std.ExtTreeMap.mem_toList_iff_getElem?_eq_some.mp (List.mem_of_getLast? hl)
    exact (hexact .bid px l hl').debugValidate (hfits done hdone .bid px l hl')
  · rintro ⟨px, l⟩ hl
    have hl' := Std.ExtTreeMap.mem_toList_iff_getElem?_eq_some.mp (List.mem_of_head? hl)
    exact (hexact .ask px l hl').debugValidate (hfits done hdone .ask px l hl')

end RawBook

end HlOrderbook

namespace HlOrderbook

section Example

attribute [local instance] SlabPolicy.latest

/-- Two asks whose sizes together are one more than a `u64` holds, the first removed. -/
def overflowed : List (BookOp InnerL4Order) :=
  [.addOrderBefore (orderAt .ask 101 (2 ^ 63) 1) none,
    .addOrderBefore (orderAt .ask 101 (2 ^ 63) 2) none, .cancelOrder 1]

/-- **The sum that stopped stays one short**: the book built from the snapshot has
another best ask. -/
theorem not_roundTrips_overflowed :
    ((RawBook.new : RawBook InnerL4Order).run overflowed).getBbo =
      (none, some (101, 2 ^ 63 - 1, 1)) ∧
    (RawBook.fromSnapshot ((RawBook.new : RawBook InnerL4Order).run overflowed).toSnapshot
      false).getBbo = (none, some (101, 2 ^ 63, 1)) ∧
    ¬ ∀ (s : BookStart InnerL4Order) (ops : List (BookOp InnerL4Order)),
      RawBook.RoundTrips ((RawBook.start s).run ops) := by
  have hbook : ((RawBook.new : RawBook InnerL4Order).run overflowed).getBbo =
      (none, some (101, 2 ^ 63 - 1, 1)) := by decide +kernel
  have hbuilt : (RawBook.fromSnapshot
      ((RawBook.new : RawBook InnerL4Order).run overflowed).toSnapshot false).getBbo =
      (none, some (101, 2 ^ 63, 1)) := by decide +kernel
  refine ⟨hbook, hbuilt, fun h => ?_⟩
  have hbbo := (h .new overflowed).bbo false
  rw [RawBook.start, hbook, hbuilt] at hbbo
  revert hbbo
  decide

/-- The book of a run without such a sum goes round. -/
theorem roundTrips_partialFill :
    RawBook.RoundTrips ((RawBook.new : RawBook InnerL4Order).run partialFill) := by
  refine RawBook.roundTrips_iff.2 partialFill (fun done hdone => ?_) partialFill
    (List.prefix_refl _)
  rw [← List.mem_inits] at hdone
  rw [RawBook.sumsFit_iff]
  revert done
  decide +kernel

end Example

end HlOrderbook
