import HlOrderbook.OrderBook
import Mathlib.Data.List.Perm.Lattice

/-!
# The order book refines a partial map of orders

Each operation of `RawBook` is shown to be an operation on the partial map the
book shows: `matchOrder` a `Matched` step, resting an order an update, a removal
an update to `none`, a change of size an update of one order.  With `Valid`
preserved by the same operations, the book can be sealed: `OrderBook` carries a
representation that shows a valid map, and is specified through `find?`.

## Main results

* `RawBook.Shows.addOrderBefore`, `.cancelOrder`, `.modifySz`, `.compact`.
* `OrderBook.addOrderBefore_spec` and its companions.
-/

set_option autoImplicit false
set_option linter.unusedSectionVars false

namespace HlOrderbook

variable {O : Type} [InnerOrder O]

open InnerOrder

/-! ## Association lists -/

/-- In a queue with distinct keys an entry is found by its key. -/
private theorem find?_key_iff {items : List (ℕ × O)} (hnd : (items.map Prod.fst).Nodup) {k : ℕ}
    {o : O} : (items.find? fun x => x.1 = k).map Prod.snd = some o ↔ (k, o) ∈ items := by
  rw [Option.map_eq_some_iff]
  constructor
  · rintro ⟨⟨j, o'⟩, hf, rfl⟩
    have hj : j = k := by simpa using List.find?_some hf
    subst hj
    exact List.mem_of_find?_eq_some hf
  · intro hmem
    cases hf : items.find? fun x => x.1 = k with
    | none =>
      rw [List.find?_eq_none] at hf
      simpa using hf (k, o) hmem
    | some x =>
      have hx : x.1 = k := by simpa using List.find?_some hf
      refine ⟨x, rfl, ?_⟩
      have := List.inj_on_of_nodup_map hnd (List.mem_of_find?_eq_some hf) hmem hx
      rw [this]

private theorem find?_key_eq_none {items : List (ℕ × O)} {k : ℕ} (h : k ∉ items.map Prod.fst) :
    items.find? (fun x => x.1 = k) = none := by
  rw [List.find?_eq_none]
  intro x hx
  simp only [decide_eq_true_eq]
  rintro rfl
  exact h (List.mem_map_of_mem hx)

theorem nodup_queueAt (m : Levels O) (px : ℕ) : ((queueAt m px).map Prod.fst).Nodup := by
  cases h : m[px]? with
  | none => simp [queueAt_of_none h]
  | some l => simpa [queueAt_of_some h] using l.nodup_items

namespace RawBook

/-- The book spells out the partial map `g`: the queue of every price holds the
orders of that side and price, the index names the side and price of every order,
and no level is empty. -/
structure Shows (b : RawBook O) (g : ℕ → Option O) : Prop where
  queue : ∀ s px k o, (k, o) ∈ queueAt (b.side s) px ↔
    g k = some o ∧ InnerOrder.side o = s ∧ limitPx o = px
  index : ∀ k, b.oidToSidePx[k]? = (g k).map fun o => (InnerOrder.side o, limitPx o)
  nonempty : ∀ s (px : ℕ) (l : PriceLevel O), (b.side s)[px]? = some l → l.items ≠ []

namespace Shows

variable {b : RawBook O} {g : ℕ → Option O}

theorem new : Shows (RawBook.new : RawBook O) fun _ => none := by
  refine ⟨?_, ?_, ?_⟩
  · intro s px k o
    cases s <;> simp [RawBook.new, side, queueAt]
  · intro k
    simp [RawBook.new]
  · intro s px l
    cases s <;> simp [RawBook.new, side]

theorem exists_level (h : Shows b g) {k : ℕ} {o : O} (hk : g k = some o) :
    ∃ l, (b.side (InnerOrder.side o))[limitPx o]? = some l ∧ (k, o) ∈ l.items := by
  have hmem := (h.queue _ _ k o).mpr ⟨hk, rfl, rfl⟩
  cases hl : (b.side (InnerOrder.side o))[limitPx o]? with
  | none => simp [queueAt_of_none hl] at hmem
  | some l => exact ⟨l, rfl, by rwa [queueAt_of_some hl] at hmem⟩

theorem find?_eq (h : Shows b g) (k : ℕ) : b.find? k = g k := by
  cases hk : g k with
  | none => simp [find?, h.index, hk]
  | some o =>
    obtain ⟨l, hl, hmem⟩ := h.exists_level hk
    obtain ⟨xs, ys, hitems⟩ := List.append_of_mem hmem
    simp [find?, h.index, hk, hl, LinkedList.nodeValue_of_split hitems]

theorem contains_iff (h : Shows b g) (k : ℕ) : b.oidToSidePx.contains k = (g k).isSome := by
  rw [Std.ExtTreeMap.contains_eq_isSome_getElem?, h.index, Option.isSome_map]

/-! ## Matching -/

/-- The orders a taker meets are the queues at the crossing prices. -/
theorem mem_queuesAt (h : Shows b g) (taker : O) {k : ℕ} {o : O} :
    (k, o) ∈ queuesAt (b.side (InnerOrder.side taker).opposite)
        (crossingPrices (b.side (InnerOrder.side taker).opposite) (InnerOrder.side taker)
          (limitPx taker)) ↔
      g k = some o ∧ meets taker o = true := by
  rw [queuesAt, List.mem_flatMap]
  constructor
  · rintro ⟨px, hpx, hmem⟩
    obtain ⟨hk, hs, rfl⟩ := (h.queue _ _ _ _).mp hmem
    exact ⟨hk, meets_iff.mpr ⟨hs, (mem_crossingPrices.mp hpx).2⟩⟩
  · rintro ⟨hk, hmeet⟩
    obtain ⟨hs, hc⟩ := meets_iff.mp hmeet
    obtain ⟨l, hl, hmem⟩ := h.exists_level hk
    rw [hs] at hl
    exact ⟨limitPx o, mem_crossingPrices.mpr ⟨⟨l, hl⟩, hc⟩, (h.queue _ _ _ _).mpr ⟨hk, hs, rfl⟩⟩

theorem nodup_queuesAt (h : Shows b g) (s : Side) {prices : List ℕ} (hnd : prices.Nodup) :
    ((queuesAt (b.side s) prices).map Prod.fst).Nodup := by
  rw [queuesAt, List.map_flatMap, List.nodup_flatMap]
  refine ⟨fun px _ => nodup_queueAt _ px, hnd.imp ?_⟩
  intro p q hpq k hp hq
  obtain ⟨⟨k', o⟩, ho, rfl⟩ := List.mem_map.mp hp
  obtain ⟨⟨k', o'⟩, ho', rfl⟩ := List.mem_map.mp hq
  obtain ⟨hk, -, hpx⟩ := (h.queue _ _ _ _).mp ho
  obtain ⟨hk', -, hpx'⟩ := (h.queue _ _ _ _).mp ho'
  rw [hk, Option.some.injEq] at hk'
  subst hk'
  exact hpq (hpx ▸ hpx')

/-- The resting orders once a taker was matched: those it meets are what is left of them. -/
def afterMatch (g : ℕ → Option O) (taker : O) (left : List (ℕ × O)) (k : ℕ) : Option O :=
  (g k).bind fun o =>
    if meets taker o then (left.find? fun x => x.1 = k).map Prod.snd else some o

theorem afterMatch_of_none {taker : O} {left : List (ℕ × O)} {k : ℕ} (h : g k = none) :
    afterMatch g taker left k = none := by
  simp [afterMatch, h]

theorem afterMatch_of_unmet {taker : O} {left : List (ℕ × O)} {k : ℕ} {o : O} (h : g k = some o)
    (hmeet : meets taker o = false) : afterMatch g taker left k = some o := by
  simp [afterMatch, h, hmeet]

theorem afterMatch_of_met {taker : O} {left : List (ℕ × O)} {k : ℕ} {o : O} (h : g k = some o)
    (hmeet : meets taker o = true) :
    afterMatch g taker left k = (left.find? fun x => x.1 = k).map Prod.snd := by
  simp [afterMatch, h, hmeet]

/-- What is left of the orders that a taker meets, and which of them are filled. -/
structure LeftOver (g : ℕ → Option O) (taker : O) (left : List (ℕ × O)) (filled : List ℕ) :
    Prop where
  nodup : (left.map Prod.fst).Nodup
  resized : ∀ {k o'}, (k, o') ∈ left → ∃ o, g k = some o ∧ meets taker o = true ∧
    o' = InnerOrder.modifySz o (sz o') ∧ sz o' ≤ sz o ∧ 0 < sz o'
  filled_met : ∀ {k}, k ∈ filled → ∃ o, g k = some o ∧ meets taker o = true
  filled_iff : ∀ {k o}, g k = some o → meets taker o = true →
    (k ∈ filled ↔ k ∉ left.map Prod.fst)

namespace LeftOver

variable {taker : O} {left : List (ℕ × O)} {filled : List ℕ}

/-- **A matched queue** leaves the unfilled orders that were met. -/
theorem of_queueMatch (hv : Valid g) {items : List (ℕ × O)} {taker' : O}
    (hmem : ∀ {k o}, (k, o) ∈ items ↔ g k = some o ∧ meets taker o = true)
    (hnd : (items.map Prod.fst).Nodup) (h : QueueMatch taker items left taker' filled) :
    LeftOver g taker left filled := by
  have hkeys : items.map Prod.fst = filled ++ left.map Prod.fst :=
    h.keys_eq fun x hx => hv.oid_eq (hmem.mp hx).1
  rw [hkeys, List.nodup_append] at hnd
  refine ⟨hnd.2.1, fun {k o'} hk => ?_, fun {k} hk => ?_, fun {k o} hgk hmeet => ?_⟩
  · obtain ⟨o, ho, heq, hle, hpos⟩ := h.of_mem_left hk
    obtain ⟨hgk, hmeet⟩ := hmem.mp ho
    exact ⟨o, hgk, hmeet, heq, hle, hpos (hv.positive hgk)⟩
  · have hitems : k ∈ items.map Prod.fst := hkeys ▸ List.mem_append_left _ hk
    obtain ⟨⟨k', o⟩, ho, rfl⟩ := List.mem_map.mp hitems
    exact ⟨o, hmem.mp ho⟩
  · have hitems : k ∈ items.map Prod.fst := List.mem_map_of_mem (hmem.mpr ⟨hgk, hmeet⟩)
    rw [hkeys, List.mem_append] at hitems
    exact ⟨fun hk hkl => hnd.2.2 k hk k hkl rfl, fun hkl => hitems.resolve_right hkl⟩

theorem afterMatch_of_mem (h : LeftOver g taker left filled) {k : ℕ} {o' : O}
    (hk : (k, o') ∈ left) : afterMatch g taker left k = some o' := by
  obtain ⟨o, hgk, hmeet, -⟩ := h.resized hk
  rw [afterMatch_of_met hgk hmeet]
  exact (find?_key_iff h.nodup).mpr hk

/-- An order that rests after the match was not met, or is left of one that was. -/
theorem of_afterMatch (h : LeftOver g taker left filled) {k : ℕ} {o' : O}
    (hk : afterMatch g taker left k = some o') :
    (g k = some o' ∧ meets taker o' = false) ∨ (k, o') ∈ left := by
  cases hgk : g k with
  | none => cases (afterMatch_of_none hgk).symm.trans hk
  | some o =>
    cases hmeet : meets taker o with
    | true =>
      rw [afterMatch_of_met hgk hmeet] at hk
      exact Or.inr ((find?_key_iff h.nodup).mp hk)
    | false =>
      rw [afterMatch_of_unmet hgk hmeet, Option.some.injEq] at hk
      exact Or.inl ⟨congrArg some hk, hk ▸ hmeet⟩

/-- Where no order rests that is met, the match changes nothing. -/
theorem afterMatch_iff (h : LeftOver g taker left filled) {k : ℕ} {o : O}
    (hout : ∀ j o₁, g j = some o₁ → meets taker o₁ = true →
      ¬ (InnerOrder.side o₁ = InnerOrder.side o ∧ limitPx o₁ = limitPx o)) :
    afterMatch g taker left k = some o ↔ g k = some o := by
  constructor
  · intro hk
    rcases h.of_afterMatch hk with ⟨hgk, -⟩ | hleft
    · exact hgk
    · obtain ⟨o₁, hgk, hmeet, heq, -⟩ := h.resized hleft
      refine absurd ⟨?_, ?_⟩ (hout k o₁ hgk hmeet)
      · rw [heq, side_modifySz]
      · rw [heq, limitPx_modifySz]
  · intro hgk
    refine afterMatch_of_unmet hgk ?_
    by_contra hmeet
    exact hout k o hgk (by simpa using hmeet) ⟨rfl, rfl⟩

/-- The index forgets the filled orders, and no others. -/
theorem index_eq (h : LeftOver g taker left filled) (k : ℕ) :
    ((afterMatch g taker left k).map fun o => (InnerOrder.side o, limitPx o)) =
      if k ∈ filled then none else (g k).map fun o => (InnerOrder.side o, limitPx o) := by
  cases hgk : g k with
  | none => simp [afterMatch_of_none hgk]
  | some o =>
    cases hmeet : meets taker o with
    | false =>
      have hk : k ∉ filled := by
        intro hk
        obtain ⟨o₁, ho₁, hmeet₁⟩ := h.filled_met hk
        rw [hgk, Option.some.injEq] at ho₁
        rw [ho₁, hmeet₁] at hmeet
        cases hmeet
      rw [afterMatch_of_unmet hgk hmeet, if_neg hk]
    | true =>
      by_cases hk : k ∈ filled
      · rw [afterMatch_of_met hgk hmeet, find?_key_eq_none ((h.filled_iff hgk hmeet).mp hk),
          if_pos hk]
        rfl
      · have hleft : k ∈ left.map Prod.fst := by
          by_contra hleft
          exact hk ((h.filled_iff hgk hmeet).mpr hleft)
        obtain ⟨⟨k', o'⟩, ho', rfl⟩ := List.mem_map.mp hleft
        obtain ⟨o₁, ho₁, -, heq, -⟩ := h.resized ho'
        rw [hgk, Option.some.injEq] at ho₁
        subst ho₁
        rw [h.afterMatch_of_mem ho', if_neg hk, Option.map_some, heq, side_modifySz,
          limitPx_modifySz, Option.map_some]

/-- **The match is a `Matched` step.** -/
theorem matched (h : LeftOver g taker left filled) (hv : Valid g) {items : List (ℕ × O)}
    {taker' : O} (hmem : ∀ {k o}, (k, o) ∈ items ↔ g k = some o ∧ meets taker o = true)
    (hq : QueueMatch taker items left taker' filled) :
    Matched g taker (afterMatch g taker left) taker' where
  none _ hk := afterMatch_of_none hk
  unmet _ _ hk hmeet := afterMatch_of_unmet hk hmeet
  met k o hgk := by
    cases hmeet : meets taker o with
    | false =>
      refine Or.inr ⟨sz o, hv.positive hgk, le_refl _, ?_⟩
      rw [afterMatch_of_unmet hgk hmeet, modifySz_sz]
    | true =>
      cases hk : afterMatch g taker left k with
      | none => exact Or.inl rfl
      | some o' =>
        rcases h.of_afterMatch hk with ⟨hgk', hmeet'⟩ | hleft
        · rw [hgk, Option.some.injEq] at hgk'
          rw [hgk', hmeet'] at hmeet
          cases hmeet
        · obtain ⟨o₁, ho₁, -, heq, hle, hpos⟩ := h.resized hleft
          rw [hgk, Option.some.injEq] at ho₁
          subst ho₁
          exact Or.inr ⟨sz o', hpos, hle, congrArg some heq⟩
  exhausted hpos k o hgk hmeet := by
    rw [afterMatch_of_met hgk hmeet, hq.exhausted hpos]
    rfl
  taker_eq := hq.taker_eq
  taker_le := hq.taker_le
  idle hall := by
    refine hq.idle (List.eq_nil_iff_forall_not_mem.mpr ?_)
    rintro ⟨k, o⟩ hk
    obtain ⟨hgk, hmeet⟩ := hmem.mp hk
    rw [hall k o hgk] at hmeet
    cases hmeet

end LeftOver

/-- The queues after a match, of the side that was met and of the other one. -/
theorem queue_matchOrder (h : Shows b g) {taker : O} {r : Levels O × O × List ℕ}
    (H : OrderMatch (b.side (InnerOrder.side taker).opposite) taker r)
    (hleft : LeftOver g taker (queuesAt r.1
      (crossingPrices (b.side (InnerOrder.side taker).opposite) (InnerOrder.side taker)
        (limitPx taker))) r.2.2) (s : Side) (px k : ℕ) (o : O) :
    (k, o) ∈ queueAt ((b.setSide (InnerOrder.side taker).opposite r.1).side s) px ↔
      afterMatch g taker (queuesAt r.1
        (crossingPrices (b.side (InnerOrder.side taker).opposite) (InnerOrder.side taker)
          (limitPx taker))) k = some o ∧ InnerOrder.side o = s ∧ limitPx o = px := by
  set prices := crossingPrices (b.side (InnerOrder.side taker).opposite) (InnerOrder.side taker)
    (limitPx taker) with hprices
  -- the orders that are met rest on the other side, at the crossing prices
  have hmet : ∀ j o₁, g j = some o₁ → meets taker o₁ = true →
      InnerOrder.side o₁ = (InnerOrder.side taker).opposite ∧ limitPx o₁ ∈ prices := by
    intro j o₁ hgj hmeet
    obtain ⟨q, hq, hjq⟩ := List.mem_flatMap.mp ((h.mem_queuesAt taker).mpr ⟨hgj, hmeet⟩)
    obtain ⟨-, hside, hpx⟩ := (h.queue _ _ _ _).mp hjq
    exact ⟨hside, hpx ▸ hq⟩
  have hframe : ¬ (s = (InnerOrder.side taker).opposite ∧ px ∈ prices) →
      InnerOrder.side o = s ∧ limitPx o = px →
        (afterMatch g taker (queuesAt r.1 prices) k = some o ↔ g k = some o) := by
    intro hout hplace
    refine hleft.afterMatch_iff fun j o₁ hgj hmeet heq => hout ?_
    obtain ⟨hside, hpx⟩ := hmet j o₁ hgj hmeet
    rw [← hplace.1, ← hplace.2, ← heq.1, ← heq.2]
    exact ⟨hside, hpx⟩
  by_cases hs : s = (InnerOrder.side taker).opposite
  · subst hs
    rw [side_setSide]
    by_cases hpx : px ∈ prices
    · -- what is left at a price rests there
      have hplace : ∀ {q j o'}, (j, o') ∈ queueAt r.1 q →
          InnerOrder.side o' = (InnerOrder.side taker).opposite ∧ limitPx o' = q := by
        intro q j o' hj
        obtain ⟨o₁, ho₁, heq⟩ := H.part q j o' hj
        obtain ⟨-, hside, hq⟩ := (h.queue _ _ _ _).mp ho₁
        rw [heq, side_modifySz, limitPx_modifySz]
        exact ⟨hside, hq⟩
      constructor
      · intro hk
        exact ⟨hleft.afterMatch_of_mem (List.mem_flatMap.mpr ⟨px, hpx, hk⟩), hplace hk⟩
      · rintro ⟨hk, hso, hlo⟩
        rcases hleft.of_afterMatch hk with ⟨-, hmeet⟩ | hk
        · have hcrosses := (mem_crossingPrices.mp hpx).2
          rw [← hlo] at hcrosses
          rw [meets_iff.mpr ⟨hso, hcrosses⟩] at hmeet
          cases hmeet
        · obtain ⟨q, hq, hk⟩ := List.mem_flatMap.mp hk
          rw [← hlo, (hplace hk).2]
          exact hk
    · rw [queueAt_congr (H.frame px hpx), h.queue]
      exact and_congr_left fun hplace => (hframe (fun hin => hpx hin.2) hplace).symm
  · rw [side_setSide_of_ne _ hs, h.queue]
    exact and_congr_left fun hplace => (hframe (fun hin => hs hin.1) hplace).symm

/-- **Matching a taker is a `Matched` step.** -/
theorem matchOrder (h : Shows b g) (hv : Valid g) (taker : O) :
    ∃ g', Shows
        { b.setSide (InnerOrder.side taker).opposite
            (HlOrderbook.matchOrder (b.side (InnerOrder.side taker).opposite) taker).1 with
          oidToSidePx := (HlOrderbook.matchOrder
            (b.side (InnerOrder.side taker).opposite) taker).2.2.foldl
              (fun m k => m.erase k) b.oidToSidePx } g' ∧
      Matched g taker g'
        (HlOrderbook.matchOrder (b.side (InnerOrder.side taker).opposite) taker).2.1 := by
  set r := HlOrderbook.matchOrder (b.side (InnerOrder.side taker).opposite) taker with hr
  have H : OrderMatch (b.side (InnerOrder.side taker).opposite) taker r :=
    matchOrder_spec _ taker (h.nonempty _)
  have hnd := h.nodup_queuesAt (InnerOrder.side taker).opposite
    (nodup_crossingPrices (b.side (InnerOrder.side taker).opposite) (InnerOrder.side taker)
      (limitPx taker))
  have hleft := LeftOver.of_queueMatch hv (h.mem_queuesAt taker) hnd H.queues
  refine ⟨_, ⟨fun s px k o => ?_, fun k => ?_, fun s px l hl => ?_⟩,
    hleft.matched hv (h.mem_queuesAt taker) H.queues⟩
  · rw [side_withIndex]
    exact h.queue_matchOrder H hleft s px k o
  · rw [hleft.index_eq, ← h.index]
    exact getElem?_foldl_erase _ _ _
  · rw [side_withIndex] at hl
    by_cases hs : s = (InnerOrder.side taker).opposite
    · subst hs
      rw [side_setSide] at hl
      exact H.nonempty px l hl
    · rw [side_setSide_of_ne _ hs] at hl
      exact h.nonempty s px l hl

end Shows

end RawBook

/-! ## Resting an order -/

/-- Resting an order adds it to the queue of its price, somewhere, and touches no
other level. -/
theorem addOrderToBook_spec [SlabPolicy] {m : Levels O} {order : O}
    (hfresh : oid order ∉ (queueAt m (limitPx order)).map Prod.fst) (anchor : Option ℕ) :
    (∀ px, px ≠ limitPx order → (addOrderToBook m order anchor).1[px]? = m[px]?) ∧
      ∃ l, (addOrderToBook m order anchor).1[limitPx order]? = some l ∧
        l.items.Perm ((oid order, order) :: queueAt m (limitPx order)) := by
  set level := (m[limitPx order]?).getD PriceLevel.new with hlevel
  have hitems : level.items = queueAt m (limitPx order) := by
    cases h : m[limitPx order]? with
    | none => simp [hlevel, h, queueAt_of_none h]
    | some l => simp [hlevel, h, queueAt_of_some h]
  rw [← hitems] at hfresh ⊢
  have hback : (level.pushBack (oid order) order).1.items.Perm
      ((oid order, order) :: level.items) := by
    rw [PriceLevel.items_pushBack hfresh]
    exact List.perm_append_singleton _ _
  have hinsert : ∀ l : PriceLevel O, (∀ px, px ≠ limitPx order →
      (m.insert (limitPx order) l)[px]? = m[px]?) ∧
      (m.insert (limitPx order) l)[limitPx order]? = some l := by
    intro l
    refine ⟨fun px hpx => ?_, by simp⟩
    have : ¬ limitPx order = px := fun h => hpx h.symm
    simp [Std.ExtTreeMap.getElem?_insert, this]
  cases anchor with
  | none => exact ⟨(hinsert _).1, _, (hinsert _).2, hback⟩
  | some before =>
    by_cases hb : level.contains before = true
    · have hrw : addOrderToBook m order (some before) =
          (m.insert (limitPx order) (level.insertBefore before (oid order) order).1, false) := by
        simp only [addOrderToBook]
        rw [← hlevel, if_pos hb]
      rw [hrw]
      refine ⟨(hinsert _).1, _, (hinsert _).2, ?_⟩
      rw [PriceLevel.contains_iff] at hb
      obtain ⟨xs, v, ys, hxs⟩ := LinkedList.exists_split hb
      rw [PriceLevel.items_insertBefore hxs hfresh, hxs]
      exact List.perm_middle
    · have hrw : addOrderToBook m order (some before) =
          (m.insert (limitPx order) (level.pushBack (oid order) order).1, true) := by
        simp only [addOrderToBook]
        rw [← hlevel, if_neg hb]
      rw [hrw]
      exact ⟨(hinsert _).1, _, (hinsert _).2, hback⟩

namespace RawBook.Shows

variable {b : RawBook O} {g : ℕ → Option O}

/-- **Resting an order with a new identifier is an update.** -/
theorem rest [SlabPolicy] (h : Shows b g) {order : O} (hnone : g (oid order) = none)
    (anchor : Option ℕ) :
    Shows
      { b.setSide (InnerOrder.side order)
          (addOrderToBook (b.side (InnerOrder.side order)) order anchor).1 with
        oidToSidePx :=
          b.oidToSidePx.insert (oid order) (InnerOrder.side order, limitPx order) }
      (Function.update g (oid order) (some order)) := by
  have hfresh : oid order ∉
      (queueAt (b.side (InnerOrder.side order)) (limitPx order)).map Prod.fst := by
    intro hmem
    obtain ⟨⟨k, o⟩, ho, hk⟩ := List.mem_map.mp hmem
    have := ((h.queue _ _ _ _).mp ho).1
    rw [show k = oid order from hk, hnone] at this
    simp at this
  obtain ⟨hframe, l, hl, hperm⟩ := addOrderToBook_spec hfresh anchor
  have hupd : ∀ {s px k o}, Function.update g (oid order) (some order) k = some o ∧
      InnerOrder.side o = s ∧ limitPx o = px ↔
      (k = oid order ∧ o = order ∧ s = InnerOrder.side order ∧ px = limitPx order) ∨
        (g k = some o ∧ InnerOrder.side o = s ∧ limitPx o = px) := by
    intro s px k o
    by_cases hk : k = oid order
    · subst hk
      rw [Function.update_self, hnone]
      constructor
      · rintro ⟨ho, hs, hp⟩
        cases ho
        exact Or.inl ⟨rfl, rfl, hs.symm, hp.symm⟩
      · rintro (⟨-, rfl, rfl, rfl⟩ | ⟨ho, -⟩)
        · exact ⟨rfl, rfl, rfl⟩
        · simp at ho
    · rw [Function.update_of_ne hk]
      constructor
      · exact Or.inr
      · rintro (⟨rfl, -⟩ | ho)
        · exact absurd rfl hk
        · exact ho
  refine ⟨?_, ?_, ?_⟩
  · intro s px k o
    rw [side_withIndex, hupd]
    by_cases hs : s = InnerOrder.side order
    · subst hs
      rw [side_setSide]
      by_cases hpx : px = limitPx order
      · subst hpx
        rw [queueAt_of_some hl, hperm.mem_iff, List.mem_cons, h.queue, Prod.mk.injEq]
        simp only [and_true]
      · rw [queueAt_congr (hframe px hpx), h.queue]
        simp [hpx]
    · rw [side_setSide_of_ne _ hs, h.queue]
      simp [hs]
  · intro k
    change (b.oidToSidePx.insert (oid order) _)[k]? = _
    rw [Std.ExtTreeMap.getElem?_insert]
    by_cases hk : k = oid order
    · subst hk
      simp
    · have : ¬ oid order = k := fun h => hk h.symm
      simp [this, Function.update_of_ne hk, h.index]
  · intro s px l' hl'
    rw [side_withIndex] at hl'
    by_cases hs : s = InnerOrder.side order
    · subst hs
      rw [side_setSide] at hl'
      by_cases hpx : px = limitPx order
      · subst hpx
        rw [hl, Option.some.injEq] at hl'
        subst hl'
        intro he
        rw [he] at hperm
        simpa using hperm.length_eq
      · rw [hframe px hpx] at hl'
        exact h.nonempty _ _ _ hl'
    · rw [side_setSide_of_ne _ hs] at hl'
      exact h.nonempty _ _ _ hl'

/-- An identifier that is in the book already is ignored. -/
theorem addOrderBefore_duplicate [SlabPolicy] (h : Shows b g) {order : O}
    (hsome : (g (oid order)).isSome) (anchor : Option ℕ) :
    b.addOrderBefore order anchor = (b, false) := by
  rw [RawBook.addOrderBefore, if_pos]
  rw [h.contains_iff]
  exact hsome

/-- **Adding an order matches it and rests what is left.** -/
theorem addOrderBefore [SlabPolicy] (h : Shows b g) (hv : Valid g) {order : O}
    (hnone : g (oid order) = none) (anchor : Option ℕ) :
    ∃ g' taker', Matched g order g' taker' ∧
      Shows (b.addOrderBefore order anchor).1
        (if sz taker' = 0 then g' else Function.update g' (oid order) (some taker')) := by
  obtain ⟨g', hshows, hmatch⟩ := h.matchOrder hv order
  set r := HlOrderbook.matchOrder (b.side (InnerOrder.side order).opposite) order with hr
  refine ⟨g', r.2.1, hmatch, ?_⟩
  have hc : ¬ b.oidToSidePx.contains (oid order) = true := by
    rw [h.contains_iff, hnone]
    simp
  rw [RawBook.addOrderBefore, if_neg hc]
  simp only [← hr]
  have hoid : oid r.2.1 = oid order := by rw [hmatch.taker_eq, oid_modifySz]
  have hside : InnerOrder.side r.2.1 = InnerOrder.side order := by
    rw [hmatch.taker_eq, side_modifySz]
  by_cases h0 : sz r.2.1 = 0
  · have hpos : ¬ 0 < sz r.2.1 := by omega
    rw [if_neg hpos, if_pos h0]
    exact hshows
  · have hpos : 0 < sz r.2.1 := by omega
    rw [if_pos hpos, if_neg h0, ← hoid, ← hside]
    exact (hside ▸ hshows).rest (by rw [hoid]; exact hmatch.none _ hnone) anchor

/-! ## Removing and resizing -/

/-- What removing an order does to the levels: it leaves the queue at its price, and
no other level is touched. -/
theorem cancelOrder_levels (h : Shows b g) {k : ℕ} {o : O} (hk : g k = some o) :
    ∃ levels l xs ys, (b.side (InnerOrder.side o))[limitPx o]? = some l ∧
      l.items = xs ++ (k, o) :: ys ∧
      b.cancelOrder k = ({ b.setSide (InnerOrder.side o) levels with
        oidToSidePx := b.oidToSidePx.erase k }, true) ∧
      (∀ px, px ≠ limitPx o → levels[px]? = (b.side (InnerOrder.side o))[px]?) ∧
      queueAt levels (limitPx o) = xs ++ ys ∧
      ∀ l', levels[limitPx o]? = some l' → l'.items ≠ [] := by
  have hidx : b.oidToSidePx[k]? = some (InnerOrder.side o, limitPx o) := by rw [h.index, hk]; rfl
  obtain ⟨l, hl, hmem⟩ := h.exists_level hk
  obtain ⟨xs, ys, hxs⟩ := List.append_of_mem hmem
  obtain ⟨hitems, hremoved⟩ := PriceLevel.remove_of_split hxs
  set s₀ := InnerOrder.side o with hs₀
  set px₀ := limitPx o with hpx₀
  set levels := if (l.remove k).1.isEmpty = true then (b.side s₀).erase px₀
    else (b.side s₀).insert px₀ (l.remove k).1 with hlevels
  refine ⟨levels, l, xs, ys, hl, hxs, ?_, ?_, ?_, ?_⟩
  · simp only [RawBook.cancelOrder, hidx, side_withIndex, hl, hremoved, ← hlevels,
      setSide_withIndex, Option.isSome_some]
  · intro px hpx
    have hne : ¬ px₀ = px := fun h => hpx h.symm
    rw [hlevels]
    split <;> simp [Std.ExtTreeMap.getElem?_erase, Std.ExtTreeMap.getElem?_insert, hne]
  · rw [hlevels]
    split
    case isTrue he =>
      rw [PriceLevel.isEmpty_iff, hitems] at he
      rw [he, queueAt_of_none (by simp)]
    case isFalse he =>
      rw [queueAt_of_some (l := (l.remove k).1) (by simp), hitems]
  · intro l' hl'
    rw [hlevels] at hl'
    split at hl'
    case isTrue he => simp at hl'
    case isFalse he =>
      rw [PriceLevel.isEmpty_iff] at he
      simp only [Std.ExtTreeMap.getElem?_insert_self, Option.some.injEq] at hl'
      exact hl' ▸ he

/-- Removing an order that is in the book. -/
theorem cancelOrder (h : Shows b g) (k : ℕ) :
    Shows (b.cancelOrder k).1 (Function.update g k none) ∧
      (b.cancelOrder k).2 = (g k).isSome := by
  cases hk : g k with
  | none =>
    have hidx : b.oidToSidePx[k]? = none := by rw [h.index, hk]; rfl
    have heq : Function.update g k none = g := by
      rw [← hk, Function.update_eq_self]
    rw [RawBook.cancelOrder, hidx, heq]
    exact ⟨h, rfl⟩
  | some o =>
    obtain ⟨levels, l, xs, ys, hl, hxs, hcancel, hframe, hqueue, hfull⟩ := h.cancelOrder_levels hk
    set s₀ := InnerOrder.side o with hs₀
    set px₀ := limitPx o with hpx₀
    have hnd := l.nodup_items
    rw [hxs, List.map_append, List.map_cons, List.nodup_middle, List.nodup_cons,
      ← List.map_append] at hnd
    have hmem' : ∀ {j o'}, (j, o') ∈ xs ++ ys ↔ j ≠ k ∧ (j, o') ∈ l.items := by
      intro j o'
      constructor
      · intro hj
        refine ⟨?_, ?_⟩
        · rintro rfl
          exact hnd.1 (List.mem_map.mpr ⟨_, hj, rfl⟩)
        · rw [hxs]
          simp only [List.mem_append, List.mem_cons] at hj ⊢
          tauto
      · rintro ⟨hjk, hj⟩
        rw [hxs] at hj
        simp only [List.mem_append, List.mem_cons, Prod.mk.injEq] at hj ⊢
        tauto
    have hupd : ∀ {j o'}, Function.update g k none j = some o' ↔ j ≠ k ∧ g j = some o' := by
      intro j o'
      by_cases hj : j = k
      · subst hj
        simp
      · simp [hj]
    rw [hcancel]
    refine ⟨⟨?_, ?_, ?_⟩, rfl⟩
    · intro s px j o'
      rw [side_withIndex, hupd]
      by_cases hs : s = s₀
      · subst hs
        rw [side_setSide]
        by_cases hpx : px = px₀
        · subst hpx
          rw [hqueue, hmem', ← queueAt_of_some hl, h.queue, and_assoc]
        · rw [queueAt_congr (hframe px hpx), h.queue, and_assoc]
          constructor
          · rintro ⟨hj, hso, hlo⟩
            refine ⟨?_, hj, hso, hlo⟩
            rintro rfl
            rw [hk, Option.some.injEq] at hj
            subst hj
            exact hpx hlo.symm
          · exact fun hj => hj.2
      · rw [side_setSide_of_ne _ hs, h.queue, and_assoc]
        constructor
        · rintro ⟨hj, hso, hlo⟩
          refine ⟨?_, hj, hso, hlo⟩
          rintro rfl
          rw [hk, Option.some.injEq] at hj
          subst hj
          exact hs hso.symm
        · exact fun hj => hj.2
    · intro j
      change (b.oidToSidePx.erase k)[j]? = _
      rw [Std.ExtTreeMap.getElem?_erase]
      by_cases hj : j = k
      · subst hj
        simp
      · have : ¬ k = j := fun h => hj h.symm
        simp [this, Function.update_of_ne hj, h.index]
    · intro s px l' hl'
      rw [side_withIndex] at hl'
      by_cases hs : s = s₀
      · subst hs
        rw [side_setSide] at hl'
        by_cases hpx : px = px₀
        · subst hpx
          exact hfull l' hl'
        · rw [hframe px hpx] at hl'
          exact h.nonempty _ _ _ hl'
      · rw [side_setSide_of_ne _ hs] at hl'
        exact h.nonempty _ _ _ hl'

/-- What changing an order's size does to the levels: the order keeps its place in the
queue at its price, and no other level is touched. -/
theorem modifySz_levels (h : Shows b g) {k s : ℕ} (hs0 : s ≠ 0) {o : O} (hk : g k = some o) :
    ∃ levels l l' xs ys, (b.side (InnerOrder.side o))[limitPx o]? = some l ∧
      l.items = xs ++ (k, o) :: ys ∧
      b.modifySz k s = (b.setSide (InnerOrder.side o) levels, true) ∧
      (∀ px, px ≠ limitPx o → levels[px]? = (b.side (InnerOrder.side o))[px]?) ∧
      levels[limitPx o]? = some l' ∧ l'.items = xs ++ (k, InnerOrder.modifySz o s) :: ys := by
  have hidx : b.oidToSidePx[k]? = some (InnerOrder.side o, limitPx o) := by rw [h.index, hk]; rfl
  obtain ⟨l, hl, hmem⟩ := h.exists_level hk
  obtain ⟨xs, ys, hxs⟩ := List.append_of_mem hmem
  obtain ⟨hitems, hmodified⟩ := PriceLevel.modifyOrderSz_of_split hxs s
  refine ⟨(b.side (InnerOrder.side o)).insert (limitPx o) (l.modifyOrderSz k s).1, l,
    (l.modifyOrderSz k s).1, xs, ys, hl, hxs, ?_, ?_, by simp, hitems⟩
  · simp only [RawBook.modifySz, if_neg hs0, hidx, hl, hmodified]
  · intro px hpx
    have hne : ¬ limitPx o = px := fun h => hpx h.symm
    simp [Std.ExtTreeMap.getElem?_insert, hne]

/-- Changing the size of an order, to a size that is not zero. -/
theorem modifySz (h : Shows b g) (k : ℕ) {s : ℕ} (hs0 : s ≠ 0) :
    Shows (b.modifySz k s).1 (Function.update g k ((g k).map (InnerOrder.modifySz · s))) ∧
      (b.modifySz k s).2 = (g k).isSome := by
  cases hk : g k with
  | none =>
    have hidx : b.oidToSidePx[k]? = none := by rw [h.index, hk]; rfl
    have heq : Function.update g k none = g := by
      rw [← hk, Function.update_eq_self]
    rw [RawBook.modifySz, if_neg hs0, hidx, Option.map_none, heq]
    exact ⟨h, rfl⟩
  | some o =>
    obtain ⟨levels, l, l₁, xs, ys, hl, hxs, hmod, hframe, hlevel, hitems⟩ :=
      h.modifySz_levels hs0 hk
    set s₀ := InnerOrder.side o with hs₀
    set px₀ := limitPx o with hpx₀
    have hnd := l.nodup_items
    rw [hxs, List.map_append, List.map_cons, List.nodup_middle, List.nodup_cons,
      ← List.map_append] at hnd
    have hmem' : ∀ {j o'}, (j, o') ∈ xs ++ (k, InnerOrder.modifySz o s) :: ys ↔
        (j = k ∧ o' = InnerOrder.modifySz o s) ∨ (j ≠ k ∧ (j, o') ∈ l.items) := by
      intro j o'
      rw [hxs]
      by_cases hj : j = k
      · subst hj
        have h₁ : (j, o') ∉ xs := fun hx =>
          hnd.1 (List.mem_map.mpr ⟨_, List.mem_append_left _ hx, rfl⟩)
        have h₂ : (j, o') ∉ ys := fun hx =>
          hnd.1 (List.mem_map.mpr ⟨_, List.mem_append_right _ hx, rfl⟩)
        simp [h₁, h₂]
      · simp [hj]
    have hupd : ∀ {j o'}, Function.update g k (some (InnerOrder.modifySz o s)) j = some o' ↔
        (j = k ∧ o' = InnerOrder.modifySz o s) ∨ (j ≠ k ∧ g j = some o') := by
      intro j o'
      by_cases hj : j = k
      · subst hj
        simp [eq_comm]
      · simp [hj]
    rw [hmod, Option.map_some]
    refine ⟨⟨?_, ?_, ?_⟩, rfl⟩
    · intro s' px j o'
      rw [hupd]
      by_cases hs : s' = s₀
      · subst hs
        rw [side_setSide]
        by_cases hpx : px = px₀
        · subst hpx
          rw [queueAt_of_some hlevel, hitems, hmem', ← queueAt_of_some hl, h.queue]
          constructor
          · rintro (⟨rfl, rfl⟩ | ⟨hj, hg, hso, hlo⟩)
            · exact ⟨Or.inl ⟨rfl, rfl⟩, side_modifySz _ _, limitPx_modifySz _ _⟩
            · exact ⟨Or.inr ⟨hj, hg⟩, hso, hlo⟩
          · rintro ⟨⟨rfl, rfl⟩ | ⟨hj, hg⟩, hso, hlo⟩
            · exact Or.inl ⟨rfl, rfl⟩
            · exact Or.inr ⟨hj, hg, hso, hlo⟩
        · rw [queueAt_congr (hframe px hpx), h.queue]
          constructor
          · rintro ⟨hj, hso, hlo⟩
            refine ⟨Or.inr ⟨?_, hj⟩, hso, hlo⟩
            rintro rfl
            rw [hk, Option.some.injEq] at hj
            subst hj
            exact hpx hlo.symm
          · rintro ⟨⟨rfl, rfl⟩ | ⟨-, hg⟩, hso, hlo⟩
            · rw [limitPx_modifySz] at hlo
              exact absurd hlo.symm hpx
            · exact ⟨hg, hso, hlo⟩
      · rw [side_setSide_of_ne _ hs, h.queue]
        constructor
        · rintro ⟨hj, hso, hlo⟩
          refine ⟨Or.inr ⟨?_, hj⟩, hso, hlo⟩
          rintro rfl
          rw [hk, Option.some.injEq] at hj
          subst hj
          exact hs hso.symm
        · rintro ⟨⟨rfl, rfl⟩ | ⟨-, hg⟩, hso, hlo⟩
          · rw [side_modifySz] at hso
            exact absurd hso.symm hs
          · exact ⟨hg, hso, hlo⟩
    · intro j
      rw [oidToSidePx_setSide, h.index]
      by_cases hj : j = k
      · subst hj
        simp [hk]
      · simp [Function.update_of_ne hj]
    · intro s' px l' hl'
      by_cases hs : s' = s₀
      · subst hs
        rw [side_setSide] at hl'
        by_cases hpx : px = px₀
        · subst hpx
          rw [hlevel, Option.some.injEq] at hl'
          rw [← hl', hitems]
          simp
        · rw [hframe px hpx] at hl'
          exact h.nonempty _ _ _ hl'
      · rw [side_setSide_of_ne _ hs] at hl'
        exact h.nonempty _ _ _ hl'

/-- Compaction keeps what a book shows. -/
theorem compact [SlabPolicy] (h : Shows b g) : Shows b.compact.1 g := by
  have hside : ∀ s, b.compact.1.side s = (b.side s).map fun _ l => l.compact.1 := by
    intro s
    cases s <;> rfl
  have hget : ∀ s (px : ℕ), (b.compact.1.side s)[px]? =
      (b.side s)[px]?.map fun l => l.compact.1 := by
    intro s px
    rw [hside, Std.ExtTreeMap.getElem?_map]
  have hqueue : ∀ s px, queueAt (b.compact.1.side s) px = queueAt (b.side s) px := by
    intro s px
    rw [queueAt, queueAt, hget]
    cases (b.side s)[px]? <;> simp
  refine ⟨?_, ?_, ?_⟩
  · intro s px k o
    rw [hqueue, h.queue]
  · exact h.index
  · intro s px l hl
    rw [hget, Option.map_eq_some_iff] at hl
    obtain ⟨l₀, hl₀, rfl⟩ := hl
    rw [PriceLevel.items_compact]
    exact h.nonempty _ _ _ hl₀

end RawBook.Shows

/-! ## The sealed book -/

/-- An order book: a representation that shows a valid map of resting orders. -/
structure OrderBook (O : Type) [InnerOrder O] where
  raw : RawBook O
  sound : ∃ g, raw.Shows g ∧ Valid g

namespace OrderBook

/-- The order with an identifier. -/
def find? (b : OrderBook O) (k : ℕ) : Option O := b.raw.find? k

theorem find?_eq_of_shows {b : OrderBook O} {g : ℕ → Option O} (h : b.raw.Shows g) :
    b.find? = g := funext fun k => h.find?_eq k

theorem shows_find? (b : OrderBook O) : b.raw.Shows b.find? := by
  obtain ⟨g, hg, -⟩ := b.sound
  rwa [find?_eq_of_shows hg]

theorem valid (b : OrderBook O) : Valid b.find? := by
  obtain ⟨g, hg, hv⟩ := b.sound
  rwa [find?_eq_of_shows hg]

/-- A book with no order. -/
def new : OrderBook O := ⟨RawBook.new, _, RawBook.Shows.new, Valid.empty⟩

@[simp] theorem find?_new (k : ℕ) : (new : OrderBook O).find? k = none :=
  RawBook.Shows.new.find?_eq k

/-- The number of orders. -/
def orderCount (b : OrderBook O) : ℕ := b.raw.orderCount

theorem orderCount_eq_zero (b : OrderBook O) : b.orderCount = 0 ↔ ∀ k, b.find? k = none := by
  have h := b.shows_find?
  rw [orderCount, RawBook.orderCount, ← Std.ExtTreeMap.eq_empty_iff_size_eq_zero]
  constructor
  · intro he k
    have := h.index k
    rw [he] at this
    simpa using this.symm
  · intro hnone
    refine Std.ExtTreeMap.ext_getElem? fun k => ?_
    rw [h.index, hnone]
    simp

/-- Match an order against the other side, and rest what is left of it. -/
def addOrderBefore [SlabPolicy] (b : OrderBook O) (order : O) (insertBefore : Option ℕ) :
    OrderBook O × Bool :=
  (⟨(b.raw.addOrderBefore order insertBefore).1, by
    have h := b.shows_find?
    cases hk : b.find? (oid order) with
    | some o =>
      rw [h.addOrderBefore_duplicate (by simp [hk])]
      exact b.sound
    | none =>
      obtain ⟨g', taker', hm, hs⟩ := h.addOrderBefore b.valid hk insertBefore
      refine ⟨_, hs, ?_⟩
      split
      · exact b.valid.matched hm
      · rename_i hpos
        have hoid : oid taker' = oid order := by rw [hm.taker_eq, oid_modifySz]
        exact hoid ▸ b.valid.rest hm hpos⟩,
    (b.raw.addOrderBefore order insertBefore).2)

/-- An identifier that is in the book already is ignored. -/
theorem addOrderBefore_duplicate [SlabPolicy] {b : OrderBook O} {order : O}
    (h : (b.find? (oid order)).isSome) (anchor : Option ℕ) :
    b.addOrderBefore order anchor = (b, false) := by
  have hraw := b.shows_find?.addOrderBefore_duplicate h anchor
  simp [addOrderBefore, hraw]

/-- **Adding an order matches it and rests what is left.** -/
theorem addOrderBefore_spec [SlabPolicy] {b : OrderBook O} {order : O}
    (h : b.find? (oid order) = none) (anchor : Option ℕ) :
    ∃ g' taker', Matched b.find? order g' taker' ∧
      (b.addOrderBefore order anchor).1.find? =
        if sz taker' = 0 then g' else Function.update g' (oid order) (some taker') := by
  obtain ⟨g', taker', hm, hs⟩ := b.shows_find?.addOrderBefore b.valid h anchor
  exact ⟨g', taker', hm, find?_eq_of_shows hs⟩

/-- **Adding an order that meets no resting order rests it.** -/
theorem addOrderBefore_unmet [SlabPolicy] {b : OrderBook O} {order : O}
    (h : b.find? (oid order) = none) (hpos : 0 < sz order)
    (hunmet : ∀ k o, b.find? k = some o → meets order o = false) (anchor : Option ℕ) :
    (b.addOrderBefore order anchor).1.find? =
      Function.update b.find? (oid order) (some order) := by
  obtain ⟨g', taker', hm, hfind⟩ := addOrderBefore_spec h anchor
  obtain ⟨rfl, rfl⟩ := hm.eq_of_unmet hunmet
  rw [hfind, if_neg (by omega)]

/-- Remove an order; `false` when it is not in the book. -/
def cancelOrder (b : OrderBook O) (oid : ℕ) : OrderBook O × Bool :=
  (⟨(b.raw.cancelOrder oid).1, _, (b.shows_find?.cancelOrder oid).1, b.valid.cancel oid⟩,
    (b.raw.cancelOrder oid).2)

theorem cancelOrder_spec (b : OrderBook O) (k : ℕ) :
    (b.cancelOrder k).1.find? = Function.update b.find? k none ∧
      (b.cancelOrder k).2 = (b.find? k).isSome :=
  ⟨find?_eq_of_shows (b.shows_find?.cancelOrder k).1, (b.shows_find?.cancelOrder k).2⟩

/-- Change an order's size; zero removes it.  `false` when it is not in the
book. -/
def modifySz (b : OrderBook O) (oid newSz : ℕ) : OrderBook O × Bool :=
  (⟨(b.raw.modifySz oid newSz).1, by
    by_cases h0 : newSz = 0
    · rw [RawBook.modifySz, if_pos h0]
      exact ⟨_, (b.shows_find?.cancelOrder oid).1, b.valid.cancel oid⟩
    · exact ⟨_, (b.shows_find?.modifySz oid h0).1, b.valid.resize oid (by omega)⟩⟩,
    (b.raw.modifySz oid newSz).2)

theorem modifySz_spec (b : OrderBook O) (k newSz : ℕ) :
    (b.modifySz k newSz).1.find? = Function.update b.find? k
        (if newSz = 0 then none else (b.find? k).map (InnerOrder.modifySz · newSz)) ∧
      (b.modifySz k newSz).2 = (b.find? k).isSome := by
  by_cases h0 : newSz = 0
  · have hraw : b.raw.modifySz k newSz = b.raw.cancelOrder k := by
      rw [RawBook.modifySz, if_pos h0]
    rw [if_pos h0]
    refine ⟨find?_eq_of_shows ?_, ?_⟩
    · change (b.raw.modifySz k newSz).1.Shows _
      rw [hraw]
      exact (b.shows_find?.cancelOrder k).1
    · change (b.raw.modifySz k newSz).2 = _
      rw [hraw]
      exact (b.shows_find?.cancelOrder k).2
  · rw [if_neg h0]
    exact ⟨find?_eq_of_shows (b.shows_find?.modifySz k h0).1, (b.shows_find?.modifySz k h0).2⟩

/-- Compact every level; the answer counts the levels that were rebuilt. -/
def compact [SlabPolicy] (b : OrderBook O) : OrderBook O × ℕ :=
  (⟨b.raw.compact.1, _, b.shows_find?.compact, b.valid⟩, b.raw.compact.2)

@[simp] theorem find?_compact [SlabPolicy] (b : OrderBook O) : b.compact.1.find? = b.find? :=
  find?_eq_of_shows b.shows_find?.compact

end OrderBook

end HlOrderbook
