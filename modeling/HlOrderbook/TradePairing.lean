import HlOrderbook.Listener

/-!
# Trades of a stream of fills

The node writes the two fills of a match one right after the other, in either order.  The
listener takes the fills batch by batch, and leaves batches out while nobody wants trades,
so a half may be left waiting whose other half was never taken.  Such a half is dropped
by the next one, and what comes out is the trades of the matches that were taken whole.

## Main definitions

* `Match` — the two halves of a match.
* `TradePairer.takeBatches` — take the batches that are wanted.
-/

set_option autoImplicit false
set_option linter.unusedSectionVars false

namespace HlOrderbook

/-- A match: a buy and a sell of one coin and one trade, of which one crossed the
spread, and which of the two is written first. -/
structure Match where
  bid : NodeDataFill
  ask : NodeDataFill
  bidFirst : Bool
  bid_side : bid.fill.side = .bid
  ask_side : ask.fill.side = .ask
  coin_eq : bid.fill.coin = ask.fill.coin
  tid_eq : bid.fill.tid = ask.fill.tid
  crossed : bid.fill.crossed = !ask.fill.crossed

namespace Match

/-- The trade of a match. -/
def tid (m : Match) : ℕ := m.bid.fill.tid

/-- The coin of a match. -/
def coin (m : Match) : Coin := m.bid.fill.coin

/-- The halves as they are written. -/
def legs (m : Match) : List NodeDataFill := if m.bidFirst then [m.bid, m.ask] else [m.ask, m.bid]

/-- What clients are to see of a match: the buyer and the seller, and the side of the half
that crossed the spread. -/
def trade (m : Match) : Trade where
  coin := m.coin
  side := if m.bid.fill.crossed then .bid else .ask
  px := m.ask.fill.px
  sz := m.ask.fill.sz
  hash := m.ask.fill.hash
  time := m.ask.fill.time
  tid := m.tid
  users := (m.bid.user, m.ask.user)

/-- A match is taken whole. -/
def TakenIn (m : Match) (taken : List NodeDataFill) : Prop := m.bid ∈ taken ∧ m.ask ∈ taken

instance (m : Match) (taken : List NodeDataFill) : Decidable (m.TakenIn taken) :=
  inferInstanceAs (Decidable (_ ∧ _))

theorem tid_of_mem_legs {m : Match} {f : NodeDataFill} (h : f ∈ m.legs) : f.fill.tid = m.tid := by
  rw [legs] at h
  split at h <;> rcases List.mem_pair.mp h with rfl | rfl
  · rfl
  · exact m.tid_eq.symm
  · exact m.tid_eq.symm
  · rfl

theorem mem_legs {m : Match} {f : NodeDataFill} : f ∈ m.legs ↔ f = m.bid ∨ f = m.ask := by
  rw [legs]
  split
  · exact List.mem_pair
  · rw [List.mem_pair, or_comm]

theorem bid_ne_ask (m : Match) : m.bid ≠ m.ask := by
  intro h
  have := m.bid_side
  rw [h, m.ask_side] at this
  cases this

/-- A match is taken whole when both halves are, in whichever order they are written. -/
theorem takenIn_iff {m : Match} {taken : List NodeDataFill} :
    m.TakenIn taken ↔ ∀ f ∈ m.legs, f ∈ taken := by
  simp only [TakenIn, mem_legs, forall_eq_or_imp, forall_eq]

/-- The trade of the two halves. -/
theorem fromFills_eq (m : Match) : Trade.fromFills m.bid m.ask = some m.trade := by
  have hcrossed : (if m.ask.fill.crossed then Side.ask else Side.bid) =
      if m.bid.fill.crossed then Side.bid else Side.ask := by
    rw [m.crossed]
    cases m.ask.fill.crossed <;> rfl
  simp [Trade.fromFills, m.coin_eq, m.tid_eq, m.bid_side, m.ask_side, trade, coin, tid, hcrossed]

end Match

namespace TradePairer

/-! ## Halves -/

variable {m : Match} {p : TradePairer} {f : NodeDataFill}

/-- A half whose other half is not waiting takes the place of what waits. -/
theorem pair_of_stale (h : ∀ g ∈ p.prev, g.fill.tid ≠ f.fill.tid) : p.pair f = (⟨some f⟩, none) := by
  cases hp : p.prev with
  | none => simp [pair, hp]
  | some g => simp [pair, hp, h g hp]

/-- **The two halves of a match**, in either order, give its trade. -/
theorem pairAll_legs (h : ∀ g ∈ p.prev, g.fill.tid ≠ m.tid) :
    pairAll m.legs p = (⟨none⟩, [m.trade]) := by
  have hask : m.ask.fill.side ≠ .bid := by simp [m.ask_side]
  rw [Match.legs]
  split
  · have hfirst : p.pair m.bid = (⟨some m.bid⟩, none) := pair_of_stale h
    have hsecond : (⟨some m.bid⟩ : TradePairer).pair m.ask = (⟨none⟩, some m.trade) := by
      simp [pair, m.tid_eq, hask, m.fromFills_eq]
    simp [pairAll, hfirst, hsecond]
  · have hfirst : p.pair m.ask = (⟨some m.ask⟩, none) :=
      pair_of_stale fun g hg heq => h g hg (heq.trans m.tid_eq.symm)
    have hsecond : (⟨some m.ask⟩ : TradePairer).pair m.bid = (⟨none⟩, some m.trade) := by
      simp [pair, m.tid_eq, m.bid_side, m.fromFills_eq]
    simp [pairAll, hfirst, hsecond]

/-- A part of a match gives its trade when it is the whole match; otherwise at most its
half waits. -/
theorem pairAll_part {part : List NodeDataFill} (hpart : part.Sublist m.legs)
    (h : ∀ g ∈ p.prev, g.fill.tid ≠ m.tid) :
    (pairAll part p).2 = (if m.TakenIn part then [m.trade] else []) ∧
      ∀ g ∈ (pairAll part p).1.prev, g ∈ p.prev ∨ g.fill.tid = m.tid := by
  rcases Nat.lt_or_ge part.length 2 with hshort | hlong
  · have hnot : ¬ m.TakenIn part := by
      rintro ⟨hbid, hask⟩
      cases part with
      | nil => cases hbid
      | cons f rest =>
        rw [List.length_cons] at hshort
        obtain rfl : rest = [] := List.length_eq_zero_iff.mp (by omega)
        exact m.bid_ne_ask ((List.mem_singleton.mp hbid).trans (List.mem_singleton.mp hask).symm)
    rw [if_neg hnot]
    cases part with
    | nil => exact ⟨rfl, fun g hg => Or.inl hg⟩
    | cons f rest =>
      rw [List.length_cons] at hshort
      obtain rfl : rest = [] := List.length_eq_zero_iff.mp (by omega)
      have htid : f.fill.tid = m.tid :=
        Match.tid_of_mem_legs (hpart.subset (List.mem_singleton_self f))
      have hpair : p.pair f = (⟨some f⟩, none) :=
        pair_of_stale fun g hg heq => h g hg (heq.trans htid)
      refine ⟨by simp [pairAll, hpair], fun g hg => Or.inr ?_⟩
      have hheld : f = g := by simpa [pairAll, hpair] using hg
      exact hheld ▸ htid
  · have hlegs : m.legs.length = 2 := by
      rw [Match.legs]
      split <;> rfl
    have hwhole : part = m.legs := hpart.eq_of_length_le (by omega)
    have htaken : m.TakenIn part := Match.takenIn_iff.mpr fun f hf => hwhole ▸ hf
    rw [if_pos htaken, hwhole, pairAll_legs h]
    exact ⟨rfl, fun g hg => by cases hg⟩

/-! ## The stream -/

theorem tid_of_mem_flatMap {stream : List Match} {f : NodeDataFill}
    (h : f ∈ stream.flatMap Match.legs) : f.fill.tid ∈ stream.map Match.tid := by
  obtain ⟨m, hm, hf⟩ := List.mem_flatMap.mp h
  rw [Match.tid_of_mem_legs hf]
  exact List.mem_map_of_mem hm

/-- **Whatever halves of a stream are taken, the trades are those of the matches taken
whole, in the order of the stream.**  The induction is on the stream; what waits belongs
to no match that is still to come. -/
theorem pairAll_sublist {stream : List Match} (hnodup : (stream.map Match.tid).Nodup)
    {taken : List NodeDataFill} (htaken : taken.Sublist (stream.flatMap Match.legs))
    {p : TradePairer} (hstale : ∀ g ∈ p.prev, g.fill.tid ∉ stream.map Match.tid) :
    (pairAll taken p).2 = (stream.filter fun m => m.TakenIn taken).map Match.trade := by
  induction stream generalizing taken p with
  | nil =>
    rw [List.flatMap_nil, List.sublist_nil] at htaken
    rw [htaken]
    rfl
  | cons m stream ih =>
    rw [List.map_cons, List.nodup_cons] at hnodup
    rw [List.flatMap_cons, List.sublist_append_iff] at htaken
    obtain ⟨part, rest, rfl, hpart, hrest⟩ := htaken
    have hprev : ∀ g ∈ p.prev, g.fill.tid ≠ m.tid := fun g hg heq =>
      hstale g hg (by rw [heq]; exact List.mem_cons_self)
    obtain ⟨htrades, hheld⟩ := pairAll_part hpart hprev
    have hstill : ∀ g ∈ (pairAll part p).1.prev, g.fill.tid ∉ stream.map Match.tid := by
      intro g hg hmem
      rcases hheld g hg with hold | htid
      · exact hstale g hold (List.mem_cons_of_mem _ hmem)
      · exact hnodup.1 (htid ▸ hmem)
    -- the halves of a match are among those of its part of the stream
    have hhead : m.TakenIn (part ++ rest) ↔ m.TakenIn part := by
      have hnot : ∀ f ∈ m.legs, f ∉ rest := fun f hf hmem =>
        hnodup.1 (Match.tid_of_mem_legs hf ▸ tid_of_mem_flatMap (hrest.subset hmem))
      simp only [Match.takenIn_iff, List.mem_append]
      exact forall₂_congr fun f hf => or_iff_left (hnot f hf)
    have htail : ∀ m' ∈ stream, m'.TakenIn (part ++ rest) ↔ m'.TakenIn rest := by
      intro m' hm'
      have hnot : ∀ f ∈ m'.legs, f ∉ part := fun f hf hmem => by
        have heq := Match.tid_of_mem_legs (hpart.subset hmem)
        rw [Match.tid_of_mem_legs hf] at heq
        exact hnodup.1 (heq ▸ List.mem_map_of_mem hm')
      simp only [Match.takenIn_iff, List.mem_append]
      exact forall₂_congr fun f hf => or_iff_right (hnot f hf)
    have hfilter : stream.filter (fun m' => m'.TakenIn (part ++ rest)) =
        stream.filter fun m' => m'.TakenIn rest :=
      List.filter_congr fun m' hm' => decide_eq_decide.mpr (htail m' hm')
    rw [pairAll_append, htrades, ih hnodup.2 hrest hstill, List.filter_cons, hfilter]
    by_cases hwhole : m.TakenIn part
    · simp [hwhole, hhead]
    · simp [hwhole, hhead]

/-! ## Batches -/

/-- Take the batches that are wanted, and group the trades of each by coin. -/
def takeBatches : List (Bool × List NodeDataFill) → TradePairer →
    TradePairer × List (Std.ExtTreeMap Coin (List Trade))
  | [], p => (p, [])
  | (wanted, fills) :: batches, p =>
    if wanted then
      let (p, byCoin) := p.group fills
      let (p, more) := takeBatches batches p
      (p, byCoin :: more)
    else takeBatches batches p

/-- The fills of the batches that are wanted. -/
def takenOf (batches : List (Bool × List NodeDataFill)) : List NodeDataFill :=
  (batches.filter Prod.fst).flatMap Prod.snd

theorem takenOf_cons (wanted : Bool) (fills : List NodeDataFill)
    (batches : List (Bool × List NodeDataFill)) :
    takenOf ((wanted, fills) :: batches) = (if wanted then fills else []) ++ takenOf batches := by
  cases wanted <;> simp [takenOf]

theorem takenOf_sublist (batches : List (Bool × List NodeDataFill)) :
    (takenOf batches).Sublist (batches.flatMap Prod.snd) := by
  induction batches with
  | nil => exact .slnil
  | cons batch batches ih =>
    rw [takenOf_cons, List.flatMap_cons]
    refine .append ?_ ih
    split
    · exact .refl _
    · exact List.nil_sublist _

theorem getD_group (p : TradePairer) (fills : List NodeDataFill) (c : Coin) :
    ((p.group fills).2[c]?).getD [] = (pairAll fills p).2.filter fun trade => trade.coin = c := by
  rw [group, getElem?_groupBy, groupOf]
  split
  case isTrue hnone => exact hnone.symm
  case isFalse => rfl

/-- The batches do what their fills would do as one. -/
theorem takeBatches_eq (batches : List (Bool × List NodeDataFill)) (p : TradePairer) :
    (takeBatches batches p).1 = (pairAll (takenOf batches) p).1 ∧
    ∀ c, (takeBatches batches p).2.flatMap (fun byCoin => (byCoin[c]?).getD []) =
      (pairAll (takenOf batches) p).2.filter fun trade => trade.coin = c := by
  induction batches generalizing p with
  | nil => exact ⟨rfl, fun c => rfl⟩
  | cons batch batches ih =>
    obtain ⟨wanted, fills⟩ := batch
    rw [takenOf_cons]
    cases wanted with
    | false => exact ih p
    | true =>
      obtain ⟨hlast, htrades⟩ := ih (pairAll fills p).1
      simp only [if_true, pairAll_append]
      refine ⟨hlast, fun c => ?_⟩
      rw [List.filter_append, ← htrades c, ← getD_group]
      rfl

/-- What waits is the fill that was taken last. -/
theorem getLast?_of_held {taken : List NodeDataFill} {f : NodeDataFill}
    (h : f ∈ (pairAll taken ⟨none⟩).1.prev) : taken.getLast? = some f := by
  rcases List.eq_nil_or_concat taken with rfl | ⟨taken, last, rfl⟩
  · cases h
  · rw [List.concat_eq_append] at h ⊢
    rw [pairAll_append] at h
    have hlast : ∀ {p : TradePairer}, f ∈ (pairAll [last] p).1.prev → f = last := by
      intro p hf
      cases hp : p.prev with
      | none => simpa [pairAll, pair, hp, eq_comm] using hf
      | some g =>
        by_cases htid : g.fill.tid = last.fill.tid
        · simp [pairAll, pair, hp, htid] at hf
        · simpa [pairAll, pair, hp, htid, eq_comm] using hf
    rw [List.getLast?_concat, hlast h]

/-- **Trades.**  However a stream of matches is cut into batches, and whichever batches are
left out, the trades of a coin are those of the matches of that coin taken whole, each
once and in the order of the stream; and at any moment one fill waits at most, the one
taken last. -/
theorem trades_of_batches {stream : List Match} (hnodup : (stream.map Match.tid).Nodup)
    {batches : List (Bool × List NodeDataFill)}
    (hbatches : batches.flatMap Prod.snd = stream.flatMap Match.legs) :
    (∀ c, (takeBatches batches ⟨none⟩).2.flatMap (fun byCoin => (byCoin[c]?).getD []) =
      (stream.filter fun m => m.coin = c ∧ m.TakenIn (takenOf batches)).map Match.trade) ∧
    ∀ before after, takenOf batches = before ++ after →
      ∀ f ∈ (pairAll before ⟨none⟩).1.prev, before.getLast? = some f := by
  refine ⟨fun c => ?_, fun before after _ f hf => getLast?_of_held hf⟩
  have hsub : (takenOf batches).Sublist (stream.flatMap Match.legs) :=
    hbatches ▸ takenOf_sublist batches
  have htrades := pairAll_sublist hnodup hsub (p := ⟨none⟩) nofun
  rw [(takeBatches_eq batches ⟨none⟩).2 c, htrades, List.filter_map, List.filter_filter]
  congr 1
  apply List.filter_congr
  intro m _
  rw [Bool.decide_and]
  rfl

end TradePairer

/-! ## The listener -/

section Listener

open OrderBookListener

variable [SlabPolicy] [FixedPoint]

/-- **A batch of fills that is applied** is taken when trades are wanted, and left out
otherwise; what is sent are its trades. -/
theorem applyToState_fills (env : Env) (l : OrderBookListener) (state : OrderBookState)
    (batch : Batch NodeDataFill) :
    let r := TradePairer.takeBatches
      [(l.internalMessageTx && env.wants .trades, batch.events)] l.tradePairer
    (l.applyToState env state (.fills batch)).1.tradePairer = r.1 ∧
    (l.applyToState env state (.fills batch)).2.1 =
      (r.2.filter fun byCoin => !byCoin.isEmpty).map .fills := by
  simp only [applyToState, TradePairer.takeBatches]
  cases l.internalMessageTx && env.wants .trades with
  | false => exact ⟨rfl, rfl⟩
  | true =>
    refine ⟨rfl, ?_⟩
    simp only [if_true]
    split
    case isTrue hempty => simp [hempty]
    case isFalse hsome => simp [hsome]

end Listener

end HlOrderbook

namespace HlOrderbook

section Example

/-- A match of two accounts, the seller's half first when told so. -/
def matchOf (coin : Coin) (tid : ℕ) (bidFirst bidCrossed : Bool) : Match where
  bid := ⟨1, ⟨coin, "5", "1", .bid, 0, "", bidCrossed, tid⟩⟩
  ask := ⟨2, ⟨coin, "5", "1", .ask, 0, "", !bidCrossed, tid⟩⟩
  bidFirst := bidFirst
  bid_side := rfl
  ask_side := rfl
  coin_eq := rfl
  tid_eq := rfl
  crossed := by simp

/-- Four matches, cut within the first and within the third; the batch with the second
half of the third is left out. -/
def fourMatches : List (Bool × List NodeDataFill) :=
  let m (tid : ℕ) (bidFirst : Bool) : Match := matchOf "BTC" tid bidFirst bidFirst
  [(true, [(m 1 true).bid]), (true, [(m 1 true).ask, (m 2 false).ask, (m 2 false).bid, (m 3 true).bid]),
    (false, [(m 3 true).ask]), (true, [(m 4 false).ask, (m 4 false).bid])]

theorem trades_fourMatches :
    ((TradePairer.takeBatches fourMatches ⟨none⟩).2.flatMap fun byCoin =>
      (byCoin["BTC"]?).getD []).map (fun trade => (trade.tid, trade.side, trade.users)) =
      [(1, .bid, (1, 2)), (2, .ask, (1, 2)), (4, .ask, (1, 2))] := by
  have hcut : fourMatches.flatMap Prod.snd = [matchOf "BTC" 1 true true,
      matchOf "BTC" 2 false false, matchOf "BTC" 3 true true, matchOf "BTC" 4 false false].flatMap
        Match.legs := rfl
  rw [(TradePairer.trades_of_batches (by decide) hcut).1 "BTC"]
  decide

end Example

end HlOrderbook
