import HlOrderbook.NodeHistory
import Mathlib.Data.List.Infix

/-!
# Replaying a history over a later snapshot

The state is built from the snapshot of one height and then applies the blocks
above a lower height, so that part of the history is applied a second time.  The
orders it places again are matched for real, against a book that holds orders the
node placed later.  When no order that is placed again and gone by the snapshot's
height crosses an order that only the snapshot knows, the replay heals; else it
need not.

## Main definitions

* `Block.inputs`, `replay` — applying blocks in order, statuses before diffs.
* `Replays x R R'` — what a diff does to the book of a server.
* `InWindow`, `InTail` — the invariants below and above the snapshot's height.
* `Harmless` — when the replay heals.
-/

set_option autoImplicit false
set_option linter.unusedSectionVars false

namespace HlOrderbook

/-- The batches of a block, the statuses first. -/
def Block.inputs (clock : ℕ → ℕ) (B : Block) : List Input :=
  [.statuses (clock B.number) ⟨B.time, B.number, B.statuses⟩,
    .diffs (clock B.number) ⟨B.time, B.number, B.diffs⟩]

variable [SlabPolicy] [FixedPoint]

/-- Apply blocks one after the other, at the instants of a clock. -/
def replay (clock : ℕ → ℕ) (blocks : List Block) (s : OrderBookState) :
    Except Failure OrderBookState := runInputs (blocks.flatMap (Block.inputs clock)) s

/-! ## One block -/

/-- What a diff of a block does to the book of a server: an order it places is
dropped when its identifier rests already. -/
def Replays (x : BlockDiff) (R R' : QuoteBook) : Prop :=
  match InnerOrderDiff.tryFrom x.2.rawBookDiff with
  | some (.new sz _) => ∃ p, x.1.place x.2.oid = some p ∧
    if (R x.2.coin x.2.oid).isSome then R' = R
    else QuoteBook.Rested R x.2.coin x.2.oid (p.1, p.2, sz) R'
  | _ => R' = Block.step R x

/-- A state in which no diff waits for its status. -/
structure Settled (ignoreSpot : Bool) (R : QuoteBook) (s : OrderBookState) : Prop where
  noDiffs : s.pendingNewDiffs = ∅
  ignoreSpot : s.ignoreSpot = ignoreSpot
  resting : s.resting = R

section Block

variable {blocks : List Block} {ignoreSpot : Bool} {R : QuoteBook} {s : OrderBookState}

theorem Settled.advance (h : Settled ignoreSpot R s) (height time : ℕ) :
    Settled ignoreSpot R (s.advance height time) where
  noDiffs := by simpa using h.noDiffs
  ignoreSpot := by simpa using h.ignoreSpot
  resting := by
    rw [← h.resting]
    funext c k
    simp [OrderBookState.resting]

theorem Settled.forgetZeroed (h : Settled ignoreSpot R s) (height : ℕ) :
    Settled ignoreSpot R (s.forgetZeroed height) := ⟨h.noDiffs, h.ignoreSpot, h.resting⟩

/-- A status of a settled state waits for its diff, or is dropped. -/
theorem Settled.status (h : Settled ignoreSpot R s) (now : ℕ) (st : NodeDataOrderStatus) :
    ∃ s', s.applyOrderStatus now st = (s', .ok []) ∧ Settled ignoreSpot R s' ∧
      ∀ k, (s'.pendingOrderStatuses[k]?).map Prod.fst =
        if st.isInsertedIntoBook = true ∧ st.order.oid = k then some st
        else (s.pendingOrderStatuses[k]?).map Prod.fst := by
  have hrest : (s.trackStatus st).resting = R := by
    rw [← h.resting]
    funext c k
    simp [OrderBookState.resting]
  have hnone : (s.trackStatus st).pendingNewDiffs[st.order.oid]? = none := by
    simp [h.noDiffs]
  simp only [OrderBookState.applyOrderStatus, hnone]
  by_cases hins : st.isInsertedIntoBook = true
  · rw [if_pos hins]
    refine ⟨_, rfl, ⟨by simpa using h.noDiffs, by simpa using h.ignoreSpot, hrest⟩, fun k => ?_⟩
    by_cases hk : st.order.oid = k
    · simp [hins, hk]
    · simp [Std.ExtTreeMap.getElem?_insert, hk]
  · rw [if_neg hins]
    refine ⟨_, rfl, ⟨by simpa using h.noDiffs, by simpa using h.ignoreSpot, hrest⟩, fun k => ?_⟩
    simp [hins]

/-- **The statuses of a block rest nothing, and each that rests an order waits.** -/
theorem Settled.statuses (h : Settled ignoreSpot R s) (now : ℕ) (B : Block) :
    ∃ s' changed, s.applyOrderStatusesHft now ⟨B.time, B.number, B.statuses⟩ = (s', .ok changed) ∧
      Settled ignoreSpot R s' ∧ ∀ st ∈ B.statuses, st.isInsertedIntoBook = true →
        (∀ st' ∈ B.statuses, st'.isInsertedIntoBook = true → st'.order.oid = st.order.oid →
          st' = st) →
        (s'.pendingOrderStatuses[st.order.oid]?).map Prod.fst = some st := by
  obtain ⟨s', changed, hs', hP⟩ := OrderBookState.applyAll_ok (OrderBookState.applyOrderStatus now)
    (fun done s => Settled ignoreSpot R s ∧ ∀ st ∈ done, st.isInsertedIntoBook = true →
      (∀ st' ∈ B.statuses, st'.isInsertedIntoBook = true → st'.order.oid = st.order.oid →
        st' = st) →
      (s.pendingOrderStatuses[st.order.oid]?).map Prod.fst = some st)
    B.statuses (D := []) ∅ ⟨h.advance B.number (Batch.time ⟨B.time, B.number, B.statuses⟩),
      by simp⟩ (by
      intro pre st post s hsplit hs
      obtain ⟨s', happly, hsettled, hpending⟩ := hs.1.status now st
      refine ⟨s', [], happly, hsettled, ?_⟩
      intro st' hst' hins huniq
      rw [hpending]
      by_cases hx : st.isInsertedIntoBook = true ∧ st.order.oid = st'.order.oid
      · have hmem : st ∈ B.statuses := by
          rw [List.nil_append] at hsplit
          simp [hsplit]
        rw [if_pos hx, huniq st hmem hx.1 hx.2]
      · rw [if_neg hx]
        rcases List.mem_append.mp hst' with hpre | hlast
        · exact hs.2 st' hpre hins huniq
        · rw [List.mem_singleton.mp hlast] at hx hins
          exact absurd ⟨hins, rfl⟩ hx)
  exact ⟨s', changed, hs', by simpa using hP⟩

/-- **One diff of a valid history, on a settled state.** -/
theorem Settled.diff (V : ValidHistory blocks) (h : Settled ignoreSpot R s) {x : BlockDiff}
    (hx : x ∈ diffsOf blocks) (hcoin : (x.2.coin.isSpot && ignoreSpot) = false)
    (hopen : x.isNew = true →
      (s.pendingOrderStatuses[x.2.oid]?).map Prod.fst = x.1.opening x.2.oid)
    (now height : ℕ) : ∃ s' coins R', s.applyOrderDiff now height x.2 = (s', .ok coins) ∧
      Replays x R R' ∧ Settled ignoreSpot R' s' ∧
      ∀ k, k ≠ x.2.oid → s'.pendingOrderStatuses[k]? = s.pendingOrderStatuses[k]? := by
  obtain ⟨inner, hp⟩ := Option.ne_none_iff_exists'.mp (V.parses x hx)
  have hidle : ∀ (s₁ : OrderBookState) (newSz : Option ℕ), s₁.pendingNewDiffs = ∅ →
      s₁.applyDiffToPendingNew x.2.oid newSz = s₁ := by
    intro s₁ newSz h₁
    simp [OrderBookState.applyDiffToPendingNew, h₁]
  have hspot : (x.2.coin.isSpot && s.ignoreSpot) = false := by
    rw [h.ignoreSpot, hcoin]
  simp only [OrderBookState.applyOrderDiff, hspot, Bool.false_eq_true, if_false, hp, Replays]
  cases inner with
  | new sz anchor =>
    have hnew : x.isNew = true := InnerOrderDiff.isNew_of_tryFrom hp
    obtain ⟨st, inner, hst, hinner, hic, hio, hcoin, htime, hplace, -⟩ := V.opening_eq hx hnew
    obtain ⟨⟨st₁, since⟩, hpending, hst₁⟩ := Option.map_eq_some_iff.mp ((hopen hnew).trans hst)
    obtain rfl : st = st₁ := hst₁.symm
    have hneg : ¬ st.time < 0 := by omega
    simp only [OrderBookState.applyInnerDiff, hpending, hinner, hneg, if_false]
    set s₁ : OrderBookState :=
      { s with pendingOrderStatuses := s.pendingOrderStatuses.erase x.2.oid } with hs₁
    have hr₁ : s₁.resting = R := h.resting
    have hpos : 0 < sz := V.positive x hx sz anchor hp
    refine ⟨_, _, _, rfl, ⟨_, hplace, ?_⟩,
      ⟨by simpa [hs₁] using h.noDiffs, by simpa [hs₁] using h.ignoreSpot, rfl⟩, fun k hk => ?_⟩
    · split
      case isTrue hsome =>
        rw [OrderBookState.resting_restPaired_duplicate (by rw [hic, hio, hr₁]; exact hsome), hr₁]
      case isFalse hnone =>
        have hfree : s₁.resting inner.coin inner.oid = none := by
          rw [hic, hio, hr₁]
          simpa using hnone
        have hrested := OrderBookState.rested_restPaired hfree hpos anchor st.time.toNat
        rwa [hic, hio, hr₁] at hrested
    · simp [hs₁, Std.ExtTreeMap.getElem?_erase, hk.symm]
  | update origSz newSz =>
    set s₁ : OrderBookState :=
      { s with orderBook := (s.orderBook.modifySz x.2.oid x.2.coin newSz).1 } with hs₁
    have hr₁ : s₁.resting = Block.step R x := by
      rw [hs₁, s.resting_modifySz, h.resting]
      simp only [Block.step, hp]
    have hsettled : Settled ignoreSpot (Block.step R x) s₁ := ⟨h.noDiffs, h.ignoreSpot, hr₁⟩
    unfold OrderBookState.applyInnerDiff
    simp only [← hs₁]
    split
    · split
      · obtain ⟨q, set', heq⟩ := s₁.noteZeroed_eq height x.2.oid
        rw [heq]
        exact ⟨_, _, _, rfl, rfl, ⟨hsettled.1, hsettled.2, hsettled.3⟩, fun _ _ => rfl⟩
      · exact ⟨_, _, _, rfl, rfl, hsettled, fun _ _ => rfl⟩
    · rw [hidle s₁ _ h.noDiffs]
      exact ⟨_, _, _, rfl, rfl, hsettled, fun _ _ => rfl⟩
  | remove =>
    set s₁ : OrderBookState :=
      { s with orderBook := (s.orderBook.cancelOrder x.2.oid x.2.coin).1 } with hs₁
    have hr₁ : s₁.resting = Block.step R x := by
      rw [hs₁, s.resting_cancelOrder, h.resting]
      simp only [Block.step, hp]
    have hsettled : Settled ignoreSpot (Block.step R x) s₁ := ⟨h.noDiffs, h.ignoreSpot, hr₁⟩
    unfold OrderBookState.applyInnerDiff
    simp only [← hs₁]
    split
    · exact ⟨_, _, _, rfl, rfl, hsettled, fun _ _ => rfl⟩
    · split
      · exact ⟨_, _, _, rfl, rfl, ⟨hsettled.1, hsettled.2, hsettled.3⟩, fun _ _ => rfl⟩
      · rw [hidle s₁ _ h.noDiffs]
        exact ⟨_, _, _, rfl, rfl, hsettled, fun _ _ => rfl⟩

/-! ## The replay rule -/

/-- A diff of a coin the server ignores changes nothing. -/
theorem Settled.skip (h : Settled ignoreSpot R s) {d : NodeDataOrderDiff}
    (hcoin : (d.coin.isSpot && ignoreSpot) = true) (now height : ℕ) :
    s.applyOrderDiff now height d = (s, .ok []) := by
  have hspot : (d.coin.isSpot && s.ignoreSpot) = true := by
    rw [h.ignoreSpot, hcoin]
  simp only [OrderBookState.applyOrderDiff, hspot, if_true]

/-- **One block.**  An invariant of the diffs replayed and the book, kept by every
diff, is kept by the block. -/
theorem Settled.block (V : ValidHistory blocks) (Inv : List BlockDiff → QuoteBook → Prop)
    {pre window post done todo : List Block} {B : Block} (hblocks : blocks = pre ++ window ++ post)
    (hwindow : window = done ++ B :: todo)
    (hstep : ∀ w x E R R', diffsOf window = w ++ x :: E →
      (x.2.coin.isSpot && ignoreSpot) = false → Replays x R R' → Inv w R → Inv (w ++ [x]) R')
    (hskip : ∀ w x E R, diffsOf window = w ++ x :: E →
      (x.2.coin.isSpot && ignoreSpot) = true → Inv w R → Inv (w ++ [x]) R)
    (hR : Inv (diffsOf done) R) (h : Settled ignoreSpot R s) (clock : ℕ → ℕ) (rest : List Input) :
    ∃ s' R', runInputs (B.inputs clock ++ rest) s = runInputs rest s' ∧
      Settled ignoreSpot R' s' ∧ Inv (diffsOf (done ++ [B])) R' := by
  obtain ⟨s₁, changed₁, happly₁, hs₁, hpending⟩ := h.statuses (clock B.number) B
  have hw : ∀ {D d E}, B.diffs = D ++ d :: E → diffsOf window =
      (diffsOf done ++ D.map fun d => (B, d)) ++
        (B, d) :: (E.map (fun d => (B, d)) ++ diffsOf todo) := by
    intro D d E hd
    simp [hwindow, diffsOf, hd]
  obtain ⟨s', changed', happly', R', hR', hs', -⟩ := OrderBookState.applyAll_ok
    (OrderBookState.applyOrderDiff (clock B.number) B.number)
    (fun D s => ∃ R, Inv (diffsOf done ++ D.map fun d => (B, d)) R ∧ Settled ignoreSpot R s ∧
      ∀ k, (∀ d ∈ D, d.oid ≠ k) → s.pendingOrderStatuses[k]? = s₁.pendingOrderStatuses[k]?)
    B.diffs (D := []) ∅
    (s := (s₁.forgetZeroed B.number).advance B.number (Batch.time ⟨B.time, B.number, B.diffs⟩))
    ⟨R, by simpa using hR, (hs₁.forgetZeroed _).advance _ _, fun k _ => by
      simp [OrderBookState.forgetZeroed]⟩ (by
      intro D d E s hd hP
      obtain ⟨R, hR, hs, hsame⟩ := hP
      rw [List.nil_append] at hd
      have hx := hw hd
      have hall : diffsOf blocks = (diffsOf pre ++ (diffsOf done ++ D.map fun d => (B, d))) ++
          (B, d) :: ((E.map (fun d => (B, d)) ++ diffsOf todo) ++ diffsOf post) := by
        simp only [diffsOf] at hx
        simp [hblocks, diffsOf, hx]
      have hmem : ((B, d) : BlockDiff) ∈ diffsOf blocks := by
        rw [hall]
        simp
      rw [List.map_append, ← List.append_assoc]
      cases hcoin : d.coin.isSpot && ignoreSpot with
      | true =>
        refine ⟨s, [], hs.skip hcoin _ _, R, hskip _ _ _ _ hx hcoin hR, hs, fun k hk => ?_⟩
        exact hsame k fun d' hd' => hk d' (List.mem_append_left _ hd')
      | false =>
        obtain ⟨s', coins, R', happly, hrep, hs', hother⟩ := hs.diff V hmem hcoin (by
          intro hnew
          obtain ⟨st, -, hst, -, -, -, -, -, -, huniq⟩ := V.opening_eq hmem hnew
          have hst' := List.find?_some hst
          simp only [Bool.and_eq_true, decide_eq_true_eq] at hst'
          have hfresh : ∀ d' ∈ D, d'.oid ≠ d.oid := fun d' hd' =>
            V.newFirst _ _ _ hall hnew (B, d') (List.mem_append_right _
              (List.mem_append_right _ (List.mem_map_of_mem hd')))
          rw [hsame d.oid hfresh, hst, ← hst'.2]
          refine hpending st (List.mem_of_find?_eq_some hst) hst'.1 ?_
          rw [hst'.2]
          exact huniq) (clock B.number) B.number
        refine ⟨s', coins, happly, R', hstep _ _ _ _ _ hx hcoin hrep hR, hs', fun k hk => ?_⟩
        rw [hother k fun hx => hk d (by simp) hx.symm]
        exact hsame k fun d' hd' => hk d' (List.mem_append_left _ hd'))
  refine ⟨s', R', ?_, hs', ?_⟩
  · simp only [Block.inputs, List.cons_append, List.nil_append, runInputs, applyInput, happly₁]
    simp only [OrderBookState.applyOrderDiffsHft, happly']
  · simpa [diffsOf] using hR'

/-- **The replay rule.**  An invariant that every diff of a window keeps is kept by
the replay of the window. -/
theorem replay_ok (V : ValidHistory blocks) (Inv : List BlockDiff → QuoteBook → Prop)
    {pre window post : List Block} (hblocks : blocks = pre ++ window ++ post)
    (hstep : ∀ w x E R R', diffsOf window = w ++ x :: E →
      (x.2.coin.isSpot && ignoreSpot) = false → Replays x R R' → Inv w R → Inv (w ++ [x]) R')
    (hskip : ∀ w x E R, diffsOf window = w ++ x :: E →
      (x.2.coin.isSpot && ignoreSpot) = true → Inv w R → Inv (w ++ [x]) R)
    (hR : Inv [] R) (h : Settled ignoreSpot R s) (clock : ℕ → ℕ) :
    ∃ s' R', replay clock window s = .ok s' ∧ Settled ignoreSpot R' s' ∧
      Inv (diffsOf window) R' := by
  have key : ∀ (todo done : List Block) (R : QuoteBook) (s : OrderBookState),
      window = done ++ todo → Inv (diffsOf done) R → Settled ignoreSpot R s →
      ∃ s' R', replay clock todo s = .ok s' ∧ Settled ignoreSpot R' s' ∧
        Inv (diffsOf window) R' := by
    intro todo
    induction todo with
    | nil =>
      intro done R s hwindow hR h
      exact ⟨s, R, rfl, h, by rw [hwindow, List.append_nil]; exact hR⟩
    | cons B todo ih =>
      intro done R s hwindow hR h
      obtain ⟨s₁, R₁, hrun, hs₁, hR₁⟩ := h.block V Inv hblocks hwindow hstep hskip hR clock
        (todo.flatMap (Block.inputs clock))
      obtain ⟨s', R', hrun', hs', hR'⟩ := ih (done ++ [B]) R₁ s₁ (by simp [hwindow]) hR₁ hs₁
      exact ⟨s', R', by rw [replay, List.flatMap_cons, hrun, ← replay, hrun'], hs', hR'⟩
  exact key window [] R s rfl hR h

end Block

/-! ## What a replayed diff does -/

section Steps

variable {blocks : List Block} {R R' : QuoteBook} {x : BlockDiff}

theorem Replays.cases (V : ValidHistory blocks) (hx : x ∈ diffsOf blocks) (h : Replays x R R') :
    (x.isNew = false ∧ ∃ r, (∀ L, Block.step L x = QuoteBook.resize L x.2.coin x.2.oid r) ∧
      R' = R.resize x.2.coin x.2.oid r) ∨
    (x.isNew = true ∧ ∃ (p : Side × ℕ) (sz : ℕ), x.1.place x.2.oid = some p ∧
      (∀ L, Block.step L x = QuoteBook.put L x.2.coin x.2.oid (p.1, p.2, sz)) ∧
      if (R x.2.coin x.2.oid).isSome then R' = R
      else QuoteBook.Rested R x.2.coin x.2.oid (p.1, p.2, sz) R') := by
  obtain ⟨inner, hp⟩ := Option.ne_none_iff_exists'.mp (V.parses x hx)
  have hnew : x.isNew = inner.isNew := InnerOrderDiff.isNew_of_tryFrom hp
  unfold Replays at h
  rw [hp] at h
  cases inner with
  | new sz anchor =>
    obtain ⟨p, hplace, hR'⟩ := h
    obtain ⟨p', hplace', hstep⟩ := V.step_new hx hp
    rw [hplace, Option.some.injEq] at hplace'
    subst hplace'
    exact Or.inr ⟨hnew, p, sz, hplace, hstep, hR'⟩
  | update origSz newSz =>
    obtain ⟨r, hr⟩ := Block.step_old hnew (V.parses x hx)
    exact Or.inl ⟨hnew, r, hr, by rw [h, hr]⟩
  | remove =>
    obtain ⟨r, hr⟩ := Block.step_old hnew (V.parses x hx)
    exact Or.inl ⟨hnew, r, hr, by rw [h, hr]⟩

/-- A diff changes no other coin. -/
theorem Replays.frame (V : ValidHistory blocks) (hx : x ∈ diffsOf blocks) (h : Replays x R R')
    {c : Coin} (hc : x.2.coin ≠ c) : R' c = R c := by
  obtain ⟨-, r, -, rfl⟩ | ⟨-, p, sz, -, -, hR'⟩ := h.cases V hx
  · funext k
    rw [QuoteBook.resize, if_neg fun hck => hc hck.1]
  · split at hR'
    · rw [hR']
    · exact hR'.frame c hc.symm

end Steps

/-- Some diff of an order other than the one that places it. -/
def Touched (D : List BlockDiff) (c : Coin) (k : ℕ) : Prop :=
  ∃ x ∈ D, x.isNew = false ∧ x.2.coin = c ∧ x.2.oid = k

theorem touched_concat {D : List BlockDiff} {x : BlockDiff} {c : Coin} {k : ℕ} :
    Touched (D ++ [x]) c k ↔ Touched D c k ∨ (x.isNew = false ∧ x.2.coin = c ∧ x.2.oid = k) := by
  constructor
  · rintro ⟨y, hy, h⟩
    rcases List.mem_append.mp hy with hy | hy
    · exact Or.inl ⟨y, hy, h⟩
    · rw [List.mem_singleton.mp hy] at h
      exact Or.inr h
  · rintro (⟨y, hy, h⟩ | h)
    · exact ⟨y, List.mem_append_left _ hy, h⟩
    · exact ⟨x, by simp, h⟩

/-- A diff of another coin changes neither the node's book of a coin nor what was
touched there. -/
theorem other_coin {x : BlockDiff} {c : Coin} (hc : x.2.coin ≠ c) (A w : List BlockDiff) :
    bookAfter (A ++ (w ++ [x])) c = bookAfter (A ++ w) c ∧
      ∀ k, Touched (w ++ [x]) c k ↔ Touched w c k := by
  refine ⟨funext fun k => ?_, fun k => ?_⟩
  · rw [← List.append_assoc, bookAfter_concat, Block.step_other fun hck => hc hck.1]
  · rw [touched_concat]
    exact or_iff_left fun hx => hc hx.2.1

theorem coin_ne {ignoreSpot b : Bool} {x : BlockDiff} {c : Coin}
    (hx : (x.2.coin.isSpot && ignoreSpot) = !b) (hc : (c.isSpot && ignoreSpot) = b) :
    x.2.coin ≠ c := by
  rintro rfl
  rw [hx] at hc
  cases b <;> cases hc

/-! ## The window between the two heights -/

/-- No order that is placed in a window and gone at its end would trade with an
order the book holds at its end. -/
def Safe (A W : List BlockDiff) (c : Coin) (k : ℕ) : Prop :=
  ∀ x ∈ W, x.isNew = true → x.2.coin = c → bookAfter (A ++ W) c x.2.oid = none →
    ∀ p q, x.1.place x.2.oid = some p → bookAfter (A ++ W) c k = some q →
      placesCross p (QuoteBook.place q) = false

/-- The book of a coin after the diffs `w` of the window `W`, when it began as the
node's book at the end of the window.  What rests is known to the node now or at
the end, at its place; an order of the end that no gone order trades with keeps its
size of the end until it is touched; one that was touched has its size of now; and
one that is live now rests. -/
structure InWindow (A W w : List BlockDiff) (c : Coin) (R : QuoteBook) : Prop where
  origin : ∀ k q, R c k = some q →
    (∃ q', bookAfter (A ++ W) c k = some q' ∧ QuoteBook.place q' = QuoteBook.place q) ∨
    ∃ q', bookAfter (A ++ w) c k = some q' ∧ QuoteBook.place q' = QuoteBook.place q
  safe : ∀ k q, Safe A W c k → bookAfter (A ++ W) c k = some q → ¬ Touched w c k → R c k = some q
  touched : ∀ k, (bookAfter (A ++ W) c k).isSome → Touched w c k → R c k = bookAfter (A ++ w) c k
  present : ∀ k, (bookAfter (A ++ W) c k).isSome → (bookAfter (A ++ w) c k).isSome → (R c k).isSome

namespace InWindow

variable {blocks : List Block} {A W w E : List BlockDiff} {c : Coin} {R R' : QuoteBook}
  {x : BlockDiff}

theorem start : InWindow A W [] c (bookAfter (A ++ W)) where
  origin _ q h := Or.inl ⟨q, h, rfl⟩
  safe _ _ _ h _ := h
  touched k _ h := by
    obtain ⟨x, hx, -⟩ := h
    simp at hx
  present _ h _ := h

/-- A diff of another coin. -/
theorem other (hc : x.2.coin ≠ c) (hR : R' c = R c) (h : InWindow A W w c R) :
    InWindow A W (w ++ [x]) c R' := by
  obtain ⟨hL, ht⟩ := other_coin hc A w
  exact ⟨by simpa only [hL, hR] using h.origin, by simpa only [ht, hR] using h.safe,
    by simpa only [hL, ht, hR] using h.touched, by simpa only [hL, hR] using h.present⟩

section Own

variable (V : ValidHistory blocks) (hend : A ++ W <+: diffsOf blocks) (hW : W = w ++ x :: E)
include V hend hW

/-- An order of now and of the end of the window has one place. -/
theorem place_eq {c : Coin} {k : ℕ} {q q' : Side × ℕ × ℕ} (hq : bookAfter (A ++ w) c k = some q)
    (hq' : bookAfter (A ++ W) c k = some q') : QuoteBook.place q' = QuoteBook.place q := by
  have hpart : A ++ W = (A ++ w) ++ x :: E := by simp [hW]
  rw [hpart] at hq' hend
  exact V.samePlace hend hq hq'

/-- An order of the end that has had a diff is live. -/
theorem live {k : ℕ} {q : Side × ℕ × ℕ} (hk : ∃ y ∈ A ++ (w ++ [x]), y.2.oid = k)
    (hq : bookAfter (A ++ W) c k = some q) : ∃ q', bookAfter (A ++ (w ++ [x])) c k = some q' := by
  have hpart : A ++ W = (A ++ (w ++ [x])) ++ E := by simp [hW]
  rw [hpart] at hq hend
  exact V.between hend hk hq

/-- A diff that places no order. -/
theorem resize (hold : x.isNew = false) {r : Option ℕ}
    (hstep : ∀ L, Block.step L x = QuoteBook.resize L x.2.coin x.2.oid r)
    (h : InWindow A W w x.2.coin R) :
    InWindow A W (w ++ [x]) x.2.coin (R.resize x.2.coin x.2.oid r) := by
  have hL : bookAfter (A ++ (w ++ [x])) = (bookAfter (A ++ w)).resize x.2.coin x.2.oid r := by
    rw [← List.append_assoc, bookAfter_concat, hstep]
  have hother : ∀ {k}, x.2.oid ≠ k → ¬ (x.2.coin = x.2.coin ∧ x.2.oid = k) := fun hk hck => hk hck.2
  have htouched : ∀ {k}, x.2.oid ≠ k → (Touched (w ++ [x]) x.2.coin k ↔ Touched w x.2.coin k) := by
    intro k hk
    rw [touched_concat]
    exact or_iff_left fun hx => hk hx.2.2
  have hlive : ∀ {q}, bookAfter (A ++ W) x.2.coin x.2.oid = some q →
      ∃ q', bookAfter (A ++ w) x.2.coin x.2.oid = some q' := by
    intro q hq
    obtain ⟨q', hq'⟩ := live V hend hW ⟨x, by simp, rfl⟩ hq
    rw [hL] at hq'
    obtain ⟨q₁, -, hq₁, -⟩ := QuoteBook.resize_eq_some hq'
    exact ⟨q₁, hq₁⟩
  refine ⟨?_, ?_, ?_, ?_⟩
  · intro k q hq
    rw [hL]
    by_cases hk : x.2.oid = k
    · subst hk
      obtain ⟨q₁, sz, hq₁, rfl, rfl⟩ := QuoteBook.resize_eq_some hq
      rcases h.origin _ _ hq₁ with hleft | ⟨q', hq', hplace⟩
      · exact Or.inl hleft
      · exact Or.inr ⟨(q'.1, q'.2.1, sz), by simp [hq'], hplace⟩
    · rw [QuoteBook.resize_other (hother hk)] at hq ⊢
      exact h.origin k q hq
  · intro k q hsafe hq ht
    by_cases hk : x.2.oid = k
    · exact absurd (touched_concat.mpr (Or.inr ⟨hold, rfl, hk⟩)) ht
    · rw [QuoteBook.resize_other (hother hk)]
      exact h.safe k q hsafe hq ((htouched hk).not.mp ht)
  · intro k hsome ht
    rw [hL]
    by_cases hk : x.2.oid = k
    · subst hk
      obtain ⟨q, hq⟩ := Option.isSome_iff_exists.mp hsome
      obtain ⟨q', hq'⟩ := hlive hq
      obtain ⟨q₁, hq₁⟩ := Option.isSome_iff_exists.mp (h.present _ hsome (by simp [hq']))
      have hplace : QuoteBook.place q₁ = QuoteBook.place q' := by
        rcases h.origin _ _ hq₁ with ⟨q₂, hq₂, h₂⟩ | ⟨q₂, hq₂, h₂⟩
        · rw [← h₂, place_eq V hend hW hq' hq₂]
        · rw [hq', Option.some.injEq] at hq₂
          rw [← h₂, hq₂]
      obtain ⟨h₁, h₂⟩ := Prod.mk.inj hplace
      simp only [QuoteBook.resize_self, hq₁, hq', Option.bind_some, h₁, h₂]
    · rw [QuoteBook.resize_other (hother hk), QuoteBook.resize_other (hother hk)]
      exact h.touched k hsome ((htouched hk).mp ht)
  · intro k hsome hnow
    rw [hL] at hnow
    by_cases hk : x.2.oid = k
    · subst hk
      obtain ⟨q, hq⟩ := Option.isSome_iff_exists.mp hnow
      obtain ⟨q', sz, hq', rfl, -⟩ := QuoteBook.resize_eq_some hq
      obtain ⟨q₁, hq₁⟩ := Option.isSome_iff_exists.mp (h.present _ hsome (by simp [hq']))
      simp [hq₁]
    · rw [QuoteBook.resize_other (hother hk)] at hnow ⊢
      exact h.present k hsome hnow

/-- What the node's book says of an order that is placed: it is new, trades with no order,
and keeps its place to the end of the window. -/
structure Placing (A W w : List BlockDiff) (x : BlockDiff) (p : Side × ℕ) (sz : ℕ) : Prop where
  fresh : bookAfter (A ++ w) x.2.coin x.2.oid = none
  self : bookAfter (A ++ (w ++ [x])) x.2.coin x.2.oid = some (p.1, p.2, sz)
  keeps : ∀ {k}, x.2.oid ≠ k →
    bookAfter (A ++ (w ++ [x])) x.2.coin k = bookAfter (A ++ w) x.2.coin k
  untouched : ¬ Touched w x.2.coin x.2.oid
  touched : ∀ {k}, Touched (w ++ [x]) x.2.coin k ↔ Touched w x.2.coin k
  unmet : ∀ {k q}, bookAfter (A ++ w) x.2.coin k = some q → placesCross p (QuoteBook.place q) = false
  atEnd : ∀ {q}, bookAfter (A ++ W) x.2.coin x.2.oid = some q → p = QuoteBook.place q

theorem placing (hnew : x.isNew = true) {p : Side × ℕ} {sz : ℕ}
    (hstep : ∀ L, Block.step L x = QuoteBook.put L x.2.coin x.2.oid (p.1, p.2, sz)) :
    Placing A W w x p sz := by
  have hL : bookAfter (A ++ (w ++ [x])) =
      (bookAfter (A ++ w)).put x.2.coin x.2.oid (p.1, p.2, sz) := by
    rw [← List.append_assoc, bookAfter_concat, hstep]
  obtain ⟨post, hpost⟩ := id hend
  have hsplit : diffsOf blocks = (A ++ w) ++ x :: (E ++ post) := by simp [← hpost, hW]
  have hfresh : bookAfter (A ++ w) x.2.coin x.2.oid = none := V.fresh hsplit hnew _
  have hnow : A ++ (w ++ [x]) <+: diffsOf blocks := ⟨E ++ post, by simp [hsplit]⟩
  have hself : bookAfter (A ++ (w ++ [x])) x.2.coin x.2.oid = some (p.1, p.2, sz) := by
    rw [hL, QuoteBook.put_self]
  have hkeeps : ∀ {k}, x.2.oid ≠ k →
      bookAfter (A ++ (w ++ [x])) x.2.coin k = bookAfter (A ++ w) x.2.coin k := by
    intro k hk
    rw [hL, QuoteBook.put_other fun hck => hk hck.2]
  refine ⟨hfresh, hself, hkeeps, ?_, ?_, ?_, ?_⟩
  · rintro ⟨y, hy, -, -, hk⟩
    exact V.newFirst _ _ _ hsplit hnew y (List.mem_append_right _ hy) hk
  · intro k
    rw [touched_concat]
    exact or_iff_left fun hx => by simp [hnew] at hx
  · intro k q hq
    have hk : x.2.oid ≠ k := by
      rintro rfl
      rw [hfresh] at hq
      cases hq
    exact (V.uncrossed _ hnow).unmet hself ((hkeeps hk).trans hq)
  · intro q hq
    have hpart : A ++ W = (A ++ (w ++ [x])) ++ E := by simp [hW]
    rw [hpart] at hq hend
    exact (V.samePlace hend hself hq).symm

omit V hend hW in
/-- An order that rests already is not placed again. -/
theorem place_again {p : Side × ℕ} {sz : ℕ} (hx : Placing A W w x p sz)
    (h : InWindow A W w x.2.coin R) (hrests : (R x.2.coin x.2.oid).isSome) :
    InWindow A W (w ++ [x]) x.2.coin R := by
  refine ⟨fun k q hq => ?_, fun k q hsafe hq ht => ?_, fun k hsome ht => ?_,
    fun k hsome hlive => ?_⟩
  · rcases h.origin k q hq with hleft | ⟨q', hq', hplace⟩
    · exact Or.inl hleft
    · have hk : x.2.oid ≠ k := by
        rintro rfl
        rw [hx.fresh] at hq'
        cases hq'
      exact Or.inr ⟨q', (hx.keeps hk).trans hq', hplace⟩
  · exact h.safe k q hsafe hq (hx.touched.not.mp ht)
  · have ht' := hx.touched.mp ht
    have hk : x.2.oid ≠ k := by
      rintro rfl
      exact hx.untouched ht'
    rw [hx.keeps hk, h.touched k hsome ht']
  · by_cases hk : x.2.oid = k
    · exact hk ▸ hrests
    · rw [hx.keeps hk] at hlive
      exact h.present k hsome hlive

/-- An order of the end that is live now, or that nothing gone trades with, stays when
another one is placed. -/
theorem stays_place (hnew : x.isNew = true) {p : Side × ℕ} {sz : ℕ} (hx : Placing A W w x p sz)
    (hp : x.1.place x.2.oid = some p) (h : InWindow A W w x.2.coin R)
    (hR' : QuoteBook.Rested R x.2.coin x.2.oid (p.1, p.2, sz) R') {k : ℕ} {q : Side × ℕ × ℕ}
    (hk : x.2.oid ≠ k) (hq : R x.2.coin k = some q) (hsome : (bookAfter (A ++ W) x.2.coin k).isSome)
    (hcase : (bookAfter (A ++ w) x.2.coin k).isSome ∨ Safe A W x.2.coin k) :
    R' x.2.coin k = some q := by
  obtain ⟨qe, hqe⟩ := Option.isSome_iff_exists.mp hsome
  have hplace : QuoteBook.place q = QuoteBook.place qe := by
    rcases h.origin k q hq with ⟨q₁, hq₁, h₁⟩ | ⟨q₁, hq₁, h₁⟩
    · rw [hqe, Option.some.injEq] at hq₁
      rw [← h₁, hq₁]
    · rw [← h₁, place_eq V hend hW hq₁ hqe]
  refine hR'.unmet k q hk.symm hq ?_
  rw [hplace]
  change placesCross p (QuoteBook.place qe) = false
  rcases hcase with hlive | hsafe
  · obtain ⟨ql, hql⟩ := Option.isSome_iff_exists.mp hlive
    rw [place_eq V hend hW hql hqe]
    exact hx.unmet hql
  · cases hxe : bookAfter (A ++ W) x.2.coin x.2.oid with
    | none => exact hsafe x (by simp [hW]) hnew rfl hxe p qe hp hqe
    | some qx =>
      rw [hx.atEnd hxe]
      exact (V.uncrossed _ hend).unmet hxe hqe

omit hW in
/-- An order of the end that is placed trades with no order that rests. -/
theorem put_of_live {p : Side × ℕ} {sz : ℕ} (hx : Placing A W w x p sz)
    (h : InWindow A W w x.2.coin R)
    (hR' : QuoteBook.Rested R x.2.coin x.2.oid (p.1, p.2, sz) R')
    (hsome : (bookAfter (A ++ W) x.2.coin x.2.oid).isSome) :
    (R' x.2.coin x.2.oid).isSome := by
  obtain ⟨qx, hqx⟩ := Option.isSome_iff_exists.mp hsome
  have hidle := hR'.idle fun k q hq => by
    rcases h.origin k q hq with ⟨q₁, hq₁, h₁⟩ | ⟨q₁, hq₁, h₁⟩
    · rw [← h₁, show QuoteBook.place (p.1, p.2, sz) = QuoteBook.place qx from hx.atEnd hqx]
      exact (V.uncrossed _ hend).unmet hqx hq₁
    · rw [← h₁]
      exact hx.unmet hq₁
  rw [hidle]
  simp

/-- An order that does not rest is placed. -/
theorem place_rests (hnew : x.isNew = true) {p : Side × ℕ} {sz : ℕ} (hx : Placing A W w x p sz)
    (hp : x.1.place x.2.oid = some p) (h : InWindow A W w x.2.coin R)
    (hnone : R x.2.coin x.2.oid = none)
    (hR' : QuoteBook.Rested R x.2.coin x.2.oid (p.1, p.2, sz) R') :
    InWindow A W (w ++ [x]) x.2.coin R' := by
  refine ⟨fun k q hq => ?_, fun k q hsafe hq ht => ?_, fun k hsome ht => ?_,
    fun k hsome hlive => ?_⟩
  · by_cases hk : x.2.oid = k
    · subst hk
      exact Or.inr ⟨_, hx.self, (hR'.taker q hq).symm⟩
    · cases hRk : R x.2.coin k with
      | none =>
        rw [hR'.none k (Ne.symm hk) hRk] at hq
        cases hq
      | some q₁ =>
        rw [hR'.met k q₁ q (Ne.symm hk) hRk hq, hx.keeps hk]
        exact h.origin k q₁ hRk
  · have hR := h.safe k q hsafe hq (hx.touched.not.mp ht)
    have hk : x.2.oid ≠ k := by
      rintro rfl
      rw [hnone] at hR
      cases hR
    exact stays_place V hend hW hnew hx hp h hR' hk hR (by simp [hq]) (Or.inr hsafe)
  · have ht' := hx.touched.mp ht
    have hk : x.2.oid ≠ k := by
      rintro rfl
      exact hx.untouched ht'
    have hR := h.touched k hsome ht'
    rw [hx.keeps hk]
    cases hlive : bookAfter (A ++ w) x.2.coin k with
    | none => exact hR'.none k hk.symm (hR.trans hlive)
    | some q =>
      exact stays_place V hend hW hnew hx hp h hR' hk (hR.trans hlive) hsome
        (Or.inl (by simp [hlive]))
  · by_cases hk : x.2.oid = k
    · subst hk
      exact put_of_live V hend hx h hR' hsome
    · rw [hx.keeps hk] at hlive
      obtain ⟨q, hq⟩ := Option.isSome_iff_exists.mp (h.present k hsome hlive)
      rw [stays_place V hend hW hnew hx hp h hR' hk hq hsome (Or.inl hlive)]
      rfl

/-- A diff that places an order. -/
theorem place (hnew : x.isNew = true) {p : Side × ℕ} {sz : ℕ}
    (hp : x.1.place x.2.oid = some p)
    (hstep : ∀ L, Block.step L x = QuoteBook.put L x.2.coin x.2.oid (p.1, p.2, sz))
    (h : InWindow A W w x.2.coin R)
    (hR' : if (R x.2.coin x.2.oid).isSome then R' = R
      else QuoteBook.Rested R x.2.coin x.2.oid (p.1, p.2, sz) R') :
    InWindow A W (w ++ [x]) x.2.coin R' := by
  have hx : Placing A W w x p sz := placing V hend hW hnew hstep
  split at hR'
  case isTrue hrests =>
    subst hR'
    exact place_again hx h hrests
  case isFalse hnone =>
    exact place_rests V hend hW hnew hx hp h (by simpa using hnone) hR'

end Own

/-- **Every diff of the window keeps the invariant of a coin.** -/
theorem step (V : ValidHistory blocks) (hend : A ++ W <+: diffsOf blocks) (hW : W = w ++ x :: E)
    (hrep : Replays x R R') (h : InWindow A W w c R) : InWindow A W (w ++ [x]) c R' := by
  have hx : x ∈ diffsOf blocks := hend.subset (by simp [hW])
  by_cases hc : x.2.coin = c
  · subst hc
    obtain ⟨hold, r, hstep, rfl⟩ | ⟨hnew, p, sz, hp, hstep, hR'⟩ := hrep.cases V hx
    · exact h.resize V hend hW hold hstep
    · exact h.place V hend hW hnew hp hstep hR'
  · exact h.other hc (hrep.frame V hx hc)

end InWindow

/-! ## Above the snapshot's height -/

/-- The book of a coin after the diffs `z` that follow `D`, when it began with the
orders of the node's book at their places: they stay so, and an order that was
right at the beginning, or was touched since, has its size too. -/
structure InTail (D : List BlockDiff) (right : ℕ → Prop) (z : List BlockDiff) (c : Coin)
    (R : QuoteBook) : Prop where
  place : ∀ k, (R c k).map QuoteBook.place = (bookAfter (D ++ z) c k).map QuoteBook.place
  exact : ∀ k, (bookAfter D c k = none ∨ right k ∨ Touched z c k) → R c k = bookAfter (D ++ z) c k

namespace InTail

variable {blocks : List Block} {D z E : List BlockDiff} {right : ℕ → Prop} {c : Coin}
  {R R' : QuoteBook} {x : BlockDiff}

/-- A diff of another coin. -/
theorem other (hc : x.2.coin ≠ c) (hR : R' c = R c) (h : InTail D right z c R) :
    InTail D right (z ++ [x]) c R' := by
  obtain ⟨hL, ht⟩ := other_coin hc D z
  exact ⟨by simpa only [hL, hR] using h.place, by simpa only [hL, ht, hR] using h.exact⟩

/-- **Every diff above the snapshot's height keeps the invariant of a coin.** -/
theorem step (V : ValidHistory blocks) (hsplit : diffsOf blocks = (D ++ z) ++ x :: E)
    (hrep : Replays x R R') (h : InTail D right z c R) : InTail D right (z ++ [x]) c R' := by
  have hx : x ∈ diffsOf blocks := by simp [hsplit]
  have hnow : (D ++ z) ++ [x] <+: diffsOf blocks := ⟨E, by simp [hsplit]⟩
  have hL : bookAfter (D ++ (z ++ [x])) = Block.step (bookAfter (D ++ z)) x := by
    rw [← List.append_assoc, bookAfter_concat]
  by_cases hc : x.2.coin = c
  · subst hc
    have hother : ∀ {k}, x.2.oid ≠ k → ¬ (x.2.coin = x.2.coin ∧ x.2.oid = k) :=
      fun hk hck => hk hck.2
    have htouched : ∀ {k}, x.2.oid ≠ k →
        (Touched (z ++ [x]) x.2.coin k ↔ Touched z x.2.coin k) := by
      intro k hk
      rw [touched_concat]
      exact or_iff_left fun hx => hk hx.2.2
    obtain ⟨hold, r, hstep, rfl⟩ | ⟨hnew, p, sz, hp, hstep, hR'⟩ := hrep.cases V hx
    · rw [hstep] at hL
      have hself : R.resize x.2.coin x.2.oid r x.2.coin x.2.oid =
          bookAfter (D ++ (z ++ [x])) x.2.coin x.2.oid := by
        have hplace := h.place x.2.oid
        rw [hL, QuoteBook.resize_self, QuoteBook.resize_self]
        cases hRk : R x.2.coin x.2.oid with
        | none =>
          rw [hRk, Option.map_none, eq_comm, Option.map_eq_none_iff] at hplace
          rw [hplace]
        | some q =>
          rw [hRk, Option.map_some, eq_comm, Option.map_eq_some_iff] at hplace
          obtain ⟨q', hq', hplace⟩ := hplace
          obtain ⟨h₁, h₂⟩ := Prod.mk.inj hplace
          simp only [hq', Option.bind_some, h₁, h₂]
      refine ⟨fun k => ?_, fun k hk => ?_⟩
      · by_cases hxk : x.2.oid = k
        · subst hxk
          rw [hself]
        · rw [hL, QuoteBook.resize_other (hother hxk), QuoteBook.resize_other (hother hxk)]
          exact h.place k
      · by_cases hxk : x.2.oid = k
        · subst hxk
          exact hself
        · rw [hL, QuoteBook.resize_other (hother hxk), QuoteBook.resize_other (hother hxk)]
          exact h.exact k (hk.imp_right (Or.imp_right (htouched hxk).mp))
    · rw [hstep] at hL
      have hfresh := V.fresh hsplit hnew x.2.coin
      have hnone : R x.2.coin x.2.oid = none := by
        have hplace := h.place x.2.oid
        rw [hfresh] at hplace
        simpa using hplace
      rw [hnone, Option.isSome_none, if_neg (by simp)] at hR'
      have hidle := hR'.idle fun k q hq => by
        have hplace := h.place k
        rw [hq, Option.map_some, eq_comm, Option.map_eq_some_iff] at hplace
        obtain ⟨q', hq', hplace⟩ := hplace
        have hk : x.2.oid ≠ k := by
          rintro rfl
          rw [hfresh] at hq'
          cases hq'
        have hu := V.uncrossed _ hnow
        rw [bookAfter_concat, hstep] at hu
        rw [← hplace]
        exact hu.unmet (QuoteBook.put_self _ _ _ _) ((QuoteBook.put_other (hother hk) _).trans hq')
      rw [hidle]
      refine ⟨fun k => ?_, fun k hk => ?_⟩
      · by_cases hxk : x.2.oid = k
        · subst hxk
          rw [hL, QuoteBook.put_self, QuoteBook.put_self]
        · rw [hL, QuoteBook.put_other (hother hxk), QuoteBook.put_other (hother hxk)]
          exact h.place k
      · by_cases hxk : x.2.oid = k
        · subst hxk
          rw [hL, QuoteBook.put_self, QuoteBook.put_self]
        · rw [hL, QuoteBook.put_other (hother hxk), QuoteBook.put_other (hother hxk)]
          exact h.exact k (hk.imp_right (Or.imp_right (htouched hxk).mp))
  · exact h.other hc (hrep.frame V hx hc)

end InTail

/-! ## The two replays -/

section Runs

variable {blocks : List Block} {ignoreSpot : Bool} {m n : ℕ} {R : QuoteBook} {s : OrderBookState}

theorem replay_append (clock : ℕ → ℕ) (bs bs' : List Block) {s s' : OrderBookState}
    (h : replay clock bs s = .ok s') : replay clock (bs ++ bs') s = replay clock bs' s' := by
  have key : ∀ (is is' : List Input) (s : OrderBookState), runInputs is s = .ok s' →
      runInputs (is ++ is') s = runInputs is' s' := by
    intro is is'
    induction is with
    | nil =>
      rintro s ⟨⟩
      rfl
    | cons i is ih =>
      intro s hs
      simp only [runInputs, List.cons_append] at hs ⊢
      split
      case h_1 heq =>
        rw [heq] at hs
        exact ih _ hs
      case h_2 heq =>
        rw [heq] at hs
        cases hs
  rw [replay, List.flatMap_append]
  exact key _ _ s h

theorem diffsOf_upTo (V : ValidHistory blocks) (hmn : m ≤ n) :
    diffsOf (upTo n blocks) = diffsOf (upTo m blocks) ++ diffsOf (between m n blocks) := by
  rw [upTo_append_between V.ordered hmn, diffsOf, List.flatMap_append]
  rfl

theorem diffsOf_upTo_isPrefix (V : ValidHistory blocks) (n : ℕ) :
    diffsOf (upTo n blocks) <+: diffsOf blocks := by
  refine ⟨diffsOf (blocks.filter fun B => n < B.number), ?_⟩
  conv_rhs => rw [filter_le_append_filter_lt V.ordered n]
  rw [diffsOf, diffsOf, diffsOf, List.flatMap_append]
  rfl

theorem blocks_split (V : ValidHistory blocks) (hmn : m ≤ n) :
    blocks = upTo m blocks ++ between m n blocks ++ blocks.filter fun B => n < B.number := by
  rw [← upTo_append_between V.ordered hmn]
  exact filter_le_append_filter_lt V.ordered n

/-- Replaying the blocks above a height on a book that has the node's orders of
that height at their places. -/
theorem replay_tail (V : ValidHistory blocks) (hmn : m ≤ n) (right : Coin → ℕ → Prop)
    (hR : ∀ c, (c.isSpot && ignoreSpot) = false →
      InTail (diffsOf (upTo m blocks)) (right c) [] c R)
    (h : Settled ignoreSpot R s) (clock : ℕ → ℕ) :
    ∃ s' R', replay clock (between m n blocks) s = .ok s' ∧ Settled ignoreSpot R' s' ∧
      (∀ c, (c.isSpot && ignoreSpot) = false →
        InTail (diffsOf (upTo m blocks)) (right c) (diffsOf (between m n blocks)) c R') ∧
      ∀ c, (c.isSpot && ignoreSpot) = true → R' c = R c := by
  refine replay_ok V (fun z R' => (∀ c, (c.isSpot && ignoreSpot) = false →
    InTail (diffsOf (upTo m blocks)) (right c) z c R') ∧
      ∀ c, (c.isSpot && ignoreSpot) = true → R' c = R c)
    (blocks_split V hmn) ?_ ?_ ⟨hR, fun _ _ => rfl⟩ h clock
  · intro z x E R₁ R' hz hcoin hrep hinv
    have hsplit : diffsOf blocks = (diffsOf (upTo m blocks) ++ z) ++
        x :: (E ++ diffsOf (blocks.filter fun B => n < B.number)) := by
      conv_lhs => rw [blocks_split V hmn]
      simp only [diffsOf] at hz
      simp [diffsOf, hz]
    refine ⟨fun c hc => (hinv.1 c hc).step V hsplit hrep, fun c hc => ?_⟩
    rw [hrep.frame V (by simp [hsplit]) (coin_ne hcoin hc), hinv.2 c hc]
  · intro z x E R₁ hz hcoin hinv
    exact ⟨fun c hc => (hinv.1 c hc).other (coin_ne hcoin hc) rfl, hinv.2⟩

/-- Replaying the window between the two heights on the book of the second. -/
theorem replay_window (V : ValidHistory blocks) (hmn : m ≤ n)
    (h : Settled ignoreSpot (bookAfter (diffsOf (upTo n blocks))) s) (clock : ℕ → ℕ) :
    ∃ s' R', replay clock (between m n blocks) s = .ok s' ∧ Settled ignoreSpot R' s' ∧
      (∀ c, (c.isSpot && ignoreSpot) = false → InWindow (diffsOf (upTo m blocks))
        (diffsOf (between m n blocks)) (diffsOf (between m n blocks)) c R') ∧
      ∀ c, (c.isSpot && ignoreSpot) = true → R' c = bookAfter (diffsOf (upTo n blocks)) c := by
  have hend : diffsOf (upTo m blocks) ++ diffsOf (between m n blocks) <+: diffsOf blocks :=
    diffsOf_upTo V hmn ▸ diffsOf_upTo_isPrefix V n
  refine replay_ok V (fun w R' => (∀ c, (c.isSpot && ignoreSpot) = false →
    InWindow (diffsOf (upTo m blocks)) (diffsOf (between m n blocks)) w c R') ∧
      ∀ c, (c.isSpot && ignoreSpot) = true → R' c = bookAfter (diffsOf (upTo n blocks)) c)
    (blocks_split V hmn) ?_ ?_ ⟨fun c _ => ?_, fun _ _ => rfl⟩ h clock
  · intro w x E R₁ R' hw hcoin hrep hinv
    refine ⟨fun c hc => (hinv.1 c hc).step V hend hw hrep, fun c hc => ?_⟩
    rw [hrep.frame V (hend.subset (by simp [hw])) (coin_ne hcoin hc), hinv.2 c hc]
  · intro w x E R₁ hw hcoin hinv
    exact ⟨fun c hc => (hinv.1 c hc).other (coin_ne hcoin hc) rfl, hinv.2⟩
  · rw [diffsOf_upTo V hmn]
    exact InWindow.start

end Runs

/-! ## When a replay heals -/

/-- No order that is placed between the two heights, and gone at the second, would
trade with an order of its coin that is placed between them too, is live at the
head and had no diff since it was placed; and the coins whose diffs are skipped
have one book at both heights. -/
structure Harmless (ignoreSpot : Bool) (blocks : List Block) (h c head : ℕ) : Prop where
  apart : ∀ x ∈ diffsOf (between h c blocks), x.isNew = true →
    (x.2.coin.isSpot && ignoreSpot) = false →
    bookAfter (diffsOf (upTo c blocks)) x.2.coin x.2.oid = none →
    ∀ y ∈ diffsOf (between h c blocks), y.isNew = true → y.2.coin = x.2.coin →
    (bookAfter (diffsOf (upTo head blocks)) y.2.coin y.2.oid).isSome →
    ¬ Touched (diffsOf (upTo head blocks)) y.2.coin y.2.oid →
    ∀ p q, x.1.place x.2.oid = some p → y.1.place y.2.oid = some q → placesCross p q = false
  skipped : ∀ coin : Coin, (coin.isSpot && ignoreSpot) = true →
    bookAfter (diffsOf (upTo c blocks)) coin = bookAfter (diffsOf (upTo h blocks)) coin

section Heals

variable {blocks : List Block} {ignoreSpot : Bool} {h c head : ℕ}

/-- An order that is live at both ends of the window was placed in it, or was live
when it began. -/
theorem placed_between (V : ValidHistory blocks) (hhc : h ≤ c) {coin : Coin} {k : ℕ}
    {q : Side × ℕ × ℕ} (hq : bookAfter (diffsOf (upTo c blocks)) coin k = some q) :
    (∃ y ∈ diffsOf (between h c blocks), y.isNew = true ∧ y.2.coin = coin ∧ y.2.oid = k) ∨
      ∃ q', bookAfter (diffsOf (upTo h blocks)) coin k = some q' := by
  rw [diffsOf_upTo V hhc] at hq
  have hend : diffsOf (upTo h blocks) ++ diffsOf (between h c blocks) <+: diffsOf blocks :=
    diffsOf_upTo V hhc ▸ diffsOf_upTo_isPrefix V c
  obtain ⟨y, hy, hnew, hcoin, hk⟩ := exists_new_of_bookAfter hq
  rcases List.mem_append.mp hy with hy | hy
  · exact Or.inr (V.between hend ⟨y, hy, hk⟩ hq)
  · exact Or.inl ⟨y, hy, hnew, hcoin, hk⟩

/-- Where an order is placed is where the book has it from then on. -/
theorem place_of_bookAfter (V : ValidHistory blocks) {pre mid : List BlockDiff} {y : BlockDiff}
    (hpre : pre ++ y :: mid <+: diffsOf blocks) (hnew : y.isNew = true) :
    ∃ p sz, y.1.place y.2.oid = some p ∧
      bookAfter (pre ++ [y]) y.2.coin y.2.oid = some (p.1, p.2, sz) ∧
      ∀ q, bookAfter (pre ++ y :: mid) y.2.coin y.2.oid = some q → QuoteBook.place q = p := by
  have hy : y ∈ diffsOf blocks := hpre.subset (by simp)
  obtain ⟨inner, hp⟩ := Option.ne_none_iff_exists'.mp (V.parses y hy)
  have hinner : inner.isNew = true := (InnerOrderDiff.isNew_of_tryFrom hp).symm.trans hnew
  cases inner with
  | update origSz newSz => cases hinner
  | remove => cases hinner
  | new sz anchor =>
    obtain ⟨p, hplace, hstep⟩ := V.step_new hy hp
    have hput : bookAfter (pre ++ [y]) y.2.coin y.2.oid = some (p.1, p.2, sz) := by
      rw [bookAfter_concat, hstep, QuoteBook.put_self]
    have hpart : pre ++ y :: mid = (pre ++ [y]) ++ mid := by simp
    refine ⟨p, sz, hplace, hput, fun q hq => ?_⟩
    rw [hpart] at hq hpre
    exact V.samePlace hpre hput hq

/-- An order that the replay may have damaged is gone or touched at the head. -/
theorem Harmless.right (H : Harmless ignoreSpot blocks h c head) (V : ValidHistory blocks)
    (hhc : h ≤ c) (hch : c ≤ head) {coin : Coin} (hcoin : (coin.isSpot && ignoreSpot) = false)
    {k : ℕ} {q : Side × ℕ × ℕ} (hq : bookAfter (diffsOf (upTo c blocks)) coin k = some q)
    (hhead : (bookAfter (diffsOf (upTo head blocks)) coin k).isSome)
    (hW : ¬ Touched (diffsOf (between h c blocks)) coin k)
    (hZ : ¬ Touched (diffsOf (between c head blocks)) coin k) :
    Safe (diffsOf (upTo h blocks)) (diffsOf (between h c blocks)) coin k := by
  intro x hx hxnew hxcoin hxgone p q' hp hq'
  rw [← diffsOf_upTo V hhc] at hxgone hq'
  rw [hq, Option.some.injEq] at hq'
  subst hq'
  have hend : diffsOf (upTo h blocks) ++ diffsOf (between h c blocks) <+: diffsOf blocks :=
    diffsOf_upTo V hhc ▸ diffsOf_upTo_isPrefix V c
  rcases placed_between V hhc hq with ⟨y, hy, hynew, rfl, rfl⟩ | ⟨q', hq'⟩
  · -- placed in the window: the order is live at the head and untouched
    obtain ⟨w, E, hw⟩ := List.append_of_mem hy
    rw [hw, ← List.append_assoc] at hend
    obtain ⟨p', sz, hplace, -, hfinal⟩ := place_of_bookAfter V hend hynew
    rw [diffsOf_upTo V hhc, hw, ← List.append_assoc] at hq
    refine H.apart x hx hxnew (hxcoin ▸ hcoin) (hxcoin ▸ hxgone) y hy hynew hxcoin.symm hhead ?_ p
      (QuoteBook.place q) hp (by rw [hplace, hfinal q hq])
    rintro ⟨e, he, hold, hec, hek⟩
    rw [diffsOf_upTo V hch, diffsOf_upTo V hhc] at he
    rcases List.mem_append.mp he with he | he
    · rcases List.mem_append.mp he with he | he
      · obtain ⟨post, hpost⟩ := hend
        have hsplit : diffsOf blocks = (diffsOf (upTo h blocks) ++ w) ++ y :: (E ++ post) := by
          simp [← hpost]
        exact V.newFirst _ _ _ hsplit hynew e (List.mem_append_left _ he) hek
      · exact hW ⟨e, he, hold, hec, hek⟩
    · exact hZ ⟨e, he, hold, hec, hek⟩
  · -- live all the time: the node's book held both orders when the other was placed
    subst hxcoin
    obtain ⟨w, E, hw⟩ := List.append_of_mem hx
    have hmem : ∃ y ∈ diffsOf (upTo h blocks), y.2.oid = k := by
      obtain ⟨y, hy, -, -, hk⟩ := exists_new_of_bookAfter hq'
      exact ⟨y, hy, hk⟩
    have hpart : diffsOf (upTo h blocks) ++ diffsOf (between h c blocks) =
        ((diffsOf (upTo h blocks) ++ w) ++ [x]) ++ E := by simp [hw]
    have hnow : (diffsOf (upTo h blocks) ++ w) ++ [x] <+: diffsOf blocks :=
      (hpart ▸ List.prefix_append _ E).trans hend
    have hmem' : ∃ y ∈ (diffsOf (upTo h blocks) ++ w) ++ [x], y.2.oid = k := by
      obtain ⟨y, hy, hk⟩ := hmem
      exact ⟨y, by simp [hy], hk⟩
    rw [diffsOf_upTo V hhc, hpart] at hq
    obtain ⟨q₁, hq₁⟩ := V.between (hpart ▸ hend) hmem' hq
    have hlast : (diffsOf (upTo h blocks) ++ w) ++ x :: [] <+: diffsOf blocks := hnow
    obtain ⟨p', sz, hplace, hput, -⟩ := place_of_bookAfter V hlast hxnew
    rw [hp, Option.some.injEq] at hplace
    subst hplace
    rw [V.samePlace (hpart ▸ hend) hq₁ hq]
    exact (V.uncrossed _ hnow).unmet hput hq₁

/-- What the window leaves, as the beginning of the tail. -/
theorem InWindow.toTail {A W : List BlockDiff} {coin : Coin} {R : QuoteBook}
    (h : InWindow A W W coin R) :
    InTail (A ++ W) (fun k => Safe A W coin k ∨ Touched W coin k) [] coin R := by
  have hplace : ∀ k, (R coin k).map QuoteBook.place =
      (bookAfter (A ++ W) coin k).map QuoteBook.place := by
    intro k
    cases hR : R coin k with
    | none =>
      cases hL : bookAfter (A ++ W) coin k with
      | none => rfl
      | some q =>
        have := h.present k (by simp [hL]) (by simp [hL])
        simp [hR] at this
    | some q =>
      obtain ⟨q', hq', hplace⟩ : ∃ q', bookAfter (A ++ W) coin k = some q' ∧
          QuoteBook.place q' = QuoteBook.place q := (h.origin k q hR).elim id id
      rw [hq', Option.map_some, Option.map_some, hplace]
  refine ⟨by simpa using hplace, fun k hk => ?_⟩
  rw [List.append_nil]
  cases hL : bookAfter (A ++ W) coin k with
  | none =>
    have := hplace k
    rw [hL] at this
    simpa using this
  | some q =>
    rcases hk with hnone | (hsafe | htouched) | ⟨x, hx, -⟩
    · rw [hL] at hnone
      cases hnone
    · by_cases htouched : Touched W coin k
      · rw [h.touched k (by simp [hL]) htouched, hL]
      · exact h.safe k q hsafe hL htouched
    · rw [h.touched k (by simp [hL]) htouched, hL]
    · simp at hx

/-- **From the snapshot of a height, the blocks above it lead to the node's
book.** -/
theorem replay_exact (V : ValidHistory blocks) {s : OrderBookState} {m n : ℕ} (hmn : m ≤ n)
    (hs : Settled ignoreSpot (bookAfter (diffsOf (upTo m blocks))) s) (clock : ℕ → ℕ) :
    ∃ s', replay clock (between m n blocks) s = .ok s' ∧ ∀ coin : Coin, s'.resting coin =
      if (coin.isSpot && ignoreSpot) = true then bookAfter (diffsOf (upTo m blocks)) coin
      else bookAfter (diffsOf (upTo n blocks)) coin := by
  obtain ⟨s', R', hrun, hs', hlive, hskip⟩ := replay_tail V hmn (fun _ _ => True)
    (fun coin _ => ⟨fun k => by simp, fun k _ => by simp⟩) hs clock
  refine ⟨s', hrun, fun coin => ?_⟩
  rw [hs'.resting]
  split
  case isTrue hc => exact hskip coin hc
  case isFalse hc =>
    funext k
    rw [(hlive coin (by simpa using hc)).exact k (Or.inr (Or.inl trivial)), diffsOf_upTo V hmn]

/-- A state built from snapshots that list the node's book at a height. -/
theorem Settled.fromSnapshot (V : ValidHistory blocks) (ignoreSpot : Bool)
    {snapshots : Snapshots InnerL4Order}
    {ignoreTriggers : Bool} {n : ℕ}
    (hs : snapshots.Lists ignoreTriggers (bookAfter (diffsOf (upTo n blocks))))
    (untriggered : List InnerL4Order) (height time : ℕ) (trackUntriggered : Bool) :
    Settled ignoreSpot (bookAfter (diffsOf (upTo n blocks)))
      (OrderBookState.fromSnapshot snapshots untriggered height time ignoreTriggers ignoreSpot
        trackUntriggered) where
  noDiffs := rfl
  ignoreSpot := rfl
  resting := by
    have hpre := diffsOf_upTo_isPrefix V n
    exact OrderBookState.resting_fromSnapshot hs (fun _ _ _ hq => V.book_positive hpre hq)
      (V.uncrossed _ hpre) untriggered height time ignoreSpot trackUntriggered

/-- **Replaying the blocks above `h` on the snapshot of a later height `c` ends as
on the snapshot of `h`, when no order replayed and gone meets one of the later
snapshot that stays as it was placed.** -/
theorem replay_harmless (V : ValidHistory blocks) (hhc : h ≤ c) (hch : c ≤ head)
    (H : Harmless ignoreSpot blocks h c head) {ignoreTriggers : Bool}
    {late early : Snapshots InnerL4Order}
    (hlate : late.Lists ignoreTriggers (bookAfter (diffsOf (upTo c blocks))))
    (hearly : early.Lists ignoreTriggers (bookAfter (diffsOf (upTo h blocks))))
    (untriggered untriggered' : List InnerL4Order) (height height' time time' : ℕ)
    (trackUntriggered : Bool) (clock clock' : ℕ → ℕ) :
    ∃ s s', replay clock (between h head blocks) (OrderBookState.fromSnapshot late untriggered
        height time ignoreTriggers ignoreSpot trackUntriggered) = .ok s ∧
      replay clock' (between h head blocks) (OrderBookState.fromSnapshot early untriggered'
        height' time' ignoreTriggers ignoreSpot trackUntriggered) = .ok s' ∧
      s.resting = s'.resting := by
  obtain ⟨s', hrun', hs'⟩ := replay_exact V (hhc.trans hch)
    (Settled.fromSnapshot V ignoreSpot hearly untriggered' height' time'
      trackUntriggered) clock'
  obtain ⟨s₁, R₁, hrun₁, hs₁, hwindow, hskip₁⟩ := replay_window V hhc
    (Settled.fromSnapshot V ignoreSpot hlate untriggered height time
      trackUntriggered) clock
  have hD := diffsOf_upTo V hhc
  obtain ⟨s, R, hrun, hs, htail, hskip⟩ := replay_tail V hch
    (fun coin k => Safe (diffsOf (upTo h blocks)) (diffsOf (between h c blocks)) coin k ∨
      Touched (diffsOf (between h c blocks)) coin k)
    (fun coin hc => hD ▸ (hwindow coin hc).toTail) hs₁ clock
  refine ⟨s, s', ?_, hrun', ?_⟩
  · rw [between_append V.ordered hhc hch, replay_append clock _ _ hrun₁, hrun]
  · funext coin
    rw [hs.resting, hs']
    split
    case isTrue hc => rw [hskip coin hc, hskip₁ coin hc, H.skipped coin hc]
    case isFalse hc =>
      have hc : (coin.isSpot && ignoreSpot) = false := by simpa using hc
      have ht := htail coin hc
      funext k
      rw [diffsOf_upTo V hch]
      by_cases hright : bookAfter (diffsOf (upTo c blocks)) coin k = none ∨
          (Safe (diffsOf (upTo h blocks)) (diffsOf (between h c blocks)) coin k ∨
            Touched (diffsOf (between h c blocks)) coin k) ∨
          Touched (diffsOf (between c head blocks)) coin k
      · exact ht.exact k hright
      · simp only [not_or] at hright
        obtain ⟨hsome, ⟨hsafe, hW⟩, hZ⟩ := hright
        obtain ⟨q, hq⟩ := Option.ne_none_iff_exists'.mp hsome
        have hgone : bookAfter (diffsOf (upTo head blocks)) coin k = none := by
          by_contra hlive
          exact hsafe (H.right V hhc hch hc hq (Option.isSome_iff_ne_none.mpr hlive) hW hZ)
        have hplace := ht.place k
        rw [← diffsOf_upTo V hch, hgone] at hplace
        rw [← diffsOf_upTo V hch, hgone]
        simpa using hplace

end Heals

end HlOrderbook

namespace HlOrderbook

section Example

attribute [local instance] SlabPolicy.latest FixedPoint.decimal

/-- A bid that rests for one block, and an ask placed after it is gone. -/
def bidThenAsk (limitPx : String) : List Block :=
  [⟨101, 1, [.opened (.limit "BTC" .bid "100" "1" 1)], [⟨1, 1, "100", "BTC", .new "1" none⟩]⟩,
    ⟨102, 2, [], [⟨1, 1, "100", "BTC", .remove⟩]⟩,
    ⟨103, 3, [.opened (.limit "BTC" .ask limitPx "2" 2)],
      [⟨1, 2, limitPx, "BTC", .new "2" none⟩]⟩]

/-- The ask is one that the bid would have traded with. -/
abbrev shortLived : List Block := bidThenAsk "99"

/-- The ask is one that the bid would have rested beside. -/
abbrev shortLivedBelow : List Block := bidThenAsk "101"

section BidThenAsk

variable {limitPx : String} {px : ℕ}

/-- The node's book after each of the blocks. -/
theorem bookAfter_bidThenAsk
    (hpx : (limitPx, px) ∈ [("99", 9900000000), ("101", 10100000000)]) :
    bookAfter (diffsOf ((bidThenAsk limitPx).take 1)) =
      QuoteBook.put (fun _ _ => none) "BTC" 1 (.bid, 10000000000, 100000000) ∧
    bookAfter (diffsOf ((bidThenAsk limitPx).take 2)) = (fun _ _ => none) ∧
    bookAfter (diffsOf (bidThenAsk limitPx)) =
      QuoteBook.put (fun _ _ => none) "BTC" 2 (.ask, px, 200000000) := by
  have hbid : bookAfter (diffsOf ((bidThenAsk limitPx).take 1)) =
      QuoteBook.put (fun _ _ => none) "BTC" 1 (.bid, 10000000000, 100000000) := rfl
  have hgone : bookAfter (diffsOf ((bidThenAsk limitPx).take 2)) = fun _ _ => none := by
    change QuoteBook.resize (bookAfter (diffsOf ((bidThenAsk limitPx).take 1))) "BTC" 1 none = _
    rw [hbid]
    funext c k
    by_cases hck : "BTC" = c ∧ 1 = k
    · simp [QuoteBook.resize, hck]
    · rw [QuoteBook.resize_other hck, QuoteBook.put_other hck]
  refine ⟨hbid, hgone, ?_⟩
  rw [← hgone]
  simp only [List.mem_cons, Prod.mk.injEq, List.not_mem_nil, or_false] at hpx
  obtain ⟨rfl, rfl⟩ | ⟨rfl, rfl⟩ := hpx
  · rfl
  · rfl

/-- Every quote of the book is on one side. -/
theorem uncrossed_put (c : Coin) (k : ℕ) (q : Side × ℕ × ℕ) :
    QuoteBook.Uncrossed (QuoteBook.put (fun _ _ => none) c k q) := by
  have hq : ∀ {c' k' q'}, QuoteBook.put (fun _ _ => none) c k q c' k' = some q' → q' = q := by
    intro c' k' q' h
    rw [QuoteBook.put] at h
    split at h
    · exact (Option.some.inj h).symm
    · cases h
  intro c' i j p p' sz sz' hi hj
  have := (hq hi).trans (hq hj).symm
  cases this

/-- What the diffs of the blocks say. -/
theorem tryFrom_bidThenAsk :
    (diffsOf (bidThenAsk limitPx)).map (fun x => InnerOrderDiff.tryFrom x.2.rawBookDiff) =
      [some (.new 100000000 none), some .remove, some (.new 200000000 none)] := rfl

theorem valid_bidThenAsk
    (hpx : (limitPx, px) ∈ [("99", 9900000000), ("101", 10100000000)]) :
    ValidHistory (bidThenAsk limitPx) where
  ordered := by simp [bidThenAsk]
  parses := by
    intro x hx
    have hsaid := List.mem_map_of_mem (f := fun x => InnerOrderDiff.tryFrom x.2.rawBookDiff) hx
    rw [tryFrom_bidThenAsk] at hsaid
    intro hnone
    simp [hnone] at hsaid
  positive := by
    intro x hx sz anchor h
    have hsaid := List.mem_map_of_mem (f := fun x => InnerOrderDiff.tryFrom x.2.rawBookDiff) hx
    rw [tryFrom_bidThenAsk] at hsaid
    simp [h] at hsaid
    omega
  newFirst := by
    rintro (_ | ⟨a, _ | ⟨b, _ | ⟨c, pre⟩⟩⟩) x post h hnew
    · simp
    · obtain ⟨-, rfl, -⟩ := by simpa [diffsOf, bidThenAsk] using h
      cases hnew
    · obtain ⟨rfl, rfl, rfl, -⟩ := by simpa [diffsOf, bidThenAsk] using h
      simp
    · simp [diffsOf, bidThenAsk] at h
  opened := by
    simp only [List.mem_cons, Prod.mk.injEq, List.not_mem_nil, or_false] at hpx
    obtain ⟨rfl, -⟩ | ⟨rfl, -⟩ := hpx
    · decide
    · decide
  uncrossed := by
    intro pre hpre
    obtain ⟨h₁, h₂, h₃⟩ := bookAfter_bidThenAsk hpx
    have hcases : pre = [] ∨ pre = diffsOf ((bidThenAsk limitPx).take 1) ∨
        pre = diffsOf ((bidThenAsk limitPx).take 2) ∨ pre = diffsOf (bidThenAsk limitPx) := by
      simpa [diffsOf, bidThenAsk] using (List.mem_inits _ _).mpr hpre
    rcases hcases with rfl | rfl | rfl | rfl
    · intro c j k p q sz sz' hj
      cases hj
    · rw [h₁]
      exact uncrossed_put _ _ _
    · rw [h₂]
      intro c j k p q sz sz' hj
      cases hj
    · rw [h₃]
      exact uncrossed_put _ _ _

/-- A snapshot with the ask. -/
def askSnapshot (px : ℕ) : Snapshots InnerL4Order :=
  (∅ : Snapshots InnerL4Order).insert "BTC" ⟨[], [.limit "BTC" .ask px 200000000 2]⟩

/-- The snapshot at the height of the ask. -/
abbrev shortLivedSnapshot : Snapshots InnerL4Order := askSnapshot 9900000000

theorem lists_empty :
    (∅ : Snapshots InnerL4Order).Lists true fun _ _ => none where
  once c := by simp [Snapshots.orders]
  quote c k q := by simp [Snapshots.orders]

theorem lists_askSnapshot
    (hpx : (limitPx, px) ∈ [("99", 9900000000), ("101", 10100000000)]) :
    (askSnapshot px).Lists true (bookAfter (diffsOf (bidThenAsk limitPx))) := by
  have horders : ∀ c, (askSnapshot px).orders true c =
      if "BTC" = c then [.limit "BTC" .ask px 200000000 2] else [] := by
    intro c
    by_cases hc : "BTC" = c
    · subst hc
      rfl
    · simp [Snapshots.orders, askSnapshot, hc]
  rw [(bookAfter_bidThenAsk hpx).2.2]
  refine ⟨fun c => ?_, fun c k q => ?_⟩
  · rw [horders]
    split <;> simp
  · rw [horders]
    by_cases hc : "BTC" = c
    · subst hc
      by_cases hk : 2 = k
      · subst hk
        simp only [QuoteBook.put_self, if_true, List.mem_singleton]
        constructor
        · rintro ⟨⟩
          exact ⟨_, rfl, rfl, rfl⟩
        · rintro ⟨o, rfl, -, rfl⟩
          rfl
      · rw [QuoteBook.put_other fun h => hk h.2]
        simp [InnerL4Order.limit, hk]
    · rw [QuoteBook.put_other fun h => hc h.1]
      simp [hc]

end BidThenAsk

theorem exists_ok {α : Type} {e : Except Failure OrderBookState} {f : OrderBookState → α} {a : α}
    (h : e.toOption.map f = some a) : ∃ s, e = .ok s ∧ f s = a := by
  cases e with
  | error _ => cases h
  | ok s => exact ⟨s, rfl, Option.some.inj h⟩

/-- **The replay over the later snapshot may end with another size.**  The bid is
placed again, takes half of the ask the node placed after the bid was gone, and the
ask's own `New` is dropped. -/
theorem replay_shortLived : ValidHistory shortLived ∧
    shortLivedSnapshot.Lists true (bookAfter (diffsOf (upTo 103 shortLived))) ∧
    (∅ : Snapshots InnerL4Order).Lists true (bookAfter (diffsOf (upTo 100 shortLived))) ∧
    (∃ s, replay (fun _ => 0) (between 100 103 shortLived)
      (OrderBookState.fromSnapshot shortLivedSnapshot [] 103 0 true false true) = .ok s ∧
      s.resting "BTC" 2 = some (.ask, 9900000000, 100000000)) ∧
    ∃ s, replay (fun _ => 0) (between 100 103 shortLived)
      (OrderBookState.fromSnapshot ∅ [] 100 0 true false true) = .ok s ∧
      s.resting "BTC" 2 = some (.ask, 9900000000, 200000000) := by
  have hpx : ("99", 9900000000) ∈ [("99", 9900000000), ("101", 10100000000)] := by simp
  refine ⟨valid_bidThenAsk hpx, lists_askSnapshot hpx, lists_empty, exists_ok ?_, exists_ok ?_⟩
  · decide +kernel
  · decide +kernel

/-- The bid is placed again beside an ask above its price, and the ask's `New` is dropped: the
replay does no harm. -/
theorem replay_harmless_shortLived : ∃ s s',
    replay (fun _ => 0) (between 100 103 shortLivedBelow)
      (OrderBookState.fromSnapshot (askSnapshot 10100000000) [] 103 0 true false true) = .ok s ∧
    replay (fun _ => 0) (between 100 103 shortLivedBelow)
      (OrderBookState.fromSnapshot ∅ [] 100 0 true false true) = .ok s' ∧
    s.resting = s'.resting := by
  have hpx : ("101", 10100000000) ∈ [("99", 9900000000), ("101", 10100000000)] := by simp
  refine replay_harmless (valid_bidThenAsk hpx) (c := 103) (by decide) (by decide) ⟨?_, by simp⟩
    (lists_askSnapshot hpx) lists_empty [] [] 103 100 0 0 true (fun _ => 0) (fun _ => 0)
  intro x hx hxnew hxcoin hgone y hy hynew hcoin hlive huntouched p q hp hq
  have hoid : ∀ z ∈ diffsOf (between 100 103 shortLivedBelow), z.2.coin = "BTC" ∧
      (z.2.oid = 1 ∨ z.2.oid = 2) := by decide
  have hbook := (bookAfter_bidThenAsk hpx).2.2
  -- what is gone is the bid, and what lives is the ask
  have hx1 : x.2.oid = 1 := by
    refine (hoid x hx).2.resolve_right fun hx2 => ?_
    change bookAfter (diffsOf shortLivedBelow) _ _ = none at hgone
    rw [hbook, (hoid x hx).1, hx2, QuoteBook.put_self] at hgone
    cases hgone
  have hy2 : y.2.oid = 2 := by
    refine (hoid y hy).2.resolve_left fun hy1 => ?_
    change (bookAfter (diffsOf shortLivedBelow) _ _).isSome = true at hlive
    rw [hbook, hy1, QuoteBook.put_other (by simp)] at hlive
    cases hlive
  have hcross : ∀ x ∈ diffsOf (between 100 103 shortLivedBelow), x.2.oid = 1 →
      ∀ y ∈ diffsOf (between 100 103 shortLivedBelow), y.2.oid = 2 →
      ∀ p ∈ x.1.place 1, ∀ q ∈ y.1.place 2, placesCross p q = false := by decide
  rw [hx1] at hp
  rw [hy2] at hq
  exact hcross x hx hx1 y hy hy2 p hp q hq

end Example

end HlOrderbook
