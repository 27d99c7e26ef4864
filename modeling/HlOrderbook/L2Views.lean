import HlOrderbook.BookViews
import HlOrderbook.L2Flush
import HlOrderbook.L2Frames

/-!
# The cache and the books

What the cache of aggregated books holds of a coin is the coin's book, unless the
coin is to be sent.  That is so as long as no batch changes a book and then fails:
such a batch reports no coin.

## Main definitions

* `L2Subscription.view` — the levels a subscription is about.
* `IngestOp.FailsClean` — a batch does not change what is seen of a book and fail.
* `CacheCurrent` — the cache holds the books.
-/

set_option autoImplicit false
set_option linter.unusedSectionVars false

namespace HlOrderbook

variable [SlabPolicy] [FixedPoint]

open OrderBookListener

/-! ## What a subscription is about -/

/-- The levels of the subscription's coin: its book in the shape and at the depth
asked for, and none without a book. -/
def L2Subscription.view (s : L2Subscription) (books : OrderBooks InnerL4Order) : L2Levels :=
  match books.orderBooks[s.coin]? with
  | some book => exportInnerSnapshot (book.toL2Snapshot (some s.depth) s.nSigFigs s.mantissa)
  | none => .empty

theorem L2Subscription.view_of_none {s : L2Subscription} {books : OrderBooks InnerL4Order}
    (h : books.orderBooks[s.coin]? = none) : s.view books = .empty := by
  rw [view, h]

/-- A coin without a book looks like one with an empty book. -/
theorem L2Subscription.view_eq_book (s : L2Subscription) (books : OrderBooks InnerL4Order) :
    s.view books =
      exportInnerSnapshot ((books.book s.coin).toL2Snapshot (some s.depth) s.nSigFigs s.mantissa) := by
  have hnew : ∀ side, mapToL2Levels (OrderBook.new (O := InnerL4Order)).raw.bids side
      (some s.depth) s.nSigFigs s.mantissa = [] := by
    intro side
    rw [mapToL2Levels]
    split
    · rfl
    · cases side <;> rfl
  rw [view, OrderBooks.book]
  cases books.orderBooks[s.coin]? with
  | some book => rfl
  | none =>
    rw [Option.getD_none, OrderBook.toL2Snapshot, hnew .bid]
    exact congrArg (fun asks => exportInnerSnapshot ⟨[], asks⟩) (hnew .ask).symm

theorem L2Subscription.view_of_sameLevels {s : L2Subscription}
    {books books' : OrderBooks InnerL4Order} (h : books.SameLevels books' s.coin) :
    s.view books = s.view books' := by
  rw [view_eq_book, view_eq_book, h.toL2Snapshot]

/-- **A subscription is about no level only if no order rests**, or no level was asked
for. -/
theorem L2Subscription.view_eq_empty {s : L2Subscription} {books : OrderBooks InnerL4Order} :
    s.view books = .empty ↔ s.depth = 0 ∨ (books.book s.coin).orderCount = 0 := by
  have hempty : ∀ x : Snapshot InnerLevel,
      exportInnerSnapshot x = .empty ↔ x.bids = [] ∧ x.asks = [] := by
    intro x
    simp [exportInnerSnapshot, L2Levels.empty]
  rw [view_eq_book, hempty, OrderBook.orderCount_eq_zero_iff_side]
  simp only [OrderBook.toL2Snapshot, mapToL2Levels_eq_nil]
  rw [← or_and_left]
  apply or_congr_right
  constructor
  · intro h side
    cases side
    · exact h.2
    · exact h.1
  · exact fun h => ⟨h .bid, h .ask⟩

/-- What is built of a book shows the book. -/
theorem L2Subscription.exported_variants {s : L2Subscription} (hdepth : s.depth ≤ maxLevels)
    {books : OrderBooks InnerL4Order} {book : OrderBook InnerL4Order}
    (hbook : books.orderBooks[s.coin]? = some book) {active : Finset L2SnapshotParams}
    {x : Snapshot InnerLevel} (hx : computeL2VariantsForCoin book active s.shape = some x) :
    s.exported x = s.view books := by
  rw [computeL2VariantsForCoin] at hx
  split at hx
  · cases hx
    rw [view, hbook, exported]
    exact congrArg exportInnerSnapshot (book.truncate_toL2Snapshot hdepth _ _)
  · cases hx

/-! ## What a batch changes -/

/-- A batch applied to a state. -/
def EventBatch.applyTo (now : ℕ) (state : OrderBookState) :
    EventBatch → OrderBookState × Except Failure (Std.ExtTreeSet Coin)
  | .orders batch => state.applyOrderStatusesHft now batch
  | .bookDiffs batch => state.applyOrderDiffsHft now batch
  | .fills _ => (state, .ok ∅)

/-- The step does not take in a batch that changes what the subscription is about and
then fails, unless the coin is to be built anyway. -/
def IngestOp.FailsClean (s : L2Subscription) (l : OrderBookListener) : IngestOp → Prop
  | .apply env _ batch => batch.eventsLen ≤ maxEventsPerBatch →
    s.coin ∉ l.pendingDirtyL2Coins → l.l2SnapshotCache.contains s.coin = true →
    ∀ state ∈ l.orderBookState, (batch.applyTo env.now state).2.isOk = false →
      s.view state.orderBook = s.view (batch.applyTo env.now state).1.orderBook
  | _ => True

instance (s : L2Subscription) (l : OrderBookListener) : ∀ op : IngestOp,
    Decidable (op.FailsClean s l)
  | .apply env _ batch => inferInstanceAs (Decidable (_ → _ → _ → ∀ state ∈ l.orderBookState,
      (batch.applyTo env.now state).2.isOk = false →
        s.view state.orderBook = s.view (batch.applyTo env.now state).1.orderBook))
  | .desync _ | .flush _ | .beginFetch _ | .build _ _ _ | .chase _ | .commit _ | .init _ _ _ =>
    inferInstanceAs (Decidable True)

theorem applyTo_reports {batch : EventBatch} {now : ℕ} {state state' : OrderBookState}
    {changed : Std.ExtTreeSet Coin} {c : Coin}
    (h : batch.applyTo now state = (state', .ok changed)) (hc : c ∉ changed) :
    state.orderBook.SameLevels state'.orderBook c := by
  apply OrderBooks.SameLevels.of_eq
  cases batch with
  | orders batch => exact OrderBookState.applyOrderStatusesHft_reports h hc
  | bookDiffs batch => exact OrderBookState.applyOrderDiffsHft_reports h hc
  | fills batch =>
    cases h
    rfl

namespace OrderBookListener

variable {env : Env} {l l' : OrderBookListener} {state : OrderBookState}

theorem books_of_some (h : l.orderBookState = some state) : l.books = state.orderBook := by
  rw [books, h]
  rfl

/-- What applying a batch to the book leaves as the book. -/
theorem applyToState_books (env : Env) (l : OrderBookListener) (state : OrderBookState)
    (batch : EventBatch) :
    (l.applyToState env state batch).1.books = (batch.applyTo env.now state).1.orderBook ∧
      (l.applyToState env state batch).2.2 = (batch.applyTo env.now state).2 := by
  cases batch with
  | orders batch => exact ⟨rfl, rfl⟩
  | bookDiffs batch => exact ⟨rfl, rfl⟩
  | fills batch =>
    simp only [applyToState]
    split <;> exact ⟨rfl, rfl⟩

theorem isReady_applyToState (env : Env) (l : OrderBookListener) (state : OrderBookState)
    (batch : EventBatch) : (l.applyToState env state batch).1.isReady = true := by
  cases batch with
  | orders batch => rfl
  | bookDiffs batch => rfl
  | fills batch =>
    simp only [applyToState]
    split <;> rfl

theorem Marked.books (h : l.Marked l') : l'.books = l.books := by
  rw [OrderBookListener.books, h.orderBookState, OrderBookListener.books]

/-- The maintenance changes nothing that is seen. -/
theorem maintain_sameLevels (now : ℕ) (l : OrderBookListener) (c : Coin) :
    l.books.SameLevels (l.maintain now).1.books c := by
  simp only [maintain]
  split
  · rename_i state hstate
    split
    · rw [books_of_some hstate]
      exact OrderBooks.sameLevels_compactAll _ c
    · exact .of_eq rfl
  · exact .of_eq rfl

theorem isReady_maintain (now : ℕ) (l : OrderBookListener) :
    (l.maintain now).1.isReady = l.isReady := by
  simp only [maintain, isReady]
  split
  · rename_i state hstate
    split <;> simp [hstate]
  · rename_i hstate
    simp [hstate]

/-- Drawing the consequences of a batch changes nothing that is seen. -/
theorem conclude_sameLevels (env : Env) (l : OrderBookListener)
    (result : Except Failure (Std.ExtTreeSet Coin)) (c : Coin) :
    l.books.SameLevels (l.conclude env result).1.books c := by
  have hextend : ∀ (l₁ : OrderBookListener) changed, (l₁.extendDirty changed).books = l₁.books :=
    fun _ _ => rfl
  rw [conclude_fst, hextend]
  split
  · rw [(markDesynced_marked _).books]
    exact maintain_sameLevels env.now l c
  · exact maintain_sameLevels env.now l c

/-- **What taking in a batch does to the books**: nothing, and nothing is sent, or it is
applied, and the maintenance after it is not seen. -/
theorem applyEventBatch_books {height : ℕ} {batch : EventBatch} {sent : List InternalMessage}
    (h : l.applyEventBatch env height batch = some (l', sent)) :
    (l'.books = l.books ∧ sent = []) ∨
    ∃ state state' result, ∃ l₁ l₂ : OrderBookListener,
      batch.eventsLen ≤ maxEventsPerBatch ∧ l.orderBookState = some state ∧
      batch.applyTo env.now state = (state', result) ∧
      l₂.isReady = true ∧ (∀ c, state'.orderBook.SameLevels l₂.books c) ∧
      l' = l₂.extendDirty (result.toOption.getD ∅) ∧
      sent = (l₁.applyToState env state batch).2.1 ++
        l₂.bboBroadcast env (result.toOption.getD ∅) := by
  have hkeep : ((l.see height).cacheForReplay batch).1.books = l.books :=
    (cacheForReplay_marked (l.see height) batch).books
  rcases applyEventBatch_cases h with ⟨-, rfl, rfl⟩ | ⟨-, -, rfl, rfl⟩ | ⟨hlen, state, hstate, hlive⟩
  · exact Or.inl ⟨(markDesynced_marked (l.see height)).books, rfl⟩
  · exact Or.inl ⟨hkeep, rfl⟩
  · obtain ⟨l₁, sent₁, result, happly, -, rfl, rfl⟩ := applyLive_eq_some hlive
    obtain ⟨hbooks, hresult⟩ :=
      applyToState_books env ((l.see height).cacheForReplay batch).1 state batch
    have hready : l₁.isReady = true := by
      rw [show l₁ = (((l.see height).cacheForReplay batch).1.applyToState env state batch).1 by
        rw [happly]]
      exact isReady_applyToState env _ state batch
    rw [happly] at hbooks hresult
    refine Or.inr ⟨state, _, result, ((l.see height).cacheForReplay batch).1, _, by omega, hstate,
      Prod.ext rfl hresult.symm, ?_, ?_, conclude_fst env l₁ result, ?_⟩
    · split
      · rw [isReady, (markDesynced_marked _).orderBookState, ← isReady, isReady_maintain, hready]
      · rw [isReady_maintain, hready]
    · intro c
      rw [← hbooks]
      exact conclude_sameLevels env l₁ result c
    · rw [happly]
      rfl

end OrderBookListener

variable {s : L2Subscription}

/-- **Taking in a batch changes nothing of a coin in the cache that is not to be
sent.** -/
theorem applyEventBatch_view {env : Env} {l l' : OrderBookListener} {height : ℕ}
    {batch : EventBatch} {sent : List InternalMessage}
    (h : l.applyEventBatch env height batch = some (l', sent))
    (hclean : (IngestOp.apply env height batch).FailsClean s l)
    (hc : s.coin ∉ l'.pendingDirtyL2Coins) (hcached : l.l2SnapshotCache.contains s.coin = true) :
    s.view l.books = s.view l'.books := by
  rcases applyEventBatch_books h with ⟨heq, -⟩ | ⟨state, state', result, l₁, l₂, hlen, hstate,
    happly, -, hlevels, rfl, -⟩
  · rw [heq]
  · have hreports : ∀ c ∈ result.toOption.getD ∅,
        c ∈ (l₂.extendDirty (result.toOption.getD ∅)).pendingDirtyL2Coins :=
      fun c hmem => mem_extendDirty.mpr (Or.inr hmem)
    have hpending : s.coin ∉ l.pendingDirtyL2Coins :=
      fun hmem => hc ((applyEventBatch_keepsL2 h).dirty _ hmem)
    have hsame : state'.orderBook.SameLevels
        (l₂.extendDirty (result.toOption.getD ∅)).books s.coin := hlevels s.coin
    rw [books_of_some hstate, ← L2Subscription.view_of_sameLevels hsame]
    cases result with
    | ok changed =>
      exact L2Subscription.view_of_sameLevels (applyTo_reports happly fun hmem => hc (hreports _ hmem))
    | error f =>
      have hview := hclean hlen hpending hcached state hstate (by rw [happly]; rfl)
      rw [hview, happly]

/-- A send leaves the books. -/
theorem books_flush {i i' : Ingest} {op : IngestOp} {env : Env} {sent : List InternalMessage}
    (hop : op = .flush env) (h : i.step op = some (i', sent)) :
    i.listener.books = i'.listener.books := by
  subst hop
  cases h
  obtain ⟨last, cache, dirty, active, heq⟩ := flushL2IfDue_fst env i.listener
  simp only [heq]
  rfl

/-- **A step that takes in no batch and ends no install leaves the books.** -/
theorem books_step {i i' : Ingest} {op : IngestOp} {sent : List InternalMessage}
    (h : i.step op = some (i', sent)) (hinstalls : op.installs = false)
    (happly : ∀ env height batch, op ≠ .apply env height batch) :
    i.listener.books = i'.listener.books := by
  cases op with
  | apply env height batch => exact absurd rfl (happly env height batch)
  | desync line =>
    cases h
    exact (markDesynced_marked _).books.symm
  | flush env => exact books_flush rfl h
  | beginFetch head =>
    cases h
    exact (beginCaching_marked i.listener).books.symm
  | build snapshot untriggered height =>
    cases h
    rfl
  | chase now =>
    obtain ⟨p, rfl, -⟩ := Ingest.chase_eq_some h
    rfl
  | commit now => cases hinstalls
  | init now snapshot height => cases hinstalls

/-- **A step that ends no install changes nothing of a coin in the cache that is not to
be sent.** -/
theorem step_view {i i' : Ingest} {op : IngestOp} {sent : List InternalMessage}
    (h : i.step op = some (i', sent)) (hinstalls : op.installs = false)
    (hclean : op.FailsClean s i.listener) (hc : s.coin ∉ i'.listener.pendingDirtyL2Coins)
    (hcached : i.listener.l2SnapshotCache.contains s.coin = true) :
    s.view i.listener.books = s.view i'.listener.books := by
  by_cases hbatch : ∃ env height batch, op = .apply env height batch
  · obtain ⟨env, height, batch, rfl⟩ := hbatch
    simp only [Ingest.step, Option.map_eq_some_iff, Prod.exists, Prod.mk.injEq] at h
    obtain ⟨l', sent', happly, rfl, rfl⟩ := h
    exact applyEventBatch_view happly hclean hc hcached
  · rw [books_step h hinstalls fun env height batch hop => hbatch ⟨env, height, batch, hop⟩]

/-! ## The cache -/

/-- What the cache holds of the subscription's coin is its book, unless it is to be
sent. -/
def CacheCurrent (s : L2Subscription) (l : OrderBookListener) : Prop :=
  s.coin ∉ l.pendingDirtyL2Coins → ∀ (v : L2Variants) x, l.l2SnapshotCache[s.coin]? = some v →
    v s.shape = some x → s.exported x = s.view l.books

/-- What a message holds of the subscription's coin is its book when it was sent, and a
coin that it reports without holding it had no book. -/
structure L2Broadcast.IsCurrent (s : L2Subscription) (m : L2Broadcast) : Prop where
  holds : ∀ (v : L2Variants) x, m.snapshot[s.coin]? = some v → v s.shape = some x →
    s.exported x = s.view m.books
  gone : s.coin ∈ m.dirty → m.snapshot[s.coin]? = none → m.books.orderBooks[s.coin]? = none

theorem cacheCurrent_new (s : L2Subscription) (tx spot : Bool) (filter : MarketFilter) :
    CacheCurrent s (.new tx spot filter) := by
  intro _ v x hv
  exact absurd hv (by simp [OrderBookListener.new])

theorem pending_retune (active : Finset L2SnapshotParams) (l : OrderBookListener) :
    (l.retune active).pendingDirtyL2Coins = l.pendingDirtyL2Coins := by
  rw [retune]
  split <;> rfl

/-- The message that is sent holds the books. -/
theorem isCurrent_l2Message (hdepth : s.depth ≤ maxLevels) (env : Env) {l : OrderBookListener}
    {state : OrderBookState} (hstate : l.orderBookState = some state) (h : CacheCurrent s l) :
    ((l.retune env.active).l2Message env state).IsCurrent s := by
  refine ⟨fun v x hv hx => ?_, getElem?_books_of_dirty⟩
  rcases getElem?_snapshot hv with ⟨-, book, hbook, rfl⟩ | ⟨hpending, hcache, -⟩
  · exact L2Subscription.exported_variants hdepth hbook hx
  · rw [pending_retune] at hpending
    rw [h hpending v x (getElem?_retune hcache).1 hx, books_of_some hstate]
    rfl

/-- **A step keeps the cache current**, and so are the messages it sends. -/
theorem CacheCurrent.step (hdepth : s.depth ≤ maxLevels) {i i' : Ingest} {op : IngestOp}
    {sent : List InternalMessage} (h : CacheCurrent s i.listener)
    (hstep : i.step op = some (i', sent)) (hclean : op.FailsClean s i.listener) :
    CacheCurrent s i'.listener ∧
      ∀ m ∈ l2Of (op.broadcasts i'.listener sent), m.IsCurrent s := by
  have hchange := Ingest.step_l2 hstep
  generalize hms : l2Of (op.broadcasts i'.listener sent) = ms at hchange
  cases hchange with
  | kept hinstalls hkeeps =>
    refine ⟨fun hc v x hv hx => ?_, nofun⟩
    have hpending : s.coin ∉ i.listener.pendingDirtyL2Coins := fun hmem => hc (hkeeps.dirty _ hmem)
    rw [hkeeps.cache] at hv
    rw [h hpending v x hv hx]
    refine step_view hstep hinstalls hclean hc ?_
    rw [Std.ExtTreeMap.contains_eq_isSome_getElem?, hv]
    rfl
  | forgotten _ hcache _ _ =>
    refine ⟨fun _ v x hv => ?_, nofun⟩
    rw [hcache] at hv
    simp at hv
  | retuned env hop hstate hkeeps =>
    refine ⟨fun hc v x hv hx => ?_, nofun⟩
    have hpending : s.coin ∉ i.listener.pendingDirtyL2Coins := by
      intro hmem
      exact hc (hkeeps.dirty _ ((pending_retune env.active i.listener).symm ▸ hmem))
    rw [hkeeps.cache] at hv
    have hcached := (getElem?_retune hv).1
    rw [h hpending v x hcached hx]
    refine step_view hstep (by rw [hop]; rfl) hclean hc ?_
    rw [Std.ExtTreeMap.contains_eq_isSome_getElem?, hcached]
    rfl
  | sent env state hop hactive hstate hcache hdirty hlast =>
    have hmessage := isCurrent_l2Message hdepth env hstate h
    constructor
    · intro _ v x hv hx
      rw [hcache] at hv
      rw [hmessage.holds v x hv hx]
      rw [← books_flush hop hstep, books_of_some hstate]
      rfl
    · intro m hm
      rw [List.mem_singleton.mp hm]
      exact hmessage

end HlOrderbook
