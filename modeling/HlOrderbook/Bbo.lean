import HlOrderbook.L2Views
import HlOrderbook.Lib.Runs

/-!
# The feed of best prices

One connection and one coin whose best bid and best ask it can subscribe to.  A batch
that succeeds reports the best prices of the coins that it changed, as long as someone
wants them; the connection sends a coin's when price or size is not what it sent last.
A batch that fails reports nothing, and neither does an install.

## Main definitions

* `sendWsDataFromBbo` — what one report sends.
* `BboConnection`, `BboFeed`, `BboFeed.step` — the system.
* `BboConnection.settled` — the prices noted once the waiting reports are taken.
* `BboFeed.Reports` — no step changes the prices unreported.
-/

set_option autoImplicit false
set_option linter.unusedSectionVars false

namespace HlOrderbook

open OrderBookListener

/-! ## The frames -/

/-- What two reports of best prices are compared by: price and size of the best bid and
of the best ask. -/
abbrev BboKey := Option (ℕ × ℕ) × Option (ℕ × ℕ)

/-- A report, without the numbers of orders. -/
def bboKey (raw : RawBbo) : BboKey :=
  (raw.1.map fun x => (x.1, x.2.1), raw.2.map fun x => (x.1, x.2.1))

/-- A frame with the best prices of a coin. -/
structure Bbo where
  coin : Coin
  time : ℕ
  bid : Option Level
  ask : Option Level
  deriving DecidableEq

/-- What is noted of a frame that was sent.  The frame itself is kept for the heartbeat
only. -/
structure BboEntry where
  tuple : BboKey
  lastSent : ℕ
  payload : Option Bbo

/-- Price and size of both sides, as a client reads them. -/
def Bbo.prices (frame : Bbo) : Option (String × String) × Option (String × String) :=
  (frame.bid.map fun l => (l.px, l.sz), frame.ask.map fun l => (l.px, l.sz))

section Send

variable [FixedPoint]

/-- One side as it goes on the wire. -/
def bboLevel (x : ℕ × ℕ × ℕ) : Level := ⟨FixedPoint.toStr x.1, FixedPoint.toStr x.2.1, x.2.2⟩

/-- Price and size of both sides, as they are written on the wire. -/
def BboKey.written (key : BboKey) : Option (String × String) × Option (String × String) :=
  (key.1.map fun x => (FixedPoint.toStr x.1, FixedPoint.toStr x.2),
    key.2.map fun x => (FixedPoint.toStr x.1, FixedPoint.toStr x.2))

/-- What a report makes of the note of a subscription, and the frame it sends. -/
def sendWsDataFromBbo (now : ℕ) (coin : Coin) (bbos : Std.ExtTreeMap Coin RawBbo) (time : ℕ)
    (last : Option BboEntry) (storePayload : Bool) : Option BboEntry × Option Bbo :=
  match bbos[coin]? with
  | none => (last, none)
  | some raw =>
    let current := bboKey raw
    if last.map BboEntry.tuple = some current then (last, none)
    else
      let frame : Bbo := ⟨coin, time, raw.1.map bboLevel, raw.2.map bboLevel⟩
      (some ⟨current, now, if storePayload then some frame else none⟩, some frame)

end Send

/-! ## The connection -/

/-- A connection.  While it is subscribed there is the note of what was sent last, if
anything was. -/
structure BboConnection where
  coin : Coin
  univ : Std.ExtTreeSet Coin
  queue : List InternalMessage
  /-- The interval of the heartbeat, if there is one. -/
  heartbeat : Option ℕ
  lastBbo : Option (Option BboEntry)

namespace BboConnection

/-- A connection that was just made. -/
def new (coin : Coin) (univ : Std.ExtTreeSet Coin) (heartbeat : Option ℕ) : BboConnection where
  coin := coin
  univ := univ
  queue := []
  heartbeat := heartbeat
  lastBbo := none

/-- Subscribe, unless subscribed. -/
def subscribe (c : BboConnection) : BboConnection :=
  if c.univ.contains c.coin then { c with lastBbo := some (c.lastBbo.getD none) } else c

/-- End the subscription, and forget what was sent. -/
def unsubscribe (c : BboConnection) : BboConnection :=
  if c.univ.contains c.coin then { c with lastBbo := none } else c

section Send

variable [FixedPoint]

/-- Take a message. -/
def deliver (c : BboConnection) (now : ℕ) : InternalMessage → BboConnection × List Bbo
  | .bboUpdate bbos time =>
    match c.lastBbo with
    | some last =>
      let r := sendWsDataFromBbo now c.coin bbos time last c.heartbeat.isSome
      ({ c with lastBbo := some r.1 }, r.2.toList)
    | none => (c, [])
  | .snapshot _ _ _ _ _ univ => ({ c with univ := univ.getD c.univ }, [])
  | _ => (c, [])

end Send

/-- Send a frame again that was sent too long ago. -/
def resend (c : BboConnection) (now time : ℕ) : BboConnection × List Bbo :=
  match c.lastBbo, c.heartbeat with
  | some (some entry), some interval =>
    match entry.payload with
    | some payload =>
      if interval ≤ now - entry.lastSent then
        let payload := { payload with time }
        ({ c with lastBbo := some (some ⟨entry.tuple, now, some payload⟩) }, [payload])
      else (c, [])
    | none => (c, [])
  | _, _ => (c, [])

/-! ### What waits -/

/-- What a message makes of the prices noted for a coin. -/
def settle (coin : Coin) (noted : Option BboKey) : InternalMessage → Option BboKey
  | .bboUpdate bbos _ =>
    match bbos[coin]? with
    | some raw => some (bboKey raw)
    | none => noted
  | _ => noted

/-- The prices noted of the last frame. -/
def noted (c : BboConnection) : Option BboKey := c.lastBbo.join.map BboEntry.tuple

/-- The prices noted once the waiting messages are taken. -/
def settled (c : BboConnection) : Option BboKey := c.queue.foldl (settle c.coin) c.noted

end BboConnection

/-- The listener and a connection. -/
structure BboFeed where
  ingest : Ingest
  connection : BboConnection

/-- What happens: a step of the listener, a request of the client, the next message, a
heartbeat. -/
inductive BboFeedOp where
  | ingest (op : IngestOp)
  | subscribe
  | unsubscribe
  | receive (now : ℕ)
  | heartbeat (now time : ℕ)

/-- Whether a step of the listener finds the best prices wanted, if the connection is
subscribed to some. -/
def IngestOp.wantsBbo (op : IngestOp) (c : BboConnection) : Bool :=
  match op with
  | .apply env _ _ => c.lastBbo.isNone || env.wants .bbo
  | _ => true

variable [SlabPolicy] [FixedPoint]

/-- One event; `none` when it cannot happen now, or is a panic. -/
def BboFeed.step (f : BboFeed) : BboFeedOp → Option (BboFeed × List Bbo)
  | .ingest op =>
    if op.wantsBbo f.connection then
      (f.ingest.step op).map fun r =>
        (⟨r.1, { f.connection with queue := f.connection.queue ++ r.2 }⟩, [])
    else none
  | .subscribe => some ({ f with connection := f.connection.subscribe }, [])
  | .unsubscribe => some ({ f with connection := f.connection.unsubscribe }, [])
  | .receive now =>
    match f.connection.queue with
    | [] => none
    | m :: rest =>
      let (c, said) := { f.connection with queue := rest }.deliver now m
      some ({ f with connection := c }, said)
  | .heartbeat now time =>
    let (c, said) := f.connection.resend now time
    some ({ f with connection := c }, said)

/-! ## The best prices of a book -/

/-- The best prices of a coin, none without a book. -/
def OrderBooks.bbo (books : OrderBooks InnerL4Order) (coin : Coin) : RawBbo :=
  match books.orderBooks[coin]? with
  | none => (none, none)
  | some book => book.raw.getBbo

theorem OrderBooks.bbo_eq_book (books : OrderBooks InnerL4Order) (coin : Coin) :
    books.bbo coin = (books.book coin).raw.getBbo := by
  rw [bbo, book]
  cases books.orderBooks[coin]? with
  | some b => rfl
  | none => rfl

theorem OrderBooks.SameLevels.bbo {books books' : OrderBooks InnerL4Order} {coin : Coin}
    (h : books.SameLevels books' coin) : books.bbo coin = books'.bbo coin := by
  rw [bbo_eq_book, bbo_eq_book]
  exact OrderBook.SameLevels.getBbo h

/-- What is reported of some coins. -/
theorem OrderBookState.getElem?_getBbosForCoins (s : OrderBookState) (coins : Std.ExtTreeSet Coin)
    (coin : Coin) : (s.getBbosForCoins coins).2[coin]? =
      if coin ∈ coins then some (s.orderBook.bbo coin) else none := by
  have hbbos : (s.getBbosForCoins coins).2 =
      Std.ExtTreeMap.ofList (coins.toList.map fun coin => (coin, s.orderBook.bbo coin)) := rfl
  rw [hbbos]
  split
  case isTrue hcoin =>
    refine Std.ExtTreeMap.getElem?_ofList_of_mem Std.ReflCmp.compare_self ?_ ?_
    · rw [List.pairwise_map]
      exact (Std.ExtTreeSet.distinct_toList (t := coins) :)
    · exact List.mem_map.mpr ⟨coin, Std.ExtTreeSet.mem_toList.mpr hcoin, rfl⟩
  case isFalse hcoin =>
    apply Std.ExtTreeMap.getElem?_ofList_of_contains_eq_false
    rw [Bool.eq_false_iff, Ne, List.contains_iff_mem, List.map_map]
    intro hmem
    obtain ⟨c, hc, rfl⟩ := List.mem_map.mp hmem
    exact hcoin (Std.ExtTreeSet.mem_toList.mp hc)

/-! ## What a step of the listener reports -/

section Listener

variable {i i' : Ingest} {op : IngestOp} {sent : List InternalMessage} {coin : Coin}

theorem foldl_settle {ms : List InternalMessage}
    (h : ∀ m ∈ ms, ∀ bbos time, m ≠ .bboUpdate bbos time) (noted : Option BboKey) :
    ms.foldl (BboConnection.settle coin) noted = noted := by
  induction ms generalizing noted with
  | nil => rfl
  | cons m ms ih =>
    rw [List.foldl_cons, ih fun m' hm' => h m' (List.mem_cons_of_mem _ hm')]
    cases m with
    | bboUpdate bbos time => exact absurd rfl (h _ List.mem_cons_self bbos time)
    | _ => rfl

/-- No step takes the channel away. -/
theorem internalMessageTx_step (h : i.step op = some (i', sent)) :
    i'.listener.internalMessageTx = i.listener.internalMessageTx := by
  have hmark : ∀ {l l' : OrderBookListener}, l.Marked l' →
      l'.internalMessageTx = l.internalMessageTx := by
    intro l l' h
    obtain ⟨c, n, r, d, b, rfl⟩ := h.eq
    rfl
  have happlied : ∀ {l l' : OrderBookListener}, l.Applied l' →
      l'.internalMessageTx = l.internalMessageTx := by
    intro l l' h
    obtain ⟨s, p, n, rfl⟩ := h.eq
    rfl
  have hinstall : ∀ {now l state height failed l'},
      OrderBookListener.finishInstall now l state height failed = some l' →
        l'.internalMessageTx = l.internalMessageTx := by
    intro now l state height failed l' h
    rw [finishInstall] at h
    split at h
    · cases h
    · rw [Option.some.injEq] at h
      subst h
      simp only [settleLosses]
      split
      · rw [hmark (markDesynced_marked _)]
      · split <;> rfl
  cases op with
  | apply env height batch =>
    simp only [Ingest.step, Option.map_eq_some_iff, Prod.exists, Prod.mk.injEq] at h
    obtain ⟨l', sent', h, rfl, rfl⟩ := h
    have hkeep := hmark (cacheForReplay_marked (i.listener.see height) batch)
    rcases applyEventBatch_cases h with ⟨-, rfl, -⟩ | ⟨-, -, rfl, -⟩ | ⟨-, state, -, hlive⟩
    · exact (hmark (markDesynced_marked (i.listener.see height)) :)
    · exact hkeep
    · obtain ⟨l₁, sent₁, result, heq, -, rfl, -⟩ := applyLive_eq_some hlive
      have h₁ := happlied (applyToState_applied env
        ((i.listener.see height).cacheForReplay batch).1 state batch)
      rw [heq] at h₁
      have h₂ := happlied (maintain_applied env.now l₁)
      rw [conclude_fst]
      refine Eq.trans ?_ (h₂.trans (h₁.trans hkeep))
      split
      · exact (hmark (markDesynced_marked (l₁.maintain env.now).1) :)
      · rfl
  | desync line =>
    cases h
    exact hmark (markDesynced_marked _)
  | flush env =>
    cases h
    obtain ⟨last, cache, dirty, active, heq⟩ := flushL2IfDue_fst env i.listener
    simp only [heq]
  | beginFetch head =>
    cases h
    exact (hmark (beginCaching_marked i.listener) :)
  | build snapshot untriggered height =>
    cases h
    rfl
  | chase now =>
    obtain ⟨p, rfl, -⟩ := Ingest.chase_eq_some h
    rfl
  | commit now =>
    obtain ⟨p, l₀, l₁, -, hl₀, hfinish, hmarked, -⟩ := Ingest.commit_eq_some h
    rw [hmark hmarked, hinstall hfinish]
    rcases hl₀ with rfl | rfl <;> rfl
  | init now snapshot height =>
    rw [Ingest.step] at h
    obtain ⟨l', hinit, hr⟩ := Option.map_eq_some_iff.mp h
    cases hr
    rw [initFromSnapshot] at hinit
    exact (hinstall hinit :)

/-- Taking in a batch reports the coins that changed, as long as someone wants that. -/
theorem settle_applyEventBatch {env : Env} {l l' : OrderBookListener} {height : ℕ}
    {batch : EventBatch} (h : l.applyEventBatch env height batch = some (l', sent))
    (htx : l'.internalMessageTx = true) (hwants : env.wants .bbo = true) :
    (l'.books = l.books ∧ ∀ noted, sent.foldl (BboConnection.settle coin) noted = noted) ∨
    ∃ state state' result, batch.eventsLen ≤ maxEventsPerBatch ∧ l.orderBookState = some state ∧
      batch.applyTo env.now state = (state', result) ∧ state'.orderBook.SameLevels l'.books coin ∧
      ∀ noted, sent.foldl (BboConnection.settle coin) noted =
        if coin ∈ result.toOption.getD ∅ then some (bboKey (l'.books.bbo coin)) else noted := by
  rcases applyEventBatch_books h with ⟨heq, rfl⟩ | ⟨state, state', result, l₁, l₂, hlen, hstate,
    happly, hready, hlevels, rfl, rfl⟩
  · exact Or.inl ⟨heq, fun _ => rfl⟩
  · refine Or.inr ⟨state, state', result, hlen, hstate, happly, hlevels coin, fun noted => ?_⟩
    have hevents : ∀ m ∈ (l₁.applyToState env state batch).2.1, ∀ bbos time,
        m ≠ .bboUpdate bbos time := by
      intro m hm bbos time heq
      subst heq
      rcases mem_applyToState hm with ⟨_, _, _, heq⟩ | ⟨_, _, _, heq⟩ | ⟨_, heq⟩ <;> cases heq
    obtain ⟨state₂, hstate₂⟩ := Option.isSome_iff_exists.mp hready
    have hbooks : (l₂.extendDirty (result.toOption.getD ∅)).books = state₂.orderBook :=
      books_of_some hstate₂
    rw [List.foldl_append, foldl_settle hevents, hbooks, bboBroadcast, hstate₂]
    simp only
    by_cases hempty : (result.toOption.getD ∅).isEmpty = true
    · rw [if_neg (by simp [hempty]), Std.ExtTreeSet.isEmpty_iff.mp hempty,
        if_neg Std.ExtTreeSet.not_mem_empty]
      rfl
    · have htx₂ : l₂.internalMessageTx = true := htx
      rw [if_pos (by simp [hempty, htx₂, hwants]), List.foldl_cons, List.foldl_nil,
        BboConnection.settle, OrderBookState.getElem?_getBbosForCoins]
      by_cases hcoin : coin ∈ result.toOption.getD ∅
      · rw [if_pos hcoin, if_pos hcoin]
      · rw [if_neg hcoin, if_neg hcoin]

/-- Only taking in a batch reports best prices. -/
theorem settle_step (h : i.step op = some (i', sent))
    (hop : ∀ env height batch, op ≠ .apply env height batch) (noted : Option BboKey) :
    sent.foldl (BboConnection.settle coin) noted = noted := by
  cases op with
  | apply env height batch => exact absurd rfl (hop env height batch)
  | desync line =>
    cases h
    rfl
  | flush env =>
    cases h
    apply foldl_settle
    rintro m hm bbos time rfl
    rcases flushL2IfDue_cases env i.listener with ⟨hsent, -⟩ | ⟨-, hsent, -⟩ |
      ⟨-, -, state, -, last, heq⟩
    · rw [hsent] at hm
      cases hm
    · rw [hsent] at hm
      cases hm
    · rw [heq, broadcastL2] at hm
      simp only at hm
      split at hm
      · cases List.mem_singleton.mp hm
      · cases hm
  | beginFetch head =>
    cases h
    rfl
  | build snapshot untriggered height =>
    cases h
    rfl
  | chase now =>
    obtain ⟨p, -, rfl⟩ := Ingest.chase_eq_some h
    rfl
  | commit now =>
    obtain ⟨p, l₀, l₁, -, -, -, -, rfl⟩ := Ingest.commit_eq_some h
    rfl
  | init now snapshot height =>
    rw [Ingest.step] at h
    obtain ⟨l', -, hr⟩ := Option.map_eq_some_iff.mp h
    cases hr
    rfl

/-- Whether a step that changes the books reports nothing: a batch that fails, or the end
of an install. -/
def IngestOp.unreported (l : OrderBookListener) : IngestOp → Bool
  | .apply env _ batch => decide (batch.eventsLen ≤ maxEventsPerBatch) &&
    l.orderBookState.any fun state => !(batch.applyTo env.now state).2.isOk
  | .commit _ | .init _ _ _ => true
  | _ => false

/-- **A step of the listener keeps the prices that will be noted those of the book**, if
it reports what it changes. -/
theorem settled_current (h : i.step op = some (i', sent))
    (htx : i.listener.internalMessageTx = true)
    (hwants : ∀ env height batch, op = .apply env height batch → env.wants .bbo = true)
    {noted : Option BboKey} (hnoted : ∀ key ∈ noted, key = bboKey (i.listener.books.bbo coin))
    (hreports : noted.isSome = true → op.unreported i.listener = true →
      bboKey (i'.listener.books.bbo coin) = bboKey (i.listener.books.bbo coin)) :
    ∀ key ∈ sent.foldl (BboConnection.settle coin) noted,
      key = bboKey (i'.listener.books.bbo coin) := by
  have htx' := (internalMessageTx_step h).trans htx
  by_cases hbatch : ∃ env height batch, op = .apply env height batch
  · obtain ⟨env, height, batch, rfl⟩ := hbatch
    have hstep := h
    simp only [Ingest.step, Option.map_eq_some_iff, Prod.exists, Prod.mk.injEq] at h
    obtain ⟨l', sent', happly, rfl, rfl⟩ := h
    rcases settle_applyEventBatch happly htx' (hwants env height batch rfl) with ⟨hbooks, hsettle⟩ |
      ⟨state, state', result, hlen, hstate, heq, hlevels, hsettle⟩
    · intro key hkey
      rw [hsettle] at hkey
      rw [hnoted key hkey, hbooks]
    · intro key hkey
      rw [hsettle] at hkey
      split at hkey
      case isTrue => exact (Option.mem_some_iff.mp hkey).symm
      case isFalse hcoin =>
        rw [hnoted key hkey]
        cases result with
        | ok changed =>
          rw [books_of_some hstate, (applyTo_reports heq hcoin).bbo, hlevels.bbo]
        | error failure =>
          refine (hreports (Option.isSome_iff_exists.mpr ⟨key, hkey⟩) ?_).symm
          simp [IngestOp.unreported, hlen, hstate, heq, Except.isOk, Except.toBool]
  · have hop : ∀ env height batch, op ≠ .apply env height batch :=
      fun env height batch heq => hbatch ⟨env, height, batch, heq⟩
    intro key hkey
    rw [settle_step h hop] at hkey
    rw [hnoted key hkey]
    cases hinstalls : op.installs with
    | false => rw [books_step h hinstalls hop]
    | true =>
      refine (hreports (Option.isSome_iff_exists.mpr ⟨key, hkey⟩) ?_).symm
      cases op <;> first | rfl | cases hinstalls

end Listener

/-! ## The connection -/

/-- What is asked of a step: while there is a frame to keep current, no step changes the
coin's best prices unreported; and no report from before the subscription that still waits
is out of date. -/
def BboFeed.Reports (f : BboFeed) : BboFeedOp → Prop
  | .ingest op => f.connection.lastBbo.isSome = true → f.connection.settled.isSome = true →
    op.unreported f.ingest.listener = true → ∀ r ∈ f.ingest.step op,
      bboKey (r.1.listener.books.bbo f.connection.coin) =
        bboKey (f.ingest.listener.books.bbo f.connection.coin)
  | .subscribe => f.connection.lastBbo.isNone = true →
    ∀ key ∈ f.connection.settled, key = bboKey (f.ingest.listener.books.bbo f.connection.coin)
  | _ => True

instance BboFeed.decidableReports (f : BboFeed) : ∀ op : BboFeedOp, Decidable (f.Reports op)
  | .ingest op => inferInstanceAs (Decidable (_ = true → _ = true → _ = true →
    ∀ r ∈ f.ingest.step op, bboKey (r.1.listener.books.bbo f.connection.coin) =
      bboKey (f.ingest.listener.books.bbo f.connection.coin)))
  | .subscribe => inferInstanceAs (Decidable (_ = true → ∀ key ∈ f.connection.settled,
    key = bboKey (f.ingest.listener.books.bbo f.connection.coin)))
  | .unsubscribe | .receive _ | .heartbeat _ _ => inferInstanceAs (Decidable True)

/-- Sending a frame again changes nothing but when it was sent. -/
theorem BboConnection.resend_cases (c : BboConnection) (now time : ℕ) :
    c.resend now time = (c, []) ∨
    ∃ entry payload, c.lastBbo = some (some entry) ∧ entry.payload = some payload ∧
      c.resend now time =
        ({ c with lastBbo := some (some ⟨entry.tuple, now, some { payload with time }⟩) },
          [{ payload with time }]) := by
  rw [resend]
  split
  case h_1 entry interval hlast hbeat =>
    split
    case h_1 payload hpayload =>
      split
      · exact Or.inr ⟨entry, payload, hlast, hpayload, rfl⟩
      · exact Or.inl rfl
    case h_2 => exact Or.inl rfl
  case h_2 => exact Or.inl rfl

/-- What is noted of the last frame is what it shows. -/
structure BboEntry.Shown (entry : BboEntry) (said : List Bbo) : Prop where
  frame : ∃ frame, said.getLast? = some frame ∧ frame.prices = entry.tuple.written
  payload : ∀ frame ∈ entry.payload, frame.prices = entry.tuple.written

/-- **The best prices on screen**, once the messages that wait are taken. -/
structure BboCurrent (coin : Coin) (f : BboFeed) (said : List Bbo) : Prop where
  about : f.connection.coin = coin
  channel : f.ingest.listener.internalMessageTx = true
  settled : f.connection.lastBbo.isSome = true → ∀ key ∈ f.connection.settled,
    key = bboKey (f.ingest.listener.books.bbo coin)
  shown : ∀ entry, f.connection.lastBbo = some (some entry) → entry.Shown said

theorem bboCurrent_new {i : Ingest} (h : i.listener.internalMessageTx = true) (coin : Coin)
    (univ : Std.ExtTreeSet Coin) (interval : Option ℕ) :
    BboCurrent coin ⟨i, .new coin univ interval⟩ [] := by
  refine ⟨rfl, h, fun hsome => ?_, fun entry hentry => ?_⟩
  · cases hsome
  · cases hentry

theorem prices_rendered (coin : Coin) (time : ℕ) (raw : RawBbo) :
    (Bbo.mk coin time (raw.1.map bboLevel) (raw.2.map bboLevel)).prices = (bboKey raw).written := by
  simp only [Bbo.prices, BboKey.written, bboKey, Option.map_map]
  rfl

/-- **What a report sends** is what is noted of it. -/
theorem sendWsDataFromBbo_spec (now : ℕ) (coin : Coin) (bbos : Std.ExtTreeMap Coin RawBbo)
    (time : ℕ) {last : Option BboEntry} (storePayload : Bool) {said : List Bbo}
    (h : ∀ entry, last = some entry → entry.Shown said) :
    (sendWsDataFromBbo now coin bbos time last storePayload).1.map BboEntry.tuple =
      BboConnection.settle coin (last.map BboEntry.tuple) (.bboUpdate bbos time) ∧
    ∀ entry, (sendWsDataFromBbo now coin bbos time last storePayload).1 = some entry →
      entry.Shown (said ++ (sendWsDataFromBbo now coin bbos time last storePayload).2.toList) := by
  rw [sendWsDataFromBbo, BboConnection.settle]
  cases bbos[coin]? with
  | none =>
    refine ⟨rfl, fun entry hentry => ?_⟩
    simp only [Option.toList_none, List.append_nil]
    exact h entry hentry
  | some raw =>
    by_cases hsame : last.map BboEntry.tuple = some (bboKey raw)
    · simp only [hsame, if_true, Option.toList_none, List.append_nil]
      exact ⟨trivial, h⟩
    · simp only [hsame, if_false, Option.map_some, Option.toList_some]
      refine ⟨trivial, fun entry hentry => ?_⟩
      cases hentry
      refine ⟨⟨_, by simp, prices_rendered coin time raw⟩, fun frame hframe => ?_⟩
      split at hframe
      · rw [← Option.mem_some_iff.mp hframe]
        exact prices_rendered coin time raw
      · cases hframe

namespace BboCurrent

variable {coin : Coin} {f f' : BboFeed} {said said' : List Bbo}

theorem ingest {op : IngestOp} (h : BboCurrent coin f said) (hreports : f.Reports (.ingest op))
    (hstep : f.step (.ingest op) = some (f', said')) : BboCurrent coin f' (said ++ said') := by
  rw [BboFeed.step] at hstep
  split at hstep
  case isFalse => cases hstep
  case isTrue hwants =>
    obtain ⟨⟨i, sent⟩, hi, hr⟩ := Option.map_eq_some_iff.mp hstep
    cases hr
    rw [List.append_nil]
    refine ⟨h.about, (internalMessageTx_step hi).trans h.channel, fun hsome key hkey => ?_, h.shown⟩
    have hsome' : f.connection.lastBbo.isSome = true := hsome
    rw [BboConnection.settled, List.foldl_append] at hkey
    refine settled_current hi h.channel ?_ (h.settled hsome') ?_ key (h.about ▸ hkey)
    · rintro env height batch rfl
      rw [IngestOp.wantsBbo, Option.isNone_eq_false_iff.mpr hsome', Bool.false_or] at hwants
      exact hwants
    · intro hnoted hunreported
      rw [← h.about]
      exact hreports hsome' hnoted hunreported _ hi

theorem receive {now : ℕ} (h : BboCurrent coin f said)
    (hstep : f.step (.receive now) = some (f', said')) : BboCurrent coin f' (said ++ said') := by
  rw [BboFeed.step] at hstep
  cases hqueue : f.connection.queue with
  | nil => simp [hqueue] at hstep
  | cons m rest =>
    simp only [hqueue, Option.some.injEq, Prod.mk.injEq] at hstep
    obtain ⟨rfl, rfl⟩ := hstep
    -- Only a report of the coin, taken while subscribed, changes what is noted.
    have hother : ∀ c : BboConnection, c.coin = f.connection.coin → c.queue = rest →
        c.lastBbo = f.connection.lastBbo →
        (f.connection.lastBbo.isSome = true → ∀ noted, BboConnection.settle coin noted m = noted) →
        BboCurrent coin ⟨f.ingest, c⟩ said := by
      intro c hcoin hrest hlast hsettle
      refine ⟨hcoin.trans h.about, h.channel, fun hsome key hkey => ?_, fun entry hentry => ?_⟩
      · have hsome' : f.connection.lastBbo.isSome = true := by rw [← hlast]; exact hsome
        refine h.settled hsome' key ?_
        rw [BboConnection.settled, hqueue, List.foldl_cons, h.about, hsettle hsome']
        rw [BboConnection.settled, BboConnection.noted, hrest, hlast, hcoin, h.about] at hkey
        exact hkey
      · exact h.shown entry (hlast ▸ hentry)
    cases m with
    | bboUpdate bbos time =>
      rw [BboConnection.deliver]
      cases hlast : f.connection.lastBbo with
      | none =>
        simp only [List.append_nil]
        refine hother _ rfl rfl hlast.symm ?_
        rw [hlast]
        nofun
      | some last =>
        obtain ⟨htuple, hshown⟩ := sendWsDataFromBbo_spec now f.connection.coin bbos time
          f.connection.heartbeat.isSome
          fun entry hentry => h.shown entry (hlast.trans (congrArg some hentry))
        refine ⟨h.about, h.channel, fun _ key hkey => ?_, fun entry hentry => ?_⟩
        · refine h.settled (by rw [hlast]; rfl) key ?_
          rw [BboConnection.settled, BboConnection.noted, hlast, hqueue, List.foldl_cons,
            Option.join_some, ← htuple]
          exact hkey
        · exact hshown entry (Option.some.inj hentry)
    | snapshot snapshot previous time height dirty univ =>
      simpa [BboConnection.deliver] using
        hother { f.connection with queue := rest, univ := univ.getD f.connection.univ } rfl rfl rfl
          fun _ _ => rfl
    | fills byCoin =>
      simpa [BboConnection.deliver] using
        hother { f.connection with queue := rest } rfl rfl rfl fun _ _ => rfl
    | l4OrderDiffs time height byCoin =>
      simpa [BboConnection.deliver] using
        hother { f.connection with queue := rest } rfl rfl rfl fun _ _ => rfl
    | l4OrderStatuses time height byCoin =>
      simpa [BboConnection.deliver] using
        hother { f.connection with queue := rest } rfl rfl rfl fun _ _ => rfl

theorem heartbeat {now time : ℕ} (h : BboCurrent coin f said)
    (hstep : f.step (.heartbeat now time) = some (f', said')) :
    BboCurrent coin f' (said ++ said') := by
  simp only [BboFeed.step] at hstep
  rcases BboConnection.resend_cases f.connection now time with heq | ⟨entry, payload, hlast,
    hpayload, heq⟩
  · rw [heq] at hstep
    cases hstep
    rw [List.append_nil]
    exact h
  · have hprices := (h.shown entry hlast).payload payload hpayload
    rw [heq] at hstep
    cases hstep
    refine ⟨h.about, h.channel, fun _ key hkey => ?_, fun entry' hentry => ?_⟩
    · refine h.settled (by rw [hlast]; rfl) key ?_
      rw [BboConnection.settled, BboConnection.noted, hlast]
      exact hkey
    · cases hentry
      refine ⟨⟨{ payload with time }, by simp, hprices⟩, fun frame hframe => ?_⟩
      rw [← Option.mem_some_iff.mp hframe]
      exact hprices

theorem subscribe (h : BboCurrent coin f said) (hreports : f.Reports .subscribe)
    (hstep : f.step .subscribe = some (f', said')) : BboCurrent coin f' (said ++ said') := by
  cases hstep
  rw [List.append_nil, BboConnection.subscribe]
  split
  case isFalse => exact h
  case isTrue =>
    cases hlast : f.connection.lastBbo with
    | some last =>
      refine ⟨h.about, h.channel, fun _ key hkey => ?_, fun entry hentry => ?_⟩
      · refine h.settled (by rw [hlast]; rfl) key ?_
        rw [BboConnection.settled, BboConnection.noted, hlast]
        exact hkey
      · exact h.shown entry (hlast.trans hentry)
    | none =>
      refine ⟨h.about, h.channel, fun _ key hkey => ?_, nofun⟩
      rw [← h.about]
      refine hreports (by rw [hlast]; rfl) key ?_
      rw [BboConnection.settled, BboConnection.noted, hlast]
      exact hkey

theorem unsubscribe (h : BboCurrent coin f said) (hstep : f.step .unsubscribe = some (f', said')) :
    BboCurrent coin f' (said ++ said') := by
  cases hstep
  rw [List.append_nil, BboConnection.unsubscribe]
  split
  case isFalse => exact h
  case isTrue => exact ⟨h.about, h.channel, nofun, nofun⟩

/-- **A step keeps the prices on screen current.** -/
theorem step {op : BboFeedOp} (h : BboCurrent coin f said) (hreports : f.Reports op)
    (hstep : f.step op = some (f', said')) : BboCurrent coin f' (said ++ said') := by
  cases op with
  | ingest op => exact h.ingest hreports hstep
  | subscribe => exact h.subscribe hreports hstep
  | unsubscribe => exact h.unsubscribe hstep
  | receive now => exact h.receive hstep
  | heartbeat now time => exact h.heartbeat hstep

end BboCurrent

/-- **The best prices on screen are the book's**, once every message is taken, in a run
that reports what it changes. -/
theorem lastFrame_eq_bbo {spot : Bool} {filter : MarketFilter} {ops : List IngestOp} {i : Ingest}
    {sent : List InternalMessage} {coin : Coin} {univ : Std.ExtTreeSet Coin} {interval : Option ℕ}
    {es : List BboFeedOp} {f : BboFeed} {said : List Bbo}
    (hreach : runSteps Ingest.step ops ⟨.new true spot filter, none⟩ = some (i, sent))
    (hrun : runSteps BboFeed.step es ⟨i, .new coin univ interval⟩ = some (f, said))
    (hreports : Runs.Meets BboFeed.step (fun _ f op => f.Reports op) [] es
      ⟨i, .new coin univ interval⟩)
    (hfirst : f.connection.lastBbo.join.isSome = true) (hempty : f.connection.queue = []) :
    ∃ frame, said.getLast? = some frame ∧
      frame.prices = (bboKey (f.ingest.listener.books.bbo coin)).written := by
  have hchannel : i.listener.internalMessageTx = true :=
    Runs.invariant (P := fun i => i.listener.internalMessageTx = true) (Q := fun _ => True)
      (fun i op i' sent _ h hstep => (internalMessageTx_step hstep).trans h) rfl
      (fun _ _ => trivial) hreach
  have hcurrent : BboCurrent coin f said := by
    refine hreports.rule (I := fun said f => BboCurrent coin f said) ?_ ?_ hrun
    · intro said f op f' said' hreports h hstep
      exact h.step hreports hstep
    · exact bboCurrent_new hchannel coin univ interval
  obtain ⟨entry, hentry⟩ := Option.isSome_iff_exists.mp hfirst
  have hlast := Option.join_eq_some_iff.mp hentry
  obtain ⟨frame, hframe, hprices⟩ := (hcurrent.shown entry hlast).frame
  have hsettled := hcurrent.settled (by rw [hlast]; rfl) entry.tuple
  refine ⟨frame, hframe, ?_⟩
  rw [hprices, hsettled]
  rw [BboConnection.settled, hempty, BboConnection.noted, hentry]
  rfl

end HlOrderbook

namespace HlOrderbook

section Example

attribute [local instance] SlabPolicy.latest FixedPoint.decimal

/-- A book with one bid. -/
def bboBid : List IngestOp :=
  [.init 0 ((∅ : Snapshots InnerL4Order).insert "BTC"
    ⟨[.limit "BTC" .bid 10000000000 100000000 7], []⟩) 1000]

/-- The bid becomes smaller while it is subscribed to. -/
def smallerBbo : List BboFeedOp :=
  [.subscribe, .ingest (.apply ⟨0, ∅, fun kind => kind = .bbo, 1⟩ 1001
    (.bookDiffs ⟨1001, 1001, [⟨1, 7, "100", "BTC", .update "1" "0.5"⟩]⟩)), .receive 1]

theorem lastFrame_eq_bbo_smallerBbo : ∃ i sent f said frame,
    runSteps Ingest.step bboBid ⟨.new true true ⟨true, true, true⟩, none⟩ = some (i, sent) ∧
    runSteps BboFeed.step smallerBbo ⟨i, .new "BTC" i.listener.univ none⟩ = some (f, said) ∧
    said.getLast? = some frame ∧
    frame.prices = (bboKey (f.ingest.listener.books.bbo "BTC")).written ∧
    frame.prices = (some ("100", "0.5"), none) := by
  have hend : ∃ r ∈ runSteps Ingest.step bboBid ⟨.new true true ⟨true, true, true⟩, none⟩,
      Runs.Meets BboFeed.step (fun _ f op => f.Reports op) [] smallerBbo
        ⟨r.1, .new "BTC" r.1.listener.univ none⟩ ∧
      ∃ r' ∈ runSteps BboFeed.step smallerBbo ⟨r.1, .new "BTC" r.1.listener.univ none⟩,
        r'.1.connection.lastBbo.join.isSome = true ∧ r'.1.connection.queue.length = 0 ∧
        (bboKey (r'.1.ingest.listener.books.bbo "BTC")).written = (some ("100", "0.5"), none) := by
    decide +kernel
  obtain ⟨⟨i, sent⟩, hreach, hreports, ⟨f, said⟩, hrun, hfirst, hempty, hprices⟩ := hend
  obtain ⟨frame, hframe, heq⟩ :=
    lastFrame_eq_bbo hreach hrun hreports hfirst (List.length_eq_zero_iff.mp hempty)
  exact ⟨i, sent, f, said, frame, hreach, hrun, hframe, heq, heq.trans hprices⟩

/-- A snapshot without the coin is installed. -/
def vanishedBbo : List BboFeedOp :=
  smallerBbo ++ [.ingest (.beginFetch 1002),
    .ingest (.build ((∅ : Snapshots InnerL4Order).insert "ETH"
      ⟨[.limit "ETH" .bid 10000000000 100000000 9], []⟩) [] 1002),
    .ingest (.commit 0)]

/-- **The best bid of a book that is gone stays on screen.** -/
theorem lastFrame_vanishedBbo : ∃ i sent f said frame,
    runSteps Ingest.step bboBid ⟨.new true true ⟨true, true, true⟩, none⟩ = some (i, sent) ∧
    runSteps BboFeed.step vanishedBbo ⟨i, .new "BTC" i.listener.univ none⟩ = some (f, said) ∧
    f.connection.lastBbo.join.isSome = true ∧ f.connection.queue = [] ∧
    said.getLast? = some frame ∧ frame.prices = (some ("100", "0.5"), none) ∧
    f.ingest.listener.books.bbo "BTC" = (none, none) := by
  have hend : ∃ r ∈ runSteps Ingest.step bboBid ⟨.new true true ⟨true, true, true⟩, none⟩,
      ∃ r' ∈ runSteps BboFeed.step vanishedBbo ⟨r.1, .new "BTC" r.1.listener.univ none⟩,
        r'.1.connection.lastBbo.join.isSome = true ∧ r'.1.connection.queue.length = 0 ∧
        r'.2.getLast? = some ⟨"BTC", 1001, some ⟨"100", "0.5", 1⟩, none⟩ ∧
        (r'.1.ingest.listener.books.bbo "BTC").1 = none ∧
        (r'.1.ingest.listener.books.bbo "BTC").2 = none := by
    decide +kernel
  obtain ⟨⟨i, sent⟩, hreach, ⟨f, said⟩, hrun, hfirst, hempty, hframe, hbid, hask⟩ := hend
  exact ⟨i, sent, f, said, _, hreach, hrun, hfirst, List.length_eq_zero_iff.mp hempty, hframe, rfl,
    Prod.ext hbid hask⟩

end Example

end HlOrderbook
