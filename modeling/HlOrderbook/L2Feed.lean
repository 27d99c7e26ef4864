import HlOrderbook.L2Flush
import HlOrderbook.L2Frames

/-!
# The feed of aggregated books

One connection, and one coin, shape and depth it can take both channels of.  The
messages of the listener wait in a queue of the connection; when the queue gets
too long the oldest are dropped, and the connection is told.  What the connection
sends, and what it did to send it, is written down as it happens.

The notes a connection keeps are kept by coin, shape and depth, so other
subscriptions of the connection do not touch these.

## Main definitions

* `L2Connection`, `L2Feed`, `L2FeedOp`, `L2Event`, `L2Feed.step` — the system.
* `shown`, `rebuilt` — the last book a client was sent, and the one it put together.
-/

set_option autoImplicit false
set_option linter.unusedSectionVars false

namespace HlOrderbook

/-- The two channels of the aggregated book. -/
inductive L2Channel where
  | book
  | diff
  deriving DecidableEq

/-- A connection.  For each channel that was subscribed to there is the note of
what was sent last on it, if anything was. -/
structure L2Connection where
  subscription : L2Subscription
  univ : Std.ExtTreeSet Coin
  queue : List Broadcast
  forceFull : Bool
  /-- The interval of the heartbeat, if there is one. -/
  heartbeat : Option ℕ
  lastL2 : Option (Option L2Entry)
  lastL2Diff : Option (Option ℕ)

/-- The listener and a connection. -/
structure L2Feed where
  ingest : Ingest
  connection : L2Connection

/-- What happens: a step of the listener, a request of the client, the next
message, the loss of the oldest messages, a heartbeat. -/
inductive L2FeedOp where
  | ingest (op : IngestOp)
  | subscribe (channel : L2Channel)
  | unsubscribe (channel : L2Channel)
  | receive (now : ℕ)
  | lag (n : ℕ)
  | heartbeat (now time : ℕ)

/-- What is written down: a message is taken, with the channels subscribed to; the
levels of a book are compared with what was sent last; a frame is sent for a
message; a book is sent again; messages were lost. -/
inductive L2Event where
  | taken (m : L2Broadcast) (book diff : Bool)
  | compared (levels : L2Levels)
  | book (m : L2Broadcast) (frame : L2Book)
  | diff (m : L2Broadcast) (frame : L2Diff)
  | again (frame : L2Book)
  | lagged (book diff : Bool)

namespace L2Connection

/-- A connection that was just made. -/
def new (subscription : L2Subscription) (univ : Std.ExtTreeSet Coin) (heartbeat : Option ℕ) :
    L2Connection where
  subscription := subscription
  univ := univ
  queue := []
  forceFull := false
  heartbeat := heartbeat
  lastL2 := none
  lastL2Diff := none

/-- Subscribe to a channel, unless it is subscribed to. -/
def subscribe (c : L2Connection) (channel : L2Channel) : L2Connection :=
  if c.subscription.validate c.univ then
    match channel with
    | .book => { c with lastL2 := some (c.lastL2.getD none) }
    | .diff => { c with lastL2Diff := some (c.lastL2Diff.getD none) }
  else c

/-- End a subscription, and forget what was sent. -/
def unsubscribe (c : L2Connection) (channel : L2Channel) : L2Connection :=
  if c.subscription.validate c.univ then
    match channel with
    | .book => { c with lastL2 := none }
    | .diff => { c with lastL2Diff := none }
  else c

/-- Whether the connection keeps its shape among those wanted. -/
def holdsShape (c : L2Connection) : Bool := c.lastL2.isSome || c.lastL2Diff.isSome

section Send

variable [FixedPoint] [LevelHash]

/-- The channel of whole books, for one message. -/
def deliverBook (c : L2Connection) (now : ℕ) (m : L2Broadcast) (last : Option L2Entry) :
    Option L2Entry × List L2Event :=
  let r := sendWsDataFromSnapshot now c.subscription m.snapshot m.time last m.dirty c.forceFull
    c.heartbeat.isSome
  (r.1, ((c.subscription.built m.snapshot last m.dirty c.forceFull).map L2Event.compared).toList ++
    (r.2.map (L2Event.book m)).toList)

/-- The channel of differences, for one message. -/
def deliverDiff (c : L2Connection) (m : L2Broadcast) (last : Option ℕ) :
    Option ℕ × List L2Event :=
  let r := sendWsDataFromL2Diff c.subscription m.snapshot m.previous m.time m.height last m.dirty
    c.forceFull
  (r.1, (r.2.map (L2Event.diff m)).toList)

/-- Take a message with the aggregated books. -/
def deliver (c : L2Connection) (now : ℕ) (m : L2Broadcast) : L2Connection × List L2Event :=
  let book := c.lastL2.map (c.deliverBook now m)
  let diff := c.lastL2Diff.map (c.deliverDiff m)
  ({ c with
    univ := m.univ.getD c.univ
    forceFull := false
    lastL2 := book.map Prod.fst
    lastL2Diff := diff.map Prod.fst },
    .taken m c.lastL2.isSome c.lastL2Diff.isSome ::
      ((book.map Prod.snd).getD [] ++ (diff.map Prod.snd).getD []))

/-- Send a book again that was sent too long ago. -/
def resend (c : L2Connection) (now time : ℕ) : L2Connection × List L2Event :=
  match c.lastL2, c.heartbeat with
  | some (some entry), some interval =>
    match entry.payload with
    | some payload =>
      if interval ≤ now - entry.lastSent then
        let payload := { payload with time }
        ({ c with lastL2 := some (some ⟨entry.hash, now, some payload⟩) }, [.again payload])
      else (c, [])
    | none => (c, [])
  | _, _ => (c, [])

end Send

end L2Connection

/-- Whether a step of the listener finds the shape of the connection wanted, if the
connection keeps it so. -/
def IngestOp.wants (op : IngestOp) (c : L2Connection) : Bool :=
  match op with
  | .flush env => !c.holdsShape || c.subscription.shape ∈ env.active
  | _ => true

variable [SlabPolicy] [FixedPoint] [LevelHash]

/-- One event; `none` when it cannot happen now, or is a panic. -/
def L2Feed.step (f : L2Feed) : L2FeedOp → Option (L2Feed × List L2Event)
  | .ingest op =>
    if op.wants f.connection then
      (f.ingest.step op).map fun r =>
        ({ ingest := r.1
           connection := { f.connection with
             queue := f.connection.queue ++ op.broadcasts r.1.listener r.2 } }, [])
    else none
  | .subscribe channel => some ({ f with connection := f.connection.subscribe channel }, [])
  | .unsubscribe channel => some ({ f with connection := f.connection.unsubscribe channel }, [])
  | .receive now =>
    match f.connection.queue with
    | [] => none
    | b :: rest =>
      let c := { f.connection with queue := rest }
      match b.l2? with
      | some m =>
        let (c, said) := c.deliver now m
        some ({ f with connection := c }, said)
      | none => some ({ f with connection := c }, [])
  | .lag n =>
    if 0 < n ∧ n ≤ f.connection.queue.length then
      some ({ f with connection := { f.connection with
        queue := f.connection.queue.drop n, forceFull := true } },
        [.lagged f.connection.lastL2.isSome f.connection.lastL2Diff.isSome])
    else none
  | .heartbeat now time =>
    let (c, said) := f.connection.resend now time
    some ({ f with connection := c }, said)

/-! ## What a client sees -/

/-- What an event shows: the levels of a whole book take the place of those before. -/
def L2Event.show (levels : Option L2Levels) : L2Event → Option L2Levels
  | .book _ frame => some frame.levels
  | .again frame => some frame.levels
  | _ => levels

/-- What an event does to the book put together from the differences. -/
def L2Event.rebuild (book : Option ClientBook) : L2Event → Option ClientBook
  | .diff _ frame => ClientBook.receive book frame
  | _ => book

/-- The levels of the last whole book that was sent. -/
def shown (said : List L2Event) : Option L2Levels := said.foldl L2Event.show none

/-- The book put together from the channel of differences. -/
def rebuilt (said : List L2Event) : Option ClientBook := said.foldl L2Event.rebuild none

/-- No two books that were compared in a run are different and have one hash. -/
def CollisionFree (said : List L2Event) : Prop :=
  ∀ x y, .compared x ∈ said → .compared y ∈ said → LevelHash.hash x = LevelHash.hash y → x = y

theorem shown_append (said said' : List L2Event) :
    shown (said ++ said') = said'.foldl L2Event.show (shown said) := List.foldl_append

theorem rebuilt_append (said said' : List L2Event) :
    rebuilt (said ++ said') = said'.foldl L2Event.rebuild (rebuilt said) := List.foldl_append

/-- The books that were compared. -/
def comparedOf (said : List L2Event) : List L2Levels :=
  said.filterMap fun e => match e with
    | .compared levels => some levels
    | _ => none

theorem mem_comparedOf {said : List L2Event} {levels : L2Levels} :
    levels ∈ comparedOf said ↔ .compared levels ∈ said := by
  rw [comparedOf, List.mem_filterMap]
  constructor
  · rintro ⟨e, he, heq⟩
    cases e <;> simp only [reduceCtorEq, Option.some.injEq] at heq
    exact heq ▸ he
  · exact fun h => ⟨_, h, rfl⟩

instance (said : List L2Event) : Decidable (CollisionFree said) :=
  decidable_of_iff (∀ x ∈ comparedOf said, ∀ y ∈ comparedOf said,
    LevelHash.hash x = LevelHash.hash y → x = y) <| by
    simp only [mem_comparedOf]
    exact ⟨fun h x y hx hy => h x hx y hy, fun h x hx y hy => h x y hx hy⟩

theorem CollisionFree.left {said said' : List L2Event} (h : CollisionFree (said ++ said')) :
    CollisionFree said :=
  fun x y hx hy => h x y (List.mem_append_left _ hx) (List.mem_append_left _ hy)

/-! ## The two channels -/

section Deliver

variable {c : L2Connection} {m : L2Broadcast}

/-- What the channel of whole books compares. -/
def L2Connection.comparesWith (c : L2Connection) (m : L2Broadcast) (last : Option L2Entry) :
    Option L2Levels := c.subscription.built m.snapshot last m.dirty c.forceFull

theorem deliverBook_of_none (now : ℕ) {last : Option L2Entry} (h : c.comparesWith m last = none) :
    c.deliverBook now m last = (last, []) := by
  rw [L2Connection.comparesWith] at h
  simp [L2Connection.deliverBook, sendWsDataFromSnapshot, h]

/-- **The channel of whole books** compares, and sends what is not what was sent
last. -/
theorem deliverBook_of_some (now : ℕ) {last : Option L2Entry} {levels : L2Levels}
    (h : c.comparesWith m last = some levels) :
    (last.map L2Entry.hash = some (LevelHash.hash levels) ∧
      c.deliverBook now m last = (last, [.compared levels])) ∨
    (∃ frame : L2Book, frame.levels = levels ∧ c.deliverBook now m last =
      (some ⟨LevelHash.hash levels, now, if c.heartbeat.isSome then some frame else none⟩,
        [.compared levels, .book m frame])) := by
  rw [L2Connection.comparesWith] at h
  by_cases hhash : last.map L2Entry.hash = some (LevelHash.hash levels)
  · exact Or.inl ⟨hhash, by simp [L2Connection.deliverBook, sendWsDataFromSnapshot, h, hhash]⟩
  · refine Or.inr ⟨⟨c.subscription.coin, m.time, c.subscription.nSigFigs, c.subscription.mantissa,
      some c.subscription.depth, levels⟩, rfl, ?_⟩
    simp [L2Connection.deliverBook, sendWsDataFromSnapshot, h, hhash]

end Deliver

theorem l2Of_append (queue queue' : List Broadcast) :
    l2Of (queue ++ queue') = l2Of queue ++ l2Of queue' :=
  List.filterMap_append

theorem l2Of_drop_suffix (queue : List Broadcast) (n : ℕ) : l2Of (queue.drop n) <:+ l2Of queue :=
  (List.drop_suffix n queue).filterMap _

/-- Subscribing changes nothing but the note of one channel. -/
theorem subscribe_cases (c : L2Connection) (channel : L2Channel) :
    c.subscribe channel = c ∨
    c.subscribe channel = { c with lastL2 := some (c.lastL2.getD none) } ∨
    c.subscribe channel = { c with lastL2Diff := some (c.lastL2Diff.getD none) } := by
  by_cases hvalid : c.subscription.validate c.univ
  · cases channel with
    | book => exact Or.inr (Or.inl (if_pos hvalid))
    | diff => exact Or.inr (Or.inr (if_pos hvalid))
  · exact Or.inl (if_neg hvalid)

/-- Ending a subscription changes nothing but the note of one channel. -/
theorem unsubscribe_cases (c : L2Connection) (channel : L2Channel) :
    c.unsubscribe channel = c ∨
    c.unsubscribe channel = { c with lastL2 := none } ∨
    c.unsubscribe channel = { c with lastL2Diff := none } := by
  by_cases hvalid : c.subscription.validate c.univ
  · cases channel with
    | book => exact Or.inr (Or.inl (if_pos hvalid))
    | diff => exact Or.inr (Or.inr (if_pos hvalid))
  · exact Or.inl (if_neg hvalid)

/-- Sending a book again changes nothing but when it was sent, and shows what was
shown. -/
theorem resend_cases (c : L2Connection) (now time : ℕ) :
    c.resend now time = (c, []) ∨
    ∃ entry payload, c.lastL2 = some (some entry) ∧ entry.payload = some payload ∧
      c.resend now time =
        ({ c with lastL2 := some (some ⟨entry.hash, now, some { payload with time }⟩) },
          [.again { payload with time }]) := by
  rw [L2Connection.resend]
  split
  case h_1 entry interval hlast hbeat =>
    split
    case h_1 payload hpayload =>
      split
      · exact Or.inr ⟨entry, payload, hlast, hpayload, rfl⟩
      · exact Or.inl rfl
    case h_2 => exact Or.inl rfl
  case h_2 => exact Or.inl rfl

/-- No step changes what the subscription is to. -/
theorem subscription_step {f f' : L2Feed} {op : L2FeedOp} {said : List L2Event}
    (h : f.step op = some (f', said)) : f'.connection.subscription = f.connection.subscription := by
  cases op with
  | ingest op =>
    simp only [L2Feed.step] at h
    split at h
    · obtain ⟨r, -, hr⟩ := Option.map_eq_some_iff.mp h
      cases hr
      rfl
    · cases h
  | subscribe channel =>
    cases h
    rcases subscribe_cases f.connection channel with heq | heq | heq <;> rw [heq]
  | unsubscribe channel =>
    cases h
    rcases unsubscribe_cases f.connection channel with heq | heq | heq <;> rw [heq]
  | receive now =>
    simp only [L2Feed.step] at h
    split at h
    · cases h
    · split at h <;> cases h <;> rfl
  | lag n =>
    simp only [L2Feed.step] at h
    split at h
    · cases h
      rfl
    · cases h
  | heartbeat now time =>
    simp only [L2Feed.step] at h
    rcases resend_cases f.connection now time with heq | ⟨entry, payload, -, -, heq⟩ <;>
    · rw [heq] at h
      cases h
      rfl

end HlOrderbook

namespace HlOrderbook

section Example

attribute [local instance] SlabPolicy.latest FixedPoint.decimal

/-- A hash of levels. -/
@[reducible] def LevelHash.polynomial : LevelHash where
  hash levels :=
    let text (h : ℕ) (s : String) : ℕ := s.toList.foldl (fun h c => (257 * h + c.toNat) % 2 ^ 64) h
    let side (h : ℕ) (ls : List Level) : ℕ :=
      ls.foldl (fun h l => (text (text h l.px) l.sz * 257 + l.n + 1) % 2 ^ 64) (257 * h + 2)
    side (side 1 levels.bids) levels.asks

attribute [local instance] LevelHash.polynomial

/-- The whole book of one coin, at the usual depth. -/
def L2Subscription.btc : L2Subscription := ⟨"BTC", none, none, none⟩

namespace L2FeedOp

/-- An install of a book with one bid. -/
def oneBid : List IngestOp :=
  [.init 0 ((∅ : Snapshots InnerL4Order).insert "BTC"
    ⟨[.limit "BTC" .bid 10000000000 100000000 7], []⟩) 1000]

/-- A send, with the unaggregated shape wanted. -/
def baseFlush (now : ℕ) : L2FeedOp := .ingest (.flush ⟨now, {.base}, fun _ => false, 1⟩)

/-- A raw diff of the bid. -/
def bidDiff (height : ℕ) (diff : OrderDiff) : L2FeedOp :=
  .ingest (.apply ⟨0, ∅, fun _ => false, 1⟩ height
    (.bookDiffs ⟨height, height, [⟨1, 7, "100", "BTC", diff⟩]⟩))

end L2FeedOp

end Example

end HlOrderbook
