import HlOrderbook.Bbo
import HlOrderbook.CacheKeys
import HlOrderbook.L4Cache

/-!
# The stream of a whole book

A client that subscribes to the orders of a book is sent the book and then what changes
it.  The guards are taken before the book is asked for, so that nothing falls between the
two.  The book may come from the cache, though, and be of a moment before the guards were
taken: what was applied in between went to those who were waiting then.

Here the listener, the connections with what waits for each, and the requests for bodies
are run together.  What was applied, and what each client was sent since its book, is
recorded beside them.

## Main definitions

* `EventBatch.l4Update` — what a subscriber is to be sent of a batch.
* `L4Client`, `L4Hub`, `L4Hub.step` — the system.
* `L4Hub.Gapless` — no subscriber misses an update.
* `L4Hub.Connects` — a book that is sent is followed by what waits for the client.

## Main results

* `gapless_iff_connects` — no subscriber misses an update exactly if every book connects.
-/

set_option autoImplicit false
set_option linter.unusedSectionVars false

namespace HlOrderbook

/-! ## Updates -/

/-- The events of a batch that are not passed over. -/
def EventBatch.applied (ignoreSpot : Bool) : EventBatch → EventBatch
  | .bookDiffs batch => .bookDiffs { batch with
    events := batch.events.filter fun d => !(ignoreSpot && d.coin.isSpot) }
  | batch => batch

/-- What a subscriber to the book of a coin is to be sent of a batch. -/
def EventBatch.l4Update (coin : Coin) : EventBatch → Option ServerResponse
  | .orders batch =>
    (groupOf (fun st => st.order.coin) batch.events coin).map fun statuses =>
      .l4Updates batch.time batch.blockNumber statuses []
  | .bookDiffs batch =>
    (groupOf (fun d => d.coin) batch.events coin).map
      (.l4Updates batch.time batch.blockNumber [])
  | .fills _ => none

/-- What a subscriber to the book of a coin is sent of a message. -/
def InternalMessage.l4Update (coin : Coin) : InternalMessage → Option ServerResponse
  | .l4OrderDiffs time height byCoin => byCoin[coin]?.map (.l4Updates time height [])
  | .l4OrderStatuses time height byCoin =>
    byCoin[coin]?.map fun statuses => .l4Updates time height statuses []
  | _ => none

/-- The batch that a step applies to the book.  What a catch-up applies again was applied
before, or came while there was no book. -/
def IngestOp.applies (l : OrderBookListener) : IngestOp → Option EventBatch
  | .apply _ _ batch =>
    if maxEventsPerBatch < batch.eventsLen then none
    else l.orderBookState.map fun state => batch.applied state.ignoreSpot
  | _ => none

/-- A step of the listener reads the guards that are out. -/
def IngestOp.withGuards (a : ActiveGuards) (receiverCount : ℕ) : IngestOp → IngestOp
  | .apply env height batch => .apply ⟨env.now, a.snapshot, a.wants, receiverCount⟩ height batch
  | .flush env => .flush ⟨env.now, a.snapshot, a.wants, receiverCount⟩
  | op => op

/-! ## The system -/

/-- A book that was read; with it, how many batches had been applied. -/
structure L4Captured where
  since : ℕ
  book : L4Snapshot

/-- A subscription that waits for its book: its coin, its request, and how many batches
had been applied when its guards had been taken. -/
structure L4Waiting where
  coin : Coin
  request : ℕ
  since : ℕ

/-- A book that was sent: its coin, how many batches it has, and what was sent since, each
response with the batch it is of. -/
structure L4Sent where
  coin : Coin
  since : ℕ
  responses : List (ℕ × ServerResponse)

/-- What there is of a connection beside itself: the messages it has not received, each
with the number of batches applied before, whether it lost some, the subscription that
waits for its book, and the books sent of the others. -/
structure L4Client where
  queue : List (ℕ × InternalMessage)
  lagged : Bool
  waiting : Option L4Waiting
  books : List L4Sent

/-- The listener, the connections, the requests for bodies, and the batches applied. -/
structure L4Hub (G : Type) where
  ingest : Ingest
  server : WsServer
  clients : List L4Client
  serving : L4Serving L4Captured G
  applied : List EventBatch

/-- What happens.  The requests over HTTP come and go by themselves; the book of the
request `i` is read of the listener.  `book` is the end of the request of a client, with
the text of the error if it failed. -/
inductive L4HubOp where
  | ingest (op : IngestOp)
  | connect
  | request (k : ℕ) (message : ClientMessage)
  | tick (ms : ℕ)
  | get (key : L4Key) (acceptsGzip : Bool)
  | borrow
  | giveBack
  | advance (i : ℕ)
  | read (i : ℕ)
  | giveUp (i : ℕ)
  | book (k : ℕ) (error : String)
  | deliver (k now : ℕ)
  | lag (k n : ℕ)
  | heartbeat (k now time : ℕ)
  | disconnect (k : ℕ)

namespace L4Client

/-- A connection that was just made. -/
def new : L4Client := ⟨[], false, none, []⟩

/-- Messages are broadcast. -/
def receive (n : ℕ) (sent : List InternalMessage) (x : L4Client) : L4Client :=
  { x with queue := x.queue ++ sent.map fun m => (n, m) }

/-- Of the books that were sent, those whose subscription is live. -/
def retain (c : WsConnection) (x : L4Client) : L4Client :=
  { x with books := x.books.filter fun b => .l4Book b.coin ∈ c.manager.subscriptions }

/-- Responses are sent, of a message. -/
def send (n : ℕ) (said : List ServerResponse) (x : L4Client) : L4Client :=
  { x with books := x.books.map fun b =>
      { b with responses := b.responses ++ said.map fun r => (n, r) } }

end L4Client

namespace L4Hub

variable {G : Type}

/-- A server without connections, over a listener. -/
def start (i : Ingest) (bboOnly : Bool) (l2Heartbeat bboHeartbeat : Option ℕ) : L4Hub G where
  ingest := i
  server := .new bboOnly l2Heartbeat bboHeartbeat
  clients := []
  serving := .start
  applied := []

/-- Read a book. -/
def capture [SlabPolicy] [FixedPoint] (h : L4Hub G) (key : L4Key) : Option L4Captured :=
  (h.ingest.listener.computeSnapshotForCoin key.coin key.band).map fun (time, height, levels) =>
    ⟨h.applied.length, ⟨key.coin, time, height, levels⟩⟩

/-- The request that a subscription makes. -/
def ask (h : L4Hub G) (k : ℕ) (x : L4Client) (coin : Coin) : L4Hub G :=
  { h with
    clients := h.clients.set k
      { x with waiting := some ⟨coin, h.serving.requests.length, h.applied.length⟩ }
    serving := { h.serving with
      requests := h.serving.requests ++ [⟨⟨coin, ⟨none, none⟩⟩, false, .lookup⟩] } }

/-- What is left of a request whose client has gone. -/
def abandon (serving : L4Serving L4Captured G) (gzip : L4Captured → Option G) :
    Option L4Waiting → L4Serving L4Captured G
  | some waiting =>
    match serving.step gzip (.giveUp waiting.request) with
    | some (serving, _) => serving
    | none => serving
  | none => serving

variable [SlabPolicy] [FixedPoint] [LevelHash] [AddressParser]

/-- A step of the requests for bodies. -/
def serve (gzip : L4Captured → Option G) (h : L4Hub G) (op : L4Op L4Captured) :
    Option (L4Hub G × List (ℕ × ServerResponse)) :=
  (h.serving.step gzip op).map fun r => ({ h with serving := r.1 }, [])

/-- A step of one connection, and what becomes of what there is beside it. -/
def connection (h : L4Hub G) (k : ℕ) (op : WsOp)
    (f : List ServerResponse → L4Client → L4Client) :
    Option (L4Hub G × List (ℕ × ServerResponse)) :=
  match h.clients[k]?, h.server.step op with
  | some x, some (server, said) =>
    some ({ h with server, clients := h.clients.set k (f said x) }, said.map fun r => (k, r))
  | _, _ => none

/-- One step; `none` when it cannot happen now. -/
def step (gzip : L4Captured → Option G) (h : L4Hub G) :
    L4HubOp → Option (L4Hub G × List (ℕ × ServerResponse))
  | .ingest op =>
    (h.ingest.step (op.withGuards h.server.active h.server.connections.length)).map fun r =>
      ({ h with
        ingest := r.1
        clients := h.clients.map (L4Client.receive h.applied.length r.2)
        applied := h.applied ++ (op.applies h.ingest.listener).toList }, [])
  | .connect =>
    (h.server.step (.connect h.ingest.listener.univ)).map fun r =>
      ({ h with server := r.1, clients := h.clients ++ [.new] }, [])
  | .request k message =>
    match h.clients[k]?, h.server.step (.request k message) with
    | some x, some (server, said) =>
      match server.connections[k]? with
      | some c =>
        let h := { h with server, clients := h.clients.set k (x.retain c) }
        match c.pending with
        | some (.l4Book coin) => some (h.ask k (x.retain c) coin, said.map fun r => (k, r))
        | _ => some (h, said.map fun r => (k, r))
      | none => none
    | _, _ => none
  | .tick ms => h.serve gzip (.tick ms)
  | .get key acceptsGzip => h.serve gzip (.arrive key acceptsGzip)
  | .borrow => h.serve gzip .borrow
  | .giveBack => h.serve gzip .giveBack
  | .advance i => h.serve gzip (.advance i)
  | .read i =>
    h.serving.requests[i]?.bind fun r => h.serve gzip (.read i (h.capture r.key))
  | .giveUp i => h.serve gzip (.giveUp i)
  | .book k error =>
    (h.clients[k]?.bind L4Client.waiting).bind fun waiting =>
      (h.serving.requests[waiting.request]?).bind fun r =>
        match r.stage with
        | .answered (.plain body) =>
          h.connection k (.snapshot k (.ok body.book)) fun _ x =>
            { x with waiting := none, books := ⟨waiting.coin, body.since, []⟩ :: x.books }
        | .answered .notFound =>
          h.connection k (.snapshot k (.error "Snapshot Failed")) fun _ x =>
            { x with waiting := none }
        | .answered .failed =>
          h.connection k (.snapshot k (.error error)) fun _ x => { x with waiting := none }
        | _ => none
  | .deliver k now =>
    match h.clients[k]?.map L4Client.queue with
    | some ((n, m) :: queue) =>
      h.connection k (.deliver k now m) fun said x => { x with queue }.send n said
    | _ => none
  | .lag k n =>
    h.connection k (.lag k) fun _ x => { x with queue := x.queue.drop n, lagged := true }
  | .heartbeat k now time => h.connection k (.heartbeat k now time) fun _ x => x
  | .disconnect k =>
    match h.clients[k]?, h.server.step (.disconnect k) with
    | some x, some (server, _) =>
      some ({ h with
        server
        clients := h.clients.eraseIdx k
        serving := abandon h.serving gzip x.waiting }, [])
    | _, _ => none

end L4Hub

/-! ## Updates that are missed -/

/-- An update of a batch was sent, or waits. -/
def L4Client.Reaches (x : L4Client) (b : L4Sent) (n : ℕ) (u : ServerResponse) : Prop :=
  (n, u) ∈ b.responses ∨ ∃ m, (n, m) ∈ x.queue ∧ m.l4Update b.coin = some u

/-- Every update that was applied after a book was read reaches the client. -/
def L4Client.Served (applied : List EventBatch) (x : L4Client) : Prop :=
  x.lagged = false → ∀ b ∈ x.books, ∀ n batch u, b.since ≤ n →
    applied[n]? = some batch → batch.l4Update b.coin = some u → x.Reaches b n u

/-- What was applied after a book was read and before the guards were taken waits for the
client. -/
def L4Client.Joins (applied : List EventBatch) (x : L4Client) (waiting : L4Waiting)
    (since : ℕ) : Prop :=
  ∀ n ∈ List.range waiting.since, since ≤ n → ∀ batch ∈ applied[n]?,
    (batch.l4Update waiting.coin).isSome = true →
      ∃ e ∈ x.queue, e.1 = n ∧ (e.2.l4Update waiting.coin).isSome = true

namespace L4Hub

variable {G : Type}

/-- **No subscriber misses an update**: what was applied of its coin after its book was
read has been sent to it since, or waits for it. -/
def Gapless (h : L4Hub G) : Prop := ∀ x ∈ h.clients, x.Served h.applied

/-- The answer of a request, if it is a book, can be sent without a gap. -/
def AnswerConnects (h : L4Hub G) (x : L4Client) (waiting : L4Waiting) :
    L4Stage L4Captured G → Prop
  | .answered (.plain body) => x.lagged = false → x.Joins h.applied waiting body.since
  | _ => True

/-- **A book that is sent is followed by what waits for the client.** -/
def Connects (h : L4Hub G) : L4HubOp → Prop
  | .book k _ => ∀ x ∈ h.clients[k]?, ∀ waiting ∈ x.waiting,
    ∀ r ∈ h.serving.requests[waiting.request]?, h.AnswerConnects x waiting r.stage
  | _ => True

end L4Hub

namespace L4Hub

variable {G : Type}

instance AnswerConnects.decidable (h : L4Hub G) (x : L4Client) (waiting : L4Waiting) :
    ∀ stage, Decidable (h.AnswerConnects x waiting stage)
  | .answered (.plain _) =>
    inferInstanceAs (Decidable (x.lagged = false → ∀ n ∈ List.range waiting.since, _))
  | .answered (.gzip _) | .answered .notFound | .answered .failed | .lookup | .queued |
    .admitted | .building | .built _ | .served _ | .compressing _ =>
    inferInstanceAs (Decidable True)

instance Connects.decidable (h : L4Hub G) : ∀ op, Decidable (h.Connects op)
  | .book k _ =>
    inferInstanceAs (Decidable (∀ x ∈ h.clients[k]?, ∀ waiting ∈ x.waiting,
      ∀ r ∈ h.serving.requests[waiting.request]?, h.AnswerConnects x waiting r.stage))
  | .ingest _ | .connect | .request _ _ | .tick _ | .get _ _ | .borrow | .giveBack | .advance _ |
    .read _ | .giveUp _ | .deliver _ _ | .lag _ _ | .heartbeat _ _ _ | .disconnect _ =>
    inferInstanceAs (Decidable True)

end L4Hub

/-! ## What is broadcast of a batch -/

section Updates

variable [SlabPolicy] [FixedPoint] {coin : Coin} {u : ServerResponse}

/-- The update in a message of grouped events is the update of the batch. -/
theorem l4Update_groupBy_orders (batch : Batch NodeDataOrderStatus) (coin : Coin) :
    (InternalMessage.l4OrderStatuses batch.time batch.blockNumber
      (groupBy (fun st => st.order.coin) batch.events)).l4Update coin =
        (EventBatch.orders batch).l4Update coin := by
  rw [InternalMessage.l4Update, getElem?_groupBy]
  rfl

theorem l4Update_groupBy_bookDiffs (batch : Batch NodeDataOrderDiff) (ignoreSpot : Bool)
    (coin : Coin) :
    (InternalMessage.l4OrderDiffs batch.time batch.blockNumber (groupBy (fun d => d.coin)
      (batch.events.filter fun d => !(ignoreSpot && d.coin.isSpot)))).l4Update coin =
        ((EventBatch.bookDiffs batch).applied ignoreSpot).l4Update coin := by
  rw [InternalMessage.l4Update, getElem?_groupBy]
  rfl

/-- A batch with an update has an event. -/
theorem groupOf_eq_some {A : Type} {key : A → Coin} {xs group : List A}
    (h : groupOf key xs coin = some group) : xs ≠ [] := by
  rintro rfl
  simp [groupOf] at h

/-- **What a batch sends to the subscribers of a book** is its update, if it is wanted. -/
theorem l4Update_applyToState (env : Env) (l : OrderBookListener) (state : OrderBookState)
    (batch : EventBatch) :
    (∀ m ∈ (l.applyToState env state batch).2.1, ∀ u, m.l4Update coin = some u →
      (batch.applied state.ignoreSpot).l4Update coin = some u) ∧
    (l.internalMessageTx = true → env.wants .l4Statuses = true → env.wants .l4Diffs = true →
      ∀ u, (batch.applied state.ignoreSpot).l4Update coin = some u →
        ∃ m ∈ (l.applyToState env state batch).2.1, m.l4Update coin = some u) := by
  cases batch with
  | orders batch =>
    simp only [OrderBookListener.applyToState]
    constructor
    · intro m hm u hu
      split at hm
      · rw [List.mem_singleton] at hm
        subst hm
        rwa [l4Update_groupBy_orders] at hu
      · cases hm
    · intro htx hstatuses _ u hu
      obtain ⟨group, hgroup, -⟩ := Option.map_eq_some_iff.mp hu
      have hlen : 0 < batch.events.length := List.length_pos_iff.mpr (groupOf_eq_some hgroup)
      refine ⟨_, by rw [if_pos (by simp [htx, hstatuses, hlen])]; exact List.mem_singleton_self _, ?_⟩
      rw [l4Update_groupBy_orders]
      exact hu
  | bookDiffs batch =>
    simp only [OrderBookListener.applyToState]
    constructor
    · intro m hm u hu
      split at hm
      · rw [List.mem_singleton] at hm
        subst hm
        rwa [l4Update_groupBy_bookDiffs] at hu
      · cases hm
    · intro htx _ hdiffs u hu
      obtain ⟨group, hgroup, -⟩ := Option.map_eq_some_iff.mp hu
      have hsome : (groupBy (fun d => d.coin) (batch.events.filter fun d =>
          !(state.ignoreSpot && d.coin.isSpot))).isEmpty = false := by
        rw [isEmpty_groupBy, List.isEmpty_eq_false_iff]
        exact groupOf_eq_some hgroup
      refine ⟨_, by rw [htx, hdiffs, hsome]; exact List.mem_singleton_self _, ?_⟩
      rw [l4Update_groupBy_bookDiffs]
      exact hu
  | fills batch =>
    refine ⟨fun m hm u hu => ?_, fun _ _ _ u hu => by cases hu⟩
    simp only [OrderBookListener.applyToState] at hm
    split at hm
    · split at hm
      · cases hm
      · rw [List.mem_singleton] at hm
        subst hm
        cases hu
    · cases hm

/-- No message of a send or of best prices has an update. -/
theorem l4Update_bboBroadcast {env : Env} {l : OrderBookListener} {changed : Std.ExtTreeSet Coin}
    {m : InternalMessage} (hm : m ∈ l.bboBroadcast env changed) : m.l4Update coin = none := by
  simp only [OrderBookListener.bboBroadcast] at hm
  split at hm
  · split at hm
    · rw [List.mem_singleton] at hm
      subst hm
      rfl
    · cases hm
  · cases hm

/-- **An update that is sent is of the batch that is applied.** -/
theorem Ingest.applies_of_l4Update {i i' : Ingest} {op : IngestOp} {sent : List InternalMessage}
    (hstep : i.step op = some (i', sent)) {m : InternalMessage} (hm : m ∈ sent)
    (hu : m.l4Update coin = some u) :
    ∃ batch, op.applies i.listener = some batch ∧ batch.l4Update coin = some u := by
  cases op with
  | apply env height batch =>
    simp only [Ingest.step, Option.map_eq_some_iff, Prod.exists, Prod.mk.injEq] at hstep
    obtain ⟨l', sent', happly, -, rfl⟩ := hstep
    rcases OrderBookListener.applyEventBatch_cases happly with
      ⟨-, -, rfl⟩ | ⟨-, -, -, rfl⟩ | ⟨hlen, state, hstate, hlive⟩
    · cases hm
    · cases hm
    · obtain ⟨l₁, sent₁, result, heq, -, -, rfl⟩ := OrderBookListener.applyLive_eq_some hlive
      rcases List.mem_append.mp hm with hm | hm
      · have hupdate := (@l4Update_applyToState _ _ coin env
          ((i.listener.see height).cacheForReplay batch).1 state batch).1
        rw [heq] at hupdate
        refine ⟨batch.applied state.ignoreSpot, ?_, hupdate m hm u hu⟩
        rw [IngestOp.applies, if_neg hlen, hstate]
        rfl
      · rw [l4Update_bboBroadcast hm] at hu
        cases hu
  | flush env =>
    cases hstep
    rcases i.listener.flushL2IfDue_cases env with ⟨hsent, -⟩ | ⟨-, hsent, -⟩ |
      ⟨-, -, state, -, last, heq⟩
    · rw [hsent] at hm
      cases hm
    · rw [hsent] at hm
      cases hm
    · rw [heq] at hm
      simp only [OrderBookListener.broadcastL2] at hm
      split at hm
      · rw [List.mem_singleton] at hm
        subst hm
        cases hu
      · cases hm
  | chase now =>
    obtain ⟨p, -, rfl⟩ := Ingest.chase_eq_some hstep
    cases hm
  | commit now =>
    obtain ⟨p, l₀, l₁, -, -, -, -, rfl⟩ := Ingest.commit_eq_some hstep
    cases hm
  | init now snapshot height =>
    simp only [Ingest.step, Option.map_eq_some_iff, Prod.mk.injEq] at hstep
    obtain ⟨l', -, -, rfl⟩ := hstep
    cases hm
  | desync line | beginFetch head | build snapshot untriggered height =>
    cases hstep
    cases hm

/-- **A batch that is applied sends its update**, if both families are wanted. -/
theorem Ingest.exists_l4Update {i i' : Ingest} {op : IngestOp} {sent : List InternalMessage}
    (hstep : i.step op = some (i', sent)) (htx : i.listener.internalMessageTx = true)
    (hwants : ∀ env height batch, op = .apply env height batch →
      env.wants .l4Statuses = true ∧ env.wants .l4Diffs = true)
    {batch : EventBatch} (happlies : op.applies i.listener = some batch)
    (hu : batch.l4Update coin = some u) : ∃ m ∈ sent, m.l4Update coin = some u := by
  cases op with
  | apply env height batch' =>
    simp only [Ingest.step, Option.map_eq_some_iff, Prod.exists, Prod.mk.injEq] at hstep
    obtain ⟨l', sent', happly, -, rfl⟩ := hstep
    rw [IngestOp.applies] at happlies
    split at happlies
    case isTrue => cases happlies
    case isFalse hlen =>
      obtain ⟨state, hstate, rfl⟩ := Option.map_eq_some_iff.mp happlies
      rcases OrderBookListener.applyEventBatch_cases happly with
        ⟨hlong, -⟩ | ⟨-, hnone, -⟩ | ⟨-, state', hstate', hlive⟩
      · exact absurd hlong hlen
      · rw [hnone] at hstate
        cases hstate
      · rw [hstate] at hstate'
        cases hstate'
        obtain ⟨l₁, sent₁, result, heq, -, -, rfl⟩ := OrderBookListener.applyLive_eq_some hlive
        obtain ⟨hstatuses, hdiffs⟩ := hwants env height batch' rfl
        obtain ⟨c, n, r, d, b, hmark⟩ :=
          (OrderBookListener.cacheForReplay_marked (i.listener.see height) batch').eq
        have htx' : ((i.listener.see height).cacheForReplay batch').1.internalMessageTx = true := by
          rw [hmark]
          exact htx
        obtain ⟨m, hm, hmu⟩ := (l4Update_applyToState env
          ((i.listener.see height).cacheForReplay batch').1 state batch').2 htx' hstatuses hdiffs u hu
        rw [heq] at hm
        exact ⟨m, List.mem_append_left _ hm, hmu⟩
  | _ => cases happlies

end Updates

/-! ## Subscriptions that begin to wait -/

namespace WsConnection

/-- **A subscription that begins to wait** is new. -/
theorem pending_receiveClientMessage {c : WsConnection}
    {bboOnly : Bool} {a : ActiveGuards} {message : ClientMessage} {s : Subscription}
    (hidle : c.pending = none)
    (hs : (c.receiveClientMessage bboOnly a message).2.1.pending = some s) :
    s ∈ (c.receiveClientMessage bboOnly a message).2.1.manager.subscriptions ∧
      s ∉ c.manager.subscriptions := by
  simp only [receiveClientMessage] at hs ⊢
  split at hs
  · rw [hidle] at hs
    cases hs
  rename_i hmode
  rw [if_neg hmode]
  split at hs
  · rw [hidle] at hs
    cases hs
  rename_i hvalid
  rw [if_neg hvalid]
  cases message with
  | unsubscribe s' =>
    simp only at hs
    split at hs
    · simp only [(endSubscription_frame _ _ _).pending, forget_pending] at hs
      rw [hidle] at hs
      cases hs
    · rw [hidle] at hs
      cases hs
  | subscribe s' =>
    simp only at hs ⊢
    split at hs
    · rw [hidle] at hs
      cases hs
    · rw [hidle] at hs
      cases hs
    · rename_i manager hsubscribe
      have hnew := subscribe_eq_some hsubscribe
      have hnodup := manager.nodup
      rw [hnew, List.nodup_cons] at hnodup
      split at hs
      · cases hs
        simp only [(beginSubscription_frame _ _ _).manager, hnew]
        exact ⟨List.mem_cons_self, hnodup.1⟩
      · simp only [(beginSubscription_frame _ _ _).pending] at hs
        rw [hidle] at hs
        cases hs

end WsConnection

/-! ## What is sent of a message -/

section Deliver

variable [FixedPoint] [LevelHash] [AddressParser] {coin : Coin} {u : ServerResponse}
  {m : InternalMessage}
  {c : WsConnection}

namespace WsConnection

theorem deliverTo_l4Book (c : WsConnection) (now : ℕ) (storeL2 storeBbo : Bool)
    (m : InternalMessage) (coin : Coin) :
    c.deliverTo now storeL2 storeBbo m (.l4Book coin) = (c, (m.l4Update coin).toList) := by
  cases m <;> rfl

theorem mem_deliverAll {subs : List Subscription} (hcoin : .l4Book coin ∈ subs)
    (hu : m.l4Update coin = some u) (now : ℕ) (storeL2 storeBbo : Bool) :
    u ∈ (deliverAll now storeL2 storeBbo m subs c).2 := by
  induction subs generalizing c with
  | nil => cases hcoin
  | cons s subs ih =>
    rw [deliverAll]
    rcases List.mem_cons.mp hcoin with rfl | hmem
    · refine List.mem_append_left _ ?_
      rw [deliverTo_l4Book, hu]
      exact List.mem_singleton_self u
    · exact List.mem_append_right _ (ih hmem)

/-- **A subscriber is sent the update that is in a message.** -/
theorem mem_deliver (hcoin : .l4Book coin ∈ c.manager.subscriptions)
    (hu : m.l4Update coin = some u) (now : ℕ) (storeL2 storeBbo : Bool) :
    u ∈ (c.deliver now storeL2 storeBbo m).2 := by
  cases m with
  | snapshot snapshot previous time height dirty univ => cases hu
  | _ => exact mem_deliverAll hcoin hu now storeL2 storeBbo

end WsConnection

end Deliver

/-! ## What holds of every state -/

section Sound

open WsConnection

/-- What holds of a connection and what there is beside it: the updates that wait are of
the batches they were sent of, the books sent are of live subscriptions, and what was
applied since the guards were taken of a subscription waits with it. -/
structure L4Client.Sound (applied : List EventBatch) (c : WsConnection) (x : L4Client) :
    Prop where
  received : ∀ e ∈ x.queue, ∀ coin u, e.2.l4Update coin = some u →
    ∃ batch, applied[e.1]? = some batch ∧ batch.l4Update coin = some u
  books : ∀ b ∈ x.books, .l4Book b.coin ∈ c.manager.subscriptions
  waits : ∀ w, x.waiting = some w → c.pending = some (.l4Book w.coin) ∧
    .l4Book w.coin ∈ c.manager.subscriptions ∧ ∀ b ∈ x.books, b.coin ≠ w.coin
  heard : ∀ w, x.waiting = some w → x.lagged = false → ∀ n batch u, w.since ≤ n →
    applied[n]? = some batch → batch.l4Update w.coin = some u →
      ∃ m, (n, m) ∈ x.queue ∧ m.l4Update w.coin = some u

namespace L4Client

variable {applied : List EventBatch} {c c' : WsConnection} {x : L4Client}

theorem Sound.new (c : WsConnection) : L4Client.new.Sound applied c :=
  ⟨fun _ he => absurd he List.not_mem_nil, fun _ hb => absurd hb List.not_mem_nil, nofun, nofun⟩

theorem Served.new : L4Client.new.Served applied := fun _ _ hb => absurd hb List.not_mem_nil

/-- A connection that takes the next thing that comes waits for no book. -/
theorem Sound.not_waiting (h : x.Sound applied c) (hidle : c.pending = none) :
    x.waiting = none := by
  cases hw : x.waiting with
  | none => rfl
  | some w =>
    rw [(h.waits w hw).1] at hidle
    cases hidle

/-- A batch among those applied, one more perhaps among them. -/
theorem getElem?_append_new {new : Option EventBatch} {n : ℕ} {batch : EventBatch} :
    (applied ++ new.toList)[n]? = some batch ↔
      applied[n]? = some batch ∨ n = applied.length ∧ new = some batch := by
  rw [List.getElem?_append]
  by_cases hlt : n < applied.length
  · rw [if_pos hlt]
    exact ⟨Or.inl, fun h => h.resolve_right fun heq => by omega⟩
  · have hnone : applied[n]? = none := List.getElem?_eq_none (by omega)
    rw [if_neg hlt, hnone]
    cases new with
    | none => simp
    | some batch' =>
      by_cases heq : n = applied.length
      · simp [heq]
      · have hpos : n - applied.length ≠ 0 := by omega
        simp [heq, hpos]

section Receive

variable {sent : List InternalMessage} {new : Option EventBatch}

theorem mem_queue_receive {n : ℕ} {m : InternalMessage} :
    (n, m) ∈ (x.receive applied.length sent).queue ↔
      (n, m) ∈ x.queue ∨ n = applied.length ∧ m ∈ sent := by
  simp only [L4Client.receive, List.mem_append, List.mem_map, Prod.mk.injEq]
  constructor
  · rintro (hm | ⟨m', hm', rfl, rfl⟩)
    · exact Or.inl hm
    · exact Or.inr ⟨rfl, hm'⟩
  · rintro (hm | ⟨rfl, hm⟩)
    · exact Or.inl hm
    · exact Or.inr ⟨m, hm, rfl, rfl⟩

/-- **Messages are broadcast** to a client; a batch that is applied sends its updates to
its subscriptions. -/
theorem Sound.receive (h : x.Sound applied c)
    (hof : ∀ m ∈ sent, ∀ coin u, m.l4Update coin = some u →
      ∃ batch, new = some batch ∧ batch.l4Update coin = some u)
    (hsends : ∀ coin, .l4Book coin ∈ c.manager.subscriptions → ∀ batch u, new = some batch →
      batch.l4Update coin = some u → ∃ m ∈ sent, m.l4Update coin = some u) :
    (x.receive applied.length sent).Sound (applied ++ new.toList) c := by
  refine ⟨fun e he coin u hu => ?_, h.books, h.waits, fun w hw hlag n batch u hn hbatch hu => ?_⟩
  · obtain ⟨n, m⟩ := e
    rcases mem_queue_receive.mp he with hm | ⟨rfl, hm⟩
    · obtain ⟨batch, hbatch, hupdate⟩ := h.received (n, m) hm coin u hu
      exact ⟨batch, getElem?_append_new.mpr (Or.inl hbatch), hupdate⟩
    · obtain ⟨batch, hnew, hupdate⟩ := hof m hm coin u hu
      exact ⟨batch, getElem?_append_new.mpr (Or.inr ⟨rfl, hnew⟩), hupdate⟩
  · rcases getElem?_append_new.mp hbatch with hold | ⟨rfl, hnew⟩
    · obtain ⟨m, hm, hmu⟩ := h.heard w hw hlag n batch u hn hold hu
      exact ⟨m, mem_queue_receive.mpr (Or.inl hm), hmu⟩
    · obtain ⟨m, hm, hmu⟩ := hsends w.coin (h.waits w hw).2.1 batch u hnew hu
      exact ⟨m, mem_queue_receive.mpr (Or.inr ⟨rfl, hm⟩), hmu⟩

theorem Served.receive (h : x.Served applied) (hsound : x.Sound applied c)
    (hsends : ∀ coin, .l4Book coin ∈ c.manager.subscriptions → ∀ batch u, new = some batch →
      batch.l4Update coin = some u → ∃ m ∈ sent, m.l4Update coin = some u) :
    (x.receive applied.length sent).Served (applied ++ new.toList) := by
  intro hlag b hb n batch u hn hbatch hu
  rcases getElem?_append_new.mp hbatch with hold | ⟨rfl, hnew⟩
  · rcases h hlag b hb n batch u hn hold hu with hsent | ⟨m, hm, hmu⟩
    · exact Or.inl hsent
    · exact Or.inr ⟨m, mem_queue_receive.mpr (Or.inl hm), hmu⟩
  · obtain ⟨m, hm, hmu⟩ := hsends b.coin (hsound.books b hb) batch u hnew hu
    exact Or.inr ⟨m, mem_queue_receive.mpr (Or.inr ⟨rfl, hm⟩), hmu⟩

end Receive

/-! ### The next message -/

/-- **The next message is taken**, and what it has for the subscriptions is sent. -/
theorem Served.deliver [FixedPoint] [LevelHash] [AddressParser] (h : x.Served applied)
    (hsound : x.Sound applied c)
    {n : ℕ} {m : InternalMessage} {queue : List (ℕ × InternalMessage)}
    (hqueue : x.queue = (n, m) :: queue) (now : ℕ) (storeL2 storeBbo : Bool) :
    (({ x with queue } : L4Client).send n (c.deliver now storeL2 storeBbo m).2).Served applied := by
  intro hlag b' hb' j batch u hj hbatch hu
  obtain ⟨b, hb, rfl⟩ := List.mem_map.mp hb'
  rcases h hlag b hb j batch u hj hbatch hu with hsent | ⟨m', hm', hmu⟩
  · exact Or.inl (List.mem_append_left _ hsent)
  · rw [hqueue] at hm'
    rcases List.mem_cons.mp hm' with heq | htail
    · cases heq
      refine Or.inl (List.mem_append_right _ (List.mem_map_of_mem ?_))
      exact mem_deliver (hsound.books b hb) hmu now storeL2 storeBbo
    · exact Or.inr ⟨m', htail, hmu⟩

/-- A client that takes messages, or lost some, and waits for no book. -/
theorem Sound.of_idle (h : x.Sound applied c) (hidle : c.pending = none) (hnotes : Notes c c')
    {x' : L4Client} (hqueue : ∀ e ∈ x'.queue, e ∈ x.queue)
    (hbooks : ∀ b ∈ x'.books, ∃ b' ∈ x.books, b'.coin = b.coin)
    (hwaiting : x'.waiting = x.waiting) : x'.Sound applied c' := by
  obtain ⟨_, _, _, _, _, rfl⟩ := hnotes.eq
  have hnot : x'.waiting = none := hwaiting.trans (h.not_waiting hidle)
  refine ⟨fun e he => h.received e (hqueue e he), fun b hb => ?_, fun w hw => ?_, fun w hw => ?_⟩
  · obtain ⟨b', hb', heq⟩ := hbooks b hb
    rw [← heq]
    exact h.books b' hb'
  · rw [hnot] at hw
    cases hw
  · rw [hnot] at hw
    cases hw

/-! ### Requests -/

/-- Books of ended subscriptions are forgotten. -/
theorem Served.retain (h : x.Served applied) (c : WsConnection) : (x.retain c).Served applied :=
  fun hlag b hb => h hlag b (List.mem_filter.mp hb).1

/-- **A request**: it may begin a subscription, which waits for its book from now on. -/
theorem Sound.request (h : x.Sound applied c) (hidle : c.pending = none) (bboOnly : Bool)
    (a : ActiveGuards) (message : ClientMessage) {x' : L4Client}
    (hqueue : x'.queue = x.queue)
    (hbooks : x'.books = (x.retain (c.receiveClientMessage bboOnly a message).2.1).books)
    (hwaiting : ∀ w, x'.waiting = some w → applied.length ≤ w.since ∧
      (c.receiveClientMessage bboOnly a message).2.1.pending = some (.l4Book w.coin)) :
    x'.Sound applied (c.receiveClientMessage bboOnly a message).2.1 := by
  have hlive : ∀ b ∈ x'.books, b ∈ x.books ∧
      .l4Book b.coin ∈ (c.receiveClientMessage bboOnly a message).2.1.manager.subscriptions := by
    intro b hb
    rw [hbooks] at hb
    exact ⟨(List.mem_filter.mp hb).1, of_decide_eq_true (List.mem_filter.mp hb).2⟩
  refine ⟨fun e he => h.received e (hqueue ▸ he), fun b hb => (hlive b hb).2, fun w hw => ?_,
    fun w hw _ n batch u hn hbatch => ?_⟩
  · obtain ⟨-, hpending⟩ := hwaiting w hw
    obtain ⟨hmem, hnew⟩ := pending_receiveClientMessage hidle hpending
    refine ⟨hpending, hmem, fun b hb heq => hnew ?_⟩
    rw [← heq]
    exact h.books b (hlive b hb).1
  · have hlt := (List.getElem?_eq_some_iff.mp hbatch).1
    have hle := (hwaiting w hw).1
    omega

/-! ### Books -/

/-- **A book is sent**: no update is missed exactly if what was applied before the guards
were taken waits. -/
theorem served_book_iff (h : x.Served applied) (hsound : x.Sound applied c) {w : L4Waiting}
    (hw : x.waiting = some w) (since : ℕ) :
    ({ x with waiting := none, books := ⟨w.coin, since, []⟩ :: x.books } : L4Client).Served
        applied ↔ (x.lagged = false → x.Joins applied w since) := by
  constructor
  · intro hserved hlag n hn hsince batch hbatch hsome
    obtain ⟨u, hu⟩ := Option.isSome_iff_exists.mp hsome
    rcases hserved hlag _ List.mem_cons_self n batch u hsince hbatch hu with hsent | ⟨m, hm, hmu⟩
    · cases hsent
    · refine ⟨(n, m), hm, rfl, ?_⟩
      rw [hmu]
      rfl
  · intro hjoins hlag b hb n batch u hn hbatch hu
    rcases List.mem_cons.mp hb with rfl | hb
    · right
      by_cases hbefore : n < w.since
      · have hsome : (batch.l4Update w.coin).isSome = true := by
          rw [hu]
          rfl
        obtain ⟨⟨n', m⟩, hm, rfl, hmsome⟩ :=
          hjoins hlag n (List.mem_range.mpr hbefore) hn batch hbatch hsome
        obtain ⟨u', hu'⟩ := Option.isSome_iff_exists.mp hmsome
        obtain ⟨batch', hbatch', hupdate⟩ := hsound.received _ hm w.coin u' hu'
        refine ⟨m, hm, ?_⟩
        rw [hbatch, Option.some.injEq] at hbatch'
        rw [← hbatch', hu, Option.some.injEq] at hupdate
        rw [hu', ← hupdate]
      · exact hsound.heard w hw hlag n batch u (by omega) hbatch hu
    · exact h hlag b hb n batch u hn hbatch hu

end L4Client

end Sound

/-! ## Steps -/

namespace L4Hub

variable {G : Type}

/-- **What holds of every state**: the channel is there, the guards are accounted for, and
the connections are sound with what there is beside them. -/
structure Sound (h : L4Hub G) : Prop where
  channel : h.ingest.listener.internalMessageTx = true
  accounts : h.server.Accounts
  length : h.clients.length = h.server.connections.length
  clients : ∀ (k : ℕ) (x : L4Client) (c : WsConnection), h.clients[k]? = some x →
    h.server.connections[k]? = some c → x.Sound h.applied c

/-- What is kept: all is sound, and no update is missed. -/
def Kept (h : L4Hub G) : Prop := h.Sound ∧ h.Gapless

theorem kept_start (i : Ingest) (bboOnly : Bool) (l2Heartbeat bboHeartbeat : Option ℕ)
    (htx : i.listener.internalMessageTx = true) :
    (L4Hub.start i bboOnly l2Heartbeat bboHeartbeat : L4Hub G).Kept :=
  ⟨⟨htx, WsServer.accounts_new _ _ _, rfl, nofun⟩, nofun⟩

variable {h : L4Hub G} {k : ℕ} {x x' : L4Client} {c c' : WsConnection}

/-- The connection beside which there is something. -/
theorem Sound.exists_connection (hs : h.Sound) (hx : h.clients[k]? = some x) :
    ∃ c, h.server.connections[k]? = some c ∧ x.Sound h.applied c := by
  obtain ⟨hlt, -⟩ := List.getElem?_eq_some_iff.mp hx
  rw [hs.length] at hlt
  have hc := List.getElem?_eq_getElem hlt
  exact ⟨_, hc, hs.clients k x _ hx hc⟩

/-- The requests for bodies have no part in it. -/
theorem Kept.serving (hk : h.Kept) (serving : L4Serving L4Captured G) :
    Kept { h with serving } :=
  ⟨⟨hk.1.channel, hk.1.accounts, hk.1.length, hk.1.clients⟩, hk.2⟩

variable [SlabPolicy] [FixedPoint] [LevelHash] [AddressParser]

/-- **One connection is replaced**, with what there is beside it. -/
theorem Sound.replace (hs : h.Sound) (hx : h.clients[k]? = some x)
    (hc : h.server.connections[k]? = some c) {a : ActiveGuards}
    (haccounts : (h.server.setConnection k a c').Accounts) (hsound : x'.Sound h.applied c') :
    Sound { h with server := h.server.setConnection k a c', clients := h.clients.set k x' } := by
  obtain ⟨hlt, -⟩ := List.getElem?_eq_some_iff.mp hx
  refine ⟨hs.channel, haccounts, ?_, fun k' y d hy hd => ?_⟩
  · rw [List.length_set, WsServer.setConnection, List.length_set]
    exact hs.length
  · rw [List.getElem?_set] at hy
    rcases WsServer.getElem?_setConnection hc hd with ⟨rfl, rfl⟩ | ⟨hne, hd⟩
    · rw [if_pos rfl, if_pos hlt] at hy
      cases hy
      exact hsound
    · rw [if_neg (Ne.symm hne)] at hy
      exact hs.clients k' y d hy hd

/-- No client misses an update exactly if the one that is replaced does not. -/
theorem Gapless.replace_iff (hg : h.Gapless) (hx : h.clients[k]? = some x) (server : WsServer) :
    Gapless { h with server, clients := h.clients.set k x' } ↔ x'.Served h.applied := by
  obtain ⟨hlt, -⟩ := List.getElem?_eq_some_iff.mp hx
  constructor
  · intro hgapless
    refine hgapless x' (List.mem_of_getElem? (i := k) ?_)
    rw [List.getElem?_set_self hlt]
  · intro hserved y hy
    rcases List.mem_or_eq_of_mem_set hy with hmem | rfl
    · exact hg y hmem
    · exact hserved

theorem Kept.replace (hk : h.Kept) (hx : h.clients[k]? = some x)
    (hc : h.server.connections[k]? = some c) {a : ActiveGuards}
    (haccounts : (h.server.setConnection k a c').Accounts) (hsound : x'.Sound h.applied c')
    (hserved : x'.Served h.applied) :
    Kept { h with server := h.server.setConnection k a c', clients := h.clients.set k x' } :=
  ⟨hk.1.replace hx hc haccounts hsound, (Gapless.replace_iff hk.2 hx _).mpr hserved⟩

/-- The listener takes a step, and what it broadcasts reaches every connection. -/
theorem Kept.ingest (hk : h.Kept) {op : IngestOp} {i' : Ingest} {sent : List InternalMessage}
    (hstep : h.ingest.step (op.withGuards h.server.active h.server.connections.length) =
      some (i', sent)) :
    Kept { h with
      ingest := i'
      clients := h.clients.map (L4Client.receive h.applied.length sent)
      applied := h.applied ++ (op.applies h.ingest.listener).toList } := by
  have happlies : (op.withGuards h.server.active h.server.connections.length).applies
      h.ingest.listener = op.applies h.ingest.listener := by
    cases op <;> rfl
  have hof : ∀ m ∈ sent, ∀ coin u, m.l4Update coin = some u →
      ∃ batch, op.applies h.ingest.listener = some batch ∧ batch.l4Update coin = some u := by
    intro m hm coin u hu
    rw [← happlies]
    exact Ingest.applies_of_l4Update hstep hm hu
  -- both families are wanted while the subscription holds its guards
  have hsends : ∀ c ∈ h.server.connections, ∀ coin, .l4Book coin ∈ c.manager.subscriptions →
      ∀ batch u, op.applies h.ingest.listener = some batch → batch.l4Update coin = some u →
        ∃ m ∈ sent, m.l4Update coin = some u := by
    intro c hc coin hcoin batch u hbatch hu
    rw [← happlies] at hbatch
    refine Ingest.exists_l4Update hstep hk.1.channel ?_ hbatch hu
    intro env height batch' heq
    cases op with
    | apply env' height' batch'' =>
      cases heq
      exact ⟨(hk.1.accounts.wants_iff .l4Statuses).mpr ⟨c, hc, _, hcoin, rfl⟩,
        (hk.1.accounts.wants_iff .l4Diffs).mpr ⟨c, hc, _, hcoin, rfl⟩⟩
    | _ => cases heq
  refine ⟨⟨(internalMessageTx_step hstep).trans hk.1.channel, hk.1.accounts, ?_,
    fun k y d hy hd => ?_⟩, fun y hy => ?_⟩
  · rw [← hk.1.length]
    exact List.length_map _
  · obtain ⟨x, hx, rfl⟩ := Option.map_eq_some_iff.mp (List.getElem?_map.symm.trans hy)
    exact (hk.1.clients k x d hx hd).receive hof (hsends d (List.mem_of_getElem? hd))
  · obtain ⟨x, hx, rfl⟩ := List.mem_map.mp hy
    obtain ⟨k, hget⟩ := List.mem_iff_getElem?.mp hx
    obtain ⟨c, hc, hsound⟩ := hk.1.exists_connection hget
    exact (hk.2 x hx).receive hsound (hsends c (List.mem_of_getElem? hc))

/-- A connection is made. -/
theorem Kept.connect (hk : h.Kept) (univ : Std.ExtTreeSet Coin) :
    Kept { h with
      server := { h.server with connections := h.server.connections ++ [.new univ] }
      clients := h.clients ++ [.new] } := by
  refine ⟨⟨hk.1.channel, hk.1.accounts.connect univ, ?_, fun k y d hy hd => ?_⟩, fun y hy => ?_⟩
  · simp only [List.length_append, hk.1.length, List.length_singleton]
  · rw [List.getElem?_append] at hy hd
    rw [hk.1.length] at hy
    split at hd
    case isTrue hlt =>
      rw [if_pos hlt] at hy
      exact hk.1.clients k y d hy hd
    case isFalse hge =>
      rw [if_neg hge] at hy
      rw [List.mem_singleton.mp (List.mem_of_getElem? hy)]
      exact .new d
  · rcases List.mem_append.mp hy with hmem | hmem
    · exact hk.2 y hmem
    · rw [List.mem_singleton.mp hmem]
      exact .new

/-- A connection is closed. -/
theorem Kept.disconnect (hk : h.Kept) (hc : h.server.connections[k]? = some c)
    (serving : L4Serving L4Captured G) :
    Kept { h with
      server := { h.server with
        active := c.dropGuards h.server.active
        connections := h.server.connections.eraseIdx k }
      clients := h.clients.eraseIdx k
      serving } := by
  refine ⟨⟨hk.1.channel, hk.1.accounts.disconnect hc, ?_, fun j y d hy hd => ?_⟩, fun y hy => ?_⟩
  · simp only [List.length_eraseIdx, hk.1.length]
  · rw [List.getElem?_eraseIdx] at hy hd
    split at hd
    case isTrue hlt =>
      rw [if_pos hlt] at hy
      exact hk.1.clients j y d hy hd
    case isFalse hge =>
      rw [if_neg hge] at hy
      exact hk.1.clients (j + 1) y d hy hd
  · exact hk.2 y (List.mem_of_mem_eraseIdx hy)

theorem connection_eq_some {op : WsOp} {f : List ServerResponse → L4Client → L4Client}
    {h' : L4Hub G} {said : List (ℕ × ServerResponse)} :
    h.connection k op f = some (h', said) ↔ ∃ x server said', h.clients[k]? = some x ∧
      h.server.step op = some (server, said') ∧
      h' = { h with server, clients := h.clients.set k (f said' x) } ∧
      said = said'.map fun r => (k, r) := by
  rw [connection]
  cases hx : h.clients[k]? with
  | none => simp
  | some x =>
    cases hstep : h.server.step op with
    | none => simp
    | some r => simp [Prod.ext_iff, eq_comm]

/-- A connection that takes the next thing that comes. -/
theorem Sound.idle (hs : h.Sound) (hx : h.clients[k]? = some x) (hc : h.server.idle k = some c) :
    h.server.connections[k]? = some c ∧ c.pending = none ∧ x.Sound h.applied c := by
  obtain ⟨hget, hnone⟩ := Option.filter_eq_some_iff.mp hc
  exact ⟨hget, Option.isNone_iff_eq_none.mp hnone, hs.clients k x c hx hget⟩

/-- **A message is taken**, or some are lost, or the time has come for a heartbeat. -/
theorem Kept.idle (hk : h.Kept) (hx : h.clients[k]? = some x) (hc : h.server.idle k = some c)
    (hnotes : WsConnection.Notes c c') (hqueue : ∀ e ∈ x'.queue, e ∈ x.queue)
    (hbooks : ∀ b ∈ x'.books, ∃ b' ∈ x.books, b'.coin = b.coin)
    (hwaiting : x'.waiting = x.waiting) (hserved : x'.Served h.applied) :
    Kept { h with
      server := h.server.setConnection k h.server.active c'
      clients := h.clients.set k x' } := by
  obtain ⟨hget, hidle, hsound⟩ := hk.1.idle hx hc
  have haccounts := hk.1.accounts.replace hget
    (hnotes.becomes (hk.1.accounts.sound c (List.mem_of_getElem? hget)) _)
  exact hk.replace hx hget haccounts (hsound.of_idle hidle hnotes hqueue hbooks hwaiting) hserved

theorem Kept.deliver (hk : h.Kept) {now n : ℕ} {m : InternalMessage}
    {queue : List (ℕ × InternalMessage)} (hqueue : h.clients[k]?.map L4Client.queue =
      some ((n, m) :: queue)) {h' : L4Hub G} {said : List (ℕ × ServerResponse)}
    (hstep : h.connection k (.deliver k now m) (fun said x => { x with queue }.send n said) =
      some (h', said)) : h'.Kept := by
  obtain ⟨x, server, said', hx, hserver, rfl, rfl⟩ := connection_eq_some.mp hstep
  obtain ⟨c, hc, hr⟩ := Option.map_eq_some_iff.mp hserver
  cases hr
  obtain ⟨hget, hidle, hsound⟩ := hk.1.idle hx hc
  rw [hx, Option.map_some, Option.some.injEq] at hqueue
  refine hk.idle hx hc (c.deliver_notes _ _ _ _) (fun e he => ?_) (fun b hb => ?_) rfl ?_
  · rw [hqueue]
    exact List.mem_cons_of_mem _ he
  · obtain ⟨b', hb', rfl⟩ := List.mem_map.mp hb
    exact ⟨b', hb', rfl⟩
  · exact (hk.2 x (List.mem_of_getElem? hx)).deliver hsound hqueue _ _ _

theorem Kept.lag (hk : h.Kept) {n : ℕ} {h' : L4Hub G} {said : List (ℕ × ServerResponse)}
    (hstep : h.connection k (.lag k)
      (fun _ x => { x with queue := x.queue.drop n, lagged := true }) = some (h', said)) :
    h'.Kept := by
  obtain ⟨x, server, said', hx, hserver, rfl, rfl⟩ := connection_eq_some.mp hstep
  obtain ⟨c, hc, hr⟩ := Option.map_eq_some_iff.mp hserver
  cases hr
  have hnotes : WsConnection.Notes c { c with forceFullL2 := true } :=
    ⟨⟨_, _, _, _, _, rfl⟩, fun _ => Or.inl, fun _ => Or.inl, fun _ => Or.inl⟩
  exact hk.idle hx hc hnotes (fun e he => List.mem_of_mem_drop he) (fun b hb => ⟨b, hb, rfl⟩) rfl
    nofun

theorem Kept.heartbeat (hk : h.Kept) {now time : ℕ} {h' : L4Hub G}
    {said : List (ℕ × ServerResponse)}
    (hstep : h.connection k (.heartbeat k now time) (fun _ x => x) = some (h', said)) :
    h'.Kept := by
  obtain ⟨x, server, said', hx, hserver, rfl, rfl⟩ := connection_eq_some.mp hstep
  obtain ⟨c, hc, hr⟩ := Option.map_eq_some_iff.mp hserver
  cases hr
  exact hk.idle hx hc (WsConnection.heartbeatAll_notes (fun _ hs => hs) _ _ _ _) (fun _ he => he)
    (fun b hb => ⟨b, hb, rfl⟩) rfl (hk.2 x (List.mem_of_getElem? hx))

/-- **A request**: a book that is asked for waits from now on. -/
theorem Kept.request (hk : h.Kept) (gzip : L4Captured → Option G) {message : ClientMessage}
    {h' : L4Hub G} {said : List (ℕ × ServerResponse)}
    (hstep : h.step gzip (.request k message) = some (h', said)) : h'.Kept := by
  simp only [step] at hstep
  split at hstep
  case h_2 => cases hstep
  case h_1 x server said' hx hserver =>
    obtain ⟨c, hc, hr⟩ := Option.map_eq_some_iff.mp hserver
    generalize hreceive :
      c.receiveClientMessage h.server.bboOnly h.server.active message = r at hr
    obtain ⟨a, c', said''⟩ := r
    cases hr
    obtain ⟨hget, hidle, hsound⟩ := hk.1.idle hx hc
    have haccounts : (h.server.setConnection k a c').Accounts := by
      have hbecomes := (hk.1.accounts.sound c (List.mem_of_getElem? hget)).receiveClientMessage
        h.server.bboOnly h.server.active message
      rw [hreceive] at hbecomes
      exact hk.1.accounts.replace hget hbecomes
    have hsound' : ∀ waiting : Option L4Waiting,
        (∀ w, waiting = some w → h.applied.length ≤ w.since ∧ c'.pending = some (.l4Book w.coin)) →
        L4Client.Sound h.applied c' { x.retain c' with waiting } := by
      intro waiting hwaiting
      have hnext : (c.receiveClientMessage h.server.bboOnly h.server.active message).2.1 = c' := by
        rw [hreceive]
      rw [← hnext] at hwaiting ⊢
      exact hsound.request hidle _ _ _ rfl rfl hwaiting
    have hserved := (hk.2 x (List.mem_of_getElem? hx)).retain c'
    have hself : (h.server.setConnection k a c').connections[k]? = some c' :=
      List.getElem?_set_self (List.getElem?_eq_some_iff.mp hget).1
    rw [hself] at hstep
    simp only at hstep
    split at hstep
    case h_1 coin hpending =>
      cases hstep
      rw [ask, List.set_set]
      refine Kept.serving (hk.replace hx hget haccounts (hsound'
        (some ⟨coin, h.serving.requests.length, h.applied.length⟩) fun w hw => ?_) hserved) _
      cases hw
      exact ⟨le_rfl, hpending⟩
    case h_2 =>
      cases hstep
      refine hk.replace hx hget haccounts (hsound' x.waiting fun w hw => ?_) hserved
      rw [hsound.not_waiting hidle] at hw
      cases hw

/-- A book can be sent to a client that waits for one. -/
theorem Sound.exists_book (hs : h.Sound) (hx : h.clients[k]? = some x) {w : L4Waiting}
    (hw : x.waiting = some w) (body : L4Captured) (f : List ServerResponse → L4Client → L4Client) :
    ∃ h' said, h.connection k (.snapshot k (.ok body.book)) f = some (h', said) := by
  obtain ⟨c, hget, hsound⟩ := hs.exists_connection hx
  obtain ⟨hpending, -, -⟩ := hsound.waits w hw
  have hstep : h.server.step (.snapshot k (.ok body.book)) =
      some (h.server.setConnection k h.server.active { c with pending := none },
        [.subscriptionResponse (.subscribe (.l4Book w.coin)), .l4Snapshot body.book]) := by
    simp only [WsServer.step, hget, Option.bind_some, hpending]
    rfl
  exact ⟨_, _, connection_eq_some.mpr ⟨x, _, _, hx, hstep, rfl, rfl⟩⟩

/-- **A book is sent**: no update is missed exactly if what was applied before the guards
were taken waits. -/
theorem Kept.book (hk : h.Kept) (hx : h.clients[k]? = some x) {w : L4Waiting}
    (hw : x.waiting = some w) {body : L4Captured} {h' : L4Hub G}
    {said : List (ℕ × ServerResponse)}
    (hstep : h.connection k (.snapshot k (.ok body.book)) (fun _ x =>
      { x with waiting := none, books := ⟨w.coin, body.since, []⟩ :: x.books }) =
        some (h', said)) :
    h'.Sound ∧ (h'.Gapless ↔ (x.lagged = false → x.Joins h.applied w body.since)) := by
  obtain ⟨x', server, said', hx', hserver, rfl, rfl⟩ := connection_eq_some.mp hstep
  rw [hx, Option.some.injEq] at hx'
  subst hx'
  have haccounts := hk.1.accounts.step hserver
  obtain ⟨c, hget, hr⟩ := Option.bind_eq_some_iff.mp hserver
  have hsound := hk.1.clients k x c hx hget
  obtain ⟨hpending, hcoin, -⟩ := hsound.waits w hw
  rw [hpending] at hr
  cases hr
  have hsound' : L4Client.Sound h.applied { c with pending := none }
      { x with waiting := none, books := ⟨w.coin, body.since, []⟩ :: x.books } := by
    refine ⟨hsound.received, fun b hb => ?_, nofun, nofun⟩
    rcases List.mem_cons.mp hb with rfl | hb
    · exact hcoin
    · exact hsound.books b hb
  refine ⟨hk.1.replace hx hget haccounts hsound', ?_⟩
  rw [← L4Client.served_book_iff (hk.2 x (List.mem_of_getElem? hx)) hsound hw]
  exact Gapless.replace_iff hk.2 hx _

/-- A book that could not be made ends its subscription. -/
theorem Kept.bookFailed (hk : h.Kept) (hx : h.clients[k]? = some x) {w : L4Waiting}
    (hw : x.waiting = some w) {error : String} {h' : L4Hub G} {said : List (ℕ × ServerResponse)}
    (hstep : h.connection k (.snapshot k (.error error)) (fun _ x => { x with waiting := none }) =
      some (h', said)) : h'.Kept := by
  obtain ⟨x', server, said', hx', hserver, rfl, rfl⟩ := connection_eq_some.mp hstep
  rw [hx, Option.some.injEq] at hx'
  subst hx'
  have haccounts := hk.1.accounts.step hserver
  obtain ⟨c, hget, hr⟩ := Option.bind_eq_some_iff.mp hserver
  have hsound := hk.1.clients k x c hx hget
  obtain ⟨hpending, -, hother⟩ := hsound.waits w hw
  rw [hpending] at hr
  cases hr
  have hsound' : L4Client.Sound h.applied (c.endSnapshot h.server.active (.l4Book w.coin)
      (.error error)).2.1 { x with waiting := none } := by
    refine ⟨hsound.received, fun b hb => ?_, nofun, nofun⟩
    refine List.mem_filter.mpr ⟨hsound.books b hb, decide_eq_true fun heq => ?_⟩
    exact hother b hb (Subscription.l4Book.inj heq)
  exact hk.replace hx hget haccounts hsound' (hk.2 x (List.mem_of_getElem? hx))

/-- **A step that sends no book** keeps everything. -/
theorem Kept.other (hk : h.Kept) {gzip : L4Captured → Option G} {op : L4HubOp}
    (hop : ∀ k error, op ≠ .book k error) {h' : L4Hub G} {said : List (ℕ × ServerResponse)}
    (hstep : h.step gzip op = some (h', said)) : h'.Kept := by
  have hserve : ∀ {op'}, h.serve gzip op' = some (h', said) → h'.Kept := by
    intro op' hstep
    obtain ⟨r, -, heq⟩ := Option.map_eq_some_iff.mp hstep
    cases heq
    exact hk.serving r.1
  cases op with
  | ingest op =>
    obtain ⟨r, hr, heq⟩ := Option.map_eq_some_iff.mp hstep
    cases heq
    exact hk.ingest hr
  | connect =>
    cases hstep
    exact hk.connect _
  | request k message => exact hk.request gzip hstep
  | tick ms | get key acceptsGzip | borrow | giveBack | advance i | giveUp i => exact hserve hstep
  | read i =>
    obtain ⟨r, -, hstep⟩ := Option.bind_eq_some_iff.mp hstep
    exact hserve hstep
  | book k error => exact absurd rfl (hop k error)
  | deliver k now =>
    simp only [step] at hstep
    split at hstep
    case h_1 n m queue hqueue => exact hk.deliver hqueue hstep
    case h_2 => cases hstep
  | lag k n => exact hk.lag hstep
  | heartbeat k now time => exact hk.heartbeat hstep
  | disconnect k =>
    simp only [step] at hstep
    split at hstep
    case h_1 x server said' hx hserver =>
      obtain ⟨c, hget, hr⟩ := Option.map_eq_some_iff.mp hserver
      cases hr
      cases hstep
      exact hk.disconnect hget _
    case h_2 => cases hstep

/-- **A step leaves all sound**, and no update missed exactly if what it sends connects. -/
theorem Kept.step (hk : h.Kept) (gzip : L4Captured → Option G) (op : L4HubOp) :
    (∀ h' said, h.step gzip op = some (h', said) → h'.Sound) ∧
      (h.Connects op ↔ ∀ h' said, h.step gzip op = some (h', said) → h'.Gapless) := by
  by_cases hop : ∃ k error, op = .book k error
  · obtain ⟨k, error, rfl⟩ := hop
    have hsent : ∀ h' said, h.step gzip (.book k error) = some (h', said) →
        h'.Sound ∧ (h.Connects (.book k error) → h'.Gapless) := by
      intro h' said hstep
      obtain ⟨w, hwaiting, hstep⟩ := Option.bind_eq_some_iff.mp hstep
      obtain ⟨x, hx, hw⟩ := Option.bind_eq_some_iff.mp hwaiting
      obtain ⟨r, hr, hstep⟩ := Option.bind_eq_some_iff.mp hstep
      split at hstep
      case h_1 body hstage =>
        obtain ⟨hsound, hgapless⟩ := hk.book hx hw hstep
        refine ⟨hsound, fun hconnects => hgapless.mpr ?_⟩
        have hanswer := hconnects x hx w hw r hr
        rwa [hstage] at hanswer
      case h_2 => exact (hk.bookFailed hx hw hstep).imp_right fun hg _ => hg
      case h_3 => exact (hk.bookFailed hx hw hstep).imp_right fun hg _ => hg
      case h_4 => cases hstep
    refine ⟨fun h' said hstep => (hsent h' said hstep).1,
      fun hconnects h' said hstep => (hsent h' said hstep).2 hconnects, ?_⟩
    intro hall x hx w hw r hr
    cases hstage : r.stage with
    | answered response =>
      cases response with
      | plain body =>
        obtain ⟨h', said, hconn⟩ := hk.1.exists_book hx hw body (fun _ x =>
          { x with waiting := none, books := ⟨w.coin, body.since, []⟩ :: x.books })
        refine (hk.book hx hw hconn).2.mp (hall h' said ?_)
        simp only [L4Hub.step, Option.mem_def.mp hx, Option.bind_some, Option.mem_def.mp hw,
          Option.mem_def.mp hr, hstage]
        exact hconn
      | _ => trivial
    | _ => trivial
  · have hother : ∀ k error, op ≠ .book k error := fun k error heq => hop ⟨k, error, heq⟩
    have hkept : ∀ h' said, h.step gzip op = some (h', said) → h'.Kept :=
      fun h' said hstep => hk.other hother hstep
    refine ⟨fun h' said hstep => (hkept h' said hstep).1,
      iff_of_true ?_ fun h' said hstep => (hkept h' said hstep).2⟩
    cases op with
    | book k error => exact absurd rfl (hother k error)
    | _ => trivial

end L4Hub

variable [SlabPolicy] [FixedPoint] [LevelHash] [AddressParser]

/-- **No subscriber misses an update**, all along a run, exactly if each book that is sent
is followed by what was applied between its being read and the guards being taken. -/
theorem gapless_iff_connects {G : Type} (gzip : L4Captured → Option G) {i : Ingest}
    (htx : i.listener.internalMessageTx = true) (bboOnly : Bool)
    (l2Heartbeat bboHeartbeat : Option ℕ) (ops : List L4HubOp) :
    Runs.Always (L4Hub.step gzip) L4Hub.Gapless ops (.start i bboOnly l2Heartbeat bboHeartbeat) ↔
      Runs.Meets (L4Hub.step gzip) (fun _ => L4Hub.Connects) [] ops
        (.start i bboOnly l2Heartbeat bboHeartbeat) := by
  have hstart := L4Hub.kept_start (G := G) i bboOnly l2Heartbeat bboHeartbeat htx
  exact Runs.always_iff_meets_of_invariant (I := L4Hub.Sound)
    (fun s op hs hg => (L4Hub.Kept.step ⟨hs, hg⟩ gzip op).2)
    (fun s op s' said hs hg hstep => (L4Hub.Kept.step ⟨hs, hg⟩ gzip op).1 s' said hstep)
    hstart.1 hstart.2 []

end HlOrderbook

namespace HlOrderbook

section Example

attribute [local instance] SlabPolicy.latest FixedPoint.decimal LevelHash.polynomial
  AddressParser.hexadecimal

/-- A listener without books. -/
private def l4Listener : Ingest := ⟨.new true true ⟨true, true, true⟩, none⟩

/-- A book with one bid comes. -/
private def l4Bid : IngestOp :=
  .init 0 ((∅ : Snapshots InnerL4Order).insert "BTC"
    ⟨[.limit "BTC" .bid 10000000000 100000000 7], []⟩) 1000

/-- The bid becomes smaller. -/
private def l4Smaller : IngestOp :=
  .apply ⟨0, ∅, fun _ => false, 0⟩ 1001
    (.bookDiffs ⟨1001, 1001, [⟨1, 7, "100", "BTC", .update "1" "0.5"⟩]⟩)

/-- A client subscribes to a book, which changes before and after it is read. -/
private def joining : List L4HubOp :=
  [.ingest l4Bid, .connect, .request 0 (.subscribe (.l4Book "BTC")), .advance 0, .advance 0,
    .advance 0, .ingest l4Smaller, .read 0, .ingest l4Smaller, .advance 0, .advance 0,
    .book 0 "", .deliver 0 1]

theorem gapless_iff_connects_joining :
    Runs.Always (L4Hub.step fun _ => some ()) L4Hub.Gapless joining
      (.start l4Listener false none none) ∧
    (runSteps (L4Hub.step fun _ => some ()) joining (.start l4Listener false none none)).map
      (fun r => r.1.clients.map fun x => (x.queue.length, x.books.map fun b =>
        (b.since, b.responses.map Prod.fst))) = some [(1, [(1, [0])])] := by
  exact ⟨(gapless_iff_connects (fun _ => some ()) rfl false none none joining).mpr
    (by decide +kernel), by decide +kernel⟩

/-- A book is read for a request over HTTP and changes; then a client subscribes to it. -/
private def cached : List L4HubOp :=
  [.ingest l4Bid, .connect, .get ⟨"BTC", ⟨none, none⟩⟩ false, .advance 0, .advance 0, .advance 0,
    .read 0, .advance 0, .tick 50, .ingest l4Smaller, .request 0 (.subscribe (.l4Book "BTC")),
    .advance 1, .advance 1, .book 0 ""]

/-- **A book from the cache**: it was read before the guards were taken, and what was
applied in between was sent to nobody. -/
theorem not_gapless_cached : ¬ ∀ (i : Ingest), i.listener.internalMessageTx = true →
    ∀ ops : List L4HubOp, Runs.Always (L4Hub.step fun _ => some ()) L4Hub.Gapless ops
      (.start i false none none) := by
  intro h
  have hend : ∃ r ∈ runSteps (L4Hub.step fun _ => some ()) cached
      (.start l4Listener false none none), ∃ x ∈ r.1.clients, x.lagged = false ∧
      ∃ b ∈ x.books, b.since = 0 ∧ x.queue.length = 0 ∧ b.responses.length = 0 ∧
      ∃ batch ∈ r.1.applied[0]?, (batch.l4Update b.coin).isSome = true := by
    decide +kernel
  obtain ⟨⟨h', said⟩, hrun, x, hx, hlag, b, hb, hsince, hqueue, hresponses, batch, hbatch, hsome⟩ :=
    hend
  obtain ⟨u, hu⟩ := Option.isSome_iff_exists.mp hsome
  have hgapless := h l4Listener rfl cached cached [] h' said (List.append_nil _).symm hrun
  rcases hgapless x hx hlag b hb 0 batch u (by omega) hbatch hu with hsent | ⟨m, hm, -⟩
  · rw [List.length_eq_zero_iff.mp hresponses] at hsent
    exact absurd hsent List.not_mem_nil
  · rw [List.length_eq_zero_iff.mp hqueue] at hm
    exact absurd hm List.not_mem_nil

end Example

end HlOrderbook
