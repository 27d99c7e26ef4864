import HlOrderbook.Bbo
import HlOrderbook.Lib.RefCount

/-!
# Subscriptions

A connection of a client: what it subscribed to, what it noted of the frames it sent,
and the guards it holds.  A guard of a shape makes the listener build it, a guard of a
family of messages makes the listener send them; the counts of both are shared by all
connections.

## Main definitions

* `Subscription`, `SubscriptionManager` — what a client can ask for, and has asked for.
* `ActiveGuards` — the shared counts.
* `WsConnection.receiveClientMessage`, `WsConnection.endSnapshot` — a request.
* `WsConnection.deliver`, `WsConnection.heartbeat` — a message, and a heartbeat.
* `WsServer`, `WsServer.step` — the connections there are.
-/

set_option autoImplicit false
set_option linter.unusedSectionVars false

namespace HlOrderbook

/-- The parser of addresses, which is not part of the server. -/
class AddressParser where
  parseAddress : String → Option Address

/-- The most subscriptions of a connection. -/
def maxSubscriptionsPerConnection : ℕ := 256

/-- What a client can subscribe to. -/
inductive Subscription where
  | trades (coin : Coin)
  | l2Book (book : L2Subscription)
  | l2Diff (book : L2Subscription)
  | l4Book (coin : Coin)
  | bbo (coin : Coin)
  | orderUpdates (user : String)
  | bookDiffs (coin : Coin)
  deriving DecidableEq

namespace Subscription

/-- Whether a character is a hexadecimal digit. -/
def isHexDigit (c : Char) : Bool :=
  c.isDigit || ('a' ≤ c && c ≤ 'f') || ('A' ≤ c && c ≤ 'F')

/-- Whether a subscription is accepted. -/
def validate (univ : Std.ExtTreeSet Coin) : Subscription → Bool
  | .trades coin | .l4Book coin | .bbo coin | .bookDiffs coin => univ.contains coin
  | .l2Book book | .l2Diff book => book.validate univ
  | .orderUpdates user => user.utf8ByteSize == 42 && user.toList.take 2 == ['0', 'x'] &&
    (user.toList.drop 2).all isHexDigit

/-- Whether a subscription is to the best prices. -/
def isBbo : Subscription → Bool
  | .bbo _ => true
  | _ => false

/-- The shape the listener has to build. -/
def l2Shape : Subscription → Option L2SnapshotParams
  | .l2Book book | .l2Diff book => some book.shape
  | _ => none

/-- The families of messages that a guard is taken of. -/
def acquireFor : Subscription → List BroadcastKind
  | .l4Book _ => [.l4Statuses, .l4Diffs]
  | .orderUpdates _ => [.l4Statuses]
  | .bookDiffs _ => [.l4Diffs]
  | .trades _ => [.trades]
  | .bbo _ => [.bbo]
  | .l2Book _ | .l2Diff _ => []

end Subscription

/-- The key that the notes of an aggregated book are kept under. -/
def l2CacheKey (s : L2Subscription) : String :=
  s.coin ++ ":" ++ toString (s.nSigFigs.getD 0) ++ ":" ++ toString (s.mantissa.getD 0) ++ ":" ++
    toString (s.nLevels.getD defaultLevels)

/-- A request of a client. -/
inductive ClientMessage where
  | subscribe (subscription : Subscription)
  | unsubscribe (subscription : Subscription)

/-- What a request is about. -/
def ClientMessage.subscription : ClientMessage → Subscription
  | .subscribe s | .unsubscribe s => s

/-- What a client is told of a request that is turned down. -/
inductive ServerError where
  | bboOnly
  | invalid (subscription : Subscription)
  | rejected
  | already (word : String) (subscription : Subscription)
  | snapshot (error : String)

/-- The text of an error, where a subscription is shown in some way. -/
def ServerError.text (shown : Subscription → String) : ServerError → String
  | .bboOnly =>
    "BBO-only mode: L2/L4/Trades subscriptions disabled. Only BBO subscriptions allowed."
  | .invalid s => "Invalid subscription: " ++ shown s
  | .rejected => "Rejected subscription: subscription limit reached for this connection"
  | .already word s => "Already " ++ word ++ "subscribed: " ++ shown s
  | .snapshot error => "Unable to grab order book snapshot: " ++ error

/-- The whole book of a coin, order by order. -/
structure L4Snapshot where
  coin : Coin
  time : ℕ
  height : ℕ
  levels : Snapshot InnerL4Order

/-- What a client is sent. -/
inductive ServerResponse where
  | subscriptionResponse (message : ClientMessage)
  | l2Book (book : L2Book)
  | l2Diff (diff : L2Diff)
  | l4Snapshot (book : L4Snapshot)
  | l4Updates (time height : ℕ) (statuses : List NodeDataOrderStatus)
      (diffs : List NodeDataOrderDiff)
  | trades (trades : List Trade)
  | bbo (bbo : Bbo)
  | bookDiffs (diffs : List NodeDataOrderDiff)
  | orderUpdates (user : Address) (time height : ℕ) (statuses : List NodeDataOrderStatus)
  | error (error : ServerError)

/-! ## What a connection has subscribed to -/

/-- The subscriptions of a connection, each once. -/
structure SubscriptionManager where
  subscriptions : List Subscription
  nodup : subscriptions.Nodup

namespace SubscriptionManager

/-- No subscription. -/
def empty : SubscriptionManager := ⟨[], .nil⟩

/-- Add a subscription, and tell whether it is new; `none` when there are too many. -/
def subscribe (m : SubscriptionManager) (s : Subscription) : Option (SubscriptionManager × Bool) :=
  if h : s ∈ m.subscriptions then some (m, false)
  else if maxSubscriptionsPerConnection ≤ m.subscriptions.length then none
  else some (⟨s :: m.subscriptions, List.nodup_cons.mpr ⟨h, m.nodup⟩⟩, true)

/-- Take a subscription away, and tell whether it was there. -/
def unsubscribe (m : SubscriptionManager) (s : Subscription) : SubscriptionManager × Bool :=
  (⟨m.subscriptions.filter (· ≠ s), m.nodup.filter _⟩, decide (s ∈ m.subscriptions))

end SubscriptionManager

/-- The guards that are out: by shape, and by family of messages. -/
structure ActiveGuards where
  l2Params : RefCount.Registry L2SnapshotParams
  subs : RefCount.Counters BroadcastKind

namespace ActiveGuards

/-- No guard is out. -/
def empty : ActiveGuards := ⟨∅, fun _ => 0⟩

/-- The shapes that some connection wants. -/
def snapshot (a : ActiveGuards) : Finset L2SnapshotParams := a.l2Params.keys

/-- Whether some connection wants a family of messages. -/
def wants (a : ActiveGuards) (kind : BroadcastKind) : Bool := decide (0 < a.subs kind)

end ActiveGuards

/-- A connection.  `pending` is the subscription whose first book is being made. -/
structure WsConnection where
  manager : SubscriptionManager
  univ : Std.ExtTreeSet Coin
  lastL2 : Std.ExtTreeMap String L2Entry
  lastL2Diff : Std.ExtTreeMap String ℕ
  lastBbo : Std.ExtTreeMap String BboEntry
  l2ParamGuards : List L2SnapshotParams
  subGuards : List (Subscription × List BroadcastKind)
  forceFullL2 : Bool
  pending : Option Subscription

namespace WsConnection

/-- A connection that was just made. -/
def new (univ : Std.ExtTreeSet Coin) : WsConnection where
  manager := .empty
  univ := univ
  lastL2 := ∅
  lastL2Diff := ∅
  lastBbo := ∅
  l2ParamGuards := []
  subGuards := []
  forceFullL2 := false
  pending := none

/-! ### Guards -/

/-- Take the guard of a shape, if there is one and it is not held. -/
def acquireL2Param (a : ActiveGuards) (c : WsConnection) :
    Option L2SnapshotParams → ActiveGuards × WsConnection
  | some p =>
    if p ∈ c.l2ParamGuards then (a, c)
    else ({ a with l2Params := a.l2Params.acquire p },
      { c with l2ParamGuards := p :: c.l2ParamGuards })
  | none => (a, c)

/-- Give the guard of a shape back, if it is held. -/
def removeL2Param (a : ActiveGuards) (c : WsConnection) (p : L2SnapshotParams) :
    ActiveGuards × WsConnection :=
  if p ∈ c.l2ParamGuards then
    ({ a with l2Params := a.l2Params.release p },
      { c with l2ParamGuards := c.l2ParamGuards.filter (· ≠ p) })
  else (a, c)

/-- Give the guards of a subscription back. -/
def removeSubGuards (a : ActiveGuards) (c : WsConnection) (s : Subscription) :
    ActiveGuards × WsConnection :=
  ({ a with
    subs := ((c.subGuards.filter (·.1 = s)).flatMap Prod.snd).foldl RefCount.Counters.release
      a.subs },
    { c with subGuards := c.subGuards.filter (·.1 ≠ s) })

/-- Take the guards of a subscription; what was held for it is given back. -/
def insertSubGuards (a : ActiveGuards) (c : WsConnection) (s : Subscription) :
    ActiveGuards × WsConnection :=
  let a := { a with subs := s.acquireFor.foldl RefCount.Counters.acquire a.subs }
  if s.acquireFor = [] then (a, c)
  else
    let (a, c) := c.removeSubGuards a s
    (a, { c with subGuards := (s, s.acquireFor) :: c.subGuards })

/-- Give all guards back. -/
def dropGuards (a : ActiveGuards) (c : WsConnection) : ActiveGuards where
  l2Params := c.l2ParamGuards.foldl RefCount.Registry.release a.l2Params
  subs := (c.subGuards.flatMap Prod.snd).foldl RefCount.Counters.release a.subs

/-! ### Requests -/

/-- A subscription that is new: its guards are taken, before its first book is made. -/
def beginSubscription (a : ActiveGuards) (c : WsConnection) (s : Subscription) :
    ActiveGuards × WsConnection :=
  let (a, c) := c.acquireL2Param a s.l2Shape
  c.insertSubGuards a s

/-- Give the guard of a shape back, unless a subscription needs it. -/
def releaseShape (a : ActiveGuards) (c : WsConnection) (p : L2SnapshotParams) :
    ActiveGuards × WsConnection :=
  if c.manager.subscriptions.any fun s => s.l2Shape = some p then (a, c) else c.removeL2Param a p

/-- A subscription that was ended: its guards and its notes are dropped, and the guard of
its shape if no other subscription needs it. -/
def endSubscription (a : ActiveGuards) (c : WsConnection) (s : Subscription) :
    ActiveGuards × WsConnection :=
  let (a, c) := c.removeSubGuards a s
  match s with
  | .l2Book book =>
    { c with lastL2 := c.lastL2.erase (l2CacheKey book) }.releaseShape a book.shape
  | .l2Diff book =>
    { c with lastL2Diff := c.lastL2Diff.erase (l2CacheKey book) }.releaseShape a book.shape
  | .bbo coin => (a, { c with lastBbo := c.lastBbo.erase coin })
  | _ => (a, c)

/-- The connections are the same but for the guards they hold. -/
structure SameButGuards (c c' : WsConnection) : Prop where
  manager : c'.manager = c.manager
  univ : c'.univ = c.univ
  lastL2 : c'.lastL2 = c.lastL2
  lastL2Diff : c'.lastL2Diff = c.lastL2Diff
  lastBbo : c'.lastBbo = c.lastBbo
  forceFullL2 : c'.forceFullL2 = c.forceFullL2
  pending : c'.pending = c.pending

theorem SameButGuards.refl (c : WsConnection) : SameButGuards c c :=
  ⟨rfl, rfl, rfl, rfl, rfl, rfl, rfl⟩

theorem SameButGuards.trans {c c' c'' : WsConnection} (h : SameButGuards c c')
    (h' : SameButGuards c' c'') : SameButGuards c c'' where
  manager := h'.manager.trans h.manager
  univ := h'.univ.trans h.univ
  lastL2 := h'.lastL2.trans h.lastL2
  lastL2Diff := h'.lastL2Diff.trans h.lastL2Diff
  lastBbo := h'.lastBbo.trans h.lastBbo
  forceFullL2 := h'.forceFullL2.trans h.forceFullL2
  pending := h'.pending.trans h.pending

theorem acquireL2Param_frame (a : ActiveGuards) (c : WsConnection)
    (shape : Option L2SnapshotParams) : SameButGuards c (c.acquireL2Param a shape).2 := by
  cases shape with
  | none => exact .refl c
  | some p =>
    rw [acquireL2Param]
    split
    · exact .refl c
    · exact ⟨rfl, rfl, rfl, rfl, rfl, rfl, rfl⟩

theorem removeSubGuards_frame (a : ActiveGuards) (c : WsConnection) (s : Subscription) :
    SameButGuards c (c.removeSubGuards a s).2 := ⟨rfl, rfl, rfl, rfl, rfl, rfl, rfl⟩

theorem insertSubGuards_frame (a : ActiveGuards) (c : WsConnection) (s : Subscription) :
    SameButGuards c (c.insertSubGuards a s).2 := by
  rw [insertSubGuards]
  split
  · exact .refl c
  · exact ⟨rfl, rfl, rfl, rfl, rfl, rfl, rfl⟩

theorem releaseShape_frame (a : ActiveGuards) (c : WsConnection) (p : L2SnapshotParams) :
    SameButGuards c (c.releaseShape a p).2 := by
  rw [releaseShape, removeL2Param]
  split
  · exact .refl c
  · split
    · exact ⟨rfl, rfl, rfl, rfl, rfl, rfl, rfl⟩
    · exact .refl c

/-- A subscription that begins takes guards, and no more. -/
theorem beginSubscription_frame (a : ActiveGuards) (c : WsConnection) (s : Subscription) :
    SameButGuards c (c.beginSubscription a s).2 :=
  (acquireL2Param_frame a c s.l2Shape).trans (insertSubGuards_frame _ _ s)

/-- The notes of a subscription are dropped. -/
def forget (c : WsConnection) : Subscription → WsConnection
  | .l2Book book => { c with lastL2 := c.lastL2.erase (l2CacheKey book) }
  | .l2Diff book => { c with lastL2Diff := c.lastL2Diff.erase (l2CacheKey book) }
  | .bbo coin => { c with lastBbo := c.lastBbo.erase coin }
  | _ => c

@[simp] theorem forget_manager (c : WsConnection) (s : Subscription) :
    (c.forget s).manager = c.manager := by
  cases s <;> rfl

@[simp] theorem forget_pending (c : WsConnection) (s : Subscription) :
    (c.forget s).pending = c.pending := by
  cases s <;> rfl

/-- A subscription that ends drops its notes, gives guards back, and no more. -/
theorem endSubscription_frame (a : ActiveGuards) (c : WsConnection) (s : Subscription) :
    SameButGuards (c.forget s) (c.endSubscription a s).2 := by
  cases s with
  | l2Book book =>
    have hnotes : SameButGuards (c.forget (.l2Book book))
        { (c.removeSubGuards a (.l2Book book)).2 with
          lastL2 := c.lastL2.erase (l2CacheKey book) } := ⟨rfl, rfl, rfl, rfl, rfl, rfl, rfl⟩
    exact hnotes.trans (releaseShape_frame _ _ book.shape)
  | l2Diff book =>
    have hnotes : SameButGuards (c.forget (.l2Diff book))
        { (c.removeSubGuards a (.l2Diff book)).2 with
          lastL2Diff := c.lastL2Diff.erase (l2CacheKey book) } :=
      ⟨rfl, rfl, rfl, rfl, rfl, rfl, rfl⟩
    exact hnotes.trans (releaseShape_frame _ _ book.shape)
  | bbo coin => exact ⟨rfl, rfl, rfl, rfl, rfl, rfl, rfl⟩
  | trades coin | l4Book coin | orderUpdates user | bookDiffs coin =>
    exact removeSubGuards_frame a c _

/-- A request.  The first book of an `l4Book` subscription has to be waited for. -/
def receiveClientMessage (bboOnly : Bool) (a : ActiveGuards) (c : WsConnection)
    (message : ClientMessage) : ActiveGuards × WsConnection × List ServerResponse :=
  let s := message.subscription
  if bboOnly && !s.isBbo then (a, c, [.error .bboOnly])
  else if !s.validate c.univ then (a, c, [.error (.invalid s)])
  else match message with
    | .subscribe s =>
      match c.manager.subscribe s with
      | none => (a, c, [.error .rejected])
      | some (_, false) => (a, c, [.error (.already "" s)])
      | some (manager, true) =>
        let (a, c) := { c with manager }.beginSubscription a s
        match s with
        | .l4Book _ => (a, { c with pending := some s }, [])
        | _ => (a, c, [.subscriptionResponse message])
    | .unsubscribe s =>
      let (manager, removed) := c.manager.unsubscribe s
      if removed then
        let (a, c) := { c with manager }.endSubscription a s
        (a, c, [.subscriptionResponse message])
      else (a, c, [.error (.already "un" s)])

/-- The first book of a subscription is there, or it is not and the subscription is
taken back. -/
def endSnapshot (a : ActiveGuards) (c : WsConnection) (s : Subscription) :
    Except String L4Snapshot → ActiveGuards × WsConnection × List ServerResponse
  | .ok book =>
    (a, { c with pending := none }, [.subscriptionResponse (.subscribe s), .l4Snapshot book])
  | .error error =>
    let (a, c) := { c with manager := (c.manager.unsubscribe s).1, pending := none }.removeSubGuards
      a s
    (a, c, [.error (.snapshot error)])

/-! ### Messages -/

/-- What is noted under a key, if something is. -/
def note {V : Type} (notes : Std.ExtTreeMap String V) (key : String) :
    Option V → Std.ExtTreeMap String V
  | some v => notes.insert key v
  | none => notes

variable [FixedPoint] [LevelHash] [AddressParser]

/-- One message, for one subscription. -/
def deliverTo (now : ℕ) (storeL2 storeBbo : Bool) (m : InternalMessage) (c : WsConnection) :
    Subscription → WsConnection × List ServerResponse
  | .l2Book book =>
    match m with
    | .snapshot snapshot _ time _ dirty _ =>
      let key := l2CacheKey book
      let r := sendWsDataFromSnapshot now book snapshot time c.lastL2[key]? dirty c.forceFullL2
        storeL2
      ({ c with lastL2 := note c.lastL2 key r.1 }, (r.2.map .l2Book).toList)
    | _ => (c, [])
  | .l2Diff book =>
    match m with
    | .snapshot snapshot previous time height dirty _ =>
      let key := l2CacheKey book
      let r := sendWsDataFromL2Diff book snapshot previous time height c.lastL2Diff[key]? dirty
        c.forceFullL2
      ({ c with lastL2Diff := note c.lastL2Diff key r.1 }, (r.2.map .l2Diff).toList)
    | _ => (c, [])
  | .bbo coin =>
    match m with
    | .bboUpdate bbos time =>
      let r := sendWsDataFromBbo now coin bbos time c.lastBbo[coin]? storeBbo
      ({ c with lastBbo := note c.lastBbo coin r.1 }, (r.2.map .bbo).toList)
    | _ => (c, [])
  | .trades coin =>
    match m with
    | .fills byCoin => (c, (byCoin[coin]?.map .trades).toList)
    | _ => (c, [])
  | .bookDiffs coin =>
    match m with
    | .l4OrderDiffs _ _ byCoin => (c, (byCoin[coin]?.map .bookDiffs).toList)
    | _ => (c, [])
  | .l4Book coin =>
    match m with
    | .l4OrderDiffs time height byCoin =>
      (c, (byCoin[coin]?.map (.l4Updates time height [])).toList)
    | .l4OrderStatuses time height byCoin =>
      (c, (byCoin[coin]?.map fun statuses => .l4Updates time height statuses []).toList)
    | _ => (c, [])
  | .orderUpdates user =>
    match m with
    | .l4OrderStatuses time height byCoin =>
      match AddressParser.parseAddress user with
      | none => (c, [])
      | some address =>
        let statuses := (byCoin.toList.flatMap Prod.snd).filter (·.user = address)
        (c, if statuses.isEmpty then [] else [.orderUpdates address time height statuses])
    | _ => (c, [])

/-- One message, for some subscriptions. -/
def deliverAll (now : ℕ) (storeL2 storeBbo : Bool) (m : InternalMessage) :
    List Subscription → WsConnection → WsConnection × List ServerResponse
  | [], c => (c, [])
  | s :: rest, c =>
    let (c, said) := c.deliverTo now storeL2 storeBbo m s
    let (c, said') := deliverAll now storeL2 storeBbo m rest c
    (c, said ++ said')

/-- A message. -/
def deliver (c : WsConnection) (now : ℕ) (storeL2 storeBbo : Bool) (m : InternalMessage) :
    WsConnection × List ServerResponse :=
  match m with
  | .snapshot _ _ _ _ _ univ =>
    let (c, said) := deliverAll now storeL2 storeBbo m c.manager.subscriptions
      { c with univ := univ.getD c.univ }
    ({ c with forceFullL2 := false }, said)
  | _ => deliverAll now storeL2 storeBbo m c.manager.subscriptions c

/-! ### Heartbeats -/

/-- A heartbeat, for one subscription. -/
def heartbeatTo (now time : ℕ) (l2Heartbeat bboHeartbeat : Option ℕ) (c : WsConnection) :
    Subscription → WsConnection × List ServerResponse
  | .l2Book book =>
    let key := l2CacheKey book
    match l2Heartbeat, c.lastL2[key]? with
    | some interval, some entry =>
      match entry.payload with
      | some payload =>
        if interval ≤ now - entry.lastSent then
          let payload := { payload with time }
          ({ c with lastL2 := c.lastL2.insert key ⟨entry.hash, now, some payload⟩ },
            [.l2Book payload])
        else (c, [])
      | none => (c, [])
    | _, _ => (c, [])
  | .bbo coin =>
    match bboHeartbeat, c.lastBbo[coin]? with
    | some interval, some entry =>
      match entry.payload with
      | some payload =>
        if interval ≤ now - entry.lastSent then
          let payload := { payload with time }
          ({ c with lastBbo := c.lastBbo.insert coin ⟨entry.tuple, now, some payload⟩ },
            [.bbo payload])
        else (c, [])
      | none => (c, [])
    | _, _ => (c, [])
  | _ => (c, [])

/-- A heartbeat, for some subscriptions. -/
def heartbeatAll (now time : ℕ) (l2Heartbeat bboHeartbeat : Option ℕ) :
    List Subscription → WsConnection → WsConnection × List ServerResponse
  | [], c => (c, [])
  | s :: rest, c =>
    let (c, said) := c.heartbeatTo now time l2Heartbeat bboHeartbeat s
    let (c, said') := heartbeatAll now time l2Heartbeat bboHeartbeat rest c
    (c, said ++ said')

end WsConnection

/-! ## The connections -/

/-- The server: its settings, the guards that are out, and the connections. -/
structure WsServer where
  bboOnly : Bool
  l2Heartbeat : Option ℕ
  bboHeartbeat : Option ℕ
  active : ActiveGuards
  connections : List WsConnection

/-- What happens to the connections.  A connection is told by its place among those
there are. -/
inductive WsOp where
  | connect (univ : Std.ExtTreeSet Coin)
  | request (k : ℕ) (message : ClientMessage)
  | snapshot (k : ℕ) (result : Except String L4Snapshot)
  | deliver (k now : ℕ) (m : InternalMessage)
  | lag (k : ℕ)
  | heartbeat (k now time : ℕ)
  | disconnect (k : ℕ)

namespace WsServer

/-- A server without connections. -/
def new (bboOnly : Bool) (l2Heartbeat bboHeartbeat : Option ℕ) : WsServer where
  bboOnly := bboOnly
  l2Heartbeat := l2Heartbeat
  bboHeartbeat := bboHeartbeat
  active := .empty
  connections := []

/-- A connection that waits for nothing, and so takes the next thing that comes. -/
def idle (w : WsServer) (k : ℕ) : Option WsConnection :=
  w.connections[k]?.filter fun c => c.pending.isNone

/-- Put a connection in the place of another. -/
def setConnection (w : WsServer) (k : ℕ) (a : ActiveGuards) (c : WsConnection) : WsServer :=
  { w with active := a, connections := w.connections.set k c }

variable [FixedPoint] [LevelHash] [AddressParser]

/-- One event; `none` when it cannot happen now. -/
def step (w : WsServer) : WsOp → Option (WsServer × List ServerResponse)
  | .connect univ => some ({ w with connections := w.connections ++ [.new univ] }, [])
  | .request k message =>
    (w.idle k).map fun c =>
      let (a, c, said) := c.receiveClientMessage w.bboOnly w.active message
      (w.setConnection k a c, said)
  | .snapshot k result =>
    w.connections[k]?.bind fun c => c.pending.map fun s =>
      let (a, c, said) := c.endSnapshot w.active s result
      (w.setConnection k a c, said)
  | .deliver k now m =>
    (w.idle k).map fun c =>
      let (c, said) := c.deliver now w.l2Heartbeat.isSome w.bboHeartbeat.isSome m
      (w.setConnection k w.active c, said)
  | .lag k =>
    (w.idle k).map fun c => (w.setConnection k w.active { c with forceFullL2 := true }, [])
  | .heartbeat k now time =>
    (w.idle k).map fun c =>
      let (c, said) := WsConnection.heartbeatAll now time w.l2Heartbeat w.bboHeartbeat
        c.manager.subscriptions c
      (w.setConnection k w.active c, said)
  | .disconnect k =>
    w.connections[k]?.map fun c =>
      ({ w with active := c.dropGuards w.active, connections := w.connections.eraseIdx k }, [])

end WsServer

end HlOrderbook
