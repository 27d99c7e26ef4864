import HlOrderbook.CacheKeys

/-!
# Ending a subscription

A request to end a subscription is checked as one to begin it is: the coin has to be in
the universe that the connection was told last.  A coin leaves the universe when its book
empties, so a subscription can be live that cannot be ended.

## Main definitions

* `Subscription.coin?` — the coin a subscription is about.
* `WsServer.FollowsTo` — a connection does not ask for a subscription again.
* `WsServer.Cancels` — what ending a subscription has to do.
-/

set_option autoImplicit false
set_option linter.unusedSectionVars false

namespace HlOrderbook

/-- The coin that a subscription is about. -/
def Subscription.coin? : Subscription → Option Coin
  | .trades coin | .l4Book coin | .bbo coin | .bookDiffs coin => some coin
  | .l2Book book | .l2Diff book => some book.coin
  | .orderUpdates _ => none

/-- The parameters of a subscription that was accepted once stay accepted. -/
theorem L2Subscription.validate_iff {s : L2Subscription} {univ univ' : Std.ExtTreeSet Coin}
    (h : s.validate univ = true) : s.validate univ' = true ↔ s.coin ∈ univ' := by
  have hcoin : univ.contains s.coin = true := by
    by_contra hnot
    simp [validate, hnot] at h
  have hbody : s.validate univ' = (univ'.contains s.coin && s.validate univ) := by
    simp only [validate, hcoin]
    cases univ'.contains s.coin <;> simp
  rw [hbody, h, Bool.and_true, Std.ExtTreeSet.contains_iff_mem]

/-- **A subscription that was accepted once is accepted while its coin is there.** -/
theorem Subscription.Accepted.validate_iff {s : Subscription} (h : s.Accepted)
    {univ : Std.ExtTreeSet Coin} :
    s.validate univ = true ↔ ∀ coin, s.coin? = some coin → coin ∈ univ := by
  obtain ⟨univ', hvalid⟩ := h
  cases s with
  | l2Book book =>
    simp only [validate, coin?, Option.some.injEq, forall_eq'] at hvalid ⊢
    exact L2Subscription.validate_iff hvalid
  | l2Diff book =>
    simp only [validate, coin?, Option.some.injEq, forall_eq'] at hvalid ⊢
    exact L2Subscription.validate_iff hvalid
  | orderUpdates user => exact iff_of_true hvalid fun coin hcoin => by cases hcoin
  | _ => simp only [validate, coin?, Option.some.injEq, forall_eq', Std.ExtTreeSet.contains_iff_mem]

namespace WsConnection

variable {c : WsConnection} {s : Subscription} {a : ActiveGuards}

/-- The notes of a subscription that ends are dropped. -/
theorem endSubscription_forgets (a : ActiveGuards) (c : WsConnection) (s : Subscription) :
    (c.endSubscription a s).2.remembered s = (none, none, none) := by
  rw [(endSubscription_frame a c s).remembered s]
  cases s with
  | l2Book book => simp [forget, remembered]
  | l2Diff book => simp [forget, remembered]
  | bbo coin => simp [forget, remembered]
  | _ => rfl

/-- A request to end a live subscription is turned down, or the subscription ends. -/
theorem receiveClientMessage_unsubscribe (bboOnly : Bool) (hs : s ∈ c.manager.subscriptions)
    (hbbo : bboOnly = true → s.isBbo = true) :
    c.receiveClientMessage bboOnly a (.unsubscribe s) =
      if s.validate c.univ then
        (({ c with manager := (c.manager.unsubscribe s).1 }.endSubscription a s).1,
          ({ c with manager := (c.manager.unsubscribe s).1 }.endSubscription a s).2,
          [.subscriptionResponse (.unsubscribe s)])
      else (a, c, [.error (.invalid s)]) := by
  have hmode : (bboOnly && !s.isBbo) = false := by
    cases bboOnly with
    | false => rfl
    | true => simp [hbbo rfl]
  simp only [receiveClientMessage, ClientMessage.subscription, hmode, Bool.false_eq_true, if_false,
    SubscriptionManager.unsubscribe, hs, decide_true, if_true]
  cases s.validate c.univ <;> rfl

variable [FixedPoint] [LevelHash] [AddressParser]

/-- A message and a heartbeat say nothing for a subscription: what they say is what they
say for the others. -/
structure SilentFor (c : WsConnection) (s : Subscription) : Prop where
  deliver : ∀ now storeL2 storeBbo m, (c.deliver now storeL2 storeBbo m).2 =
    (c.manager.subscriptions.filter (· ≠ s)).flatMap fun s' =>
      (c.deliverTo now storeL2 storeBbo m s').2
  heartbeat : ∀ now time l2Heartbeat bboHeartbeat,
    (heartbeatAll now time l2Heartbeat bboHeartbeat c.manager.subscriptions c).2 =
      (c.manager.subscriptions.filter (· ≠ s)).flatMap fun s' =>
        (c.heartbeatTo now time l2Heartbeat bboHeartbeat s').2
  first : c.pending ≠ some s

/-- What is sent does not depend on the universe. -/
theorem deliver_snd (h : ∀ s ∈ c.manager.subscriptions, s.Accepted) (now : ℕ)
    (storeL2 storeBbo : Bool) (m : InternalMessage) :
    (c.deliver now storeL2 storeBbo m).2 =
      c.manager.subscriptions.flatMap fun s => (c.deliverTo now storeL2 storeBbo m s).2 := by
  cases m with
  | snapshot snapshot previous time height dirty univ =>
    have hserved := (servedApart_of_accepted (c := { c with univ := univ.getD c.univ }) h).deliver
      now storeL2 storeBbo (.snapshot snapshot previous time height dirty univ)
    refine hserved.1.trans (List.flatMap_congr fun s hs => ?_)
    have hsame : kept { c with univ := univ.getD c.univ } s = kept c s := by cases s <;> rfl
    exact ((deliverTo_apart now storeL2 storeBbo _).congr _ _ s hsame).1
  | _ => exact ((servedApart_of_accepted h).deliver now storeL2 storeBbo _).1

/-- **A connection says nothing for what it does not want.** -/
theorem silentFor_of_not_wanted (h : ∀ s ∈ c.manager.subscriptions, s.Accepted)
    (hnot : ¬ c.Wanted s) : c.SilentFor s := by
  have hall : c.manager.subscriptions.filter (· ≠ s) = c.manager.subscriptions := by
    rw [List.filter_eq_self]
    exact fun s' hs' => decide_eq_true fun heq => hnot (Or.inl (heq ▸ hs'))
  refine ⟨fun now storeL2 storeBbo m => ?_, fun now time l2Heartbeat bboHeartbeat => ?_,
    fun hpending => hnot (Or.inr hpending)⟩
  · rw [hall, deliver_snd h]
  · rw [hall]
    exact ((servedApart_of_accepted h).heartbeat now time l2Heartbeat bboHeartbeat).1

end WsConnection

/-! ## The server -/

namespace WsServer

open WsConnection

/-- Along some events the connection that stands at one place comes to stand at another,
and does not ask for a subscription. -/
def FollowsTo (s : Subscription) : ℕ → List WsOp → ℕ → Prop
  | k, [], k' => k = k'
  | k, op :: ops, k' => op ≠ .request k (.subscribe s) ∧
    ∃ k₁, op.moves k = some k₁ ∧ FollowsTo s k₁ ops k'

variable [FixedPoint] [LevelHash] [AddressParser] {w w' : WsServer} {k : ℕ} {c : WsConnection}
  {s : Subscription}

/-- What a connection does not want it does not come to want unasked. -/
theorem not_wanted_run {ops : List WsOp} {said : List ServerResponse} {k' : ℕ}
    (hnot : ∀ c, w.connections[k]? = some c → ¬ c.Wanted s)
    (hrun : runSteps WsServer.step ops w = some (w', said)) (hfollows : FollowsTo s k ops k') :
    ∀ c, w'.connections[k']? = some c → ¬ c.Wanted s := by
  induction ops generalizing w said k with
  | nil =>
    cases hrun
    rwa [← show k = k' from hfollows]
  | cons op ops ih =>
    obtain ⟨w₁, said₁, said₂, hstep, hrest, -⟩ := Runs.cons_eq_some.mp hrun
    obtain ⟨hasked, k₁, hmoves, hthen⟩ := hfollows
    refine ih (fun c₁ hk₁ hwanted => ?_) hrest hthen
    obtain ⟨k₀, c₀, hmoves', hk₀, hbefore⟩ := wanted_step hstep hk₁ hwanted
    rw [WsOp.moves_inj hmoves' hmoves] at hk₀ hbefore
    rcases hbefore with hold | ⟨heq, -⟩
    · exact hnot c₀ hk₀ hold
    · exact hasked heq

/-- **What a request to end a live subscription has to do**: take it away, give back its
guards and those of its shape that no other subscription needs, drop its notes,
acknowledge it, and say nothing for it until it is asked for again. -/
structure Cancels (w : WsServer) (k : ℕ) (c : WsConnection) (s : Subscription) (w' : WsServer)
    (c' : WsConnection) (said : List ServerResponse) : Prop where
  step : w.step (.request k (.unsubscribe s)) = some (w', said)
  connection : w'.connections[k]? = some c'
  removed : c'.manager.subscriptions = c.manager.subscriptions.filter (· ≠ s)
  subGuards : (∀ g ∈ c'.subGuards, g.1 ≠ s) ∧
    ∀ kind, w'.active.subs kind + s.acquireFor.count kind = w.active.subs kind
  l2ParamGuards : (∀ p, p ∈ c'.l2ParamGuards ↔
      ∃ s' ∈ c.manager.subscriptions, s' ≠ s ∧ s'.l2Shape = some p) ∧
    ∀ p, p ∈ w'.active.snapshot ↔
      ∃ c ∈ w'.connections, ∃ s' ∈ c.manager.subscriptions, s'.l2Shape = some p
  forgotten : c'.remembered s = (none, none, none)
  acknowledged : said = [.subscriptionResponse (.unsubscribe s)]
  silent : ∀ ops w'' said' k', runSteps WsServer.step ops w' = some (w'', said') →
    FollowsTo s k ops k' → ∀ c'', w''.connections[k']? = some c'' → c''.SilentFor s

/-- The guards of families that a connection holds for one subscription. -/
theorem count_held_filter {c c' : WsConnection} (h : c.Sound) (h' : c'.Sound)
    (hs : s ∈ c.manager.subscriptions)
    (hremoved : c'.manager.subscriptions = c.manager.subscriptions.filter (· ≠ s))
    (kind : BroadcastKind) :
    c'.held.count kind + s.acquireFor.count kind = c.held.count kind := by
  have hone : c.manager.subscriptions.filter (· = s) = [s] := by
    have hcount := List.count_eq_one_of_mem c.manager.nodup hs
    rw [List.filter_eq, hcount, List.replicate_one]
  have hperm := (perm_flatMap_acquireFor c.manager.subscriptions s).count_eq kind
  rw [hone, List.count_append, List.flatMap_singleton] at hperm
  rw [h.held_eq, h'.held_eq, hremoved, ← hperm, Nat.add_comm]

/-- The guards of families that are out, before and after one connection is replaced. -/
theorem subs_setConnection (h : w.Accounts) {a : ActiveGuards} {c' : WsConnection}
    (hk : w.connections[k]? = some c) (h' : (w.setConnection k a c').Accounts)
    (kind : BroadcastKind) :
    w.active.subs kind + c'.held.count kind = a.subs kind + c.held.count kind := by
  obtain ⟨hlt, rfl⟩ := List.getElem?_eq_some_iff.mp hk
  have hk' : (w.setConnection k a c').connections[k]? = some c' := by
    rw [setConnection, List.getElem?_set_self hlt]
  have hbefore := (h.owns hk).subs kind
  have hafter := (h'.owns hk').subs kind
  have hothers : (w.setConnection k a c').connections.eraseIdx k = w.connections.eraseIdx k :=
    List.eraseIdx_set_eq
  have hactive : (w.setConnection k a c').active.subs kind = a.subs kind := rfl
  rw [List.count_append] at hbefore hafter
  rw [hothers, hactive] at hafter
  omega

/-- A live subscription ends where the request is accepted. -/
theorem cancels_of_validate (haccounts : w.Accounts) (hallowed : w.AllAllowed)
    (hidle : w.idle k = some c) (hs : s ∈ c.manager.subscriptions)
    (hvalid : s.validate c.univ = true) : ∃ w' c' said, Cancels w k c s w' c' said := by
  obtain ⟨hk, hpending⟩ := Option.filter_eq_some_iff.mp hidle
  have hmem := List.mem_of_getElem? hk
  have hreceive := receiveClientMessage_unsubscribe (a := w.active) w.bboOnly hs
    (hallowed c hmem s (Or.inl hs)).2
  rw [if_pos hvalid] at hreceive
  have hsound := haccounts.sound c hmem
  have hend := hsound.endSubscription (s := s) w.active (c.manager.unsubscribe s).1 rfl
  have hframe := endSubscription_frame w.active
    { c with manager := (c.manager.unsubscribe s).1 } s
  have hmanager := hframe.manager.trans (forget_manager _ s)
  have hwaits := hframe.pending.trans (forget_pending _ s)
  have hforgets := endSubscription_forgets w.active
    { c with manager := (c.manager.unsubscribe s).1 } s
  generalize ({ c with manager := (c.manager.unsubscribe s).1 }.endSubscription w.active s) = r
    at hreceive hend hmanager hwaits hforgets
  obtain ⟨a, c'⟩ := r
  have hstep : w.step (.request k (.unsubscribe s)) =
      some (w.setConnection k a c', [.subscriptionResponse (.unsubscribe s)]) := by
    rw [WsServer.step, hidle, Option.map_some, hreceive]
  have hremoved : c'.manager.subscriptions = c.manager.subscriptions.filter (· ≠ s) :=
    congrArg SubscriptionManager.subscriptions hmanager
  have hget : (w.setConnection k a c').connections[k]? = some c' := by
    obtain ⟨hlt, -⟩ := List.getElem?_eq_some_iff.mp hk
    rw [setConnection, List.getElem?_set_self hlt]
  have haccounts' := haccounts.step hstep
  have hallowed' := hallowed.step hstep
  have hgone : ¬ c'.Wanted s := by
    rintro (hlive | hwaiting)
    · rw [hremoved] at hlive
      exact of_decide_eq_true (List.mem_filter.mp hlive).2 rfl
    · rw [show c'.pending = c.pending from hwaits] at hwaiting
      rw [hwaiting] at hpending
      cases hpending
  refine ⟨_, c', _, hstep, hget, hremoved, ⟨fun g hg heq => ?_, fun kind => ?_⟩,
    ⟨fun p => ?_, haccounts'.mem_snapshot⟩, hforgets, rfl,
    fun ops w'' said' k' hrun hfollows c'' hk'' => ?_⟩
  · rw [hend.sound.guards] at hg
    obtain ⟨s', hs', rfl⟩ := List.mem_map.mp hg
    have hlive := (List.mem_filter.mp hs').1
    rw [show s' = s from heq] at hlive
    exact hgone (Or.inl hlive)
  · have hcounts := subs_setConnection haccounts hk haccounts' kind
    have hheld : c'.held.count kind + s.acquireFor.count kind = c.held.count kind :=
      count_held_filter hsound hend.sound hs hremoved kind
    have hactive : (w.setConnection k a c').active.subs kind = a.subs kind := rfl
    omega
  · rw [hend.sound.shapes p, hremoved]
    constructor
    · rintro ⟨s', hs', hshape⟩
      obtain ⟨hlive, hne⟩ := List.mem_filter.mp hs'
      exact ⟨s', hlive, of_decide_eq_true hne, hshape⟩
    · rintro ⟨s', hlive, hne, hshape⟩
      exact ⟨s', List.mem_filter.mpr ⟨hlive, decide_eq_true hne⟩, hshape⟩
  · have hnot : ∀ c₁, (w.setConnection k a c').connections[k]? = some c₁ → ¬ c₁.Wanted s := by
      intro c₁ hc₁
      rw [hget, Option.some.injEq] at hc₁
      rwa [← hc₁]
    refine silentFor_of_not_wanted (fun s' hs' => ?_) (not_wanted_run hnot hrun hfollows c'' hk'')
    have hallowed'' : w''.AllAllowed :=
      Runs.invariant (P := AllAllowed) (Q := fun _ => True)
        (fun _ _ _ _ _ h hstep => h.step hstep) hallowed' (fun _ _ => trivial) hrun
    exact (hallowed'' c'' (List.mem_of_getElem? hk'') s' (Or.inl hs')).1

end WsServer

open WsServer

variable [FixedPoint] [LevelHash] [AddressParser]

/-- **A live subscription can be ended exactly while its coin is in the universe the
connection was told last**, or when it is about no coin. -/
theorem cancels_iff {bboOnly : Bool} {l2Heartbeat bboHeartbeat : Option ℕ} {ops : List WsOp}
    {w : WsServer} {said : List ServerResponse}
    (hrun : runSteps WsServer.step ops (.new bboOnly l2Heartbeat bboHeartbeat) = some (w, said))
    {k : ℕ} {c : WsConnection} (hidle : w.idle k = some c) {s : Subscription}
    (hs : s ∈ c.manager.subscriptions) :
    (∃ w' c' said', Cancels w k c s w' c' said') ↔ ∀ coin, s.coin? = some coin → coin ∈ c.univ := by
  have haccounts : w.Accounts :=
    Runs.invariant (P := Accounts) (Q := fun _ => True) (fun _ _ _ _ _ h hstep => h.step hstep)
      (accounts_new bboOnly l2Heartbeat bboHeartbeat) (fun _ _ => trivial) hrun
  have hallowed := allAllowed_run hrun
  have hk := (Option.filter_eq_some_iff.mp hidle).1
  have hlive := hallowed c (List.mem_of_getElem? hk) s (Or.inl hs)
  rw [← hlive.1.validate_iff]
  constructor
  · rintro ⟨w', c', said', hcancels⟩
    by_contra hinvalid
    have hreceive := WsConnection.receiveClientMessage_unsubscribe (a := w.active) w.bboOnly hs
      hlive.2
    rw [if_neg hinvalid] at hreceive
    have hstep := hcancels.step
    rw [WsServer.step, hidle, Option.map_some, hreceive, Option.some.injEq, Prod.mk.injEq] at hstep
    rw [hcancels.acknowledged] at hstep
    cases hstep.2
  · exact cancels_of_validate haccounts hallowed hidle hs

end HlOrderbook

namespace HlOrderbook

section Example

attribute [local instance] FixedPoint.decimal LevelHash.polynomial AddressParser.hexadecimal

/-- A subscription to the book of a coin, and one to its trades. -/
def subscribedTwice : List WsOp :=
  [.connect (.ofList ["BTC"]), .request 0 (.subscribe (.l2Book ⟨"BTC", none, none, none⟩)),
    .request 0 (.subscribe (.trades "BTC"))]

/-- The coin leaves the universe: its book became empty. -/
def thenDelisted : List WsOp :=
  subscribedTwice ++ [.deliver 0 0 (.snapshot ∅ ∅ 0 0 {"BTC"} (some ∅))]

theorem cancels_subscribedTwice : ∃ w said c,
    runSteps WsServer.step subscribedTwice (.new false none none) = some (w, said) ∧
    w.idle 0 = some c ∧ ∃ w' c' said', WsServer.Cancels w 0 c (.trades "BTC") w' c' said' := by
  have hend : (runSteps WsServer.step subscribedTwice (.new false none none)).map
      (fun r => (r.1.idle 0).map fun c => (decide (.trades "BTC" ∈ c.manager.subscriptions),
        c.univ.contains "BTC")) = some (some (true, true)) := by
    decide +kernel
  obtain ⟨w, said, hrun, hconnection⟩ := Runs.exists_of_map hend
  obtain ⟨c, hidle, hfacts⟩ := Option.map_eq_some_iff.mp hconnection
  obtain ⟨hlive, huniv⟩ := Prod.mk.inj hfacts
  refine ⟨w, said, c, hrun, hidle, (cancels_iff hrun hidle (of_decide_eq_true hlive)).mpr ?_⟩
  intro coin hcoin
  rw [← Option.some.inj hcoin]
  exact Std.ExtTreeSet.contains_iff_mem.mp huniv

/-- The request to end the subscription of a coin that has left the universe is turned
down, and the subscription stays with its guards. -/
theorem not_cancels_thenDelisted : ∃ w said c,
    runSteps WsServer.step thenDelisted (.new false none none) = some (w, said) ∧
    w.idle 0 = some c ∧ .trades "BTC" ∈ c.manager.subscriptions ∧
    (w.step (.request 0 (.unsubscribe (.trades "BTC")))).map Prod.snd =
      some [.error (.invalid (.trades "BTC"))] ∧
    ¬ ∃ w' c' said', WsServer.Cancels w 0 c (.trades "BTC") w' c' said' := by
  have hend : (runSteps WsServer.step thenDelisted (.new false none none)).map
      (fun r => (r.1.bboOnly, (r.1.idle 0).map fun c =>
        (decide (.trades "BTC" ∈ c.manager.subscriptions), c.univ.contains "BTC"))) =
      some (false, some (true, false)) := by
    decide +kernel
  obtain ⟨w, said, hrun, hfacts⟩ := Runs.exists_of_map hend
  obtain ⟨hbboOnly, hconnection⟩ := Prod.mk.inj hfacts
  obtain ⟨c, hidle, hfacts⟩ := Option.map_eq_some_iff.mp hconnection
  obtain ⟨hlive, huniv⟩ := Prod.mk.inj hfacts
  have hinvalid : ¬ (Subscription.trades "BTC").validate c.univ = true := by
    rw [Subscription.validate, huniv]
    decide
  have hreceive := WsConnection.receiveClientMessage_unsubscribe (a := w.active) w.bboOnly
    (of_decide_eq_true hlive) fun h => absurd (hbboOnly.symm.trans h) (by decide)
  rw [if_neg hinvalid] at hreceive
  have hstep : (w.step (.request 0 (.unsubscribe (.trades "BTC")))).map Prod.snd =
      some [.error (.invalid (.trades "BTC"))] := by
    rw [WsServer.step, hidle, Option.map_some, hreceive]
    rfl
  refine ⟨w, said, c, hrun, hidle, of_decide_eq_true hlive, hstep, ?_⟩
  rintro ⟨w', c', said', hcancels⟩
  rw [hcancels.step, hcancels.acknowledged] at hstep
  cases hstep

end Example

end HlOrderbook
