import HlOrderbook.L2Feed
import HlOrderbook.Subscriptions

/-!
# The guards and the live subscriptions

The shapes that are wanted are those of the subscriptions there are, on any connection,
and the count of a family of messages is the number of subscriptions that take it in.
A connection notes frames of its subscriptions only.

## Main definitions

* `Subscription.consumes` — the families of messages a subscription takes in.
* `WsConnection.Sound`, `WsConnection.Owns` — what holds of one connection.
* `WsServer.Accounts` — what holds of all.
-/

set_option autoImplicit false
set_option linter.unusedSectionVars false

namespace HlOrderbook

/-! ## What a subscription takes in -/

/-- The families of messages that a subscription takes in. -/
def Subscription.consumes : Subscription → BroadcastKind → Bool
  | .l4Book _, .l4Statuses | .l4Book _, .l4Diffs => true
  | .orderUpdates _, .l4Statuses => true
  | .bookDiffs _, .l4Diffs => true
  | .trades _, .trades => true
  | .bbo _, .bbo => true
  | _, _ => false

namespace Subscription

/-- A guard is taken of each family that is taken in, once. -/
theorem count_acquireFor (s : Subscription) (kind : BroadcastKind) :
    s.acquireFor.count kind = if s.consumes kind then 1 else 0 := by
  cases s <;> cases kind <;> rfl

end Subscription

open Subscription

/-- The guards that some subscriptions are owed. -/
def guardsOf (subs : List Subscription) : List (Subscription × List BroadcastKind) :=
  (subs.filter fun s => s.acquireFor ≠ []).map fun s => (s, s.acquireFor)

theorem guardsOf_cons (s : Subscription) (subs : List Subscription) :
    guardsOf (s :: subs) =
      if s.acquireFor = [] then guardsOf subs else (s, s.acquireFor) :: guardsOf subs := by
  rw [guardsOf, List.filter_cons]
  by_cases h : s.acquireFor = []
  · simp [h, guardsOf]
  · simp [h, guardsOf]

theorem filter_guardsOf (p : Subscription → Bool) (subs : List Subscription) :
    (guardsOf subs).filter (fun g => p g.1) = guardsOf (subs.filter p) := by
  rw [guardsOf, List.filter_map, List.filter_filter, guardsOf, List.filter_filter]
  congr 1
  apply List.filter_congr
  intro s _
  exact Bool.and_comm _ _

theorem flatMap_guardsOf (subs : List Subscription) :
    (guardsOf subs).flatMap Prod.snd = subs.flatMap acquireFor := by
  induction subs with
  | nil => rfl
  | cons s subs ih =>
    rw [guardsOf_cons, List.flatMap_cons, ← ih]
    split
    case isTrue h => rw [h, List.nil_append]
    case isFalse h => rfl

/-- The guards are as many as the subscriptions that take the family in. -/
theorem count_flatMap_acquireFor (subs : List Subscription) (kind : BroadcastKind) :
    (subs.flatMap acquireFor).count kind = subs.countP fun s => s.consumes kind := by
  induction subs with
  | nil => rfl
  | cons s subs ih =>
    rw [List.flatMap_cons, List.count_append, ih, count_acquireFor, List.countP_cons]
    omega

/-! ## One connection -/

namespace WsConnection

/-- The guards of families that a connection holds. -/
def held (c : WsConnection) : List BroadcastKind := c.subGuards.flatMap Prod.snd

/-- **What holds of a connection**: it holds the guards of its subscriptions, and notes
frames of them only. -/
structure Sound (c : WsConnection) : Prop where
  nodup : c.l2ParamGuards.Nodup
  shapes : ∀ p, p ∈ c.l2ParamGuards ↔ ∃ s ∈ c.manager.subscriptions, s.l2Shape = some p
  guards : c.subGuards = guardsOf c.manager.subscriptions
  lastL2 : ∀ key ∈ c.lastL2, ∃ book, .l2Book book ∈ c.manager.subscriptions ∧
    key = l2CacheKey book
  lastL2Diff : ∀ key ∈ c.lastL2Diff, ∃ book, .l2Diff book ∈ c.manager.subscriptions ∧
    key = l2CacheKey book
  lastBbo : ∀ key ∈ c.lastBbo, .bbo key ∈ c.manager.subscriptions
  pending : ∀ s ∈ c.pending, ∃ coin, s = .l4Book coin

/-- The guards that are out are those of the connection and some others. -/
structure Owns (c : WsConnection) (a : ActiveGuards) (params : List L2SnapshotParams)
    (kinds : List BroadcastKind) : Prop where
  l2Params : a.l2Params.Counts (c.l2ParamGuards ++ params)
  subs : RefCount.Counters.Counts a.subs (c.held ++ kinds)

/-- A connection is replaced by another, and the guards that are out with it. -/
structure Becomes (a : ActiveGuards) (c : WsConnection) (a' : ActiveGuards) (c' : WsConnection) :
    Prop where
  sound : c'.Sound
  owns : ∀ params kinds, c.Owns a params kinds → c'.Owns a' params kinds

theorem Sound.new (univ : Std.ExtTreeSet Coin) : (WsConnection.new univ).Sound where
  nodup := .nil
  shapes p := by simp [WsConnection.new, SubscriptionManager.empty]
  guards := rfl
  lastL2 key h := by simp [WsConnection.new] at h
  lastL2Diff key h := by simp [WsConnection.new] at h
  lastBbo key h := by simp [WsConnection.new] at h
  pending s h := by cases h

variable {a : ActiveGuards} {c : WsConnection} {s : Subscription}

theorem Sound.held_eq (h : c.Sound) : c.held = c.manager.subscriptions.flatMap acquireFor := by
  rw [held, h.guards, flatMap_guardsOf]

theorem Sound.becomes_self (h : c.Sound) : Becomes a c a c := ⟨h, fun _ _ howns => howns⟩

/-! ### Guards of shapes -/

/-- The guard of a shape is held. -/
theorem acquireL2Param_spec (a : ActiveGuards) (hnodup : c.l2ParamGuards.Nodup)
    (shape : Option L2SnapshotParams) :
    ∃ r guards,
      c.acquireL2Param a shape = ({ a with l2Params := r }, { c with l2ParamGuards := guards }) ∧
      guards.Nodup ∧ (∀ p, p ∈ guards ↔ shape = some p ∨ p ∈ c.l2ParamGuards) ∧
      ∀ others, a.l2Params.Counts (c.l2ParamGuards ++ others) → r.Counts (guards ++ others) := by
  cases shape with
  | none => exact ⟨a.l2Params, c.l2ParamGuards, rfl, hnodup, by simp, fun _ h => h⟩
  | some p =>
    rw [acquireL2Param]
    by_cases hp : p ∈ c.l2ParamGuards
    · refine ⟨a.l2Params, c.l2ParamGuards, if_pos hp, hnodup, fun p' => ?_, fun _ h => h⟩
      exact ⟨Or.inr, fun h => h.elim (fun heq => Option.some.inj heq ▸ hp) id⟩
    · refine ⟨_, _, if_neg hp, List.nodup_cons.mpr ⟨hp, hnodup⟩, fun p' => ?_,
        fun _ h => h.acquire p⟩
      rw [List.mem_cons, Option.some.injEq, eq_comm]

/-- The guard of a shape is given back, unless it is needed. -/
theorem releaseShape_spec (a : ActiveGuards) (hnodup : c.l2ParamGuards.Nodup)
    (p : L2SnapshotParams) :
    ∃ r guards, c.releaseShape a p = ({ a with l2Params := r }, { c with l2ParamGuards := guards }) ∧
      guards.Nodup ∧
      (∀ p', p' ∈ guards ↔ p' ∈ c.l2ParamGuards ∧
        (p = p' → ∃ s ∈ c.manager.subscriptions, s.l2Shape = some p)) ∧
      ∀ others, a.l2Params.Counts (c.l2ParamGuards ++ others) → r.Counts (guards ++ others) := by
  rw [releaseShape]
  by_cases hneeded : c.manager.subscriptions.any fun s => s.l2Shape = some p
  · refine ⟨a.l2Params, c.l2ParamGuards, if_pos hneeded, hnodup, fun p' => ?_, fun _ h => h⟩
    have hsub : ∃ s ∈ c.manager.subscriptions, s.l2Shape = some p := by simpa using hneeded
    exact ⟨fun h => ⟨h, fun _ => hsub⟩, And.left⟩
  · have hnone : ¬ ∃ s ∈ c.manager.subscriptions, s.l2Shape = some p := by simpa using hneeded
    rw [if_neg hneeded, removeL2Param]
    by_cases hp : p ∈ c.l2ParamGuards
    · refine ⟨_, _, if_pos hp, hnodup.filter _, fun p' => ?_, fun others h => ?_⟩
      · rw [List.mem_filter, decide_eq_true_iff]
        exact ⟨fun h => ⟨h.1, fun heq => absurd heq.symm h.2⟩,
          fun h => ⟨h.1, fun heq => hnone (h.2 heq.symm)⟩⟩
      · have hfilter : c.l2ParamGuards.filter (· ≠ p) = c.l2ParamGuards.erase p := by
          rw [hnodup.erase_eq_filter]
          exact List.filter_congr fun p' _ => decide_not
        have hperm : c.l2ParamGuards.Perm (p :: c.l2ParamGuards.filter (· ≠ p)) := by
          rw [hfilter]
          exact List.perm_cons_erase hp
        exact (h.perm (hperm.append_right others)).release
    · refine ⟨a.l2Params, c.l2ParamGuards, if_neg hp, hnodup, fun p' => ?_, fun _ h => h⟩
      exact ⟨fun h => ⟨h, fun heq => absurd (heq ▸ h) hp⟩, And.left⟩

/-! ### Guards of families -/

theorem removeSubGuards_eq (a : ActiveGuards) {subs : List Subscription}
    (hguards : c.subGuards = guardsOf subs) (s : Subscription) :
    c.removeSubGuards a s =
      ({ a with
        subs := ((subs.filter (· = s)).flatMap acquireFor).foldl RefCount.Counters.release a.subs },
        { c with subGuards := guardsOf (subs.filter (· ≠ s)) }) := by
  rw [removeSubGuards, hguards, filter_guardsOf (fun s' => decide (s' = s)),
    filter_guardsOf (fun s' => decide (s' ≠ s)), flatMap_guardsOf]

theorem insertSubGuards_eq (a : ActiveGuards) {subs : List Subscription}
    (hguards : c.subGuards = guardsOf subs) (hs : s ∉ subs) :
    c.insertSubGuards a s =
      ({ a with subs := s.acquireFor.foldl RefCount.Counters.acquire a.subs },
        { c with subGuards := guardsOf (s :: subs) }) := by
  have hnone : subs.filter (· = s) = [] := by
    rw [List.filter_eq_nil_iff]
    intro s' hs' heq
    exact hs (of_decide_eq_true heq ▸ hs')
  have hall : subs.filter (· ≠ s) = subs := by
    rw [List.filter_eq_self]
    intro s' hs'
    exact decide_eq_true fun heq => hs (heq ▸ hs')
  rw [insertSubGuards, guardsOf_cons]
  by_cases hempty : s.acquireFor = []
  · simp only [hempty, if_true, List.foldl_nil, ← hguards]
  · simp only [hempty, if_false]
    rw [removeSubGuards_eq _ hguards, hnone, hall]
    rfl

/-- The guards of a subscription among those of all. -/
theorem perm_flatMap_acquireFor (subs : List Subscription) (s : Subscription) :
    ((subs.filter (· = s)).flatMap acquireFor ++ (subs.filter (· ≠ s)).flatMap acquireFor).Perm
      (subs.flatMap acquireFor) := by
  rw [← List.flatMap_append]
  apply List.Perm.flatMap_right
  have hfilter := List.filter_append_perm (fun s' => decide (s' = s)) subs
  simp only [decide_not] at hfilter ⊢
  exact hfilter

/-! ### Requests -/

/-- **A subscription that is new** gets its guards. -/
theorem Sound.beginSubscription (h : c.Sound) (a : ActiveGuards) {manager : SubscriptionManager}
    (hmanager : manager.subscriptions = s :: c.manager.subscriptions) :
    Becomes a c ({ c with manager }.beginSubscription a s).1
      ({ c with manager }.beginSubscription a s).2 := by
  have hnew : s ∉ c.manager.subscriptions := by
    have hnodup := manager.nodup
    rw [hmanager] at hnodup
    exact (List.nodup_cons.mp hnodup).1
  obtain ⟨r, guards, heq, hnodup, hmem, hcounts⟩ :=
    acquireL2Param_spec (c := { c with manager }) a h.nodup s.l2Shape
  rw [WsConnection.beginSubscription, heq]
  simp only
  rw [insertSubGuards_eq (c := { c with manager, l2ParamGuards := guards }) _ h.guards hnew]
  have hmono : ∀ s', s' ∈ c.manager.subscriptions → s' ∈ manager.subscriptions :=
    fun s' hs' => hmanager ▸ List.mem_cons_of_mem _ hs'
  constructor
  · exact {
      nodup := hnodup
      shapes := fun p => by
        rw [hmem, h.shapes, hmanager]
        simp
      guards := by rw [hmanager]
      lastL2 := fun key hkey => (h.lastL2 key hkey).imp fun _ hb => ⟨hmono _ hb.1, hb.2⟩
      lastL2Diff := fun key hkey => (h.lastL2Diff key hkey).imp fun _ hb => ⟨hmono _ hb.1, hb.2⟩
      lastBbo := fun key hkey => hmono _ (h.lastBbo key hkey)
      pending := h.pending }
  · intro params kinds howns
    refine ⟨hcounts params howns.l2Params, ?_⟩
    have hsubs := howns.subs.acquireAll s.acquireFor
    rw [h.held_eq] at hsubs
    rw [held, flatMap_guardsOf, List.flatMap_cons, List.append_assoc]
    exact hsubs

/-- What is taken out of a connection with a subscription leaves it sound. -/
theorem Sound.without (h : c.Sound) {c' : WsConnection}
    (hmanager : c'.manager.subscriptions = c.manager.subscriptions.filter (· ≠ s))
    (hnodup : c'.l2ParamGuards.Nodup)
    (hshapes : ∀ p, p ∈ c'.l2ParamGuards ↔ p ∈ c.l2ParamGuards ∧
      (s.l2Shape = some p → ∃ s' ∈ c'.manager.subscriptions, s'.l2Shape = some p))
    (hguards : c'.subGuards = guardsOf c'.manager.subscriptions)
    (hl2 : ∀ key ∈ c'.lastL2, key ∈ c.lastL2 ∧ ∀ book, s = .l2Book book → key ≠ l2CacheKey book)
    (hl2Diff : ∀ key ∈ c'.lastL2Diff, key ∈ c.lastL2Diff ∧
      ∀ book, s = .l2Diff book → key ≠ l2CacheKey book)
    (hbbo : ∀ key ∈ c'.lastBbo, key ∈ c.lastBbo ∧ s ≠ .bbo key)
    (hpending : ∀ s ∈ c'.pending, ∃ coin, s = .l4Book coin) : c'.Sound := by
  have hstay : ∀ s', s' ∈ c.manager.subscriptions → s' ≠ s → s' ∈ c'.manager.subscriptions := by
    intro s' hs' hne
    rw [hmanager]
    exact List.mem_filter.mpr ⟨hs', decide_eq_true hne⟩
  refine ⟨hnodup, fun p => ?_, hguards, fun key hkey => ?_, fun key hkey => ?_, fun key hkey => ?_,
    hpending⟩
  · rw [hshapes, h.shapes]
    constructor
    · rintro ⟨⟨s', hs', hshape⟩, hneeded⟩
      by_cases heq : s' = s
      · exact hneeded (heq ▸ hshape)
      · exact ⟨s', hstay s' hs' heq, hshape⟩
    · rintro ⟨s', hs', hshape⟩
      refine ⟨⟨s', ?_, hshape⟩, fun _ => ⟨s', hs', hshape⟩⟩
      rw [hmanager] at hs'
      exact (List.mem_filter.mp hs').1
  · obtain ⟨hold, hne⟩ := hl2 key hkey
    obtain ⟨book, hbook, heq⟩ := h.lastL2 key hold
    exact ⟨book, hstay _ hbook fun hs => hne book hs.symm heq, heq⟩
  · obtain ⟨hold, hne⟩ := hl2Diff key hkey
    obtain ⟨book, hbook, heq⟩ := h.lastL2Diff key hold
    exact ⟨book, hstay _ hbook fun hs => hne book hs.symm heq, heq⟩
  · obtain ⟨hold, hne⟩ := hbbo key hkey
    exact hstay _ (h.lastBbo key hold) hne.symm

/-- The guards that are out once those of a subscription are given back. -/
theorem Sound.owns_without (h : c.Sound) {a : ActiveGuards} {r : RefCount.Registry L2SnapshotParams}
    {c' : WsConnection}
    (hguards : c'.subGuards = guardsOf (c.manager.subscriptions.filter (· ≠ s)))
    (hcounts : ∀ others, a.l2Params.Counts (c.l2ParamGuards ++ others) →
      r.Counts (c'.l2ParamGuards ++ others))
    (params : List L2SnapshotParams) (kinds : List BroadcastKind) (howns : c.Owns a params kinds) :
    c'.Owns ⟨r, ((c.manager.subscriptions.filter (· = s)).flatMap acquireFor).foldl
      RefCount.Counters.release a.subs⟩ params kinds := by
  refine ⟨hcounts params howns.l2Params, ?_⟩
  have hsubs := howns.subs
  rw [h.held_eq] at hsubs
  have hperm := (perm_flatMap_acquireFor c.manager.subscriptions s).symm.append_right kinds
  rw [List.append_assoc] at hperm
  rw [held, hguards, flatMap_guardsOf]
  exact (hsubs.perm hperm).releaseAll

/-- **A subscription that was ended** gives its guards back. -/
theorem Sound.endSubscription (h : c.Sound) (a : ActiveGuards) (manager : SubscriptionManager)
    (hmanager : manager.subscriptions = c.manager.subscriptions.filter (· ≠ s)) :
    Becomes a c ({ c with manager }.endSubscription a s).1
      ({ c with manager }.endSubscription a s).2 := by
  have howns := @Sound.owns_without c s h a
  have hguards : guardsOf (c.manager.subscriptions.filter (· ≠ s)) =
      guardsOf manager.subscriptions := by rw [hmanager]
  have hkept : s.l2Shape = none → ∀ p, p ∈ c.l2ParamGuards ↔ p ∈ c.l2ParamGuards ∧
      (s.l2Shape = some p → ∃ s' ∈ manager.subscriptions, s'.l2Shape = some p) := by
    intro hnone p
    rw [hnone]
    exact ⟨fun hp => ⟨hp, nofun⟩, And.left⟩
  rw [WsConnection.endSubscription, removeSubGuards_eq (c := { c with manager }) a h.guards s]
  generalize ((c.manager.subscriptions.filter (· = s)).flatMap acquireFor).foldl
    RefCount.Counters.release a.subs = subs at howns ⊢
  cases s with
  | l2Book book =>
    obtain ⟨r, guards, heq, hnodup, hmem, hcounts⟩ := releaseShape_spec
      (c := { c with
        manager
        subGuards := guardsOf (c.manager.subscriptions.filter (· ≠ .l2Book book))
        lastL2 := c.lastL2.erase (l2CacheKey book) }) { a with subs } h.nodup book.shape
    simp only [heq]
    refine ⟨h.without hmanager hnodup (fun p => ?_) hguards (fun key hkey => ?_)
      (fun key hkey => ⟨hkey, nofun⟩) (fun key hkey => ⟨hkey, nofun⟩) h.pending,
      howns rfl hcounts⟩
    · rw [hmem, l2Shape, Option.some.injEq]
      exact and_congr_right fun _ => ⟨fun hp heq => heq ▸ hp heq, fun hp heq => heq ▸ hp heq⟩
    · rw [Std.ExtTreeMap.mem_erase] at hkey
      refine ⟨hkey.2, fun book' heq heqkey => ?_⟩
      cases heq
      exact hkey.1 (heqkey ▸ Std.ReflCmp.compare_self)
  | l2Diff book =>
    obtain ⟨r, guards, heq, hnodup, hmem, hcounts⟩ := releaseShape_spec
      (c := { c with
        manager
        subGuards := guardsOf (c.manager.subscriptions.filter (· ≠ .l2Diff book))
        lastL2Diff := c.lastL2Diff.erase (l2CacheKey book) }) { a with subs } h.nodup book.shape
    simp only [heq]
    refine ⟨h.without hmanager hnodup (fun p => ?_) hguards (fun key hkey => ⟨hkey, nofun⟩)
      (fun key hkey => ?_) (fun key hkey => ⟨hkey, nofun⟩) h.pending, howns rfl hcounts⟩
    · rw [hmem, l2Shape, Option.some.injEq]
      exact and_congr_right fun _ => ⟨fun hp heq => heq ▸ hp heq, fun hp heq => heq ▸ hp heq⟩
    · rw [Std.ExtTreeMap.mem_erase] at hkey
      refine ⟨hkey.2, fun book' heq heqkey => ?_⟩
      cases heq
      exact hkey.1 (heqkey ▸ Std.ReflCmp.compare_self)
  | bbo coin =>
    refine ⟨h.without hmanager h.nodup (hkept rfl) hguards (fun key hkey => ⟨hkey, nofun⟩)
      (fun key hkey => ⟨hkey, nofun⟩) (fun key hkey => ?_) h.pending, howns rfl fun _ h => h⟩
    rw [Std.ExtTreeMap.mem_erase] at hkey
    refine ⟨hkey.2, fun heq => ?_⟩
    cases heq
    exact hkey.1 Std.ReflCmp.compare_self
  | trades coin | l4Book coin | orderUpdates user | bookDiffs coin =>
    exact ⟨h.without hmanager h.nodup (hkept rfl) hguards (fun key hkey => ⟨hkey, nofun⟩)
      (fun key hkey => ⟨hkey, nofun⟩) (fun key hkey => ⟨hkey, nofun⟩) h.pending,
      howns rfl fun _ h => h⟩

theorem Sound.setPending (h : c.Sound) {pending : Option Subscription}
    (hpending : ∀ s ∈ pending, ∃ coin, s = .l4Book coin) : { c with pending }.Sound :=
  { h with pending := hpending }

theorem subscribe_eq_some {m m' : SubscriptionManager}
    (h : m.subscribe s = some (m', true)) : m'.subscriptions = s :: m.subscriptions := by
  rw [SubscriptionManager.subscribe] at h
  split at h
  · cases h
  · split at h
    · cases h
    · cases h
      rfl

/-- **A request** takes and gives back guards as subscriptions come and go. -/
theorem Sound.receiveClientMessage (h : c.Sound) (bboOnly : Bool) (a : ActiveGuards)
    (message : ClientMessage) :
    Becomes a c (c.receiveClientMessage bboOnly a message).1
      (c.receiveClientMessage bboOnly a message).2.1 := by
  simp only [WsConnection.receiveClientMessage]
  split
  · exact h.becomes_self
  · split
    · exact h.becomes_self
    · cases message with
      | subscribe s =>
        simp only
        cases hsub : c.manager.subscribe s with
        | none => exact h.becomes_self
        | some r =>
          obtain ⟨manager, inserted⟩ := r
          cases inserted with
          | false => exact h.becomes_self
          | true =>
            have hbegin := h.beginSubscription a (subscribe_eq_some hsub)
            cases s with
            | l4Book coin =>
              refine ⟨hbegin.sound.setPending fun s' hs' => ⟨coin, ?_⟩, fun params kinds howns => ?_⟩
              · exact (Option.mem_some_iff.mp hs').symm
              · have howns' := hbegin.owns params kinds howns
                exact ⟨howns'.l2Params, howns'.subs⟩
            | _ => exact hbegin
      | unsubscribe s =>
        have hend := h.endSubscription (s := s) a (c.manager.unsubscribe s).1 rfl
        by_cases hmem : s ∈ c.manager.subscriptions
        · simp only [SubscriptionManager.unsubscribe, hmem, decide_true, if_true] at hend ⊢
          exact hend
        · simp only [SubscriptionManager.unsubscribe, hmem, decide_false, Bool.false_eq_true,
            if_false]
          exact h.becomes_self

/-- **A subscription that cannot be begun** gives its guards back. -/
theorem Sound.endSnapshot (h : c.Sound) (a : ActiveGuards) (hs : s ∈ c.pending)
    (result : Except String L4Snapshot) :
    Becomes a c (c.endSnapshot a s result).1 (c.endSnapshot a s result).2.1 := by
  obtain ⟨coin, rfl⟩ := h.pending s hs
  cases result with
  | ok book => exact ⟨h.setPending nofun, fun _ _ howns => ⟨howns.l2Params, howns.subs⟩⟩
  | error error =>
    have hend := h.endSubscription a (c.manager.unsubscribe (.l4Book coin)).1 rfl
    exact ⟨hend.sound.setPending nofun,
      fun params kinds howns => ⟨(hend.owns params kinds howns).l2Params,
        (hend.owns params kinds howns).subs⟩⟩

/-- All guards are given back. -/
theorem Owns.dropGuards {params : List L2SnapshotParams} {kinds : List BroadcastKind}
    (h : c.Owns a params kinds) : (c.dropGuards a).l2Params.Counts params ∧
      RefCount.Counters.Counts (c.dropGuards a).subs kinds :=
  ⟨h.l2Params.releaseAll, h.subs.releaseAll⟩

/-! ### Messages and heartbeats -/

/-- The notes of one connection may have grown into those of another, by entries of its
subscriptions. -/
structure Notes (c c' : WsConnection) : Prop where
  eq : ∃ l2 diff bbo univ force, c' = { c with
    lastL2 := l2
    lastL2Diff := diff
    lastBbo := bbo
    univ := univ
    forceFullL2 := force }
  lastL2 : ∀ key ∈ c'.lastL2, key ∈ c.lastL2 ∨
    ∃ book, .l2Book book ∈ c.manager.subscriptions ∧ key = l2CacheKey book
  lastL2Diff : ∀ key ∈ c'.lastL2Diff, key ∈ c.lastL2Diff ∨
    ∃ book, .l2Diff book ∈ c.manager.subscriptions ∧ key = l2CacheKey book
  lastBbo : ∀ key ∈ c'.lastBbo, key ∈ c.lastBbo ∨ .bbo key ∈ c.manager.subscriptions

theorem Notes.refl (c : WsConnection) : Notes c c :=
  ⟨⟨_, _, _, _, _, rfl⟩, fun _ => Or.inl, fun _ => Or.inl, fun _ => Or.inl⟩

theorem Notes.trans {c' c'' : WsConnection} (h : Notes c c') (h' : Notes c' c'') : Notes c c'' := by
  obtain ⟨l2, diff, bbo, univ, force, rfl⟩ := h.eq
  obtain ⟨l2', diff', bbo', univ', force', rfl⟩ := h'.eq
  exact ⟨⟨_, _, _, _, _, rfl⟩,
    fun key hkey => (h'.lastL2 key hkey).elim (h.lastL2 key) Or.inr,
    fun key hkey => (h'.lastL2Diff key hkey).elim (h.lastL2Diff key) Or.inr,
    fun key hkey => (h'.lastBbo key hkey).elim (h.lastBbo key) Or.inr⟩

theorem Notes.becomes {c' : WsConnection} (h : Notes c c') (hsound : c.Sound)
    (a : ActiveGuards) : Becomes a c a c' := by
  obtain ⟨l2, diff, bbo, univ, force, rfl⟩ := h.eq
  refine ⟨?_, fun _ _ howns => ⟨howns.l2Params, howns.subs⟩⟩
  exact { hsound with
    lastL2 := fun key hkey => (h.lastL2 key hkey).elim (hsound.lastL2 key) id
    lastL2Diff := fun key hkey => (h.lastL2Diff key hkey).elim (hsound.lastL2Diff key) id
    lastBbo := fun key hkey => (h.lastBbo key hkey).elim (hsound.lastBbo key) id }

theorem mem_note {V : Type} {notes : Std.ExtTreeMap String V} {key key' : String} {v : Option V}
    (h : key' ∈ note notes key v) : key' ∈ notes ∨ key' = key := by
  cases v with
  | none => exact Or.inl h
  | some v =>
    rw [note, Std.ExtTreeMap.mem_insert] at h
    exact h.symm.imp id fun heq => (Std.LawfulEqCmp.eq_of_compare heq).symm

variable [FixedPoint] [LevelHash] [AddressParser]

theorem deliverTo_notes (hs : s ∈ c.manager.subscriptions) (now : ℕ) (storeL2 storeBbo : Bool)
    (m : InternalMessage) : Notes c (c.deliverTo now storeL2 storeBbo m s).1 := by
  cases s with
  | l2Book book =>
    cases m with
    | snapshot snapshot previous time height dirty univ =>
      refine ⟨⟨_, _, _, _, _, rfl⟩, fun key hkey => ?_, fun _ => Or.inl, fun _ => Or.inl⟩
      exact (mem_note hkey).imp id fun heq => ⟨book, hs, heq⟩
    | _ => exact .refl c
  | l2Diff book =>
    cases m with
    | snapshot snapshot previous time height dirty univ =>
      refine ⟨⟨_, _, _, _, _, rfl⟩, fun _ => Or.inl, fun key hkey => ?_, fun _ => Or.inl⟩
      exact (mem_note hkey).imp id fun heq => ⟨book, hs, heq⟩
    | _ => exact .refl c
  | bbo coin =>
    cases m with
    | bboUpdate bbos time =>
      refine ⟨⟨_, _, _, _, _, rfl⟩, fun _ => Or.inl, fun _ => Or.inl, fun key hkey => ?_⟩
      exact (mem_note hkey).imp id fun heq => by rwa [heq]
    | _ => exact .refl c
  | trades coin => cases m <;> exact .refl c
  | bookDiffs coin => cases m <;> exact .refl c
  | l4Book coin => cases m <;> exact .refl c
  | orderUpdates user =>
    cases m with
    | l4OrderStatuses time height byCoin =>
      rw [deliverTo]
      split <;> exact .refl c
    | _ => exact .refl c

theorem deliverAll_notes {subs : List Subscription} (hsubs : ∀ s ∈ subs, s ∈ c.manager.subscriptions)
    (now : ℕ) (storeL2 storeBbo : Bool) (m : InternalMessage) :
    Notes c (deliverAll now storeL2 storeBbo m subs c).1 := by
  induction subs generalizing c with
  | nil => exact .refl c
  | cons s subs ih =>
    have hhead := deliverTo_notes (hsubs s List.mem_cons_self) now storeL2 storeBbo m
    refine hhead.trans (ih fun s' hs' => ?_)
    obtain ⟨_, _, _, _, _, heq⟩ := hhead.eq
    rw [heq]
    exact hsubs s' (List.mem_cons_of_mem _ hs')

/-- **A message** changes the notes. -/
theorem deliver_notes (c : WsConnection) (now : ℕ) (storeL2 storeBbo : Bool) (m : InternalMessage) :
    Notes c (c.deliver now storeL2 storeBbo m).1 := by
  cases m with
  | snapshot snapshot previous time height dirty univ =>
    have hall := deliverAll_notes (c := { c with univ := univ.getD c.univ }) (fun s hs => hs) now
      storeL2 storeBbo (.snapshot snapshot previous time height dirty univ)
    obtain ⟨l2, diff, bbo, univ', force, heq⟩ := hall.eq
    refine ⟨⟨l2, diff, bbo, univ', false, ?_⟩, hall.lastL2, hall.lastL2Diff, hall.lastBbo⟩
    simp only [deliver, heq]
  | _ => exact deliverAll_notes (fun s hs => hs) now storeL2 storeBbo _

theorem heartbeatTo_notes (hs : s ∈ c.manager.subscriptions) (now time : ℕ)
    (l2Heartbeat bboHeartbeat : Option ℕ) :
    Notes c (c.heartbeatTo now time l2Heartbeat bboHeartbeat s).1 := by
  cases s with
  | l2Book book =>
    simp only [heartbeatTo]
    split
    · split
      · split
        · refine ⟨⟨_, _, _, _, _, rfl⟩, fun key hkey => ?_, fun _ => Or.inl, fun _ => Or.inl⟩
          exact (mem_note (v := some _) hkey).imp id fun heq => ⟨book, hs, heq⟩
        · exact .refl c
      · exact .refl c
    · exact .refl c
  | bbo coin =>
    simp only [heartbeatTo]
    split
    · split
      · split
        · refine ⟨⟨_, _, _, _, _, rfl⟩, fun _ => Or.inl, fun _ => Or.inl, fun key hkey => ?_⟩
          exact (mem_note (v := some _) hkey).imp id fun heq => by rwa [heq]
        · exact .refl c
      · exact .refl c
    · exact .refl c
  | _ => exact .refl c

theorem heartbeatAll_notes {subs : List Subscription}
    (hsubs : ∀ s ∈ subs, s ∈ c.manager.subscriptions) (now time : ℕ)
    (l2Heartbeat bboHeartbeat : Option ℕ) :
    Notes c (heartbeatAll now time l2Heartbeat bboHeartbeat subs c).1 := by
  induction subs generalizing c with
  | nil => exact .refl c
  | cons s subs ih =>
    have hhead := heartbeatTo_notes (hsubs s List.mem_cons_self) now time l2Heartbeat bboHeartbeat
    refine hhead.trans (ih fun s' hs' => ?_)
    obtain ⟨_, _, _, _, _, heq⟩ := hhead.eq
    rw [heq]
    exact hsubs s' (List.mem_cons_of_mem _ hs')

end WsConnection

/-! ## All connections -/

namespace WsServer

open WsConnection

/-- **What holds of the server**: the guards that are out are those the connections hold. -/
structure Accounts (w : WsServer) : Prop where
  l2Params : w.active.l2Params.Counts (w.connections.flatMap (·.l2ParamGuards))
  subs : RefCount.Counters.Counts w.active.subs (w.connections.flatMap held)
  sound : ∀ c ∈ w.connections, c.Sound

theorem accounts_new (bboOnly : Bool) (l2Heartbeat bboHeartbeat : Option ℕ) :
    (WsServer.new bboOnly l2Heartbeat bboHeartbeat).Accounts :=
  ⟨.empty, .zero, nofun⟩

variable {w w' : WsServer} {k : ℕ} {c : WsConnection}

/-- The guards that are out are those of one connection and those of the others. -/
theorem Accounts.owns (h : w.Accounts) (hk : w.connections[k]? = some c) :
    c.Owns w.active ((w.connections.eraseIdx k).flatMap (·.l2ParamGuards))
      ((w.connections.eraseIdx k).flatMap held) := by
  obtain ⟨hlt, rfl⟩ := List.getElem?_eq_some_iff.mp hk
  have hperm := (List.getElem_cons_eraseIdx_perm hlt).symm
  exact ⟨h.l2Params.perm (hperm.flatMap_right _), h.subs.perm (hperm.flatMap_right _)⟩

/-- One connection is replaced. -/
theorem Accounts.replace (h : w.Accounts) (hk : w.connections[k]? = some c) {a : ActiveGuards}
    {c' : WsConnection} (hbecomes : Becomes w.active c a c') : (w.setConnection k a c').Accounts := by
  have howns := hbecomes.owns _ _ (h.owns hk)
  obtain ⟨hlt, -⟩ := List.getElem?_eq_some_iff.mp hk
  have hperm := (List.set_perm_cons_eraseIdx hlt c').symm
  refine ⟨howns.l2Params.perm (hperm.flatMap_right _), howns.subs.perm (hperm.flatMap_right _),
    fun c'' hc'' => ?_⟩
  rcases List.mem_or_eq_of_mem_set hc'' with hmem | rfl
  · exact h.sound c'' hmem
  · exact hbecomes.sound

/-- One connection is closed. -/
theorem Accounts.disconnect (h : w.Accounts) (hk : w.connections[k]? = some c) :
    ({ w with active := c.dropGuards w.active, connections := w.connections.eraseIdx k } :
      WsServer).Accounts := by
  obtain ⟨hparams, hsubs⟩ := (h.owns hk).dropGuards
  exact ⟨hparams, hsubs, fun c' hc' => h.sound c' (List.mem_of_mem_eraseIdx hc')⟩

theorem Accounts.connect (h : w.Accounts) (univ : Std.ExtTreeSet Coin) :
    ({ w with connections := w.connections ++ [.new univ] } : WsServer).Accounts := by
  have hperm : (w.connections ++ [WsConnection.new univ]).Perm
      (WsConnection.new univ :: w.connections) := List.perm_append_singleton _ _
  refine ⟨h.l2Params.perm (hperm.flatMap_right WsConnection.l2ParamGuards).symm,
    h.subs.perm (hperm.flatMap_right held).symm, fun c hc => ?_⟩
  rcases List.mem_append.mp hc with hmem | hmem
  · exact h.sound c hmem
  · rw [List.mem_singleton.mp hmem]
    exact .new univ

variable [FixedPoint] [LevelHash] [AddressParser]

/-- **A step keeps the accounts.** -/
theorem Accounts.step (h : w.Accounts) {op : WsOp} {said : List ServerResponse}
    (hstep : w.step op = some (w', said)) : w'.Accounts := by
  have hidle : ∀ {k c}, w.idle k = some c → w.connections[k]? = some c ∧ c.Sound := by
    intro k c hk
    have hget := (Option.filter_eq_some_iff.mp hk).1
    exact ⟨hget, h.sound c (List.mem_of_getElem? hget)⟩
  cases op with
  | connect univ =>
    cases hstep
    exact h.connect univ
  | request k message =>
    obtain ⟨c, hk, hr⟩ := Option.map_eq_some_iff.mp hstep
    cases hr
    obtain ⟨hget, hsound⟩ := hidle hk
    exact h.replace hget (hsound.receiveClientMessage _ _ _)
  | snapshot k result =>
    obtain ⟨c, hget, hr⟩ := Option.bind_eq_some_iff.mp hstep
    obtain ⟨s, hs, hr⟩ := Option.map_eq_some_iff.mp hr
    cases hr
    exact h.replace hget ((h.sound c (List.mem_of_getElem? hget)).endSnapshot _ hs result)
  | deliver k now m =>
    obtain ⟨c, hk, hr⟩ := Option.map_eq_some_iff.mp hstep
    cases hr
    obtain ⟨hget, hsound⟩ := hidle hk
    exact h.replace hget ((c.deliver_notes _ _ _ _).becomes hsound _)
  | lag k =>
    obtain ⟨c, hk, hr⟩ := Option.map_eq_some_iff.mp hstep
    cases hr
    obtain ⟨hget, hsound⟩ := hidle hk
    have hnotes : Notes c { c with forceFullL2 := true } :=
      ⟨⟨_, _, _, _, _, rfl⟩, fun _ => Or.inl, fun _ => Or.inl, fun _ => Or.inl⟩
    exact h.replace hget (hnotes.becomes hsound _)
  | heartbeat k now time =>
    obtain ⟨c, hk, hr⟩ := Option.map_eq_some_iff.mp hstep
    cases hr
    obtain ⟨hget, hsound⟩ := hidle hk
    exact h.replace hget ((heartbeatAll_notes (fun _ hs => hs) _ _ _ _).becomes hsound _)
  | disconnect k =>
    obtain ⟨c, hget, hr⟩ := Option.map_eq_some_iff.mp hstep
    cases hr
    exact h.disconnect hget

/-- The shapes wanted are those of the subscriptions. -/
theorem Accounts.mem_snapshot (h : w.Accounts) (p : L2SnapshotParams) :
    p ∈ w.active.snapshot ↔
      ∃ c ∈ w.connections, ∃ s ∈ c.manager.subscriptions, s.l2Shape = some p := by
  rw [ActiveGuards.snapshot, h.l2Params.mem_keys, List.mem_flatMap]
  constructor
  · rintro ⟨c, hc, hp⟩
    exact ⟨c, hc, ((h.sound c hc).shapes p).mp hp⟩
  · rintro ⟨c, hc, hs⟩
    exact ⟨c, hc, ((h.sound c hc).shapes p).mpr hs⟩

/-- The count of a family is the number of subscriptions that take it in. -/
theorem Accounts.subs_eq (h : w.Accounts) (kind : BroadcastKind) :
    w.active.subs kind =
      (w.connections.map fun c => c.manager.subscriptions.countP fun s => s.consumes kind).sum := by
  rw [h.subs kind, List.count_flatMap]
  congr 1
  apply List.map_congr_left
  intro c hc
  rw [Function.comp, (h.sound c hc).held_eq, count_flatMap_acquireFor]

/-- A family is wanted while a subscription takes it in. -/
theorem Accounts.wants_iff (h : w.Accounts) (kind : BroadcastKind) :
    w.active.wants kind = true ↔
      ∃ c ∈ w.connections, ∃ s ∈ c.manager.subscriptions, s.consumes kind = true := by
  rw [ActiveGuards.wants, decide_eq_true_iff, h.subs_eq kind, List.sum_pos_iff_exists_pos_nat]
  constructor
  · rintro ⟨n, hn, hpos⟩
    obtain ⟨c, hc, rfl⟩ := List.mem_map.mp hn
    obtain ⟨s, hs, hconsumes⟩ := List.countP_pos_iff.mp hpos
    exact ⟨c, hc, s, hs, hconsumes⟩
  · rintro ⟨c, hc, s, hs, hconsumes⟩
    exact ⟨_, List.mem_map_of_mem hc, List.countP_pos_iff.mpr ⟨s, hs, hconsumes⟩⟩

end WsServer

open WsServer

variable [FixedPoint] [LevelHash] [AddressParser]

/-- **The guards that are out are those of the live subscriptions**, one that waits for
its first book among them, and frames are noted of live subscriptions only. -/
theorem guards_live {bboOnly : Bool} {l2Heartbeat bboHeartbeat : Option ℕ} {ops : List WsOp}
    {w : WsServer} {said : List ServerResponse}
    (hrun : runSteps WsServer.step ops (.new bboOnly l2Heartbeat bboHeartbeat) = some (w, said)) :
    (∀ p, p ∈ w.active.snapshot ↔
      ∃ c ∈ w.connections, ∃ s ∈ c.manager.subscriptions, s.l2Shape = some p) ∧
    (∀ kind, w.active.subs kind =
      (w.connections.map fun c => c.manager.subscriptions.countP fun s => s.consumes kind).sum) ∧
    (∀ kind, w.active.wants kind = true ↔
      ∃ c ∈ w.connections, ∃ s ∈ c.manager.subscriptions, s.consumes kind = true) ∧
    ∀ c ∈ w.connections,
      (∀ key ∈ c.lastL2, ∃ book, .l2Book book ∈ c.manager.subscriptions ∧ key = l2CacheKey book) ∧
      (∀ key ∈ c.lastL2Diff, ∃ book, .l2Diff book ∈ c.manager.subscriptions ∧
        key = l2CacheKey book) ∧
      ∀ key ∈ c.lastBbo, .bbo key ∈ c.manager.subscriptions := by
  have haccounts : w.Accounts :=
    Runs.invariant (P := Accounts) (Q := fun _ => True) (fun _ _ _ _ _ h hstep => h.step hstep)
      (accounts_new bboOnly l2Heartbeat bboHeartbeat) (fun _ _ => trivial) hrun
  refine ⟨haccounts.mem_snapshot, haccounts.subs_eq, haccounts.wants_iff, fun c hc => ?_⟩
  have hsound := haccounts.sound c hc
  exact ⟨hsound.lastL2, hsound.lastL2Diff, hsound.lastBbo⟩

end HlOrderbook

namespace HlOrderbook

section Example

/-- Forty hexadecimal digits, after `0x` or on their own. -/
@[reducible] def AddressParser.hexadecimal : AddressParser where
  parseAddress user :=
    let digits := if user.toList.take 2 = ['0', 'x'] then user.toList.drop 2 else user.toList
    if digits.length = 40 && digits.all Subscription.isHexDigit then
      some (BitVec.ofNat 160 (digits.foldl (fun n c =>
        16 * n + if c.isDigit then c.toNat - 48 else c.toLower.toNat - 87) 0))
    else none

attribute [local instance] FixedPoint.decimal LevelHash.polynomial AddressParser.hexadecimal

/-- Two connections: a shape is wanted twice, a book cannot be made at first, and the first
connection goes. -/
def twoConnections : List WsOp :=
  let univ : Std.ExtTreeSet Coin := .ofList ["BTC"]
  [.connect univ, .connect univ,
    .request 0 (.subscribe (.l2Diff ⟨"BTC", none, none, none⟩)),
    .request 0 (.subscribe (.l2Diff ⟨"BTC", none, none, none⟩)),
    .request 1 (.subscribe (.l2Book ⟨"BTC", none, none, none⟩)),
    .request 1 (.unsubscribe (.bbo "BTC")),
    .request 1 (.subscribe (.l4Book "BTC")), .snapshot 1 (.error "Snapshot Failed"),
    .request 1 (.subscribe (.l4Book "BTC")), .snapshot 1 (.ok ⟨"BTC", 1, 1000, ⟨[], []⟩⟩),
    .request 0 (.subscribe (.orderUpdates "0x00000000000000000000000000000000000000aa")),
    .disconnect 0]

theorem guards_live_twoConnections : ∃ w said,
    runSteps WsServer.step twoConnections (.new false none none) = some (w, said) ∧
    w.active.subs .l4Statuses = 1 ∧ .base ∈ w.active.snapshot ∧
    (w.connections.map fun c => c.manager.subscriptions.countP fun s => s.consumes .l4Statuses).sum
      = 1 := by
  have hend : ∃ r ∈ runSteps WsServer.step twoConnections (.new false none none),
      r.1.connections.map (·.manager.subscriptions) =
        [[.l4Book "BTC", .l2Book ⟨"BTC", none, none, none⟩]] := by
    decide +kernel
  obtain ⟨⟨w, said⟩, hrun, hsubs⟩ := hend
  obtain ⟨hshapes, hcounts, -⟩ := guards_live hrun
  obtain ⟨c, hc, hsubs⟩ := List.map_eq_singleton_iff.mp hsubs
  have hsum : (w.connections.map fun c =>
      c.manager.subscriptions.countP fun s => s.consumes .l4Statuses).sum = 1 := by
    rw [show w.connections = [c] from hc, List.map_singleton, hsubs]
    rfl
  refine ⟨w, said, hrun, (hcounts _).trans hsum, (hshapes _).mpr ⟨c, ?_, ?_⟩, hsum⟩
  · rw [show w.connections = [c] from hc]
    exact List.mem_singleton_self c
  · rw [hsubs]
    exact ⟨_, List.mem_cons_of_mem _ List.mem_cons_self, rfl⟩

end Example

end HlOrderbook
