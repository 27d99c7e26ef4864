import HlOrderbook.L2Agreement
import HlOrderbook.L2WholeBooks

/-!
# The books on screen

What a client of the channel of whole books was sent last, once the connection has
taken every message, is the coin's book, as soon as the listener has built it.  Three
things spoil that: a batch that changes the book and then fails, a step that takes the
book away without reporting it, which an install does, and two books of one hash.

## Main definitions

* `L2Subscription.advance`, `L2Subscription.hold` — what a message changes.
* `Converges` — what is on screen, against the listener.
* `L2Feed.Reports` — no step loses a change.
-/

set_option autoImplicit false
set_option linter.unusedSectionVars false

namespace HlOrderbook

open OrderBookListener

variable [SlabPolicy] [FixedPoint]

namespace L2Subscription

/-- The levels on screen after a message. -/
def advance (s : L2Subscription) (levels : L2Levels) (m : L2Broadcast) : L2Levels :=
  if s.coin ∈ m.dirty then (s.bookLevels m.snapshot).getD levels else levels

/-- The levels that were held last, after a message. -/
def hold (s : L2Subscription) (held : Option L2Levels) (m : L2Broadcast) : Option L2Levels :=
  (s.exportFrom m.snapshot).or held

/-- The levels that the last message to hold the coin showed. -/
def heldBy (s : L2Subscription) (ms : List L2Broadcast) : Option L2Levels := ms.foldl s.hold none

end L2Subscription

/-- **The levels on screen, against the listener.**  They are those of a coin that is in
the cache, and none of a coin without a book, unless it is to be sent; and they are
none or those that were held last. -/
structure Converges (s : L2Subscription) (l : OrderBookListener) (held : Option L2Levels)
    (levels : L2Levels) : Prop where
  cached : s.coin ∉ l.pendingDirtyL2Coins → ∀ (v : L2Variants) x,
    l.l2SnapshotCache[s.coin]? = some v → v s.shape = some x → levels = s.view l.books
  gone : s.coin ∉ l.pendingDirtyL2Coins → l.books.orderBooks[s.coin]? = none → levels = .empty
  held : levels = .empty ∨ held = some levels

/-- Whether a step is a send. -/
def IngestOp.sends : IngestOp → Bool
  | .flush _ => true
  | _ => false

/-- Where a step other than a send leaves the coin without a book and does not report
it, the levels held last were none. -/
def IngestOp.Reports (s : L2Subscription) (held : Option L2Levels) (i : Ingest) (op : IngestOp) :
    Prop :=
  op.sends = false → (i.listener.books.orderBooks[s.coin]?).isSome = true ∨
      s.coin ∈ i.listener.pendingDirtyL2Coins →
    ∀ r ∈ i.step op, (r.1.listener.books.orderBooks[s.coin]?).isNone = true →
      s.coin ∉ r.1.listener.pendingDirtyL2Coins → ∀ levels ∈ held, levels = .empty

instance (s : L2Subscription) (held : Option L2Levels) (i : Ingest) (op : IngestOp) :
    Decidable (op.Reports s held i) :=
  inferInstanceAs (Decidable (op.sends = false → _ ∨ _ → ∀ r ∈ i.step op, _ → _ →
    ∀ levels ∈ held, levels = L2Levels.empty))

/-! ## One step of the listener -/

section Listener

variable {s : L2Subscription} {i i' : Ingest} {op : IngestOp} {sent : List InternalMessage}
  {held : Option L2Levels} {levels : L2Levels}

/-- A coin without a book is not on screen, if its loss is reported. -/
theorem Converges.of_gone (h : Converges s i.listener held levels)
    (hreports : op.Reports s held i) (hstep : i.step op = some (i', sent))
    (hflush : ∀ env, op ≠ .flush env)
    (hnone : i'.listener.books.orderBooks[s.coin]? = none)
    (hpending : s.coin ∉ i'.listener.pendingDirtyL2Coins) : levels = .empty := by
  by_cases hbefore : (i.listener.books.orderBooks[s.coin]?).isSome = true ∨
      s.coin ∈ i.listener.pendingDirtyL2Coins
  · rcases h.held with hempty | hheld
    · exact hempty
    · have hsends : op.sends = false := by
        cases op with
        | flush env => exact absurd rfl (hflush env)
        | _ => rfl
      exact hreports hsends hbefore _ hstep (by rw [hnone]; rfl) hpending levels hheld
  · rw [not_or, Option.not_isSome_iff_eq_none] at hbefore
    exact h.gone hbefore.2 hbefore.1

/-- The message that is sent, taken by a connection that has the levels on screen. -/
theorem Converges.message {env : Env} {state : OrderBookState} {m : L2Broadcast}
    (hdepth : s.depth ≤ maxLevels) (h : Converges s i.listener held levels)
    (hcurrent : CacheCurrent s i.listener) (hstate : i.listener.orderBookState = some state)
    (hm : m = (i.listener.retune env.active).l2Message env state)
    (hbooks : i'.listener.books = i.listener.books)
    (hcache : i'.listener.l2SnapshotCache = m.snapshot) :
    Converges s i'.listener (s.hold held m) (s.advance levels m) := by
  have hmcurrent : m.IsCurrent s := hm ▸ isCurrent_l2Message hdepth env hstate hcurrent
  have hmbooks : m.books = i'.listener.books := by
    rw [hbooks, books_of_some hstate, hm]
    rfl
  -- A coin that is not reported is not pending, and the message holds what the cache held.
  have hkept : s.coin ∉ m.dirty → s.coin ∉ i.listener.pendingDirtyL2Coins ∧
      ∀ (v : L2Variants), m.snapshot[s.coin]? = some v →
        i.listener.l2SnapshotCache[s.coin]? = some v := by
    intro hdirty
    subst hm
    refine ⟨fun hmem => hdirty ?_, fun v hv => ?_⟩
    · exact mem_dirty_of_pending ((pending_retune env.active i.listener).symm ▸ hmem)
    · exact (getElem?_retune (getElem?_snapshot_of_not_dirty hdirty hv)).1
  constructor
  · intro _ v x hv hx
    rw [hcache] at hv
    rw [L2Subscription.advance]
    split
    case isTrue =>
      rw [L2Subscription.bookLevels_of_some hv, hx, Option.map_some, Option.getD_some, ← hmbooks]
      exact hmcurrent.holds v x hv hx
    case isFalse hdirty =>
      rw [hbooks]
      exact h.cached (hkept hdirty).1 v x ((hkept hdirty).2 v hv) hx
  · intro _ hnone
    rw [hbooks] at hnone
    rw [L2Subscription.advance]
    split
    case isTrue hdirty =>
      have habsent : m.snapshot[s.coin]? = none := by
        by_contra hne
        obtain ⟨v, hv⟩ := Option.ne_none_iff_exists'.mp hne
        subst hm
        rw [books_of_some hstate] at hnone
        rcases getElem?_snapshot hv with ⟨-, book, hbook, -⟩ | ⟨-, -, book, hbook⟩ <;>
        · rw [hnone] at hbook
          cases hbook
      rw [L2Subscription.bookLevels_of_none habsent]
      rfl
    case isFalse hdirty => exact h.gone (hkept hdirty).1 hnone
  · rw [L2Subscription.hold, L2Subscription.advance]
    cases hv : m.snapshot[s.coin]? with
    | none =>
      rw [L2Subscription.bookLevels_of_none hv, L2Subscription.exportFrom_of_none hv]
      split
      · exact Or.inl rfl
      · exact h.held
    | some v =>
      rw [L2Subscription.bookLevels_of_some hv]
      cases hx : v s.shape with
      | none =>
        have hexport : s.exportFrom m.snapshot = none := by
          simp [L2Subscription.exportFrom, hv, hx]
        rw [hexport, Option.map_none, Option.getD_none, ite_self]
        exact h.held
      | some x =>
        rw [L2Subscription.exportFrom_of_some hv hx]
        refine Or.inr ?_
        rw [Option.some_or, Option.map_some, Option.getD_some]
        split
        · rfl
        · rename_i hdirty
          rw [h.cached (hkept hdirty).1 v x ((hkept hdirty).2 v hv) hx,
            hmcurrent.holds v x hv hx, hmbooks, hbooks]

/-- **A step of the listener.** -/
theorem Converges.step (hdepth : s.depth ≤ maxLevels) (h : Converges s i.listener held levels)
    (hcurrent : CacheCurrent s i.listener) (hclean : op.FailsClean s i.listener)
    (hreports : op.Reports s held i) (hstep : i.step op = some (i', sent)) :
    Converges s i'.listener ((l2Of (op.broadcasts i'.listener sent)).foldl s.hold held)
      ((l2Of (op.broadcasts i'.listener sent)).foldl s.advance levels) := by
  have hchange := Ingest.step_l2 hstep
  generalize l2Of (op.broadcasts i'.listener sent) = ms at hchange ⊢
  have hcontains : ∀ v : L2Variants, i.listener.l2SnapshotCache[s.coin]? = some v →
      i.listener.l2SnapshotCache.contains s.coin = true := by
    intro v hv
    rw [Std.ExtTreeMap.contains_eq_isSome_getElem?, hv]
    rfl
  cases hchange with
  | kept hinstalls hkeeps =>
    refine ⟨fun hc v x hv hx => ?_, fun hc hnone => ?_, h.held⟩
    · rw [hkeeps.cache] at hv
      rw [List.foldl_nil, h.cached (fun hmem => hc (hkeeps.dirty _ hmem)) v x hv hx]
      exact step_view hstep hinstalls hclean hc (hcontains v hv)
    · rw [List.foldl_nil]
      by_cases hflush : ∃ env, op = .flush env
      · obtain ⟨env, hop⟩ := hflush
        rw [← books_flush hop hstep] at hnone
        exact h.gone (fun hmem => hc (hkeeps.dirty _ hmem)) hnone
      · exact h.of_gone hreports hstep (fun env hop => hflush ⟨env, hop⟩) hnone hc
  | forgotten hinstalls hcache _ _ =>
    refine ⟨fun _ v x hv => ?_, fun hc hnone => ?_, h.held⟩
    · rw [hcache] at hv
      simp at hv
    · exact h.of_gone hreports hstep (fun env hop => by subst hop; cases hinstalls) hnone hc
  | retuned env hop hstate hkeeps =>
    have hbefore : s.coin ∉ i'.listener.pendingDirtyL2Coins →
        s.coin ∉ i.listener.pendingDirtyL2Coins := fun hc hmem =>
      hc (hkeeps.dirty _ ((pending_retune env.active i.listener).symm ▸ hmem))
    refine ⟨fun hc v x hv hx => ?_, fun hc hnone => ?_, h.held⟩
    · rw [hkeeps.cache] at hv
      rw [← books_flush hop hstep]
      exact h.cached (hbefore hc) v x (getElem?_retune hv).1 hx
    · rw [← books_flush hop hstep] at hnone
      exact h.gone (hbefore hc) hnone
  | sent env state hop _ hstate hcache _ _ =>
    exact h.message hdepth hcurrent hstate rfl (books_flush hop hstep).symm hcache

/-- A connection that begins with the message that is sent. -/
theorem Converges.first (hdepth : s.depth ≤ maxLevels) (hcurrent : CacheCurrent s i.listener)
    (hstep : i.step op = some (i', sent)) {m : L2Broadcast}
    (hm : l2Of (op.broadcasts i'.listener sent) = [m])
    (hlevels : s.bookLevels m.snapshot = some levels) :
    Converges s i'.listener (s.hold held m) levels := by
  have hchange := Ingest.step_l2 hstep
  rw [hm] at hchange
  cases hchange with
  | sent env state hop _ hstate hcache _ _ =>
    have hmcurrent := isCurrent_l2Message hdepth env hstate hcurrent
    have hbooks := books_flush hop hstep
    generalize hmessage : (i.listener.retune env.active).l2Message env state = m
      at hcache hmcurrent hlevels
    have hmbooks : m.books = i'.listener.books := by
      rw [← hbooks, books_of_some hstate, ← hmessage]
      rfl
    cases hv : m.snapshot[s.coin]? with
    | none =>
      rw [L2Subscription.bookLevels_of_none hv] at hlevels
      cases hlevels
      refine ⟨fun _ v x hv' => ?_, fun _ _ => rfl, Or.inl rfl⟩
      rw [hcache, hv] at hv'
      cases hv'
    | some v =>
      rw [L2Subscription.bookLevels_of_some hv] at hlevels
      obtain ⟨x, hx, rfl⟩ := Option.map_eq_some_iff.mp hlevels
      refine ⟨fun _ _ _ _ _ => hmbooks ▸ hmcurrent.holds v x hv hx, fun _ hnone => ?_, ?_⟩
      · rw [hmcurrent.holds v x hv hx, hmbooks]
        exact L2Subscription.view_of_none hnone
      · exact Or.inr (by rw [L2Subscription.hold, L2Subscription.exportFrom_of_some hv hx]; rfl)

end Listener

/-! ## The connection -/

/-- The messages that were taken. -/
def takenMessages (said : List L2Event) : List L2Broadcast :=
  said.filterMap fun
    | .taken m _ _ => some m
    | _ => none

@[simp] theorem takenMessages_append (said said' : List L2Event) :
    takenMessages (said ++ said') = takenMessages said ++ takenMessages said' :=
  List.filterMap_append

/-- The messages sent since the connection was made. -/
def L2Feed.messages (f : L2Feed) (said : List L2Event) : List L2Broadcast :=
  takenMessages said ++ l2Of f.connection.queue

/-- What is asked of a step: no batch that fails changes the book, no step takes the
book of a coin that is on screen away unreported, and no message is lost. -/
def L2Feed.Reports (said : List L2Event) (f : L2Feed) : L2FeedOp → Prop
  | .ingest op => op.FailsClean f.connection.subscription f.ingest.listener ∧
    op.Reports f.connection.subscription (f.connection.subscription.heldBy (f.messages said))
      f.ingest
  | .lag _ => False
  | _ => True

instance (said : List L2Event) (f : L2Feed) : ∀ op : L2FeedOp, Decidable (f.Reports said op)
  | .ingest op => inferInstanceAs (Decidable (op.FailsClean _ f.ingest.listener ∧
      op.Reports f.connection.subscription (f.connection.subscription.heldBy (f.messages said))
        f.ingest))
  | .lag _ => inferInstanceAs (Decidable False)
  | .subscribe _ | .unsubscribe _ | .receive _ | .heartbeat _ _ =>
    inferInstanceAs (Decidable True)

variable [LevelHash] {s : L2Subscription} {f f' : L2Feed} {said said' : List L2Event}

/-- The levels are those of the frame that was sent last on the subscription. -/
structure Displays (said : List L2Event) (entry : L2Entry) (levels : L2Levels) : Prop where
  shown : shown said = some levels
  compared : .compared levels ∈ said
  hash : entry.hash = LevelHash.hash levels
  payload : ∀ b ∈ entry.payload, b.levels = levels

/-- **What is on screen once the messages that wait are taken**: also where the
subscription begins with one of them. -/
structure OnScreen (s : L2Subscription) (f : L2Feed) (said : List L2Event) : Prop where
  current : FeedCurrent s f
  built : CacheBuilt f.ingest.listener
  forced : f.connection.forceFull = false
  waiting : ∀ m rest levels, m :: rest <:+ l2Of f.connection.queue →
    s.bookLevels m.snapshot = some levels →
      Converges s f.ingest.listener (s.heldBy (f.messages said)) (rest.foldl s.advance levels)
  displayed : ∀ entry, f.connection.lastL2 = some (some entry) → ∃ levels,
    Displays said entry levels ∧ Converges s f.ingest.listener (s.heldBy (f.messages said))
      ((l2Of f.connection.queue).foldl s.advance levels)

/-- A step sends at most one message with the aggregated books. -/
theorem L2Change.le_one {op : IngestOp} {l l' : OrderBookListener} {ms : List L2Broadcast}
    (h : L2Change op l l' ms) : ms = [] ∨ ∃ m, ms = [m] := by
  cases h with
  | sent => exact Or.inr ⟨_, rfl⟩
  | _ => exact Or.inl rfl

/-- **A step of the listener.** -/
theorem OnScreen.ingest (hdepth : s.depth ≤ maxLevels) {op : IngestOp}
    (h : OnScreen s f said) (hclean : op.FailsClean s f.ingest.listener)
    (hreports : op.Reports s (s.heldBy (f.messages said)) f.ingest)
    (hstep : f.step (.ingest op) = some (f', said')) : OnScreen s f' (said ++ said') := by
  have hcurrent := h.current.step hdepth (fun iop heq => by cases heq; exact hclean) hstep
  simp only [L2Feed.step] at hstep
  split at hstep
  case isFalse => cases hstep
  case isTrue =>
    obtain ⟨⟨i, sent⟩, hi, hr⟩ := Option.map_eq_some_iff.mp hstep
    cases hr
    have hchange := Ingest.step_l2 hi
    have hheld : ∀ ms, l2Of (op.broadcasts i.listener sent) = ms →
        s.heldBy (L2Feed.messages ⟨i, { f.connection with
          queue := f.connection.queue ++ op.broadcasts i.listener sent }⟩ (said ++ [])) =
            ms.foldl s.hold (s.heldBy (f.messages said)) := by
      intro ms hms
      rw [L2Feed.messages, l2Of_append, List.append_nil, ← List.append_assoc,
        L2Subscription.heldBy, List.foldl_append, hms]
      rfl
    have hlater : ∀ {ms levels}, l2Of (op.broadcasts i.listener sent) = ms →
        Converges s f.ingest.listener (s.heldBy (f.messages said)) levels →
          Converges s i.listener (ms.foldl s.hold (s.heldBy (f.messages said)))
            (ms.foldl s.advance levels) := by
      intro ms levels hms hconverges
      have hnext := hconverges.step hdepth h.current.cache hclean hreports hi
      rwa [hms] at hnext
    refine ⟨hcurrent, hchange.cacheBuilt h.built, h.forced, ?_, ?_⟩
    · intro m rest levels hsuffix hlevels
      simp only [l2Of_append] at hsuffix
      rcases hchange.le_one with hnil | ⟨m₀, hone⟩
      · rw [hnil, List.append_nil] at hsuffix
        rw [hheld [] hnil]
        exact hlater hnil (h.waiting m rest levels hsuffix hlevels)
      · rw [hone, List.suffix_concat_iff] at hsuffix
        rw [hheld [m₀] hone]
        obtain ⟨before, hbefore, hwaits⟩ := hsuffix.resolve_left (List.cons_ne_nil _ _)
        cases before with
        | nil =>
          cases hbefore
          exact Converges.first hdepth h.current.cache hi hone hlevels
        | cons m' before =>
          rw [List.cons_append] at hbefore
          obtain ⟨rfl, rfl⟩ := List.cons.inj hbefore
          rw [List.foldl_append]
          exact hlater hone (h.waiting m before levels hwaits hlevels)
    · intro entry hentry
      obtain ⟨levels, hdisplays, hconverges⟩ := h.displayed entry hentry
      refine ⟨levels, by rwa [List.append_nil], ?_⟩
      simp only [l2Of_append, List.foldl_append]
      rw [hheld _ rfl]
      exact hlater rfl hconverges

/-- Nothing is said, and the queue stays. -/
theorem OnScreen.of_same {c : L2Connection} (h : OnScreen s f said)
    (hsub : c.subscription = f.connection.subscription)
    (hqueue : l2Of c.queue = l2Of f.connection.queue) (hforced : c.forceFull = false)
    (hlast : ∀ entry, c.lastL2 = some (some entry) → f.connection.lastL2 = some (some entry)) :
    OnScreen s ⟨f.ingest, c⟩ (said ++ []) := by
  have hmessages : L2Feed.messages ⟨f.ingest, c⟩ (said ++ []) = f.messages said := by
    rw [L2Feed.messages, List.append_nil, hqueue]
    rfl
  refine ⟨h.current.of_queue hsub (hqueue ▸ List.suffix_rfl), h.built, hforced, ?_, ?_⟩
  · intro m rest levels hsuffix hlevels
    rw [hmessages]
    exact h.waiting m rest levels (hqueue ▸ hsuffix) hlevels
  · intro entry hentry
    obtain ⟨levels, hdisplays, hconverges⟩ := h.displayed entry (hlast entry hentry)
    refine ⟨levels, by rwa [List.append_nil], ?_⟩
    rw [hmessages]
    simpa only [hqueue] using hconverges

/-- What the channel of whole books says is shown, and the other channel shows
nothing. -/
theorem shown_deliver (c : L2Connection) (now : ℕ) (m : L2Broadcast) (said : List L2Event) :
    shown (said ++ (c.deliver now m).2) =
      (((c.lastL2.map (c.deliverBook now m)).map Prod.snd).getD []).foldl L2Event.show
        (shown said) := by
  have hdiff : ∀ levels, (((c.lastL2Diff.map (c.deliverDiff m)).map Prod.snd).getD []).foldl
      L2Event.show levels = levels := by
    intro levels
    cases c.lastL2Diff with
    | none => rfl
    | some last => exact foldl_show_deliverDiff c m last levels
  change shown (said ++ _ :: (_ ++ _)) = _
  rw [shown_append, List.foldl_cons, List.foldl_append, hdiff]
  rfl

theorem takenMessages_deliver (c : L2Connection) (now : ℕ) (m : L2Broadcast) :
    takenMessages (c.deliver now m).2 = [m] := by
  have hbook : takenMessages (((c.lastL2.map (c.deliverBook now m)).map Prod.snd).getD []) = [] := by
    cases c.lastL2 with
    | none => rfl
    | some last =>
      cases hcompares : c.comparesWith m last with
      | none => simp [deliverBook_of_none now hcompares, takenMessages]
      | some levels =>
        rcases deliverBook_of_some now hcompares with ⟨-, heq⟩ | ⟨frame, -, heq⟩ <;>
          simp [heq, takenMessages]
  have hdiff : takenMessages (((c.lastL2Diff.map (c.deliverDiff m)).map Prod.snd).getD []) = [] := by
    cases c.lastL2Diff with
    | none => rfl
    | some last =>
      change takenMessages (Option.map _ _).toList = []
      cases (sendWsDataFromL2Diff c.subscription m.snapshot m.previous m.time m.height last m.dirty
        c.forceFull).2 <;> rfl
  change takenMessages ([.taken m _ _] ++ (_ ++ _)) = _
  rw [takenMessages_append, takenMessages_append, hbook, hdiff]
  rfl

/-- **A message is taken**: what is on screen advances, or begins. -/
theorem displays_deliver {c : L2Connection} {m : L2Broadcast} {now : ℕ} {last : Option L2Entry}
    (hlast : c.lastL2 = some last) (hforced : c.forceFull = false)
    (hbefore : ∀ entry, last = some entry → ∃ levels, Displays said entry levels)
    (hfree : CollisionFree (said ++ (c.deliver now m).2)) {entry : L2Entry}
    (hentry : (c.deliver now m).1.lastL2 = some (some entry)) :
    ∃ levels, Displays (said ++ (c.deliver now m).2) entry levels ∧
      ((last = none ∧ c.subscription.bookLevels m.snapshot = some levels) ∨
        ∃ entry₀ levels₀, last = some entry₀ ∧ Displays said entry₀ levels₀ ∧
          levels = c.subscription.advance levels₀ m) := by
  have hnote : (c.deliver now m).1.lastL2 = some (c.deliverBook now m last).1 := by
    change (c.lastL2.map (c.deliverBook now m)).map Prod.fst = _
    rw [hlast]
    rfl
  rw [hnote, Option.some.injEq] at hentry
  have hshown : shown (said ++ (c.deliver now m).2) =
      (c.deliverBook now m last).2.foldl L2Event.show (shown said) := by
    rw [shown_deliver, hlast]
    rfl
  have hsub : ∀ e ∈ (c.deliverBook now m last).2, e ∈ said ++ (c.deliver now m).2 := by
    intro e he
    have hdeliver : (c.deliver now m).2 = .taken m c.lastL2.isSome c.lastL2Diff.isSome ::
        ((c.deliverBook now m last).2 ++
          ((c.lastL2Diff.map (c.deliverDiff m)).map Prod.snd).getD []) := by
      rw [L2Connection.deliver, hlast]
      rfl
    rw [hdeliver]
    exact List.mem_append_right _ (List.mem_cons_of_mem _ (List.mem_append_left _ he))
  cases hcompares : c.comparesWith m last with
  | none =>
    rw [deliverBook_of_none now hcompares] at hentry hshown
    replace hentry : last = some entry := hentry
    obtain ⟨levels, hdisplays⟩ := hbefore entry hentry
    refine ⟨levels, ⟨hshown.trans hdisplays.shown, List.mem_append_left _ hdisplays.compared,
      hdisplays.hash, hdisplays.payload⟩, Or.inr ⟨entry, levels, hentry, hdisplays, ?_⟩⟩
    rw [L2Connection.comparesWith, L2Subscription.built, hforced, hentry] at hcompares
    rw [L2Subscription.advance]
    split
    · rename_i hdirty
      simp only [Bool.not_false, Bool.true_and, Option.isSome_some, Bool.and_true] at hcompares
      rw [if_neg (by simpa using hdirty)] at hcompares
      rw [hcompares]
      rfl
    · rfl
  | some levels =>
    have hlevels : last = none ∧ c.subscription.bookLevels m.snapshot = some levels ∨
        ∃ entry₀ levels₀, last = some entry₀ ∧ Displays said entry₀ levels₀ ∧
          levels = c.subscription.advance levels₀ m := by
      rw [L2Connection.comparesWith, L2Subscription.built] at hcompares
      split at hcompares
      case isTrue => cases hcompares
      case isFalse hdue =>
        cases last with
        | none => exact Or.inl ⟨rfl, hcompares⟩
        | some entry₀ =>
          obtain ⟨levels₀, hdisplays⟩ := hbefore entry₀ rfl
          refine Or.inr ⟨entry₀, levels₀, rfl, hdisplays, ?_⟩
          have hdirty : c.subscription.coin ∈ m.dirty := by simpa [hforced] using hdue
          rw [L2Subscription.advance, if_pos hdirty, hcompares]
          rfl
    rcases deliverBook_of_some now hcompares with ⟨hhash, heq⟩ | ⟨frame, hframe, heq⟩
    · rw [heq] at hentry hshown hsub
      replace hentry : last = some entry := hentry
      obtain ⟨levels₀, hdisplays⟩ := hbefore entry hentry
      rw [hentry, Option.map_some, Option.some.injEq, hdisplays.hash] at hhash
      have hsame : levels₀ = levels := hfree levels₀ levels
        (List.mem_append_left _ hdisplays.compared) (hsub _ List.mem_cons_self) hhash
      refine ⟨levels, ⟨?_, hsub _ List.mem_cons_self, ?_, ?_⟩, hlevels⟩
      · rw [hshown, ← hsame]
        exact hdisplays.shown
      · rw [← hsame]
        exact hdisplays.hash
      · rw [← hsame]
        exact hdisplays.payload
    · rw [heq] at hentry hshown hsub
      cases hentry
      refine ⟨levels, ⟨?_, hsub _ List.mem_cons_self, rfl, ?_⟩, hlevels⟩
      · rw [hshown]
        exact congrArg some hframe
      · intro b hb
        cases hbeat : c.heartbeat.isSome
        · simp [hbeat] at hb
        · simp only [hbeat, if_true, Option.mem_some_iff] at hb
          exact hb ▸ hframe

/-- **A message is taken.** -/
theorem OnScreen.receive {now : ℕ} (h : OnScreen s f said)
    (hstep : f.step (.receive now) = some (f', said'))
    (hfree : CollisionFree (said ++ said')) : OnScreen s f' (said ++ said') := by
  simp only [L2Feed.step] at hstep
  split at hstep
  case h_1 => cases hstep
  case h_2 b rest hqueue =>
    split at hstep
    case h_2 hl2 =>
      cases hstep
      have hof : l2Of rest = l2Of f.connection.queue := by
        rw [hqueue]
        exact (List.filterMap_cons_none hl2).symm
      exact h.of_same rfl hof h.forced fun _ hentry => hentry
    case h_1 m hl2 =>
      cases hstep
      set c : L2Connection := { f.connection with queue := rest }
      have hof : l2Of f.connection.queue = m :: l2Of rest := by rw [hqueue, l2Of_cons hl2]
      have hmessages : L2Feed.messages ⟨f.ingest, (c.deliver now m).1⟩
          (said ++ (c.deliver now m).2) = f.messages said := by
        rw [L2Feed.messages, takenMessages_append, takenMessages_deliver, L2Feed.messages, hof,
          List.append_assoc]
        rfl
      refine ⟨h.current.of_queue rfl (hof ▸ List.suffix_cons m _), h.built, rfl, ?_, ?_⟩
      · intro m' rest' levels hsuffix hlevels
        rw [hmessages]
        exact h.waiting m' rest' levels (hsuffix.trans (hof ▸ List.suffix_cons m _)) hlevels
      · intro entry hentry
        cases hlast : c.lastL2 with
        | none =>
          have hnone : (c.deliver now m).1.lastL2 = none := by
            change (c.lastL2.map (c.deliverBook now m)).map Prod.fst = none
            rw [hlast]
            rfl
          rw [hnone] at hentry
          cases hentry
        | some last =>
          have hbefore : ∀ entry, last = some entry → ∃ levels, Displays said entry levels := by
            intro entry hentry
            obtain ⟨levels, hdisplays, -⟩ := h.displayed entry (hlast.trans (by rw [hentry]))
            exact ⟨levels, hdisplays⟩
          obtain ⟨levels, hdisplays, hfrom⟩ :=
            displays_deliver hlast h.forced hbefore hfree hentry
          refine ⟨levels, hdisplays, ?_⟩
          rw [hmessages]
          have hsub : c.subscription = s := h.current.subscription
          rw [hsub] at hfrom
          rcases hfrom with ⟨-, hlevels⟩ | ⟨entry₀, levels₀, hentry₀, hdisplays₀, rfl⟩
          · exact h.waiting m (l2Of rest) levels (hof ▸ List.suffix_rfl) hlevels
          · obtain ⟨levels₁, hdisplays₁, hconverges⟩ :=
              h.displayed entry₀ (hlast.trans (by rw [hentry₀]))
            have hsame : levels₀ = levels₁ :=
              Option.some.inj (hdisplays₀.shown.symm.trans hdisplays₁.shown)
            rw [hof, ← hsame] at hconverges
            exact hconverges

/-- **A step.** -/
theorem OnScreen.step (hdepth : s.depth ≤ maxLevels) {op : L2FeedOp} (h : OnScreen s f said)
    (hreports : f.Reports said op) (hstep : f.step op = some (f', said'))
    (hfree : CollisionFree (said ++ said')) : OnScreen s f' (said ++ said') := by
  cases op with
  | ingest op =>
    have hsub := h.current.subscription
    rw [L2Feed.Reports, hsub] at hreports
    exact h.ingest hdepth hreports.1 hreports.2 hstep
  | subscribe channel =>
    cases hstep
    rcases subscribe_cases f.connection channel with heq | heq | heq <;> rw [heq]
    · exact h.of_same rfl rfl h.forced fun _ hentry => hentry
    · refine h.of_same rfl rfl h.forced fun entry hentry => ?_
      cases hlast : f.connection.lastL2 with
      | none => simp [hlast] at hentry
      | some last => simpa [hlast] using hentry
    · exact h.of_same rfl rfl h.forced fun _ hentry => hentry
  | unsubscribe channel =>
    cases hstep
    rcases unsubscribe_cases f.connection channel with heq | heq | heq <;> rw [heq]
    · exact h.of_same rfl rfl h.forced fun _ hentry => hentry
    · exact h.of_same rfl rfl h.forced nofun
    · exact h.of_same rfl rfl h.forced fun _ hentry => hentry
  | receive now => exact h.receive hstep hfree
  | lag n => exact hreports.elim
  | heartbeat now time =>
    simp only [L2Feed.step] at hstep
    rcases resend_cases f.connection now time with heq | ⟨entry, payload, hlast, hpayload, heq⟩
    · rw [heq] at hstep
      cases hstep
      exact h.of_same rfl rfl h.forced fun _ hentry => hentry
    · rw [heq] at hstep
      cases hstep
      have hmessages : L2Feed.messages ⟨f.ingest, { f.connection with
          lastL2 := some (some ⟨entry.hash, now, some { payload with time }⟩) }⟩
            (said ++ [.again { payload with time }]) = f.messages said := by
        rw [L2Feed.messages, takenMessages_append]
        exact congrArg (· ++ l2Of f.connection.queue) (List.append_nil _)
      refine ⟨h.current.of_queue rfl List.suffix_rfl, h.built, h.forced, ?_, ?_⟩
      · intro m rest levels hsuffix hlevels
        rw [hmessages]
        exact h.waiting m rest levels hsuffix hlevels
      · intro entry' hentry'
        cases hentry'
        obtain ⟨levels, hdisplays, hconverges⟩ := h.displayed entry hlast
        refine ⟨levels, ⟨?_, List.mem_append_left _ hdisplays.compared, hdisplays.hash, ?_⟩, ?_⟩
        · rw [shown_append]
          exact congrArg some (hdisplays.payload payload hpayload)
        · intro b hb
          cases hb
          exact hdisplays.payload payload hpayload
        · rw [hmessages]
          exact hconverges

/-- Nothing is on screen of a connection that was just made. -/
theorem onScreen_new {i : Ingest} (hcurrent : CacheCurrent s i.listener)
    (hbuilt : CacheBuilt i.listener) (univ : Std.ExtTreeSet Coin) (interval : Option ℕ) :
    OnScreen s ⟨i, .new s univ interval⟩ [] where
  current := ⟨rfl, hcurrent, nofun⟩
  built := hbuilt
  forced := rfl
  waiting m rest levels hsuffix _ := by
    have hnil := List.suffix_nil.mp hsuffix
    cases hnil
  displayed entry hentry := by cases hentry

/-! ## Taking what waits -/

/-- A book was sent on the subscription, or a message waits of which one will be. -/
structure WillShow (s : L2Subscription) (f : L2Feed) : Prop where
  subscribed : f.connection.lastL2.isSome = true
  sends : f.connection.lastL2.join.isSome = true ∨
    ∃ m ∈ l2Of f.connection.queue, (s.bookLevels m.snapshot).isSome = true

theorem WillShow.receive {now : ℕ} (h : WillShow s f) (hsub : f.connection.subscription = s)
    (hstep : f.step (.receive now) = some (f', said')) : WillShow s f' := by
  simp only [L2Feed.step] at hstep
  split at hstep
  case h_1 => cases hstep
  case h_2 b rest hqueue =>
    split at hstep
    case h_2 hl2 =>
      cases hstep
      have hof : l2Of rest = l2Of f.connection.queue := by
        rw [hqueue]
        exact (List.filterMap_cons_none hl2).symm
      exact ⟨h.subscribed, h.sends.imp_right (by rw [hof]; exact id)⟩
    case h_1 m hl2 =>
      cases hstep
      set c : L2Connection := { f.connection with queue := rest }
      obtain ⟨last, hlast⟩ := Option.isSome_iff_exists.mp h.subscribed
      have hnote : (c.deliver now m).1.lastL2 = some (c.deliverBook now m last).1 := by
        change (f.connection.lastL2.map (c.deliverBook now m)).map Prod.fst = _
        rw [hlast]
        rfl
      refine ⟨by rw [hnote]; rfl, ?_⟩
      rw [hnote, Option.join_some]
      cases hcompares : c.comparesWith m last with
      | some levels =>
        left
        rcases deliverBook_of_some now hcompares with ⟨hhash, heq⟩ | ⟨frame, -, heq⟩
        · rw [heq]
          cases last with
          | none => cases hhash
          | some entry => rfl
        · rw [heq]
          rfl
      | none =>
        rw [deliverBook_of_none now hcompares]
        cases last with
        | some entry => exact Or.inl rfl
        | none =>
          right
          obtain ⟨m', hm', hlevels⟩ := h.sends.resolve_left (by rw [hlast]; simp)
          rw [hqueue, l2Of_cons hl2] at hm'
          rcases List.mem_cons.mp hm' with rfl | hm'
          · rw [L2Connection.comparesWith, L2Subscription.built, if_neg (by simp)] at hcompares
            rw [← hsub] at hlevels
            have hnone : f.connection.subscription.bookLevels m'.snapshot = none := hcompares
            rw [hnone] at hlevels
            cases hlevels
          · exact ⟨m', hm', hlevels⟩

/-- Taking messages leaves the listener. -/
theorem receive_ingest {now : ℕ} (hstep : f.step (.receive now) = some (f', said')) :
    f'.ingest = f.ingest := by
  simp only [L2Feed.step] at hstep
  split at hstep
  · cases hstep
  · split at hstep <;> cases hstep <;> rfl

/-- A connection that is subscribed asked for no more levels than there may be. -/
theorem depth_of_subscribed {i : Ingest} {subscription : L2Subscription}
    {univ : Std.ExtTreeSet Coin} {interval : Option ℕ} {es : List L2FeedOp}
    (hrun : runSteps L2Feed.step es ⟨i, .new subscription univ interval⟩ = some (f, said))
    (hsubscribed : f.connection.lastL2.isSome = true) : subscription.depth ≤ maxLevels := by
  by_contra hdepth
  have hnever : f.connection.subscription = subscription ∧ f.connection.holdsShape = false :=
    Runs.invariant (P := fun f => f.connection.subscription = subscription ∧
        f.connection.holdsShape = false) (Q := fun _ => True)
      (fun f op f' said _ h hstep => ⟨(subscription_step hstep).trans h.1,
        (holdsShape_step (h.1 ▸ hdepth) h.2 hstep).1⟩) ⟨rfl, rfl⟩ (fun _ _ => trivial) hrun
  rw [L2Connection.holdsShape, hsubscribed] at hnever
  cases hnever.2

/-- What a send leaves: nothing is to be sent, and the last message will be shown. -/
theorem flush_sends {env : Env} (hsub : f.connection.subscription = s)
    (hbuilt : CacheBuilt f.ingest.listener) (hsubscribed : f.connection.lastL2.isSome = true)
    (hstep : f.step (.ingest (.flush env)) = some (f', said'))
    (hsent : l2Of f'.connection.queue ≠ l2Of f.connection.queue) :
    s.coin ∉ f'.ingest.listener.pendingDirtyL2Coins ∧
      s.shape ∈ f'.ingest.listener.lastActiveL2Params ∧ WillShow s f' := by
  simp only [L2Feed.step] at hstep
  split at hstep
  case isFalse => cases hstep
  case isTrue hwants =>
    obtain ⟨⟨i, sent⟩, hi, hr⟩ := Option.map_eq_some_iff.mp hstep
    cases hr
    have hchange := Ingest.step_l2 hi
    have hcomplete := hchange.complete hbuilt
    simp only [l2Of_append] at hsent
    have hactive : s.shape ∈ env.active := by
      have hholds : f.connection.holdsShape = true := by
        rw [L2Connection.holdsShape, hsubscribed]
        rfl
      rw [IngestOp.wants, hholds, hsub] at hwants
      simpa using hwants
    generalize hms : l2Of ((IngestOp.flush env).broadcasts i.listener sent) = ms
      at hchange hcomplete hsent
    cases hchange with
    | kept => exact absurd (List.append_nil _) hsent
    | forgotten => exact absurd (List.append_nil _) hsent
    | retuned => exact absurd (List.append_nil _) hsent
    | sent env' state hop _ hstate hcache hdirty hlast =>
      cases hop
      refine ⟨by simp [hdirty], hlast ▸ hactive, hsubscribed,
        Or.inr ⟨(f.ingest.listener.retune env.active).l2Message env state, ?_, ?_⟩⟩
      · simp only [l2Of_append, hms]
        exact List.mem_append_right _ List.mem_cons_self
      · rw [L2Subscription.bookLevels_eq (hcomplete _ List.mem_cons_self) hactive]
        rfl

/-- **What was sent last is the book.**  If no batch changes the book and fails, no step
takes the book of a coin that is on screen away unreported and no message is lost, then
a connection that was subscribed when the aggregated books were sent, with its coin in
the cache if it has a book, and that took every message, has sent the coin's levels
last. -/
theorem shown_eq_view {tx spot : Bool} {filter : MarketFilter} {ops : List IngestOp} {i : Ingest}
    {sent : List InternalMessage} {subscription : L2Subscription}
    (hreach : runSteps Ingest.step ops ⟨.new tx spot filter, none⟩ = some (i, sent))
    (hclean : Runs.Meets Ingest.step (fun _ i op => op.FailsClean subscription i.listener) [] ops
      ⟨.new tx spot filter, none⟩)
    {univ : Std.ExtTreeSet Coin} {interval : Option ℕ} {es : List L2FeedOp}
    (hrun : runSteps L2Feed.step es ⟨i, .new subscription univ interval⟩ = some (f, said))
    (hreports : Runs.Meets L2Feed.step (fun said f op => f.Reports said op) [] es
      ⟨i, .new subscription univ interval⟩)
    {env : Env} {f₁ f₂ : L2Feed} {said₁ said₂ : List L2Event} {nows : List ℕ}
    (hsubscribed : f.connection.lastL2.isSome = true)
    (hflush : f.step (.ingest (.flush env)) = some (f₁, said₁))
    (hsent : l2Of f₁.connection.queue ≠ l2Of f.connection.queue)
    (hcached : f₁.ingest.listener.books.orderBooks.contains subscription.coin = true →
      f₁.ingest.listener.l2SnapshotCache.contains subscription.coin = true)
    (hreceive : runSteps L2Feed.step (nows.map .receive) f₁ = some (f₂, said₂))
    (hempty : f₂.connection.queue = [])
    (hfree : CollisionFree (said ++ said₁ ++ said₂)) :
    shown (said ++ said₁ ++ said₂) = some (subscription.view f₂.ingest.listener.books) := by
  have hdepth := depth_of_subscribed hrun hsubscribed
  have hscreen : OnScreen subscription f said := by
    refine hreports.rule (I := fun said f => CollisionFree said → OnScreen subscription f said)
      ?_ ?_ hrun hfree.left.left
    · intro said f op f' said' hreports h hstep hfree
      exact (h hfree.left).step hdepth hreports hstep hfree
    · exact fun _ => onScreen_new (cacheCurrent_of_run hdepth hclean hreach)
        (cacheBuilt_of_run hreach) univ interval
  obtain ⟨hpending, hshape, hwill⟩ := flush_sends hscreen.current.subscription hscreen.built
    hsubscribed hflush hsent
  have hflushes : f.Reports said (.ingest (.flush env)) := ⟨trivial, nofun⟩
  have hscreen₁ := hscreen.step hdepth hflushes hflush hfree.left
  have hend : OnScreen subscription f₂ (said ++ said₁ ++ said₂) ∧ WillShow subscription f₂ ∧
      f₂.ingest = f₁.ingest := by
    refine Runs.along (P := fun es said₂ f₂ => (∀ e ∈ es, ∃ now, e = .receive now) →
      CollisionFree (said ++ said₁ ++ said₂) → OnScreen subscription f₂ (said ++ said₁ ++ said₂) ∧
        WillShow subscription f₂ ∧ f₂.ingest = f₁.ingest) ?_ ?_ hreceive (by simp) hfree
    · intro es f₃ said₃ e f₄ said₄ _ ih hstep hes hfree
      rw [← List.append_assoc] at hfree ⊢
      obtain ⟨now, rfl⟩ := hes e (by simp)
      obtain ⟨hscreen, hwill, hingest⟩ :=
        ih (fun e he => hes e (List.mem_append_left _ he)) hfree.left
      have hreceives : f₃.Reports (said ++ said₁ ++ said₃) (.receive now) := trivial
      exact ⟨hscreen.step hdepth hreceives hstep hfree,
        hwill.receive hscreen.current.subscription hstep, (receive_ingest hstep).trans hingest⟩
    · intro _ _
      rw [List.append_nil]
      exact ⟨hscreen₁, hwill, rfl⟩
  obtain ⟨hscreen₂, hwill₂, hingest⟩ := hend
  rw [← hingest] at hpending hshape hcached
  have hnone : ¬ ∃ m ∈ l2Of f₂.connection.queue,
      (subscription.bookLevels m.snapshot).isSome = true := by
    rw [hempty]
    rintro ⟨m, hm, -⟩
    cases hm
  obtain ⟨entry, hentry⟩ := Option.isSome_iff_exists.mp (hwill₂.sends.resolve_right hnone)
  obtain ⟨levels, hdisplays, hconverges⟩ :=
    hscreen₂.displayed entry (Option.join_eq_some_iff.mp hentry)
  rw [hempty] at hconverges
  replace hconverges : Converges subscription f₂.ingest.listener _ levels := hconverges
  rw [hdisplays.shown]
  cases hbook : f₂.ingest.listener.books.orderBooks[subscription.coin]? with
  | none =>
    rw [hconverges.gone hpending hbook, L2Subscription.view_of_none hbook]
  | some book =>
    have hcontains := hcached (by
      rw [Std.ExtTreeMap.contains_eq_isSome_getElem?, hbook]
      rfl)
    rw [Std.ExtTreeMap.contains_eq_isSome_getElem?] at hcontains
    obtain ⟨v, hv⟩ := Option.isSome_iff_exists.mp hcontains
    obtain ⟨x, hx⟩ := Option.isSome_iff_exists.mp
      (hscreen₂.built subscription.coin v subscription.shape hshape hv)
    rw [hconverges.cached hpending v x hv hx]

end HlOrderbook

namespace HlOrderbook

section Example

attribute [local instance] SlabPolicy.latest FixedPoint.decimal LevelHash.polynomial

/-- The bid becomes smaller while the book is subscribed to. -/
def subscribedBid : List L2FeedOp := [.subscribe .book, .bidDiff 1001 (.update "1" "0.5")]

theorem shown_eq_view_subscribedBid : ∃ i sent f said f₁ said₁ f₂ said₂,
    runSteps Ingest.step L2FeedOp.oneBid ⟨.new true true ⟨true, true, true⟩, none⟩ =
      some (i, sent) ∧
    runSteps L2Feed.step subscribedBid ⟨i, .new .btc i.listener.univ none⟩ = some (f, said) ∧
    f.step (L2FeedOp.baseFlush 100) = some (f₁, said₁) ∧
    runSteps L2Feed.step ([100].map .receive) f₁ = some (f₂, said₂) ∧
    shown (said ++ said₁ ++ said₂) = some (L2Subscription.btc.view f₂.ingest.listener.books) ∧
    L2Subscription.btc.view f₂.ingest.listener.books = ⟨[⟨"100", "0.5", 1⟩], []⟩ := by
  have hclean : Runs.Meets Ingest.step (fun _ i op => op.FailsClean .btc i.listener) []
      L2FeedOp.oneBid ⟨.new true true ⟨true, true, true⟩, none⟩ := by decide +kernel
  have hend : ∃ r ∈ runSteps Ingest.step L2FeedOp.oneBid ⟨.new true true ⟨true, true, true⟩, none⟩,
      Runs.Meets L2Feed.step (fun said f op => f.Reports said op) [] subscribedBid
        ⟨r.1, .new .btc r.1.listener.univ none⟩ ∧
      ∃ r' ∈ runSteps L2Feed.step subscribedBid ⟨r.1, .new .btc r.1.listener.univ none⟩,
        r'.1.connection.lastL2.isSome = true ∧ (l2Of r'.1.connection.queue).length = 0 ∧
        ∃ r₁ ∈ r'.1.step (L2FeedOp.baseFlush 100), (l2Of r₁.1.connection.queue).length = 1 ∧
          r₁.1.ingest.listener.l2SnapshotCache.contains "BTC" = true ∧
          ∃ r₂ ∈ runSteps L2Feed.step ([100].map .receive) r₁.1,
            r₂.1.connection.queue.length = 0 ∧ CollisionFree (r'.2 ++ r₁.2 ++ r₂.2) ∧
            L2Subscription.btc.view r₂.1.ingest.listener.books = ⟨[⟨"100", "0.5", 1⟩], []⟩ := by
    decide +kernel
  obtain ⟨⟨i, sent⟩, hreach, hmeets, ⟨f, said⟩, hrun, hsubscribed, hbefore, ⟨f₁, said₁⟩, hflush,
    hafter, hcached, ⟨f₂, said₂⟩, hreceive, hempty, hfree, hview⟩ := hend
  have hsent : l2Of f₁.connection.queue ≠ l2Of f.connection.queue := by
    intro heq
    rw [heq, hbefore] at hafter
    cases hafter
  exact ⟨i, sent, f, said, f₁, said₁, f₂, said₂, hreach, hrun, hflush, hreceive,
    shown_eq_view hreach hclean hrun hmeets hsubscribed hflush hsent (fun _ => hcached) hreceive
      (List.length_eq_zero_iff.mp hempty) hfree, hview⟩

/-- The book is sent, and a snapshot without the coin is installed; then another coin
changes. -/
def vanishedBid : List L2FeedOp :=
  subscribedBid ++ [.baseFlush 100, .receive 100, .ingest (.beginFetch 1002),
    .ingest (.build ((∅ : Snapshots InnerL4Order).insert "ETH"
      ⟨[.limit "ETH" .bid 10000000000 100000000 9], []⟩) [] 1002),
    .ingest (.commit 0),
    .ingest (.apply ⟨0, ∅, fun _ => false, 1⟩ 1003
      (.bookDiffs ⟨1003, 1003, [⟨1, 9, "100", "ETH", .update "1" "0.5"⟩]⟩))]

/-- **The book of a coin that is gone stays on screen.** -/
theorem shown_vanishedBid : ∃ i sent f said f₁ said₁ f₂ said₂,
    runSteps Ingest.step L2FeedOp.oneBid ⟨.new true true ⟨true, true, true⟩, none⟩ =
      some (i, sent) ∧
    runSteps L2Feed.step vanishedBid ⟨i, .new .btc i.listener.univ none⟩ = some (f, said) ∧
    f.connection.lastL2.isSome = true ∧
    f.step (L2FeedOp.baseFlush 200) = some (f₁, said₁) ∧
    (l2Of f.connection.queue = [] ∧ l2Of f₁.connection.queue ≠ []) ∧
    f₁.ingest.listener.books.orderBooks.keys = ["ETH"] ∧
    f₁.ingest.listener.l2SnapshotCache.contains "ETH" = true ∧
    runSteps L2Feed.step ([200].map .receive) f₁ = some (f₂, said₂) ∧
    f₂.connection.queue = [] ∧ CollisionFree (said ++ said₁ ++ said₂) ∧
    shown (said ++ said₁ ++ said₂) = some ⟨[⟨"100", "0.5", 1⟩], []⟩ ∧
    L2Subscription.btc.view f₂.ingest.listener.books = .empty := by
  have hend : ∃ r ∈ runSteps Ingest.step L2FeedOp.oneBid ⟨.new true true ⟨true, true, true⟩, none⟩,
      ∃ r' ∈ runSteps L2Feed.step vanishedBid ⟨r.1, .new .btc r.1.listener.univ none⟩,
        r'.1.connection.lastL2.isSome = true ∧ (l2Of r'.1.connection.queue).length = 0 ∧
        ∃ r₁ ∈ r'.1.step (L2FeedOp.baseFlush 200), (l2Of r₁.1.connection.queue).length = 1 ∧
          r₁.1.ingest.listener.books.orderBooks.keys = ["ETH"] ∧
          r₁.1.ingest.listener.l2SnapshotCache.contains "ETH" = true ∧
          ∃ r₂ ∈ runSteps L2Feed.step ([200].map .receive) r₁.1,
            r₂.1.connection.queue.length = 0 ∧ CollisionFree (r'.2 ++ r₁.2 ++ r₂.2) ∧
            shown (r'.2 ++ r₁.2 ++ r₂.2) = some ⟨[⟨"100", "0.5", 1⟩], []⟩ ∧
            L2Subscription.btc.view r₂.1.ingest.listener.books = .empty := by
    decide +kernel
  obtain ⟨⟨i, sent⟩, hreach, ⟨f, said⟩, hrun, hsubscribed, hbefore, ⟨f₁, said₁⟩, hflush,
    hafter, hkeys, hcached, ⟨f₂, said₂⟩, hreceive, hempty, hfree, hview⟩ := hend
  refine ⟨i, sent, f, said, f₁, said₁, f₂, said₂, hreach, hrun, hsubscribed, hflush,
    ⟨List.length_eq_zero_iff.mp hbefore, ?_⟩, hkeys, hcached, hreceive,
    List.length_eq_zero_iff.mp hempty, hfree, hview⟩
  intro hnil
  rw [hnil] at hafter
  cases hafter

end Example

end HlOrderbook
