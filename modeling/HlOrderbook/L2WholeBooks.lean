import HlOrderbook.L2Feed
import HlOrderbook.L2Views

/-!
# Whole books that were sent

A frame with a whole book, on either channel, shows the coin's book as of the message
it was made of, as long as the cache is current and the coin is found in the message
in the shape asked for.  It need not be found: coins without an entry are built a few
at a time, and a message may be older than the subscription and built in other
shapes.  Such a coin is sent as one without levels.

## Main definitions

* `wholeFrames` — the frames with whole books, each with its message.
* `L2Connection.FindsBook` — the coin is found where a whole book is due.
-/

set_option autoImplicit false
set_option linter.unusedSectionVars false

namespace HlOrderbook

/-- The frames with whole books that were made of a message. -/
def wholeFrames (said : List L2Event) : List (L2Broadcast × L2Levels) :=
  said.filterMap fun
    | .book m frame => some (m, frame.levels)
    | .diff m (.snapshot _ _ _ _ _ _ levels) => some (m, levels)
    | _ => none

@[simp] theorem wholeFrames_append (said said' : List L2Event) :
    wholeFrames (said ++ said') = wholeFrames said ++ wholeFrames said' := List.filterMap_append

variable [SlabPolicy] [FixedPoint]

/-- Where a whole book is due the message holds the coin, for the channel of differences
in the shape asked for; or there is no level to send. -/
structure L2Connection.FindsBook (c : L2Connection) (m : L2Broadcast) : Prop where
  book : ∀ last ∈ c.lastL2, last.isNone = true ∨ c.forceFull = true →
    m.snapshot.contains c.subscription.coin = true ∨ c.subscription.view m.books = .empty
  diff : ∀ last ∈ c.lastL2Diff, last.isNone = true ∨ c.forceFull = true ∨
      (c.subscription.coin ∈ m.dirty ∧ m.previous.contains c.subscription.coin = false) →
    (c.subscription.exportFrom m.snapshot).isSome = true ∨
      c.subscription.view m.books = .empty

instance (c : L2Connection) (m : L2Broadcast) : Decidable (c.FindsBook m) :=
  decidable_of_iff (_ ∧ _) ⟨fun h => ⟨h.1, h.2⟩, fun h => ⟨h.1, h.2⟩⟩

/-- What is asked of a step: a batch that fails changes nothing unreported, and a
message that is taken holds the coin where a whole book is due. -/
def L2Feed.FindsBooks (f : L2Feed) : L2FeedOp → Prop
  | .ingest op => op.FailsClean f.connection.subscription f.ingest.listener
  | .receive _ => ∀ m ∈ f.connection.queue.head?.bind Broadcast.l2?, f.connection.FindsBook m
  | _ => True

instance (f : L2Feed) : ∀ op : L2FeedOp, Decidable (f.FindsBooks op)
  | .ingest op =>
    inferInstanceAs (Decidable (op.FailsClean f.connection.subscription f.ingest.listener))
  | .receive _ => inferInstanceAs (Decidable
      (∀ m ∈ f.connection.queue.head?.bind Broadcast.l2?, f.connection.FindsBook m))
  | .subscribe _ | .unsubscribe _ | .lag _ | .heartbeat _ _ => inferInstanceAs (Decidable True)

/-! ## One message -/

section Message

variable [LevelHash] {c : L2Connection} {m : L2Broadcast}

/-- What the channel of whole books compares is the book. -/
theorem comparesWith_view (hm : m.IsCurrent c.subscription) (hfinds : c.FindsBook m)
    {last : Option L2Entry} (hlast : c.lastL2 = some last) {levels : L2Levels}
    (h : c.comparesWith m last = some levels) : levels = c.subscription.view m.books := by
  rw [L2Connection.comparesWith, L2Subscription.built] at h
  split at h
  case isTrue => cases h
  case isFalse hdue =>
    cases hv : m.snapshot[c.subscription.coin]? with
    | some v =>
      rw [L2Subscription.bookLevels_of_some hv] at h
      obtain ⟨x, hx, rfl⟩ := Option.map_eq_some_iff.mp h
      exact hm.holds v x hv hx
    | none =>
      rw [L2Subscription.bookLevels_of_none hv] at h
      cases h
      by_cases hfirst : last.isNone = true ∨ c.forceFull = true
      · rcases hfinds.book last hlast hfirst with hcontains | hview
        · rw [Std.ExtTreeMap.contains_eq_isSome_getElem?, hv] at hcontains
          cases hcontains
        · exact hview.symm
      · have hdirty : c.subscription.coin ∈ m.dirty := by
          rw [not_or, Option.isNone_iff_eq_none, ← ne_eq, Option.ne_none_iff_isSome] at hfirst
          simpa [hfirst] using hdue
        exact (L2Subscription.view_of_none (hm.gone hdirty hv)).symm

/-- The whole books of the channel of whole books. -/
theorem wholeFrames_deliverBook (now : ℕ) (hm : m.IsCurrent c.subscription)
    (hfinds : c.FindsBook m) {last : Option L2Entry} (hlast : c.lastL2 = some last) :
    ∀ x ∈ wholeFrames (c.deliverBook now m last).2, x.2 = c.subscription.view x.1.books := by
  cases hcompares : c.comparesWith m last with
  | none =>
    rw [deliverBook_of_none now hcompares]
    exact nofun
  | some levels =>
    rcases deliverBook_of_some now hcompares with ⟨-, heq⟩ | ⟨frame, hframe, heq⟩
    · rw [heq]
      exact nofun
    · rw [heq]
      intro x hx
      rw [List.mem_singleton.mp hx]
      exact hframe.trans (comparesWith_view hm hfinds hlast hcompares)

/-- The whole books of the channel of differences. -/
theorem wholeFrames_deliverDiff (hm : m.IsCurrent c.subscription) (hfinds : c.FindsBook m)
    {last : Option ℕ} (hlast : c.lastL2Diff = some last) :
    ∀ x ∈ wholeFrames (c.deliverDiff m last).2, x.2 = c.subscription.view x.1.books := by
  have hlevels : last.isNone = true ∨ c.forceFull = true ∨
      (c.subscription.coin ∈ m.dirty ∧ m.previous.contains c.subscription.coin = false) →
      (c.subscription.exportFrom m.snapshot).getD .empty = c.subscription.view m.books := by
    intro hdue
    cases hexport : c.subscription.exportFrom m.snapshot with
    | none => exact ((hfinds.diff last hlast hdue).resolve_left (by simp [hexport])).symm
    | some levels =>
      rw [L2Subscription.exportFrom, Option.map_eq_some_iff] at hexport
      obtain ⟨x, hx, rfl⟩ := hexport
      obtain ⟨v, hv, hx⟩ := Option.bind_eq_some_iff.mp hx
      exact hm.holds v x hv hx
  rw [L2Connection.deliverDiff, sendWsDataFromL2Diff]
  split
  case isTrue hwhole =>
    split
    case isTrue => exact fun x hx => absurd hx List.not_mem_nil
    case isFalse hdue =>
      intro x hx
      rw [List.mem_singleton.mp hx]
      refine hlevels ?_
      by_cases hnone : last.isNone = true
      · exact Or.inl hnone
      · by_cases hforce : c.forceFull = true
        · exact Or.inr (Or.inl hforce)
        · refine Or.inr (Or.inr ⟨?_, ?_⟩)
          · rw [Option.isNone_iff_eq_none, ← ne_eq, Option.ne_none_iff_isSome] at hnone
            simpa [hnone, hforce] using hdue
          · simpa [hnone, hforce] using hwhole
  case isFalse =>
    split
    case isTrue => exact fun x hx => absurd hx List.not_mem_nil
    case isFalse =>
      split
      · exact fun x hx => absurd hx List.not_mem_nil
      · exact fun x hx => absurd hx List.not_mem_nil

/-- **The whole books of one message.** -/
theorem wholeFrames_deliver (now : ℕ) (hm : m.IsCurrent c.subscription) (hfinds : c.FindsBook m) :
    ∀ x ∈ wholeFrames (c.deliver now m).2, x.2 = c.subscription.view x.1.books := by
  intro x hx
  have hsplit : wholeFrames (c.deliver now m).2 =
      wholeFrames (((c.lastL2.map (c.deliverBook now m)).map Prod.snd).getD []) ++
        wholeFrames (((c.lastL2Diff.map (c.deliverDiff m)).map Prod.snd).getD []) :=
    wholeFrames_append _ _
  rw [hsplit, List.mem_append] at hx
  rcases hx with hx | hx
  · cases hlast : c.lastL2 with
    | none => simp [hlast, wholeFrames] at hx
    | some last =>
      rw [hlast] at hx
      exact wholeFrames_deliverBook now hm hfinds hlast x hx
  · cases hlast : c.lastL2Diff with
    | none => simp [hlast, wholeFrames] at hx
    | some last =>
      rw [hlast] at hx
      exact wholeFrames_deliverDiff hm hfinds hlast x hx

end Message

/-! ## Runs -/

section Run

variable [LevelHash] {f f' : L2Feed} {op : L2FeedOp} {said : List L2Event}
  {subscription : L2Subscription}

/-- The cache is current, and so are the messages that wait. -/
structure FeedCurrent (s : L2Subscription) (f : L2Feed) : Prop where
  subscription : f.connection.subscription = s
  cache : CacheCurrent s f.ingest.listener
  messages : ∀ m ∈ l2Of f.connection.queue, m.IsCurrent s

/-- Only the connection changes, and no message is added. -/
theorem FeedCurrent.of_queue {s : L2Subscription} {c : L2Connection} (h : FeedCurrent s f)
    (hsub : c.subscription = f.connection.subscription)
    (hqueue : l2Of c.queue <:+ l2Of f.connection.queue) : FeedCurrent s ⟨f.ingest, c⟩ :=
  ⟨hsub.trans h.subscription, h.cache, fun m hm => h.messages m (hqueue.subset hm)⟩

/-- **A step keeps the feed current.** -/
theorem FeedCurrent.step {s : L2Subscription} (hdepth : s.depth ≤ maxLevels)
    (h : FeedCurrent s f) (hclean : ∀ iop, op = .ingest iop → iop.FailsClean s f.ingest.listener)
    (hstep : f.step op = some (f', said)) : FeedCurrent s f' := by
  cases op with
  | ingest op =>
    simp only [L2Feed.step] at hstep
    split at hstep
    · obtain ⟨⟨i, sent⟩, hi, hr⟩ := Option.map_eq_some_iff.mp hstep
      cases hr
      obtain ⟨hcache, hmessages⟩ := h.cache.step hdepth hi (hclean op rfl)
      refine ⟨h.subscription, hcache, fun m hm => ?_⟩
      rw [l2Of_append, List.mem_append] at hm
      exact hm.elim (h.messages m) (hmessages m)
    · cases hstep
  | subscribe channel =>
    cases hstep
    rcases subscribe_cases f.connection channel with heq | heq | heq <;> rw [heq] <;>
      exact h.of_queue rfl List.suffix_rfl
  | unsubscribe channel =>
    cases hstep
    rcases unsubscribe_cases f.connection channel with heq | heq | heq <;> rw [heq] <;>
      exact h.of_queue rfl List.suffix_rfl
  | receive now =>
    simp only [L2Feed.step] at hstep
    split at hstep
    · cases hstep
    · rename_i b rest hqueue
      have hsuffix : l2Of rest <:+ l2Of f.connection.queue := by
        rw [hqueue]
        exact (List.suffix_cons b rest).filterMap _
      split at hstep <;>
      · cases hstep
        exact h.of_queue rfl hsuffix
  | lag n =>
    simp only [L2Feed.step] at hstep
    split at hstep
    · cases hstep
      exact h.of_queue rfl (l2Of_drop_suffix f.connection.queue n)
    · cases hstep
  | heartbeat now time =>
    simp only [L2Feed.step] at hstep
    rcases resend_cases f.connection now time with heq | ⟨entry, payload, -, -, heq⟩ <;>
    · rw [heq] at hstep
      cases hstep
      exact h.of_queue rfl List.suffix_rfl

/-- **The whole books of one step.** -/
theorem FeedCurrent.wholeFrames_step (h : FeedCurrent subscription f) (hfinds : f.FindsBooks op)
    (hstep : f.step op = some (f', said)) :
    ∀ x ∈ wholeFrames said, x.2 = subscription.view x.1.books := by
  cases op with
  | ingest op =>
    simp only [L2Feed.step] at hstep
    split at hstep
    · obtain ⟨r, -, hr⟩ := Option.map_eq_some_iff.mp hstep
      cases hr
      exact fun x hx => absurd hx List.not_mem_nil
    · cases hstep
  | subscribe channel =>
    cases hstep
    exact fun x hx => absurd hx List.not_mem_nil
  | unsubscribe channel =>
    cases hstep
    exact fun x hx => absurd hx List.not_mem_nil
  | receive now =>
    simp only [L2Feed.step] at hstep
    split at hstep
    · cases hstep
    · rename_i b rest hqueue
      split at hstep
      · rename_i m hl2
        cases hstep
        have hm : m ∈ l2Of f.connection.queue := by
          rw [hqueue]
          exact List.mem_filterMap.mpr ⟨b, List.mem_cons_self, hl2⟩
        have hfind : f.connection.FindsBook m := by
          refine hfinds m ?_
          rw [hqueue]
          exact hl2
        have hcurrent := h.messages m hm
        rw [← h.subscription] at hcurrent ⊢
        exact wholeFrames_deliver (c := { f.connection with queue := rest }) now hcurrent
          ⟨hfind.book, hfind.diff⟩
      · cases hstep
        exact fun x hx => absurd hx List.not_mem_nil
  | lag n =>
    simp only [L2Feed.step] at hstep
    split at hstep
    · cases hstep
      exact fun x hx => absurd hx List.not_mem_nil
    · cases hstep
  | heartbeat now time =>
    simp only [L2Feed.step] at hstep
    rcases resend_cases f.connection now time with heq | ⟨entry, payload, -, -, heq⟩ <;>
    · rw [heq] at hstep
      cases hstep
      exact fun x hx => absurd hx List.not_mem_nil

/-- A connection that asks for too many levels is never subscribed. -/
theorem holdsShape_step (hdepth : ¬ f.connection.subscription.depth ≤ maxLevels)
    (hnot : f.connection.holdsShape = false) (hstep : f.step op = some (f', said)) :
    f'.connection.holdsShape = false ∧ wholeFrames said = [] := by
  have hinvalid : f.connection.subscription.validate f.connection.univ = false := by
    rw [← Bool.not_eq_true]
    exact fun hvalid => hdepth (L2Subscription.depth_le_of_validate hvalid)
  have hnone : f.connection.lastL2 = none ∧ f.connection.lastL2Diff = none := by
    simpa [L2Connection.holdsShape] using hnot
  cases op with
  | ingest op =>
    simp only [L2Feed.step] at hstep
    split at hstep
    · obtain ⟨r, -, hr⟩ := Option.map_eq_some_iff.mp hstep
      cases hr
      exact ⟨hnot, rfl⟩
    · cases hstep
  | subscribe channel =>
    cases hstep
    have heq : f.connection.subscribe channel = f.connection := if_neg (by simp [hinvalid])
    rw [heq]
    exact ⟨hnot, rfl⟩
  | unsubscribe channel =>
    cases hstep
    have heq : f.connection.unsubscribe channel = f.connection := if_neg (by simp [hinvalid])
    rw [heq]
    exact ⟨hnot, rfl⟩
  | receive now =>
    simp only [L2Feed.step] at hstep
    split at hstep
    · cases hstep
    · split at hstep
      · cases hstep
        simp [L2Connection.deliver, L2Connection.holdsShape, hnone, wholeFrames]
      · cases hstep
        exact ⟨hnot, rfl⟩
  | lag n =>
    simp only [L2Feed.step] at hstep
    split at hstep
    · cases hstep
      exact ⟨hnot, rfl⟩
    · cases hstep
  | heartbeat now time =>
    simp only [L2Feed.step] at hstep
    rcases resend_cases f.connection now time with heq | ⟨entry, payload, hlast, -, -⟩
    · rw [heq] at hstep
      cases hstep
      exact ⟨hnot, rfl⟩
    · rw [hnone.1] at hlast
      cases hlast

/-- The cache of a listener that was reached from the beginning is current. -/
theorem cacheCurrent_of_run (hdepth : subscription.depth ≤ maxLevels) {tx spot : Bool}
    {filter : MarketFilter} {ops : List IngestOp} {i : Ingest} {sent : List InternalMessage}
    (hclean : Runs.Meets Ingest.step (fun _ i op => op.FailsClean subscription i.listener) [] ops
      ⟨.new tx spot filter, none⟩)
    (h : runSteps Ingest.step ops ⟨.new tx spot filter, none⟩ = some (i, sent)) :
    CacheCurrent subscription i.listener :=
  hclean.rule (I := fun _ i => CacheCurrent subscription i.listener)
    (fun _ _ _ _ _ hclean h hstep => (h.step hdepth hstep hclean).1)
    (cacheCurrent_new subscription tx spot filter) h

/-- **No false book is sent**: if no batch changes the coin's book unreported and fails,
and every message that is taken holds the coin where a whole book is due, then every
whole book is that of the coin when its message was made, and one without levels is
sent only when no order rested. -/
theorem wholeFrames_current {tx spot : Bool} {filter : MarketFilter} {ops : List IngestOp}
    {i : Ingest} {sent : List InternalMessage}
    (hreach : runSteps Ingest.step ops ⟨.new tx spot filter, none⟩ = some (i, sent))
    (hclean : Runs.Meets Ingest.step (fun _ i op => op.FailsClean subscription i.listener) [] ops
      ⟨.new tx spot filter, none⟩)
    {univ : Std.ExtTreeSet Coin} {interval : Option ℕ} {es : List L2FeedOp}
    (hrun : runSteps L2Feed.step es ⟨i, .new subscription univ interval⟩ = some (f, said))
    (hfinds : Runs.Meets L2Feed.step (fun _ f op => f.FindsBooks op) [] es
      ⟨i, .new subscription univ interval⟩) :
    ∀ x ∈ wholeFrames said, x.2 = subscription.view x.1.books ∧
      (x.2 = .empty → subscription.depth = 0 ∨
        (x.1.books.book subscription.coin).orderCount = 0) := by
  have hframes : ∀ x ∈ wholeFrames said, x.2 = subscription.view x.1.books := by
    by_cases hdepth : subscription.depth ≤ maxLevels
    · have hrule := hfinds.rule (I := fun said f => FeedCurrent subscription f ∧
        ∀ x ∈ wholeFrames said, x.2 = subscription.view x.1.books) ?_ ?_ hrun
      · exact hrule.2
      · intro said f op f' said' hfinds ⟨hcurrent, hsaid⟩ hstep
        refine ⟨hcurrent.step hdepth (fun iop hop => ?_) hstep, fun x hx => ?_⟩
        · subst hop
          exact hcurrent.subscription ▸ hfinds
        · rw [wholeFrames_append, List.mem_append] at hx
          exact hx.elim (hsaid x) (hcurrent.wholeFrames_step hfinds hstep x)
      · exact ⟨⟨rfl, cacheCurrent_of_run hdepth hclean hreach, nofun⟩, nofun⟩
    · have hrule := hfinds.rule (I := fun said f => f.connection.subscription = subscription ∧
        f.connection.holdsShape = false ∧ wholeFrames said = []) ?_ ⟨rfl, rfl, rfl⟩ hrun
      · rw [List.nil_append] at hrule
        rw [hrule.2.2]
        exact nofun
      · intro said f op f' said' _ ⟨hsub, hnot, hsaid⟩ hstep
        obtain ⟨hnot', hsaid'⟩ := holdsShape_step (hsub ▸ hdepth) hnot hstep
        exact ⟨(subscription_step hstep).trans hsub, hnot', by simp [hsaid, hsaid']⟩
  intro x hx
  refine ⟨hframes x hx, fun hempty => ?_⟩
  rw [hframes x hx] at hempty
  exact L2Subscription.view_eq_empty.mp hempty

end Run

end HlOrderbook

namespace HlOrderbook

section Example

attribute [local instance] SlabPolicy.latest FixedPoint.decimal LevelHash.polynomial

/-- Both channels are subscribed to, and the bid becomes smaller. -/
def bothChannels : List L2FeedOp :=
  [.subscribe .book, .subscribe .diff, .bidDiff 1001 (.update "1" "0.5"), .baseFlush 100,
    .receive 100]

theorem wholeFrames_bothChannels : ∃ i sent f said,
    runSteps Ingest.step L2FeedOp.oneBid ⟨.new true true ⟨true, true, true⟩, none⟩ =
      some (i, sent) ∧
    runSteps L2Feed.step bothChannels ⟨i, .new .btc i.listener.univ none⟩ = some (f, said) ∧
    (wholeFrames said).map Prod.snd = [⟨[⟨"100", "0.5", 1⟩], []⟩, ⟨[⟨"100", "0.5", 1⟩], []⟩] ∧
    ∀ x ∈ wholeFrames said, x.2 = L2Subscription.btc.view x.1.books := by
  have hend : (runSteps Ingest.step L2FeedOp.oneBid
      ⟨.new true true ⟨true, true, true⟩, none⟩).map (fun r =>
        (decide (Runs.Meets L2Feed.step (fun _ f op => f.FindsBooks op) [] bothChannels
          ⟨r.1, .new .btc r.1.listener.univ none⟩),
        (runSteps L2Feed.step bothChannels ⟨r.1, .new .btc r.1.listener.univ none⟩).map fun r =>
          (wholeFrames r.2).map Prod.snd)) =
      some (true, some [⟨[⟨"100", "0.5", 1⟩], []⟩, ⟨[⟨"100", "0.5", 1⟩], []⟩]) := by
    decide +kernel
  have hclean : Runs.Meets Ingest.step (fun _ i op => op.FailsClean .btc i.listener) []
      L2FeedOp.oneBid ⟨.new true true ⟨true, true, true⟩, none⟩ := by decide +kernel
  obtain ⟨i, sent, hreach, hi⟩ := Runs.exists_of_map hend
  simp only [Prod.mk.injEq, decide_eq_true_eq] at hi
  obtain ⟨f, said, hrun, hsaid⟩ := Runs.exists_of_map hi.2
  exact ⟨i, sent, f, said, hreach, hrun, hsaid,
    fun x hx => (wholeFrames_current hreach hclean hrun hi.1 x hx).1⟩

/-- The book rounded to five figures. -/
def L2Subscription.btcRounded : L2Subscription := ⟨"BTC", some 5, none, none⟩

/-- A message that was built for others waits while the rounded book is subscribed to. -/
def builtForOthers : List L2FeedOp :=
  [.bidDiff 1001 (.update "1" "0.5"), .baseFlush 100, .subscribe .diff, .receive 100]

/-- **A book without levels is sent of a coin that has a bid.** -/
theorem wholeFrames_builtForOthers : ∃ i sent f said,
    runSteps Ingest.step L2FeedOp.oneBid ⟨.new true true ⟨true, true, true⟩, none⟩ =
      some (i, sent) ∧
    runSteps L2Feed.step builtForOthers ⟨i, .new .btcRounded i.listener.univ none⟩ =
      some (f, said) ∧
    ∃ x ∈ wholeFrames said, x.2 = .empty ∧
      L2Subscription.btcRounded.view x.1.books = ⟨[⟨"100", "0.5", 1⟩], []⟩ := by
  have hend : (runSteps Ingest.step L2FeedOp.oneBid
      ⟨.new true true ⟨true, true, true⟩, none⟩).map (fun r => (runSteps L2Feed.step builtForOthers
        ⟨r.1, .new .btcRounded r.1.listener.univ none⟩).map fun r =>
          (wholeFrames r.2).map fun x => (x.2, L2Subscription.btcRounded.view x.1.books)) =
      some (some [(.empty, ⟨[⟨"100", "0.5", 1⟩], []⟩)]) := by decide +kernel
  obtain ⟨i, sent, hreach, hi⟩ := Runs.exists_of_map hend
  obtain ⟨f, said, hrun, hsaid⟩ := Runs.exists_of_map hi
  obtain ⟨x, rest, hx, hlevels, -⟩ := List.map_eq_cons_iff.mp hsaid
  simp only [Prod.mk.injEq] at hlevels
  exact ⟨i, sent, f, said, hreach, hrun, x, hx ▸ List.mem_cons_self, hlevels⟩

end Example

end HlOrderbook
