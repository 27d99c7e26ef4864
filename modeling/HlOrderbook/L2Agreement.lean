import HlOrderbook.L2Feed

/-!
# The two channels agree

A connection that takes both channels of one coin, shape and depth, with no message
taken between, has sent on the one channel what a client has put together from the
other.  The two channels keep different notes.  What makes them agree is that the
listener's own cache, which the differences are made against, is what the last
message held, so it is also what both channels sent for that message.

## Main definitions

* `TakenTogether` — the messages find both channels subscribed to, or neither.
* `Agrees` — the invariant.
-/

set_option autoImplicit false
set_option linter.unusedSectionVars false

namespace HlOrderbook

/-- Every message that is taken finds both channels subscribed to, or neither; and
if both, then it was sent while their shape was wanted. -/
def TakenTogether (shape : L2SnapshotParams) (said : List L2Event) : Prop :=
  ∀ m book diff, .taken m book diff ∈ said → book = diff ∧ (book = true → shape ∈ m.active)

instance (shape : L2SnapshotParams) (said : List L2Event) : Decidable (TakenTogether shape said) :=
  let fits : L2Event → Bool
    | .taken m book diff => book = diff ∧ (book = true → shape ∈ m.active)
    | _ => true
  decidable_of_iff (∀ e ∈ said, fits e = true) <| by
    constructor
    · intro h m book diff hm
      exact of_decide_eq_true (h _ hm)
    · intro h e he
      cases e with
      | taken m book diff => exact decide_eq_true (h m book diff he)
      | _ => rfl

/-- The book has exactly the levels of a frame. -/
structure ClientBook.Shows (b : ClientBook) (levels : L2Levels) : Prop where
  bids : ∀ px sz n, b.bids[px]? = some (sz, n) ↔ ⟨px, sz, n⟩ ∈ levels.bids
  asks : ∀ px sz n, b.asks[px]? = some (sz, n) ↔ ⟨px, sz, n⟩ ∈ levels.asks

/-- The book a frame with distinct prices spells out has exactly its levels. -/
theorem ClientBook.shows_ofLevels {levels : L2Levels} (hbids : (levels.bids.map Level.px).Nodup)
    (hasks : (levels.asks.map Level.px).Nodup) : (ofLevels levels).Shows levels := by
  have hside : ∀ side : List Level, (side.map Level.px).Nodup → ∀ px sz n,
      (mapOf (side.map Level.entry))[px]? = some (sz, n) ↔ ⟨px, sz, n⟩ ∈ side := by
    intro side hnodup px sz n
    have hkeys : (side.map Level.entry).map Prod.fst = side.map Level.px := by
      rw [List.map_map]
      rfl
    rw [getElem?_mapOf_iff (hkeys ▸ hnodup), List.mem_map]
    constructor
    · rintro ⟨l, hl, he⟩
      cases he
      exact hl
    · intro hl
      exact ⟨_, hl, rfl⟩
  exact ⟨hside _ hbids, hside _ hasks⟩

variable [SlabPolicy] [FixedPoint] [LevelHash]

/-- The levels are those of a message, if the coin is in it in the right shape. -/
def L2Subscription.Current (s : L2Subscription) (m : L2Broadcast) (levels : L2Levels) : Prop :=
  ∀ (v : L2Variants) x, m.snapshot[s.coin]? = some v → v s.shape = some x → s.exported x = levels

/-- Both channels have sent something: the same levels, which are those of the
message before the ones that wait, unless messages were lost. -/
structure Served (f : L2Feed) (said : List L2Event) (entry : L2Entry) (height : ℕ)
    (levels : L2Levels) : Prop where
  book : f.connection.lastL2 = some (some entry)
  diff : f.connection.lastL2Diff = some (some height)
  shown : shown said = some levels
  rebuilt : rebuilt said = some (.ofLevels levels)
  compared : .compared levels ∈ said
  hash : entry.hash = LevelHash.hash levels
  payload : ∀ b ∈ entry.payload, b.levels = levels
  current : f.connection.forceFull = false → ∃ seen,
    Trail Remembers Linked f.ingest.listener (seen :: l2Of f.connection.queue) ∧
      f.connection.subscription.Current seen levels

/-- Nothing was sent. -/
structure Unserved (f : L2Feed) (said : List L2Event) : Prop where
  book : f.connection.lastL2.join = none
  diff : f.connection.lastL2Diff.join = none
  shown : shown said = none

/-- **The two channels agree.** -/
structure Agrees (f : L2Feed) (said : List L2Event) : Prop where
  built : CacheBuilt f.ingest.listener
  trail : Trail Remembers Linked f.ingest.listener (l2Of f.connection.queue)
  complete : ∀ m ∈ l2Of f.connection.queue, Complete m
  sent : Unserved f said ∨ ∃ entry height levels, Served f said entry height levels

/-! ## One message -/

section Message

variable {c : L2Connection} {m : L2Broadcast}

/-- What a message holds for a subscription. -/
def L2Subscription.levels (s : L2Subscription) (m : L2Broadcast) : L2Levels :=
  (s.exportFrom m.snapshot).getD .empty

theorem L2Subscription.current_levels (s : L2Subscription) (m : L2Broadcast) :
    s.Current m (s.levels m) := by
  intro v x hv hx
  rw [levels, exportFrom_of_some hv hx]
  rfl

/-- A coin that is in a message is in it in every shape that was wanted. -/
theorem L2Subscription.bookLevels_eq {s : L2Subscription} (hm : Complete m)
    (hactive : s.shape ∈ m.active) : s.bookLevels m.snapshot = some (s.levels m) := by
  rw [levels]
  cases hv : m.snapshot[s.coin]? with
  | none => rw [bookLevels_of_none hv, exportFrom_of_none hv]; rfl
  | some v =>
    obtain ⟨x, hx⟩ := Option.isSome_iff_exists.mp (hm.snapshot s.coin v s.shape hactive hv)
    rw [bookLevels_of_some hv, exportFrom_of_some hv hx, hx]
    rfl

/-- Whether a message says nothing new for the subscription. -/
def L2Connection.skips (c : L2Connection) (m : L2Broadcast) (served : Bool) : Bool :=
  !c.forceFull && !m.dirty.contains c.subscription.coin && served

/-- The channel of differences says nothing when there is nothing new. -/
theorem deliverDiff_of_skips {height : ℕ} (h : c.skips m true = true) :
    c.deliverDiff m (some height) = (some height, []) := by
  simp only [L2Connection.skips, Bool.and_eq_true, Bool.not_eq_true', Bool.and_true] at h
  simp [L2Connection.deliverDiff, sendWsDataFromL2Diff, h.1, h.2]

/-- **The channel of differences** makes the client's book the one of the message,
if it was the one of the previous books. -/
theorem deliverDiff_of_not_skips {last : Option ℕ} (h : c.skips m last.isSome = false)
    {book : Option ClientBook} (hprevious : last.isSome = true → c.forceFull = false →
      ∀ v, m.previous[c.subscription.coin]? = some v →
        ∃ x, v c.subscription.shape = some x ∧
          book = some (.ofLevels (c.subscription.exported x))) :
    ∃ height, (c.deliverDiff m last).1 = some height ∧
      (c.deliverDiff m last).2.foldl L2Event.rebuild book =
        some (.ofLevels (c.subscription.levels m)) := by
  rw [L2Connection.deliverDiff, sendWsDataFromL2Diff]
  by_cases hwhole : (last.isNone || c.forceFull || !m.previous.contains c.subscription.coin) = true
  · have hnot : (last.isSome && !c.forceFull && !m.dirty.contains c.subscription.coin) = false := by
      rw [L2Connection.skips] at h
      revert h
      cases last.isSome <;> cases c.forceFull <;> cases m.dirty.contains c.subscription.coin <;> simp
    simp only [hwhole, hnot, if_true, Bool.false_eq_true, if_false]
    exact ⟨m.height, rfl, rfl⟩
  · simp only [Bool.or_eq_true, not_or, Bool.not_eq_true, Bool.not_eq_false'] at hwhole
    obtain ⟨⟨hlast, hforce⟩, hcontains⟩ := hwhole
    obtain ⟨height, rfl⟩ : ∃ height, last = some height := by
      cases last with
      | none => cases hlast
      | some height => exact ⟨height, rfl⟩
    have hdirty : m.dirty.contains c.subscription.coin = true := by
      simpa [L2Connection.skips, hforce] using h
    rw [Std.ExtTreeMap.contains_eq_isSome_getElem?, Option.isSome_iff_exists] at hcontains
    obtain ⟨v, hv⟩ := hcontains
    obtain ⟨x, hx, rfl⟩ := hprevious rfl hforce v hv
    have hpatch := c.subscription.patch_sides m.snapshot
      (L2Subscription.exportFrom_of_some hv hx) _ rfl
    have hprev : m.previous.contains c.subscription.coin = true := by
      rw [Std.ExtTreeMap.contains_eq_isSome_getElem?, hv]
      rfl
    simp only [hforce, hprev, hdirty, Option.isNone_some, Bool.or_self, Bool.not_true,
      Bool.false_eq_true, if_false]
    cases hsides : c.subscription.sides m.snapshot m.previous with
    | none =>
      rw [hsides, Option.elim_none] at hpatch
      exact ⟨height, rfl, congrArg some hpatch⟩
    | some d =>
      rw [hsides, Option.elim_some] at hpatch
      exact ⟨m.height, rfl, congrArg some hpatch⟩

/-- The channel of differences shows no whole book. -/
theorem foldl_show_deliverDiff (c : L2Connection) (m : L2Broadcast) (last : Option ℕ)
    (levels : Option L2Levels) : (c.deliverDiff m last).2.foldl L2Event.show levels = levels := by
  rw [L2Connection.deliverDiff]
  generalize sendWsDataFromL2Diff _ _ _ _ _ _ _ _ = r
  obtain ⟨height, frame⟩ := r
  cases frame <;> rfl

theorem comparesWith_of_not_skips {last : Option L2Entry} (hm : Complete m)
    (hactive : c.subscription.shape ∈ m.active) (h : c.skips m last.isSome = false) :
    c.comparesWith m last = some (c.subscription.levels m) := by
  rw [L2Connection.skips] at h
  rw [L2Connection.comparesWith, L2Subscription.built, h]
  exact L2Subscription.bookLevels_eq hm hactive

theorem comparesWith_of_skips {last : Option L2Entry} (h : c.skips m last.isSome = true) :
    c.comparesWith m last = none := by
  rw [L2Connection.skips] at h
  rw [L2Connection.comparesWith, L2Subscription.built, h]
  rfl

/-- A message is taken with both channels subscribed to. -/
theorem deliver_both {now : ℕ} {last : Option L2Entry} {lastDiff : Option ℕ}
    (hbook : c.lastL2 = some last) (hdiff : c.lastL2Diff = some lastDiff) : c.deliver now m =
      ({ c with
        univ := m.univ.getD c.univ
        forceFull := false
        lastL2 := some (c.deliverBook now m last).1
        lastL2Diff := some (c.deliverDiff m lastDiff).1 },
      .taken m true true :: ((c.deliverBook now m last).2 ++ (c.deliverDiff m lastDiff).2)) := by
  simp [L2Connection.deliver, hbook, hdiff]

end Message

/-! ## One step -/

section Step

variable {f : L2Feed} {said : List L2Event} {b : Broadcast} {rest : List Broadcast}
  {m : L2Broadcast} {entry : L2Entry} {height now : ℕ} {levels : L2Levels}

theorem l2Of_cons (h : b.l2? = some m) (rest : List Broadcast) :
    l2Of (b :: rest) = m :: l2Of rest := List.filterMap_cons_some h

/-- The message before the one that is taken, and those that wait. -/
theorem Served.seen (hserved : Served f said entry height levels)
    (hqueue : f.connection.queue = b :: rest) (hl2 : b.l2? = some m)
    (hforce : f.connection.forceFull = false) :
    ∃ seen, Linked seen m ∧ f.connection.subscription.Current seen levels := by
  obtain ⟨seen, htrail, hcurrent⟩ := hserved.current hforce
  rw [hqueue, l2Of_cons hl2] at htrail
  exact ⟨seen, htrail.linked_of_cons, hcurrent⟩

/-- A message with nothing new: both channels stay with the levels they have. -/
theorem Agrees.served_of_skips (h : Agrees f said) (hqueue : f.connection.queue = b :: rest)
    (hl2 : b.l2? = some m) (hserved : Served f said entry height levels)
    (hskips : ({ f.connection with queue := rest } : L2Connection).skips m true = true) :
    Served
      ⟨f.ingest, (({ f.connection with queue := rest } : L2Connection).deliver now m).1⟩
      (said ++ (({ f.connection with queue := rest } : L2Connection).deliver now m).2)
      entry height levels := by
  have htrail := h.trail
  rw [hqueue, l2Of_cons hl2] at htrail
  rw [deliver_both (c := { f.connection with queue := rest }) (m := m) hserved.book hserved.diff,
    deliverBook_of_none now (comparesWith_of_skips hskips), deliverDiff_of_skips hskips]
  simp only [L2Connection.skips, Bool.and_eq_true, Bool.not_eq_true', Bool.and_true] at hskips
  obtain ⟨seen, hlinked, hcurrent⟩ := hserved.seen hqueue hl2 hskips.1
  refine ⟨rfl, rfl, ?_, ?_, ?_, hserved.hash, hserved.payload, fun _ => ⟨m, htrail, ?_⟩⟩
  · rw [shown_append]
    exact hserved.shown
  · rw [rebuilt_append]
    exact hserved.rebuilt
  · exact List.mem_append_left _ hserved.compared
  · intro v x hv hx
    have hnot : f.connection.subscription.coin ∉ m.dirty := by
      have hcontains := hskips.2
      rw [← Bool.not_eq_true] at hcontains
      exact hcontains
    exact hcurrent v x (hlinked.kept _ _ hnot hv) hx

/-- A message with something new: both channels have its levels. -/
theorem Agrees.served_of_not_skips (h : Agrees f said) (hqueue : f.connection.queue = b :: rest)
    (hl2 : b.l2? = some m) {last : Option L2Entry} {lastDiff : Option ℕ}
    (hbook : f.connection.lastL2 = some last) (hdiff : f.connection.lastL2Diff = some lastDiff)
    (hactive : f.connection.subscription.shape ∈ m.active)
    (hfree : CollisionFree (said ++ (({ f.connection with queue := rest } :
      L2Connection).deliver now m).2))
    (hskips : ({ f.connection with queue := rest } : L2Connection).skips m last.isSome = false) :
    ∃ entry height, Served
      ⟨f.ingest, (({ f.connection with queue := rest } : L2Connection).deliver now m).1⟩
      (said ++ (({ f.connection with queue := rest } : L2Connection).deliver now m).2)
      entry height (f.connection.subscription.levels m) := by
  set c : L2Connection := { f.connection with queue := rest } with hc
  have htrail := h.trail
  rw [hqueue, l2Of_cons hl2] at htrail
  have hcomplete : Complete m := h.complete m (by rw [hqueue, l2Of_cons hl2]; simp)
  have hsame : lastDiff.isSome = last.isSome := by
    rcases h.sent with hunserved | ⟨entry, height, levels, hserved⟩
    · have hb := hunserved.book
      have hd := hunserved.diff
      rw [hbook] at hb
      rw [hdiff] at hd
      simp only [Option.join_some] at hb hd
      rw [hb, hd]
      rfl
    · have hb := hserved.book
      have hd := hserved.diff
      rw [hbook, Option.some.injEq] at hb
      rw [hdiff, Option.some.injEq] at hd
      rw [hb, hd]
      rfl
  have hcompares := comparesWith_of_not_skips (c := c) hcomplete hactive hskips
  -- the client's book was the one of the previous books, if there were any
  have hprevious : lastDiff.isSome = true → c.forceFull = false →
      ∀ v, m.previous[c.subscription.coin]? = some v →
        ∃ x, v c.subscription.shape = some x ∧
          rebuilt said = some (.ofLevels (c.subscription.exported x)) := by
    intro hsome hforce v hv
    obtain ⟨x, hx⟩ := Option.isSome_iff_exists.mp (hcomplete.previous _ v _ hactive hv)
    rcases h.sent with hunserved | ⟨entry, height, levels, hserved⟩
    · have hd := hunserved.diff
      rw [hdiff, Option.join_some] at hd
      rw [hd] at hsome
      cases hsome
    · obtain ⟨seen, hlinked, hcurrent⟩ := hserved.seen hqueue hl2 hforce
      refine ⟨x, hx, ?_⟩
      rw [hserved.rebuilt]
      exact congrArg (fun levels => some (ClientBook.ofLevels levels))
        (hcurrent v x (hlinked.previous _ v hv) hx).symm
  obtain ⟨height, hheight, hrebuilt⟩ := deliverDiff_of_not_skips (c := c) (m := m) (hsame ▸ hskips)
    hprevious
  have hcurrent := c.subscription.current_levels m
  rw [deliver_both (c := c) (m := m) hbook hdiff] at hfree ⊢
  rw [hheight]
  rcases deliverBook_of_some now hcompares with ⟨hhash, hsent⟩ | ⟨frame, hframe, hsent⟩
  · rw [hsent] at hfree ⊢
    rcases h.sent with hunserved | ⟨entry, height', levels, hserved⟩
    · have hb := hunserved.book
      rw [hbook, Option.join_some] at hb
      rw [hb] at hhash
      cases hhash
    · have hb := hserved.book
      rw [hbook, Option.some.injEq] at hb
      subst hb
      rw [Option.map_some, Option.some.injEq, hserved.hash] at hhash
      have heq : levels = c.subscription.levels m := hfree _ _
        (List.mem_append_left _ hserved.compared) (by simp) hhash
      subst heq
      refine ⟨entry, height, rfl, rfl, ?_, ?_, ?_, hserved.hash, hserved.payload,
        fun _ => ⟨m, htrail, hcurrent⟩⟩
      · rw [shown_append, List.foldl_cons, List.foldl_append, foldl_show_deliverDiff]
        exact hserved.shown
      · rw [rebuilt_append, List.foldl_cons, List.foldl_append]
        exact hrebuilt
      · exact List.mem_append_left _ hserved.compared
  · rw [hsent]
    refine ⟨_, height, rfl, rfl, ?_, ?_, ?_, rfl, ?_, fun _ => ⟨m, htrail, hcurrent⟩⟩
    · rw [shown_append, List.foldl_cons, List.foldl_append, foldl_show_deliverDiff]
      exact congrArg some hframe
    · rw [rebuilt_append, List.foldl_cons, List.foldl_append]
      exact hrebuilt
    · exact List.mem_append_right _ (List.mem_cons_of_mem _ List.mem_cons_self)
    · intro b hb
      cases hbeat : c.heartbeat.isSome
      · simp [hbeat] at hb
      · simp only [hbeat, if_true, Option.mem_some_iff] at hb
        exact hb ▸ hframe

/-- **A message is taken.** -/
theorem Agrees.deliver (h : Agrees f said) (hqueue : f.connection.queue = b :: rest)
    (hl2 : b.l2? = some m)
    (htogether : TakenTogether f.connection.subscription.shape
      (said ++ (({ f.connection with queue := rest } : L2Connection).deliver now m).2))
    (hfree : CollisionFree (said ++ (({ f.connection with queue := rest } :
      L2Connection).deliver now m).2)) :
    Agrees ⟨f.ingest, (({ f.connection with queue := rest } : L2Connection).deliver now m).1⟩
      (said ++ (({ f.connection with queue := rest } : L2Connection).deliver now m).2) := by
  have hof : l2Of f.connection.queue = m :: l2Of rest := by rw [hqueue, l2Of_cons hl2]
  have htrail : Trail Remembers Linked f.ingest.listener (l2Of rest) :=
    h.trail.suffix (hof ▸ List.suffix_cons m _)
  have hcomplete : ∀ m' ∈ l2Of rest, Complete m' := fun m' hm' =>
    h.complete m' (hof ▸ List.mem_cons_of_mem _ hm')
  obtain ⟨hpair, hactive⟩ := htogether m f.connection.lastL2.isSome
    f.connection.lastL2Diff.isSome (List.mem_append_right _ List.mem_cons_self)
  refine ⟨h.built, htrail, hcomplete, ?_⟩
  cases hbook : f.connection.lastL2 with
  | none =>
    have hdiff : f.connection.lastL2Diff = none := by
      rw [hbook] at hpair
      exact Option.not_isSome_iff_eq_none.mp (by rw [← hpair]; simp)
    rcases h.sent with hunserved | ⟨entry, height, levels, hserved⟩
    · have hdeliver : ({ f.connection with queue := rest } : L2Connection).deliver now m =
          ({ f.connection with
            queue := rest
            univ := m.univ.getD f.connection.univ
            forceFull := false }, [.taken m false false]) := by
        simp [L2Connection.deliver, hbook, hdiff]
      rw [hdeliver]
      refine Or.inl ⟨hunserved.book, hunserved.diff, ?_⟩
      rw [shown_append]
      exact hunserved.shown
    · rw [hserved.book] at hbook
      cases hbook
  | some last =>
    rw [hbook] at hpair hactive
    obtain ⟨lastDiff, hdiff⟩ := Option.isSome_iff_exists.mp hpair.symm
    right
    cases hskips : ({ f.connection with queue := rest } : L2Connection).skips m last.isSome with
    | false =>
      obtain ⟨entry, height, hserved⟩ := h.served_of_not_skips hqueue hl2 hbook hdiff (hactive rfl)
        hfree hskips
      exact ⟨entry, height, _, hserved⟩
    | true =>
      rcases h.sent with hunserved | ⟨entry, height, levels, hserved⟩
      · have hb := hunserved.book
        rw [hbook, Option.join_some] at hb
        simp [L2Connection.skips, hb] at hskips
      · have hb := hserved.book
        rw [hbook, Option.some.injEq] at hb
        rw [hb] at hskips
        exact ⟨entry, height, levels, h.served_of_skips hqueue hl2 hserved hskips⟩

/-- Nothing was sent, and no note has changed but for the channels being subscribed
to. -/
theorem Agrees.of_same {f' : L2Feed} (h : Agrees f said)
    (hbuilt : CacheBuilt f'.ingest.listener)
    (hcomplete : ∀ m ∈ l2Of f'.connection.queue, Complete m)
    (htrail : ∀ xs, Trail Remembers Linked f.ingest.listener (xs ++ l2Of f.connection.queue) →
      Trail Remembers Linked f'.ingest.listener (xs ++ l2Of f'.connection.queue))
    (hsub : f'.connection.subscription = f.connection.subscription)
    (hforce : f'.connection.forceFull = f.connection.forceFull)
    (hbook : f'.connection.lastL2 = f.connection.lastL2 ∨
      f'.connection.lastL2 = some (f.connection.lastL2.getD none))
    (hdiff : f'.connection.lastL2Diff = f.connection.lastL2Diff ∨
      f'.connection.lastL2Diff = some (f.connection.lastL2Diff.getD none)) : Agrees f' said := by
  refine ⟨hbuilt, htrail [] h.trail, hcomplete, ?_⟩
  rcases h.sent with hunserved | ⟨entry, height, levels, hserved⟩
  · refine Or.inl ⟨?_, ?_, hunserved.shown⟩
    · have hb := hunserved.book
      rcases hbook with hbook | hbook <;> rw [hbook] <;> cases hlast : f.connection.lastL2 <;>
        simp_all
    · have hd := hunserved.diff
      rcases hdiff with hdiff | hdiff <;> rw [hdiff] <;> cases hlast : f.connection.lastL2Diff <;>
        simp_all
  · refine Or.inr ⟨entry, height, levels, ?_, ?_, hserved.shown, hserved.rebuilt, hserved.compared,
      hserved.hash, hserved.payload, ?_⟩
    · rw [hserved.book] at hbook
      rcases hbook with hbook | hbook <;> exact hbook
    · rw [hserved.diff] at hdiff
      rcases hdiff with hdiff | hdiff <;> exact hdiff
    · intro hf
      obtain ⟨seen, hseen, hcurrent⟩ := hserved.current (hforce ▸ hf)
      exact ⟨seen, htrail [seen] hseen, hsub ▸ hcurrent⟩

/-- **A step keeps the two channels in agreement.** -/
theorem Agrees.step {f' : L2Feed} {op : L2FeedOp} {said' : List L2Event} (h : Agrees f said)
    (hkeeps : ∀ channel, op ≠ .unsubscribe channel)
    (hstep : f.step op = some (f', said'))
    (htogether : TakenTogether f.connection.subscription.shape (said ++ said'))
    (hfree : CollisionFree (said ++ said')) : Agrees f' (said ++ said') := by
  cases op with
  | ingest op =>
    simp only [L2Feed.step] at hstep
    split at hstep
    · obtain ⟨⟨i, sent⟩, hi, hr⟩ := Option.map_eq_some_iff.mp hstep
      cases hr
      have hchange := Ingest.step_l2 hi
      rw [List.append_nil]
      refine h.of_same (hchange.cacheBuilt h.built) ?_ ?_ rfl rfl (Or.inl rfl) (Or.inl rfl)
      · intro m hm
        rw [l2Of_append, List.mem_append] at hm
        rcases hm with hm | hm
        · exact h.complete m hm
        · exact hchange.complete h.built m hm
      · intro xs hxs
        rw [l2Of_append, ← List.append_assoc]
        exact hchange.trail hxs
    · cases hstep
  | subscribe channel =>
    cases hstep
    rw [List.append_nil]
    rcases subscribe_cases f.connection channel with heq | heq | heq <;> rw [heq]
    · exact h
    · exact h.of_same h.built h.complete (fun _ h => h) rfl rfl (Or.inr rfl) (Or.inl rfl)
    · exact h.of_same h.built h.complete (fun _ h => h) rfl rfl (Or.inl rfl) (Or.inr rfl)
  | unsubscribe channel => exact absurd rfl (hkeeps channel)
  | receive now =>
    simp only [L2Feed.step] at hstep
    split at hstep
    · cases hstep
    · rename_i b rest hqueue
      split at hstep
      · rename_i m hl2
        cases hstep
        exact h.deliver hqueue hl2 htogether hfree
      · rename_i hl2
        cases hstep
        have hof : l2Of rest = l2Of f.connection.queue := by
          rw [hqueue]
          exact (List.filterMap_cons_none hl2).symm
        rw [List.append_nil]
        exact h.of_same h.built (hof ▸ h.complete) (fun xs hxs => by rw [hof]; exact hxs) rfl rfl
          (Or.inl rfl) (Or.inl rfl)
  | lag n =>
    simp only [L2Feed.step] at hstep
    split at hstep
    · cases hstep
      have hsuffix := l2Of_drop_suffix f.connection.queue n
      refine ⟨h.built, h.trail.suffix hsuffix, fun m hm => h.complete m (hsuffix.subset hm), ?_⟩
      rcases h.sent with hunserved | ⟨entry, height, levels, hserved⟩
      · refine Or.inl ⟨hunserved.book, hunserved.diff, ?_⟩
        rw [shown_append]
        exact hunserved.shown
      · refine Or.inr ⟨entry, height, levels, hserved.book, hserved.diff, ?_, ?_,
          List.mem_append_left _ hserved.compared, hserved.hash, hserved.payload,
          fun hforce => by cases hforce⟩
        · rw [shown_append]
          exact hserved.shown
        · rw [rebuilt_append]
          exact hserved.rebuilt
    · cases hstep
  | heartbeat now time =>
    simp only [L2Feed.step] at hstep
    rcases resend_cases f.connection now time with heq | ⟨entry, payload, hlast, hpayload, heq⟩
    · rw [heq] at hstep
      cases hstep
      rw [List.append_nil]
      exact h
    · rw [heq] at hstep
      cases hstep
      refine ⟨h.built, h.trail, h.complete, ?_⟩
      rcases h.sent with hunserved | ⟨entry', height, levels, hserved⟩
      · have hb := hunserved.book
        rw [hlast, Option.join_some] at hb
        cases hb
      · rw [hserved.book] at hlast
        cases hlast
        have hlevels : payload.levels = levels := hserved.payload payload hpayload
        refine Or.inr ⟨_, height, levels, rfl, hserved.diff, ?_, ?_,
          List.mem_append_left _ hserved.compared, hserved.hash, ?_, hserved.current⟩
        · rw [shown_append]
          exact congrArg some hlevels
        · rw [rebuilt_append]
          exact hserved.rebuilt
        · intro b hb
          cases hb
          exact hlevels

end Step

theorem TakenTogether.left {shape : L2SnapshotParams} {said said' : List L2Event}
    (h : TakenTogether shape (said ++ said')) : TakenTogether shape said :=
  fun m book diff hm => h m book diff (List.mem_append_left _ hm)

/-- The cache of a listener that was reached from the beginning is built. -/
theorem cacheBuilt_of_run {tx spot : Bool} {filter : MarketFilter} {ops : List IngestOp}
    {i : Ingest} {sent : List InternalMessage}
    (h : runSteps Ingest.step ops ⟨.new tx spot filter, none⟩ = some (i, sent)) :
    CacheBuilt i.listener :=
  Runs.invariant (P := fun i => CacheBuilt i.listener) (Q := fun _ => True)
    (fun _ _ _ _ _ hbuilt hstep => (Ingest.step_l2 hstep).cacheBuilt hbuilt)
    (cacheBuilt_new tx spot filter) (fun _ _ => trivial) h

/-- **The channel of differences agrees with the channel of whole books.**  However
the listener was reached and whatever it does, and whatever messages the connection
loses: if every message the connection takes finds both channels subscribed to or
neither, and if both then it was sent while their shape was wanted, then the book
put together from the differences is the last book that was sent. -/
theorem rebuilt_eq_shown {tx spot : Bool} {filter : MarketFilter} {ops : List IngestOp}
    {i : Ingest} {sent : List InternalMessage}
    (hreach : runSteps Ingest.step ops ⟨.new tx spot filter, none⟩ = some (i, sent))
    {subscription : L2Subscription} {univ : Std.ExtTreeSet Coin} {interval : Option ℕ}
    {es : List L2FeedOp} {f : L2Feed} {said : List L2Event}
    (hrun : runSteps L2Feed.step es ⟨i, .new subscription univ interval⟩ = some (f, said))
    (hkeeps : ∀ channel, .unsubscribe channel ∉ es)
    (htogether : TakenTogether subscription.shape said) (hfree : CollisionFree said)
    {levels : L2Levels} (hshown : shown said = some levels) :
    ∃ book, rebuilt said = some book ∧ book = .ofLevels levels ∧
      ((levels.bids.map Level.px).Nodup → (levels.asks.map Level.px).Nodup →
        book.Shows levels) := by
  have hrule := Runs.along (P := fun es said f => f.connection.subscription = subscription ∧
    ((∀ channel, .unsubscribe channel ∉ es) → TakenTogether subscription.shape said →
      CollisionFree said → Agrees f said)) ?_ ?_ hrun
  · rcases (hrule.2 hkeeps htogether hfree).sent with hunserved | ⟨entry, height, levels', hserved⟩
    · rw [hunserved.shown] at hshown
      cases hshown
    · rw [hserved.shown] at hshown
      cases hshown
      exact ⟨_, hserved.rebuilt, rfl, fun hbids hasks => ClientBook.shows_ofLevels hbids hasks⟩
  · intro es f₁ said₁ e f₂ said₂ _ hP hstep
    obtain ⟨hsub, hagrees⟩ := hP
    refine ⟨(subscription_step hstep).trans hsub, fun hkeeps htogether hfree => ?_⟩
    refine (hagrees (fun channel hmem => hkeeps channel (List.mem_append_left _ hmem))
      htogether.left hfree.left).step (fun channel he => ?_) hstep (hsub ▸ htogether) hfree
    exact hkeeps channel (by simp [he])
  · refine ⟨rfl, fun _ _ _ => ⟨cacheBuilt_of_run hreach, .nil _, nofun, Or.inl ⟨rfl, rfl, rfl⟩⟩⟩

end HlOrderbook

namespace HlOrderbook

section Example

attribute [local instance] SlabPolicy.latest FixedPoint.decimal LevelHash.polynomial

/-- Both channels are subscribed to, and the bid becomes smaller twice. -/
def smallerBid : List L2FeedOp :=
  [.subscribe .book, .subscribe .diff, .bidDiff 1001 (.update "1" "0.5"), .baseFlush 100,
    .receive 100, .bidDiff 1002 (.update "0.5" "0.25"), .baseFlush 200, .receive 200]

theorem rebuilt_eq_shown_smallerBid : ∃ i sent f said,
    runSteps Ingest.step L2FeedOp.oneBid ⟨.new true true ⟨true, true, true⟩, none⟩ =
      some (i, sent) ∧
    runSteps L2Feed.step smallerBid ⟨i, .new .btc i.listener.univ none⟩ = some (f, said) ∧
    ∃ book, rebuilt said = some book ∧ book.Shows ⟨[⟨"100", "0.25", 1⟩], []⟩ := by
  have hend : (runSteps Ingest.step L2FeedOp.oneBid
      ⟨.new true true ⟨true, true, true⟩, none⟩).map (fun r => (runSteps L2Feed.step smallerBid
        ⟨r.1, .new .btc r.1.listener.univ none⟩).map fun r =>
          (shown r.2, decide (TakenTogether .base r.2), decide (CollisionFree r.2))) =
      some (some (some ⟨[⟨"100", "0.25", 1⟩], []⟩, true, true)) := by decide +kernel
  obtain ⟨i, sent, hreach, hi⟩ := Runs.exists_of_map hend
  obtain ⟨f, said, hrun, hsaid⟩ := Runs.exists_of_map hi
  simp only [Prod.mk.injEq, decide_eq_true_eq] at hsaid
  have hkeeps : ∀ channel, .unsubscribe channel ∉ smallerBid := by
    intro channel
    simp [smallerBid, L2FeedOp.bidDiff, L2FeedOp.baseFlush]
  obtain ⟨book, hbook, -, hshows⟩ := rebuilt_eq_shown hreach hrun hkeeps hsaid.2.1 hsaid.2.2
    hsaid.1
  exact ⟨i, sent, f, said, hreach, hrun, book, hbook, hshows (by decide) (by decide)⟩

end Example

end HlOrderbook
