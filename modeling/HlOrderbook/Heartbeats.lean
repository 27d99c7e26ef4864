import HlOrderbook.CacheKeys
import HlOrderbook.Lib.Trail
import HlOrderbook.LiveSubscriptions

/-!
# Heartbeats

A connection may ask to be sent something of a book now and then although it does not change.  A
ticker looks at what was sent last of each subscription, and sends it again when that is too long
ago.

The times are those that are noted as the last a frame was sent at.  An event takes no time here,
so all that is sent at it is sent at once; in the source a send may wait for a place in the queue,
and a tick notes the time it began at.

## Main definitions

* `buildHeartbeatTicker` — how often the ticker goes off.
* `WsSession`, `WsSession.step` — the session of a connection, with its clock and its ticker.
* `WsConnection.Repeats` — what a heartbeat sends, and when.

## Main results

* `WsSession.heartbeats_repeat` — a heartbeat sends the last frame again, and not too soon.
* `WsSession.heartbeats_due` — no subscription is silent for long.
-/

set_option autoImplicit false
set_option linter.unusedSectionVars false

namespace HlOrderbook

/-! ## What is sent again -/

/-- What a heartbeat is about: the books that are noted under a key, or the best prices of a
coin. -/
inductive BeatKey where
  | l2 (key : String)
  | bbo (coin : Coin)
  deriving DecidableEq

/-- How long a subscription may be silent, where it is asked for. -/
def BeatKey.interval (l2Heartbeat bboHeartbeat : Option ℕ) : BeatKey → Option ℕ
  | .l2 _ => l2Heartbeat
  | .bbo _ => bboHeartbeat

def Subscription.beatKey : Subscription → Option BeatKey
  | .l2Book book => some (.l2 (l2CacheKey book))
  | .bbo coin => some (.bbo coin)
  | _ => none

namespace ServerResponse

/-- What a frame is about. -/
def beatKey : ServerResponse → Option BeatKey
  | .l2Book book => some (.l2 (l2CacheKey ⟨book.coin, book.nSigFigs, book.nLevels, book.mantissa⟩))
  | .bbo frame => some (.bbo frame.coin)
  | _ => none

/-- A frame with another time. -/
def withTime (time : ℕ) : ServerResponse → ServerResponse
  | .l2Book book => .l2Book { book with time }
  | .bbo frame => .bbo { frame with time }
  | response => response

theorem beatKey_withTime (time : ℕ) (response : ServerResponse) :
    (response.withTime time).beatKey = response.beatKey := by
  cases response <;> rfl

end ServerResponse

/-- The last frame about something. -/
def lastAbout (key : BeatKey) (said : List ServerResponse) : Option ServerResponse :=
  (said.filter fun m => m.beatKey = some key).getLast?

theorem lastAbout_append (key : BeatKey) (said said' : List ServerResponse) :
    lastAbout key (said ++ said') = (lastAbout key said').or (lastAbout key said) := by
  rw [lastAbout, List.filter_append, List.getLast?_append]
  rfl

/-- A frame, when it was sent, and whether a heartbeat sent it. -/
structure SentFrame where
  sent : ℕ
  beat : Bool
  response : ServerResponse

/-- The last frame about something, when it was sent. -/
def lastSent (key : BeatKey) (said : List SentFrame) : Option SentFrame :=
  (said.filter fun m => m.response.beatKey = some key).getLast?

theorem lastSent_append (key : BeatKey) (said said' : List SentFrame) :
    lastSent key (said ++ said') = (lastSent key said').or (lastSent key said) := by
  rw [lastSent, List.filter_append, List.getLast?_append]
  rfl

theorem lastSent_map (key : BeatKey) (sent : ℕ) (beat : Bool) (said : List ServerResponse) :
    lastSent key (said.map (SentFrame.mk sent beat)) =
      (lastAbout key said).map (SentFrame.mk sent beat) := by
  rw [lastSent, List.filter_map, List.getLast?_map]
  rfl

theorem beatKey_of_lastSent {key : BeatKey} {said : List SentFrame} {m : SentFrame}
    (h : lastSent key said = some m) : m.response.beatKey = some key := by
  have hmem := List.mem_of_getLast? h
  simpa using (List.mem_filter.mp hmem).2

theorem lastAbout_of_silent {said : List ServerResponse} (h : ∀ m ∈ said, m.beatKey = none)
    (key : BeatKey) : lastAbout key said = none := by
  have hnil : said.filter (fun m => m.beatKey = some key) = [] := by
    rw [List.filter_eq_nil_iff]
    intro m hm
    simp [h m hm]
  rw [lastAbout, hnil]
  rfl

def L2Entry.noted (entry : L2Entry) : ℕ × Option ServerResponse :=
  (entry.lastSent, entry.payload.map .l2Book)

def BboEntry.noted (entry : BboEntry) : ℕ × Option ServerResponse :=
  (entry.lastSent, entry.payload.map .bbo)

namespace WsConnection

/-- What is noted: when it was sent, and the frame if it is kept. -/
def noted (c : WsConnection) : BeatKey → Option (ℕ × Option ServerResponse)
  | .l2 key => c.lastL2[key]?.map L2Entry.noted
  | .bbo coin => c.lastBbo[coin]?.map BboEntry.noted

theorem noted_lastL2 (c : WsConnection) (key : String) (v : Option L2Entry) (k : BeatKey) :
    { c with lastL2 := note c.lastL2 key v }.noted k =
      if k = .l2 key then (v.or c.lastL2[key]?).map L2Entry.noted else c.noted k := by
  cases k with
  | l2 key' =>
    by_cases heq : key' = key
    · rw [heq, if_pos rfl, noted, getElem?_note_self]
    · rw [if_neg (by simpa using heq), noted, getElem?_note_of_ne heq, noted]
  | bbo coin => rfl

theorem noted_lastBbo (c : WsConnection) (coin : Coin) (v : Option BboEntry) (k : BeatKey) :
    { c with lastBbo := note c.lastBbo coin v }.noted k =
      if k = .bbo coin then (v.or c.lastBbo[coin]?).map BboEntry.noted else c.noted k := by
  cases k with
  | l2 key => rfl
  | bbo coin' =>
    by_cases heq : coin' = coin
    · rw [heq, if_pos rfl, noted, getElem?_note_self]
    · rw [if_neg (by simpa using heq), noted, getElem?_note_of_ne heq, noted]

/-- **What frames leave noted**: the time, and the frame if such are kept. -/
def Leaves (now : ℕ) (store : BeatKey → Bool) (c c' : WsConnection) (said : List ServerResponse) :
    Prop :=
  ∀ key, c'.noted key =
    ((lastAbout key said).map fun frame => (now, if store key then some frame else none)).or
      (c.noted key)

variable {now : ℕ} {store : BeatKey → Bool} {c c' c'' : WsConnection} {s : Subscription}
  {said said' : List ServerResponse}

theorem Leaves.trans (h : Leaves now store c c' said) (h' : Leaves now store c' c'' said') :
    Leaves now store c c'' (said ++ said') := by
  intro key
  rw [h' key, h key, lastAbout_append]
  cases lastAbout key said' <;> simp

/-- Frames about nothing, and notes that stay. -/
theorem Leaves.of_silent (hsaid : ∀ m ∈ said, m.beatKey = none)
    (hnoted : ∀ key, c'.noted key = c.noted key) : Leaves now store c c' said := by
  intro key
  rw [lastAbout_of_silent hsaid, hnoted key]
  rfl

/-- A frame that is noted. -/
theorem Leaves.of_frame {frame : ServerResponse} (key : BeatKey) (hkey : frame.beatKey = some key)
    (hnoted : c'.noted key = some (now, if store key then some frame else none))
    (hother : ∀ key', key' ≠ key → c'.noted key' = c.noted key') :
    Leaves now store c c' [frame] := by
  intro key'
  by_cases heq : key' = key
  · subst heq
    simp [lastAbout, hkey, hnoted]
  · have hne : ¬ key = key' := fun h => heq h.symm
    simp [lastAbout, hkey, hne, hother key' heq]

variable [FixedPoint] [LevelHash] [AddressParser]

/-- What is kept for the heartbeats. -/
def stores (storeL2 storeBbo : Bool) : BeatKey → Bool
  | .l2 _ => storeL2
  | .bbo _ => storeBbo

theorem sendWsDataFromSnapshot_cases (now : ℕ) (book : L2Subscription) (snapshot : L2Snapshots)
    (time : ℕ) (last : Option L2Entry) (dirty : Std.ExtTreeSet Coin) (forceFull store : Bool) :
    sendWsDataFromSnapshot now book snapshot time last dirty forceFull store = (last, none) ∨
      ∃ hash levels, sendWsDataFromSnapshot now book snapshot time last dirty forceFull store =
        (some ⟨hash, now,
            if store then
              some ⟨book.coin, time, book.nSigFigs, book.mantissa, some book.depth, levels⟩
            else none⟩,
          some ⟨book.coin, time, book.nSigFigs, book.mantissa, some book.depth, levels⟩) := by
  rw [sendWsDataFromSnapshot]
  split
  · exact Or.inl rfl
  · next levels _ =>
    simp only
    split
    · exact Or.inl rfl
    · exact Or.inr ⟨_, levels, rfl⟩

theorem sendWsDataFromBbo_cases (now : ℕ) (coin : Coin) (bbos : Std.ExtTreeMap Coin RawBbo)
    (time : ℕ) (last : Option BboEntry) (store : Bool) :
    sendWsDataFromBbo now coin bbos time last store = (last, none) ∨
      ∃ key frame, frame.coin = coin ∧ sendWsDataFromBbo now coin bbos time last store =
        (some ⟨key, now, if store then some frame else none⟩, some frame) := by
  rw [sendWsDataFromBbo]
  split
  · exact Or.inl rfl
  · simp only
    split
    · exact Or.inl rfl
    · exact Or.inr ⟨_, _, rfl, rfl⟩

theorem deliverTo_leaves (now : ℕ) (storeL2 storeBbo : Bool) (m : InternalMessage)
    (c : WsConnection) (s : Subscription) :
    Leaves now (stores storeL2 storeBbo) c (c.deliverTo now storeL2 storeBbo m s).1
      (c.deliverTo now storeL2 storeBbo m s).2 := by
  have hquiet : Leaves now (stores storeL2 storeBbo) c c [] :=
    .of_silent (fun m hm => absurd hm List.not_mem_nil) fun _ => rfl
  cases s with
  | l2Book book =>
    cases m with
    | snapshot snapshot previous time height dirty univ =>
      simp only [deliverTo]
      rcases sendWsDataFromSnapshot_cases now book snapshot time c.lastL2[l2CacheKey book]? dirty
        c.forceFullL2 storeL2 with heq | ⟨hash, levels, heq⟩
      · rw [heq]
        refine .of_silent (fun m hm => absurd hm List.not_mem_nil) fun key => ?_
        rw [noted_lastL2, Option.or_self]
        split
        · next hkey =>
          rw [hkey]
          rfl
        · rfl
      · rw [heq]
        refine .of_frame (.l2 (l2CacheKey book)) rfl ?_ fun key hkey => ?_
        · rw [noted_lastL2, if_pos rfl]
          cases storeL2 <;> rfl
        · rw [noted_lastL2, if_neg hkey]
    | _ => exact hquiet
  | bbo coin =>
    cases m with
    | bboUpdate bbos time =>
      simp only [deliverTo]
      rcases sendWsDataFromBbo_cases now coin bbos time c.lastBbo[coin]? storeBbo with
        heq | ⟨bboKey, frame, rfl, heq⟩
      · rw [heq]
        refine .of_silent (fun m hm => absurd hm List.not_mem_nil) fun key => ?_
        rw [noted_lastBbo, Option.or_self]
        split
        · next hkey =>
          rw [hkey]
          rfl
        · rfl
      · rw [heq]
        refine .of_frame (.bbo frame.coin) rfl ?_ fun key hkey => ?_
        · rw [noted_lastBbo, if_pos rfl]
          cases storeBbo <;> rfl
        · rw [noted_lastBbo, if_neg hkey]
    | _ => exact hquiet
  | l2Diff book =>
    cases m with
    | snapshot snapshot previous time height dirty univ =>
      refine .of_silent (fun m hm => ?_) fun key => by cases key <;> rfl
      obtain ⟨diff, -, rfl⟩ := by simpa [deliverTo] using hm
      rfl
    | _ => exact hquiet
  | trades coin =>
    cases m with
    | fills byCoin =>
      refine .of_silent (fun m hm => ?_) fun _ => rfl
      obtain ⟨trades, -, rfl⟩ := by simpa [deliverTo] using hm
      rfl
    | _ => exact hquiet
  | bookDiffs coin =>
    cases m with
    | l4OrderDiffs time height byCoin =>
      refine .of_silent (fun m hm => ?_) fun _ => rfl
      obtain ⟨diffs, -, rfl⟩ := by simpa [deliverTo] using hm
      rfl
    | _ => exact hquiet
  | l4Book coin =>
    cases m with
    | l4OrderDiffs time height byCoin =>
      refine .of_silent (fun m hm => ?_) fun _ => rfl
      obtain ⟨diffs, -, rfl⟩ := by simpa [deliverTo] using hm
      rfl
    | l4OrderStatuses time height byCoin =>
      refine .of_silent (fun m hm => ?_) fun _ => rfl
      obtain ⟨statuses, -, rfl⟩ := by simpa [deliverTo] using hm
      rfl
    | _ => exact hquiet
  | orderUpdates user =>
    cases m with
    | l4OrderStatuses time height byCoin =>
      simp only [deliverTo]
      split
      · exact hquiet
      · refine .of_silent (fun m hm => ?_) fun _ => rfl
        simp only at hm
        split at hm
        · cases hm
        · rw [List.mem_singleton.mp hm]
          rfl
    | _ => exact hquiet

theorem deliverAll_leaves (now : ℕ) (storeL2 storeBbo : Bool) (m : InternalMessage)
    (subs : List Subscription) (c : WsConnection) :
    Leaves now (stores storeL2 storeBbo) c (deliverAll now storeL2 storeBbo m subs c).1
      (deliverAll now storeL2 storeBbo m subs c).2 := by
  induction subs generalizing c with
  | nil => exact .of_silent (fun m hm => absurd hm List.not_mem_nil) fun _ => rfl
  | cons s subs ih => exact (deliverTo_leaves now storeL2 storeBbo m c s).trans (ih _)

/-- **A message** notes what it sends. -/
theorem deliver_leaves (now : ℕ) (storeL2 storeBbo : Bool) (m : InternalMessage)
    (c : WsConnection) :
    Leaves now (stores storeL2 storeBbo) c (c.deliver now storeL2 storeBbo m).1
      (c.deliver now storeL2 storeBbo m).2 := by
  cases m with
  | snapshot snapshot previous time height dirty univ =>
    intro key
    have hall := deliverAll_leaves now storeL2 storeBbo
      (.snapshot snapshot previous time height dirty univ) c.manager.subscriptions
      { c with univ := univ.getD c.univ } key
    cases key <;> exact hall
  | _ => exact deliverAll_leaves now storeL2 storeBbo _ _ _

/-! ## The heartbeat -/

/-- **What is noted** is when the last frame was sent, and that frame if it is kept. -/
def Kept (store : BeatKey → Bool) (said : List SentFrame) (c : WsConnection) : Prop :=
  ∀ key sent kept, c.noted key = some (sent, kept) → ∃ m, lastSent key said = some m ∧
    m.sent = sent ∧ kept = if store key then some m.response else none

theorem Kept.beatKey_eq {frames : List SentFrame} (h : Kept store frames c) {key : BeatKey}
    {sent : ℕ} {frame : ServerResponse} (hnoted : c.noted key = some (sent, some frame)) :
    frame.beatKey = some key := by
  obtain ⟨m, hlast, -, hkept⟩ := h key sent _ hnoted
  split at hkept
  · cases hkept
    exact beatKey_of_lastSent hlast
  · cases hkept

theorem Leaves.kept {frames : List SentFrame} (beat : Bool) (h : Leaves now store c c' said)
    (hkept : Kept store frames c) :
    Kept store (frames ++ said.map (SentFrame.mk now beat)) c' := by
  intro key sent kept hnoted
  rw [lastSent_append, lastSent_map]
  rw [h key] at hnoted
  cases hlast : lastAbout key said with
  | none =>
    rw [hlast] at hnoted
    exact hkept key sent kept hnoted
  | some frame =>
    rw [hlast] at hnoted
    cases hnoted
    exact ⟨⟨now, beat, frame⟩, rfl, rfl, rfl⟩

/-- **What a heartbeat does for one subscription**: nothing, or it sends again what is noted,
because that is too long ago. -/
inductive Beats (now time : ℕ) (l2Heartbeat bboHeartbeat : Option ℕ) (c c' : WsConnection)
    (s : Subscription) : List ServerResponse → Prop where
  | quiet (heq : c' = c) (hrecent : ∀ key interval sent frame, s.beatKey = some key →
      key.interval l2Heartbeat bboHeartbeat = some interval →
      c.noted key = some (sent, some frame) → now < sent + interval) :
      Beats now time l2Heartbeat bboHeartbeat c c' s []
  | beat {key : BeatKey} {interval sent : ℕ} (frame : ServerResponse)
      (hkey : s.beatKey = some key)
      (hinterval : key.interval l2Heartbeat bboHeartbeat = some interval)
      (hnoted : c.noted key = some (sent, some frame)) (hlate : sent + interval ≤ now)
      (hleaves : Leaves now (stores l2Heartbeat.isSome bboHeartbeat.isSome) c c'
        [frame.withTime time]) :
      Beats now time l2Heartbeat bboHeartbeat c c' s [frame.withTime time]

theorem heartbeatTo_beats {l2Heartbeat bboHeartbeat : Option ℕ}
    (hkey : ∀ key sent frame, c.noted key = some (sent, some frame) → frame.beatKey = some key)
    (hpos : ∀ key : BeatKey, ∀ interval ∈ key.interval l2Heartbeat bboHeartbeat, 0 < interval)
    (now time : ℕ) (s : Subscription) :
    Beats now time l2Heartbeat bboHeartbeat c
      (c.heartbeatTo now time l2Heartbeat bboHeartbeat s).1 s
      (c.heartbeatTo now time l2Heartbeat bboHeartbeat s).2 := by
  cases s with
  | l2Book book =>
    simp only [heartbeatTo]
    cases hinterval : l2Heartbeat with
    | none => exact .quiet rfl fun key interval sent frame hkey hint => by cases hkey; cases hint
    | some interval =>
      cases hentry : c.lastL2[l2CacheKey book]? with
      | none =>
        refine .quiet rfl fun key interval sent frame hkey hint hnoted => ?_
        cases hkey
        simp [noted, hentry] at hnoted
      | some entry =>
        obtain ⟨hash, lastSent, payload⟩ := entry
        cases payload with
        | none =>
          refine .quiet rfl fun key interval sent frame hkey hint hnoted => ?_
          cases hkey
          simp [noted, hentry, L2Entry.noted] at hnoted
        | some payload =>
          have hnoted : c.noted (.l2 (l2CacheKey book)) =
              some (lastSent, some (.l2Book payload)) := by
            simp [noted, hentry, L2Entry.noted]
          have hbeat := hkey _ _ _ hnoted
          have hinterval := hpos (.l2 (l2CacheKey book)) interval (by rw [hinterval]; rfl)
          by_cases hlate : interval ≤ now - lastSent
          · simp only [if_pos hlate]
            refine .beat (.l2Book payload) rfl rfl hnoted (by omega) ?_
            refine .of_frame (.l2 (l2CacheKey book)) hbeat ?_ fun key hkey => ?_
            · exact (noted_lastL2 c _ (some _) _).trans (if_pos rfl)
            · exact (noted_lastL2 c _ (some _) _).trans (if_neg hkey)
          · simp only [if_neg hlate]
            refine .quiet rfl fun key interval sent frame hkey hint hnoted' => ?_
            cases hkey
            cases hint
            rw [hnoted] at hnoted'
            cases hnoted'
            omega
  | bbo coin =>
    simp only [heartbeatTo]
    cases hinterval : bboHeartbeat with
    | none => exact .quiet rfl fun key interval sent frame hkey hint => by cases hkey; cases hint
    | some interval =>
      cases hentry : c.lastBbo[coin]? with
      | none =>
        refine .quiet rfl fun key interval sent frame hkey hint hnoted => ?_
        cases hkey
        simp [noted, hentry] at hnoted
      | some entry =>
        obtain ⟨tuple, lastSent, payload⟩ := entry
        cases payload with
        | none =>
          refine .quiet rfl fun key interval sent frame hkey hint hnoted => ?_
          cases hkey
          simp [noted, hentry, BboEntry.noted] at hnoted
        | some payload =>
          have hnoted : c.noted (.bbo coin) = some (lastSent, some (.bbo payload)) := by
            simp [noted, hentry, BboEntry.noted]
          have hbeat := hkey _ _ _ hnoted
          have hinterval := hpos (.bbo coin) interval (by rw [hinterval]; rfl)
          by_cases hlate : interval ≤ now - lastSent
          · simp only [if_pos hlate]
            refine .beat (.bbo payload) rfl rfl hnoted (by omega) ?_
            refine .of_frame (.bbo coin) hbeat ?_ fun key hkey => ?_
            · exact (noted_lastBbo c _ (some _) _).trans (if_pos rfl)
            · exact (noted_lastBbo c _ (some _) _).trans (if_neg hkey)
          · simp only [if_neg hlate]
            refine .quiet rfl fun key interval sent frame hkey hint hnoted' => ?_
            cases hkey
            cases hint
            rw [hnoted] at hnoted'
            cases hnoted'
            omega
  | _ => exact .quiet rfl fun key interval sent frame hkey => by cases hkey

/-- **What a heartbeat sends**: the last frame again, with another time, and not too soon. -/
def Repeats (l2Heartbeat bboHeartbeat : Option ℕ) (before : List SentFrame) (m : SentFrame) :
    Prop :=
  m.beat = true → ∃ key m' interval time, lastSent key before = some m' ∧
    key.interval l2Heartbeat bboHeartbeat = some interval ∧ m'.sent + interval ≤ m.sent ∧
    m.response = m'.response.withTime time

/-- What is noted of a subscription is recent. -/
def Fresh (now : ℕ) (l2Heartbeat bboHeartbeat : Option ℕ) (c : WsConnection) (key : BeatKey) :
    Prop :=
  ∀ interval sent kept, key.interval l2Heartbeat bboHeartbeat = some interval →
    c.noted key = some (sent, kept) → now < sent + interval

/-- What a heartbeat for some subscriptions does. -/
structure AllBeat (now : ℕ) (l2Heartbeat bboHeartbeat : Option ℕ) (subs : List Subscription)
    (frames : List SentFrame) (c c' : WsConnection) (said : List ServerResponse) : Prop where
  leaves : Leaves now (stores l2Heartbeat.isSome bboHeartbeat.isSome) c c' said
  repeats : SaidAfter (fun before => Repeats l2Heartbeat bboHeartbeat (frames ++ before))
    (said.map (SentFrame.mk now true))
  fresh : ∀ s ∈ subs, ∀ key ∈ s.beatKey, Fresh now l2Heartbeat bboHeartbeat c' key

theorem stores_of_interval {l2Heartbeat bboHeartbeat : Option ℕ} {key : BeatKey} {interval : ℕ}
    (h : key.interval l2Heartbeat bboHeartbeat = some interval) :
    stores l2Heartbeat.isSome bboHeartbeat.isSome key = true := by
  cases key <;> exact Option.isSome_iff_exists.mpr ⟨interval, h⟩

/-- What is recent stays so. -/
theorem Leaves.fresh {l2Heartbeat bboHeartbeat : Option ℕ} {key : BeatKey}
    (h : Leaves now store c c' said)
    (hpos : ∀ key : BeatKey, ∀ interval ∈ key.interval l2Heartbeat bboHeartbeat, 0 < interval)
    (hfresh : Fresh now l2Heartbeat bboHeartbeat c key) :
    Fresh now l2Heartbeat bboHeartbeat c' key := by
  intro interval sent kept hint hnoted
  rw [h key] at hnoted
  cases hlast : lastAbout key said with
  | none =>
    rw [hlast] at hnoted
    exact hfresh interval sent kept hint hnoted
  | some frame =>
    rw [hlast] at hnoted
    cases hnoted
    have hinterval := hpos key interval hint
    omega

/-- **One subscription** is looked at. -/
theorem heartbeatTo_allBeat {l2Heartbeat bboHeartbeat : Option ℕ} {frames : List SentFrame}
    (hpos : ∀ key : BeatKey, ∀ interval ∈ key.interval l2Heartbeat bboHeartbeat, 0 < interval)
    (hkept : Kept (stores l2Heartbeat.isSome bboHeartbeat.isSome) frames c) (now time : ℕ)
    (s : Subscription) :
    AllBeat now l2Heartbeat bboHeartbeat [s] frames c
      (c.heartbeatTo now time l2Heartbeat bboHeartbeat s).1
      (c.heartbeatTo now time l2Heartbeat bboHeartbeat s).2 := by
  have hbeats := heartbeatTo_beats (fun _ _ _ => hkept.beatKey_eq) hpos now time s
  generalize c.heartbeatTo now time l2Heartbeat bboHeartbeat s = r at hbeats
  obtain ⟨c', said⟩ := r
  cases hbeats with
  | quiet heq hrecent =>
    subst heq
    refine ⟨.of_silent (fun m hm => absurd hm List.not_mem_nil) fun _ => rfl, .nil, ?_⟩
    intro s' hs' key hkey interval sent kept hint hnoted
    rw [List.mem_singleton.mp hs'] at hkey
    obtain ⟨m, -, -, rfl⟩ := hkept key sent kept hnoted
    rw [if_pos (stores_of_interval hint)] at hnoted
    exact hrecent key interval sent _ hkey hint hnoted
  | @beat key interval sent frame hkey hint hnoted hlate hleaves =>
    refine ⟨hleaves, .singleton fun _ => ?_, ?_⟩
    · obtain ⟨m, hlast, hsent, hframe⟩ := hkept key sent _ hnoted
      rw [if_pos (stores_of_interval hint), Option.some.injEq] at hframe
      refine ⟨key, m, interval, time, ?_, hint, ?_, ?_⟩
      · rw [List.append_nil, hlast]
      · rw [hsent]
        exact hlate
      · rw [hframe]
    · intro s' hs' key' hkey' interval' sent' kept hint' hnoted'
      rw [List.mem_singleton.mp hs', hkey] at hkey'
      cases hkey'
      have hlast : lastAbout key [frame.withTime time] = some (frame.withTime time) := by
        simp [lastAbout, ServerResponse.beatKey_withTime, hkept.beatKey_eq hnoted]
      rw [hleaves key, hlast] at hnoted'
      cases hnoted'
      have hinterval := hpos key interval' hint'
      omega

/-- **After a heartbeat** nothing is due, and what was sent repeats what came last. -/
theorem heartbeatAll_allBeat {l2Heartbeat bboHeartbeat : Option ℕ}
    (hpos : ∀ key : BeatKey, ∀ interval ∈ key.interval l2Heartbeat bboHeartbeat, 0 < interval)
    (now time : ℕ) (subs : List Subscription) {frames : List SentFrame}
    (hkept : Kept (stores l2Heartbeat.isSome bboHeartbeat.isSome) frames c) :
    AllBeat now l2Heartbeat bboHeartbeat subs frames c
      (heartbeatAll now time l2Heartbeat bboHeartbeat subs c).1
      (heartbeatAll now time l2Heartbeat bboHeartbeat subs c).2 := by
  induction subs generalizing c frames with
  | nil =>
    refine ⟨.of_silent (fun m hm => absurd hm List.not_mem_nil) fun _ => rfl, .nil, ?_⟩
    exact fun s hs => absurd hs List.not_mem_nil
  | cons s subs ih =>
    have hhead := heartbeatTo_allBeat hpos hkept now time s
    have htail := ih (hhead.leaves.kept true hkept)
    simp only [heartbeatAll]
    refine ⟨hhead.leaves.trans htail.leaves, ?_, ?_⟩
    · rw [List.map_append]
      refine hhead.repeats.append ?_
      simpa only [List.append_assoc] using htail.repeats
    · intro s' hs' key hkey
      rcases List.mem_cons.mp hs' with rfl | hs'
      · exact htail.leaves.fresh hpos (hhead.fresh s' List.mem_cons_self key hkey)
      · exact htail.fresh s' hs' key hkey

/-! ## Requests -/

/-- What a request leaves noted: all, or all but what it ends. -/
structure Forgets (c c' : WsConnection) (ended : BeatKey → Prop) (said : List ServerResponse) :
    Prop where
  silent : ∀ m ∈ said, m.beatKey = none
  keeps : ∀ key, c'.noted key = c.noted key ∨ c'.noted key = none ∧ ended key

theorem Forgets.of_same {ended : BeatKey → Prop} (hsilent : ∀ m ∈ said, m.beatKey = none)
    (hl2 : c'.lastL2 = c.lastL2) (hbbo : c'.lastBbo = c.lastBbo) : Forgets c c' ended said := by
  refine ⟨hsilent, fun key => Or.inl ?_⟩
  cases key with
  | l2 key => rw [noted, noted, hl2]
  | bbo coin => rw [noted, noted, hbbo]

theorem Forgets.kept {ended : BeatKey → Prop} {frames : List SentFrame} (beat : Bool)
    (h : Forgets c c' ended said) (hkept : Kept store frames c) :
    Kept store (frames ++ said.map (SentFrame.mk now beat)) c' := by
  intro key sent kept hnoted
  rcases h.keeps key with heq | ⟨heq, -⟩
  · have hleaves : Leaves now store c c said := .of_silent h.silent fun _ => rfl
    rw [heq] at hnoted
    exact hleaves.kept beat hkept key sent kept hnoted
  · rw [heq] at hnoted
    cases hnoted

/-- Guards are no notes. -/
theorem SameButGuards.noted {c c' : WsConnection} (h : SameButGuards c c') (key : BeatKey) :
    c'.noted key = c.noted key := by
  cases key with
  | l2 key => simp only [WsConnection.noted, h.lastL2]
  | bbo coin => simp only [WsConnection.noted, h.lastBbo]

/-- What is noted of a subscription that ends is dropped. -/
theorem endSubscription_keeps (a : ActiveGuards) (c : WsConnection) (s : Subscription)
    (key : BeatKey) : (c.endSubscription a s).2.noted key = c.noted key ∨
      (c.endSubscription a s).2.noted key = none ∧ s.beatKey = some key := by
  rw [(endSubscription_frame a c s).noted key]
  cases s with
  | l2Book book =>
    cases key with
    | l2 key =>
      by_cases heq : l2CacheKey book = key
      · refine Or.inr ⟨?_, by rw [← heq]; rfl⟩
        simp [forget, noted, heq]
      · refine Or.inl ?_
        simp [forget, noted, Std.ExtTreeMap.getElem?_erase, heq]
    | bbo coin => exact Or.inl rfl
  | bbo coin =>
    cases key with
    | l2 key => exact Or.inl rfl
    | bbo coin' =>
      by_cases heq : coin = coin'
      · refine Or.inr ⟨?_, by rw [heq]; rfl⟩
        simp [forget, noted, heq]
      · refine Or.inl ?_
        simp [forget, noted, Std.ExtTreeMap.getElem?_erase, heq]
  | l2Diff book | trades coin | l4Book coin | orderUpdates user | bookDiffs coin =>
    exact Or.inl (by cases key <;> rfl)

/-- **A request** ends what it says it ends. -/
theorem receiveClientMessage_forgets (bboOnly : Bool) (a : ActiveGuards) (c : WsConnection)
    (message : ClientMessage) :
    Forgets c (c.receiveClientMessage bboOnly a message).2.1
      (fun key => ∃ s, message = .unsubscribe s ∧ s.beatKey = some key)
      (c.receiveClientMessage bboOnly a message).2.2 := by
  simp only [receiveClientMessage]
  split
  · exact .of_same (by simp [ServerResponse.beatKey]) rfl rfl
  · split
    · exact .of_same (by simp [ServerResponse.beatKey]) rfl rfl
    · cases message with
      | subscribe s =>
        simp only
        split
        · exact .of_same (by simp [ServerResponse.beatKey]) rfl rfl
        · exact .of_same (by simp [ServerResponse.beatKey]) rfl rfl
        · next manager _ =>
          have hframe := beginSubscription_frame a { c with manager } s
          cases s with
          | l4Book coin => exact .of_same (by simp) hframe.lastL2 hframe.lastBbo
          | _ => exact .of_same (by simp [ServerResponse.beatKey]) hframe.lastL2 hframe.lastBbo
      | unsubscribe s =>
        simp only
        split
        · refine ⟨by simp [ServerResponse.beatKey], fun key => ?_⟩
          refine (endSubscription_keeps a { c with manager := (c.manager.unsubscribe s).1 } s
            key).imp id fun h => ⟨h.1, s, rfl, h.2⟩
        · exact .of_same (by simp [ServerResponse.beatKey]) rfl rfl

theorem endSnapshot_forgets (a : ActiveGuards) (c : WsConnection) (s : Subscription)
    (result : Except String L4Snapshot) (ended : BeatKey → Prop) :
    Forgets c (c.endSnapshot a s result).2.1 ended (c.endSnapshot a s result).2.2 := by
  cases result with
  | ok book => exact .of_same (by simp [endSnapshot, ServerResponse.beatKey]) rfl rfl
  | error error => exact .of_same (by simp [endSnapshot, ServerResponse.beatKey]) rfl rfl

end WsConnection

/-! ## The ticker -/

/-- When the ticker goes off next, from its period, when it was due and when it did go off.  What
is missed is skipped. -/
class TickPolicy where
  next : ℕ → ℕ → ℕ → ℕ
  next_le : ∀ {period due now}, due ≤ now → next period due now ≤ now + period

/-- The next multiple of the period that is not over. -/
@[reducible] def TickPolicy.skip : TickPolicy where
  next period due now := now + period - (now - due) % period
  next_le := by
    intro period due now hdue
    omega

/-- How often the ticker goes off: twice in the shorter of the intervals, but within bounds. -/
def buildHeartbeatTicker (l2bookHeartbeatMs bboHeartbeatMs : ℕ) : Option ℕ :=
  ([l2bookHeartbeatMs, bboHeartbeatMs].filter (0 < ·)).min?.map fun enabled =>
    min (max (enabled / 2) 50) 500

/-- An interval, if it is asked for. -/
def heartbeatInterval (ms : ℕ) : Option ℕ := if 0 < ms then some ms else none

structure Ticker where
  period : ℕ
  due : ℕ
  deriving DecidableEq

/-- The session of a connection: its settings, its clock and its ticker. -/
structure WsSession where
  bboOnly : Bool
  l2Heartbeat : Option ℕ
  bboHeartbeat : Option ℕ
  connection : WsConnection
  now : ℕ
  ticker : Option Ticker

/-- What happens in a session.  The guards that are out come from outside. -/
inductive SessionOp where
  | elapse (ms : ℕ)
  | deliver (m : InternalMessage)
  | lag
  | request (a : ActiveGuards) (message : ClientMessage)
  | snapshot (a : ActiveGuards) (result : Except String L4Snapshot)
  | tick (time : ℕ)

namespace WsSession

open WsConnection

/-- A session that begins; its ticker is due at once. -/
def new (bboOnly : Bool) (l2bookHeartbeatMs bboHeartbeatMs : ℕ) (univ : Std.ExtTreeSet Coin) :
    WsSession where
  bboOnly := bboOnly
  l2Heartbeat := heartbeatInterval l2bookHeartbeatMs
  bboHeartbeat := heartbeatInterval bboHeartbeatMs
  connection := .new univ
  now := 0
  ticker := (buildHeartbeatTicker l2bookHeartbeatMs bboHeartbeatMs).map fun period => ⟨period, 0⟩

/-- The connection, when it waits for nothing. -/
def idle (w : WsSession) : Option WsConnection :=
  if w.connection.pending.isNone then some w.connection else none

/-- Frames that no heartbeat sends. -/
def sentNow (w : WsSession) (said : List ServerResponse) : List SentFrame :=
  said.map (SentFrame.mk w.now false)

variable [FixedPoint] [LevelHash] [AddressParser] [TickPolicy]

/-- One event, which takes no time; `none` when it cannot happen now. -/
def step (w : WsSession) : SessionOp → Option (WsSession × List SentFrame)
  | .elapse ms => some ({ w with now := w.now + ms }, [])
  | .deliver m =>
    w.idle.map fun c =>
      let (c, said) := c.deliver w.now w.l2Heartbeat.isSome w.bboHeartbeat.isSome m
      ({ w with connection := c }, w.sentNow said)
  | .lag => w.idle.map fun c => ({ w with connection := { c with forceFullL2 := true } }, [])
  | .request a message =>
    w.idle.map fun c =>
      let (_, c, said) := c.receiveClientMessage w.bboOnly a message
      ({ w with connection := c }, w.sentNow said)
  | .snapshot a result =>
    w.connection.pending.map fun s =>
      let (_, c, said) := w.connection.endSnapshot a s result
      ({ w with connection := c }, w.sentNow said)
  | .tick time =>
    w.idle.bind fun c => w.ticker.bind fun ticker =>
      if ticker.due ≤ w.now then
        let (c, said) := WsConnection.heartbeatAll w.now time w.l2Heartbeat w.bboHeartbeat
          c.manager.subscriptions c
        some ({ w with
          connection := c
          ticker := some { ticker with due := TickPolicy.next ticker.period ticker.due w.now } },
          said.map (SentFrame.mk w.now true))
      else none

/-! ## Runs -/

/-- A request that ends what is about a key. -/
def Ends (e : SessionOp) (key : BeatKey) : Prop :=
  ∃ a s, e = .request a (.unsubscribe s) ∧ s.beatKey = some key

/-- **What holds of a session**: what it notes is what it sent last, and when the ticker is due
next that is not too long ago. -/
structure Beating (l2Heartbeat bboHeartbeat : Option ℕ) (frames : List SentFrame) (w : WsSession) :
    Prop where
  l2Heartbeat_eq : w.l2Heartbeat = l2Heartbeat
  bboHeartbeat_eq : w.bboHeartbeat = bboHeartbeat
  pos : ∀ key : BeatKey, ∀ interval ∈ key.interval l2Heartbeat bboHeartbeat, 0 < interval
  sound : w.connection.Sound
  kept : Kept (stores l2Heartbeat.isSome bboHeartbeat.isSome) frames w.connection
  period : ∀ key : BeatKey, ∀ interval ∈ key.interval l2Heartbeat bboHeartbeat,
    ∃ t ∈ w.ticker, t.period ≤ max (interval / 2) 50
  due : ∀ t ∈ w.ticker, t.due ≤ w.now + t.period
  recent : ∀ key interval sent kept, key.interval l2Heartbeat bboHeartbeat = some interval →
    w.connection.noted key = some (sent, kept) → ∀ t ∈ w.ticker, t.due < sent + interval + t.period

variable {l2Heartbeat bboHeartbeat : Option ℕ} {frames said said' : List SentFrame}
  {w w' : WsSession} {e : SessionOp}

/-- What a step does to the notes. -/
def Affects (store : BeatKey → Bool) (now : ℕ) (ends : BeatKey → Prop) (c c' : WsConnection)
    (said : List ServerResponse) : Prop :=
  Leaves now store c c' said ∨ Forgets c c' ends said

theorem Beating.next (h : Beating l2Heartbeat bboHeartbeat frames w) {c' : WsConnection}
    (beat : Bool) {ends : BeatKey → Prop} {said : List ServerResponse} (hsound : c'.Sound)
    (haffects : Affects (stores l2Heartbeat.isSome bboHeartbeat.isSome) w.now ends w.connection c'
      said) :
    Beating l2Heartbeat bboHeartbeat (frames ++ said.map (SentFrame.mk w.now beat))
      { w with connection := c' } := by
  refine { h with sound := hsound, kept := ?_, recent := ?_ }
  · exact haffects.elim (fun h' => h'.kept beat h.kept) fun h' => h'.kept beat h.kept
  · intro key interval sent kept hint hnoted t ht
    have hold : c'.noted key = w.connection.noted key → t.due < sent + interval + t.period :=
      fun heq => h.recent key interval sent kept hint (heq ▸ hnoted) t ht
    rcases haffects with h' | h'
    · have hkey := h' key
      cases hlast : lastAbout key said with
      | none =>
        rw [hlast] at hkey
        exact hold hkey
      | some frame =>
        rw [hlast, hnoted] at hkey
        cases hkey
        have hinterval := h.pos key interval hint
        have hdue := h.due t ht
        omega
    · rcases h'.keeps key with heq | ⟨heq, -⟩
      · exact hold heq
      · rw [hnoted] at heq
        cases heq

/-- The ticker went off. -/
theorem Beating.restart (h : Beating l2Heartbeat bboHeartbeat frames w) {t : Ticker}
    (ht : t ∈ w.ticker) (hdue : t.due ≤ w.now)
    (hfresh : ∀ key, Fresh w.now l2Heartbeat bboHeartbeat w.connection key) :
    Beating l2Heartbeat bboHeartbeat frames
      { w with ticker := some { t with due := TickPolicy.next t.period t.due w.now } } := by
  have hnext : TickPolicy.next t.period t.due w.now ≤ w.now + t.period := TickPolicy.next_le hdue
  refine { h with period := ?_, due := ?_, recent := ?_ }
  · intro key interval hint
    obtain ⟨t', ht', hperiod⟩ := h.period key interval hint
    cases Option.mem_unique ht ht'
    exact ⟨_, rfl, hperiod⟩
  · intro t' ht'
    cases ht'
    exact hnext
  · intro key interval sent kept hint hnoted t' ht'
    cases ht'
    have hsent := hfresh key interval sent kept hint hnoted
    simp only
    omega

theorem saidAfter_of_unbeaten (said : List ServerResponse) (now : ℕ) :
    SaidAfter (fun before => Repeats l2Heartbeat bboHeartbeat (frames ++ before))
      (said.map (SentFrame.mk now false)) := by
  intro before m after heq hbeat
  have hm : m ∈ said.map (SentFrame.mk now false) := by simp [heq]
  obtain ⟨response, -, rfl⟩ := List.mem_map.mp hm
  cases hbeat

/-- What is noted is about a subscription. -/
theorem exists_of_noted {c : WsConnection} (h : c.Sound) {key : BeatKey} {v}
    (hnoted : c.noted key = some v) : ∃ s ∈ c.manager.subscriptions, s.beatKey = some key := by
  cases key with
  | l2 key =>
    obtain ⟨entry, hentry, -⟩ := Option.map_eq_some_iff.mp hnoted
    have hkey : key ∈ c.lastL2 := Std.ExtTreeMap.mem_iff_isSome_getElem?.mpr (by simp [hentry])
    obtain ⟨book, hbook, rfl⟩ := h.lastL2 key hkey
    exact ⟨_, hbook, rfl⟩
  | bbo coin =>
    obtain ⟨entry, hentry, -⟩ := Option.map_eq_some_iff.mp hnoted
    have hkey : coin ∈ c.lastBbo := Std.ExtTreeMap.mem_iff_isSome_getElem?.mpr (by simp [hentry])
    exact ⟨_, h.lastBbo coin hkey, rfl⟩

/-- What a step says, and what it does to the notes. -/
structure Steps (l2Heartbeat bboHeartbeat : Option ℕ) (frames : List SentFrame) (w : WsSession)
    (e : SessionOp) (w' : WsSession) (said : List SentFrame) : Prop where
  beating : Beating l2Heartbeat bboHeartbeat (frames ++ said) w'
  repeats : SaidAfter (fun before => Repeats l2Heartbeat bboHeartbeat (frames ++ before)) said
  affects : ∃ beat responses, said = responses.map (SentFrame.mk w.now beat) ∧
    Affects (stores l2Heartbeat.isSome bboHeartbeat.isSome) w.now (Ends e) w.connection
      w'.connection responses

theorem Beating.of_unbeaten (h : Beating l2Heartbeat bboHeartbeat frames w) {c' : WsConnection}
    (responses : List ServerResponse) (hsound : c'.Sound)
    (haffects : Affects (stores l2Heartbeat.isSome bboHeartbeat.isSome) w.now (Ends e)
      w.connection c' responses) :
    Steps l2Heartbeat bboHeartbeat frames w e { w with connection := c' } (w.sentNow responses) :=
  ⟨h.next false hsound haffects, saidAfter_of_unbeaten responses w.now, false, responses, rfl,
    haffects⟩

theorem idle_eq_some {c : WsConnection} : w.idle = some c ↔
    w.connection.pending = none ∧ w.connection = c := by
  rw [idle]
  split
  · next hnone => simp [Option.isNone_iff_eq_none.mp hnone]
  · next hsome =>
    simp only [Option.isNone_iff_eq_none] at hsome
    simp [hsome]

/-- **The step lemma.** -/
theorem Beating.step (h : Beating l2Heartbeat bboHeartbeat frames w)
    (hstep : w.step e = some (w', said)) :
    Steps l2Heartbeat bboHeartbeat frames w e w' said := by
  obtain rfl := h.l2Heartbeat_eq
  obtain rfl := h.bboHeartbeat_eq
  cases e with
  | elapse ms =>
    cases hstep
    have hsilent : Leaves w.now (stores w.l2Heartbeat.isSome w.bboHeartbeat.isSome) w.connection
        w.connection [] := .of_silent (fun m hm => absurd hm List.not_mem_nil) fun _ => rfl
    refine ⟨?_, .nil, false, [], rfl, Or.inl hsilent⟩
    rw [List.append_nil]
    exact { h with due := fun t ht => (h.due t ht).trans (by simp) }
  | deliver m =>
    obtain ⟨c, hidle, heq⟩ := Option.map_eq_some_iff.mp hstep
    obtain ⟨-, rfl⟩ := idle_eq_some.mp hidle
    cases heq
    have hnotes := deliver_notes w.connection w.now w.l2Heartbeat.isSome w.bboHeartbeat.isSome m
    exact h.of_unbeaten _ (hnotes.becomes h.sound .empty).sound (Or.inl (deliver_leaves _ _ _ _ _))
  | lag =>
    obtain ⟨c, hidle, heq⟩ := Option.map_eq_some_iff.mp hstep
    obtain ⟨-, rfl⟩ := idle_eq_some.mp hidle
    cases heq
    exact h.of_unbeaten [] { h.sound with }
      (Or.inr (.of_same (fun m hm => absurd hm List.not_mem_nil) rfl rfl))
  | request a message =>
    obtain ⟨c, hidle, heq⟩ := Option.map_eq_some_iff.mp hstep
    obtain ⟨-, rfl⟩ := idle_eq_some.mp hidle
    cases heq
    refine h.of_unbeaten _ (h.sound.receiveClientMessage w.bboOnly a message).sound (Or.inr ?_)
    have hforgets := receiveClientMessage_forgets w.bboOnly a w.connection message
    refine ⟨hforgets.silent, fun key => (hforgets.keeps key).imp id fun hkey => ⟨hkey.1, ?_⟩⟩
    obtain ⟨s, rfl, hs⟩ := hkey.2
    exact ⟨a, s, rfl, hs⟩
  | snapshot a result =>
    obtain ⟨s, hs, heq⟩ := Option.map_eq_some_iff.mp hstep
    cases heq
    exact h.of_unbeaten _ (h.sound.endSnapshot a hs result).sound
      (Or.inr (endSnapshot_forgets a w.connection s result _))
  | tick time =>
    obtain ⟨c, hidle, hstep⟩ := Option.bind_eq_some_iff.mp hstep
    obtain ⟨-, rfl⟩ := idle_eq_some.mp hidle
    obtain ⟨t, ht, hstep⟩ := Option.bind_eq_some_iff.mp hstep
    split at hstep
    · next hdue =>
      cases hstep
      have hall := heartbeatAll_allBeat h.pos w.now time w.connection.manager.subscriptions h.kept
      have hnotes := heartbeatAll_notes (c := w.connection) (fun _ hs => hs) w.now time
        w.l2Heartbeat w.bboHeartbeat
      have hsound := (hnotes.becomes h.sound .empty).sound
      have haffects : Affects _ w.now (Ends (.tick time)) w.connection _ _ := Or.inl hall.leaves
      have hnext := h.next true hsound haffects
      refine ⟨hnext.restart ht hdue fun key interval sent kept hint hnoted => ?_, hall.repeats,
        true, _, rfl, haffects⟩
      obtain ⟨s, hs, hkey⟩ := exists_of_noted hsound hnoted
      obtain ⟨_, _, _, _, _, heq⟩ := hnotes.eq
      rw [heq] at hs
      exact hall.fresh s hs key hkey interval sent kept hint hnoted
    · cases hstep

/-! ### The ticker that is built -/

theorem pos_of_heartbeatInterval {ms interval : ℕ} (h : heartbeatInterval ms = some interval) :
    0 < interval ∧ ms = interval := by
  rw [heartbeatInterval] at h
  split at h
  · next hpos =>
    cases h
    exact ⟨hpos, rfl⟩
  · cases h

/-- **The ticker goes off often enough** for each interval. -/
theorem buildHeartbeatTicker_le {l2 bbo interval : ℕ} {key : BeatKey}
    (h : key.interval (heartbeatInterval l2) (heartbeatInterval bbo) = some interval) :
    ∃ period, buildHeartbeatTicker l2 bbo = some period ∧ period ≤ max (interval / 2) 50 := by
  have hmem : interval ∈ [l2, bbo].filter (0 < ·) := by
    cases key <;> simp only [BeatKey.interval] at h <;>
      obtain ⟨hpos, rfl⟩ := pos_of_heartbeatInterval h <;> simp [hpos]
  cases hmin : ([l2, bbo].filter (0 < ·)).min? with
  | none => simp [List.min?_eq_none_iff.mp hmin] at hmem
  | some enabled =>
    refine ⟨_, by rw [buildHeartbeatTicker, hmin]; rfl, ?_⟩
    have hle := (List.min?_eq_some_iff.mp hmin).2 interval hmem
    have hhalf : enabled / 2 ≤ interval / 2 := Nat.div_le_div_right hle
    simp only
    omega

theorem Beating.new (bboOnly : Bool) (l2 bbo : ℕ) (univ : Std.ExtTreeSet Coin) :
    Beating (heartbeatInterval l2) (heartbeatInterval bbo) [] (.new bboOnly l2 bbo univ) where
  l2Heartbeat_eq := rfl
  bboHeartbeat_eq := rfl
  pos key interval hint := by
    cases key <;> exact (pos_of_heartbeatInterval hint).1
  sound := .new univ
  kept key sent kept hnoted := by
    cases key <;> simp [WsSession.new, WsConnection.new, noted] at hnoted
  period key interval hint := by
    obtain ⟨period, hbuild, hle⟩ := buildHeartbeatTicker_le hint
    exact ⟨⟨period, 0⟩, by simp [WsSession.new, hbuild], hle⟩
  due t ht := by
    obtain ⟨period, -, rfl⟩ := Option.map_eq_some_iff.mp ht
    exact Nat.zero_le _
  recent key interval sent kept hint hnoted := by
    cases key <;> simp [WsSession.new, WsConnection.new, noted] at hnoted

variable {bboOnly : Bool} {l2 bbo : ℕ} {univ : Std.ExtTreeSet Coin} {es es' : List SessionOp}

theorem beating_run (hrun : runSteps step es (.new bboOnly l2 bbo univ) = some (w, said)) :
    Beating (heartbeatInterval l2) (heartbeatInterval bbo) said w ∧
      SaidAfter (Repeats (heartbeatInterval l2) (heartbeatInterval bbo)) said := by
  refine Runs.along (P := fun _ said w =>
    Beating (heartbeatInterval l2) (heartbeatInterval bbo) said w ∧
      SaidAfter (Repeats (heartbeatInterval l2) (heartbeatInterval bbo)) said) ?_
    ⟨.new bboOnly l2 bbo univ, .nil⟩ hrun
  intro es w₁ said₁ e w₂ said₂ _ h hstep
  have hsteps := h.1.step hstep
  exact ⟨hsteps.beating, h.2.append hsteps.repeats⟩

/-- **A heartbeat** sends the last frame of its kind again, with the time it is now, and not
before its interval is over. -/
theorem heartbeats_repeat
    (hrun : runSteps step es (.new bboOnly l2 bbo univ) = some (w, said)) :
    SaidAfter (Repeats (heartbeatInterval l2) (heartbeatInterval bbo)) said :=
  (beating_run hrun).2

/-- What is sent stays noted until it is ended. -/
theorem noted_run {key : BeatKey} (h : Beating l2Heartbeat bboHeartbeat frames w)
    (hrun : runSteps step es w = some (w', said)) (hends : ∀ e ∈ es, ¬ Ends e key)
    {m : SentFrame} (hlast : lastSent key said = some m) :
    ∃ kept, w'.connection.noted key = some (m.sent, kept) := by
  have hall : Beating l2Heartbeat bboHeartbeat (frames ++ said) w' ∧ ((∀ e ∈ es, ¬ Ends e key) →
      ∀ m, lastSent key said = some m → ∃ kept, w'.connection.noted key = some (m.sent, kept)) := by
    refine Runs.along (P := fun es said w' =>
      Beating l2Heartbeat bboHeartbeat (frames ++ said) w' ∧ ((∀ e ∈ es, ¬ Ends e key) →
        ∀ m, lastSent key said = some m → ∃ kept, w'.connection.noted key = some (m.sent, kept)))
      ?_ ⟨by rwa [List.append_nil], fun _ m hm => by simp [lastSent] at hm⟩ hrun
    intro es w₁ said₁ e w₂ said₂ _ hold hstep
    have hsteps := hold.1.step hstep
    refine ⟨by simpa only [List.append_assoc] using hsteps.beating, fun hends m hm => ?_⟩
    obtain ⟨beat, responses, rfl, haffects⟩ := hsteps.affects
    have hends₁ : ∀ e ∈ es, ¬ Ends e key := fun e he => hends e (List.mem_append_left _ he)
    rw [lastSent_append, lastSent_map] at hm
    rcases haffects with hleaves | hforgets
    · have hkey := hleaves key
      cases hresponse : lastAbout key responses with
      | none =>
        rw [hresponse] at hm hkey
        obtain ⟨kept, hkept⟩ := hold.2 hends₁ m hm
        exact ⟨kept, hkey.trans hkept⟩
      | some frame =>
        rw [hresponse] at hm hkey
        cases hm
        exact ⟨_, hkey⟩
    · rw [lastAbout_of_silent hforgets.silent] at hm
      obtain ⟨kept, hkept⟩ := hold.2 hends₁ m hm
      rcases hforgets.keeps key with heq | ⟨-, hended⟩
      · exact ⟨kept, heq.trans hkept⟩
      · exact absurd hended (hends e (by simp))
  exact hall.2 hends m hlast

/-- **No subscription is silent for long.**  Something was sent of it, and it was not ended
since: then its interval is over by half of it at most, or by 50 ms, and by what the ticker itself
is late. -/
theorem heartbeats_due {key : BeatKey} {interval late : ℕ} {m : SentFrame}
    (hrun : runSteps step es (.new bboOnly l2 bbo univ) = some (w, said))
    (hrun' : runSteps step es' w = some (w', said'))
    (hends : ∀ e ∈ es', ¬ Ends e key) (hlast : lastSent key said' = some m)
    (hint : key.interval (heartbeatInterval l2) (heartbeatInterval bbo) = some interval)
    (hlate : ∀ t ∈ w'.ticker, w'.now ≤ t.due + late) :
    w'.now < m.sent + interval + max (interval / 2) 50 + late := by
  have hbeating := (beating_run hrun).1
  obtain ⟨kept, hnoted⟩ := noted_run hbeating hrun' hends hlast
  have hbeating' := (beating_run (Runs.append_eq_some.mpr ⟨w, said, said', hrun, hrun', rfl⟩)).1
  obtain ⟨t, ht, hperiod⟩ := hbeating'.period key interval hint
  have hdue := hbeating'.recent key interval m.sent kept hint hnoted t ht
  have hnow := hlate t ht
  omega

end WsSession

end HlOrderbook

namespace HlOrderbook

section Example

open WsConnection WsSession

attribute [local instance] FixedPoint.decimal LevelHash.polynomial AddressParser.hexadecimal
  TickPolicy.skip

/-- The session of a connection that is subscribed to the best prices of a coin, and wants them
every second. -/
def subscribedOps : List SessionOp :=
  [.tick 7, .request .empty (.subscribe (.bbo "BTC"))]

/-- The prices do not change for three seconds and a half. -/
def quietOps : List SessionOp :=
  [.elapse 200, .deliver (.bboUpdate (.ofList [("BTC", (some (100, 5, 1), none))]) 3), .elapse 300,
    .tick 8, .elapse 500, .tick 9, .elapse 520, .tick 10, .elapse 480, .tick 11, .elapse 500]

theorem quietOps_run : ∃ w said w' said',
    runSteps step subscribedOps (.new false 0 1000 (.ofList ["BTC"])) = some (w, said) ∧
      runSteps step quietOps w = some (w', said') ∧
      (lastSent (.bbo "BTC") said').map (fun m => (m.sent, m.beat)) = some (1520, true) ∧
      w'.now = 2500 ∧ w'.ticker = some ⟨500, 2500⟩ := by
  have hrun : (runSteps step subscribedOps (.new false 0 1000 (.ofList ["BTC"]))).bind (fun r =>
      (runSteps step quietOps r.1).map fun r' =>
        ((lastSent (.bbo "BTC") r'.2).map fun m => (m.sent, m.beat), r'.1.now, r'.1.ticker)) =
      some (some (1520, true), 2500, some ⟨500, 2500⟩) := by
    decide +kernel
  obtain ⟨⟨w, said⟩, hw, hmap⟩ := Option.bind_eq_some_iff.mp hrun
  obtain ⟨⟨w', said'⟩, hw', heq⟩ := Option.map_eq_some_iff.mp hmap
  simp only [Prod.mk.injEq] at heq
  exact ⟨w, said, w', said', hw, hw', heq.1, heq.2.1, heq.2.2⟩

theorem heartbeats_repeat_quiet : ∃ w said,
    runSteps step (subscribedOps ++ quietOps) (.new false 0 1000 (.ofList ["BTC"])) =
      some (w, said) ∧ SaidAfter (Repeats none (some 1000)) said := by
  obtain ⟨w, said, w', said', hrun, hrun', -⟩ := quietOps_run
  have hboth := Runs.append_eq_some.mpr ⟨w, said, said', hrun, hrun', rfl⟩
  exact ⟨w', said ++ said', hboth, heartbeats_repeat hboth⟩

theorem heartbeats_due_quiet : ∃ w said w' said' m,
    runSteps step subscribedOps (.new false 0 1000 (.ofList ["BTC"])) = some (w, said) ∧
      runSteps step quietOps w = some (w', said') ∧ lastSent (.bbo "BTC") said' = some m ∧
      m.sent = 1520 ∧ w'.now < m.sent + 1000 + 500 := by
  obtain ⟨w, said, w', said', hrun, hrun', hlast, hnow, hticker⟩ := quietOps_run
  obtain ⟨m, hm, hsent⟩ := Option.map_eq_some_iff.mp hlast
  have hends : ∀ e ∈ quietOps, ¬ Ends e (.bbo "BTC") := by
    intro e he hends
    obtain ⟨a, s, rfl, -⟩ := hends
    simp [quietOps] at he
  have hlate : ∀ t ∈ w'.ticker, w'.now ≤ t.due + 0 := by
    intro t ht
    rw [hticker] at ht
    cases ht
    exact hnow.le
  exact ⟨w, said, w', said', m, hrun, hrun', hm, (Prod.mk.inj hsent).1,
    heartbeats_due hrun hrun' hends hm rfl hlate⟩

end Example

end HlOrderbook
