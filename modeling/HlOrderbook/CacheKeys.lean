import HlOrderbook.Lib.InTurn
import HlOrderbook.LiveSubscriptions

/-!
# The keys of the notes

What a connection remembers of the frames of an aggregated book is kept under a text,
made of the name of the coin and three numbers.  Read from its end, the text gives the
numbers and the name back, whatever the name is; and the numbers that stand for absent
parameters are not accepted as parameters.  So each subscription of a connection is
served as if it were the only one.

## Main definitions

* `WsConnection.remembered` — what is noted for a subscription.
* `WsConnection.ServedApart` — each subscription is served by its own notes.
-/

set_option autoImplicit false
set_option linter.unusedSectionVars false

namespace HlOrderbook

/-! ## Texts -/

/-- The last separator is found from the end. -/
theorem append_sep_inj {α : Type} {sep : α} {a a' b b' : List α} (hb : sep ∉ b) (hb' : sep ∉ b') :
    a ++ sep :: b = a' ++ sep :: b' ↔ a = a' ∧ b = b' := by
  constructor
  · intro h
    rcases List.append_eq_append_iff.mp h with ⟨c, hc, hrest⟩ | ⟨c, hc, hrest⟩
    · cases c with
      | nil =>
        rw [List.append_nil] at hc
        exact ⟨hc.symm, (List.cons.inj hrest).2⟩
      | cons x c =>
        have : sep ∈ b := (List.cons.inj hrest).2 ▸ List.mem_append_right c List.mem_cons_self
        exact absurd this hb
    · cases c with
      | nil =>
        rw [List.append_nil] at hc
        exact ⟨hc, (List.cons.inj hrest).2.symm⟩
      | cons x c =>
        have : sep ∈ b' := (List.cons.inj hrest).2 ▸ List.mem_append_right c List.mem_cons_self
        exact absurd this hb'
  · rintro ⟨rfl, rfl⟩
    rfl

/-- A numeral has no colon. -/
theorem colon_notMem_toDigits (n : ℕ) : ':' ∉ Nat.toDigits 10 n := by
  intro h
  have := Nat.isDigit_of_mem_toDigits (by decide) (by decide) h
  exact absurd this (by decide)

/-- A numeral gives its number back. -/
theorem toDigits_inj {n n' : ℕ} (h : Nat.toDigits 10 n = Nat.toDigits 10 n') : n = n' := by
  have := congrArg (Nat.ofDigitChars 10 · 0) h
  simpa using this

/-- An absent parameter is told apart from those that are not its default. -/
theorem getD_inj {α : Type} {d : α} {o o' : Option α} (h : o ≠ some d) (h' : o' ≠ some d)
    (heq : o.getD d = o'.getD d) : o = o' := by
  cases o with
  | none =>
    cases o' with
    | none => rfl
    | some x => exact absurd (congrArg some heq).symm h'
  | some x =>
    cases o' with
    | none => exact absurd (congrArg some heq) h
    | some x' => exact congrArg some heq

theorem toList_l2CacheKey (s : L2Subscription) :
    (l2CacheKey s).toList =
      ((s.coin.toList ++ ':' :: Nat.toDigits 10 (s.nSigFigs.getD 0)) ++
        ':' :: Nat.toDigits 10 (s.mantissa.getD 0)) ++
        ':' :: Nat.toDigits 10 (s.nLevels.getD defaultLevels) := by
  simp [l2CacheKey]

/-! ## Accepted parameters -/

/-- The numbers that stand for absent parameters are not accepted. -/
theorem L2Subscription.given_of_validate {s : L2Subscription} {univ : Std.ExtTreeSet Coin}
    (h : s.validate univ = true) :
    s.nSigFigs ≠ some 0 ∧ s.mantissa ≠ some 0 ∧ s.nLevels ≠ some defaultLevels := by
  refine ⟨fun hn => ?_, fun hm => ?_, fun hl => ?_⟩
  · simp [validate, hn] at h
  · cases hn : s.nSigFigs with
    | none => simp [validate, hn, hm] at h
    | some n => simp [validate, hn, hm] at h
  · simp [validate, hl] at h

/-- Accepted subscriptions of one key ask for the same book. -/
theorem eq_of_l2CacheKey_eq {s s' : L2Subscription} {univ univ' : Std.ExtTreeSet Coin}
    (h : s.validate univ = true) (h' : s'.validate univ' = true)
    (hkey : l2CacheKey s = l2CacheKey s') : s = s' := by
  have htext := congrArg String.toList hkey
  rw [toList_l2CacheKey, toList_l2CacheKey,
    append_sep_inj (colon_notMem_toDigits _) (colon_notMem_toDigits _),
    append_sep_inj (colon_notMem_toDigits _) (colon_notMem_toDigits _),
    append_sep_inj (colon_notMem_toDigits _) (colon_notMem_toDigits _)] at htext
  obtain ⟨⟨⟨hcoin, hn⟩, hm⟩, hl⟩ := htext
  obtain ⟨hn₁, hm₁, hl₁⟩ := L2Subscription.given_of_validate h
  obtain ⟨hn₂, hm₂, hl₂⟩ := L2Subscription.given_of_validate h'
  cases s
  cases s'
  rw [L2Subscription.mk.injEq]
  exact ⟨String.toList_inj.mp hcoin, getD_inj hn₁ hn₂ (toDigits_inj hn),
    getD_inj hl₁ hl₂ (toDigits_inj hl), getD_inj hm₁ hm₂ (toDigits_inj hm)⟩

/-- A subscription is accepted in some universe. -/
def Subscription.Accepted (s : Subscription) : Prop := ∃ univ, s.validate univ = true

/-! ## What is remembered -/

namespace WsConnection

variable {c c' : WsConnection} {s s' : Subscription}

/-- What is noted for a subscription: of a book, of its changes, of the best prices. -/
def remembered (c : WsConnection) : Subscription → Option L2Entry × Option ℕ × Option BboEntry
  | .l2Book book => (c.lastL2[l2CacheKey book]?, none, none)
  | .l2Diff book => (none, c.lastL2Diff[l2CacheKey book]?, none)
  | .bbo coin => (none, none, c.lastBbo[coin]?)
  | _ => (none, none, none)

/-- The notes of books change under one key. -/
theorem remembered_lastL2 {book : L2Subscription} {l2 : Std.ExtTreeMap String L2Entry}
    (hl2 : ∀ key, key ≠ l2CacheKey book → l2[key]? = c.lastL2[key]?) (hs : s.Accepted)
    (hbook : (Subscription.l2Book book).Accepted) (hne : s ≠ .l2Book book) :
    { c with lastL2 := l2 }.remembered s = c.remembered s := by
  cases s with
  | l2Book book' =>
    obtain ⟨univ, hvalid⟩ := hs
    obtain ⟨univ', hvalid'⟩ := hbook
    have hkey : l2CacheKey book' ≠ l2CacheKey book := fun heq =>
      hne (congrArg _ (eq_of_l2CacheKey_eq hvalid hvalid' heq))
    simp only [remembered, hl2 _ hkey]
  | _ => rfl

/-- The heights change under one key. -/
theorem remembered_lastL2Diff {book : L2Subscription} {diff : Std.ExtTreeMap String ℕ}
    (hdiff : ∀ key, key ≠ l2CacheKey book → diff[key]? = c.lastL2Diff[key]?) (hs : s.Accepted)
    (hbook : (Subscription.l2Diff book).Accepted) (hne : s ≠ .l2Diff book) :
    { c with lastL2Diff := diff }.remembered s = c.remembered s := by
  cases s with
  | l2Diff book' =>
    obtain ⟨univ, hvalid⟩ := hs
    obtain ⟨univ', hvalid'⟩ := hbook
    have hkey : l2CacheKey book' ≠ l2CacheKey book := fun heq =>
      hne (congrArg _ (eq_of_l2CacheKey_eq hvalid hvalid' heq))
    simp only [remembered, hdiff _ hkey]
  | _ => rfl

/-- The best prices change for one coin. -/
theorem remembered_lastBbo {coin : Coin} {bbo : Std.ExtTreeMap String BboEntry}
    (hbbo : ∀ key, key ≠ coin → bbo[key]? = c.lastBbo[key]?) (hne : s ≠ .bbo coin) :
    { c with lastBbo := bbo }.remembered s = c.remembered s := by
  cases s with
  | bbo coin' =>
    have hcoin : coin' ≠ coin := fun heq => hne (congrArg _ heq)
    simp only [remembered, hbbo _ hcoin]
  | _ => rfl

theorem getElem?_note_of_ne {V : Type} {notes : Std.ExtTreeMap String V} {key key' : String}
    {v : Option V} (h : key' ≠ key) : (note notes key v)[key']? = notes[key']? := by
  cases v with
  | none => rfl
  | some v =>
    rw [note, Std.ExtTreeMap.getElem?_insert, if_neg]
    exact fun heq => h (Std.LawfulEqCmp.eq_of_compare heq).symm

theorem getElem?_note_self {V : Type} (notes : Std.ExtTreeMap String V) (key : String)
    (v : Option V) : (note notes key v)[key]? = v.or notes[key]? := by
  cases v with
  | none => rfl
  | some v => rw [note, Std.ExtTreeMap.getElem?_insert_self, Option.some_or]

theorem getElem?_erase_of_ne {V : Type} {notes : Std.ExtTreeMap String V} {key key' : String}
    (h : key' ≠ key) : (notes.erase key)[key']? = notes[key']? := by
  rw [Std.ExtTreeMap.getElem?_erase, if_neg]
  exact fun heq => h (Std.LawfulEqCmp.eq_of_compare heq).symm

/-! ## One subscription -/

/-- Guards are no notes. -/
theorem SameButGuards.remembered {c' : WsConnection} (h : SameButGuards c c') (s : Subscription) :
    c'.remembered s = c.remembered s := by
  cases s with
  | l2Book book => simp only [WsConnection.remembered, h.lastL2]
  | l2Diff book => simp only [WsConnection.remembered, h.lastL2Diff]
  | bbo coin => simp only [WsConnection.remembered, h.lastBbo]
  | _ => rfl

/-- A subscription that ends takes its own notes only. -/
theorem endSubscription_remembered (a : ActiveGuards) (hs : s.Accepted) (hs' : s'.Accepted)
    (hne : s ≠ s') : (c.endSubscription a s').2.remembered s = c.remembered s := by
  rw [(endSubscription_frame a c s').remembered s]
  cases s' with
  | l2Book book =>
    exact remembered_lastL2 (fun key hkey => getElem?_erase_of_ne hkey) hs hs' hne
  | l2Diff book =>
    exact remembered_lastL2Diff (fun key hkey => getElem?_erase_of_ne hkey) hs hs' hne
  | bbo coin => exact remembered_lastBbo (fun key hkey => getElem?_erase_of_ne hkey) hne
  | _ => rfl

variable [FixedPoint] [LevelHash] [AddressParser]

/-- What is kept for a subscription. -/
def kept (c : WsConnection) (s : Subscription) :
    (Option L2Entry × Option ℕ × Option BboEntry) × Bool := (c.remembered s, c.forceFullL2)

/-- **A message is for one subscription at a time.** -/
theorem deliverTo_apart (now : ℕ) (storeL2 storeBbo : Bool) (m : InternalMessage) :
    Apart (fun c s => c.deliverTo now storeL2 storeBbo m s) kept Subscription.Accepted := by
  refine ⟨fun c s s' hs hs' hne => ?_, fun c c' s hsame => ?_⟩
  · cases s' with
    | l2Book book =>
      cases m with
      | snapshot snapshot previous time height dirty univ =>
        exact congrArg (·, c.forceFullL2)
          (remembered_lastL2 (fun key hkey => getElem?_note_of_ne hkey) hs hs' hne)
      | _ => rfl
    | l2Diff book =>
      cases m with
      | snapshot snapshot previous time height dirty univ =>
        exact congrArg (·, c.forceFullL2)
          (remembered_lastL2Diff (fun key hkey => getElem?_note_of_ne hkey) hs hs' hne)
      | _ => rfl
    | bbo coin =>
      cases m with
      | bboUpdate bbos time =>
        exact congrArg (·, c.forceFullL2)
          (remembered_lastBbo (fun key hkey => getElem?_note_of_ne hkey) hne)
      | _ => rfl
    | trades coin => cases m <;> rfl
    | bookDiffs coin => cases m <;> rfl
    | l4Book coin => cases m <;> rfl
    | orderUpdates user =>
      cases m with
      | l4OrderStatuses time height byCoin =>
        simp only [deliverTo]
        split <;> rfl
      | _ => rfl
  · obtain ⟨hsame, hforce⟩ := Prod.mk.inj hsame
    cases s with
    | l2Book book =>
      have hnote : c.lastL2[l2CacheKey book]? = c'.lastL2[l2CacheKey book]? :=
        (Prod.mk.inj hsame).1
      cases m with
      | snapshot snapshot previous time height dirty univ =>
        simp only [deliverTo, kept, remembered, getElem?_note_self, hnote, hforce]
        exact ⟨trivial, trivial⟩
      | _ => exact ⟨rfl, Prod.ext hsame hforce⟩
    | l2Diff book =>
      have hnote : c.lastL2Diff[l2CacheKey book]? = c'.lastL2Diff[l2CacheKey book]? :=
        (Prod.mk.inj (Prod.mk.inj hsame).2).1
      cases m with
      | snapshot snapshot previous time height dirty univ =>
        simp only [deliverTo, kept, remembered, getElem?_note_self, hnote, hforce]
        exact ⟨trivial, trivial⟩
      | _ => exact ⟨rfl, Prod.ext hsame hforce⟩
    | bbo coin =>
      have hnote : c.lastBbo[coin]? = c'.lastBbo[coin]? := (Prod.mk.inj (Prod.mk.inj hsame).2).2
      cases m with
      | bboUpdate bbos time =>
        simp only [deliverTo, kept, remembered, getElem?_note_self, hnote, hforce]
        exact ⟨trivial, trivial⟩
      | _ => exact ⟨rfl, Prod.ext hsame hforce⟩
    | trades coin => cases m <;> exact ⟨rfl, Prod.ext hsame hforce⟩
    | bookDiffs coin => cases m <;> exact ⟨rfl, Prod.ext hsame hforce⟩
    | l4Book coin => cases m <;> exact ⟨rfl, Prod.ext hsame hforce⟩
    | orderUpdates user =>
      cases m with
      | l4OrderStatuses time height byCoin =>
        simp only [deliverTo]
        split <;> exact ⟨rfl, Prod.ext hsame hforce⟩
      | _ => exact ⟨rfl, Prod.ext hsame hforce⟩

/-- **A heartbeat is for one subscription at a time.** -/
theorem heartbeatTo_apart (now time : ℕ) (l2Heartbeat bboHeartbeat : Option ℕ) :
    Apart (fun c s => c.heartbeatTo now time l2Heartbeat bboHeartbeat s) remembered
      Subscription.Accepted := by
  refine ⟨fun c s s' hs hs' hne => ?_, fun c c' s hsame => ?_⟩
  · cases s' with
    | l2Book book =>
      simp only [heartbeatTo]
      split
      · split
        · split
          · exact remembered_lastL2 (fun key hkey => getElem?_note_of_ne (v := some _) hkey) hs hs'
              hne
          · rfl
        · rfl
      · rfl
    | bbo coin =>
      simp only [heartbeatTo]
      split
      · split
        · split
          · exact remembered_lastBbo (fun key hkey => getElem?_note_of_ne (v := some _) hkey) hne
          · rfl
        · rfl
      · rfl
    | _ => rfl
  · cases s with
    | l2Book book =>
      have hnote : c.lastL2[l2CacheKey book]? = c'.lastL2[l2CacheKey book]? :=
        (Prod.mk.inj hsame).1
      simp only [heartbeatTo, hnote]
      split
      · split
        · split
          · refine ⟨rfl, ?_⟩
            simp only [remembered, Std.ExtTreeMap.getElem?_insert_self]
          · exact ⟨rfl, hsame⟩
        · exact ⟨rfl, hsame⟩
      · exact ⟨rfl, hsame⟩
    | bbo coin =>
      have hnote : c.lastBbo[coin]? = c'.lastBbo[coin]? := (Prod.mk.inj (Prod.mk.inj hsame).2).2
      simp only [heartbeatTo, hnote]
      split
      · split
        · split
          · refine ⟨rfl, ?_⟩
            simp only [remembered, Std.ExtTreeMap.getElem?_insert_self]
          · exact ⟨rfl, hsame⟩
        · exact ⟨rfl, hsame⟩
      · exact ⟨rfl, hsame⟩
    | _ => exact ⟨rfl, hsame⟩

/-! ## All subscriptions -/

theorem deliverAll_eq_inTurn (now : ℕ) (storeL2 storeBbo : Bool) (m : InternalMessage)
    (subs : List Subscription) (c : WsConnection) :
    deliverAll now storeL2 storeBbo m subs c =
      inTurn (fun c s => c.deliverTo now storeL2 storeBbo m s) subs c := by
  induction subs generalizing c with
  | nil => rfl
  | cons s subs ih => simp only [deliverAll, inTurn, ih]

theorem heartbeatAll_eq_inTurn (now time : ℕ) (l2Heartbeat bboHeartbeat : Option ℕ)
    (subs : List Subscription) (c : WsConnection) :
    heartbeatAll now time l2Heartbeat bboHeartbeat subs c =
      inTurn (fun c s => c.heartbeatTo now time l2Heartbeat bboHeartbeat s) subs c := by
  induction subs generalizing c with
  | nil => rfl
  | cons s subs ih => simp only [heartbeatAll, inTurn, ih]

/-- Each subscription of a connection is served by its own notes: a message, and a
heartbeat, say what they would say to each alone, and leave the notes that they would
leave; and a subscription that ends leaves those of the others. -/
structure ServedApart (c : WsConnection) : Prop where
  deliver : ∀ now storeL2 storeBbo m,
    (deliverAll now storeL2 storeBbo m c.manager.subscriptions c).2 =
      c.manager.subscriptions.flatMap (fun s => (c.deliverTo now storeL2 storeBbo m s).2) ∧
    ∀ s ∈ c.manager.subscriptions,
      (deliverAll now storeL2 storeBbo m c.manager.subscriptions c).1.remembered s =
        (c.deliverTo now storeL2 storeBbo m s).1.remembered s
  heartbeat : ∀ now time l2Heartbeat bboHeartbeat,
    (heartbeatAll now time l2Heartbeat bboHeartbeat c.manager.subscriptions c).2 =
      c.manager.subscriptions.flatMap
        (fun s => (c.heartbeatTo now time l2Heartbeat bboHeartbeat s).2) ∧
    ∀ s ∈ c.manager.subscriptions,
      (heartbeatAll now time l2Heartbeat bboHeartbeat c.manager.subscriptions c).1.remembered s =
        (c.heartbeatTo now time l2Heartbeat bboHeartbeat s).1.remembered s
  ended : ∀ a, ∀ s ∈ c.manager.subscriptions, ∀ s' ∈ c.manager.subscriptions, s ≠ s' →
    (c.endSubscription a s').2.remembered s = c.remembered s

/-- **Accepted subscriptions are served apart.** -/
theorem servedApart_of_accepted (h : ∀ s ∈ c.manager.subscriptions, s.Accepted) :
    c.ServedApart := by
  refine ⟨fun now storeL2 storeBbo m => ?_, fun now time l2Heartbeat bboHeartbeat => ?_,
    fun a s hs s' hs' hne => endSubscription_remembered a (h s hs) (h s' hs') hne⟩
  · rw [deliverAll_eq_inTurn]
    obtain ⟨hsaid, hkept⟩ :=
      (deliverTo_apart now storeL2 storeBbo m).inTurn_eq h c.manager.nodup c
    exact ⟨hsaid, fun s hs => congrArg Prod.fst (hkept s hs)⟩
  · rw [heartbeatAll_eq_inTurn]
    exact (heartbeatTo_apart now time l2Heartbeat bboHeartbeat).inTurn_eq h c.manager.nodup c

/-! ## What is accepted -/

/-- A connection has a subscription, or waits for its first book. -/
def Wanted (c : WsConnection) (s : Subscription) : Prop :=
  s ∈ c.manager.subscriptions ∨ c.pending = some s

/-- A subscription may be asked for. -/
def Allows (c : WsConnection) (bboOnly : Bool) (s : Subscription) : Prop :=
  s.validate c.univ = true ∧ (bboOnly = true → s.isBbo = true)

/-- **A request** makes a connection want what it asks for at most. -/
theorem wanted_receiveClientMessage {bboOnly : Bool} {a : ActiveGuards} {message : ClientMessage}
    (h : (c.receiveClientMessage bboOnly a message).2.1.Wanted s) :
    c.Wanted s ∨ message = .subscribe s ∧ c.Allows bboOnly s := by
  simp only [receiveClientMessage] at h
  by_cases hmode : (bboOnly && !message.subscription.isBbo) = true
  · rw [if_pos hmode] at h
    exact Or.inl h
  · rw [if_neg hmode] at h
    by_cases hvalid : (!message.subscription.validate c.univ) = true
    · rw [if_pos hvalid] at h
      exact Or.inl h
    · rw [if_neg hvalid] at h
      cases message with
      | subscribe s' =>
        have hallows : c.Allows bboOnly s' := by
          refine ⟨by simpa [ClientMessage.subscription] using hvalid, fun hbbo => ?_⟩
          simpa [hbbo, ClientMessage.subscription] using hmode
        simp only at h
        split at h
        · exact Or.inl h
        · exact Or.inl h
        · rename_i manager hsubscribe
          -- what is new is the subscription that was asked for
          have hnew : s ∈ manager.subscriptions → s ∈ c.manager.subscriptions ∨ s = s' := by
            rw [subscribe_eq_some hsubscribe, List.mem_cons]
            exact Or.symm
          split at h
          · simp only [Wanted, (beginSubscription_frame _ _ _).manager, Option.some.injEq] at h
            rcases h with hmem | rfl
            · rcases hnew hmem with hold | rfl
              · exact Or.inl (Or.inl hold)
              · exact Or.inr ⟨rfl, hallows⟩
            · exact Or.inr ⟨rfl, hallows⟩
          · simp only [Wanted, (beginSubscription_frame _ _ _).manager,
              (beginSubscription_frame _ _ _).pending] at h
            rcases h with hmem | hpending
            · rcases hnew hmem with hold | rfl
              · exact Or.inl (Or.inl hold)
              · exact Or.inr ⟨rfl, hallows⟩
            · exact Or.inl (Or.inr hpending)
      | unsubscribe s' =>
        simp only at h
        split at h
        · simp only [Wanted, (endSubscription_frame _ _ _).manager,
            (endSubscription_frame _ _ _).pending, forget_manager, forget_pending] at h
          exact Or.inl (h.imp_left fun hmem => (List.mem_filter.mp hmem).1)
        · exact Or.inl h

theorem wanted_endSnapshot {a : ActiveGuards} {s' : Subscription}
    {result : Except String L4Snapshot} (h : (c.endSnapshot a s' result).2.1.Wanted s) :
    c.Wanted s := by
  cases result with
  | ok book => exact Or.inl (h.resolve_right nofun)
  | error error => exact Or.inl (List.mem_filter.mp (h.resolve_right nofun)).1

/-- What notes are like has no part in what is wanted. -/
theorem Notes.wanted_iff (hnotes : Notes c c') : c'.Wanted s ↔ c.Wanted s := by
  obtain ⟨_, _, _, _, _, rfl⟩ := hnotes.eq
  exact Iff.rfl

end WsConnection

/-! ## All connections -/

/-- Where a connection stands among the others after an event; `none` when it is closed. -/
def WsOp.moves (k : ℕ) : WsOp → Option ℕ
  | .disconnect j => if j = k then none else if j < k then some (k - 1) else some k
  | _ => some k

theorem WsOp.moves_inj {op : WsOp} {k₁ k₂ k : ℕ} (h₁ : op.moves k₁ = some k)
    (h₂ : op.moves k₂ = some k) : k₁ = k₂ := by
  cases op with
  | disconnect j =>
    simp only [moves] at h₁ h₂
    grind
  | _ => exact (Option.some.inj h₁).trans (Option.some.inj h₂).symm

namespace WsServer

variable [FixedPoint] [LevelHash] [AddressParser] {w w' : WsServer} {op : WsOp}
  {said : List ServerResponse}

/-- One connection is replaced by another. -/
theorem getElem?_setConnection {w : WsServer} {a : ActiveGuards} {c c' c₁ : WsConnection}
    {k k' : ℕ} (hk : w.connections[k]? = some c₁)
    (h : (w.setConnection k a c).connections[k']? = some c') :
    (k' = k ∧ c' = c) ∨ (k' ≠ k ∧ w.connections[k']? = some c') := by
  rw [setConnection, List.getElem?_set] at h
  split at h
  case isTrue heq =>
    obtain ⟨hlt, -⟩ := List.getElem?_eq_some_iff.mp hk
    rw [if_pos hlt] at h
    exact Or.inl ⟨heq.symm, (Option.some.inj h).symm⟩
  case isFalse hne => exact Or.inr ⟨Ne.symm hne, h⟩

/-- **What a connection wants after an event it wanted before, or has just asked for.** -/
theorem wanted_step (hstep : w.step op = some (w', said)) {k' : ℕ} {c' : WsConnection}
    (hk' : w'.connections[k']? = some c') {s : Subscription} (hs : c'.Wanted s) :
    ∃ k c, op.moves k = some k' ∧ w.connections[k]? = some c ∧
      (c.Wanted s ∨ op = .request k (.subscribe s) ∧ c.Allows w.bboOnly s) := by
  have hset : ∀ {k : ℕ} {c c₁ : WsConnection} {a : ActiveGuards}, w.connections[k]? = some c →
      (w.setConnection k a c₁).connections[k']? = some c' → op.moves = some →
      (c₁.Wanted s → c.Wanted s ∨ op = .request k (.subscribe s) ∧ c.Allows w.bboOnly s) →
      ∃ k c, op.moves k = some k' ∧ w.connections[k]? = some c ∧
        (c.Wanted s ∨ op = .request k (.subscribe s) ∧ c.Allows w.bboOnly s) := by
    intro k c c₁ a hk hget hmoves hwanted
    rcases getElem?_setConnection hk hget with ⟨rfl, rfl⟩ | ⟨-, hother⟩
    · exact ⟨k', c, congrFun hmoves k', hk, hwanted hs⟩
    · exact ⟨k', c', congrFun hmoves k', hother, Or.inl hs⟩
  have hidle : ∀ {k c}, w.idle k = some c → w.connections[k]? = some c :=
    fun hk => (Option.filter_eq_some_iff.mp hk).1
  cases op with
  | connect univ =>
    cases hstep
    rw [List.getElem?_append] at hk'
    split at hk'
    case isTrue => exact ⟨k', c', rfl, hk', Or.inl hs⟩
    case isFalse =>
      have hnew : c' = .new univ := by simpa using List.mem_of_getElem? hk'
      subst hnew
      exact absurd hs (not_or_intro List.not_mem_nil nofun)
  | request k message =>
    obtain ⟨c, hk, hr⟩ := Option.map_eq_some_iff.mp hstep
    cases hr
    refine hset (hidle hk) hk' rfl fun hwanted => ?_
    exact (WsConnection.wanted_receiveClientMessage hwanted).imp_right fun h =>
      ⟨congrArg _ h.1, h.2⟩
  | snapshot k result =>
    obtain ⟨c, hget, hr⟩ := Option.bind_eq_some_iff.mp hstep
    obtain ⟨s', -, hr⟩ := Option.map_eq_some_iff.mp hr
    cases hr
    exact hset hget hk' rfl fun hwanted => Or.inl (WsConnection.wanted_endSnapshot hwanted)
  | deliver k now m =>
    obtain ⟨c, hk, hr⟩ := Option.map_eq_some_iff.mp hstep
    cases hr
    exact hset (hidle hk) hk' rfl fun hwanted =>
      Or.inl ((c.deliver_notes _ _ _ _).wanted_iff.mp hwanted)
  | lag k =>
    obtain ⟨c, hk, hr⟩ := Option.map_eq_some_iff.mp hstep
    cases hr
    exact hset (hidle hk) hk' rfl fun hwanted => Or.inl hwanted
  | heartbeat k now time =>
    obtain ⟨c, hk, hr⟩ := Option.map_eq_some_iff.mp hstep
    cases hr
    exact hset (hidle hk) hk' rfl fun hwanted =>
      Or.inl ((WsConnection.heartbeatAll_notes (fun _ hs => hs) _ _ _ _).wanted_iff.mp hwanted)
  | disconnect j =>
    obtain ⟨c, hget, hr⟩ := Option.map_eq_some_iff.mp hstep
    cases hr
    rw [List.getElem?_eraseIdx] at hk'
    split at hk'
    case isTrue hlt =>
      refine ⟨k', c', ?_, hk', Or.inl hs⟩
      rw [WsOp.moves, if_neg (by omega), if_neg (by omega)]
    case isFalse hge =>
      refine ⟨k' + 1, c', ?_, hk', Or.inl hs⟩
      rw [WsOp.moves, if_neg (by omega), if_pos (by omega), Nat.add_sub_cancel]

theorem bboOnly_step (hstep : w.step op = some (w', said)) : w'.bboOnly = w.bboOnly := by
  cases op with
  | connect univ =>
    cases hstep
    rfl
  | snapshot k result =>
    obtain ⟨c, -, hr⟩ := Option.bind_eq_some_iff.mp hstep
    obtain ⟨s, -, hr⟩ := Option.map_eq_some_iff.mp hr
    cases hr
    rfl
  | _ =>
    obtain ⟨c, -, hr⟩ := Option.map_eq_some_iff.mp hstep
    cases hr
    rfl

/-- What is wanted was accepted, and is to the best prices where nothing else is served. -/
def AllAllowed (w : WsServer) : Prop :=
  ∀ c ∈ w.connections, ∀ s, c.Wanted s → s.Accepted ∧ (w.bboOnly = true → s.isBbo = true)

theorem AllAllowed.step (h : w.AllAllowed) (hstep : w.step op = some (w', said)) :
    w'.AllAllowed := by
  intro c' hc' s hs
  obtain ⟨k', hk'⟩ := List.mem_iff_getElem?.mp hc'
  obtain ⟨k, c, -, hk, hold | ⟨-, hvalid, hbbo⟩⟩ := wanted_step hstep hk' hs
  · rw [bboOnly_step hstep]
    exact h c (List.mem_of_getElem? hk) s hold
  · rw [bboOnly_step hstep]
    exact ⟨⟨c.univ, hvalid⟩, hbbo⟩

/-- **What is wanted was accepted, in every run.** -/
theorem allAllowed_run {bboOnly : Bool} {l2Heartbeat bboHeartbeat : Option ℕ} {ops : List WsOp}
    (hrun : runSteps WsServer.step ops (.new bboOnly l2Heartbeat bboHeartbeat) = some (w, said)) :
    w.AllAllowed :=
  Runs.invariant (P := AllAllowed) (Q := fun _ => True) (fun _ _ _ _ _ h hstep => h.step hstep)
    (fun _ hc => absurd hc List.not_mem_nil) (fun _ _ => trivial) hrun

end WsServer

variable [FixedPoint] [LevelHash] [AddressParser]

/-- **Keys do not collide**: two subscriptions that are accepted have one key only if they
ask for the same coin, aggregation and depth, whatever characters the names of coins have;
and in every run each subscription of a connection is served by its own notes. -/
theorem keys_apart {bboOnly : Bool} {l2Heartbeat bboHeartbeat : Option ℕ} {ops : List WsOp}
    {w : WsServer} {said : List ServerResponse}
    (hrun : runSteps WsServer.step ops (.new bboOnly l2Heartbeat bboHeartbeat) = some (w, said)) :
    (∀ univ univ' book book', L2Subscription.validate book univ = true →
      L2Subscription.validate book' univ' = true → l2CacheKey book = l2CacheKey book' →
      book.coin = book'.coin ∧ book.shape = book'.shape ∧ book.depth = book'.depth ∧
        book = book') ∧
    ∀ c ∈ w.connections, c.ServedApart := by
  constructor
  · intro univ univ' book book' h h' hkey
    have heq := eq_of_l2CacheKey_eq h h' hkey
    exact ⟨congrArg _ heq, congrArg _ heq, congrArg _ heq, heq⟩
  · intro c hc
    exact WsConnection.servedApart_of_accepted fun s hs =>
      (WsServer.allAllowed_run hrun c hc s (Or.inl hs)).1

end HlOrderbook

namespace HlOrderbook

section Example

attribute [local instance] FixedPoint.decimal LevelHash.polynomial AddressParser.hexadecimal

/-- A coin whose name ends like the key of another. -/
def likeAnother : List WsOp :=
  let univ : Std.ExtTreeSet Coin := .ofList ["A", "A:5"]
  [.connect univ, .request 0 (.subscribe (.l2Book ⟨"A", some 5, some 50, some 2⟩)),
    .request 0 (.subscribe (.l2Book ⟨"A:5", some 2, some 50, none⟩)),
    .request 0 (.subscribe (.l2Diff ⟨"A:5", some 2, some 50, none⟩))]

theorem keys_apart_likeAnother : ∃ w said,
    runSteps WsServer.step likeAnother (.new false none none) = some (w, said) ∧
    w.connections.map (·.manager.subscriptions.length) = [3] ∧
    l2CacheKey ⟨"A", some 5, some 50, some 2⟩ = "A:5:2:50" ∧
    l2CacheKey ⟨"A:5", some 2, some 50, none⟩ = "A:5:2:0:50" ∧
    ∀ c ∈ w.connections, c.ServedApart := by
  have hend : (runSteps WsServer.step likeAnother (.new false none none)).map
      (fun r => r.1.connections.map (·.manager.subscriptions.length)) = some [3] := by
    decide +kernel
  obtain ⟨w, said, hrun, hlength⟩ := Runs.exists_of_map hend
  exact ⟨w, said, hrun, hlength, by decide +kernel, by decide +kernel, (keys_apart hrun).2⟩

end Example

end HlOrderbook
