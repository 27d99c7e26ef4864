import HlOrderbook.Panics
import HlOrderbook.Outcomes
import HlOrderbook.Lib.Runs

/-!
# What becomes of a diff that waits

A `New` diff that waits for its status leaves the map of those that wait in three ways: a
status is paired with it, a later diff of its order drops it, or the maintenance tick
evicts it.  The tick says that an order may be lost whenever what it evicts is not of the
protocol.  The other diffs of an order are carried over to its `New` while that waits,
unless an order with the same identifier rests already, as one of the snapshot.

## Main definitions

* `StateEvent`, `OrderBookState.eventStep` — the events of the batches one by one.
* `Fate`, `OrderBookState.fates` — how a diff that waits leaves the map.
* `Accounted` — what is known of a `New` diff at a moment of a run.

## Main results

* `accounted_of_run`.
-/

set_option autoImplicit false
set_option linter.unusedSectionVars false

namespace HlOrderbook

namespace OrderBookState

/-! ## The caps -/

section Cap

variable {V : Type} {since : V → ℕ} {m : Std.ExtTreeMap ℕ V} {ks : List ℕ} {j k : ℕ} {x y : V}

theorem getElem?_foldl_erase :
    (ks.foldl (fun m k => m.erase k) m)[j]? = if j ∈ ks then none else m[j]? := by
  induction ks generalizing m with
  | nil => simp
  | cons k ks ih =>
    rw [List.foldl_cons, ih, Std.ExtTreeMap.getElem?_erase]
    by_cases hj : j = k
    · simp [hj]
    · have hk : ¬ k = j := fun h => hj h.symm
      simp [hj, hk]

theorem size_foldl_erase (hnodup : ks.Nodup) (hmem : ∀ k ∈ ks, k ∈ m) :
    (ks.foldl (fun m k => m.erase k) m).size + ks.length = m.size := by
  induction ks generalizing m with
  | nil => rfl
  | cons k ks ih =>
    rw [List.nodup_cons] at hnodup
    have hk := hmem k List.mem_cons_self
    have hrest : ∀ j ∈ ks, j ∈ m.erase k := by
      intro j hj
      rw [Std.ExtTreeMap.mem_erase]
      refine ⟨fun h => hnodup.1 ?_, hmem j (List.mem_cons_of_mem _ hj)⟩
      rwa [Std.compare_eq_iff_eq.mp h]
    have hsize := ih hnodup.2 hrest
    have hpos : 0 < m.size := by
      rw [Nat.pos_iff_ne_zero, ne_eq, ← Std.ExtTreeMap.eq_empty_iff_size_eq_zero]
      rintro rfl
      exact Std.ExtTreeMap.not_mem_empty hk
    rw [Std.ExtTreeMap.size_erase, if_pos (Std.ExtTreeMap.contains_iff_mem.mpr hk)] at hsize
    rw [List.foldl_cons, List.length_cons]
    omega

/-- The entries with their ages, the oldest first. -/
private def byAge (since : V → ℕ) (m : Std.ExtTreeMap ℕ V) : List (ℕ × ℕ) :=
  (m.toList.map fun x => (since x.2, x.1)).mergeSort (fun a b => a.1 ≤ b.1)

theorem overCap_eq : overCap since m = ((byAge since m).take (m.size - maxPending)).map Prod.snd := by
  rw [overCap]
  split
  · rfl
  case isFalse h =>
    rw [show m.size - maxPending = 0 by omega]
    rfl

theorem mem_byAge {a : ℕ} : (a, k) ∈ byAge since m ↔ ∃ x, m[k]? = some x ∧ since x = a := by
  rw [byAge, (List.mergeSort_perm ..).mem_iff, List.mem_map]
  constructor
  · rintro ⟨⟨k', x⟩, hx, he⟩
    cases he
    exact ⟨x, Std.ExtTreeMap.mem_toList_iff_getElem?_eq_some.mp hx, rfl⟩
  · rintro ⟨x, hx, rfl⟩
    exact ⟨(k, x), Std.ExtTreeMap.mem_toList_iff_getElem?_eq_some.mpr hx, rfl⟩

theorem keys_byAge_perm : ((byAge since m).map Prod.snd).Perm m.keys := by
  refine ((List.mergeSort_perm _ _).map Prod.snd).trans ?_
  rw [List.map_map, ← Std.ExtTreeMap.map_fst_toList_eq_keys]
  exact List.Perm.refl _

theorem pairwise_byAge : (byAge since m).Pairwise fun a b => a.1 ≤ b.1 := by
  have h : (byAge since m).Pairwise fun a b => decide (a.1 ≤ b.1) = true := by
    refine List.pairwise_mergeSort ?_ ?_ _
    · intro a b c hab hbc
      simp only [decide_eq_true_eq] at *
      omega
    · intro a b
      simp only [Bool.or_eq_true, decide_eq_true_eq]
      omega
  exact h.imp fun hab => of_decide_eq_true hab

theorem overCap_subset : (overCap since m).Sublist ((byAge since m).map Prod.snd) := by
  rw [overCap_eq]
  exact (List.take_sublist _ _).map _

/-- **What is left is within the cap.** -/
theorem size_capped : ((overCap since m).foldl (fun m k => m.erase k) m).size ≤ maxPending := by
  have hkeys : ((byAge since m).map Prod.snd).Perm m.keys := keys_byAge_perm
  have hnodup : (overCap since m).Nodup :=
    (hkeys.nodup_iff.mpr Std.ExtTreeMap.nodup_keys).sublist overCap_subset
  have hsize := size_foldl_erase hnodup fun k hk =>
    Std.ExtTreeMap.mem_keys.mp (hkeys.mem_iff.mp (overCap_subset.subset hk))
  have hlength : (byAge since m).length = m.size := by
    rw [← Std.ExtTreeMap.length_keys, ← hkeys.length_eq, List.length_map]
  rw [overCap_eq, List.length_map, List.length_take, hlength] at hsize
  rw [overCap_eq]
  omega

/-- **What the cap evicts is at least as old as what it keeps.** -/
theorem since_le_of_overCap (hk : m[k]? = some x) (hover : k ∈ overCap since m)
    (hj : m[j]? = some y) (hkept : j ∉ overCap since m) : since x ≤ since y := by
  rw [overCap_eq, List.mem_map] at hover hkept
  obtain ⟨⟨a, k'⟩, htake, rfl⟩ := hover
  obtain ⟨x', hx', rfl⟩ := mem_byAge.mp (List.mem_of_mem_take htake)
  rw [hk] at hx'
  cases hx'
  have hj : (since y, j) ∈ byAge since m := mem_byAge.mpr ⟨y, hj, rfl⟩
  rw [← List.take_append_drop (m.size - maxPending) (byAge since m), List.mem_append] at hj
  rcases hj with htake' | hdrop
  · exact absurd ⟨_, htake', rfl⟩ hkept
  · have hsorted : (byAge since m).Pairwise fun a b => a.1 ≤ b.1 := pairwise_byAge
    rw [← List.take_append_drop (m.size - maxPending) (byAge since m), List.pairwise_append]
      at hsorted
    exact hsorted.2.2 _ htake _ hdrop

end Cap

variable [SlabPolicy] [FixedPoint]

/-! ## The maintenance tick -/

section Cleanup

variable {s : OrderBookState} {now k : ℕ}

/-- The tick leaves both maps within their caps, and evicts for the cap's sake only what
is at least as old as all it keeps. -/
structure WithinCaps (now : ℕ) (s : OrderBookState) : Prop where
  statuses_le : (s.cleanupStalePending now).1.pendingOrderStatuses.size ≤ maxPending
  diffs_le : (s.cleanupStalePending now).1.pendingNewDiffs.size ≤ maxPending
  statuses_oldest : ∀ (k j : ℕ) x y, s.pendingOrderStatuses[k]? = some x →
    now - x.2 < pendingMaxAge → (s.cleanupStalePending now).1.pendingOrderStatuses[k]? = none →
    (s.cleanupStalePending now).1.pendingOrderStatuses[j]? = some y → x.2 ≤ y.2
  diffs_oldest : ∀ (k j : ℕ) p q, s.pendingNewDiffs[k]? = some p →
    now - p.since < pendingMaxAge → (s.cleanupStalePending now).1.pendingNewDiffs[k]? = none →
    (s.cleanupStalePending now).1.pendingNewDiffs[j]? = some q → p.since ≤ q.since

/-- A map that is filtered by age and then cut down to the cap. -/
theorem getElem?_capped {V : Type} {since : V → ℕ} {m : Std.ExtTreeMap ℕ V} (fresh : V → Bool) :
    ((overCap since (m.filter fun _ x => fresh x)).foldl (fun m k => m.erase k)
        (m.filter fun _ x => fresh x))[k]? =
      if k ∈ overCap since (m.filter fun _ x => fresh x) then none else m[k]?.filter fresh := by
  rw [getElem?_foldl_erase, Std.ExtTreeMap.getElem?_filter']

theorem capped_oldest {V : Type} {since : V → ℕ} {m : Std.ExtTreeMap ℕ V} (fresh : V → Bool)
    {j : ℕ} {x y : V} (hk : m[k]? = some x) (hfresh : fresh x = true)
    (hgone : ((overCap since (m.filter fun _ x => fresh x)).foldl (fun m k => m.erase k)
      (m.filter fun _ x => fresh x))[k]? = none)
    (hj : ((overCap since (m.filter fun _ x => fresh x)).foldl (fun m k => m.erase k)
      (m.filter fun _ x => fresh x))[j]? = some y) : since x ≤ since y := by
  have hkept : (m.filter fun _ x => fresh x)[k]? = some x := by
    rw [Std.ExtTreeMap.getElem?_filter', hk]
    exact Option.filter_some_pos hfresh
  rw [getElem?_foldl_erase] at hgone hj
  split at hgone
  case isFalse =>
    rw [hkept] at hgone
    cases hgone
  case isTrue hover =>
    split at hj
    · cases hj
    · next hleft => exact since_le_of_overCap hkept hover hj hleft

/-- **The tick keeps the caps.** -/
theorem withinCaps (now : ℕ) (s : OrderBookState) : s.WithinCaps now where
  statuses_le := size_capped
  diffs_le := size_capped
  statuses_oldest := fun _ _ _ _ hk hage hgone hj =>
    capped_oldest (fun x : NodeDataOrderStatus × ℕ => decide (now - x.2 < pendingMaxAge)) hk
      (decide_eq_true hage) hgone hj
  diffs_oldest := fun _ _ _ _ hk hage hgone hj =>
    capped_oldest (fun p : PendingNew => decide (now - p.since < pendingMaxAge)) hk
      (decide_eq_true hage) hgone hj

theorem getElem?_pendingNewDiffs_cleanup :
    (s.cleanupStalePending now).1.pendingNewDiffs[k]? = s.pendingNewDiffs[k]? ∨
      (s.cleanupStalePending now).1.pendingNewDiffs[k]? = none := by
  rw [cleanupStalePending]
  simp only
  rw [getElem?_capped fun p : PendingNew => decide (now - p.since < pendingMaxAge)]
  split
  · exact Or.inr rfl
  · cases hk : s.pendingNewDiffs[k]? with
    | none => exact Or.inr rfl
    | some p =>
      simp only [Option.filter_some]
      split
      · exact Or.inl rfl
      · exact Or.inr rfl

/-- **What the tick evicts of others than the protocol it reports.** -/
theorem cleanup_reports {p : PendingNew} (hk : s.pendingNewDiffs[k]? = some p)
    (huser : isProtocolAddress p.user = false)
    (hgone : (s.cleanupStalePending now).1.pendingNewDiffs[k]? = none) :
    (s.cleanupStalePending now).2 = true := by
  rw [cleanupStalePending] at hgone
  simp only at hgone
  rw [getElem?_capped fun p : PendingNew => decide (now - p.since < pendingMaxAge), hk,
    Option.filter_some] at hgone
  rw [cleanupStalePending]
  simp only [Bool.or_eq_true]
  split at hgone
  case isTrue hover =>
    refine Or.inr ?_
    rw [Bool.not_eq_true', List.isEmpty_eq_false_iff]
    exact List.ne_nil_of_mem hover
  case isFalse =>
    split at hgone
    · cases hgone
    · next hold =>
      refine Or.inl (Or.inl (List.any_eq_true.mpr ⟨p, (mem_values_iff _).mpr ⟨_, hk⟩, ?_⟩))
      rw [Bool.not_eq_true] at hold
      rw [hold, huser]
      rfl

end Cleanup

end OrderBookState

variable [SlabPolicy] [FixedPoint]

/-! ## Events -/

/-- An event a state can see: a batch begins, an event of it is applied, or the
maintenance tick. -/
inductive StateEvent where
  | statuses (height time : ℕ)
  | status (now : ℕ) (st : NodeDataOrderStatus)
  | diffs (height time : ℕ)
  | diff (now height : ℕ) (d : NodeDataOrderDiff)
  | cleanup (now : ℕ)

/-- How a `New` diff that waits leaves the map: its status comes, a later diff of its
order drops it, or the tick evicts it and answers so. -/
inductive Fate where
  | paired
  | dropped
  | evicted (reported : Bool)
  deriving DecidableEq

namespace OrderBookState

/-- Apply an event. -/
def applyEvent (s : OrderBookState) : StateEvent → OrderBookState × Except Failure (List Coin)
  | .statuses height time => (s.advance height time, .ok [])
  | .status now st => s.applyOrderStatus now st
  | .diffs height time => ((s.forgetZeroed height).advance height time, .ok [])
  | .diff now height d => s.applyOrderDiff now height d
  | .cleanup now => ((s.cleanupStalePending now).1, .ok [])

/-- The orders whose `New` diff left the map with an event that leads from one state to
another, and how.  A `New` that finds its status waiting is paired at once. -/
def fates (s s' : OrderBookState) : StateEvent → List (ℕ × Fate)
  | .statuses .. | .diffs .. => []
  | .status _ st =>
    if s.pendingNewDiffs.contains st.order.oid then [(st.order.oid, .paired)] else []
  | .diff _ _ d =>
    if s.skips d then []
    else match InnerOrderDiff.tryFrom d.rawBookDiff with
      | some (.new ..) =>
        if s.pendingOrderStatuses.contains d.oid then [(d.oid, .paired)] else []
      | some (.update _ 0) | some .remove =>
        if s.pendingNewDiffs.contains d.oid && !s'.pendingNewDiffs.contains d.oid then
          [(d.oid, .dropped)]
        else []
      | _ => []
  | .cleanup now =>
    (s.pendingNewDiffs.keys.filter fun k => !s'.pendingNewDiffs.contains k).map fun k =>
      (k, .evicted (s.cleanupStalePending now).2)

/-- Apply an event that does not fail, and say what left the map. -/
def eventStep (s : OrderBookState) (e : StateEvent) :
    Option (OrderBookState × List (ℕ × Fate)) :=
  match s.applyEvent e with
  | (s', .ok _) => some (s', s.fates s' e)
  | (_, .error _) => none

/-- What became of the `New` diffs of one order. -/
def fatesOf (k : ℕ) (said : List (ℕ × Fate)) : List Fate :=
  said.filterMap fun x => if x.1 = k then some x.2 else none

/-- The event is a `New` diff of the order that is not skipped. -/
def places (ignoreSpot : Bool) (k : ℕ) : StateEvent → Bool
  | .diff _ _ d => !(d.coin.isSpot && ignoreSpot) && d.rawBookDiff.isNew && d.oid == k
  | _ => false

/-- The size of an order after an event, if it is an update of the order. -/
def resized (ignoreSpot : Bool) (k : ℕ) (cur : ℕ) : StateEvent → ℕ
  | .diff _ _ d =>
    if !(d.coin.isSpot && ignoreSpot) && d.oid == k then
      match InnerOrderDiff.tryFrom d.rawBookDiff with
      | some (.update _ newSz) => newSz
      | _ => cur
    else cur
  | _ => cur

/-! ## One event -/

/-- The statuses that wait do so under their own identifiers. -/
def Keyed (s : OrderBookState) : Prop :=
  ∀ (j : ℕ) x, s.pendingOrderStatuses[j]? = some x → x.1.order.oid = j

/-- Nothing rests with the identifier, or was emptied recently. -/
structure Quiet (s : OrderBookState) (k : ℕ) : Prop where
  unknown : ∀ c, s.orderBook.find? c k = none
  standing : k ∉ s.zeroedSet

/-- The size a `New` diff waits with, and its owner. -/
def Waits (s : OrderBookState) (k sz : ℕ) (user : Address) : Prop :=
  ∃ p ∈ s.pendingNewDiffs[k]?, p.sz = sz ∧ p.user = user

instance (s : OrderBookState) (k sz : ℕ) (user : Address) : Decidable (s.Waits k sz user) :=
  inferInstanceAs (Decidable (∃ p ∈ s.pendingNewDiffs[k]?, p.sz = sz ∧ p.user = user))

/-- **What an event that places no order of the identifier does to it**: it stays away,
or it waits on with the size of the update, or it leaves in one of the ways that can be
accounted for. -/
structure Follows (k : ℕ) (s : OrderBookState) (e : StateEvent) (s' : OrderBookState)
    (said : List (ℕ × Fate)) : Prop where
  keyed : s'.Keyed
  ignoreSpot : s'.ignoreSpot = s.ignoreSpot
  absent : s.pendingNewDiffs[k]? = none → s'.pendingNewDiffs[k]? = none ∧ fatesOf k said = []
  quiet : s.Quiet k → s.pendingNewDiffs[k]? = none → s'.Quiet k
  waits : ∀ sz user, s.Waits k sz user → s.Quiet k → isProtocolAddress user = false →
    (s'.Quiet k ∧ fatesOf k said = [] ∧ s'.Waits k (resized s.ignoreSpot k sz e) user) ∨
    (s'.pendingNewDiffs[k]? = none ∧ ∃ f, fatesOf k said = [f] ∧ f ≠ .evicted false)

variable {s s' : OrderBookState} {k j : ℕ} {said : List (ℕ × Fate)}

theorem Keyed.of_eq (h : s.Keyed) (hs : s'.pendingOrderStatuses = s.pendingOrderStatuses) :
    s'.Keyed := by
  intro j x hx
  rw [hs] at hx
  exact h j x hx

theorem Keyed.erase (h : s.Keyed)
    (hs : s'.pendingOrderStatuses = s.pendingOrderStatuses.erase j) : s'.Keyed := by
  intro i x hx
  rw [hs, Std.ExtTreeMap.getElem?_erase] at hx
  split at hx
  · cases hx
  · exact h i x hx

/-- Fewer orders rest, and fewer were emptied. -/
theorem Quiet.of_imp (h : s.Quiet k) (hrests : ∀ c, s.orderBook.find? c k = none →
    s'.orderBook.find? c k = none) (hset : k ∈ s'.zeroedSet → k ∈ s.zeroedSet) : s'.Quiet k :=
  ⟨fun c => hrests c (h.unknown c), fun hk => h.standing (hset hk)⟩

/-- Another order rests. -/
theorem Quiet.restPaired (h : s.Quiet k) {inner : InnerL4Order} (hne : k ≠ inner.oid) (sz : ℕ)
    (anchor : Option ℕ) (ts : ℕ) : (s.restPaired inner sz anchor ts).Quiet k := by
  refine h.of_imp (fun c hnone => ?_) (by rw [zeroedSet_restPaired]; exact id)
  by_contra hrests
  rw [orderBook_restPaired] at hrests
  rcases OrderBooks.rests_addOrderBefore hrests with hbefore | hoid
  · exact hbefore hnone
  · rw [hoid] at hne
    exact hne (InnerL4Order.oid_convertTrigger _ _)

@[simp] theorem fatesOf_nil (k : ℕ) : fatesOf k [] = [] := rfl

@[simp] theorem fatesOf_singleton (k j : ℕ) (f : Fate) :
    fatesOf k [(j, f)] = if j = k then [f] else [] := by
  by_cases h : j = k <;> simp [fatesOf, h]

theorem fatesOf_append (k : ℕ) (said said' : List (ℕ × Fate)) :
    fatesOf k (said ++ said') = fatesOf k said ++ fatesOf k said' := List.filterMap_append

/-- An event that leaves the diff of the identifier where it is, or resizes it. -/
theorem Follows.stays {e : StateEvent} (hkeyed : s'.Keyed) (hspot : s'.ignoreSpot = s.ignoreSpot)
    (hpending : s'.pendingNewDiffs[k]? = (s.pendingNewDiffs[k]?).map fun p =>
      { p with sz := resized s.ignoreSpot k p.sz e })
    (hsaid : fatesOf k said = []) (hquiet : s.Quiet k → s'.Quiet k) :
    Follows k s e s' said where
  keyed := hkeyed
  ignoreSpot := hspot
  absent hnone := ⟨by rw [hpending, hnone]; rfl, hsaid⟩
  quiet hq _ := hquiet hq
  waits sz user hw hq _ := by
    obtain ⟨p, hp, rfl, rfl⟩ := hw
    rw [hp] at hpending
    exact Or.inl ⟨hquiet hq, hsaid, _, hpending, rfl, rfl⟩

/-- An event after which no diff of the identifier waits. -/
theorem Follows.leaves {e : StateEvent} (hkeyed : s'.Keyed) (hspot : s'.ignoreSpot = s.ignoreSpot)
    (hgone : s'.pendingNewDiffs[k]? = none) (hquiet : s.Quiet k → s.pendingNewDiffs[k]? = none →
      s'.Quiet k) (hnone : s.pendingNewDiffs[k]? = none → fatesOf k said = [])
    (hsome : ∀ p, s.pendingNewDiffs[k]? = some p → isProtocolAddress p.user = false →
      ∃ f, fatesOf k said = [f] ∧ f ≠ .evicted false) :
    Follows k s e s' said where
  keyed := hkeyed
  ignoreSpot := hspot
  absent h := ⟨hgone, hnone h⟩
  quiet := hquiet
  waits sz user hw _ huser := by
    obtain ⟨p, hp, rfl, rfl⟩ := hw
    exact Or.inr ⟨hgone, hsome p hp huser⟩

/-! ### Statuses -/

/-- **A status.** -/
theorem follows_status {now : ℕ} {st : NodeDataOrderStatus} {coins : List Coin}
    (hkeyed : s.Keyed) (happly : s.applyOrderStatus now st = (s', .ok coins)) (k : ℕ) :
    Follows k s (.status now st) s' (s.fates s' (.status now st)) := by
  have houtcome := s.statusOutcome now st
  rw [happly] at houtcome
  have hresized : ∀ sz, resized s.ignoreSpot k sz (.status now st) = sz := fun _ => rfl
  cases houtcome with
  | passed unknown =>
    refine .stays (hkeyed.of_eq (by simp)) (by simp) (by simp [hresized]) ?_ ?_
    · simp [fates, unknown, Std.ExtTreeMap.contains_eq_isSome_getElem?]
    · exact fun hq => hq.of_imp (by simp) (by simp)
  | kept unknown =>
    refine .stays ?_ (by simp) (by simp [hresized]) ?_ ?_
    · intro j x hx
      simp only [pendingOrderStatuses_trackStatus, Std.ExtTreeMap.getElem?_insert] at hx
      split at hx
      case isTrue hj =>
        cases hx
        exact Std.compare_eq_iff_eq.mp hj
      case isFalse => exact hkeyed j x hx
    · simp [fates, unknown, Std.ExtTreeMap.contains_eq_isSome_getElem?]
    · exact fun hq => hq.of_imp (by simp) (by simp)
  | @paired pending inner waits parses =>
    have hoid : inner.oid = st.order.oid := (InnerL4Order.tryFrom_eq_some parses).2.2.1
    have hfates : ∀ s', s.fates s' (.status now st) = [(st.order.oid, .paired)] := by
      simp [fates, waits, Std.ExtTreeMap.contains_eq_isSome_getElem?]
    rw [hfates]
    by_cases hk : st.order.oid = k
    · subst hk
      refine .leaves (hkeyed.of_eq (by simp)) (by simp) (by simp) ?_ ?_ ?_
      · intro _ hnone
        rw [waits] at hnone
        cases hnone
      · intro hnone
        rw [waits] at hnone
        cases hnone
      · exact fun _ _ _ => ⟨.paired, by simp, by simp⟩
    · refine .stays (hkeyed.of_eq (by simp)) (by simp) ?_ (by simp [hk]) ?_
      · simp [hresized, Std.ExtTreeMap.getElem?_erase, hk]
      · intro hq
        have hpaired : Quiet { s.trackStatus st with
            pendingNewDiffs := (s.trackStatus st).pendingNewDiffs.erase st.order.oid } k :=
          hq.of_imp (by simp) (by simp)
        exact hpaired.restPaired (fun h => hk (h.trans hoid).symm) _ _ _

/-! ### Diffs -/

section Diff

variable {now height : ℕ} {d : NodeDataOrderDiff}

theorem resized_of_ne (ignoreSpot : Bool) (cur : ℕ) (hk : d.oid ≠ k) :
    resized ignoreSpot k cur (.diff now height d) = cur := by
  simp [resized, hk]

theorem Quiet.modifySz (h : s.Quiet k) (j : ℕ) (c : Coin) (newSz : ℕ) :
    Quiet { s with orderBook := (s.orderBook.modifySz j c newSz).1 } k := by
  refine h.of_imp (fun c' hnone => ?_) id
  rw [OrderBooks.find?_modifySz, hnone]
  simp

theorem Quiet.cancelOrder (h : s.Quiet k) (j : ℕ) (c : Coin) :
    Quiet { s with orderBook := (s.orderBook.cancelOrder j c).1 } k := by
  refine h.of_imp (fun c' hnone => ?_) id
  rw [OrderBooks.find?_cancelOrder, hnone]
  simp

theorem Quiet.applyDiffToPendingNew (h : s.Quiet k) (j : ℕ) (newSz : Option ℕ) :
    (s.applyDiffToPendingNew j newSz).Quiet k := by
  obtain ⟨m, hm⟩ := s.applyDiffToPendingNew_eq j newSz
  rw [hm]
  exact h.of_imp (fun _ hnone => hnone) id

theorem Quiet.noteZeroed (h : s.Quiet k) (hne : k ≠ j) (height : ℕ) :
    (s.noteZeroed height j).Quiet k := by
  refine h.of_imp (fun c hnone => ?_) fun hmem => ?_
  · obtain ⟨q, set, hz⟩ := s.noteZeroed_eq height j
    rw [hz]
    exact hnone
  · rcases s.mem_zeroedSet_noteZeroed.mp hmem with hk | hk
    · exact absurd hk hne
    · exact hk

theorem fatesOf_diff_of_ne (s s' : OrderBookState) (hk : d.oid ≠ k) :
    fatesOf k (s.fates s' (.diff now height d)) = [] := by
  simp only [fates]
  split
  · rfl
  · split <;> (try split) <;> simp [hk]

/-- A diff that is no `New` and leaves the diffs that wait. -/
theorem fates_diff_of_eq {inner : InnerOrderDiff}
    (parses : InnerOrderDiff.tryFrom d.rawBookDiff = some inner) (hnew : inner.isNew = false)
    (hs : s'.pendingNewDiffs[d.oid]? = s.pendingNewDiffs[d.oid]?) :
    s.fates s' (.diff now height d) = [] := by
  simp only [fates, parses, Std.ExtTreeMap.contains_eq_isSome_getElem?, hs]
  split
  · rfl
  · split
    · next h =>
      cases h
      cases hnew
    · simp
    · simp
    · rfl

/-- A diff of an order that rests or was emptied leaves the diff that waits. -/
theorem follows_apart {inner : InnerOrderDiff} (hkeyed : s.Keyed)
    (parses : InnerOrderDiff.tryFrom d.rawBookDiff = some inner) (hnew : inner.isNew = false)
    (hstatuses : s'.pendingOrderStatuses = s.pendingOrderStatuses)
    (hspot : s'.ignoreSpot = s.ignoreSpot) (hdiffs : s'.pendingNewDiffs = s.pendingNewDiffs)
    (hown : ¬ s.Quiet d.oid) (hquiet : d.oid ≠ k → s.Quiet k → s'.Quiet k) :
    Follows k s (.diff now height d) s' (s.fates s' (.diff now height d)) := by
  have hsaid : s.fates s' (.diff now height d) = [] :=
    fates_diff_of_eq parses hnew (by rw [hdiffs])
  rw [hsaid]
  by_cases hk : d.oid = k
  · subst hk
    exact {
      keyed := hkeyed.of_eq hstatuses
      ignoreSpot := hspot
      absent := fun hnone => ⟨by rw [hdiffs, hnone], rfl⟩
      quiet := fun hq => absurd hq hown
      waits := fun _ _ _ hq => absurd hq hown }
  · refine .stays (hkeyed.of_eq hstatuses) hspot ?_ rfl (hquiet hk)
    simp [hdiffs, resized_of_ne _ _ hk]

/-- A diff that is carried over to the diff that waits. -/
theorem follows_carried {s₁ : OrderBookState} {newSz : Option ℕ} (hkeyed : s.Keyed)
    (skips : s.skips d = false)
    (hparses : (∃ origSz sz, InnerOrderDiff.tryFrom d.rawBookDiff = some (.update origSz sz) ∧
        newSz = some sz) ∨
      (InnerOrderDiff.tryFrom d.rawBookDiff = some .remove ∧ newSz = none))
    (hstatuses : s₁.pendingOrderStatuses = s.pendingOrderStatuses)
    (hspot : s₁.ignoreSpot = s.ignoreSpot) (hdiffs : s₁.pendingNewDiffs = s.pendingNewDiffs)
    (hquiet : s.Quiet k → s₁.Quiet k) :
    Follows k s (.diff now height d) (s₁.applyDiffToPendingNew d.oid newSz)
      (s.fates (s₁.applyDiffToPendingNew d.oid newSz) (.diff now height d)) := by
  obtain ⟨m, hm⟩ := s₁.applyDiffToPendingNew_eq d.oid newSz
  have hkeyed' : (s₁.applyDiffToPendingNew d.oid newSz).Keyed :=
    hkeyed.of_eq (by rw [hm]; exact hstatuses)
  have hspot' : (s₁.applyDiffToPendingNew d.oid newSz).ignoreSpot = s.ignoreSpot := by
    rw [hm]
    exact hspot
  have hquiet' : s.Quiet k → (s₁.applyDiffToPendingNew d.oid newSz).Quiet k := fun hq =>
    (hquiet hq).applyDiffToPendingNew _ _
  have hpending := s₁.getElem?_applyDiffToPendingNew d.oid newSz k
  rw [hdiffs] at hpending
  by_cases hk : d.oid = k
  case neg =>
    rw [if_neg hk] at hpending
    refine .stays hkeyed' hspot' ?_ (fatesOf_diff_of_ne _ _ hk) hquiet'
    simp [hpending, resized_of_ne _ _ hk]
  case pos =>
  subst hk
  rw [if_pos rfl] at hpending
  by_cases hpos : ∃ sz, newSz = some sz ∧ 0 < sz
  · -- the diff waits on with the size of the update
    obtain ⟨sz, rfl, hpos⟩ := hpos
    obtain ⟨origSz, sz, parses, he⟩ := hparses.resolve_right (by simp)
    cases he
    have hsaid : s.fates (s₁.applyDiffToPendingNew d.oid (some sz)) (.diff now height d) = [] := by
      cases sz with
      | zero => omega
      | succ sz => simp [fates, skips, parses]
    rw [hsaid]
    refine .stays hkeyed' hspot' ?_ rfl hquiet'
    rw [OrderBookState.skips] at skips
    rw [hpending]
    cases s.pendingNewDiffs[d.oid]? <;> simp [resized, skips, parses, hpos, Option.filter]
  · -- the diff is dropped
    have hgone : (s₁.applyDiffToPendingNew d.oid newSz).pendingNewDiffs[d.oid]? = none := by
      rw [hpending]
      cases newSz with
      | none => simp
      | some sz =>
        have hzero : ¬ 0 < sz := fun h => hpos ⟨sz, rfl, h⟩
        simp [hzero, Option.filter]
    have hsaid : s.fates (s₁.applyDiffToPendingNew d.oid newSz) (.diff now height d) =
        if s.pendingNewDiffs.contains d.oid then [(d.oid, .dropped)] else [] := by
      have hgone' : (s₁.applyDiffToPendingNew d.oid newSz).pendingNewDiffs.contains d.oid =
          false := by
        rw [Std.ExtTreeMap.contains_eq_isSome_getElem?, hgone]
        rfl
      rcases hparses with ⟨origSz, sz, parses, rfl⟩ | ⟨parses, rfl⟩
      · obtain rfl : sz = 0 := by
          by_contra h
          exact hpos ⟨sz, rfl, by omega⟩
        simp [fates, skips, parses, hgone']
      · simp [fates, skips, parses, hgone']
    rw [hsaid]
    refine .leaves hkeyed' hspot' hgone (fun hq _ => hquiet' hq) ?_ ?_
    · intro hnone
      simp [Std.ExtTreeMap.contains_eq_isSome_getElem?, hnone]
    · intro p hp _
      exact ⟨.dropped, by simp [Std.ExtTreeMap.contains_eq_isSome_getElem?, hp], by simp⟩

/-- **A diff that does not place the order.** -/
theorem follows_diff {coins : List Coin} (hkeyed : s.Keyed)
    (happly : s.applyOrderDiff now height d = (s', .ok coins))
    (hplaces : places s.ignoreSpot k (.diff now height d) = false) :
    Follows k s (.diff now height d) s' (s.fates s' (.diff now height d)) := by
  have houtcome := s.diffOutcome now height d
  rw [happly] at houtcome
  have hother : s.skips d = false → ∀ sz anchor,
      InnerOrderDiff.tryFrom d.rawBookDiff = some (.new sz anchor) → d.oid ≠ k := by
    intro hskips sz anchor hparses hk
    have hnew := InnerOrderDiff.isNew_of_tryFrom hparses
    rw [skips] at hskips
    simp [places, hskips, hnew, hk, InnerOrderDiff.isNew] at hplaces
  cases houtcome with
  | skipped skips =>
    refine .stays hkeyed rfl ?_ (by simp [fates, skips]) id
    rw [OrderBookState.skips] at skips
    simp [resized, skips]
  | @paired sz since anchor st inner skips parses waits order late =>
    have hk := hother skips sz anchor parses
    have hoid : inner.oid = d.oid :=
      (InnerL4Order.tryFrom_eq_some order).2.2.1.trans (hkeyed _ _ waits)
    have hkeyed' := hkeyed.erase (pendingOrderStatuses_restPaired
      { s with pendingOrderStatuses := s.pendingOrderStatuses.erase d.oid } inner sz anchor
      st.time.toNat)
    refine .stays hkeyed' (by simp) ?_ (fatesOf_diff_of_ne _ _ hk) ?_
    · simp [resized_of_ne _ _ hk]
    · intro hq
      have hpaired : Quiet { s with
          pendingOrderStatuses := s.pendingOrderStatuses.erase d.oid } k :=
        hq.of_imp (fun _ hnone => hnone) id
      exact hpaired.restPaired (fun h => hk (h.trans hoid).symm) _ _ _
  | @waits sz anchor skips parses unknown =>
    have hk := hother skips sz anchor parses
    refine .stays (hkeyed.of_eq rfl) rfl ?_ (fatesOf_diff_of_ne _ _ hk)
      fun hq => hq.of_imp (fun _ hnone => hnone) id
    simp [resized_of_ne _ _ hk, Std.ExtTreeMap.getElem?_insert, hk]
  | resized skips parses rests =>
    exact follows_apart hkeyed parses rfl rfl rfl rfl (fun hq => rests (hq.unknown _))
      fun _ hq => hq.modifySz _ _ _
  | zeroed skips parses rests =>
    obtain ⟨q, set, hz⟩ := noteZeroed_eq
      { s with orderBook := (s.orderBook.modifySz d.oid d.coin 0).1 } height d.oid
    exact follows_apart hkeyed parses rfl (by rw [hz]) (by rw [hz]) (by rw [hz])
      (fun hq => rests (hq.unknown _))
      fun hk hq => (hq.modifySz _ _ _).noteZeroed (Ne.symm hk) _
  | @updated origSz newSz skips parses unknown =>
    exact follows_carried hkeyed skips (Or.inl ⟨origSz, newSz, parses, rfl⟩) rfl rfl rfl
      fun hq => hq.modifySz _ _ _
  | cancelled skips parses rests =>
    exact follows_apart hkeyed parses rfl rfl rfl rfl (fun hq => rests (hq.unknown _))
      fun _ hq => hq.cancelOrder _ _
  | followed skips parses unknown emptied =>
    refine follows_apart hkeyed parses rfl rfl rfl rfl (fun hq => hq.standing emptied)
      fun _ hq => (hq.cancelOrder d.oid d.coin).of_imp (fun _ hnone => hnone) fun hmem => ?_
    exact (Std.ExtTreeSet.mem_erase.mp hmem).2
  | removed skips parses unknown standing =>
    exact follows_carried hkeyed skips (Or.inr ⟨parses, rfl⟩) rfl rfl rfl
      fun hq => hq.cancelOrder _ _

end Diff

/-! ### The tick -/

theorem fatesOf_map {ks : List ℕ} (hnodup : ks.Nodup) (k : ℕ) (f : Fate) :
    fatesOf k (ks.map fun j => (j, f)) = if k ∈ ks then [f] else [] := by
  induction ks with
  | nil => rfl
  | cons j ks ih =>
    rw [List.nodup_cons] at hnodup
    rw [List.map_cons, ← List.singleton_append, fatesOf_append, ih hnodup.2, fatesOf_singleton]
    by_cases hj : j = k
    · subst hj
      simp [hnodup.1]
    · have hk : ¬ k = j := fun h => hj h.symm
      simp [hj, hk]

/-- **The tick.** -/
theorem follows_cleanup (hkeyed : s.Keyed) (now k : ℕ) :
    Follows k s (.cleanup now) (s.cleanupStalePending now).1
      (s.fates (s.cleanupStalePending now).1 (.cleanup now)) := by
  have hkeyed' : (s.cleanupStalePending now).1.Keyed := by
    intro j x hx
    rw [cleanupStalePending] at hx
    simp only at hx
    rw [getElem?_capped fun x : NodeDataOrderStatus × ℕ => decide (now - x.2 < pendingMaxAge)] at hx
    split at hx
    · cases hx
    · exact hkeyed j x (Option.filter_eq_some_iff.mp hx).1
  have hquiet : s.Quiet k → (s.cleanupStalePending now).1.Quiet k := fun hq =>
    hq.of_imp (fun c hnone => (OrderBooks.find?_compactAll ..).trans hnone) id
  have hsaid : fatesOf k (s.fates (s.cleanupStalePending now).1 (.cleanup now)) =
      if (s.pendingNewDiffs[k]?).isSome && ((s.cleanupStalePending now).1.pendingNewDiffs[k]?).isNone
        then [.evicted (s.cleanupStalePending now).2] else [] := by
    rw [fates, fatesOf_map (Std.ExtTreeMap.nodup_keys.filter _)]
    refine if_congr ?_ rfl rfl
    rw [List.mem_filter, Std.ExtTreeMap.mem_keys, Std.ExtTreeMap.mem_iff_isSome_getElem?,
      Std.ExtTreeMap.contains_eq_isSome_getElem?, Bool.and_eq_true, Option.not_isSome]
  cases hk : s.pendingNewDiffs[k]? with
  | none =>
    refine .leaves hkeyed' rfl ?_ (fun hq _ => hquiet hq) ?_ ?_
    · rcases s.getElem?_pendingNewDiffs_cleanup with h | h
      · exact h.trans hk
      · exact h
    · intro _
      rw [hsaid, hk]
      rfl
    · intro p hp
      rw [hk] at hp
      cases hp
  | some p =>
    rcases s.getElem?_pendingNewDiffs_cleanup with h | h
    · refine .stays hkeyed' rfl ?_ ?_ hquiet
      · rw [h]
        simp [resized]
      · rw [hsaid, h, hk]
        rfl
    · refine .leaves hkeyed' rfl h (fun hq _ => hquiet hq) ?_ ?_
      · intro hnone
        rw [hk] at hnone
        cases hnone
      · intro q hq huser
        refine ⟨.evicted (s.cleanupStalePending now).2, by simp [hsaid, hk, h], ?_⟩
        rw [cleanup_reports hq huser h]
        simp

/-! ### Any event -/

theorem eventStep_eq_some {e : StateEvent} (h : s.eventStep e = some (s', said)) :
    ∃ coins, s.applyEvent e = (s', .ok coins) ∧ said = s.fates s' e := by
  rw [eventStep] at h
  split at h
  · next s₁ coins happly =>
    cases h
    exact ⟨coins, happly, rfl⟩
  · cases h

/-- **An event that does not place the order.** -/
theorem follows_step {e : StateEvent} (hkeyed : s.Keyed) (hstep : s.eventStep e = some (s', said))
    (hplaces : places s.ignoreSpot k e = false) : Follows k s e s' said := by
  obtain ⟨coins, happly, rfl⟩ := eventStep_eq_some hstep
  cases e with
  | statuses height time =>
    cases happly
    refine .stays (hkeyed.of_eq (by simp)) (by simp) (by simp [resized]) rfl fun hq => ?_
    exact hq.of_imp (by simp) (by simp)
  | status now st => exact follows_status hkeyed happly k
  | diffs height time =>
    cases happly
    refine .stays (hkeyed.of_eq ?_) ?_ ?_ rfl fun hq => ?_
    · rw [pendingOrderStatuses_advance]
      rfl
    · rw [ignoreSpot_advance]
      rfl
    · simp [resized, forgetZeroed]
    · refine hq.of_imp (fun c hnone => ?_) fun hmem => ?_
      · rw [orderBook_advance]
        exact hnone
      · rw [zeroedSet_advance] at hmem
        exact s.mem_zeroedSet_of_forgetZeroed height hmem
  | diff now height d => exact follows_diff hkeyed happly hplaces
  | cleanup now =>
    cases happly
    exact follows_cleanup hkeyed now k

/-- **The `New` diff of an order** that neither rests nor waits. -/
theorem placed_step {now height sz : ℕ} {anchor : Option ℕ} {d : NodeDataOrderDiff}
    (hkeyed : s.Keyed) (hstep : s.eventStep (.diff now height d) = some (s', said))
    (hskips : s.skips d = false)
    (hparses : InnerOrderDiff.tryFrom d.rawBookDiff = some (.new sz anchor))
    (hquiet : s.Quiet d.oid) (hnone : s.pendingNewDiffs[d.oid]? = none) :
    s'.Keyed ∧ s'.ignoreSpot = s.ignoreSpot ∧
      ((s'.Quiet d.oid ∧ fatesOf d.oid said = [] ∧ s'.Waits d.oid sz d.user) ∨
        (s'.pendingNewDiffs[d.oid]? = none ∧ fatesOf d.oid said = [.paired])) := by
  obtain ⟨coins, happly, rfl⟩ := eventStep_eq_some hstep
  have houtcome := s.diffOutcome now height d
  rw [show s.applyOrderDiff now height d = _ from happly] at houtcome
  cases houtcome with
  | skipped skips => rw [hskips] at skips; cases skips
  | @paired sz' since anchor' st inner skips parses waits order late =>
    have hkeyed' := hkeyed.erase (pendingOrderStatuses_restPaired
      { s with pendingOrderStatuses := s.pendingOrderStatuses.erase d.oid } inner sz' anchor'
      st.time.toNat)
    refine ⟨hkeyed', by simp, Or.inr ⟨by simpa using hnone, ?_⟩⟩
    simp [fates, hskips, parses, Std.ExtTreeMap.contains_eq_isSome_getElem?, waits]
  | @waits sz' anchor' skips parses unknown =>
    rw [hparses] at parses
    cases parses
    refine ⟨hkeyed.of_eq rfl, rfl, Or.inl ⟨hquiet.of_imp (fun _ h => h) id, ?_, ?_⟩⟩
    · simp [fates, hskips, hparses, Std.ExtTreeMap.contains_eq_isSome_getElem?, unknown]
    · exact ⟨_, Std.ExtTreeMap.getElem?_insert_self, rfl, rfl⟩
  | resized skips parses => rw [hparses] at parses; cases parses
  | zeroed skips parses => rw [hparses] at parses; cases parses
  | updated skips parses => rw [hparses] at parses; cases parses
  | cancelled skips parses => rw [hparses] at parses; cases parses
  | followed skips parses => rw [hparses] at parses; cases parses
  | removed skips parses => rw [hparses] at parses; cases parses

/-! ## Runs -/

/-- The size of an order after some events, from the size it was placed with. -/
def latestSz (ignoreSpot : Bool) (k sz : ℕ) (events : List StateEvent) : ℕ :=
  events.foldl (resized ignoreSpot k) sz

/-- **What is known of a `New` diff**: nothing became of it and it waits, with its latest
size; or it does not wait and exactly one thing became of it, which is no eviction that
was not reported. -/
def Accounted (k sz : ℕ) (user : Address) (s : OrderBookState) (said : List (ℕ × Fate)) : Prop :=
  (fatesOf k said = [] ∧ s.Waits k sz user) ∨
  (s.pendingNewDiffs[k]? = none ∧ (fatesOf k said).length = 1 ∧
    Fate.evicted false ∉ fatesOf k said)

instance (k sz : ℕ) (user : Address) (s : OrderBookState) (said : List (ℕ × Fate)) :
    Decidable (Accounted k sz user s said) :=
  inferInstanceAs (Decidable (_ ∨ _))

/-- Before the `New` diff of an order: nothing is known of it. -/
theorem unplaced_run {events : List StateEvent} (hkeyed : s.Keyed) (hquiet : s.Quiet k)
    (hnone : s.pendingNewDiffs[k]? = none) (hplaces : ∀ e ∈ events, places s.ignoreSpot k e = false)
    (hrun : runSteps eventStep events s = some (s', said)) :
    s'.Keyed ∧ s'.ignoreSpot = s.ignoreSpot ∧ s'.Quiet k ∧ s'.pendingNewDiffs[k]? = none ∧
      fatesOf k said = [] := by
  induction events generalizing s said with
  | nil =>
    cases hrun
    exact ⟨hkeyed, rfl, hquiet, hnone, rfl⟩
  | cons e events ih =>
    obtain ⟨s₁, said₁, said₂, hstep, hrest, rfl⟩ := Runs.cons_eq_some.mp hrun
    have hfollows := follows_step hkeyed hstep (hplaces e List.mem_cons_self)
    obtain ⟨hnone₁, hsaid₁⟩ := hfollows.absent hnone
    obtain ⟨hk, hspot, hq, hn, hsaid⟩ := ih hfollows.keyed (hfollows.quiet hquiet hnone) hnone₁
      (by
        rw [hfollows.ignoreSpot]
        exact fun e he => hplaces e (List.mem_cons_of_mem _ he)) hrest
    exact ⟨hk, hspot.trans hfollows.ignoreSpot, hq, hn, by rw [fatesOf_append, hsaid₁, hsaid]; rfl⟩

/-- After a `New` diff has left the map: nothing more becomes of it. -/
theorem settled_run {events : List StateEvent} (hkeyed : s.Keyed)
    (hnone : s.pendingNewDiffs[k]? = none) (hplaces : ∀ e ∈ events, places s.ignoreSpot k e = false)
    (hrun : runSteps eventStep events s = some (s', said)) :
    s'.pendingNewDiffs[k]? = none ∧ fatesOf k said = [] := by
  induction events generalizing s said with
  | nil =>
    cases hrun
    exact ⟨hnone, rfl⟩
  | cons e events ih =>
    obtain ⟨s₁, said₁, said₂, hstep, hrest, rfl⟩ := Runs.cons_eq_some.mp hrun
    have hfollows := follows_step hkeyed hstep (hplaces e List.mem_cons_self)
    obtain ⟨hnone₁, hsaid₁⟩ := hfollows.absent hnone
    obtain ⟨hn, hsaid⟩ := ih hfollows.keyed hnone₁
      (by
        rw [hfollows.ignoreSpot]
        exact fun e he => hplaces e (List.mem_cons_of_mem _ he)) hrest
    exact ⟨hn, by rw [fatesOf_append, hsaid₁, hsaid]; rfl⟩

/-- **A `New` diff that waits is accounted for** in all that follows. -/
theorem waiting_run {events : List StateEvent} {sz : ℕ} {user : Address} (hkeyed : s.Keyed)
    (hquiet : s.Quiet k) (hwaits : s.Waits k sz user) (huser : isProtocolAddress user = false)
    (hplaces : ∀ e ∈ events, places s.ignoreSpot k e = false)
    (hrun : runSteps eventStep events s = some (s', said)) :
    Accounted k (latestSz s.ignoreSpot k sz events) user s' said := by
  induction events generalizing s said sz with
  | nil =>
    cases hrun
    exact Or.inl ⟨rfl, hwaits⟩
  | cons e events ih =>
    obtain ⟨s₁, said₁, said₂, hstep, hrest, rfl⟩ := Runs.cons_eq_some.mp hrun
    have hfollows := follows_step hkeyed hstep (hplaces e List.mem_cons_self)
    have hplaces' : ∀ e ∈ events, places s₁.ignoreSpot k e = false := by
      rw [hfollows.ignoreSpot]
      exact fun e he => hplaces e (List.mem_cons_of_mem _ he)
    rcases hfollows.waits sz user hwaits hquiet huser with ⟨hq, hsaid₁, hw⟩ | ⟨hnone, f, hf, hne⟩
    · have hrest := ih hfollows.keyed hq hw hplaces' hrest
      rw [hfollows.ignoreSpot] at hrest
      rw [Accounted, fatesOf_append, hsaid₁]
      exact hrest
    · obtain ⟨hn, hsaid⟩ := settled_run hfollows.keyed hnone hplaces' hrest
      refine Or.inr ⟨hn, ?_⟩
      rw [fatesOf_append, hf, hsaid]
      exact ⟨rfl, by simpa using hne.symm⟩

/-- **Every `New` diff is accounted for**, at every moment of a run from a snapshot: one of
a coin that is not skipped, not of the protocol's address, and the only one of its order,
whose order does not rest in the books of the snapshot.  And the tick keeps the caps. -/
theorem accounted_of_run (snapshot : Snapshots InnerL4Order) (untriggered : List InnerL4Order)
    (height time : ℕ) (ignoreTriggers ignoreSpot trackUntriggered : Bool)
    {before after : List StateEvent} {now block sz : ℕ} {anchor : Option ℕ}
    {d : NodeDataOrderDiff}
    (hrun : runSteps eventStep (before ++ .diff now block d :: after)
      (fromSnapshot snapshot untriggered height time ignoreTriggers ignoreSpot
        trackUntriggered) = some (s', said))
    (hparses : InnerOrderDiff.tryFrom d.rawBookDiff = some (.new sz anchor))
    (hspot : (d.coin.isSpot && ignoreSpot) = false) (huser : isProtocolAddress d.user = false)
    (hdistinct : ∀ e ∈ before ++ after, places ignoreSpot d.oid e = false)
    (hunknown : ∀ c, (fromSnapshot snapshot untriggered height time ignoreTriggers ignoreSpot
      trackUntriggered).orderBook.find? c d.oid = none) :
    Accounted d.oid (latestSz ignoreSpot d.oid sz after) d.user s' said ∧
      ∀ now, s'.WithinCaps now := by
  refine ⟨?_, fun now => s'.withinCaps now⟩
  set s₀ := fromSnapshot snapshot untriggered height time ignoreTriggers ignoreSpot
    trackUntriggered with hs₀
  have hspot₀ : s₀.ignoreSpot = ignoreSpot := rfl
  have hkeyed : s₀.Keyed := fun j x hx => by
    rw [show s₀.pendingOrderStatuses = ∅ from rfl] at hx
    simp at hx
  have hquiet : s₀.Quiet d.oid := by
    refine ⟨hunknown, ?_⟩
    rw [show s₀.zeroedSet = ∅ from rfl]
    exact Std.ExtTreeSet.not_mem_empty
  have hnone : s₀.pendingNewDiffs[d.oid]? = none := by
    rw [show s₀.pendingNewDiffs = ∅ from rfl]
    exact Std.ExtTreeMap.getElem?_empty
  obtain ⟨s₁, said₁, said₂, hbefore, hrest, rfl⟩ := Runs.append_eq_some.mp hrun
  obtain ⟨s₂, said₃, said₄, hnew, hafter, rfl⟩ := Runs.cons_eq_some.mp hrest
  obtain ⟨hkeyed₁, hspot₁, hquiet₁, hnone₁, hsaid₁⟩ := unplaced_run hkeyed hquiet hnone
    (fun e he => hspot₀ ▸ hdistinct e (List.mem_append_left _ he)) hbefore
  obtain ⟨hkeyed₂, hspot₂, hplaced⟩ := placed_step hkeyed₁ hnew
    (by rw [skips, hspot₁]; exact hspot) hparses hquiet₁ hnone₁
  have hspot₂ : s₂.ignoreSpot = ignoreSpot := hspot₂.trans (hspot₁.trans hspot₀)
  have hplaces : ∀ e ∈ after, places s₂.ignoreSpot d.oid e = false := by
    rw [hspot₂]
    exact fun e he => hdistinct e (List.mem_append_right _ he)
  rcases hplaced with ⟨hquiet₂, hsaid₃, hwaits⟩ | ⟨hgone, hpaired⟩
  · have haccounted := waiting_run hkeyed₂ hquiet₂ hwaits huser hplaces hafter
    rw [hspot₂] at haccounted
    rw [Accounted, fatesOf_append, fatesOf_append, hsaid₁, hsaid₃]
    exact haccounted
  · obtain ⟨hn, hsaid⟩ := settled_run hkeyed₂ hgone hplaces hafter
    refine Or.inr ⟨hn, ?_⟩
    rw [fatesOf_append, fatesOf_append, hsaid₁, hpaired, hsaid]
    exact ⟨rfl, by simp⟩

/-! ## Batches -/

/-- The events of a batch. -/
def batchEvents : Input → List StateEvent
  | .statuses now batch =>
    .statuses batch.blockNumber batch.time :: batch.events.map fun st => .status now st
  | .diffs now batch =>
    .diffs batch.blockNumber batch.time ::
      batch.events.map fun d => .diff now batch.blockNumber d

/-- Batches and ticks, the tick with its instant; a failure ends the run. -/
def runTicks : List (Input ⊕ ℕ) → OrderBookState → Option OrderBookState
  | [], s => some s
  | .inl i :: calls, s =>
    match applyInput s i with
    | (s', .ok _) => runTicks calls s'
    | (_, .error _) => none
  | .inr now :: calls, s => runTicks calls (s.cleanupStalePending now).1

/-- The events of batches and ticks. -/
def tickEvents : List (Input ⊕ ℕ) → List StateEvent :=
  List.flatMap fun
    | .inl i => batchEvents i
    | .inr now => [.cleanup now]

theorem runSteps_applyAll {E : Type} {apply : OrderBookState → E →
    OrderBookState × Except Failure (List Coin)} (event : E → StateEvent)
    (happly : ∀ s e, s.applyEvent (event e) = apply s e) {events : List E}
    {changed changed' : Std.ExtTreeSet Coin}
    (h : applyAll apply events s changed = (s', .ok changed')) :
    ∃ said, runSteps eventStep (events.map event) s = some (s', said) := by
  induction events generalizing s changed with
  | nil =>
    cases h
    exact ⟨[], rfl⟩
  | cons e events ih =>
    rw [applyAll] at h
    split at h
    · next s₁ coins he =>
      obtain ⟨said, hrun⟩ := ih h
      have hstep : s.eventStep (event e) = some (s₁, s.fates s₁ (event e)) := by
        rw [eventStep, happly, he]
      exact ⟨_, Runs.cons_eq_some.mpr ⟨s₁, _, said, hstep, hrun, rfl⟩⟩
    · cases h

theorem runSteps_batchEvents {i : Input} {changed : Std.ExtTreeSet Coin}
    (h : applyInput s i = (s', .ok changed)) :
    ∃ said, runSteps eventStep (batchEvents i) s = some (s', said) := by
  cases i with
  | statuses now batch =>
    obtain ⟨said, hrun⟩ := runSteps_applyAll (.status now) (fun _ _ => rfl) h
    exact ⟨_, Runs.cons_eq_some.mpr ⟨_, _, said, rfl, hrun, rfl⟩⟩
  | diffs now batch =>
    obtain ⟨said, hrun⟩ := runSteps_applyAll (.diff now batch.blockNumber)
      (fun _ _ => rfl) h
    exact ⟨_, Runs.cons_eq_some.mpr ⟨_, _, said, rfl, hrun, rfl⟩⟩

/-- **Batches and ticks are runs of their events.** -/
theorem runSteps_tickEvents {calls : List (Input ⊕ ℕ)} (h : runTicks calls s = some s') :
    ∃ said, runSteps eventStep (tickEvents calls) s = some (s', said) := by
  induction calls generalizing s with
  | nil =>
    cases h
    exact ⟨[], rfl⟩
  | cons call calls ih =>
    cases call with
    | inl i =>
      rw [runTicks] at h
      split at h
      · next s₁ changed hi =>
        obtain ⟨said₁, hbatch⟩ := runSteps_batchEvents hi
        obtain ⟨said₂, hrun⟩ := ih h
        exact ⟨_, Runs.append_eq_some.mpr ⟨s₁, said₁, said₂, hbatch, hrun, rfl⟩⟩
      · cases h
    | inr now =>
      obtain ⟨said, hrun⟩ := ih h
      exact ⟨_, Runs.cons_eq_some.mpr ⟨_, _, said, rfl, hrun, rfl⟩⟩

end OrderBookState

end HlOrderbook

namespace HlOrderbook

section Example

open OrderBookState

attribute [local instance] SlabPolicy.latest FixedPoint.decimal

/-- A diff of order 7. -/
private def diff7 (d : OrderDiff) : StateEvent := .diff 0 1 ⟨1, 7, "100", "BTC", d⟩

/-- **A diff that waits and is updated.** -/
theorem accounted_updated :
    ∃ x ∈ runSteps eventStep ([.diffs 1 1] ++ diff7 (.new "5" none) ::
        [diff7 (.update "5" "3")]) (fromSnapshot ∅ [] 0 0 true false true),
      Accounted 7 (latestSz false 7 500000000 [diff7 (.update "5" "3")]) 1 x.1 x.2 := by
  have hrun : (runSteps eventStep ([.diffs 1 1] ++ diff7 (.new "5" none) ::
      [diff7 (.update "5" "3")]) (fromSnapshot ∅ [] 0 0 true false true)).isSome = true := by
    decide +kernel
  obtain ⟨x, hx⟩ := Option.isSome_iff_exists.mp hrun
  have hparses : InnerOrderDiff.tryFrom (.new "5" none) = some (.new 500000000 none) := by
    decide +kernel
  refine ⟨x, hx, (accounted_of_run ∅ [] 0 0 true false true hx hparses (by decide +kernel)
    (by decide +kernel) (by decide +kernel) ?_).1⟩
  intro c
  simp [fromSnapshot, OrderBooks.find?_fromSnapshots, Snapshots.extractTriggers]

/-- **The order rests in the snapshot**: the update is not carried over to the diff. -/
theorem not_accounted_resting :
    ∃ x ∈ runSteps eventStep ([.diffs 1 1] ++ diff7 (.new "5" none) ::
        [diff7 (.update "5" "3")])
        (fromSnapshot ((∅ : Snapshots InnerL4Order).insert "BTC"
          ⟨[.limit "BTC" .bid 10000000000 500000000 7], []⟩) [] 0 0 true false true),
      ¬ Accounted 7 (latestSz false 7 500000000 [diff7 (.update "5" "3")]) 1 x.1 x.2 := by
  decide +kernel

end Example

end HlOrderbook
