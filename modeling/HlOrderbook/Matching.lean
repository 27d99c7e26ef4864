import HlOrderbook.PriceLevel
import Mathlib.Data.List.Basic

/-!
# Matching across levels

A taker meets the levels of the other side in price priority, from the best
price to its limit, and every level in queue order.  The code does it with an
iterator over a sorted map, writing each level it meets and removing afterwards
the ones it emptied.  The result is that of one pass of `matchQueue` over all
the queues put together.

## Main definitions

* `Levels O` — one side of a book, its levels by price.
* `matchOrder makers taker` — the code.
* `crossingPrices makers side limit` — the prices met, best first.
* `queuesAt m prices` — the queues at these prices, put together.
-/

set_option autoImplicit false
set_option linter.unusedSectionVars false

namespace HlOrderbook

/-- One side of a book: the levels by price. -/
abbrev Levels (O : Type) := Std.ExtTreeMap ℕ (PriceLevel O)

variable {O : Type} [InnerOrder O]

open InnerOrder

/-- The queue at a price; no order where there is no level. -/
def queueAt (m : Levels O) (px : ℕ) : List (ℕ × O) := (m[px]?.map PriceLevel.items).getD []

/-- The queues at several prices, put together. -/
def queuesAt (m : Levels O) (prices : List ℕ) : List (ℕ × O) := prices.flatMap (queueAt m)

/-- Whether a taker with this side and limit trades at a price. -/
def crosses (takerSide : Side) (limitPx px : ℕ) : Bool :=
  match takerSide with
  | .ask => limitPx ≤ px
  | .bid => px ≤ limitPx

/-- The loop over the levels in priority order.  The state is the side, the
taker, the makers filled so far and the prices of the levels emptied so far. -/
def matchLevels (takerSide : Side) (limitPx : ℕ) : List (ℕ × PriceLevel O) → Levels O → O →
    List ℕ → List ℕ → Levels O × O × List ℕ × List ℕ
  | [], makers, taker, filledOids, keysToRemove => (makers, taker, filledOids, keysToRemove)
  | (px, level) :: rest, makers, taker, filledOids, keysToRemove =>
    if !crosses takerSide limitPx px then (makers, taker, filledOids, keysToRemove)
    else
      let (level, taker, filledOids) := level.matchAgainst taker filledOids
      let makers := makers.insert px level
      let keysToRemove := if level.isEmpty then keysToRemove ++ [px] else keysToRemove
      if sz taker = 0 then (makers, taker, filledOids, keysToRemove)
      else matchLevels takerSide limitPx rest makers taker filledOids keysToRemove

/-- The levels in the priority order of a taker. -/
def inPriority (takerSide : Side) (makers : Levels O) : List (ℕ × PriceLevel O) :=
  match takerSide with
  | .ask => makers.toList.reverse
  | .bid => makers.toList

/-- Match a taker against the levels of the other side: the levels left, the
taker left, and the identifiers of the makers filled. -/
def matchOrder (makers : Levels O) (taker : O) : Levels O × O × List ℕ :=
  let (makers, taker, filledOids, keysToRemove) :=
    matchLevels (side taker) (limitPx taker) (inPriority (side taker) makers) makers taker [] []
  (keysToRemove.foldl (fun m px => m.erase px) makers, taker, filledOids)

/-- The prices a taker trades at, best first. -/
def crossingPrices (makers : Levels O) (takerSide : Side) (limitPx : ℕ) : List ℕ :=
  ((inPriority takerSide makers).map Prod.fst).filter (crosses takerSide limitPx)

/-! ## Queues -/

theorem queueAt_of_some {m : Levels O} {px : ℕ} {l : PriceLevel O} (h : m[px]? = some l) :
    queueAt m px = l.items := by
  simp [queueAt, h]

theorem queueAt_of_none {m : Levels O} {px : ℕ} (h : m[px]? = none) : queueAt m px = [] := by
  simp [queueAt, h]

theorem queueAt_congr {m m' : Levels O} {px : ℕ} (h : m'[px]? = m[px]?) :
    queueAt m' px = queueAt m px := by
  simp [queueAt, h]

theorem queuesAt_congr {m m' : Levels O} {prices : List ℕ}
    (h : ∀ px ∈ prices, m'[px]? = m[px]?) : queuesAt m' prices = queuesAt m prices := by
  induction prices with
  | nil => rfl
  | cons px prices ih =>
    simp only [queuesAt, List.flatMap_cons]
    rw [queueAt_congr (h px List.mem_cons_self)]
    exact congrArg _ (ih fun p hp => h p (List.mem_cons_of_mem _ hp))

@[simp] theorem queuesAt_nil (m : Levels O) : queuesAt m [] = [] := rfl

@[simp] theorem queuesAt_cons (m : Levels O) (px : ℕ) (prices : List ℕ) :
    queuesAt m (px :: prices) = queueAt m px ++ queuesAt m prices := rfl

/-- **Matching two queues one after the other.**  The second is met only by what
is left of the taker. -/
theorem matchQueue_append (taker : O) {xs : List (ℕ × O)} (hxs : xs ≠ []) (ys : List (ℕ × O)) :
    matchQueue taker (xs ++ ys) =
      if sz (matchQueue taker xs).2.1 = 0 then
        ((matchQueue taker xs).1 ++ ys, (matchQueue taker xs).2.1, (matchQueue taker xs).2.2)
      else
        ((matchQueue (matchQueue taker xs).2.1 ys).1, (matchQueue (matchQueue taker xs).2.1 ys).2.1,
          (matchQueue taker xs).2.2 ++ (matchQueue (matchQueue taker xs).2.1 ys).2.2) := by
  induction xs generalizing taker with
  | nil => exact absurd rfl hxs
  | cons x rest ih =>
    obtain ⟨k, maker⟩ := x
    by_cases hle : sz maker ≤ sz taker
    · by_cases heq : sz taker = sz maker
      · have hmin : min (sz taker) (sz maker) = sz taker := by omega
        simp only [List.cons_append, matchQueue, heq, if_true]
        simp
      · have hgt : sz taker - min (sz taker) (sz maker) ≠ 0 := by omega
        simp only [List.cons_append, matchQueue, hle, heq, if_true, if_false]
        cases rest with
        | nil => simp [matchQueue, hgt]
        | cons y ys' =>
          rw [ih _ (by simp)]
          split <;> simp
    · have hmin : min (sz taker) (sz maker) = sz taker := by omega
      simp only [List.cons_append, matchQueue, hle, if_false]
      simp [hmin]

/-! ## The loop -/

/-- The loop stops at the first level that does not cross. -/
theorem matchLevels_takeWhile (takerSide : Side) (limitPx : ℕ) (todo : List (ℕ × PriceLevel O))
    (makers : Levels O) (taker : O) (filledOids keysToRemove : List ℕ) :
    matchLevels takerSide limitPx todo makers taker filledOids keysToRemove =
      matchLevels takerSide limitPx (todo.takeWhile fun x => crosses takerSide limitPx x.1)
        makers taker filledOids keysToRemove := by
  induction todo generalizing makers taker filledOids keysToRemove with
  | nil => rfl
  | cons x rest ih =>
    obtain ⟨px, level⟩ := x
    by_cases hc : crosses takerSide limitPx px = true
    · simp only [List.takeWhile_cons, hc, if_true, matchLevels, Bool.not_true]
      simp only [Bool.false_eq_true, if_false, ih]
    · simp [hc, matchLevels]

/-- What the loop leaves behind when every level it is given crosses: the queues
together are matched as one, nothing else is touched, and the levels reported
for removal are those left empty. -/
structure LevelsMatch (todo : List (ℕ × PriceLevel O)) (makers : Levels O) (taker : O)
    (filledOids keysToRemove : List ℕ) (r : Levels O × O × List ℕ × List ℕ) : Prop where
  frame : ∀ px, px ∉ todo.map Prod.fst → r.1[px]? = makers[px]?
  present : ∀ px ∈ todo.map Prod.fst, r.1[px]?.isSome
  part : ∀ px k o', (k, o') ∈ queueAt r.1 px →
    ∃ o, (k, o) ∈ queueAt makers px ∧ o' = modifySz o (sz o')
  queues : queuesAt r.1 (todo.map Prod.fst) =
    (matchQueue taker (queuesAt makers (todo.map Prod.fst))).1
  taker_eq : r.2.1 = (matchQueue taker (queuesAt makers (todo.map Prod.fst))).2.1
  filled : r.2.2.1 =
    filledOids ++ (matchQueue taker (queuesAt makers (todo.map Prod.fst))).2.2
  removed : ∃ keys, r.2.2.2 = keysToRemove ++ keys ∧
    ∀ px, px ∈ keys ↔ px ∈ todo.map Prod.fst ∧ queueAt r.1 px = []

section OneLevel

variable {makers : Levels O} {px : ℕ} {level level' : PriceLevel O} {taker taker' : O}
  {rest : List (ℕ × PriceLevel O)} {filledOids keysToRemove : List ℕ}

theorem getElem?_insert_level (makers : Levels O) (px : ℕ) (level' : PriceLevel O) (q : ℕ) :
    (makers.insert px level')[q]? = if px = q then some level' else makers[q]? := by
  simp [Std.ExtTreeMap.getElem?_insert]

theorem getElem?_insert_level_of_mem (hpx : px ∉ rest.map Prod.fst) {q : ℕ}
    (hq : q ∈ rest.map Prod.fst) : (makers.insert px level')[q]? = makers[q]? := by
  rw [getElem?_insert_level, if_neg]
  rintro rfl
  exact hpx hq

/-- What is left at a level that was matched, and what rests at the others. -/
theorem part_insert (hlevel : makers[px]? = some level)
    (hitems : level'.items = (matchQueue taker level.items).1) {q k : ℕ} {o' : O}
    (hmem : (k, o') ∈ queueAt (makers.insert px level') q) :
    ∃ o, (k, o) ∈ queueAt makers q ∧ o' = modifySz o (sz o') := by
  have hget := getElem?_insert_level makers px level' q
  by_cases hq : px = q
  · subst hq
    rw [if_pos rfl] at hget
    rw [queueAt_of_some hget, hitems] at hmem
    obtain ⟨o, ho, heq, -⟩ := (matchQueue_spec taker level.items).of_mem_left hmem
    exact ⟨o, by rw [queueAt_of_some hlevel]; exact ho, heq⟩
  · rw [if_neg hq] at hget
    rw [queueAt_congr hget] at hmem
    exact ⟨o', hmem, by simp⟩

theorem queuesAt_level (hlevel : makers[px]? = some level) :
    queuesAt makers (((px, level) :: rest).map Prod.fst) =
      level.items ++ queuesAt makers (rest.map Prod.fst) := by
  rw [List.map_cons, queuesAt_cons, queueAt_of_some hlevel]

/-- **The taker is used up at a level**: the loop stops there. -/
theorem LevelsMatch.stop (hlevel : makers[px]? = some level) (hpx : px ∉ rest.map Prod.fst)
    (hin : ∀ x ∈ rest, makers[x.1]? = some x.2) (hfull : level.items ≠ [])
    (hne : ∀ x ∈ rest, x.2.items ≠ [])
    (hitems : level'.items = (matchQueue taker level.items).1)
    (htaker : taker' = (matchQueue taker level.items).2.1) (h0 : sz taker' = 0) :
    LevelsMatch ((px, level) :: rest) makers taker filledOids keysToRemove
      (makers.insert px level', taker', filledOids ++ (matchQueue taker level.items).2.2,
        if level'.isEmpty then keysToRemove ++ [px] else keysToRemove) := by
  have hrest : ∀ q ∈ rest.map Prod.fst, (makers.insert px level')[q]? = makers[q]? :=
    fun q hq => getElem?_insert_level_of_mem hpx hq
  have hhere : (makers.insert px level')[px]? = some level' := by
    rw [getElem?_insert_level, if_pos rfl]
  have hm : matchQueue taker (level.items ++ queuesAt makers (rest.map Prod.fst)) =
      (level'.items ++ queuesAt makers (rest.map Prod.fst), taker',
        (matchQueue taker level.items).2.2) := by
    rw [matchQueue_append taker hfull, if_pos (by rw [← htaker]; exact h0), hitems, htaker]
  refine ⟨fun q hq => ?_, fun q hq => ?_, fun q k o' => part_insert hlevel hitems, ?_, ?_, ?_,
    if level'.isEmpty then [px] else [], ?_, fun q => ?_⟩
  · rw [getElem?_insert_level, if_neg]
    rintro rfl
    exact hq (by simp)
  · rcases List.mem_cons.mp hq with rfl | hq
    · simp
    · obtain ⟨y, hy, rfl⟩ := List.mem_map.mp hq
      simp [hrest _ hq, hin y hy]
  · rw [queuesAt_level hlevel, hm, List.map_cons, queuesAt_cons, queuesAt_congr hrest,
      queueAt_of_some hhere]
  · rw [queuesAt_level hlevel, hm]
  · rw [queuesAt_level hlevel, hm]
  · dsimp only
    split <;> simp
  · rw [List.map_cons, List.mem_cons]
    by_cases hq : q = px
    · subst hq
      rw [queueAt_of_some hhere]
      by_cases he : level'.isEmpty = true
      · simp [he, (PriceLevel.isEmpty_iff _).mp he]
      · simp [he, mt (PriceLevel.isEmpty_iff _).mpr he]
    · have hqn : q ∉ if level'.isEmpty = true then [px] else [] := by
        split <;> simp [hq]
      refine iff_of_false hqn ?_
      rintro ⟨hmem, hempty⟩
      rcases hmem with hmem | hmem
      · exact hq hmem
      · obtain ⟨y, hy, rfl⟩ := List.mem_map.mp hmem
        rw [queueAt_congr (hrest _ hmem), queueAt_of_some (hin y hy)] at hempty
        exact hne y hy hempty

/-- **Something is left of the taker after a level**: the level is emptied, and the loop
goes on. -/
theorem LevelsMatch.cons {r : Levels O × O × List ℕ × List ℕ} (hlevel : makers[px]? = some level)
    (hpx : px ∉ rest.map Prod.fst) (hfull : level.items ≠ [])
    (hitems : level'.items = (matchQueue taker level.items).1)
    (htaker : taker' = (matchQueue taker level.items).2.1) (h0 : sz taker' ≠ 0)
    (H : LevelsMatch rest (makers.insert px level') taker'
      (filledOids ++ (matchQueue taker level.items).2.2)
      (if level'.isEmpty then keysToRemove ++ [px] else keysToRemove) r) :
    LevelsMatch ((px, level) :: rest) makers taker filledOids keysToRemove r := by
  have hrest : ∀ q ∈ rest.map Prod.fst, (makers.insert px level')[q]? = makers[q]? :=
    fun q hq => getElem?_insert_level_of_mem hpx hq
  have hhere : r.1[px]? = some level' := by
    rw [H.frame px hpx, getElem?_insert_level, if_pos rfl]
  have hempty : level'.items = [] := by
    have hexhausted := (matchQueue_spec taker level.items).exhausted
    rw [← hitems, ← htaker] at hexhausted
    exact hexhausted h0
  have hm : matchQueue taker (level.items ++ queuesAt makers (rest.map Prod.fst)) =
      ((matchQueue taker' (queuesAt makers (rest.map Prod.fst))).1,
        (matchQueue taker' (queuesAt makers (rest.map Prod.fst))).2.1,
        (matchQueue taker level.items).2.2 ++
          (matchQueue taker' (queuesAt makers (rest.map Prod.fst))).2.2) := by
    rw [matchQueue_append taker hfull, if_neg (by rw [← htaker]; exact h0), htaker]
  obtain ⟨keys, hkeys, hiff⟩ := H.removed
  refine ⟨fun q hq => ?_, fun q hq => ?_, fun q k o' hmem => ?_, ?_, ?_, ?_, px :: keys, ?_,
    fun q => ?_⟩
  · rw [List.map_cons, List.mem_cons, not_or] at hq
    rw [H.frame q hq.2, getElem?_insert_level, if_neg (Ne.symm hq.1)]
  · rcases List.mem_cons.mp hq with rfl | hq
    · simp [hhere]
    · exact H.present q hq
  · obtain ⟨o₁, ho₁, heq₁⟩ := H.part q k o' hmem
    obtain ⟨o, ho, heq⟩ := part_insert hlevel hitems ho₁
    refine ⟨o, ho, ?_⟩
    rw [heq, modifySz_modifySz] at heq₁
    exact heq₁
  · rw [queuesAt_level hlevel, hm, List.map_cons, queuesAt_cons, queueAt_of_some hhere, hempty,
      H.queues, queuesAt_congr hrest]
    rfl
  · rw [queuesAt_level hlevel, hm, H.taker_eq, queuesAt_congr hrest]
  · rw [queuesAt_level hlevel, hm, H.filled, queuesAt_congr hrest, List.append_assoc]
  · rw [hkeys, if_pos ((PriceLevel.isEmpty_iff _).mpr hempty)]
    simp
  · rw [List.map_cons, List.mem_cons, List.mem_cons, hiff]
    constructor
    · rintro (rfl | ⟨hq, he⟩)
      · exact ⟨Or.inl rfl, by rw [queueAt_of_some hhere, hempty]⟩
      · exact ⟨Or.inr hq, he⟩
    · rintro ⟨rfl | hq, he⟩
      · exact Or.inl rfl
      · exact Or.inr ⟨hq, he⟩

end OneLevel

/-- **The loop matches the queues as one.** -/
theorem matchLevels_spec (takerSide : Side) (limitPx : ℕ) (todo : List (ℕ × PriceLevel O))
    (makers : Levels O) (taker : O) (filledOids keysToRemove : List ℕ)
    (hcross : ∀ x ∈ todo, crosses takerSide limitPx x.1 = true)
    (hnd : (todo.map Prod.fst).Nodup) (hin : ∀ x ∈ todo, makers[x.1]? = some x.2)
    (hne : ∀ x ∈ todo, x.2.items ≠ []) :
    LevelsMatch todo makers taker filledOids keysToRemove
      (matchLevels takerSide limitPx todo makers taker filledOids keysToRemove) := by
  induction todo generalizing makers taker filledOids keysToRemove with
  | nil =>
    exact ⟨fun _ _ => rfl, by simp, fun _ _ o' h => ⟨o', h, by simp⟩,
      by simp [matchLevels, matchQueue],
      by simp [matchLevels, matchQueue], by simp [matchLevels, matchQueue],
      ⟨[], by simp [matchLevels], by simp⟩⟩
  | cons x rest ih =>
    obtain ⟨px, level⟩ := x
    have hlevel : makers[px]? = some level := hin (px, level) List.mem_cons_self
    have hfull : level.items ≠ [] := hne (px, level) List.mem_cons_self
    have hc : crosses takerSide limitPx px = true := hcross (px, level) List.mem_cons_self
    have hin' : ∀ y ∈ rest, makers[y.1]? = some y.2 :=
      fun y hy => hin y (List.mem_cons_of_mem _ hy)
    have hne' : ∀ y ∈ rest, y.2.items ≠ [] := fun y hy => hne y (List.mem_cons_of_mem _ hy)
    rw [List.map_cons, List.nodup_cons] at hnd
    obtain ⟨hitems, htaker, hfilled⟩ := level.matchAgainst_eq taker filledOids
    simp only [matchLevels, hc, Bool.not_true, Bool.false_eq_true, if_false]
    rw [hfilled]
    split
    case isTrue h0 => exact .stop hlevel hnd.1 hin' hfull hne' hitems htaker h0
    case isFalse h0 =>
      refine .cons hlevel hnd.1 hfull hitems htaker h0 (ih _ _ _ _ ?_ hnd.2 ?_ hne')
      · exact fun y hy => hcross y (List.mem_cons_of_mem _ hy)
      · intro y hy
        rw [getElem?_insert_level_of_mem hnd.1 (List.mem_map_of_mem hy)]
        exact hin' y hy

/-! ## The whole match -/

/-- A predicate that holds up to some place of a list holds of the prefix it is
taken while it holds. -/
theorem takeWhile_eq_filter {α : Type} {p : α → Bool} {l : List α}
    (h : l.Pairwise fun a b => p b = true → p a = true) : l.takeWhile p = l.filter p := by
  induction l with
  | nil => rfl
  | cons a l ih =>
    rw [List.pairwise_cons] at h
    by_cases ha : p a = true
    · simp [ha, ih h.2]
    · have hl : l.filter p = [] := by
        rw [List.filter_eq_nil_iff]
        intro b hb hpb
        exact ha (h.1 b hb hpb)
      simp [ha, hl]

theorem mem_inPriority {takerSide : Side} {makers : Levels O} {px : ℕ} {l : PriceLevel O} :
    (px, l) ∈ inPriority takerSide makers ↔ makers[px]? = some l := by
  cases takerSide <;>
    simp [inPriority, Std.ExtTreeMap.mem_toList_iff_getElem?_eq_some]

theorem inPriority_pairwise (takerSide : Side) (makers : Levels O) (limitPx : ℕ) :
    ((inPriority takerSide makers).map Prod.fst).Pairwise
      fun a b => crosses takerSide limitPx b = true → crosses takerSide limitPx a = true := by
  have hlt : (makers.toList.map Prod.fst).Pairwise (· < ·) := by
    have := makers.ordered_keys_toList
    rw [List.pairwise_map]
    refine this.imp ?_
    intro a b h
    exact Nat.compare_eq_lt.mp h
  cases takerSide with
  | ask =>
    simp only [inPriority, List.map_reverse, List.pairwise_reverse]
    refine hlt.imp ?_
    intro a b hab ha
    simp only [crosses, decide_eq_true_eq] at ha ⊢
    omega
  | bid =>
    refine hlt.imp ?_
    intro a b hab hb
    simp only [crosses, decide_eq_true_eq] at hb ⊢
    omega

theorem inPriority_nodup (takerSide : Side) (makers : Levels O) :
    ((inPriority takerSide makers).map Prod.fst).Nodup := by
  have hnd : (makers.toList.map Prod.fst).Nodup := by
    rw [Std.ExtTreeMap.map_fst_toList_eq_keys]
    exact Std.ExtTreeMap.nodup_keys
  cases takerSide with
  | ask => simpa [inPriority] using List.nodup_reverse.mpr hnd
  | bid => exact hnd

theorem mem_crossingPrices {makers : Levels O} {takerSide : Side} {limitPx px : ℕ} :
    px ∈ crossingPrices makers takerSide limitPx ↔
      (∃ l, makers[px]? = some l) ∧ crosses takerSide limitPx px = true := by
  rw [crossingPrices, List.mem_filter, List.mem_map]
  refine and_congr_left fun _ => ?_
  constructor
  · rintro ⟨⟨q, l⟩, h, rfl⟩
    exact ⟨l, mem_inPriority.mp h⟩
  · rintro ⟨l, h⟩
    exact ⟨(px, l), mem_inPriority.mpr h, rfl⟩

theorem getElem?_foldl_erase {V : Type} (keys : List ℕ) (m : Std.ExtTreeMap ℕ V) (px : ℕ) :
    (keys.foldl (fun m px => m.erase px) m)[px]? = if px ∈ keys then none else m[px]? := by
  induction keys generalizing m with
  | nil => simp
  | cons k keys ih =>
    rw [List.foldl_cons, ih, Std.ExtTreeMap.getElem?_erase]
    by_cases hk : k = px
    · simp [hk]
    · have : ¬ px = k := fun h => hk h.symm
      simp [hk, this]

/-- What a match leaves behind: the queues at the prices it met, put together,
are matched as one queue; no level is left empty and no other level is touched. -/
structure OrderMatch (makers : Levels O) (taker : O) (r : Levels O × O × List ℕ) : Prop where
  frame : ∀ px, px ∉ crossingPrices makers (side taker) (limitPx taker) → r.1[px]? = makers[px]?
  nonempty : ∀ (px : ℕ) (l : PriceLevel O), r.1[px]? = some l → l.items ≠ []
  part : ∀ px k o', (k, o') ∈ queueAt r.1 px →
    ∃ o, (k, o) ∈ queueAt makers px ∧ o' = modifySz o (sz o')
  queues : QueueMatch taker
    (queuesAt makers (crossingPrices makers (side taker) (limitPx taker)))
    (queuesAt r.1 (crossingPrices makers (side taker) (limitPx taker))) r.2.1 r.2.2

/-- The levels a taker trades at, best first. -/
def crossingLevels (makers : Levels O) (takerSide : Side) (limitPx : ℕ) :
    List (ℕ × PriceLevel O) :=
  (inPriority takerSide makers).filter fun x => crosses takerSide limitPx x.1

theorem map_fst_crossingLevels (makers : Levels O) (takerSide : Side) (limitPx : ℕ) :
    (crossingLevels makers takerSide limitPx).map Prod.fst =
      crossingPrices makers takerSide limitPx := by
  rw [crossingLevels, crossingPrices, List.filter_map]
  rfl

theorem mem_crossingLevels {makers : Levels O} {takerSide : Side} {limitPx : ℕ}
    {x : ℕ × PriceLevel O} : x ∈ crossingLevels makers takerSide limitPx ↔
      makers[x.1]? = some x.2 ∧ crosses takerSide limitPx x.1 = true := by
  rw [crossingLevels, List.mem_filter, mem_inPriority]

theorem takeWhile_inPriority (takerSide : Side) (makers : Levels O) (limitPx : ℕ) :
    ((inPriority takerSide makers).takeWhile fun x => crosses takerSide limitPx x.1) =
      crossingLevels makers takerSide limitPx :=
  takeWhile_eq_filter (List.pairwise_map.mp (inPriority_pairwise takerSide makers limitPx))

theorem nodup_crossingPrices (makers : Levels O) (takerSide : Side) (limitPx : ℕ) :
    (crossingPrices makers takerSide limitPx).Nodup := (inPriority_nodup _ _).filter _

/-- **Matching is the loop over the crossing levels**, after which the levels it
emptied are removed. -/
theorem matchOrder_levels (makers : Levels O) (taker : O)
    (hne : ∀ (px : ℕ) (l : PriceLevel O), makers[px]? = some l → l.items ≠ [])
    {todo : List (ℕ × PriceLevel O)}
    (htodo : todo = crossingLevels makers (side taker) (limitPx taker))
    {r : Levels O × O × List ℕ × List ℕ}
    (hr : r = matchLevels (side taker) (limitPx taker) todo makers taker [] []) :
    LevelsMatch todo makers taker [] [] r ∧ (matchOrder makers taker).2 = (r.2.1, r.2.2.1) ∧
      ∀ px : ℕ, (matchOrder makers taker).1[px]? =
        if px ∈ todo.map Prod.fst ∧ queueAt r.1 px = [] then none else r.1[px]? := by
  have H : LevelsMatch todo makers taker [] [] r := by
    rw [hr]
    refine matchLevels_spec (side taker) (limitPx taker) todo makers taker [] [] ?_ ?_ ?_ ?_
    · exact fun x hx => (mem_crossingLevels.mp (htodo ▸ hx)).2
    · rw [htodo, map_fst_crossingLevels]
      exact nodup_crossingPrices _ _ _
    · exact fun x hx => (mem_crossingLevels.mp (htodo ▸ hx)).1
    · exact fun x hx => hne x.1 x.2 (mem_crossingLevels.mp (htodo ▸ hx)).1
  have hmatch : matchOrder makers taker =
      (r.2.2.2.foldl (fun m px => m.erase px) r.1, r.2.1, r.2.2.1) := by
    rw [matchOrder, matchLevels_takeWhile, takeWhile_inPriority, ← htodo, ← hr]
  refine ⟨H, by rw [hmatch], ?_⟩
  intro px
  obtain ⟨keys, hk, hiff⟩ := H.removed
  rw [hmatch]
  refine (getElem?_foldl_erase _ _ _).trans ?_
  rw [hk, List.nil_append]
  exact if_congr (hiff px) rfl rfl

/-- What is left in the queues by the removal of the emptied levels. -/
theorem queueAt_matchOrder (makers : Levels O) (taker : O)
    (hne : ∀ (px : ℕ) (l : PriceLevel O), makers[px]? = some l → l.items ≠ [])
    {todo : List (ℕ × PriceLevel O)}
    (htodo : todo = crossingLevels makers (side taker) (limitPx taker))
    {r : Levels O × O × List ℕ × List ℕ}
    (hr : r = matchLevels (side taker) (limitPx taker) todo makers taker [] []) (px : ℕ) :
    queueAt (matchOrder makers taker).1 px = queueAt r.1 px := by
  obtain ⟨-, -, hget⟩ := matchOrder_levels makers taker hne htodo hr
  by_cases hp : px ∈ todo.map Prod.fst ∧ queueAt r.1 px = []
  · rw [hp.2, queueAt_of_none (by rw [hget, if_pos hp])]
  · exact queueAt_congr (by rw [hget, if_neg hp])

/-- **Matching is one pass over the queues at the crossing prices.** -/
theorem matchOrder_spec (makers : Levels O) (taker : O)
    (hne : ∀ (px : ℕ) (l : PriceLevel O), makers[px]? = some l → l.items ≠ []) :
    OrderMatch makers taker (matchOrder makers taker) := by
  set prices := crossingPrices makers (side taker) (limitPx taker) with hprices
  set todo := crossingLevels makers (side taker) (limitPx taker) with htodo
  set r := matchLevels (side taker) (limitPx taker) todo makers taker [] [] with hr
  have hkeys : todo.map Prod.fst = prices := map_fst_crossingLevels _ _ _
  obtain ⟨H, hsnd, hget⟩ := matchOrder_levels makers taker hne htodo hr
  have hqueue := queueAt_matchOrder makers taker hne htodo hr
  rw [hkeys] at hget
  refine ⟨?_, ?_, ?_, ?_⟩
  · intro px hpx
    rw [hget, if_neg fun h => hpx h.1]
    exact H.frame px (by rw [hkeys]; exact hpx)
  · intro px l hl
    rw [hget] at hl
    split at hl
    · cases hl
    · rename_i hpk
      by_cases hpx : px ∈ prices
      · rw [← queueAt_of_some hl]
        exact fun he => hpk ⟨hpx, he⟩
      · rw [H.frame px (by rw [hkeys]; exact hpx)] at hl
        exact hne px l hl
  · intro px k o' hmem
    rw [hqueue] at hmem
    exact H.part px k o' hmem
  · have hspec := matchQueue_spec taker (queuesAt makers prices)
    have hqueues : queuesAt (matchOrder makers taker).1 prices = queuesAt r.1 prices := by
      rw [queuesAt, funext hqueue]
      rfl
    have h₁ := H.queues
    have h₂ := H.taker_eq
    have h₃ := H.filled
    rw [hkeys] at h₁ h₂ h₃
    rw [hqueues, hsnd, h₁]
    simp only [h₂, h₃, List.nil_append]
    exact hspec

end HlOrderbook
