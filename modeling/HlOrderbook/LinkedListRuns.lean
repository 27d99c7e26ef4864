import HlOrderbook.Lib.Runs
import HlOrderbook.LinkedList

/-!
# Runs of the keyed linked list

What the list is for is said by plain lists of keys and values: an operation appends,
splices, drops or rewrites an item and says whether it did.  The list of nodes does
the same, from the empty list on and in any order of operations; its links can be
followed both ways, and no index it follows is vacant.

## Main definitions

* `ListOp`, `RawList.step` — the operations as one step.
* `RefList.step` — the same on a plain list.
* `RawList.Represents` — the fields of a list spell out a plain list.
* `refines_run` — the list of nodes refines the plain list.
-/

set_option autoImplicit false
set_option linter.unusedSectionVars false

namespace HlOrderbook

/-- The operations.  A mutable reference to a value is used once, to apply a function. -/
inductive ListOp (K V : Type) where
  | pushBack (key : K) (value : V)
  | insertBefore (before key : K) (value : V)
  | removeFront
  | removeNode (key : K)
  | nodeValueMut (key : K) (f : V → V)
  | compact

/-- What an operation answers: whether it did something, or the value of a key.  Whether
the slab was rebuilt is up to the slab, and not answered. -/
inductive ListReply (V : Type) where
  | done (success : Bool)
  | value (value : Option V)
  | compacted
  deriving DecidableEq

/-! ## The plain list -/

namespace RefList

variable {K V : Type} [DecidableEq K]

/-- The value of a key. -/
def get? (xs : List (K × V)) (key : K) : Option V := (xs.find? (·.1 = key)).map Prod.snd

/-- One operation on a plain list. -/
def step (xs : List (K × V)) : ListOp K V → List (K × V) × ListReply V
  | .pushBack key value =>
    if key ∈ xs.map Prod.fst then (xs, .done false) else (xs ++ [(key, value)], .done true)
  | .insertBefore before key value =>
    if key ∈ xs.map Prod.fst ∨ before ∉ xs.map Prod.fst then (xs, .done false)
    else (xs.takeWhile (·.1 ≠ before) ++ (key, value) :: xs.dropWhile (·.1 ≠ before), .done true)
  | .removeFront => (xs.tail, .done !xs.isEmpty)
  | .removeNode key => (xs.filter (·.1 ≠ key), .value (get? xs key))
  | .nodeValueMut key f =>
    (xs.map fun x => if x.1 = key then (x.1, f x.2) else x, .value (get? xs key))
  | .compact => (xs, .compacted)

/-- A run, with its answers. -/
def run : List (ListOp K V) → List (K × V) → List (K × V) × List (ListReply V)
  | [], xs => (xs, [])
  | op :: ops, xs =>
    let (xs, reply) := step xs op
    let (xs, replies) := run ops xs
    (xs, reply :: replies)

variable {xs ys : List (K × V)} {k key before : K} {v value : V}

/-- The item of a key is the only one with that key. -/
theorem ne_of_nodup (h : ((xs ++ (k, v) :: ys).map Prod.fst).Nodup) :
    (∀ x ∈ xs, x.1 ≠ k) ∧ ∀ x ∈ ys, x.1 ≠ k := by
  rw [List.map_append, List.map_cons, List.nodup_middle, List.nodup_cons, ← List.map_append] at h
  refine ⟨fun x hx he => h.1 ?_, fun x hx he => h.1 ?_⟩
  · exact List.mem_map.mpr ⟨x, List.mem_append_left _ hx, he⟩
  · exact List.mem_map.mpr ⟨x, List.mem_append_right _ hx, he⟩

theorem get?_of_split (h : ((xs ++ (k, v) :: ys).map Prod.fst).Nodup) :
    get? (xs ++ (k, v) :: ys) k = some v := by
  have hxs : xs.find? (·.1 = k) = none := by
    simpa using (ne_of_nodup h).1
  rw [get?, List.find?_append, hxs]
  simp

theorem get?_of_notMem (h : k ∉ xs.map Prod.fst) : get? xs k = none := by
  have hxs : xs.find? (·.1 = k) = none := by
    rw [List.find?_eq_none]
    intro x hx he
    exact h (List.mem_map.mpr ⟨x, hx, by simpa using he⟩)
  rw [get?, hxs]
  rfl

end RefList

/-! ## The list of nodes -/

namespace RawList

variable {K V : Type}

/-- Follow the `prev` pointers, collecting the keys and values.  The first argument
bounds the number of nodes visited. -/
def walkBack (slab : Slab (Node K V)) : ℕ → Option ℕ → Option (List (K × V))
  | _, none => some []
  | 0, some _ => none
  | fuel + 1, some c => do
    let node ← slab.get? c
    let rest ← walkBack slab fuel node.prev
    some ((node.key, node.value) :: rest)

/-- The `prev` pointers lead back through a run. -/
theorem Seg.walkBack_eq {slab : Slab (Node K V)} {next : Option ℕ} {cells : List (Cell K V)}
    (h : Seg slab none cells next) {fuel : ℕ} (hf : cells.length ≤ fuel) :
    walkBack slab fuel (last cells) = some (cells.map Cell.item).reverse := by
  induction cells using List.reverseRecOn generalizing fuel next with
  | nil => cases fuel <;> rfl
  | append_singleton cells c ih =>
    obtain ⟨hcells, hc⟩ := Seg.append.mp h
    obtain ⟨hc, -⟩ := Seg.cons.mp hc
    cases fuel with
    | zero => simp at hf
    | succ fuel =>
      have hrest := ih hcells (by simpa using hf)
      rw [last_concat, walkBack, hc]
      simp [hrest, Cell.item]

variable [Ord K] [Std.TransOrd K] [Std.LawfulEqOrd K]

/-- One operation on the list of nodes. -/
def step [SlabPolicy] (l : RawList K V) : ListOp K V → Option (RawList K V × List (ListReply V))
  | .pushBack key value => (l.pushBack key value).map fun r => (r.1, [.done r.2])
  | .insertBefore before key value =>
    (l.insertBefore before key value).map fun r => (r.1, [.done r.2])
  | .removeFront => l.removeFront.map fun r => (r.1, [.done r.2])
  | .removeNode key => (l.removeNode key).map fun r => (r.1, [.value r.2])
  | .nodeValueMut key f => do
    match ← l.nodeValue key with
    | none => some (l, [.value none])
    | some v => (l.setNodeValue key (f v)).map fun l => (l, [.value (some v)])
  | .compact => l.compact.map fun r => (r.1, [.compacted])

/-- The fields spell out a plain list with distinct keys: both walks end, and the map
finds the node of each key, and nothing else. -/
structure Represents (l : RawList K V) (xs : List (K × V)) : Prop where
  nodup : (xs.map Prod.fst).Nodup
  forward : ∀ fuel, xs.length ≤ fuel → walk l.slab fuel l.head = some xs
  backward : ∀ fuel, xs.length ≤ fuel → walkBack l.slab fuel l.tail = some xs.reverse
  keyToSid : ∀ k v, (k, v) ∈ xs ↔ ∃ sid node, l.keyToSid[k]? = some sid ∧
    l.slab.get? sid = some node ∧ node.key = k ∧ node.value = v
  keys : ∀ k, k ∈ l.keyToSid ↔ k ∈ xs.map Prod.fst
  slots : l.slab.len = xs.length

theorem Holds.represents {l : RawList K V} {cells : List (Cell K V)} (H : l.Holds cells) :
    l.Represents (cells.map Cell.item) where
  nodup := by
    rw [LinkedList.map_fst_item]
    exact H.nodup
  forward fuel hf := by
    rw [H.head]
    exact H.seg.walk_eq (by simpa using hf)
  backward fuel hf := by
    rw [H.tail]
    exact H.seg.walkBack_eq (by simpa using hf)
  keyToSid k v := by
    rw [List.mem_map]
    constructor
    · rintro ⟨c, hc, heq⟩
      cases heq
      obtain ⟨n, p, hnode⟩ := H.seg.get?_of_mem hc
      exact ⟨c.sid, _, H.index_of_mem hc, hnode, rfl, rfl⟩
    · rintro ⟨sid, node, hsid, hnode, rfl, rfl⟩
      obtain ⟨c, hc, hkey, rfl⟩ := (H.index _ _).mp hsid
      obtain ⟨n, p, hc'⟩ := H.seg.get?_of_mem hc
      rw [hnode, Option.some.injEq] at hc'
      refine ⟨c, hc, ?_⟩
      rw [hc']
      rfl
  keys k := by
    rw [LinkedList.map_fst_item, ← H.contains_iff k, Std.ExtTreeMap.contains_iff_mem]
  slots := by rw [H.slots, List.length_map]

/-! ## The refinement -/

variable [SlabPolicy] [DecidableEq K] {l : RawList K V} {cells : List (Cell K V)}

/-- The two lists after an operation: the nodes spell out what the plain list became, and
both said the same. -/
def StepsTo (l : RawList K V) (op : ListOp K V) (r : List (K × V) × ListReply V) : Prop :=
  ∃ l' cells', l.step op = some (l', [r.2]) ∧ l'.Holds cells' ∧ cells'.map Cell.item = r.1

/-- A key that is in the list is somewhere among its cells. -/
theorem exists_cell {key : K} (h : key ∈ (cells.map Cell.item).map Prod.fst) :
    ∃ xs c ys, cells = xs ++ c :: ys ∧ c.key = key := by
  rw [LinkedList.map_fst_item] at h
  obtain ⟨c, hc, rfl⟩ := List.mem_map.mp h
  obtain ⟨xs, ys, rfl⟩ := List.append_of_mem hc
  exact ⟨xs, c, ys, rfl, rfl⟩

/-- The items before and behind a cell have other keys. -/
theorem Holds.ne_item {xs ys : List (Cell K V)} {c : Cell K V} (H : l.Holds (xs ++ c :: ys)) :
    (∀ x ∈ xs.map Cell.item, x.1 ≠ c.key) ∧ ∀ x ∈ ys.map Cell.item, x.1 ≠ c.key := by
  have hnodup : ((xs.map Cell.item ++ (c.key, c.value) :: ys.map Cell.item).map Prod.fst).Nodup := by
    have h := H.represents.nodup
    rw [List.map_append, List.map_cons] at h
    exact h
  exact RefList.ne_of_nodup hnodup

theorem Holds.get?_item {xs ys : List (Cell K V)} {c : Cell K V} (H : l.Holds (xs ++ c :: ys)) :
    RefList.get? ((xs ++ c :: ys).map Cell.item) c.key = some c.value := by
  have hnodup := H.represents.nodup
  rw [List.map_append, List.map_cons] at hnodup ⊢
  exact RefList.get?_of_split hnodup

theorem pushBack_steps (H : l.Holds cells) (key : K) (value : V) :
    l.StepsTo (.pushBack key value)
      (RefList.step (cells.map Cell.item) (.pushBack key value)) := by
  have hkeys := LinkedList.map_fst_item cells
  by_cases hk : key ∈ (cells.map Cell.item).map Prod.fst
  · rw [RefList.step, if_pos hk]
    rw [hkeys] at hk
    exact ⟨l, cells, by rw [step, pushBack_duplicate H hk, Option.map_some], H, rfl⟩
  · rw [RefList.step, if_neg hk]
    rw [hkeys] at hk
    obtain ⟨l', sid, hl', H'⟩ := pushBack_spec H hk value
    refine ⟨l', _, by rw [step, hl', Option.map_some], H', ?_⟩
    simp [Cell.item]

theorem insertBefore_steps (H : l.Holds cells) (before key : K) (value : V) :
    l.StepsTo (.insertBefore before key value)
      (RefList.step (cells.map Cell.item) (.insertBefore before key value)) := by
  have hkeys := LinkedList.map_fst_item cells
  by_cases hk : key ∈ (cells.map Cell.item).map Prod.fst
  · rw [RefList.step, if_pos (Or.inl hk)]
    rw [hkeys] at hk
    exact ⟨l, cells, by rw [step, insertBefore_duplicate H before hk, Option.map_some], H, rfl⟩
  · by_cases hb : before ∈ (cells.map Cell.item).map Prod.fst
    · have hfresh : ¬ (key ∈ (cells.map Cell.item).map Prod.fst ∨
          before ∉ (cells.map Cell.item).map Prod.fst) := by
        simpa using ⟨by simpa using hk, by simpa using hb⟩
      rw [RefList.step, if_neg hfresh]
      rw [hkeys] at hk
      obtain ⟨xs, c, ys, rfl, rfl⟩ := exists_cell hb
      obtain ⟨l', sid, hl', H'⟩ := insertBefore_spec H hk value
      obtain ⟨hxs, -⟩ := H.ne_item
      refine ⟨l', _, by rw [step, hl', Option.map_some], H', ?_⟩
      have hxs' : ∀ x ∈ xs.map Cell.item, decide (x.1 ≠ c.key) = true := by simpa using hxs
      simp only [List.map_append, List.map_cons]
      rw [List.takeWhile_append_of_pos hxs', List.dropWhile_append_of_pos hxs']
      simp [Cell.item]
    · rw [RefList.step, if_pos (Or.inr hb)]
      rw [hkeys] at hb
      exact ⟨l, cells, by rw [step, insertBefore_missing H hb, Option.map_some], H, rfl⟩

theorem removeFront_steps (H : l.Holds cells) :
    l.StepsTo .removeFront (RefList.step (cells.map Cell.item) .removeFront) := by
  cases cells with
  | nil => exact ⟨l, [], by rw [step, removeFront_nil H]; rfl, H, rfl⟩
  | cons c cells =>
    obtain ⟨l', hl', H'⟩ := removeFront_spec H
    exact ⟨l', cells, by rw [step, hl']; rfl, H', rfl⟩

theorem removeNode_steps (H : l.Holds cells) (key : K) :
    l.StepsTo (.removeNode key) (RefList.step (cells.map Cell.item) (.removeNode key)) := by
  by_cases hk : key ∈ (cells.map Cell.item).map Prod.fst
  · obtain ⟨xs, c, ys, rfl, rfl⟩ := exists_cell hk
    obtain ⟨l', hl', H'⟩ := removeNode_spec H
    obtain ⟨hxs, hys⟩ := H.ne_item
    refine ⟨l', xs ++ ys, by rw [step, hl', RefList.step, H.get?_item, Option.map_some], H', ?_⟩
    have hxs' : (xs.map Cell.item).filter (·.1 ≠ c.key) = xs.map Cell.item :=
      List.filter_eq_self.mpr (by simpa using hxs)
    have hys' : (ys.map Cell.item).filter (·.1 ≠ c.key) = ys.map Cell.item :=
      List.filter_eq_self.mpr (by simpa using hys)
    simp only [RefList.step, List.map_append, List.map_cons, List.filter_append, hxs']
    rw [← hys']
    simp [Cell.item]
  · have hnone := RefList.get?_of_notMem hk
    have hall : (cells.map Cell.item).filter (·.1 ≠ key) = cells.map Cell.item := by
      refine List.filter_eq_self.mpr fun x hx => ?_
      have hne : x.1 ≠ key := fun he => hk (List.mem_map.mpr ⟨x, hx, he⟩)
      simpa using hne
    rw [RefList.step, hnone, hall]
    rw [LinkedList.map_fst_item] at hk
    exact ⟨l, cells, by rw [step, removeNode_missing H hk, Option.map_some], H, rfl⟩

theorem nodeValueMut_steps (H : l.Holds cells) (key : K) (f : V → V) :
    l.StepsTo (.nodeValueMut key f)
      (RefList.step (cells.map Cell.item) (.nodeValueMut key f)) := by
  by_cases hk : key ∈ (cells.map Cell.item).map Prod.fst
  · obtain ⟨xs, c, ys, rfl, rfl⟩ := exists_cell hk
    obtain ⟨l', hl', H'⟩ := setNodeValue_spec H (f c.value)
    obtain ⟨hxs, hys⟩ := H.ne_item
    refine ⟨l', _, ?_, H', ?_⟩
    · rw [step, nodeValue_spec H, RefList.step, H.get?_item]
      simp [hl']
    · have hsame : ∀ zs : List (Cell K V), (∀ x ∈ zs.map Cell.item, x.1 ≠ c.key) →
          (zs.map Cell.item).map (fun x => if x.1 = c.key then (x.1, f x.2) else x) =
            zs.map Cell.item := by
        intro zs hzs
        refine (List.map_congr_left fun x hx => ?_).trans (List.map_id _)
        exact if_neg (hzs x hx)
      simp only [RefList.step, List.map_append, List.map_cons, hsame xs hxs, hsame ys hys]
      simp [Cell.item]
  · have hnone := RefList.get?_of_notMem hk
    have hall : (cells.map Cell.item).map
        (fun x => if x.1 = key then (x.1, f x.2) else x) = cells.map Cell.item := by
      refine (List.map_congr_left fun x hx => ?_).trans (List.map_id _)
      exact if_neg fun he => hk (List.mem_map.mpr ⟨x, hx, he⟩)
    rw [RefList.step, hnone, hall]
    rw [LinkedList.map_fst_item] at hk
    exact ⟨l, cells, by rw [step, nodeValue_missing H hk]; rfl, H, rfl⟩

/-- **One operation does to the nodes what it does to the plain list.** -/
theorem step_refines (H : l.Holds cells) (op : ListOp K V) :
    l.StepsTo op (RefList.step (cells.map Cell.item) op) := by
  cases op with
  | pushBack key value => exact pushBack_steps H key value
  | insertBefore before key value => exact insertBefore_steps H before key value
  | removeFront => exact removeFront_steps H
  | removeNode key => exact removeNode_steps H key
  | nodeValueMut key f => exact nodeValueMut_steps H key f
  | compact =>
    obtain ⟨l', cells', b, hl', H', hitems⟩ := compact_spec H
    exact ⟨l', cells', by rw [step, hl']; rfl, H', hitems⟩

theorem run_refines (ops : List (ListOp K V)) (H : l.Holds cells) :
    ∃ l' cells', runSteps step ops l =
        some (l', (RefList.run ops (cells.map Cell.item)).2) ∧ l'.Holds cells' ∧
      cells'.map Cell.item = (RefList.run ops (cells.map Cell.item)).1 := by
  induction ops generalizing l cells with
  | nil => exact ⟨l, cells, rfl, H, rfl⟩
  | cons op ops ih =>
    obtain ⟨l₁, cells₁, hstep, H₁, hitems⟩ := step_refines H op
    obtain ⟨l', cells', hrun, H', hitems'⟩ := ih H₁
    rw [hitems] at hrun hitems'
    refine ⟨l', cells', ?_, H', hitems'⟩
    exact Runs.cons_eq_some.mpr ⟨l₁, _, _, hstep, hrun, rfl⟩

/-- **The list of nodes refines the plain list**: in any order of operations, from the
empty list on, no index is vacant, the answers are those of the plain list, and the
links and the map spell it out. -/
theorem refines_run (ops : List (ListOp K V)) :
    ∃ l : RawList K V, runSteps step ops new = some (l, (RefList.run ops []).2) ∧
      l.Represents (RefList.run ops []).1 := by
  obtain ⟨l, cells, hrun, H, hitems⟩ := run_refines ops (holds_empty (K := K) (V := V) 0)
  rw [List.map_nil] at hrun hitems
  exact ⟨l, hrun, hitems ▸ H.represents⟩

end RawList

section Example

attribute [local instance] SlabPolicy.latest

/-- An item is appended, another put in front of it, a third turned down; the list is
rebuilt, a value rewritten and the front dropped. -/
private def sixOps : List (ListOp ℕ ℕ) :=
  [.pushBack 1 10, .insertBefore 1 2 20, .pushBack 2 30, .compact, .nodeValueMut 1 (· + 1),
    .removeFront]

theorem represents_sixOps : ∃ l : RawList ℕ ℕ, runSteps RawList.step sixOps RawList.new =
      some (l, [.done true, .done true, .done false, .compacted, .value (some 10), .done true]) ∧
    l.Represents [(1, 11)] :=
  RawList.refines_run sixOps

end Example

end HlOrderbook
