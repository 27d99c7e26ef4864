import HlOrderbook.Lib.Slab
import Mathlib.Data.List.Nodup

/-!
# The keyed linked list

The queue of one price level: a doubly linked list whose nodes live in a slab
and are found by key through a map.  `RawList` is the code, in which an index
that is not occupied is a panic (`none`) and any four fields make a value.
`LinkedList` is the handle the rest of the development uses: its representation
carries the proof that it spells out a list of cells, so its operations are
total, and each is specified by what it does to `LinkedList.toList`.

## Main definitions

* `RawList K V` and its operations.
* `RawList.Holds l cells` — the four fields of `l` spell out `cells`.
* `LinkedList K V` — the sealed handle, read through `LinkedList.toList`.
-/

set_option autoImplicit false
set_option linter.unusedSectionVars false

namespace HlOrderbook

/-- A node of the list. -/
structure Node (K V : Type) where
  key : K
  value : V
  next : Option ℕ
  prev : Option ℕ

/-- The four fields of the list, with no invariant. -/
structure RawList (K V : Type) [Ord K] where
  keyToSid : Std.ExtTreeMap K ℕ
  slab : Slab (Node K V)
  head : Option ℕ
  tail : Option ℕ

namespace RawList

section Links

variable {K V : Type}

/-! ## Links between nodes -/

/-- Write the `next` pointer of a node, if there is one. -/
def setNext (slab : Slab (Node K V)) (node next : Option ℕ) : Option (Slab (Node K V)) :=
  match node with
  | none => some slab
  | some p => slab.update p fun n => { n with next }

/-- Write the `prev` pointer of a node, if there is one. -/
def setPrev (slab : Slab (Node K V)) (node prev : Option ℕ) : Option (Slab (Node K V)) :=
  match node with
  | none => some slab
  | some p => slab.update p fun n => { n with prev }

/-- Follow the `next` pointers, collecting the keys and values.  The first
argument bounds the number of nodes visited. -/
def walk (slab : Slab (Node K V)) : ℕ → Option ℕ → Option (List (K × V))
  | _, none => some []
  | 0, some _ => none
  | fuel + 1, some c => do
    let node ← slab.get? c
    let rest ← walk slab fuel node.next
    some ((node.key, node.value) :: rest)

/-- A node as a member of the sequence: where it is, its key and its value. -/
structure Cell (K V : Type) where
  sid : ℕ
  key : K
  value : V

/-- The key and value of a cell. -/
def Cell.item (c : Cell K V) : K × V := (c.key, c.value)

/-- The index of the first cell. -/
def first (cells : List (Cell K V)) : Option ℕ := cells.head?.map Cell.sid

/-- The index of the last cell. -/
def last (cells : List (Cell K V)) : Option ℕ := cells.getLast?.map Cell.sid

@[simp] theorem first_nil : first ([] : List (Cell K V)) = none := rfl

@[simp] theorem first_cons (c : Cell K V) (cs : List (Cell K V)) :
    first (c :: cs) = some c.sid := rfl

@[simp] theorem first_append (xs ys : List (Cell K V)) :
    first (xs ++ ys) = (first xs).or (first ys) := by
  cases xs <;> simp [first]

@[simp] theorem last_nil : last ([] : List (Cell K V)) = none := rfl

@[simp] theorem last_concat (xs : List (Cell K V)) (c : Cell K V) :
    last (xs ++ [c]) = some c.sid := by
  simp [last]

theorem last_cons (c : Cell K V) (cs : List (Cell K V)) :
    last (c :: cs) = (last cs).or (some c.sid) := by
  cases cs <;> simp [last, List.getLast?_cons]

/-- A run of nodes linked to one another, from the node before it to the node
after it. -/
def Seg (slab : Slab (Node K V)) : Option ℕ → List (Cell K V) → Option ℕ → Prop
  | _, [], _ => True
  | prev, c :: cs, next =>
    slab.get? c.sid = some ⟨c.key, c.value, (first cs).or next, prev⟩ ∧
      Seg slab (some c.sid) cs next

namespace Seg

variable {slab slab' : Slab (Node K V)} {prev next : Option ℕ} {xs ys cells : List (Cell K V)}

@[simp] theorem nil : Seg slab prev [] next := trivial

theorem cons {c : Cell K V} :
    Seg slab prev (c :: cells) next ↔
      slab.get? c.sid = some ⟨c.key, c.value, (first cells).or next, prev⟩ ∧
        Seg slab (some c.sid) cells next := Iff.rfl

/-- A run splits anywhere, each part being the other's neighbour. -/
theorem append : Seg slab prev (xs ++ ys) next ↔
    Seg slab prev xs ((first ys).or next) ∧ Seg slab ((last xs).or prev) ys next := by
  induction xs generalizing prev with
  | nil => simp
  | cons x xs ih =>
    simp only [List.cons_append, cons, ih, first_append, Option.or_assoc, last_cons, and_assoc]
    rw [Option.some_or]

/-- A run reads only its own nodes. -/
theorem frame (h : Seg slab prev cells next)
    (hf : ∀ c ∈ cells, slab'.get? c.sid = slab.get? c.sid) : Seg slab' prev cells next := by
  induction cells generalizing prev with
  | nil => trivial
  | cons c cs ih =>
    obtain ⟨hc, hcs⟩ := cons.mp h
    refine cons.mpr ⟨?_, ih hcs fun d hd => hf d (List.mem_cons_of_mem _ hd)⟩
    rw [hf c List.mem_cons_self, hc]

theorem get?_of_mem (h : Seg slab prev cells next) {c : Cell K V} (hc : c ∈ cells) :
    ∃ n p, slab.get? c.sid = some ⟨c.key, c.value, n, p⟩ := by
  induction cells generalizing prev with
  | nil => simp at hc
  | cons d cs ih =>
    obtain ⟨hd, hcs⟩ := cons.mp h
    rcases List.mem_cons.mp hc with rfl | hc
    · exact ⟨_, _, hd⟩
    · exact ih hcs hc

/-- Two cells at one index are one cell, when the keys are distinct. -/
theorem sid_inj (h : Seg slab prev cells next) (hk : (cells.map Cell.key).Nodup)
    {c d : Cell K V} (hc : c ∈ cells) (hd : d ∈ cells) (he : c.sid = d.sid) : c = d := by
  obtain ⟨n, p, hcs⟩ := h.get?_of_mem hc
  obtain ⟨m, q, hds⟩ := h.get?_of_mem hd
  rw [he, hds] at hcs
  refine List.inj_on_of_nodup_map hk hc hd ?_
  simp only [Option.some.injEq, Node.mk.injEq] at hcs
  exact hcs.1.symm

/-- The two parts of a run are at different indices. -/
theorem apart (h : Seg slab prev (xs ++ ys) next) (hk : ((xs ++ ys).map Cell.key).Nodup)
    {c : Cell K V} (hc : c ∈ xs) : c.sid ∉ ys.map Cell.sid := by
  intro hm
  obtain ⟨d, hd, he⟩ := List.mem_map.mp hm
  have hdc : d = c := h.sid_inj hk (by simp [hd]) (by simp [hc]) he
  subst hdc
  rw [List.map_append, List.nodup_append] at hk
  exact hk.2.2 _ (List.mem_map_of_mem hc) _ (List.mem_map_of_mem hd) rfl

theorem apart_cons {c : Cell K V} (h : Seg slab prev (c :: cells) next)
    (hk : ((c :: cells).map Cell.key).Nodup) : c.sid ∉ cells.map Cell.sid := by
  rw [← List.singleton_append] at h hk
  exact h.apart hk (List.mem_singleton_self c)

theorem walk_eq (h : Seg slab prev cells none) {fuel : ℕ} (hf : cells.length ≤ fuel) :
    walk slab fuel (first cells) = some (cells.map Cell.item) := by
  induction cells generalizing prev fuel with
  | nil => simp [walk]
  | cons c cs ih =>
    obtain ⟨hc, hcs⟩ := cons.mp h
    cases fuel with
    | zero => simp at hf
    | succ fuel =>
      have := ih hcs (by simpa using hf)
      simp [walk, hc, this, Cell.item]

/-- Writing `next` of the last node changes what follows the run, and no slot
outside it. -/
theorem setNext (h : Seg slab prev cells next) (hk : (cells.map Cell.key).Nodup) (n : Option ℕ) :
    ∃ slab', setNext slab (last cells) n = some slab' ∧ slab'.len = slab.len ∧
      Seg slab' prev cells n ∧ ∀ j, j ∉ cells.map Cell.sid → slab'.get? j = slab.get? j := by
  rcases List.eq_nil_or_concat' cells with rfl | ⟨xs, c, rfl⟩
  · exact ⟨slab, rfl, rfl, trivial, fun _ _ => rfl⟩
  · obtain ⟨hxs, hc⟩ := append.mp h
    obtain ⟨hc, -⟩ := cons.mp hc
    obtain ⟨slab', hs, hlen, hget⟩ :=
      Slab.update_eq_some hc fun m => { m with next := n }
    refine ⟨slab', by simpa [RawList.setNext] using hs, hlen, ?_, ?_⟩
    · refine append.mpr ⟨hxs.frame ?_, cons.mpr ⟨by simp [hget], trivial⟩⟩
      intro d hd
      rw [hget, if_neg]
      intro he
      have hdc := h.sid_inj hk (by simp [hd]) (by simp) he.symm
      simp [hdc] at hd
      rw [List.map_append, List.nodup_append] at hk
      exact hk.2.2 c.key (List.mem_map_of_mem hd) c.key (by simp) rfl
    · intro j hj
      rw [hget, if_neg]
      rintro rfl
      simp at hj

/-- Writing `prev` of the first node changes what precedes the run, and no slot
outside it. -/
theorem setPrev (h : Seg slab prev cells next) (hk : (cells.map Cell.key).Nodup) (p : Option ℕ) :
    ∃ slab', setPrev slab (first cells) p = some slab' ∧ slab'.len = slab.len ∧
      Seg slab' p cells next ∧ ∀ j, j ∉ cells.map Cell.sid → slab'.get? j = slab.get? j := by
  cases cells with
  | nil => exact ⟨slab, rfl, rfl, trivial, fun _ _ => rfl⟩
  | cons c ys =>
    obtain ⟨hc, hys⟩ := cons.mp h
    obtain ⟨slab', hs, hlen, hget⟩ :=
      Slab.update_eq_some hc fun m => { m with prev := p }
    refine ⟨slab', by simpa [RawList.setPrev] using hs, hlen, ?_, ?_⟩
    · refine cons.mpr ⟨by simp [hget], hys.frame ?_⟩
      intro d hd
      rw [hget, if_neg]
      intro he
      have hdc := h.sid_inj hk List.mem_cons_self (List.mem_cons_of_mem _ hd) he
      subst hdc
      rw [List.map_cons, List.nodup_cons] at hk
      exact hk.1 (List.mem_map_of_mem hd)
    · intro j hj
      rw [hget, if_neg]
      rintro rfl
      simp at hj

end Seg

end Links

variable {K V : Type} [Ord K] [Std.TransOrd K] [Std.LawfulEqOrd K]

/-! ## The operations -/

/-- The empty list. -/
def new : RawList K V := ⟨∅, Slab.new, none, none⟩

/-- Append a value; `false` when the key is in the list already. -/
def pushBack [SlabPolicy] (l : RawList K V) (key : K) (value : V) : Option (RawList K V × Bool) :=
  if l.keyToSid.contains key then some (l, false)
  else
    let (slab, sid) := l.slab.insert ⟨key, value, none, none⟩
    let keyToSid := l.keyToSid.insert key sid
    match l.tail with
    | none => some (⟨keyToSid, slab, some sid, some sid⟩, true)
    | some t => do
      let slab ← setNext slab (some t) (some sid)
      let slab ← setPrev slab (some sid) (some t)
      some (⟨keyToSid, slab, l.head, some sid⟩, true)

/-- Insert a value directly in front of another; `false` when the anchor is not
in the list or the key is. -/
def insertBefore [SlabPolicy] (l : RawList K V) (before key : K) (value : V) :
    Option (RawList K V × Bool) :=
  if l.keyToSid.contains key then some (l, false)
  else match l.keyToSid[before]? with
    | none => some (l, false)
    | some beforeSid => do
      let prev := (← l.slab.get? beforeSid).prev
      let (slab, sid) := l.slab.insert ⟨key, value, some beforeSid, prev⟩
      let slab ← setPrev slab (some beforeSid) (some sid)
      let slab ← setNext slab prev (some sid)
      let head := match prev with
        | some _ => l.head
        | none => some sid
      some (⟨l.keyToSid.insert key sid, slab, head, l.tail⟩, true)

/-- Whether a key is in the list. -/
def containsKey (l : RawList K V) (key : K) : Bool := l.keyToSid.contains key

/-- Whether the list is empty. -/
def isEmpty (l : RawList K V) : Bool := l.head.isNone

/-- The first value. -/
def headValue (l : RawList K V) : Option (Option V) :=
  match l.head with
  | none => some none
  | some h => do some (some (← l.slab.get? h).value)

/-- Write through the mutable reference to the first value. -/
def setHeadValue (l : RawList K V) (value : V) : Option (RawList K V) :=
  match l.head with
  | none => some l
  | some h => do
    let slab ← l.slab.update h fun n => { n with value }
    some { l with slab }

/-- Drop the first node; `false` when the list is empty. -/
def removeFront (l : RawList K V) : Option (RawList K V × Bool) :=
  match l.head with
  | none => some (l, false)
  | some h => do
    let (slab, headOrder) ← l.slab.remove h
    let keyToSid := l.keyToSid.erase headOrder.key
    match headOrder.next with
    | none => some (⟨keyToSid, slab, none, none⟩, true)
    | some n =>
      let slab ← setPrev slab (some n) none
      some (⟨keyToSid, slab, some n, l.tail⟩, true)

/-- Drop the node of a key; the answer is its value. -/
def removeNode (l : RawList K V) (key : K) : Option (RawList K V × Option V) :=
  match l.keyToSid[key]? with
  | none => some (l, none)
  | some sid => do
    let (slab, order) ← l.slab.remove sid
    let slab ← setNext slab order.prev order.next
    let head := match order.prev with
      | some _ => l.head
      | none => order.next
    let slab ← setPrev slab order.next order.prev
    let tail := match order.next with
      | some _ => l.tail
      | none => order.prev
    some (⟨l.keyToSid.erase key, slab, head, tail⟩, some order.value)

/-- The number of nodes. -/
def len (l : RawList K V) : ℕ := l.keyToSid.size

/-- The value of a key. -/
def nodeValue (l : RawList K V) (key : K) : Option (Option V) :=
  match l.keyToSid[key]? with
  | none => some none
  | some sid => do some (some (← l.slab.get? sid).value)

/-- Write through the mutable reference to the value of a key. -/
def setNodeValue (l : RawList K V) (key : K) (value : V) : Option (RawList K V) :=
  match l.keyToSid[key]? with
  | none => some l
  | some sid => do
    let slab ← l.slab.update sid fun n => { n with value }
    some { l with slab }

/-- The keys and values in queue order. -/
def items (l : RawList K V) : Option (List (K × V)) := walk l.slab l.slab.len l.head

/-- Rebuild the slab when it is heavily over-allocated; `false` when it is not. -/
def compact [SlabPolicy] (l : RawList K V) : Option (RawList K V × Bool) :=
  if l.slab.capacity ≤ 2 * l.slab.len + 64 then some (l, false)
  else do
    let items ← l.items
    let l ← items.foldlM (fun l item => do some (← l.pushBack item.1 item.2).1)
      ⟨∅, Slab.withCapacity l.slab.len, none, none⟩
    some (l, true)

/-! ## The invariant -/

/-- The four fields of `l` spell out `cells`: the nodes are linked in this
order from `head` to `tail`, their keys are distinct, and the map finds each
node by its key. -/
structure Holds (l : RawList K V) (cells : List (Cell K V)) : Prop where
  seg : Seg l.slab none cells none
  head : l.head = first cells
  tail : l.tail = last cells
  nodup : (cells.map Cell.key).Nodup
  index : ∀ k sid, l.keyToSid[k]? = some sid ↔ ∃ c ∈ cells, c.key = k ∧ c.sid = sid
  size : l.keyToSid.size = cells.length
  slots : l.slab.len = cells.length

theorem holds_empty (n : ℕ) :
    Holds (⟨∅, Slab.withCapacity n, none, none⟩ : RawList K V) [] where
  seg := trivial
  head := rfl
  tail := rfl
  nodup := List.nodup_nil
  index := by simp
  size := by simp
  slots := by simp

namespace Holds

variable {l : RawList K V} {cells xs ys : List (Cell K V)} {c : Cell K V}

theorem index_of_mem (H : l.Holds cells) (hc : c ∈ cells) : l.keyToSid[c.key]? = some c.sid :=
  (H.index _ _).mpr ⟨c, hc, rfl, rfl⟩

theorem contains_iff (H : l.Holds cells) (k : K) :
    l.keyToSid.contains k = true ↔ k ∈ cells.map Cell.key := by
  rw [Std.ExtTreeMap.contains_eq_isSome_getElem?, Option.isSome_iff_exists, List.mem_map]
  constructor
  · rintro ⟨sid, hs⟩
    obtain ⟨c, hc, hk, -⟩ := (H.index _ _).mp hs
    exact ⟨c, hc, hk⟩
  · rintro ⟨c, hc, rfl⟩
    exact ⟨_, H.index_of_mem hc⟩

theorem index_eq_none (H : l.Holds cells) {k : K} (hk : k ∉ cells.map Cell.key) :
    l.keyToSid[k]? = none := by
  have hc := mt (H.contains_iff k).mp hk
  rw [Std.ExtTreeMap.contains_eq_isSome_getElem?] at hc
  exact Option.not_isSome_iff_eq_none.mp hc

theorem items (H : l.Holds cells) : l.items = some (cells.map Cell.item) := by
  rw [RawList.items, H.head]
  exact H.seg.walk_eq (by rw [H.slots])

theorem isEmpty (H : l.Holds cells) : l.isEmpty = cells.isEmpty := by
  rw [RawList.isEmpty, H.head]
  cases cells <;> rfl

theorem len (H : l.Holds cells) : l.len = cells.length := H.size

/-- The map after a fresh key is added, with its cell anywhere. -/
private theorem index_insert (H : l.Holds (xs ++ ys)) {new : Cell K V}
    (hk : new.key ∉ (xs ++ ys).map Cell.key) (k : K) (sid : ℕ) :
    (l.keyToSid.insert new.key new.sid)[k]? = some sid ↔
      ∃ c ∈ xs ++ new :: ys, c.key = k ∧ c.sid = sid := by
  rw [Std.ExtTreeMap.getElem?_insert]
  by_cases he : new.key = k
  · subst he
    simp only [Std.compare_self, ↓reduceIte, Option.some.injEq]
    constructor
    · rintro rfl
      exact ⟨new, by simp, rfl, rfl⟩
    · rintro ⟨c, hc, hck, rfl⟩
      have hcn : c = new ∨ c ∈ xs ++ ys := by
        simp only [List.mem_append, List.mem_cons] at hc ⊢
        tauto
      rcases hcn with rfl | hc
      · rfl
      · exact absurd (hck ▸ List.mem_map_of_mem hc) hk
  · have hne : compare new.key k ≠ .eq := by simpa using he
    rw [if_neg hne, H.index]
    constructor
    · rintro ⟨c, hc, hck, hcs⟩
      refine ⟨c, ?_, hck, hcs⟩
      simp only [List.mem_append, List.mem_cons] at hc ⊢
      tauto
    · rintro ⟨c, hc, hck, hcs⟩
      have hcn : c ≠ new := by
        rintro rfl
        exact he hck
      refine ⟨c, ?_, hck, hcs⟩
      simp only [List.mem_append, List.mem_cons] at hc ⊢
      tauto

/-- The map after a key is dropped. -/
private theorem index_erase (H : l.Holds (xs ++ c :: ys)) (k : K) (sid : ℕ) :
    (l.keyToSid.erase c.key)[k]? = some sid ↔ ∃ d ∈ xs ++ ys, d.key = k ∧ d.sid = sid := by
  have hnd := H.nodup
  rw [List.map_append, List.map_cons, List.nodup_middle, List.nodup_cons, ← List.map_append] at hnd
  rw [Std.ExtTreeMap.getElem?_erase]
  by_cases he : c.key = k
  · subst he
    simp only [Std.compare_self, ↓reduceIte, reduceCtorEq, false_iff]
    rintro ⟨d, hd, hdk, -⟩
    exact hnd.1 (hdk ▸ List.mem_map_of_mem hd)
  · have hne : compare c.key k ≠ .eq := by simpa using he
    rw [if_neg hne, H.index]
    constructor
    · rintro ⟨d, hd, hdk, hds⟩
      have hdc : d ≠ c := by
        rintro rfl
        exact he hdk
      refine ⟨d, ?_, hdk, hds⟩
      simp only [List.mem_append, List.mem_cons] at hd ⊢
      tauto
    · rintro ⟨d, hd, hdk, hds⟩
      refine ⟨d, ?_, hdk, hds⟩
      simp only [List.mem_append, List.mem_cons] at hd ⊢
      tauto

private theorem size_insert (H : l.Holds (xs ++ ys)) {new : Cell K V}
    (hk : new.key ∉ (xs ++ ys).map Cell.key) :
    (l.keyToSid.insert new.key new.sid).size = (xs ++ new :: ys).length := by
  rw [Std.ExtTreeMap.size_insert, if_neg (mt (H.contains_iff _).mp hk), H.size]
  simp only [List.length_append, List.length_cons]
  omega

private theorem size_erase (H : l.Holds (xs ++ c :: ys)) :
    (l.keyToSid.erase c.key).size = (xs ++ ys).length := by
  rw [Std.ExtTreeMap.size_erase, if_pos ((H.contains_iff _).mpr (by simp)), H.size]
  simp only [List.length_append, List.length_cons]
  omega

private theorem nodup_insert (H : l.Holds (xs ++ ys)) {new : Cell K V}
    (hk : new.key ∉ (xs ++ ys).map Cell.key) : ((xs ++ new :: ys).map Cell.key).Nodup := by
  rw [List.map_append, List.map_cons, List.nodup_middle, List.nodup_cons, ← List.map_append]
  exact ⟨hk, H.nodup⟩

private theorem nodup_erase (H : l.Holds (xs ++ c :: ys)) : ((xs ++ ys).map Cell.key).Nodup := by
  have hnd := H.nodup
  rw [List.map_append, List.map_cons, List.nodup_middle, List.nodup_cons, ← List.map_append] at hnd
  exact hnd.2

end Holds

/-! ## What each operation does -/

section Spec

variable {l : RawList K V} {cells xs ys : List (Cell K V)} {b c : Cell K V}

/-- The list with one more cell, from the run that spells it out. -/
private theorem Holds.of_insert (H : l.Holds (xs ++ ys)) (new : Cell K V)
    (hk : new.key ∉ (xs ++ ys).map Cell.key) {slab : Slab (Node K V)} {head tail : Option ℕ}
    (hseg : Seg slab none (xs ++ new :: ys) none) (hlen : slab.len = l.slab.len + 1)
    (hhead : head = first (xs ++ new :: ys)) (htail : tail = last (xs ++ new :: ys)) :
    Holds ⟨l.keyToSid.insert new.key new.sid, slab, head, tail⟩ (xs ++ new :: ys) where
  seg := hseg
  head := hhead
  tail := htail
  nodup := H.nodup_insert hk
  index := H.index_insert hk
  size := H.size_insert hk
  slots := by
    rw [hlen, H.slots]
    simp only [List.length_append, List.length_cons]
    omega

/-- The list with one cell less, from the run that spells it out. -/
private theorem Holds.of_erase (H : l.Holds (xs ++ c :: ys)) {slab : Slab (Node K V)}
    {head tail : Option ℕ} (hseg : Seg slab none (xs ++ ys) none)
    (hlen : slab.len + 1 = l.slab.len) (hhead : head = first (xs ++ ys))
    (htail : tail = last (xs ++ ys)) :
    Holds ⟨l.keyToSid.erase c.key, slab, head, tail⟩ (xs ++ ys) where
  seg := hseg
  head := hhead
  tail := htail
  nodup := H.nodup_erase
  index := H.index_erase
  size := H.size_erase
  slots := by
    have := H.slots
    simp only [List.length_append, List.length_cons] at this ⊢
    omega

theorem pushBack_duplicate [SlabPolicy] (H : l.Holds cells) {key : K}
    (hk : key ∈ cells.map Cell.key) (value : V) : l.pushBack key value = some (l, false) := by
  rw [pushBack, if_pos ((H.contains_iff key).mpr hk)]

/-- **`pushBack` appends a cell.** -/
theorem pushBack_spec [SlabPolicy] (H : l.Holds cells) {key : K}
    (hk : key ∉ cells.map Cell.key) (value : V) :
    ∃ l' sid, l.pushBack key value = some (l', true) ∧ l'.Holds (cells ++ [⟨sid, key, value⟩]) := by
  have hnew : (l.slab.insert ⟨key, value, none, none⟩).1.get? l.slab.vacant =
      some ⟨key, value, none, none⟩ := by
    rw [Slab.get?_insert, if_pos rfl]
  have hfresh : ∀ c ∈ cells, c.sid ≠ l.slab.vacant := by
    intro c hc
    obtain ⟨n, p, h⟩ := H.seg.get?_of_mem hc
    exact Slab.ne_vacant h
  have hseg : Seg (l.slab.insert ⟨key, value, none, none⟩).1 none cells none := by
    refine H.seg.frame fun c hc => ?_
    rw [Slab.get?_insert, if_neg (hfresh c hc).symm]
  have hkc : ¬ l.keyToSid.contains key = true := mt (H.contains_iff key).mp hk
  rw [← List.append_nil cells] at H
  have hk' : key ∉ (cells ++ []).map Cell.key := by simpa using hk
  rcases List.eq_nil_or_concat' cells with rfl | ⟨zs, t, rfl⟩
  · have htail : l.tail = none := H.tail
    refine ⟨_, l.slab.vacant, by rw [pushBack, if_neg hkc]; simp [htail]; rfl, ?_⟩
    refine H.of_insert ⟨l.slab.vacant, key, value⟩ hk' ?_ (Slab.len_insert _ _) rfl rfl
    exact Seg.cons.mpr ⟨hnew, trivial⟩
  · have htail : l.tail = some t.sid := by simpa using H.tail
    have hnd : ((zs ++ [t]).map Cell.key).Nodup := by simpa using H.nodup
    obtain ⟨slab₁, h₁, hlen₁, hseg₁, hf₁⟩ := hseg.setNext hnd (some l.slab.vacant)
    have hnot : l.slab.vacant ∉ (zs ++ [t]).map Cell.sid := by
      intro hm
      obtain ⟨c, hc, he⟩ := List.mem_map.mp hm
      exact hfresh c hc he
    have hnew₁ : Seg slab₁ none [⟨l.slab.vacant, key, value⟩] none := by
      refine Seg.cons.mpr ⟨?_, trivial⟩
      rw [hf₁ _ hnot, hnew]
      rfl
    obtain ⟨slab₂, h₂, hlen₂, hseg₂, hf₂⟩ :=
      hnew₁.setPrev (List.nodup_singleton _) (some t.sid)
    refine ⟨⟨l.keyToSid.insert key l.slab.vacant, slab₂, l.head, some l.slab.vacant⟩,
      l.slab.vacant, ?_, ?_⟩
    · rw [last_concat] at h₁
      rw [first_cons] at h₂
      rw [pushBack, if_neg hkc]
      simp [htail, h₁, h₂]
    · refine H.of_insert ⟨l.slab.vacant, key, value⟩ hk' ?_ ?_ ?_ ?_
      · refine Seg.append.mpr ⟨?_, ?_⟩
        · refine hseg₁.frame fun c hc => hf₂ _ ?_
          have := hfresh c hc
          simpa using this
        · rw [last_concat]
          exact hseg₂
      · rw [hlen₂, hlen₁, Slab.len_insert]
      · simpa using H.head
      · rw [last_concat]

theorem insertBefore_duplicate [SlabPolicy] (H : l.Holds cells) (before : K) {key : K}
    (hk : key ∈ cells.map Cell.key) (value : V) :
    l.insertBefore before key value = some (l, false) := by
  rw [insertBefore, if_pos ((H.contains_iff key).mpr hk)]

theorem insertBefore_missing [SlabPolicy] (H : l.Holds cells) {before : K}
    (hb : before ∉ cells.map Cell.key) (key : K) (value : V) :
    l.insertBefore before key value = some (l, false) := by
  rw [insertBefore, H.index_eq_none hb]
  split <;> rfl

/-- **`insertBefore` puts a cell directly in front of its anchor.** -/
theorem insertBefore_spec [SlabPolicy] (H : l.Holds (xs ++ b :: ys)) {key : K}
    (hk : key ∉ (xs ++ b :: ys).map Cell.key) (value : V) :
    ∃ l' sid, l.insertBefore b.key key value = some (l', true) ∧
      l'.Holds (xs ++ ⟨sid, key, value⟩ :: b :: ys) := by
  have hkc : ¬ l.keyToSid.contains key = true := mt (H.contains_iff key).mp hk
  obtain ⟨hxs, hys⟩ := Seg.append.mp H.seg
  have hb : l.slab.get? b.sid = some ⟨b.key, b.value, (first ys).or none, (last xs).or none⟩ :=
    (Seg.cons.mp hys).1
  set node : Node K V := ⟨key, value, some b.sid, last xs⟩ with hnode
  have hfresh : ∀ c ∈ xs ++ b :: ys, c.sid ≠ l.slab.vacant := by
    intro c hc
    obtain ⟨n, p, h⟩ := H.seg.get?_of_mem hc
    exact Slab.ne_vacant h
  have hnot : ∀ zs, zs ⊆ xs ++ b :: ys → l.slab.vacant ∉ zs.map Cell.sid := by
    intro zs hz hm
    obtain ⟨c, hc, he⟩ := List.mem_map.mp hm
    exact hfresh c (hz hc) he
  have hseg : Seg (l.slab.insert node).1 none (xs ++ b :: ys) none := by
    refine H.seg.frame fun c hc => ?_
    rw [Slab.get?_insert, if_neg (hfresh c hc).symm]
  obtain ⟨hxs₀, hys₀⟩ := Seg.append.mp hseg
  have hnd := H.nodup
  rw [List.map_append, List.nodup_append] at hnd
  obtain ⟨slab₁, h₁, hlen₁, hys₁, hf₁⟩ := hys₀.setPrev hnd.2.1 (some l.slab.vacant)
  have hxs₁ : Seg slab₁ none xs ((first (b :: ys)).or none) :=
    hxs₀.frame fun c hc => hf₁ _ (H.seg.apart H.nodup hc)
  obtain ⟨slab₂, h₂, hlen₂, hxs₂, hf₂⟩ := hxs₁.setNext hnd.1 (some l.slab.vacant)
  refine ⟨⟨l.keyToSid.insert key l.slab.vacant, slab₂,
    (match last xs with | some _ => l.head | none => some l.slab.vacant), l.tail⟩,
    l.slab.vacant, ?_, ?_⟩
  · rw [insertBefore, if_neg hkc, H.index_of_mem (by simp)]
    rw [first_cons] at h₁
    simp only [Option.bind_eq_bind, hb, Option.bind_some, Option.or_none, Slab.insert_snd,
      ← hnode, h₁, h₂]
  · refine H.of_insert ⟨l.slab.vacant, key, value⟩ hk ?_ ?_ ?_ ?_
    · refine Seg.append.mpr ⟨hxs₂, Seg.cons.mpr ⟨?_, ?_⟩⟩
      · change slab₂.get? l.slab.vacant = _
        rw [hf₂ _ (hnot _ (by simp)), hf₁ _ (hnot _ (by simp)), Slab.get?_insert, if_pos rfl, hnode]
        simp
      · refine hys₁.frame fun c hc => hf₂ _ ?_
        intro hm
        obtain ⟨d, hd, he⟩ := List.mem_map.mp hm
        exact H.seg.apart H.nodup hd (he ▸ List.mem_map_of_mem hc)
    · rw [hlen₂, hlen₁, Slab.len_insert]
    · rw [H.head]
      rcases List.eq_nil_or_concat' xs with rfl | ⟨zs, t, rfl⟩
      · simp
      · simp only [last_concat, first_append]
        cases zs <;> simp
    · rw [H.tail]
      simp [last, List.getLast?_append]

theorem removeFront_nil (H : l.Holds []) : l.removeFront = some (l, false) := by
  rw [removeFront, H.head]
  rfl

/-- **`removeFront` drops the first cell.** -/
theorem removeFront_spec (H : l.Holds (c :: ys)) :
    ∃ l', l.removeFront = some (l', true) ∧ l'.Holds ys := by
  obtain ⟨hc, hys⟩ := Seg.cons.mp H.seg
  obtain ⟨slab₁, h₁, hlen₁, hf₁⟩ := Slab.remove_eq_some hc
  have hnd := H.nodup
  rw [List.map_cons, List.nodup_cons] at hnd
  have hys₁ : Seg slab₁ (some c.sid) ys none := by
    refine hys.frame fun d hd => ?_
    rw [hf₁, if_neg]
    intro he
    exact H.seg.apart_cons H.nodup (he ▸ List.mem_map_of_mem hd)
  obtain ⟨slab₂, h₂, hlen₂, hys₂, -⟩ := hys₁.setPrev hnd.2 none
  have H' : l.Holds ([] ++ c :: ys) := H
  refine ⟨⟨l.keyToSid.erase c.key, slab₂, first ys, last ys⟩, ?_, ?_⟩
  · rw [removeFront, H.head]
    cases ys with
    | nil => simp [h₁, RawList.setPrev] at h₂ ⊢; exact h₂
    | cons d ds =>
      have htail : l.tail = last (d :: ds) := by
        rw [H.tail, last_cons c]
        cases h : last (d :: ds) with
        | none => simp [last] at h
        | some _ => rfl
      rw [first_cons] at h₂
      simp [h₁, h₂, htail]
  · exact H'.of_erase hys₂ (by omega) rfl rfl

theorem removeNode_missing (H : l.Holds cells) {key : K} (hk : key ∉ cells.map Cell.key) :
    l.removeNode key = some (l, none) := by
  rw [removeNode, H.index_eq_none hk]

/-- **`removeNode` drops the cell of its key.** -/
theorem removeNode_spec (H : l.Holds (xs ++ c :: ys)) :
    ∃ l', l.removeNode c.key = some (l', some c.value) ∧ l'.Holds (xs ++ ys) := by
  obtain ⟨hxs, hcys⟩ := Seg.append.mp H.seg
  obtain ⟨hc, hys⟩ := Seg.cons.mp hcys
  obtain ⟨slab₁, h₁, hlen₁, hf₁⟩ := Slab.remove_eq_some hc
  have hnd := H.nodup_erase
  rw [List.map_append, List.nodup_append] at hnd
  have hxc : ∀ d ∈ xs, c.sid ≠ d.sid := by
    intro d hd he
    exact H.seg.apart H.nodup hd (by simp [he])
  have hyc : ∀ d ∈ ys, c.sid ≠ d.sid := by
    intro d hd he
    have hnd' := H.nodup
    rw [List.map_append, List.nodup_append] at hnd'
    exact hcys.apart_cons hnd'.2.1 (he ▸ List.mem_map_of_mem hd)
  have hxs₁ : Seg slab₁ none xs ((first (c :: ys)).or none) :=
    hxs.frame fun d hd => by rw [hf₁, if_neg (hxc d hd)]
  have hys₁ : Seg slab₁ (some c.sid) ys none :=
    hys.frame fun d hd => by rw [hf₁, if_neg (hyc d hd)]
  have hapart : ∀ d ∈ xs, d.sid ∉ ys.map Cell.sid := by
    intro d hd hm
    exact H.seg.apart H.nodup hd (List.mem_cons_of_mem _ hm)
  obtain ⟨slab₂, h₂, hlen₂, hxs₂, hf₂⟩ := hxs₁.setNext hnd.1 (first ys)
  have hys₂ : Seg slab₂ (some c.sid) ys none := by
    refine hys₁.frame fun d hd => hf₂ _ fun hm => ?_
    obtain ⟨e, he, hs⟩ := List.mem_map.mp hm
    exact hapart e he (hs ▸ List.mem_map_of_mem hd)
  obtain ⟨slab₃, h₃, hlen₃, hys₃, hf₃⟩ := hys₂.setPrev hnd.2.1 (last xs)
  refine ⟨⟨l.keyToSid.erase c.key, slab₃,
    (match last xs with | some _ => l.head | none => first ys),
    (match first ys with | some _ => l.tail | none => last xs)⟩, ?_, ?_⟩
  · rw [removeNode, H.index_of_mem (by simp)]
    simp only [Option.bind_eq_bind, h₁, Option.bind_some, Option.or_none, h₂, h₃]
  · refine H.of_erase (Seg.append.mpr ⟨?_, ?_⟩) (by omega) ?_ ?_
    · rw [Option.or_none]
      exact hxs₂.frame fun d hd => hf₃ _ (hapart d hd)
    · rw [Option.or_none]
      exact hys₃
    · rw [H.head]
      rcases List.eq_nil_or_concat' xs with rfl | ⟨zs, t, rfl⟩
      · simp
      · simp only [last_concat, first_append]
        cases zs <;> simp
    · rw [H.tail]
      cases ys with
      | nil => simp
      | cons d ds => simp [last, List.getLast?_append, List.getLast?_cons]

theorem nodeValue_spec (H : l.Holds (xs ++ c :: ys)) :
    l.nodeValue c.key = some (some c.value) := by
  obtain ⟨n, p, h⟩ := H.seg.get?_of_mem (c := c) (by simp)
  rw [nodeValue, H.index_of_mem (by simp)]
  simp [h]

theorem nodeValue_missing (H : l.Holds cells) {key : K} (hk : key ∉ cells.map Cell.key) :
    l.nodeValue key = some none := by
  rw [nodeValue, H.index_eq_none hk]

theorem headValue_spec (H : l.Holds cells) :
    l.headValue = some (cells.head?.map Cell.value) := by
  rw [headValue, H.head]
  cases cells with
  | nil => rfl
  | cons c cs =>
    obtain ⟨n, p, h⟩ := H.seg.get?_of_mem List.mem_cons_self
    simp [h]

/-- Writing a value in place. -/
private theorem Holds.of_update (H : l.Holds (xs ++ c :: ys)) (value : V) :
    ∃ slab, (l.slab.update c.sid fun n => { n with value }) = some slab ∧
      Holds { l with slab } (xs ++ { c with value } :: ys) := by
  obtain ⟨hxs, hcys⟩ := Seg.append.mp H.seg
  obtain ⟨hc, hys⟩ := Seg.cons.mp hcys
  obtain ⟨slab, h, hlen, hf⟩ := Slab.update_eq_some hc fun n => { n with value }
  refine ⟨slab, h, ?_⟩
  have hxc : ∀ d ∈ xs, c.sid ≠ d.sid := by
    intro d hd he
    exact H.seg.apart H.nodup hd (by simp [he])
  have hyc : ∀ d ∈ ys, c.sid ≠ d.sid := by
    intro d hd he
    have hnd := H.nodup
    rw [List.map_append, List.nodup_append] at hnd
    exact hcys.apart_cons hnd.2.1 (he ▸ List.mem_map_of_mem hd)
  have hlast : last (c :: ys) = last ({ c with value } :: ys) := by
    rw [last_cons, last_cons]
  have hmid : ∀ zs : List (Cell K V), last (zs ++ c :: ys) = last (zs ++ { c with value } :: ys) := by
    intro zs
    induction zs with
    | nil => exact hlast
    | cons z zs ih => rw [List.cons_append, List.cons_append, last_cons, last_cons, ih]
  refine ⟨Seg.append.mpr ⟨?_, Seg.cons.mpr ⟨?_, ?_⟩⟩, ?_, ?_, ?_, ?_, ?_, ?_⟩
  · exact hxs.frame fun d hd => by rw [hf, if_neg (hxc d hd)]
  · simp [hf]
  · exact hys.frame fun d hd => by rw [hf, if_neg (hyc d hd)]
  · have := H.head
    rw [first_append] at this ⊢
    exact this
  · rw [← hmid]
    exact H.tail
  · simpa using H.nodup
  · intro k sid
    refine (H.index k sid).trans ?_
    simp only [List.mem_append, List.mem_cons]
    constructor
    · rintro ⟨d, hd | rfl | hd, hk, hs⟩
      · exact ⟨d, Or.inl hd, hk, hs⟩
      · exact ⟨_, Or.inr (Or.inl rfl), hk, hs⟩
      · exact ⟨d, Or.inr (Or.inr hd), hk, hs⟩
    · rintro ⟨d, hd | rfl | hd, hk, hs⟩
      · exact ⟨d, Or.inl hd, hk, hs⟩
      · exact ⟨c, Or.inr (Or.inl rfl), hk, hs⟩
      · exact ⟨d, Or.inr (Or.inr hd), hk, hs⟩
  · simpa using H.size
  · simpa [hlen] using H.slots

/-- **Writing through `nodeValue` changes the value of its key.** -/
theorem setNodeValue_spec (H : l.Holds (xs ++ c :: ys)) (value : V) :
    ∃ l', l.setNodeValue c.key value = some l' ∧ l'.Holds (xs ++ { c with value } :: ys) := by
  obtain ⟨slab, h, H'⟩ := H.of_update value
  refine ⟨{ l with slab }, ?_, H'⟩
  rw [setNodeValue, H.index_of_mem (by simp)]
  simp [h]

/-- **Writing through `headValue` changes the first value.** -/
theorem setHeadValue_spec (H : l.Holds (c :: ys)) (value : V) :
    ∃ l', l.setHeadValue value = some l' ∧ l'.Holds ({ c with value } :: ys) := by
  have H₀ : l.Holds ([] ++ c :: ys) := H
  obtain ⟨slab, h, H'⟩ := H₀.of_update value
  refine ⟨{ l with slab }, ?_, H'⟩
  rw [setHeadValue, H.head]
  simp [h]

/-- Appending a list of items one by one. -/
private theorem foldlM_pushBack [SlabPolicy] (items : List (K × V)) (H : l.Holds cells)
    (hk : (cells.map Cell.key ++ items.map Prod.fst).Nodup) :
    ∃ l' cells', items.foldlM
        (fun l item => do some (← RawList.pushBack l item.1 item.2).1) l = some l' ∧
      l'.Holds cells' ∧ cells'.map Cell.item = cells.map Cell.item ++ items := by
  induction items generalizing l cells with
  | nil => exact ⟨l, cells, rfl, H, by simp⟩
  | cons x items ih =>
    obtain ⟨key, value⟩ := x
    have hfresh : key ∉ cells.map Cell.key := by
      intro hm
      rw [List.nodup_append] at hk
      exact hk.2.2 _ hm _ (by simp) rfl
    obtain ⟨l₁, sid, h₁, H₁⟩ := pushBack_spec H hfresh value
    obtain ⟨l', cells', h', H', hitems⟩ := ih H₁ (by simpa using hk)
    refine ⟨l', cells', ?_, H', ?_⟩
    · simpa [h₁] using h'
    · simpa [Cell.item] using hitems

/-- **`compact` moves the nodes and keeps the sequence.** -/
theorem compact_spec [SlabPolicy] (H : l.Holds cells) :
    ∃ l' cells' b, l.compact = some (l', b) ∧ l'.Holds cells' ∧
      cells'.map Cell.item = cells.map Cell.item := by
  rw [compact]
  split
  · exact ⟨l, cells, false, rfl, H, rfl⟩
  · have hk : (cells.map Cell.item).map Prod.fst = cells.map Cell.key := by simp [Cell.item]
    obtain ⟨l', cells', h', H', hitems⟩ := foldlM_pushBack (cells.map Cell.item)
      (holds_empty (K := K) (V := V) l.slab.len) (by simpa [hk] using H.nodup)
    refine ⟨l', cells', true, ?_, H', by simpa using hitems⟩
    simp only [Option.bind_eq_bind] at h' ⊢
    simp only [H.items, Option.bind_some, h']

end Spec

end RawList

/-! ## The sealed handle -/

/-- A keyed linked list: a representation together with the proof that it spells
out some list of cells. -/
structure LinkedList (K V : Type) [Ord K] [Std.TransOrd K] where
  raw : RawList K V
  holds : ∃ cells, raw.Holds cells

namespace LinkedList

variable {K V : Type} [Ord K] [Std.TransOrd K] [Std.LawfulEqOrd K] {β : Type}

/-- The result of an operation that does not panic, sealed again. -/
def sealed (r : Option (RawList K V × β))
    (h : ∃ l b, r = some (l, b) ∧ ∃ cells, l.Holds cells) : LinkedList K V × β :=
  match r, h with
  | some (l, b), h => (⟨l, by obtain ⟨_, _, he, hc⟩ := h; cases he; exact hc⟩, b)
  | none, h => absurd h (by simp)

theorem sealed_eq {r : Option (RawList K V × β)}
    (h : ∃ l b, r = some (l, b) ∧ ∃ cells, l.Holds cells) {l : RawList K V} {b : β}
    (hr : r = some (l, b)) : (sealed r h).1.raw = l ∧ (sealed r h).2 = b := by
  subst hr
  exact ⟨rfl, rfl⟩

/-- The keys and values in queue order. -/
def toList (l : LinkedList K V) : List (K × V) :=
  l.raw.items.get (by obtain ⟨cells, H⟩ := l.holds; simp [H.items])

theorem toList_eq {l : LinkedList K V} {cells : List (RawList.Cell K V)}
    (H : l.raw.Holds cells) : l.toList = cells.map RawList.Cell.item := by
  simp [toList, H.items]

/-- The keys of a list are distinct. -/
theorem nodup_keys (l : LinkedList K V) : (l.toList.map Prod.fst).Nodup := by
  obtain ⟨cells, H⟩ := l.holds
  rw [toList_eq H]
  simpa [RawList.Cell.item, Function.comp_def] using H.nodup

theorem map_fst_item (cells : List (RawList.Cell K V)) :
    (cells.map RawList.Cell.item).map Prod.fst = cells.map RawList.Cell.key := by
  simp [RawList.Cell.item, Function.comp_def]

/-- A sequence of items that splits comes from cells that split. -/
theorem exists_cells_split {cells : List (RawList.Cell K V)} {xs ys : List (K × V)} {k : K} {v : V}
    (h : cells.map RawList.Cell.item = xs ++ (k, v) :: ys) :
    ∃ cs c ds, cells = cs ++ c :: ds ∧ cs.map RawList.Cell.item = xs ∧ c.key = k ∧ c.value = v ∧
      ds.map RawList.Cell.item = ys := by
  obtain ⟨cs, rest, rfl, hcs, hrest⟩ := List.map_eq_append_iff.mp h
  obtain ⟨c, ds, rfl, hc, hds⟩ := List.map_eq_cons_iff.mp hrest
  refine ⟨cs, c, ds, rfl, hcs, ?_, ?_, hds⟩
  · exact congrArg Prod.fst hc
  · exact congrArg Prod.snd hc

/-- An item of a sequence with distinct keys is found by its key. -/
theorem exists_split {items : List (K × V)} {k : K} (h : k ∈ items.map Prod.fst) :
    ∃ xs v ys, items = xs ++ (k, v) :: ys := by
  obtain ⟨⟨k', v⟩, hx, rfl⟩ := List.mem_map.mp h
  obtain ⟨xs, ys, rfl⟩ := List.append_of_mem hx
  exact ⟨xs, v, ys, rfl⟩

/-- The empty list. -/
def new : LinkedList K V := ⟨RawList.new, [], RawList.holds_empty 0⟩

@[simp] theorem toList_new : (new : LinkedList K V).toList = [] :=
  toList_eq (l := new) (RawList.holds_empty 0)

/-- Whether a key is in the list. -/
def containsKey (l : LinkedList K V) (key : K) : Bool := l.raw.containsKey key

@[simp] theorem containsKey_iff (l : LinkedList K V) (key : K) :
    l.containsKey key = true ↔ key ∈ l.toList.map Prod.fst := by
  obtain ⟨cells, H⟩ := l.holds
  rw [toList_eq H, map_fst_item]
  exact H.contains_iff key

/-- Whether the list is empty. -/
def isEmpty (l : LinkedList K V) : Bool := l.raw.isEmpty

@[simp] theorem isEmpty_eq (l : LinkedList K V) : l.isEmpty = l.toList.isEmpty := by
  obtain ⟨cells, H⟩ := l.holds
  rw [toList_eq H, isEmpty, H.isEmpty]
  cases cells <;> rfl

/-- The number of nodes. -/
def len (l : LinkedList K V) : ℕ := l.raw.len

@[simp] theorem len_eq (l : LinkedList K V) : l.len = l.toList.length := by
  obtain ⟨cells, H⟩ := l.holds
  rw [toList_eq H, len, H.len, List.length_map]

/-- The values in queue order. -/
def toVec (l : LinkedList K V) : List V := l.toList.map Prod.snd

/-- Append a value; `false` when the key is in the list already. -/
def pushBack [SlabPolicy] (l : LinkedList K V) (key : K) (value : V) : LinkedList K V × Bool :=
  sealed (l.raw.pushBack key value) <| by
    obtain ⟨cells, H⟩ := l.holds
    by_cases hk : key ∈ cells.map RawList.Cell.key
    · exact ⟨_, _, RawList.pushBack_duplicate H hk value, cells, H⟩
    · obtain ⟨l', sid, h, H'⟩ := RawList.pushBack_spec H hk value
      exact ⟨l', _, h, _, H'⟩

theorem pushBack_of_mem [SlabPolicy] {l : LinkedList K V} {key : K}
    (hk : key ∈ l.toList.map Prod.fst) (value : V) :
    (l.pushBack key value).1.toList = l.toList ∧ (l.pushBack key value).2 = false := by
  obtain ⟨cells, H⟩ := l.holds
  rw [toList_eq H, map_fst_item] at hk
  obtain ⟨hraw, hb⟩ := sealed_eq _ (RawList.pushBack_duplicate H hk value)
  refine ⟨?_, hb⟩
  rw [toList_eq H, pushBack]
  exact toList_eq (by rw [hraw]; exact H)

theorem pushBack_of_notMem [SlabPolicy] {l : LinkedList K V} {key : K}
    (hk : key ∉ l.toList.map Prod.fst) (value : V) :
    (l.pushBack key value).1.toList = l.toList ++ [(key, value)] ∧
      (l.pushBack key value).2 = true := by
  obtain ⟨cells, H⟩ := l.holds
  rw [toList_eq H, map_fst_item] at hk
  obtain ⟨l', sid, h, H'⟩ := RawList.pushBack_spec H hk value
  obtain ⟨hraw, hb⟩ := sealed_eq _ h
  refine ⟨?_, hb⟩
  rw [toList_eq H, pushBack, toList_eq (by rw [hraw]; exact H')]
  simp [RawList.Cell.item]

/-- Insert a value directly in front of another; `false` when the anchor is not
in the list or the key is. -/
def insertBefore [SlabPolicy] (l : LinkedList K V) (before key : K) (value : V) :
    LinkedList K V × Bool :=
  sealed (l.raw.insertBefore before key value) <| by
    obtain ⟨cells, H⟩ := l.holds
    by_cases hk : key ∈ cells.map RawList.Cell.key
    · exact ⟨_, _, RawList.insertBefore_duplicate H before hk value, cells, H⟩
    · by_cases hb : before ∈ cells.map RawList.Cell.key
      · obtain ⟨c, hc, rfl⟩ := List.mem_map.mp hb
        obtain ⟨xs, ys, rfl⟩ := List.append_of_mem hc
        obtain ⟨l', sid, h, H'⟩ := RawList.insertBefore_spec H hk value
        exact ⟨l', _, h, _, H'⟩
      · exact ⟨_, _, RawList.insertBefore_missing H hb key value, cells, H⟩

theorem insertBefore_of_mem [SlabPolicy] {l : LinkedList K V} (before : K) {key : K}
    (hk : key ∈ l.toList.map Prod.fst) (value : V) :
    (l.insertBefore before key value).1.toList = l.toList ∧
      (l.insertBefore before key value).2 = false := by
  obtain ⟨cells, H⟩ := l.holds
  rw [toList_eq H, map_fst_item] at hk
  obtain ⟨hraw, hb⟩ := sealed_eq _ (RawList.insertBefore_duplicate H before hk value)
  refine ⟨?_, hb⟩
  rw [toList_eq H, insertBefore]
  exact toList_eq (by rw [hraw]; exact H)

theorem insertBefore_of_missing [SlabPolicy] {l : LinkedList K V} {before : K}
    (hb : before ∉ l.toList.map Prod.fst) (key : K) (value : V) :
    (l.insertBefore before key value).1.toList = l.toList ∧
      (l.insertBefore before key value).2 = false := by
  obtain ⟨cells, H⟩ := l.holds
  rw [toList_eq H, map_fst_item] at hb
  obtain ⟨hraw, hb⟩ := sealed_eq _ (RawList.insertBefore_missing H hb key value)
  refine ⟨?_, hb⟩
  rw [toList_eq H, insertBefore]
  exact toList_eq (by rw [hraw]; exact H)

theorem insertBefore_of_split [SlabPolicy] {l : LinkedList K V} {before key : K} {v : V}
    {xs ys : List (K × V)} (hl : l.toList = xs ++ (before, v) :: ys)
    (hk : key ∉ l.toList.map Prod.fst) (value : V) :
    (l.insertBefore before key value).1.toList = xs ++ (key, value) :: (before, v) :: ys ∧
      (l.insertBefore before key value).2 = true := by
  obtain ⟨cells, H⟩ := l.holds
  rw [toList_eq H] at hl
  rw [toList_eq H, map_fst_item] at hk
  obtain ⟨cs, c, ds, rfl, rfl, rfl, rfl, rfl⟩ := exists_cells_split hl
  obtain ⟨l', sid, h, H'⟩ := RawList.insertBefore_spec H hk value
  obtain ⟨hraw, hb⟩ := sealed_eq _ h
  refine ⟨?_, hb⟩
  rw [insertBefore, toList_eq (by rw [hraw]; exact H')]
  simp [RawList.Cell.item]

/-- The first value. -/
def headValue (l : LinkedList K V) : Option V := (l.raw.headValue).getD none

@[simp] theorem headValue_eq (l : LinkedList K V) :
    l.headValue = l.toList.head?.map Prod.snd := by
  obtain ⟨cells, H⟩ := l.holds
  rw [headValue, RawList.headValue_spec H, toList_eq H]
  cases cells <;> rfl

/-- Write through the mutable reference to the first value. -/
def setHeadValue (l : LinkedList K V) (value : V) : LinkedList K V :=
  (sealed ((l.raw.setHeadValue value).map (·, ())) <| by
    obtain ⟨cells, H⟩ := l.holds
    cases cells with
    | nil =>
      refine ⟨l.raw, (), ?_, [], H⟩
      rw [RawList.setHeadValue, H.head]
      rfl
    | cons c cs =>
      obtain ⟨l', h, H'⟩ := RawList.setHeadValue_spec H value
      exact ⟨l', (), by rw [h]; rfl, _, H'⟩).1

theorem toList_setHeadValue {l : LinkedList K V} {k : K} {v : V} {ys : List (K × V)}
    (hl : l.toList = (k, v) :: ys) (value : V) :
    (l.setHeadValue value).toList = (k, value) :: ys := by
  obtain ⟨cells, H⟩ := l.holds
  rw [toList_eq H] at hl
  obtain ⟨c, ds, rfl, hc, rfl⟩ := List.map_eq_cons_iff.mp hl
  obtain ⟨l', h, H'⟩ := RawList.setHeadValue_spec H value
  have hr : (l.raw.setHeadValue value).map (·, ()) = some (l', ()) := by rw [h]; rfl
  obtain ⟨hraw, -⟩ := sealed_eq ⟨_, _, hr, _, H'⟩ hr
  rw [setHeadValue, toList_eq (by rw [hraw]; exact H')]
  cases hc
  rfl

/-- Drop the first node; `false` when the list is empty. -/
def removeFront (l : LinkedList K V) : LinkedList K V × Bool :=
  sealed l.raw.removeFront <| by
    obtain ⟨cells, H⟩ := l.holds
    cases cells with
    | nil => exact ⟨_, _, RawList.removeFront_nil H, [], H⟩
    | cons c cs =>
      obtain ⟨l', h, H'⟩ := RawList.removeFront_spec H
      exact ⟨l', _, h, _, H'⟩

@[simp] theorem toList_removeFront (l : LinkedList K V) :
    l.removeFront.1.toList = l.toList.tail := by
  obtain ⟨cells, H⟩ := l.holds
  cases cells with
  | nil =>
    obtain ⟨hraw, -⟩ := sealed_eq ⟨_, _, RawList.removeFront_nil H, [], H⟩ (RawList.removeFront_nil H)
    rw [toList_eq H, removeFront, toList_eq (by rw [hraw]; exact H)]
    rfl
  | cons c cs =>
    obtain ⟨l', h, H'⟩ := RawList.removeFront_spec H
    obtain ⟨hraw, -⟩ := sealed_eq ⟨_, _, h, _, H'⟩ h
    rw [toList_eq H, removeFront, toList_eq (by rw [hraw]; exact H')]
    rfl

/-- Drop the node of a key; the answer is its value. -/
def removeNode (l : LinkedList K V) (key : K) : LinkedList K V × Option V :=
  sealed (l.raw.removeNode key) <| by
    obtain ⟨cells, H⟩ := l.holds
    by_cases hk : key ∈ cells.map RawList.Cell.key
    · obtain ⟨c, hc, rfl⟩ := List.mem_map.mp hk
      obtain ⟨xs, ys, rfl⟩ := List.append_of_mem hc
      obtain ⟨l', h, H'⟩ := RawList.removeNode_spec H
      exact ⟨l', _, h, _, H'⟩
    · exact ⟨_, _, RawList.removeNode_missing H hk, cells, H⟩

theorem removeNode_of_notMem {l : LinkedList K V} {key : K}
    (hk : key ∉ l.toList.map Prod.fst) :
    (l.removeNode key).1.toList = l.toList ∧ (l.removeNode key).2 = none := by
  obtain ⟨cells, H⟩ := l.holds
  rw [toList_eq H, map_fst_item] at hk
  obtain ⟨hraw, hb⟩ := sealed_eq _ (RawList.removeNode_missing H hk)
  refine ⟨?_, hb⟩
  rw [toList_eq H, removeNode]
  exact toList_eq (by rw [hraw]; exact H)

theorem removeNode_of_split {l : LinkedList K V} {key : K} {v : V} {xs ys : List (K × V)}
    (hl : l.toList = xs ++ (key, v) :: ys) :
    (l.removeNode key).1.toList = xs ++ ys ∧ (l.removeNode key).2 = some v := by
  obtain ⟨cells, H⟩ := l.holds
  rw [toList_eq H] at hl
  obtain ⟨cs, c, ds, rfl, rfl, rfl, rfl, rfl⟩ := exists_cells_split hl
  obtain ⟨l', h, H'⟩ := RawList.removeNode_spec H
  obtain ⟨hraw, hb⟩ := sealed_eq _ h
  refine ⟨?_, hb⟩
  rw [removeNode, toList_eq (by rw [hraw]; exact H')]
  simp

/-- The value of a key. -/
def nodeValue (l : LinkedList K V) (key : K) : Option V := (l.raw.nodeValue key).getD none

theorem nodeValue_of_notMem {l : LinkedList K V} {key : K}
    (hk : key ∉ l.toList.map Prod.fst) : l.nodeValue key = none := by
  obtain ⟨cells, H⟩ := l.holds
  rw [toList_eq H, map_fst_item] at hk
  rw [nodeValue, RawList.nodeValue_missing H hk]
  rfl

theorem nodeValue_of_split {l : LinkedList K V} {key : K} {v : V} {xs ys : List (K × V)}
    (hl : l.toList = xs ++ (key, v) :: ys) : l.nodeValue key = some v := by
  obtain ⟨cells, H⟩ := l.holds
  rw [toList_eq H] at hl
  obtain ⟨cs, c, ds, rfl, rfl, rfl, rfl, rfl⟩ := exists_cells_split hl
  rw [nodeValue, RawList.nodeValue_spec H]
  rfl

/-- Write through the mutable reference to the value of a key. -/
def setNodeValue (l : LinkedList K V) (key : K) (value : V) : LinkedList K V :=
  (sealed ((l.raw.setNodeValue key value).map (·, ())) <| by
    obtain ⟨cells, H⟩ := l.holds
    by_cases hk : key ∈ cells.map RawList.Cell.key
    · obtain ⟨c, hc, rfl⟩ := List.mem_map.mp hk
      obtain ⟨xs, ys, rfl⟩ := List.append_of_mem hc
      obtain ⟨l', h, H'⟩ := RawList.setNodeValue_spec H value
      exact ⟨l', (), by rw [h]; rfl, _, H'⟩
    · refine ⟨l.raw, (), ?_, cells, H⟩
      rw [RawList.setNodeValue, H.index_eq_none hk]
      rfl).1

theorem setNodeValue_of_split {l : LinkedList K V} {key : K} {v : V} {xs ys : List (K × V)}
    (hl : l.toList = xs ++ (key, v) :: ys) (value : V) :
    (l.setNodeValue key value).toList = xs ++ (key, value) :: ys := by
  obtain ⟨cells, H⟩ := l.holds
  rw [toList_eq H] at hl
  obtain ⟨cs, c, ds, rfl, rfl, rfl, rfl, rfl⟩ := exists_cells_split hl
  obtain ⟨l', h, H'⟩ := RawList.setNodeValue_spec H value
  have hr : (l.raw.setNodeValue c.key value).map (·, ()) = some (l', ()) := by rw [h]; rfl
  obtain ⟨hraw, -⟩ := sealed_eq ⟨_, _, hr, _, H'⟩ hr
  rw [setNodeValue, toList_eq (by rw [hraw]; exact H')]
  simp [RawList.Cell.item]

/-- Rebuild the slab when it is heavily over-allocated; `false` when it is not. -/
def compact [SlabPolicy] (l : LinkedList K V) : LinkedList K V × Bool :=
  sealed l.raw.compact <| by
    obtain ⟨cells, H⟩ := l.holds
    obtain ⟨l', cells', b, h, H', -⟩ := RawList.compact_spec H
    exact ⟨l', b, h, cells', H'⟩

@[simp] theorem toList_compact [SlabPolicy] (l : LinkedList K V) :
    l.compact.1.toList = l.toList := by
  obtain ⟨cells, H⟩ := l.holds
  obtain ⟨l', cells', b, h, H', hitems⟩ := RawList.compact_spec H
  obtain ⟨hraw, -⟩ := sealed_eq ⟨_, _, h, _, H'⟩ h
  rw [toList_eq H, compact, toList_eq (by rw [hraw]; exact H'), hitems]

end LinkedList

end HlOrderbook
